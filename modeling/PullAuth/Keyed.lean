import PullAuth.Text.Lemmas

/-!
Values under keys, in the order in which the keys first came. Putting a value under a key that is
already there replaces the value and keeps its place.
-/
namespace PullAuth

/-- Values under keys; the order counts. -/
abbrev Keyed (α : Type) := List (Text × α)

namespace Keyed

variable {α β : Type}

/-- The value under `key`, if there is one. -/
def get? (key : Text) : Keyed α → Option α
  | [] => none
  | (k, v) :: rest => if k = key then some v else get? key rest

def has (key : Text) (m : Keyed α) : Bool := (get? key m).isSome

/-- `m` with `value` under `key`: in the place of the old value, or else at the end. -/
def put (key : Text) (value : α) : Keyed α → Keyed α
  | [] => [(key, value)]
  | (k, v) :: rest => if k = key then (k, value) :: rest else (k, v) :: put key value rest

/-- `m` with the pairs put into it one after another. -/
def putAll (m : Keyed α) (pairs : List (Text × α)) : Keyed α :=
  pairs.foldl (fun m (k, v) => put k v m) m

/-- The pairs put one after another, so that the last value of a key stands at its first place. -/
def ofPairs (pairs : List (Text × α)) : Keyed α := putAll [] pairs

/-- The pairs with their keys in ascending order. -/
def sorted (m : Keyed α) : Keyed α := m.mergeSort fun a b => Text.notAfter a.1 b.1

/-! ## Looking up what was put -/

/-- Putting a value changes the value under its key and no other. -/
theorem get?_put (key other : Text) (value : α) (m : Keyed α) :
    get? other (put key value m) = if other = key then some value else get? other m := by
  induction m with
  | nil =>
    by_cases h : other = key
    · simp [put, get?, h]
    · have h' : key ≠ other := fun e => h e.symm
      simp [put, get?, h, h']
  | cons pair rest ih =>
    obtain ⟨k, v⟩ := pair
    by_cases hk : k = key
    · by_cases h : other = key
      · simp [put, get?, hk, h]
      · have h' : key ≠ other := fun e => h e.symm
        simp [put, get?, hk, h, h']
    · by_cases h : k = other
      · simp [put, get?, h, h ▸ hk]
      · simp [put, get?, hk, h, ih]

/-- There is a value under a key exactly if the key is one of the keys. -/
theorem has_iff_mem (key : Text) (m : Keyed α) : has key m = true ↔ key ∈ m.map Prod.fst := by
  induction m with
  | nil => simp [has, get?]
  | cons pair rest ih =>
    obtain ⟨k, v⟩ := pair
    by_cases hk : k = key
    · simp [has, get?, hk]
    · have hk' : key ≠ k := fun e => hk e.symm
      simp only [has, get?, if_neg hk, List.map_cons, List.mem_cons, hk', false_or]
      exact ih

/-- A key keeps its place, and a new one comes last. -/
theorem keys_put (key : Text) (value : α) (m : Keyed α) :
    (put key value m).map Prod.fst =
      if has key m then m.map Prod.fst else m.map Prod.fst ++ [key] := by
  induction m with
  | nil => simp [put, has, get?]
  | cons pair rest ih =>
    obtain ⟨k, v⟩ := pair
    by_cases hk : k = key
    · simp [put, has, get?, hk]
    · have hc : has key ((k, v) :: rest) = has key rest := by simp [has, get?, hk]
      simp only [put, if_neg hk, List.map_cons, ih, hc]
      split <;> rfl

theorem nodup_keys_put (key : Text) (value : α) (m : Keyed α) (h : (m.map Prod.fst).Nodup) :
    ((put key value m).map Prod.fst).Nodup := by
  rw [keys_put]
  split
  · exact h
  · rename_i absent
    rw [List.nodup_append]
    refine ⟨h, by simp, fun k hk k' hk' e => absent ?_⟩
    rw [List.mem_singleton] at hk'
    exact (has_iff_mem key m).2 (hk' ▸ e ▸ hk)

theorem putAll_append (m : Keyed α) (first second : List (Text × α)) :
    putAll m (first ++ second) = putAll (putAll m first) second :=
  List.foldl_append

theorem nodup_keys_putAll (m : Keyed α) (pairs : List (Text × α))
    (h : (m.map Prod.fst).Nodup) : ((putAll m pairs).map Prod.fst).Nodup := by
  induction pairs generalizing m with
  | nil => exact h
  | cons pair rest ih => exact ih _ (nodup_keys_put pair.1 pair.2 m h)

/-! ## Looking up what was put one after another -/

theorem get?_append (key : Text) (m n : Keyed α) :
    get? key (m ++ n) = (get? key m).or (get? key n) := by
  induction m with
  | nil => rfl
  | cons pair rest ih =>
    obtain ⟨k, v⟩ := pair
    by_cases hk : k = key
    · simp [get?, hk]
    · simp [get?, hk, ih]

/-- The value under a key is that of the first pair with the key. -/
theorem get?_eq_head? (key : Text) (m : Keyed α) :
    get? key m = (m.filter fun pair => pair.1 = key).head?.map Prod.snd := by
  induction m with
  | nil => rfl
  | cons pair rest ih =>
    obtain ⟨k, v⟩ := pair
    by_cases hk : k = key
    · simp [get?, hk]
    · simp [get?, hk, ih]

/-- Looked up from the end, the value under a key is that of the last pair with the key. -/
theorem get?_reverse (key : Text) (m : Keyed α) :
    get? key m.reverse = (m.filter fun pair => pair.1 = key).getLast?.map Prod.snd := by
  rw [get?_eq_head?, List.filter_reverse, List.head?_reverse]

/-- Where keys differ, a value is found from either end. -/
theorem get?_reverse_of_nodup (key : Text) {m : Keyed α} (h : (m.map Prod.fst).Nodup) :
    get? key m.reverse = get? key m := by
  induction m with
  | nil => rfl
  | cons pair rest ih =>
    obtain ⟨k, v⟩ := pair
    rw [List.map_cons, List.nodup_cons] at h
    rw [List.reverse_cons, get?_append, ih h.2]
    by_cases hk : k = key
    · have absent : get? key rest = none := by
        cases hr : get? key rest with
        | none => rfl
        | some w => exact absurd ((has_iff_mem key rest).1 (by simp [has, hr])) (hk ▸ h.1)
      simp [get?, hk, absent]
    · simp [get?, hk]

/-- Of the values put under a key the last is found, or else the old one. -/
theorem get?_putAll (key : Text) (m : Keyed α) (pairs : List (Text × α)) :
    get? key (putAll m pairs) = (get? key pairs.reverse).or (get? key m) := by
  induction pairs generalizing m with
  | nil => rfl
  | cons pair rest ih =>
    obtain ⟨k, v⟩ := pair
    have step : putAll m ((k, v) :: rest) = putAll (put k v m) rest := rfl
    rw [step, ih, List.reverse_cons, get?_append, get?_put]
    by_cases hk : key = k
    · cases get? key rest.reverse <;> simp [get?, hk]
    · have hk' : k ≠ key := fun e => hk e.symm
      cases get? key rest.reverse <;> simp [get?, hk, hk']

/-- Keys that were there keep their places; new ones follow in the order in which they first
came. -/
theorem keys_putAll (m : Keyed α) (pairs : List (Text × α)) :
    (putAll m pairs).map Prod.fst =
      m.map Prod.fst ++ ((pairs.map Prod.fst).filter fun key => !has key m).eraseDups := by
  induction pairs generalizing m with
  | nil => simp [putAll]
  | cons pair rest ih =>
    obtain ⟨k, v⟩ := pair
    have step : putAll m ((k, v) :: rest) = putAll (put k v m) rest := rfl
    have known (key : Text) : has key (put k v m) = (key == k || has key m) := by
      rw [has, has, get?_put]
      by_cases hk : key = k <;> simp [hk]
    rw [step, ih, keys_put]
    by_cases hk : has k m = true
    · have same : ∀ key, has key (put k v m) = has key m := by
        intro key
        rw [known]
        by_cases e : key = k <;> simp [e, hk]
      simp [hk, same]
    · have hk : has k m = false := by simpa using hk
      simp only [hk, known, List.map_cons, List.filter_cons, Bool.not_false, if_true,
        Bool.false_eq_true, if_false, List.eraseDups_cons, List.filter_filter, Bool.not_or,
        List.append_assoc, List.cons_append, List.nil_append]

/-- Where the keys of the pairs differ, the new ones follow in the order of the pairs. -/
theorem keys_putAll_of_nodup (m : Keyed α) {pairs : List (Text × α)}
    (h : (pairs.map Prod.fst).Nodup) :
    (putAll m pairs).map Prod.fst =
      m.map Prod.fst ++ (pairs.map Prod.fst).filter fun key => !has key m := by
  have once (l : List Text) (hl : l.Nodup) : l.eraseDups = l := by
    induction l with
    | nil => rfl
    | cons key rest ih =>
      rw [List.nodup_cons] at hl
      have others : (rest.filter fun k => !k == key) = rest := by
        rw [List.filter_eq_self]
        intro k hk
        simp only [Bool.not_eq_true', beq_eq_false_iff_ne]
        exact fun e => hl.1 (e ▸ hk)
      rw [List.eraseDups_cons, others, ih hl.2]
  rw [keys_putAll, once _ (h.filter _)]

/-- The keys of what was put one after another are those of the pairs, each in its first place. -/
theorem keys_ofPairs (pairs : List (Text × α)) :
    (ofPairs pairs).map Prod.fst = (pairs.map Prod.fst).eraseDups := by
  have all : ((pairs.map Prod.fst).filter fun key => !has key ([] : Keyed α)) =
      pairs.map Prod.fst := List.filter_eq_self.2 fun _ _ => rfl
  rw [ofPairs, keys_putAll, all, List.map_nil, List.nil_append]

/-- The value under a key is that of the last pair with the key. -/
theorem get?_ofPairs (key : Text) (pairs : List (Text × α)) :
    get? key (ofPairs pairs) = (pairs.filter fun pair => pair.1 = key).getLast?.map Prod.snd := by
  rw [ofPairs, get?_putAll, get?_reverse]
  simp [get?]

theorem sorted_perm (m : Keyed α) : (sorted m).Perm m := List.mergeSort_perm m _

theorem pairwise_sorted (m : Keyed α) :
    (sorted m).Pairwise fun a b => Text.notAfter a.1 b.1 = true :=
  List.pairwise_mergeSort
    (fun a b c (h₁ : Text.notAfter a.1 b.1 = true) (h₂ : Text.notAfter b.1 c.1 = true) =>
      Text.notAfter_trans h₁ h₂)
    (fun a b => Text.notAfter_total a.1 b.1) m

end Keyed

end PullAuth
