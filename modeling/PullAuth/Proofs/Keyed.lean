import Mathlib.Data.List.Nodup
import PullAuth.Keyed

/-!
Values under keys as sets of pairs. What was put somewhere is one of the pairs (`mem_ofPairs`).
Where keys differ, pairs put one after another stay as they are (`ofPairs_of_nodup`), a value is
found exactly under the key that it stands with (`get?_eq_some_iff`), and order makes no difference
(`get?_of_perm`). Pairs can be put into each other first or one after another
(`putAll_putAll`), and putting them again changes nothing (`putAll_self`). Pairs with different keys
are sorted in one way (`sorted_of_perm`), and then their keys ascend strictly (`ascend_sorted`).
-/
namespace PullAuth

namespace Keyed

variable {α β : Type}

theorem get?_map (f : α → β) (key : Text) (m : Keyed α) :
    get? key (m.map fun pair => (pair.1, f pair.2)) = (get? key m).map f := by
  induction m with
  | nil => rfl
  | cons pair rest ih =>
    obtain ⟨k, v⟩ := pair
    by_cases hk : k = key
    · simp [get?, hk]
    · simp only [List.map_cons, get?, if_neg hk, ih]

theorem mem_put {key : Text} {value : α} {m : Keyed α} {pair : Text × α}
    (h : pair ∈ put key value m) : pair = (key, value) ∨ pair ∈ m := by
  induction m with
  | nil => exact .inl (List.mem_singleton.1 h)
  | cons first rest ih =>
    obtain ⟨k, v⟩ := first
    rw [put] at h
    split at h
    · next same =>
      rcases List.mem_cons.1 h with rfl | h
      · exact .inl (by rw [same])
      · exact .inr (List.mem_cons_of_mem _ h)
    · rcases List.mem_cons.1 h with rfl | h
      · exact .inr List.mem_cons_self
      · exact (ih h).imp_right (List.mem_cons_of_mem _)

theorem mem_putAll {m : Keyed α} {pairs : List (Text × α)} {pair : Text × α}
    (h : pair ∈ putAll m pairs) : pair ∈ m ∨ pair ∈ pairs := by
  induction pairs generalizing m with
  | nil => exact .inl h
  | cons first rest ih =>
    rcases ih h with h | h
    · rcases mem_put h with rfl | h
      · exact .inr List.mem_cons_self
      · exact .inl h
    · exact .inr (List.mem_cons_of_mem _ h)

theorem mem_ofPairs {pairs : List (Text × α)} {pair : Text × α} (h : pair ∈ ofPairs pairs) :
    pair ∈ pairs :=
  (mem_putAll h).resolve_left List.not_mem_nil

theorem put_of_not_mem {key : Text} {value : α} {m : Keyed α} (h : key ∉ m.map Prod.fst) :
    put key value m = m ++ [(key, value)] := by
  induction m with
  | nil => rfl
  | cons first rest ih =>
    obtain ⟨k, v⟩ := first
    rw [List.map_cons, List.mem_cons, not_or] at h
    rw [put, if_neg (Ne.symm h.1), ih h.2]
    rfl

theorem putAll_of_nodup {m : Keyed α} {pairs : List (Text × α)}
    (h : ((m ++ pairs).map Prod.fst).Nodup) : putAll m pairs = m ++ pairs := by
  induction pairs generalizing m with
  | nil => exact (List.append_nil m).symm
  | cons first rest ih =>
    obtain ⟨k, v⟩ := first
    have fresh : k ∉ m.map Prod.fst := by
      intro hk
      rw [List.map_append, List.nodup_append] at h
      exact h.2.2 k hk k List.mem_cons_self rfl
    have step : putAll m ((k, v) :: rest) = putAll (put k v m) rest := rfl
    rw [step, put_of_not_mem fresh, ih (by rwa [List.append_assoc]), List.append_assoc]
    rfl

/-- Pairs whose keys differ stay as they are. -/
theorem ofPairs_of_nodup {pairs : List (Text × α)} (h : (pairs.map Prod.fst).Nodup) :
    ofPairs pairs = pairs :=
  putAll_of_nodup (m := []) h

theorem nodup_keys_ofPairs (pairs : List (Text × α)) : ((ofPairs pairs).map Prod.fst).Nodup :=
  nodup_keys_putAll [] pairs List.nodup_nil

theorem get?_eq_some_iff {key : Text} {value : α} {m : Keyed α} (h : (m.map Prod.fst).Nodup) :
    get? key m = some value ↔ (key, value) ∈ m := by
  induction m with
  | nil => simp [get?]
  | cons first rest ih =>
    obtain ⟨k, v⟩ := first
    rw [List.map_cons, List.nodup_cons] at h
    rw [get?, List.mem_cons, Prod.mk.injEq]
    by_cases hk : k = key
    · subst hk
      have absent : (k, value) ∉ rest := fun hm => h.1 (List.mem_map.2 ⟨_, hm, rfl⟩)
      simp [absent, eq_comm]
    · simp [hk, Ne.symm hk, ih h.2]

/-- The order of pairs with different keys does not matter. -/
theorem get?_of_perm {m n : Keyed α} (hp : m.Perm n) (h : (m.map Prod.fst).Nodup) (key : Text) :
    get? key m = get? key n := by
  have h' : (n.map Prod.fst).Nodup := (hp.map Prod.fst).nodup_iff.1 h
  apply Option.ext
  intro value
  rw [get?_eq_some_iff h, get?_eq_some_iff h', hp.mem_iff]

theorem keys_map (f : α → β) (m : Keyed α) :
    (m.map fun pair => (pair.1, f pair.2)).map Prod.fst = m.map Prod.fst := by
  rw [List.map_map]
  rfl

theorem map_put (f : α → β) (key : Text) (value : α) (m : Keyed α) :
    (put key value m).map (fun pair => (pair.1, f pair.2)) =
      put key (f value) (m.map fun pair => (pair.1, f pair.2)) := by
  induction m with
  | nil => rfl
  | cons pair rest ih =>
    obtain ⟨k, v⟩ := pair
    by_cases hk : k = key
    · simp [put, hk]
    · simp [put, hk, ih]

theorem map_putAll (f : α → β) (m : Keyed α) (pairs : List (Text × α)) :
    (putAll m pairs).map (fun pair => (pair.1, f pair.2)) =
      putAll (m.map fun pair => (pair.1, f pair.2)) (pairs.map fun pair => (pair.1, f pair.2)) := by
  induction pairs generalizing m with
  | nil => rfl
  | cons pair rest ih => exact (ih (put pair.1 pair.2 m)).trans (by rw [map_put]; rfl)

/-! ## Putting more than once -/

theorem put_put (key : Text) (value old : α) (m : Keyed α) :
    put key value (put key old m) = put key value m := by
  induction m with
  | nil => simp [put]
  | cons pair rest ih =>
    obtain ⟨k, v⟩ := pair
    by_cases hk : k = key
    · simp [put, hk]
    · simp [put, hk, ih]

/-- A key that has its place already keeps it, so another one can be put before or after it. -/
theorem put_comm {key other : Text} (value : α) (another : α) {m : Keyed α}
    (there : key ∈ m.map Prod.fst) (h : other ≠ key) :
    put key value (put other another m) = put other another (put key value m) := by
  induction m with
  | nil => cases there
  | cons pair rest ih =>
    obtain ⟨k, v⟩ := pair
    by_cases hk : k = key
    · have ho : k ≠ other := fun e => h (e.symm.trans hk)
      have ho' : key ≠ other := fun e => h e.symm
      simp [put, hk, ho']
    · rw [List.map_cons, List.mem_cons] at there
      have later := ih (there.resolve_left fun e => hk e.symm)
      by_cases ho : k = other
      · simp [put, ho, h]
      · simp [put, hk, ho, later]

theorem putAll_put_of_mem {key : Text} (value : α) {m : Keyed α} {pairs : List (Text × α)}
    (there : key ∈ m.map Prod.fst) (h : key ∉ pairs.map Prod.fst) :
    putAll (put key value m) pairs = put key value (putAll m pairs) := by
  induction pairs generalizing m with
  | nil => rfl
  | cons pair rest ih =>
    obtain ⟨k, v⟩ := pair
    rw [List.map_cons, List.mem_cons, not_or] at h
    have kept : key ∈ (put k v m).map Prod.fst := by
      rw [keys_put]
      split
      · exact there
      · exact List.mem_append_left _ there
    calc putAll (put key value m) ((k, v) :: rest)
        = putAll (put k v (put key value m)) rest := rfl
      _ = putAll (put key value (put k v m)) rest := by rw [put_comm value v there (Ne.symm h.1)]
      _ = put key value (putAll (put k v m) rest) := ih kept h.2

/-- A pair can be put into other pairs before they are put anywhere, or afterwards. -/
theorem putAll_put (base : Keyed α) (key : Text) (value : α) {m : Keyed α}
    (h : (m.map Prod.fst).Nodup) :
    putAll base (put key value m) = put key value (putAll base m) := by
  induction m generalizing base with
  | nil => rfl
  | cons pair rest ih =>
    obtain ⟨k, v⟩ := pair
    rw [List.map_cons, List.nodup_cons] at h
    by_cases hk : k = key
    · -- The pair takes the place of one that is put first, and none of the others has its key.
      subst hk
      have there : k ∈ (put k v base).map Prod.fst := by
        rw [keys_put]
        split
        · next found => exact (has_iff_mem k base).1 found
        · simp
      calc putAll base (put k value ((k, v) :: rest))
          = putAll (put k value base) rest := by rw [put, if_pos rfl]; rfl
        _ = putAll (put k value (put k v base)) rest := by rw [put_put]
        _ = put k value (putAll (put k v base) rest) := putAll_put_of_mem value there h.1
    · rw [put, if_neg hk]
      exact ih (put k v base) h.2

/-- Pairs put into each other and then into `base` are as good as put one after another. -/
theorem putAll_putAll (base : Keyed α) {m : Keyed α} (pairs : List (Text × α))
    (h : (m.map Prod.fst).Nodup) : putAll base (putAll m pairs) = putAll (putAll base m) pairs := by
  induction pairs generalizing m with
  | nil => rfl
  | cons pair rest ih =>
    obtain ⟨k, v⟩ := pair
    calc putAll base (putAll (put k v m) rest)
        = putAll (putAll base (put k v m)) rest := ih (nodup_keys_put k v m h)
      _ = putAll (put k v (putAll base m)) rest := by rw [putAll_put base k v h]

theorem get?_eq_none_iff {key : Text} {m : Keyed α} :
    get? key m = none ↔ key ∉ m.map Prod.fst := by
  rw [← has_iff_mem, has, Option.not_isSome_iff_eq_none]

/-- The value under a key stands where the key stands first. -/
theorem exists_of_get? {key : Text} {value : α} {m : Keyed α} (h : get? key m = some value) :
    ∃ before after, m = before ++ (key, value) :: after ∧ key ∉ before.map Prod.fst := by
  induction m with
  | nil => cases h
  | cons pair rest ih =>
    obtain ⟨k, v⟩ := pair
    rw [get?] at h
    split at h
    · next same =>
      cases h
      exact ⟨[], rest, by rw [same]; rfl, List.not_mem_nil⟩
    · next other =>
      obtain ⟨before, after, rfl, fresh⟩ := ih h
      exact ⟨(k, v) :: before, after, rfl, List.not_mem_cons_of_ne_of_not_mem (Ne.symm other) fresh⟩

theorem mem_of_get? {key : Text} {value : α} {m : Keyed α} (h : get? key m = some value) :
    (key, value) ∈ m := by
  obtain ⟨before, after, rfl, -⟩ := exists_of_get? h
  simp

/-- A value is replaced where it stands. -/
theorem put_append_cons {key : Text} {value : α} (old : α) {before : Keyed α} (after : Keyed α)
    (h : key ∉ before.map Prod.fst) :
    put key value (before ++ (key, old) :: after) = before ++ (key, value) :: after := by
  induction before with
  | nil => rw [List.nil_append, put, if_pos rfl, List.nil_append]
  | cons pair rest ih =>
    obtain ⟨k, v⟩ := pair
    rw [List.map_cons, List.mem_cons, not_or] at h
    rw [List.cons_append, put, if_neg (Ne.symm h.1), ih h.2, List.cons_append]

theorem get?_append_cons {key : Text} (value : α) {before : Keyed α} (after : Keyed α)
    (h : key ∉ before.map Prod.fst) :
    get? key (before ++ (key, value) :: after) = some value := by
  rw [get?_append, get?_eq_none_iff.2 h]
  simp [get?]

theorem put_of_get? {key : Text} {value : α} {m : Keyed α} (h : get? key m = some value) :
    put key value m = m := by
  obtain ⟨before, after, rfl, fresh⟩ := exists_of_get? h
  exact put_append_cons value after fresh

/-- Putting what is there already changes nothing. -/
theorem putAll_self {m : Keyed α} (h : (m.map Prod.fst).Nodup) : putAll m m = m := by
  have all : ∀ pairs : List (Text × α), pairs ⊆ m → putAll m pairs = m := by
    intro pairs
    induction pairs with
    | nil => exact fun _ => rfl
    | cons pair rest ih =>
      intro sub
      obtain ⟨first, others⟩ := List.cons_subset.1 sub
      have same : put pair.1 pair.2 m = m := put_of_get? ((get?_eq_some_iff h).2 first)
      exact (congrArg (putAll · rest) same).trans (ih others)
  exact all m (List.Subset.refl m)

/-! ## Sorting -/

theorem sorted_map (f : α → β) (m : Keyed α) :
    sorted (m.map fun pair => (pair.1, f pair.2)) =
      (sorted m).map fun pair => (pair.1, f pair.2) :=
  (List.map_mergeSort (f := fun pair : Text × α => (pair.1, f pair.2)) fun _ _ _ _ => rfl).symm

theorem sorted_of_perm {m n : Keyed α} (hp : m.Perm n) (h : (m.map Prod.fst).Nodup) :
    sorted m = sorted n := by
  have perm : (sorted m).Perm (sorted n) := ((sorted_perm m).trans hp).trans (sorted_perm n).symm
  apply perm.eq_of_pairwise _ (pairwise_sorted m) (pairwise_sorted n)
  intro a b ha hb h₁ h₂
  have keys : a.1 = b.1 := Text.notAfter_antisymm h₁ h₂
  have ha : a ∈ m := (sorted_perm m).mem_iff.1 ha
  have hb : b ∈ m := hp.mem_iff.2 ((sorted_perm n).mem_iff.1 hb)
  exact List.inj_on_of_nodup_map h ha hb keys

theorem ascend_sorted {m : Keyed α} (h : (m.map Prod.fst).Nodup) :
    (sorted m).Pairwise fun a b => Text.before a.1 b.1 = true := by
  have apart : (sorted m).Pairwise fun a b => a.1 ≠ b.1 := by
    rw [← List.pairwise_map (f := Prod.fst) (R := (· ≠ ·))]
    exact ((sorted_perm m).map Prod.fst).nodup_iff.2 h
  exact (pairwise_sorted m).imp₂ (fun _ _ => Text.before_of_notAfter) apart

/-- With the same keys in another order, and under each of them values that `f` does not tell apart,
the images are the same in another order. -/
theorem perm_map_of_keys {f : α → β} {m n : Keyed α} (h : (m.map Prod.fst).Nodup)
    (keys : (m.map Prod.fst).Perm (n.map Prod.fst))
    (same : ∀ a ∈ m, ∀ b ∈ n, a.1 = b.1 → f a.2 = f b.2) :
    (m.map fun pair => (pair.1, f pair.2)).Perm (n.map fun pair => (pair.1, f pair.2)) := by
  have nodup : ((m.map fun pair => (pair.1, f pair.2)).map Prod.fst).Nodup := by
    rwa [keys_map]
  have nodup' : ((n.map fun pair => (pair.1, f pair.2)).map Prod.fst).Nodup := by
    rw [keys_map]
    exact keys.nodup_iff.1 h
  rw [List.perm_ext_iff_of_nodup nodup.of_map nodup'.of_map]
  intro pair
  simp only [List.mem_map]
  constructor
  · rintro ⟨a, ha, rfl⟩
    obtain ⟨b, hb, e⟩ := List.mem_map.1 (keys.mem_iff.1 (List.mem_map_of_mem ha))
    exact ⟨b, hb, by rw [e, same a ha b hb e.symm]⟩
  · rintro ⟨b, hb, rfl⟩
    obtain ⟨a, ha, e⟩ := List.mem_map.1 (keys.mem_iff.2 (List.mem_map_of_mem hb))
    exact ⟨a, ha, by rw [e, same a ha b hb e]⟩

end Keyed

end PullAuth
