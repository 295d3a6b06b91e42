import Mathlib.Data.List.Basic
import PullAuth.Text.Lemmas

/-!
Where a part stands in a text. A start that stands in front is taken off, which leaves an end of
the text (`after?_suffix`), and a text is cut at the first place where a part stands, if it stands
anywhere (`cutAt?_spec`). What stands in a text in which a part was replaced, and has nothing of
what was put there, stood there before (`infix_of_replace`).
-/
namespace PullAuth.Text

/-! ## In front -/

theorem after?_suffix {start t rest : Text} (h : after? start t = some rest) : rest <:+ t :=
  ⟨start, (after?_eq_some_iff.1 h).symm⟩

theorem dropStart_suffix (start t : Text) : dropStart start t <:+ t := by
  unfold dropStart
  cases h : after? start t with
  | none => exact List.suffix_refl t
  | some rest => exact after?_suffix h

/-! ## Anywhere -/

/-- The part stands in the text behind `i` code points. -/
def StandsAt (part t : Text) (i : Nat) : Prop :=
  ∃ head tail, t = head ++ part ++ tail ∧ head.length = i

/-- The part stands in the text behind `i` code points, and not before. -/
def FirstAt (part t : Text) (i : Nat) : Prop :=
  StandsAt part t i ∧ ∀ j < i, ¬StandsAt part t j

theorem FirstAt.unique {part t : Text} {i j : Nat} (hi : FirstAt part t i)
    (hj : FirstAt part t j) : i = j := by
  rcases Nat.lt_trichotomy i j with h | h | h
  · exact absurd hi.1 (hj.2 i h)
  · exact h
  · exact absurd hj.1 (hi.2 j h)

/-- A part that stands anywhere has a first place. -/
theorem StandsAt.exists_firstAt {part t : Text} {i : Nat} (h : StandsAt part t i) :
    ∃ j, FirstAt part t j := by
  induction i using Nat.strongRecOn with
  | ind i ih =>
    by_cases earlier : ∃ j < i, StandsAt part t j
    · obtain ⟨j, hj, stands⟩ := earlier
      exact ih j hj stands
    · exact ⟨i, h, fun j hj stands => earlier ⟨j, hj, stands⟩⟩

theorem standsAt_zero_iff {part t : Text} : StandsAt part t 0 ↔ part <+: t := by
  constructor
  · intro ⟨head, tail, e, h⟩
    rw [List.length_eq_zero_iff.1 h] at e
    exact ⟨tail, e.symm⟩
  · intro ⟨tail, e⟩
    exact ⟨[], tail, e.symm, rfl⟩

theorem standsAt_succ_iff {part t : Text} {c : CodePoint} {i : Nat} :
    StandsAt part (c :: t) (i + 1) ↔ StandsAt part t i := by
  constructor
  · intro ⟨head, tail, e, h⟩
    cases head with
    | nil => cases h
    | cons d head => exact ⟨head, tail, (List.cons.inj e).2, Nat.succ.inj h⟩
  · intro ⟨head, tail, e, h⟩
    exact ⟨c :: head, tail, congrArg (c :: ·) e, congrArg (· + 1) h⟩

/-- A text is cut at the first place where the part stands, if it stands anywhere. -/
theorem cutAt?_spec (part t : Text) :
    match cutAt? part t with
    | some (head, tail) => t = head ++ part ++ tail ∧ FirstAt part t head.length
    | none => ∀ i, ¬StandsAt part t i := by
  induction t with
  | nil =>
    unfold cutAt?
    split
    · next found head tail h =>
      split at h
      · next empty =>
        cases h
        rw [List.isEmpty_iff.1 empty]
        exact ⟨rfl, ⟨[], [], rfl, rfl⟩, nofun⟩
      · cases h
    · next h =>
      split at h
      · cases h
      · next filled =>
        intro i ⟨head, tail, e, _⟩
        rw [List.isEmpty_iff] at filled
        exact filled (List.append_eq_nil_iff.1 (List.append_eq_nil_iff.1 e.symm).1).2
  | cons c t ih =>
    unfold cutAt?
    cases ha : after? part (c :: t) with
    | some rest =>
      have e := after?_eq_some_iff.1 ha
      exact ⟨e, ⟨[], rest, e, rfl⟩, nofun⟩
    | none =>
      have not_here : ¬StandsAt part (c :: t) 0 := by
        rw [standsAt_zero_iff]
        intro ⟨rest, e⟩
        rw [after?_eq_some_iff.2 e.symm] at ha
        cases ha
      cases hc : cutAt? part t with
      | none =>
        rw [hc] at ih
        intro i
        cases i with
        | zero => exact not_here
        | succ i => exact fun h => ih i (standsAt_succ_iff.1 h)
      | some found =>
        obtain ⟨head, tail⟩ := found
        rw [hc] at ih
        obtain ⟨e, stands, first⟩ := ih
        refine ⟨congrArg (c :: ·) e, standsAt_succ_iff.2 stands, fun j hj => ?_⟩
        cases j with
        | zero => exact not_here
        | succ j => exact fun h => first j (Nat.lt_of_succ_lt_succ hj) (standsAt_succ_iff.1 h)

/-! ## Replacing -/

section

variable {part new run t : Text}

theorem infix_of_infix_append (apart : ∀ c ∈ run, c ∉ new) (h : run <:+: new ++ t) :
    run <:+: t := by
  induction new with
  | nil => exact h
  | cons c new ih =>
    rw [List.cons_append, List.infix_cons_iff] at h
    rcases h with front | h
    · cases run with
      | nil => exact List.nil_infix
      | cons d run =>
        have same : d = c := (List.cons_prefix_cons.1 front).1
        exact absurd (same ▸ List.mem_cons_self) (apart d List.mem_cons_self)
    · exact ih (fun d hd hm => apart d hd (List.mem_cons_of_mem c hm)) h

theorem prefix_of_prefix_replaceFrom (filled : new ≠ []) (apart : ∀ c ∈ run, c ∉ new)
    (h : run <+: replaceFrom part new 0 t) : run <+: t := by
  induction t generalizing run with
  | nil => exact h
  | cons c t ih =>
    cases run with
    | nil => exact List.nil_prefix
    | cons d run =>
      rw [replaceFrom] at h
      split at h
      · obtain ⟨e, new, rfl⟩ := List.exists_cons_of_ne_nil filled
        have same : d = e := (List.cons_prefix_cons.1 h).1
        exact absurd (same ▸ List.mem_cons_self) (apart d List.mem_cons_self)
      · obtain ⟨rfl, behind⟩ := List.cons_prefix_cons.1 h
        exact List.cons_prefix_cons.2
          ⟨rfl, ih (fun c hc => apart c (List.mem_cons_of_mem _ hc)) behind⟩

theorem infix_of_infix_replaceFrom (filled : new ≠ []) (apart : ∀ c ∈ run, c ∉ new) {skip : Nat}
    (h : run <:+: replaceFrom part new skip t) : run <:+: t := by
  induction t generalizing skip with
  | nil => cases skip <;> exact h
  | cons c t ih =>
    have behind := (List.suffix_cons c t).isInfix
    cases skip with
    | succ skip => exact (ih h).trans behind
    | zero =>
      rw [replaceFrom] at h
      split at h
      · exact (ih (infix_of_infix_append apart h)).trans behind
      rcases List.infix_cons_iff.1 h with front | h
      · cases run with
        | nil => exact List.nil_infix
        | cons d run =>
          obtain ⟨same, later⟩ := List.cons_prefix_cons.1 front
          have kept := prefix_of_prefix_replaceFrom filled
            (fun c hc => apart c (List.mem_cons_of_mem _ hc)) later
          exact (List.cons_prefix_cons.2 ⟨same, kept⟩).isInfix
      · exact (ih h).trans behind

theorem infix_of_replace (filled : new ≠ []) (apart : ∀ c ∈ run, c ∉ new)
    (h : run <:+: replace part new t) : run <:+: t := by
  unfold replace at h
  split at h
  · exact h
  · exact infix_of_infix_replaceFrom filled apart h

end

end PullAuth.Text
