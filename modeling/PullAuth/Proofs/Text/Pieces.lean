import PullAuth.Text.Lemmas

/-!
Splitting a text that is put together. Two texts with a separator between them are split one after
the other (`pieces_append_cons`), a text without a separator is one piece (`pieces_of_not_mem`), and
put behind another one it goes to the last piece of that (`exists_pieces_append`). Joining adds a
separator for every text but the first (`join_concat`).
-/
namespace PullAuth.Text

section
variable {α : Type} [DecidableEq α] {a : α}

theorem pieces_cons_self (l : List α) : pieces a (a :: l) = [] :: pieces a l := by
  rw [pieces, if_pos rfl]

theorem pieces_cons_of_ne {b : α} {l first : List α} {more : List (List α)} (h : b ≠ a)
    (e : pieces a l = first :: more) : pieces a (b :: l) = (b :: first) :: more := by
  rw [pieces, if_neg h, e]

theorem pieces_of_not_mem {l : List α} (h : a ∉ l) : pieces a l = [l] := by
  induction l with
  | nil => rfl
  | cons b l ih =>
    have hb : b ≠ a := fun e => h (e ▸ List.mem_cons_self)
    have hl : a ∉ l := fun e => h (List.mem_cons_of_mem b e)
    exact pieces_cons_of_ne hb (ih hl)

/-- What stands on both sides of a separator is split on its own. -/
theorem pieces_append_cons (l m : List α) : pieces a (l ++ a :: m) = pieces a l ++ pieces a m := by
  induction l with
  | nil => exact pieces_cons_self m
  | cons b l ih =>
    by_cases hb : b = a
    · rw [hb, List.cons_append, pieces_cons_self, pieces_cons_self, ih, List.cons_append]
    · cases hp : pieces a l with
      | nil => exact absurd hp (pieces_ne_nil a l)
      | cons first more =>
        rw [hp] at ih
        rw [List.cons_append, pieces_cons_of_ne hb hp]
        exact pieces_cons_of_ne hb ih

/-- What is put behind a list goes to its last piece, if there is no separator in it. -/
theorem exists_pieces_append (l : List α) {m : List α} (h : a ∉ m) :
    ∃ before last, pieces a l = before ++ [last] ∧
      pieces a (l ++ m) = before ++ [last ++ m] := by
  induction l with
  | nil => exact ⟨[], [], rfl, pieces_of_not_mem h⟩
  | cons b l ih =>
    obtain ⟨before, last, hl, hm⟩ := ih
    by_cases hb : b = a
    · refine ⟨[] :: before, last, ?_, ?_⟩
      · rw [hb, pieces_cons_self, hl, List.cons_append]
      · rw [hb, List.cons_append, pieces_cons_self, hm, List.cons_append]
    · cases before with
      | nil => exact ⟨[], b :: last, pieces_cons_of_ne hb hl, pieces_cons_of_ne hb hm⟩
      | cons first more =>
        exact ⟨(b :: first) :: more, last, pieces_cons_of_ne hb hl, pieces_cons_of_ne hb hm⟩

theorem subset_of_mem_pieces {l piece : List α} (h : piece ∈ pieces a l) : piece ⊆ l := by
  induction l generalizing piece with
  | nil =>
    rw [pieces, List.mem_singleton] at h
    rw [h]
    exact List.Subset.refl _
  | cons b l ih =>
    by_cases hb : b = a
    · rw [hb, pieces_cons_self, List.mem_cons] at h
      rcases h with rfl | h
      · exact List.nil_subset _
      · exact List.Subset.trans (ih h) (List.subset_cons_self _ _)
    · cases hp : pieces a l with
      | nil => exact absurd hp (pieces_ne_nil a l)
      | cons first more =>
        rw [pieces_cons_of_ne hb hp, List.mem_cons] at h
        rw [hp] at ih
        rcases h with rfl | h
        · exact List.cons_subset_cons b (ih List.mem_cons_self)
        · exact List.Subset.trans (ih (List.mem_cons_of_mem _ h)) (List.subset_cons_self _ _)

end

/-! ## Joining -/

theorem join_concat (separator t : Text) {ts : List Text} (h : ts ≠ []) :
    join separator (ts ++ [t]) = join separator ts ++ separator ++ t := by
  unfold join
  induction ts with
  | nil => exact absurd rfl h
  | cons s rest ih =>
    by_cases hr : rest = []
    · rw [hr, List.singleton_append, List.intercalate_cons_cons, List.intercalate_singleton,
        List.intercalate_singleton]
    · have more : rest ++ [t] ≠ [] := List.append_ne_nil_of_left_ne_nil hr [t]
      rw [List.cons_append, List.intercalate_cons_of_ne_nil more, ih hr,
        List.intercalate_cons_of_ne_nil hr]
      simp only [List.append_assoc]

theorem exists_join_concat (separator : Text) (ts : List Text) (t : Text) :
    ∃ before, join separator (ts ++ [t]) = before ++ t := by
  by_cases h : ts = []
  · refine ⟨[], ?_⟩
    rw [h, List.nil_append, join, List.intercalate_singleton, List.nil_append]
  · exact ⟨join separator ts ++ separator, join_concat separator t h⟩

end PullAuth.Text
