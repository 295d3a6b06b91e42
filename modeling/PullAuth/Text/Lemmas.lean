import PullAuth.Text.Basic

/-!
What the operations on texts do. Cutting and splitting lose nothing: the parts put together again
are the text (`cut?_eq_some_iff`, `intercalate_pieces`). A start is recognised exactly where it
stands (`after?_eq_some_iff`). The order of texts is a strict total order (`before_irrefl`,
`before_trans`, `before_trichotomy`).
-/
namespace PullAuth.Text

/-! ## Starts and ends -/

theorem after?_nil_left (t : Text) : after? [] t = some t := by cases t <;> rfl

theorem after?_cons_nil (c : CodePoint) (start : Text) : after? (c :: start) [] = none := rfl

theorem after?_cons_cons (c d : CodePoint) (start t : Text) :
    after? (c :: start) (d :: t) = if c == d then after? start t else none := rfl

theorem after?_eq_some_iff {start t rest : Text} :
    after? start t = some rest ↔ t = start ++ rest := by
  induction start generalizing t with
  | nil => simp [after?_nil_left]
  | cons c start ih =>
    cases t with
    | nil => simp [after?_cons_nil]
    | cons d t =>
      by_cases h : c = d
      · simp [after?_cons_cons, h, ih]
      · have h' : d ≠ c := fun e => h e.symm
        simp [after?_cons_cons, h, h']

theorem startsWith_iff {t start : Text} : startsWith t start = true ↔ start <+: t := by
  simp [startsWith]

theorem endsWith_iff {t ending : Text} : endsWith t ending = true ↔ ending <:+ t := by
  simp [endsWith]

theorem dropStart_append (start t : Text) : dropStart start (start ++ t) = t := by
  simp [dropStart, after?_eq_some_iff.2 rfl]

theorem dropStart_of_not_startsWith {start t : Text} (h : startsWith t start = false) :
    dropStart start t = t := by
  unfold dropStart
  cases ha : after? start t with
  | none => rfl
  | some rest =>
    have : startsWith t start = true := startsWith_iff.2 ⟨rest, (after?_eq_some_iff.1 ha).symm⟩
    rw [h] at this
    cases this

/-! ## Cutting and splitting -/

/-- A list is cut at the first separator in it. -/
theorem cut?_eq_some_iff {α : Type} [DecidableEq α] {a : α} {l head tail : List α} :
    cut? a l = some (head, tail) ↔ l = head ++ a :: tail ∧ a ∉ head := by
  induction l generalizing head with
  | nil => simp [cut?]
  | cons b l ih =>
    by_cases h : b = a
    · subst h
      cases head with
      | nil => simp [cut?, eq_comm]
      | cons c head => simp [cut?]; intro e _; simp [e]
    · cases head with
      | nil => simp [cut?, h]
      | cons c head =>
        have hs : cut? a (b :: l) = some (c :: head, tail) ↔
            b = c ∧ cut? a l = some (head, tail) := by
          simp only [cut?, if_neg h, Option.map_eq_some_iff, Prod.exists, Prod.mk.injEq,
            List.cons.injEq]
          constructor
          · rintro ⟨x, y, e, ⟨rfl, rfl⟩, rfl⟩
            exact ⟨rfl, e⟩
          · rintro ⟨rfl, e⟩
            exact ⟨head, tail, e, ⟨rfl, rfl⟩, rfl⟩
        rw [hs, ih]
        simp only [List.cons_append, List.cons.injEq, List.mem_cons, not_or]
        constructor
        · rintro ⟨rfl, rfl, hn⟩
          exact ⟨⟨rfl, rfl⟩, fun e => h e.symm, hn⟩
        · rintro ⟨⟨rfl, rfl⟩, _, hn⟩
          exact ⟨rfl, rfl, hn⟩

theorem cut?_eq_none_iff {α : Type} [DecidableEq α] {a : α} {l : List α} :
    cut? a l = none ↔ a ∉ l := by
  induction l with
  | nil => simp [cut?]
  | cons b l ih =>
    by_cases h : b = a
    · simp [cut?, h]
    · have h' : a ≠ b := fun e => h e.symm
      simp [cut?, h, h', ih]

/-- A list is cut at the last separator in it. -/
theorem cutLast?_eq_some_iff {α : Type} [DecidableEq α] {a : α} {l head tail : List α} :
    cutLast? a l = some (head, tail) ↔ l = head ++ a :: tail ∧ a ∉ tail := by
  have hs : cutLast? a l = some (head, tail) ↔
      cut? a l.reverse = some (tail.reverse, head.reverse) := by
    unfold cutLast?
    simp only [Option.map_eq_some_iff, Prod.exists, Prod.mk.injEq]
    constructor
    · rintro ⟨x, y, e, rfl, rfl⟩
      simpa using e
    · intro e
      exact ⟨_, _, e, by simp, by simp⟩
  rw [hs, cut?_eq_some_iff, List.mem_reverse]
  constructor
  · rintro ⟨e, hn⟩
    refine ⟨?_, hn⟩
    have := congrArg List.reverse e
    simpa using this
  · rintro ⟨rfl, hn⟩
    exact ⟨by simp, hn⟩

/-- There is a piece before, between and behind all separators. -/
theorem pieces_ne_nil {α : Type} [DecidableEq α] (a : α) (l : List α) : pieces a l ≠ [] := by
  cases l with
  | nil => simp [pieces]
  | cons b l =>
    unfold pieces
    split
    · simp
    · split <;> simp

theorem not_mem_of_mem_pieces {α : Type} [DecidableEq α] {a : α} {l piece : List α}
    (h : piece ∈ pieces a l) : a ∉ piece := by
  induction l generalizing piece with
  | nil =>
    simp only [pieces, List.mem_singleton] at h
    simp [h]
  | cons b l ih =>
    by_cases hb : b = a
    · simp only [pieces, if_pos hb, List.mem_cons] at h
      rcases h with rfl | h
      · simp
      · exact ih h
    · have hb' : a ≠ b := fun e => hb e.symm
      cases hp : pieces a l with
      | nil => exact absurd hp (pieces_ne_nil a l)
      | cons first more =>
        rw [hp] at ih
        simp only [pieces, if_neg hb, hp, List.mem_cons] at h
        rcases h with rfl | h
        · simp [hb', ih List.mem_cons_self]
        · exact ih (List.mem_cons_of_mem _ h)

/-- The pieces with separators between them are the list. -/
theorem intercalate_pieces {α : Type} [DecidableEq α] (a : α) (l : List α) :
    [a].intercalate (pieces a l) = l := by
  induction l with
  | nil => simp [pieces, List.intercalate]
  | cons b l ih =>
    cases hp : pieces a l with
    | nil => exact absurd hp (pieces_ne_nil a l)
    | cons first more =>
      rw [hp] at ih
      by_cases hb : b = a
      · simp only [pieces, if_pos hb, hp]
        rw [← ih, hb]
        simp [List.intercalate, List.intersperse]
      · simp only [pieces, if_neg hb, hp]
        rw [← ih]
        cases more <;> simp [List.intercalate, List.intersperse]

/-! ## Trimming -/

theorem trimEnd_append (p : CodePoint → Bool) (t : Text) :
    ∃ cut : Text, t = trimEnd p t ++ cut ∧ ∀ c ∈ cut, p c = true := by
  refine ⟨(t.reverse.takeWhile p).reverse, ?_, ?_⟩
  · unfold trimEnd
    rw [← List.reverse_append, List.takeWhile_append_dropWhile, List.reverse_reverse]
  · intro c hc
    rw [List.mem_reverse] at hc
    exact List.all_eq_true.1 List.all_takeWhile c hc

theorem getLast?_trimEnd (p : CodePoint → Bool) (t : Text) {c : CodePoint}
    (h : (trimEnd p t).getLast? = some c) : p c = false := by
  unfold trimEnd at h
  rw [List.getLast?_reverse] at h
  cases hd : t.reverse.dropWhile p with
  | nil => rw [hd] at h; cases h
  | cons d rest =>
    rw [hd] at h
    cases h
    have hne : t.reverse.dropWhile p ≠ [] := by simp [hd]
    have := List.head_dropWhile_not p hne
    simpa [hd] using this

/-! ## The order of texts -/

theorem before_irrefl (s : Text) : before s s = false := by
  induction s with
  | nil => rfl
  | cons a s ih => simp [before, ih]

theorem before_trans {s t u : Text} (h₁ : before s t = true) (h₂ : before t u = true) :
    before s u = true := by
  induction s generalizing t u with
  | nil =>
    cases t with
    | nil => cases h₁
    | cons b t => cases u with
      | nil => cases h₂
      | cons c u => rfl
  | cons a s ih =>
    cases t with
    | nil => cases h₁
    | cons b t => cases u with
      | nil => cases h₂
      | cons c u =>
        simp only [before, Bool.or_eq_true, Bool.and_eq_true, decide_eq_true_eq,
          beq_iff_eq] at h₁ h₂ ⊢
        rcases h₁ with h₁ | ⟨e₁, h₁⟩ <;> rcases h₂ with h₂ | ⟨e₂, h₂⟩
        · exact Or.inl (by omega)
        · exact Or.inl (by omega)
        · exact Or.inl (by omega)
        · exact Or.inr ⟨by omega, ih h₁ h₂⟩

/-- Of two texts that differ one comes before the other. -/
theorem before_trichotomy (s t : Text) : before s t = true ∨ s = t ∨ before t s = true := by
  induction s generalizing t with
  | nil => cases t <;> simp [before]
  | cons a s ih =>
    cases t with
    | nil => simp [before]
    | cons b t =>
      rcases Nat.lt_trichotomy a.toNat b.toNat with h | h | h
      · exact Or.inl (by simp [before, h])
      · have e : a = b := by
          cases a
          cases b
          simpa using h
        subst e
        rcases ih t with hs | rfl | ht
        · exact Or.inl (by simp [before, hs])
        · exact Or.inr (Or.inl rfl)
        · exact Or.inr (Or.inr (by simp [before, ht]))
      · exact Or.inr (Or.inr (by simp [before, h]))

theorem notAfter_total (s t : Text) : (notAfter s t || notAfter t s) = true := by
  unfold notAfter
  rcases before_trichotomy s t with h | rfl | h
  · cases ht : before t s with
    | false => rfl
    | true =>
      have loop := before_trans h ht
      rw [before_irrefl] at loop
      cases loop
  · simp [before_irrefl]
  · cases hs : before s t with
    | false => simp
    | true =>
      have loop := before_trans h hs
      rw [before_irrefl] at loop
      cases loop

theorem notAfter_trans {s t u : Text} (h₁ : notAfter s t = true) (h₂ : notAfter t u = true) :
    notAfter s u = true := by
  unfold notAfter at *
  simp only [Bool.not_eq_true'] at *
  cases h : before u s with
  | false => rfl
  | true =>
    rcases before_trichotomy t u with h' | rfl | h'
    · rw [before_trans h' h] at h₁
      cases h₁
    · rw [h] at h₁
      cases h₁
    · rw [h'] at h₂
      cases h₂

theorem before_of_notAfter {s t : Text} (h : notAfter s t = true) (apart : s ≠ t) :
    before s t = true := by
  unfold notAfter at h
  rw [Bool.not_eq_true'] at h
  rcases before_trichotomy s t with first | same | last
  · exact first
  · exact absurd same apart
  · rw [h] at last
    cases last

theorem notAfter_antisymm {s t : Text} (h₁ : notAfter s t = true) (h₂ : notAfter t s = true) :
    s = t := by
  by_cases apart : s = t
  · exact apart
  · have first := before_of_notAfter h₁ apart
    have loop := before_trans first (before_of_notAfter h₂ (Ne.symm apart))
    rw [before_irrefl] at loop
    cases loop

end PullAuth.Text
