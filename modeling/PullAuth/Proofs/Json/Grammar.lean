import Mathlib.Data.List.TakeWhile
import PullAuth.Proofs.Json.RoundTrip

/-!
The grammar of JSON texts. `Phrase.Begins` has one rule for each form of a value and one for each
way to go on with an array or an object, and `Denotes` says that a text denotes a value, with blanks
around it. The reader follows the grammar: what it finds is derived by the rules
(`begins_of_isRead`), and what the rules derive it finds (`Phrase.Begins.isRead`), because it skips
all blanks and no value but a number could go on behind its end. So a text is read as a value
exactly if it denotes it (`read?_eq_some_iff`).
-/
namespace PullAuth.Json

/-! ## The rules -/

/-- Only blanks. -/
def IsBlank (t : Text) : Prop := ∀ c ∈ t, isSpace c = true

/-- A text begins with a string behind its opening quote, and what follows the closing one. -/
inductive SpellsString : Text → Text → Text → Prop
  | close {rest : Text} : SpellsString (.ofChar '"' :: rest) [] rest
  | cons {c : CodePoint} {t next value rest : Text} : Spells t c next →
    SpellsString next value rest → SpellsString t (c :: value) rest

/-- What a stretch of a text stands for. -/
inductive Phrase where
  | value (v : Json)
  /-- The items of an array up to its closing bracket. -/
  | items (list : List Json)
  /-- The members of an object up to its closing brace. -/
  | members (list : List (Text × Json))

/-- A text begins with a phrase, and what follows it. Of members with one key the last value counts,
in the place of the first. -/
inductive Phrase.Begins : Phrase → Text → Text → Prop
  | word {word rest : Text} {v : Json} : (word, v) ∈ words →
    Begins (.value v) (word ++ rest) rest
  | number {t rest : Text} {v : Json} : SpellsNumber t v → Begins (.value v) (t ++ rest) rest
  | string {t s rest : Text} : SpellsString t s rest →
    Begins (.value (.string s)) (.ofChar '"' :: t) rest
  | noItems {gap rest : Text} : IsBlank gap →
    Begins (.value (.array [])) (.ofChar '[' :: (gap ++ .ofChar ']' :: rest)) rest
  | array {gap t rest : Text} {list : List Json} : IsBlank gap → Begins (.items list) t rest →
    Begins (.value (.array list)) (.ofChar '[' :: (gap ++ t)) rest
  | noMembers {gap rest : Text} : IsBlank gap →
    Begins (.value (.object [])) (.ofChar '{' :: (gap ++ .ofChar '}' :: rest)) rest
  | object {gap t rest : Text} {list : List (Text × Json)} : IsBlank gap →
    Begins (.members list) t rest →
    Begins (.value (.object (Keyed.ofPairs list))) (.ofChar '{' :: (gap ++ t)) rest
  | lastItem {t gap rest : Text} {v : Json} : IsBlank gap →
    Begins (.value v) t (gap ++ .ofChar ']' :: rest) → Begins (.items [v]) t rest
  | item {t gap gap' next rest : Text} {v : Json} {list : List Json} : IsBlank gap →
    IsBlank gap' → Begins (.value v) t (gap ++ .ofChar ',' :: (gap' ++ next)) →
    Begins (.items list) next rest → Begins (.items (v :: list)) t rest
  | lastMember {t key gap gap' behind gap₂ rest : Text} {v : Json} : IsBlank gap →
    IsBlank gap' → IsBlank gap₂ →
    SpellsString t key (gap ++ .ofChar ':' :: (gap' ++ behind)) →
    Begins (.value v) behind (gap₂ ++ .ofChar '}' :: rest) →
    Begins (.members [(key, v)]) (.ofChar '"' :: t) rest
  | member {t key gap gap' behind gap₂ gap₃ next rest : Text} {v : Json}
    {list : List (Text × Json)} : IsBlank gap → IsBlank gap' → IsBlank gap₂ → IsBlank gap₃ →
    SpellsString t key (gap ++ .ofChar ':' :: (gap' ++ behind)) →
    Begins (.value v) behind (gap₂ ++ .ofChar ',' :: (gap₃ ++ next)) →
    Begins (.members list) next rest →
    Begins (.members ((key, v) :: list)) (.ofChar '"' :: t) rest

/-- The text denotes the value: there is nothing else in it but blanks. -/
def Denotes (t : Text) (v : Json) : Prop :=
  ∃ before body after, IsBlank before ∧ IsBlank after ∧ t = before ++ body ∧
    Phrase.Begins (.value v) body after

/-! ## Blanks and strings -/

theorem isBlank_skipSpace (t : Text) : ∃ gap, IsBlank gap ∧ t = gap ++ skipSpace t :=
  ⟨t.takeWhile isSpace, List.all_eq_true.1 List.all_takeWhile,
    List.takeWhile_append_dropWhile.symm⟩

/-- Blanks end where another character stands. -/
theorem exists_gap_of_skipSpace {t rest : Text} {c : CodePoint} (h : skipSpace t = c :: rest) :
    ∃ gap, IsBlank gap ∧ t = gap ++ c :: rest :=
  h ▸ isBlank_skipSpace t

theorem skipSpace_eq_nil_iff {t : Text} : skipSpace t = [] ↔ IsBlank t := by
  rw [skipSpace, List.dropWhile_eq_nil_iff]
  rfl

theorem readString_eq_some_iff {t v rest : Text} :
    readString t = some (v, rest) ↔ SpellsString t v rest := by
  constructor
  · intro h
    induction v generalizing t with
    | nil =>
      rcases readString_cases h with ⟨rfl, -⟩ | ⟨c, next, w, -, -, e⟩
      · exact .close
      · cases e
    | cons c v ih =>
      rcases readString_cases h with ⟨-, e⟩ | ⟨c', next, w, hs, hn, e⟩
      · cases e
      · cases e
        exact .cons hs (ih hn)
  · intro h
    induction h with
    | close => exact readString_quote _
    | cons hs _ ih =>
      rw [readString_of_spells hs, ih]
      rfl

/-! ## What is read is derived -/

/-- What the reader finds with some fuel. -/
def Phrase.IsRead (fuel : Nat) : Phrase → Text → Text → Prop
  | .value v, t, rest => readValue fuel t = some (v, rest)
  | .items list, t, rest => readItems fuel t = some (list, rest)
  | .members list, t, rest => readMembers fuel t = some (list, rest)

section Sound

variable {fuel : Nat}
  (ih : ∀ (p : Phrase) {t rest : Text}, p.IsRead fuel t rest → p.Begins t rest)
  {t rest : Text}

include ih

theorem begins_of_readValue_succ {v : Json} (h : readValue (fuel + 1) t = some (v, rest)) :
    Phrase.Begins (.value v) t rest := by
  rw [readValue.eq_def] at h
  cases t with
  | nil => cases h
  | cons c t =>
    simp only at h
    split at h
    · next quote =>
      obtain ⟨⟨w, behind⟩, hw, e⟩ := Option.map_eq_some_iff.1 h
      cases e
      exact quote ▸ .string (readString_eq_some_iff.1 hw)
    split at h
    · next bracket =>
      split at h
      · cases h
      next d behind hd =>
      obtain ⟨gap, blank, rfl⟩ := exists_gap_of_skipSpace hd
      split at h
      · next close =>
        cases h
        exact bracket ▸ close ▸ .noItems blank
      · obtain ⟨⟨list, last⟩, hi, e⟩ := Option.map_eq_some_iff.1 h
        cases e
        exact bracket ▸ .array blank (ih (.items list) hi)
    split at h
    · next brace =>
      split at h
      · cases h
      next d behind hd =>
      obtain ⟨gap, blank, rfl⟩ := exists_gap_of_skipSpace hd
      split at h
      · next close =>
        cases h
        exact brace ▸ close ▸ .noMembers blank
      · obtain ⟨⟨list, last⟩, hm, e⟩ := Option.map_eq_some_iff.1 h
        cases e
        exact brace ▸ .object blank (ih (.members list) hm)
    split at h
    · next found hf =>
      cases h
      obtain ⟨word, known, e⟩ := append_of_readWord hf
      exact e ▸ .word known
    · obtain ⟨s, e, number⟩ := spells_of_readNumber h
      exact e ▸ .number number

theorem begins_of_readItems_succ {list : List Json}
    (h : readItems (fuel + 1) t = some (list, rest)) : Phrase.Begins (.items list) t rest := by
  rw [readItems.eq_def] at h
  simp only at h
  split at h
  · cases h
  next v behind hv =>
  have value := ih (.value v) hv
  split at h
  · cases h
  next d last hd =>
  obtain ⟨gap, blank, rfl⟩ := exists_gap_of_skipSpace hd
  split at h
  · next close =>
    cases h
    exact .lastItem blank (close ▸ value)
  split at h
  · next comma =>
    obtain ⟨⟨others, final⟩, ho, e⟩ := Option.map_eq_some_iff.1 h
    cases e
    obtain ⟨gap', blank', e⟩ := isBlank_skipSpace last
    rw [e, comma] at value
    exact .item blank blank' value (ih (.items others) ho)
  · cases h

theorem begins_of_readMembers_succ {list : List (Text × Json)}
    (h : readMembers (fuel + 1) t = some (list, rest)) :
    Phrase.Begins (.members list) t rest := by
  rw [readMembers.eq_def] at h
  cases t with
  | nil => cases h
  | cons q t =>
    simp only at h
    split at h
    · cases h
    next quote =>
    rw [not_not] at quote
    split at h
    · cases h
    next key behind hk =>
    have string := readString_eq_some_iff.1 hk
    split at h
    · cases h
    next d colon hd =>
    obtain ⟨gap, blank, rfl⟩ := exists_gap_of_skipSpace hd
    split at h
    · cases h
    next is_colon =>
    rw [not_not] at is_colon
    obtain ⟨gap', blank', e⟩ := isBlank_skipSpace colon
    rw [e, is_colon] at string
    split at h
    · cases h
    next v last hv =>
    have value := ih (.value v) hv
    split at h
    · cases h
    next d final hd =>
    obtain ⟨gap₂, blank₂, rfl⟩ := exists_gap_of_skipSpace hd
    split at h
    · next close =>
      cases h
      exact quote ▸ .lastMember blank blank' blank₂ string (close ▸ value)
    split at h
    · next comma =>
      obtain ⟨⟨others, _⟩, ho, e⟩ := Option.map_eq_some_iff.1 h
      cases e
      obtain ⟨gap₃, blank₃, e⟩ := isBlank_skipSpace final
      rw [e, comma] at value
      exact quote ▸ .member blank blank' blank₂ blank₃ string value (ih (.members others) ho)
    · cases h

end Sound

theorem begins_of_isRead {fuel : Nat} (p : Phrase) {t rest : Text} (h : p.IsRead fuel t rest) :
    p.Begins t rest := by
  induction fuel generalizing p t rest with
  | zero =>
    cases p with
    | value v =>
      rw [Phrase.IsRead, readValue.eq_def] at h
      cases h
    | items list =>
      rw [Phrase.IsRead, readItems.eq_def] at h
      cases h
    | members list =>
      rw [Phrase.IsRead, readMembers.eq_def] at h
      cases h
  | succ fuel ih =>
    cases p with
    | value v => exact begins_of_readValue_succ ih h
    | items list => exact begins_of_readItems_succ ih h
    | members list => exact begins_of_readMembers_succ ih h

/-! ## What is derived is read -/

/-- What may stand behind a phrase: a value that is a number must not go on. -/
def Phrase.EndsAt : Phrase → Text → Prop
  | .value _, rest => EndsNumber rest
  | .items _, _ => True
  | .members _, _ => True

theorem SpellsString.length_lt {t v rest : Text} (h : SpellsString t v rest) :
    rest.length < t.length := by
  induction h with
  | close => exact Nat.lt_succ_self _
  | cons hs _ ih => exact Nat.lt_of_lt_of_le ih hs.suffix.length_le

/-- A phrase takes a character at least. -/
theorem Phrase.Begins.length_lt {p : Phrase} {t rest : Text} (h : p.Begins t rest) :
    rest.length < t.length := by
  induction h with
  | word known =>
    obtain ⟨c, u, rfl, -⟩ := opens_of_mem_words known
    simp only [List.cons_append, List.length_cons, List.length_append]
    omega
  | number number =>
    obtain ⟨c, u, rfl, -⟩ := number.opens
    simp only [List.cons_append, List.length_cons, List.length_append]
    omega
  | string string => exact Nat.lt_succ_of_lt string.length_lt
  | noItems | noMembers =>
    simp only [List.length_cons, List.length_append]
    omega
  | array _ _ ih | object _ _ ih | lastItem _ _ ih | item _ _ _ _ ih ih' =>
    simp only [List.length_cons, List.length_append] at *
    omega
  | lastMember _ _ _ string _ ih =>
    have := string.length_lt
    simp only [List.length_cons, List.length_append] at *
    omega
  | member _ _ _ _ string _ _ ih ih' =>
    have := string.length_lt
    simp only [List.length_cons, List.length_append] at *
    omega

/-- What a phrase begins with: no blank, and no bracket that closes. -/
theorem Phrase.Begins.opens {p : Phrase} {t rest : Text} (h : p.Begins t rest) : Opens t := by
  have opens (c : CodePoint) (u : Text) (hc : isSpace c = false ∧ c ≠ ']' ∧ c ≠ '}') :
      Opens (c :: u) := ⟨c, u, rfl, hc⟩
  induction h with
  | word known =>
    obtain ⟨c, u, rfl, hc⟩ := opens_of_mem_words known
    exact opens c _ hc
  | number number =>
    obtain ⟨c, u, rfl, hc⟩ := number.opens
    exact opens c _ hc
  | string | noItems | array | noMembers | object | lastMember | member =>
    exact opens _ _ (by decide)
  | lastItem _ _ ih | item _ _ _ _ ih => exact ih

section Complete

variable {fuel : Nat} {gap : Text} (hg : IsBlank gap)

include hg

theorem skipSpace_opens {t : Text} (h : Opens t) : skipSpace (gap ++ t) = t := by
  obtain ⟨c, u, rfl, hc, -⟩ := h
  rw [skipSpace_append hg, skipSpace_cons hc]

theorem skipSpace_mark {c : CodePoint} (hc : isSpace c = false) (t : Text) :
    skipSpace (gap ++ c :: t) = c :: t := by
  rw [skipSpace_append hg, skipSpace_cons hc]

/-- Behind an item or a member a number has ended. -/
theorem endsNumber_mark {c : CodePoint}
    (hc : c.isDigit = false ∧ c ≠ '.' ∧ c ≠ 'e' ∧ c ≠ 'E') (t : Text) :
    EndsNumber (gap ++ c :: t) :=
  endsNumber_of_isSpace hg (endsNumber_cons t hc)

theorem readValue_array {t rest : Text} {list : List Json} (ht : Opens t)
    (h : readItems fuel t = some (list, rest)) :
    readValue (fuel + 1) (.ofChar '[' :: (gap ++ t)) = some (array list, rest) := by
  have start := skipSpace_opens hg ht
  obtain ⟨c, u, rfl, -, open_item, -⟩ := ht
  rw [readValue.eq_def]
  simp only [start, if_neg open_item, h]
  rfl

theorem readValue_object {t rest : Text} {list : List (Text × Json)} (ht : Opens t)
    (h : readMembers fuel t = some (list, rest)) :
    readValue (fuel + 1) (.ofChar '{' :: (gap ++ t)) =
      some (object (Keyed.ofPairs list), rest) := by
  have start := skipSpace_opens hg ht
  obtain ⟨c, u, rfl, -, -, open_member⟩ := ht
  rw [readValue.eq_def]
  simp only [start, if_neg open_member, h]
  rfl

theorem readItems_last {t rest : Text} {v : Json}
    (h : readValue fuel t = some (v, gap ++ .ofChar ']' :: rest)) :
    readItems (fuel + 1) t = some ([v], rest) := by
  rw [readItems.eq_def]
  simp only [h, skipSpace_mark hg (c := .ofChar ']') (by decide), if_true]

theorem readItems_next {gap' t next rest : Text} {v : Json} {list : List Json}
    (hg' : IsBlank gap') (hn : Opens next)
    (h : readValue fuel t = some (v, gap ++ .ofChar ',' :: (gap' ++ next)))
    (others : readItems fuel next = some (list, rest)) :
    readItems (fuel + 1) t = some (v :: list, rest) := by
  have comma : CodePoint.ofChar ',' ≠ ']' := by decide
  rw [readItems.eq_def]
  simp only [h, skipSpace_mark hg (c := .ofChar ',') (by decide), if_neg comma, if_true,
    skipSpace_opens hg' hn, others, Option.map_some]

end Complete

section Member

variable {fuel : Nat} {gap gap' gap₂ t behind rest key : Text} {v : Json} (hg : IsBlank gap)
  (hg' : IsBlank gap') (hg₂ : IsBlank gap₂) (hb : Opens behind)
  (string : readString t = some (key, gap ++ .ofChar ':' :: (gap' ++ behind)))

include hg hg' hg₂ hb string

theorem readMembers_last
    (value : readValue fuel behind = some (v, gap₂ ++ .ofChar '}' :: rest)) :
    readMembers (fuel + 1) (.ofChar '"' :: t) = some ([(key, v)], rest) := by
  rw [readMembers.eq_def]
  simp only [string, skipSpace_mark hg (c := .ofChar ':') (by decide), skipSpace_opens hg' hb,
    value, skipSpace_mark hg₂ (c := .ofChar '}') (by decide), ne_eq, not_true_eq_false, if_false,
    if_true]

theorem readMembers_next {gap₃ next : Text} {list : List (Text × Json)} (hg₃ : IsBlank gap₃)
    (hn : Opens next)
    (value : readValue fuel behind = some (v, gap₂ ++ .ofChar ',' :: (gap₃ ++ next)))
    (others : readMembers fuel next = some (list, rest)) :
    readMembers (fuel + 1) (.ofChar '"' :: t) = some ((key, v) :: list, rest) := by
  have comma : CodePoint.ofChar ',' ≠ '}' := by decide
  rw [readMembers.eq_def]
  simp only [string, skipSpace_mark hg (c := .ofChar ':') (by decide), skipSpace_opens hg' hb,
    value, skipSpace_mark hg₂ (c := .ofChar ',') (by decide), ne_eq, not_true_eq_false, if_false,
    if_neg comma, if_true, skipSpace_opens hg₃ hn, others, Option.map_some]

end Member

/-- Fuel for two steps with every character is enough. -/
theorem Phrase.Begins.isRead {p : Phrase} {t rest : Text} (h : p.Begins t rest)
    (hr : p.EndsAt rest) {fuel : Nat} (hf : 2 * t.length ≤ fuel + 2 * rest.length) :
    p.IsRead fuel t rest := by
  have longer := h.length_lt
  induction fuel generalizing p t rest with
  | zero => omega
  | succ fuel ih =>
    cases h with
    | word known => exact readValue_word known fuel _
    | number number => exact number.readValue hr fuel
    | string string =>
      rw [IsRead, readValue.eq_def]
      simp only [if_true, readString_eq_some_iff.2 string, Option.map_some]
    | noItems blank =>
      rw [IsRead, readValue.eq_def]
      simp only [skipSpace_mark blank (c := .ofChar ']') (by decide)]
      rfl
    | noMembers blank =>
      rw [IsRead, readValue.eq_def]
      simp only [skipSpace_mark blank (c := .ofChar '}') (by decide)]
      rfl
    | array blank inner =>
      simp only [List.length_cons, List.length_append] at hf
      exact readValue_array blank inner.opens (ih inner trivial (by omega) inner.length_lt)
    | object blank inner =>
      simp only [List.length_cons, List.length_append] at hf
      exact readValue_object blank inner.opens (ih inner trivial (by omega) inner.length_lt)
    | lastItem blank value =>
      have found := ih value (endsNumber_mark blank (c := .ofChar ']') (by decide) _)
        (by simp only [List.length_append, List.length_cons]; omega) value.length_lt
      exact readItems_last blank found
    | item blank blank' value others =>
      have shorter := value.length_lt
      have shortest := others.length_lt
      simp only [List.length_append, List.length_cons] at shorter
      have found := ih value (endsNumber_mark blank (c := .ofChar ',') (by decide) _)
        (by simp only [List.length_append, List.length_cons]; omega) value.length_lt
      exact readItems_next blank blank' others.opens found
        (ih others trivial (by omega) others.length_lt)
    | lastMember blank blank' blank₂ string value =>
      have shorter := string.length_lt
      simp only [List.length_append, List.length_cons] at shorter hf
      have found := ih value (endsNumber_mark blank₂ (c := .ofChar '}') (by decide) _)
        (by simp only [List.length_append, List.length_cons]; omega) value.length_lt
      exact readMembers_last blank blank' blank₂ value.opens (readString_eq_some_iff.2 string)
        found
    | member blank blank' blank₂ blank₃ string value others =>
      have shorter := string.length_lt
      have shorter' := value.length_lt
      have shortest := others.length_lt
      simp only [List.length_append, List.length_cons] at shorter shorter' hf
      have found := ih value (endsNumber_mark blank₂ (c := .ofChar ',') (by decide) _)
        (by simp only [List.length_append, List.length_cons]; omega) value.length_lt
      exact readMembers_next blank blank' blank₂ value.opens (readString_eq_some_iff.2 string)
        blank₃ others.opens found (ih others trivial (by omega) others.length_lt)

/-! ## Whole texts -/

theorem IsBlank.endsNumber {t : Text} (h : IsBlank t) : EndsNumber t := by
  have ends := endsNumber_of_isSpace h (t := []) nofun
  rwa [List.append_nil] at ends

/-- A text is read as a value exactly if it denotes the value. -/
theorem read?_eq_some_iff {t : Text} {v : Json} : read? t = some v ↔ Denotes t v := by
  constructor
  · intro h
    obtain ⟨⟨found, rest⟩, hf, h⟩ := Option.bind_eq_some_iff.1 h
    simp only at h
    split at h
    · next blank =>
      cases h
      obtain ⟨gap, hg, e⟩ := isBlank_skipSpace t
      exact ⟨gap, skipSpace t, rest, hg, skipSpace_eq_nil_iff.1 (List.isEmpty_iff.1 blank), e,
        begins_of_isRead (.value v) hf⟩
    · cases h
  · rintro ⟨before, body, after, hb, ha, rfl, value⟩
    have found : readValue (2 * (before ++ body).length + 2) body = some (v, after) :=
      value.isRead ha.endsNumber (by simp only [List.length_append]; omega)
    rw [read?, skipSpace_opens hb value.opens]
    simp only [found, Option.bind_eq_bind, Option.bind_some, skipSpace_eq_nil_iff.2 ha,
      List.isEmpty_nil, if_true, Option.pure_def]

end PullAuth.Json
