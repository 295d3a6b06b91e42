import PullAuth.Failure
import PullAuth.Proofs.Json.Grammar
import PullAuth.Proofs.Json.Order
import PullAuth.Proofs.Runs

/-!
What is nested too deep. A text that begins with more brackets than there is room for is never read
(`isTooDeep_brackets_append`). The written text of a legible value is read exactly if the value has
no more levels than there is room for (`isTooDeep_write_iff`), and neither an order of its members
nor what is put into it from elsewhere adds levels of its own.
-/
namespace PullAuth.Json

/-! ## Reading with a limit -/

theorem read_eq_ok_iff {t : Text} {v : Json} :
    read t = .ok v ↔ isTooDeep t = false ∧ Denotes t v := by
  rw [← read?_eq_some_iff, read]
  cases isTooDeep t <;> cases read? t <;> simp

theorem read_eq_tooDeep_iff {t : Text} : read t = .error .tooDeep ↔ isTooDeep t = true := by
  rw [read]
  cases isTooDeep t <;> cases read? t <;> simp

/-- How a document is not had from a text: there is a reason against it, or the text is nested too
deep. -/
inductive Fails (t : Text) (Refused : ValidationFault → Prop) : Failure → Prop
  | refused {fault : ValidationFault} : isTooDeep t = false → Refused fault →
    Fails t Refused (.validation fault)
  | tooDeep : isTooDeep t = true → Fails t Refused (.breakdown .tooDeep)

section Documents

variable {α : Type} {notJson : ValidationFault} {make : Json → Except ValidationFault α} {t : Text}

theorem readDocument_of_tooDeep (h : isTooDeep t = true) :
    readDocument notJson make t = .error (.breakdown .tooDeep) := by
  rw [readDocument, read_eq_tooDeep_iff.2 h]

/-- A text that is not too deep is made use of as if there were no limit. -/
theorem readDocument_of_shallow (h : isTooDeep t = false) :
    readDocument notJson make t =
      ((read? t).elim (.error notJson) make).mapError .validation := by
  rw [readDocument, read, h]
  cases read? t <;> rfl

/-- What is made of a text is made of the value that it denotes. -/
theorem readDocument_eq_ok_iff {a : α} :
    readDocument notJson make t = .ok a ↔
      isTooDeep t = false ∧ ∃ v, Denotes t v ∧ make v = .ok a := by
  simp only [← read?_eq_some_iff]
  cases h : isTooDeep t with
  | true => simp [readDocument_of_tooDeep h]
  | false =>
    rw [readDocument_of_shallow h, Results.mapError_eq_ok_iff]
    cases read? t <;> simp

/-- A text is refused if the value that it denotes is, or if it denotes none. -/
theorem readDocument_eq_error_iff {Refused : ValidationFault → Prop}
    (refused : ∀ fault, Refused fault ↔
      (∃ v, Denotes t v ∧ make v = .error fault) ∨ (∀ v, ¬Denotes t v) ∧ fault = notJson)
    {failure : Failure} :
    readDocument notJson make t = .error failure ↔ Fails t Refused failure := by
  cases h : isTooDeep t with
  | true =>
    rw [readDocument_of_tooDeep h]
    constructor
    · intro e
      cases e
      exact .tooDeep h
    · rintro (⟨shallow, -⟩ | -)
      · rw [h] at shallow
        cases shallow
      · rfl
  | false =>
    have ends (fault : ValidationFault) :
        (read? t).elim (.error notJson) make = .error fault ↔ Refused fault := by
      simp only [refused, ← read?_eq_some_iff]
      cases read? t <;> simp [eq_comm]
    rw [readDocument_of_shallow h]
    constructor
    · intro e
      cases made : (read? t).elim (.error notJson) make with
      | ok a =>
        rw [made] at e
        cases e
      | error fault =>
        rw [made] at e
        cases e
        exact .refused h ((ends fault).1 made)
    · rintro (⟨-, reason⟩ | deep)
      · rw [(ends _).2 reason]
        rfl
      · rw [h] at deep
        cases deep

end Documents

/-! ## Brackets -/

/-- A text begins with a character that opens neither an array nor an object. -/
def OpensNoLevel (t : Text) : Prop := ∃ c u, t = c :: u ∧ c ≠ '[' ∧ c ≠ '{'

theorem opensNoLevel_of_mem_words {word : Text} {v : Json} (h : (word, v) ∈ words) :
    OpensNoLevel word := by
  have starts : ∀ p ∈ words, p.1 ≠ [] ∧ ∀ c ∈ p.1.head?, c ≠ '[' ∧ c ≠ '{' := by decide
  obtain ⟨present, first⟩ := starts _ h
  obtain ⟨c, u, rfl⟩ := List.exists_cons_of_ne_nil present
  exact ⟨c, u, rfl, first c rfl⟩

theorem SpellsNumber.opensNoLevel {t : Text} {v : Json} (h : SpellsNumber t v) :
    OpensNoLevel t := by
  obtain ⟨d, u, hd, rfl | rfl⟩ := h.head
  · have other {c : CodePoint} (hc : c.isDigit = false) : d ≠ c := CodePoint.ne_of_isDigit hd hc
    exact ⟨d, u, rfl, other (by decide), other (by decide)⟩
  · exact ⟨_, _, rfl, by decide, by decide⟩

theorem skipSpace_brackets (n : Nat) (t : Text) :
    skipSpace (Text.brackets (n + 1) ++ t) = Text.brackets (n + 1) ++ t := by
  rw [Text.brackets_succ, skipSpace_cons (by decide)]

/-- Two steps of the reading lead from one bracket to the next. -/
theorem valueOverflows_brackets {room n fuel : Nat} (t : Text) (hn : room < n)
    (hf : 2 * n ≤ fuel) : valueOverflows fuel room (Text.brackets n ++ t) = true := by
  induction room generalizing n fuel with
  | zero =>
    obtain ⟨n, rfl⟩ : ∃ k, n = k + 1 := ⟨n - 1, by omega⟩
    obtain ⟨fuel, rfl⟩ : ∃ k, fuel = k + 1 := ⟨fuel - 1, by omega⟩
    rw [Text.brackets_succ, valueOverflows.eq_def]
    rfl
  | succ room ih =>
    obtain ⟨n, rfl⟩ : ∃ k, n = k + 2 := ⟨n - 2, by omega⟩
    obtain ⟨fuel, rfl⟩ : ∃ k, fuel = k + 2 := ⟨fuel - 2, by omega⟩
    have inner : valueOverflows fuel room (Text.brackets (n + 1) ++ t) = true :=
      ih (by omega) (by omega)
    rw [Text.brackets_succ, valueOverflows.eq_def]
    show itemsOverflow (fuel + 1) room (skipSpace _) = true
    rw [skipSpace_brackets, itemsOverflow.eq_def]
    simp only [inner, Bool.true_or]

theorem isTooDeep_brackets_append {n : Nat} (hn : levelLimit < n) (t : Text) :
    isTooDeep (Text.brackets n ++ t) = true := by
  obtain ⟨n, rfl⟩ := Nat.exists_eq_add_one_of_ne_zero (Nat.ne_zero_of_lt hn)
  rw [isTooDeep, skipSpace_brackets]
  refine valueOverflows_brackets t hn ?_
  simp only [Text.brackets, List.length_append, List.length_replicate]
  omega

theorem isTooDeep_brackets {n : Nat} (hn : levelLimit < n) :
    isTooDeep (Text.brackets n) = true := by
  have deep := isTooDeep_brackets_append hn []
  rwa [List.append_nil] at deep

/-- No phrase consists of opening brackets alone. -/
theorem Phrase.Begins.exists_ne_bracket {p : Phrase} {t rest : Text} (h : p.Begins t rest) :
    ∃ c ∈ t, c ≠ '[' := by
  have opens {t : Text} (h : OpensNoLevel t) (rest : Text) : ∃ c ∈ t ++ rest, c ≠ '[' := by
    obtain ⟨c, u, rfl, hc, -⟩ := h
    exact ⟨c, List.mem_append_left rest List.mem_cons_self, hc⟩
  induction h with
  | word known => exact opens (opensNoLevel_of_mem_words known) _
  | number number => exact opens number.opensNoLevel _
  | string | noMembers | object | lastMember | member =>
    exact ⟨_, List.mem_cons_self, by decide⟩
  | noItems =>
    refine ⟨.ofChar ']', List.mem_cons_of_mem _ ?_, by decide⟩
    exact List.mem_append_right _ List.mem_cons_self
  | array _ _ ih =>
    obtain ⟨c, hc, other⟩ := ih
    exact ⟨c, List.mem_cons_of_mem _ (List.mem_append_right _ hc), other⟩
  | lastItem _ _ ih | item _ _ _ _ ih => exact ih

theorem not_denotes_brackets (n : Nat) (v : Json) : ¬Denotes (Text.brackets n) v := by
  rintro ⟨before, body, after, -, -, text, value⟩
  obtain ⟨c, hc, other⟩ := value.exists_ne_bracket
  exact other (List.eq_of_mem_replicate (text ▸ List.mem_append_right before hc))

/-! ## Written values -/

theorem valueOverflows_of_ne {c : CodePoint} (ha : c ≠ '[') (ho : c ≠ '{') (fuel room : Nat)
    (t : Text) : valueOverflows fuel room (c :: t) = false := by
  rw [valueOverflows.eq_def]
  cases fuel with
  | zero => rfl
  | succ fuel => simp only [if_neg ha, if_neg ho]

theorem opensNoLevel_writeAt {v : Json} (h : Legible v) (hv : levels v = 0) (layout : Layout)
    (level : Nat) : OpensNoLevel (writeAt layout level v) := by
  cases h with
  | null => exact ⟨_, _, rfl, by decide⟩
  | bool value => cases value <;> exact ⟨_, _, rfl, by decide⟩
  | int short =>
    rw [writeAt]
    exact (spellsNumber_ofInt short).opensNoLevel
  | double value =>
    rw [writeAt]
    exact (spellsNumber_double value).elim SpellsNumber.opensNoLevel opensNoLevel_of_mem_words
  | string => exact ⟨_, _, rfl, by decide⟩
  | array => cases hv
  | object => cases hv

/-- The text of the value comes to a bracket without room exactly if the value has more levels. -/
def OverflowsBeyondLevels (layout : Layout) (v : Json) : Prop :=
  ∀ (level fuel room : Nat) (rest : Text), EndsNumber rest →
    2 * (writeAt layout level v).length ≤ fuel →
    (valueOverflows fuel room (writeAt layout level v ++ rest) = true ↔ room < levels v)

section Containers

variable {layout : Layout} (hl : layout.IsBlank) {blanks : Text}
  (hb : ∀ c ∈ blanks, isSpace c = true) (level room : Nat) (rest : Text)

include hl hb

theorem itemsOverflow_written {item : Json} {items : List Json} (fuel : Nat)
    (legible : ∀ i ∈ item :: items, Legible i)
    (beyond : ∀ i ∈ item :: items, OverflowsBeyondLevels layout i)
    (hf : 2 * ((writeAt layout level item).length +
      (writeItems layout level items).length) < fuel) :
    itemsOverflow fuel room (writeAt layout level item ++ (writeItems layout level items ++
      (blanks ++ .ofChar ']' :: rest))) = true ↔ room < itemsLevels (item :: items) := by
  induction items generalizing item fuel with
  | nil =>
    obtain ⟨fuel, rfl⟩ := Nat.exists_eq_add_one_of_ne_zero (Nat.ne_zero_of_lt hf)
    have ends := endsNumber_of_isSpace hb (endsNumber_cons (c := .ofChar ']') rest (by decide))
    have first := readsBack hl (legible item List.mem_cons_self) level fuel _ ends (by omega)
    have beyond_here := beyond item List.mem_cons_self level fuel room _ ends (by omega)
    rw [itemsOverflow.eq_def, writeItems, List.nil_append]
    simp only [first, skipSpace_append hb, skipSpace_cons (c := .ofChar ']') (by decide)]
    rw [itemsLevels, itemsLevels, Nat.max_zero, ← beyond_here]
    exact Eq.congr_left (Bool.or_false _)
  | cons next items ih =>
    obtain ⟨fuel, rfl⟩ := Nat.exists_eq_add_one_of_ne_zero (Nat.ne_zero_of_lt hf)
    obtain ⟨gap, separator, hg⟩ := Layout.exists_gap hl level
    obtain ⟨legible_first, legible_rest⟩ := List.forall_mem_cons.1 legible
    obtain ⟨beyond_first, beyond_rest⟩ := List.forall_mem_cons.1 beyond
    have text : writeItems layout level (next :: items) = .ofChar ',' ::
        (gap ++ (writeAt layout level next ++ writeItems layout level items)) := by
      rw [writeItems, separator, List.append_assoc, List.cons_append]
    rw [text] at hf ⊢
    simp only [List.length_cons, List.length_append] at hf
    have ends := endsNumber_cons (c := .ofChar ',') (gap ++
      (writeAt layout level next ++ (writeItems layout level items ++
        (blanks ++ .ofChar ']' :: rest)))) (by decide)
    have first := readsBack hl legible_first level fuel _ ends (by omega)
    have beyond_here := beyond_first level fuel room _ ends (by omega)
    have others := ih fuel legible_rest beyond_rest (by omega)
    have value := skipSpace_value hg (legible_rest next List.mem_cons_self) layout level
      (writeItems layout level items ++ (blanks ++ .ofChar ']' :: rest))
    rw [itemsOverflow.eq_def]
    simp only [List.cons_append, List.append_assoc, first,
      skipSpace_cons (c := .ofChar ',') (by decide), value, Bool.or_eq_true, beyond_here]
    rw [itemsLevels, lt_max_iff, ← others]
    simp

theorem membersOverflow_written {member : Text × Json} {members : List (Text × Json)} (fuel : Nat)
    (joined : ∀ m ∈ member :: members, m.1.IsJoined)
    (legible : ∀ m ∈ member :: members, Legible m.2)
    (beyond : ∀ m ∈ member :: members, OverflowsBeyondLevels layout m.2)
    (hf : 2 * ((writeAt layout level member.2).length +
      (writeMembers layout level members).length) < fuel) :
    membersOverflow fuel room (memberText layout level member
      (writeMembers layout level members ++ (blanks ++ .ofChar '}' :: rest))) = true ↔
        room < membersLevels (member :: members) := by
  induction members generalizing member fuel with
  | nil =>
    obtain ⟨fuel, rfl⟩ := Nat.exists_eq_add_one_of_ne_zero (Nat.ne_zero_of_lt hf)
    have key := joined member List.mem_cons_self
    have ends := endsNumber_of_isSpace hb (endsNumber_cons (c := .ofChar '}') rest (by decide))
    have first := readsBack hl (legible member List.mem_cons_self) level fuel _ ends (by omega)
    have beyond_here := beyond member List.mem_cons_self level fuel room _ ends (by omega)
    have value := skipSpace_blank_value (legible member List.mem_cons_self) layout level
      (blanks ++ .ofChar '}' :: rest)
    rw [membersOverflow.eq_def, writeMembers, List.nil_append, memberText, stringText_append]
    simp only [readString_escaped key, skipSpace_cons (c := .ofChar ':') (by decide), value, first,
      skipSpace_append hb, skipSpace_cons (c := .ofChar '}') (by decide)]
    rw [membersLevels, membersLevels, Nat.max_zero, ← beyond_here]
    exact Eq.congr_left (Bool.or_false _)
  | cons next members ih =>
    obtain ⟨fuel, rfl⟩ := Nat.exists_eq_add_one_of_ne_zero (Nat.ne_zero_of_lt hf)
    obtain ⟨gap, separator, hg⟩ := Layout.exists_gap hl level
    obtain ⟨key, joined_rest⟩ := List.forall_mem_cons.1 joined
    obtain ⟨legible_first, legible_rest⟩ := List.forall_mem_cons.1 legible
    obtain ⟨beyond_first, beyond_rest⟩ := List.forall_mem_cons.1 beyond
    have text : writeMembers layout level (next :: members) = .ofChar ',' ::
        (gap ++ memberText layout level next (writeMembers layout level members)) := by
      rw [writeMembers, separator, List.append_assoc, List.append_assoc, List.append_assoc,
        List.cons_append]
      rfl
    rw [text] at hf ⊢
    simp only [List.length_cons, List.length_append, length_memberText] at hf
    let closing := writeMembers layout level members ++ (blanks ++ .ofChar '}' :: rest)
    have ends := endsNumber_cons (c := .ofChar ',')
      (gap ++ memberText layout level next closing) (by decide)
    have first := readsBack hl legible_first level fuel _ ends (by omega)
    have beyond_here := beyond_first level fuel room _ ends (by omega)
    have others := ih fuel joined_rest legible_rest beyond_rest (by omega)
    have value := skipSpace_blank_value legible_first layout level
      (.ofChar ',' :: (gap ++ memberText layout level next closing))
    rw [membersOverflow.eq_def, memberText, stringText_append]
    simp only [List.cons_append, List.append_assoc, memberText_append, readString_escaped key,
      skipSpace_cons (c := .ofChar ':') (by decide), closing] at *
    simp only [value, first, skipSpace_cons (c := .ofChar ',') (by decide), skipSpace_member hg]
    rw [membersLevels, lt_max_iff, ← others, ← beyond_here]
    simp

end Containers

section

variable {layout : Layout}

theorem overflows_leaf {v : Json} (h : Legible v) (hv : levels v = 0) :
    OverflowsBeyondLevels layout v := by
  intro level fuel room rest _ _
  obtain ⟨c, u, hu, ha, ho⟩ := opensNoLevel_writeAt h hv layout level
  rw [hu, List.cons_append, valueOverflows_of_ne ha ho, hv]
  simp

theorem itemsOverflow_close (fuel room : Nat) (rest : Text) :
    itemsOverflow fuel room (.ofChar ']' :: rest) = false := by
  have nothing (fuel : Nat) : readValue fuel (.ofChar ']' :: rest) = none := by
    cases fuel <;> rfl
  cases fuel with
  | zero => rw [itemsOverflow.eq_def]
  | succ fuel =>
    rw [itemsOverflow.eq_def]
    simp only [nothing, valueOverflows_of_ne (c := .ofChar ']') (by decide) (by decide),
      Bool.or_self]

theorem membersOverflow_close (fuel room : Nat) (rest : Text) :
    membersOverflow fuel room (.ofChar '}' :: rest) = false := by
  rw [membersOverflow.eq_def]
  cases fuel <;> rfl

/-- One level of room is taken by the bracket. -/
theorem valueOverflows_array {fuel room n : Nat} {t : Text}
    (inner : ∀ room, itemsOverflow fuel room (skipSpace t) = true ↔ room < n) :
    valueOverflows (fuel + 1) room (.ofChar '[' :: t) = true ↔ room < n + 1 := by
  rw [valueOverflows.eq_def]
  cases room with
  | zero => exact iff_of_true rfl (Nat.zero_lt_succ n)
  | succ room => exact (inner room).trans Nat.succ_lt_succ_iff.symm

theorem valueOverflows_object {fuel room n : Nat} {t : Text}
    (inner : ∀ room, membersOverflow fuel room (skipSpace t) = true ↔ room < n) :
    valueOverflows (fuel + 1) room (.ofChar '{' :: t) = true ↔ room < n + 1 := by
  rw [valueOverflows.eq_def]
  cases room with
  | zero => exact iff_of_true rfl (Nat.zero_lt_succ n)
  | succ room => exact (inner room).trans Nat.succ_lt_succ_iff.symm

theorem overflows_array (hl : layout.IsBlank) {items : List Json}
    (legible : ∀ i ∈ items, Legible i) (beyond : ∀ i ∈ items, OverflowsBeyondLevels layout i) :
    OverflowsBeyondLevels layout (array items) := by
  intro level fuel room rest hr hf
  rw [levels]
  cases items with
  | nil =>
    have text : writeAt layout level (array []) ++ rest = .ofChar '[' :: .ofChar ']' :: rest := by
      rw [writeAt]
      rfl
    have length := congrArg List.length text
    simp only [List.length_append, List.length_cons] at length
    obtain ⟨fuel, rfl⟩ := Nat.exists_eq_add_one_of_ne_zero (n := fuel) (by omega)
    rw [text]
    refine valueOverflows_array fun room => ?_
    rw [skipSpace_cons (by decide), itemsOverflow_close, itemsLevels]
    exact iff_of_false Bool.false_ne_true (Nat.not_lt_zero room)
  | cons item items =>
    have hb := Layout.isSpace_of_mem_line hl level
    have text (t : Text) : writeAt layout level (array (item :: items)) ++ t =
        .ofChar '[' :: (layout.line (level + 1) ++ (writeAt layout (level + 1) item ++
          (writeItems layout (level + 1) items ++ (layout.line level ++ .ofChar ']' :: t)))) := by
      rw [writeAt]
      simp only [List.append_assoc]
      rfl
    have length := congrArg List.length (text [])
    simp only [List.append_nil, List.length_cons, List.length_append] at length
    obtain ⟨fuel, rfl⟩ := Nat.exists_eq_add_one_of_ne_zero (n := fuel) (by omega)
    rw [text]
    refine valueOverflows_array fun room => ?_
    rw [skipSpace_value (Layout.isSpace_of_mem_line hl (level + 1))
      (legible item List.mem_cons_self)]
    exact itemsOverflow_written hl hb (level + 1) room rest fuel legible beyond (by omega)

theorem overflows_object (hl : layout.IsBlank) {members : List (Text × Json)}
    (joined : ∀ m ∈ members, m.1.IsJoined) (legible : ∀ m ∈ members, Legible m.2)
    (beyond : ∀ m ∈ members, OverflowsBeyondLevels layout m.2) :
    OverflowsBeyondLevels layout (object members) := by
  intro level fuel room rest hr hf
  rw [levels]
  cases members with
  | nil =>
    have text : writeAt layout level (object []) ++ rest = .ofChar '{' :: .ofChar '}' :: rest := by
      rw [writeAt]
      rfl
    have length := congrArg List.length text
    simp only [List.length_append, List.length_cons] at length
    obtain ⟨fuel, rfl⟩ := Nat.exists_eq_add_one_of_ne_zero (n := fuel) (by omega)
    rw [text]
    refine valueOverflows_object fun room => ?_
    rw [skipSpace_cons (by decide), membersOverflow_close, membersLevels]
    exact iff_of_false Bool.false_ne_true (Nat.not_lt_zero room)
  | cons member members =>
    have hb := Layout.isSpace_of_mem_line hl level
    have text (t : Text) : writeAt layout level (object (member :: members)) ++ t =
        .ofChar '{' :: (layout.line (level + 1) ++ memberText layout (level + 1) member
          (writeMembers layout (level + 1) members ++
            (layout.line level ++ .ofChar '}' :: t))) := by
      rw [writeAt, memberText]
      simp only [List.append_assoc]
      rfl
    have length := congrArg List.length (text [])
    simp only [List.append_nil, List.length_cons, List.length_append, length_memberText] at length
    obtain ⟨fuel, rfl⟩ := Nat.exists_eq_add_one_of_ne_zero (n := fuel) (by omega)
    rw [text]
    refine valueOverflows_object fun room => ?_
    rw [skipSpace_member (Layout.isSpace_of_mem_line hl (level + 1))]
    exact membersOverflow_written hl hb (level + 1) room rest fuel joined legible beyond (by omega)

theorem overflowsBeyondLevels (hl : layout.IsBlank) {v : Json} (h : Legible v) :
    OverflowsBeyondLevels layout v := by
  induction h with
  | null => exact overflows_leaf .null rfl
  | bool value => exact overflows_leaf (.bool value) rfl
  | int short => exact overflows_leaf (.int short) rfl
  | double value => exact overflows_leaf (.double value) rfl
  | string joined => exact overflows_leaf (.string joined) rfl
  | array legible ih => exact overflows_array hl legible ih
  | object nodup joined legible ih => exact overflows_object hl joined legible ih

/-- A written text is too deep exactly if the value has more levels than there is room for. -/
theorem isTooDeep_write_iff (hl : layout.IsBlank) {v : Json} (h : Legible v) :
    isTooDeep (write layout v) = true ↔ levelLimit < levels v := by
  obtain ⟨c, u, hu, hc, -⟩ := opens_writeAt h layout 0
  have start : skipSpace (write layout v) = write layout v := by
    rw [write, hu, skipSpace_cons hc]
  have ends : EndsNumber [] := IsBlank.endsNumber (List.forall_mem_nil _)
  have beyond := overflowsBeyondLevels hl h 0 (2 * (write layout v).length + 2) levelLimit [] ends
    (Nat.le_add_right _ _)
  rw [List.append_nil] at beyond
  rw [isTooDeep, start]
  exact beyond

theorem read_write (hl : layout.IsBlank) {v : Json} (h : Legible v) (hv : levels v ≤ levelLimit) :
    read (write layout v) = .ok v := by
  refine read_eq_ok_iff.2 ⟨?_, read?_eq_some_iff.1 (read?_write hl h)⟩
  rw [← Bool.not_eq_true, isTooDeep_write_iff hl h]
  exact Nat.not_lt.2 hv

end

/-! ## Levels -/

theorem itemsLevels_le_iff {items : List Json} {n : Nat} :
    itemsLevels items ≤ n ↔ ∀ item ∈ items, levels item ≤ n := by
  induction items with
  | nil => simp [itemsLevels]
  | cons item items ih => rw [itemsLevels, Nat.max_le, ih, List.forall_mem_cons]

theorem membersLevels_le_iff {members : List (Text × Json)} {n : Nat} :
    membersLevels members ≤ n ↔ ∀ m ∈ members, levels m.2 ≤ n := by
  induction members with
  | nil => simp [membersLevels]
  | cons member members ih => rw [membersLevels, Nat.max_le, ih, List.forall_mem_cons]

/-- A member has fewer levels than the object. -/
theorem levels_lt_of_mem {members : List (Text × Json)} {m : Text × Json} (h : m ∈ members) :
    levels m.2 < levels (object members) := by
  rw [levels]
  exact Nat.lt_succ_of_le (membersLevels_le_iff.1 (Nat.le_refl _) m h)

theorem levels_put_le {m : Keyed Json} {n : Nat} (hm : levels (object m) ≤ n + 1) (key : Text)
    {value : Json} (hv : levels value ≤ n) : levels (object (Keyed.put key value m)) ≤ n + 1 := by
  rw [levels, Nat.add_le_add_iff_right, membersLevels_le_iff] at *
  intro pair hp
  rcases Keyed.mem_put hp with rfl | hp
  · exact hv
  · exact hm pair hp

theorem levels_putAll_le {m : Keyed Json} {n : Nat} (hm : levels (object m) ≤ n + 1)
    {pairs : List (Text × Json)} (hp : ∀ pair ∈ pairs, levels pair.2 ≤ n) :
    levels (object (Keyed.putAll m pairs)) ≤ n + 1 := by
  rw [levels, Nat.add_le_add_iff_right, membersLevels_le_iff] at *
  intro pair h
  rcases Keyed.mem_putAll h with h | h
  · exact hm pair h
  · exact hp pair h

/-- An order of the members adds no level. -/
theorem levels_sorted_le {v : Json} (h : Legible v) : levels v.sorted ≤ levels v := by
  induction h with
  | array _ ih =>
    rw [sorted_array, levels, levels, Nat.add_le_add_iff_right, itemsLevels_le_iff]
    intro item hi
    obtain ⟨old, ho, rfl⟩ := List.mem_map.1 hi
    exact (ih old ho).trans (itemsLevels_le_iff.1 (Nat.le_refl _) old ho)
  | object _ _ _ ih =>
    rw [sorted_object, levels, levels, Nat.add_le_add_iff_right, membersLevels_le_iff]
    intro m hm
    obtain ⟨old, ho, rfl⟩ := List.mem_map.1 ((Keyed.sorted_perm _).mem_iff.1 hm)
    exact (ih old ho).trans (membersLevels_le_iff.1 (Nat.le_refl _) old ho)
  | _ => exact Nat.le_refl _

end PullAuth.Json
