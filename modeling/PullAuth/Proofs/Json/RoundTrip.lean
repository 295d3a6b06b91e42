import PullAuth.Proofs.Json.Legible
import PullAuth.Proofs.Text.Strict

/-!
Written JSON texts read back. However a legible value is laid out with blanks, the reader finds it
in its text again (`read?_write`), and the text is one of ASCII (`isAscii_write`).
-/
namespace PullAuth.Json

/-! ## Blanks -/

/-- The indentation consists of blanks. -/
def Layout.IsBlank : Layout → Prop
  | oneLine => True
  | indented step => ∀ c ∈ step, isSpace c = true

theorem Layout.isBlank_tabs : (indented "\t").IsBlank := by
  show ∀ c ∈ ("\t" : Text), isSpace c = true
  decide

theorem Layout.isSpace_of_mem_line {layout : Layout} (h : layout.IsBlank) (level : Nat) :
    ∀ c ∈ layout.line level, isSpace c = true := by
  cases layout with
  | oneLine => exact nofun
  | indented step =>
    refine List.forall_mem_cons.2 ⟨by decide, fun c hc => ?_⟩
    obtain ⟨s, hs, hc⟩ := List.mem_flatten.1 hc
    rw [List.eq_of_mem_replicate hs] at hc
    exact h c hc

theorem Layout.exists_gap {layout : Layout} (h : layout.IsBlank) (level : Nat) :
    ∃ gap, layout.separator level = .ofChar ',' :: gap ∧ ∀ c ∈ gap, isSpace c = true := by
  cases layout with
  | oneLine => exact ⟨[.ofChar ' '], rfl, by decide⟩
  | indented step => exact ⟨_, rfl, isSpace_of_mem_line h level⟩

theorem skipSpace_append {blanks : Text} (h : ∀ c ∈ blanks, isSpace c = true) (t : Text) :
    skipSpace (blanks ++ t) = skipSpace t :=
  List.dropWhile_append_of_pos h

theorem skipSpace_cons {c : CodePoint} (h : isSpace c = false) (t : Text) :
    skipSpace (c :: t) = c :: t := by
  rw [skipSpace, List.dropWhile_cons, h]
  rfl

theorem endsNumber_of_isSpace {blanks t : Text} (h : ∀ c ∈ blanks, isSpace c = true)
    (ht : EndsNumber t) : EndsNumber (blanks ++ t) := by
  cases blanks with
  | nil => exact ht
  | cons c blanks =>
    intro d hd
    cases hd
    have space := h c List.mem_cons_self
    simp only [isSpace, Bool.or_eq_true, decide_eq_true_eq] at space
    rcases space with ((rfl | rfl) | rfl) | rfl <;> decide

/-! ## Values that begin with their first character -/

theorem readValue_word {word : Text} {v : Json} (h : (word, v) ∈ words) (fuel : Nat) (rest : Text) :
    readValue (fuel + 1) (word ++ rest) = some (v, rest) := by
  simp only [words, List.mem_cons, Prod.mk.injEq, List.not_mem_nil, or_false] at h
  rcases h with ⟨rfl, rfl⟩ | ⟨rfl, rfl⟩ | ⟨rfl, rfl⟩ | ⟨rfl, rfl⟩ | ⟨rfl, rfl⟩ | ⟨rfl, rfl⟩
  all_goals rfl

/-- No word begins with a digit or with a minus sign and a digit. -/
theorem readWord_of_digit {d : CodePoint} (hd : d.isDigit = true) {t u : Text}
    (ht : t = d :: u ∨ t = .ofChar '-' :: d :: u) : readWord t = none := by
  cases h : readWord t with
  | none => rfl
  | some found =>
    obtain ⟨v, rest⟩ := found
    obtain ⟨word, known, e⟩ := append_of_readWord h
    have starts : ∀ p ∈ words, 2 ≤ p.1.length ∧ ∀ c ∈ p.1.take 2, c.isDigit = false := by decide
    obtain ⟨long, apart⟩ := starts _ known
    match word, long with
    | a :: b :: word, _ =>
      have ha := apart a List.mem_cons_self
      have hb := apart b (List.mem_cons_of_mem a List.mem_cons_self)
      rcases ht with rfl | rfl
      · cases e
        rw [hd] at ha
        cases ha
      · cases e
        rw [hd] at hb
        cases hb

theorem SpellsNumber.readValue {t rest : Text} {v : Json} (h : SpellsNumber t v)
    (hr : EndsNumber rest) (fuel : Nat) :
    Json.readValue (fuel + 1) (t ++ rest) = some (v, rest) := by
  have number := h.readNumber hr
  obtain ⟨d, u, hd, ht⟩ := h.head
  have word := readWord_of_digit hd (t := t ++ rest) (u := u ++ rest)
    (by rcases ht with rfl | rfl <;> simp)
  rcases ht with rfl | rfl
  · rw [List.cons_append] at *
    rw [Json.readValue.eq_def]
    simp only [if_neg (CodePoint.ne_of_isDigit hd (c := .ofChar '"') (by decide)),
      if_neg (CodePoint.ne_of_isDigit hd (c := .ofChar '[') (by decide)),
      if_neg (CodePoint.ne_of_isDigit hd (c := .ofChar '{') (by decide)), word, number]
  · rw [List.cons_append] at *
    rw [Json.readValue.eq_def]
    simp only [word, number]
    rfl

theorem spellsNumber_double (value : Double) :
    SpellsNumber (value.toText doubleNames) (double value) ∨
      (value.toText doubleNames, double value) ∈ words := by
  cases value with
  | notANumber => exact .inr (List.getElem_mem (l := words) (n := 3) (by decide))
  | infinite negative =>
    cases negative
    · exact .inr (List.getElem_mem (l := words) (n := 4) (by decide))
    · exact .inr (List.getElem_mem (l := words) (n := 5) (by decide))
  | finite negative rank => exact .inl (spellsNumber_finite negative rank)

theorem stringText_append (t rest : Text) : stringText t ++ rest =
    .ofChar '"' :: (t.flatMap escapedChar ++ .ofChar '"' :: rest) := by
  rw [stringText, List.append_assoc, List.append_assoc]
  rfl

theorem readValue_stringText {t : Text} (h : t.IsJoined) (fuel : Nat) (rest : Text) :
    readValue (fuel + 1) (stringText t ++ rest) = some (string t, rest) := by
  rw [stringText_append, readValue.eq_def]
  simp only [if_true, readString_escaped h, Option.map_some]

/-- A text begins with a character that is no blank and closes nothing. -/
def Opens (t : Text) : Prop := ∃ c u, t = c :: u ∧ isSpace c = false ∧ c ≠ ']' ∧ c ≠ '}'

theorem opens_of_mem_words {word : Text} {v : Json} (h : (word, v) ∈ words) : Opens word := by
  have starts : ∀ p ∈ words, p.1 ≠ [] ∧
      ∀ c ∈ p.1.head?, isSpace c = false ∧ c ≠ ']' ∧ c ≠ '}' := by decide
  obtain ⟨present, first⟩ := starts _ h
  obtain ⟨c, u, rfl⟩ := List.exists_cons_of_ne_nil present
  exact ⟨c, u, rfl, first c rfl⟩

theorem SpellsNumber.opens {t : Text} {v : Json} (h : SpellsNumber t v) : Opens t := by
  obtain ⟨d, u, hd, rfl | rfl⟩ := h.head
  · have other {c : CodePoint} (hc : c.isDigit = false) : d ≠ c := CodePoint.ne_of_isDigit hd hc
    refine ⟨d, u, rfl, ?_, other (by decide), other (by decide)⟩
    simp only [isSpace, other (c := .ofChar ' ') (by decide), other (c := .ofChar '\t') (by decide),
      other (c := .ofChar '\n') (by decide), other (c := .ofChar '\r') (by decide), decide_false,
      Bool.or_false]
  · exact ⟨_, _, rfl, by decide⟩

theorem opens_writeAt {v : Json} (h : Legible v) (layout : Layout) (level : Nat) :
    Opens (writeAt layout level v) := by
  cases h with
  | null => exact ⟨_, _, rfl, by decide⟩
  | bool value => cases value <;> exact ⟨_, _, rfl, by decide⟩
  | int short =>
    rw [writeAt]
    exact (spellsNumber_ofInt short).opens
  | double value =>
    rw [writeAt]
    exact (spellsNumber_double value).elim SpellsNumber.opens opens_of_mem_words
  | string => exact ⟨_, _, rfl, by decide⟩
  | @array items => cases items <;> exact ⟨_, _, rfl, by decide⟩
  | @object members => cases members <;> exact ⟨_, _, rfl, by decide⟩

/-! ## Containers -/

/-- The value is read from its text wherever nothing follows that goes on with a number. Twice the
length of the text is fuel enough. -/
def ReadsBack (layout : Layout) (v : Json) : Prop :=
  ∀ (level fuel : Nat) (rest : Text), EndsNumber rest →
    2 * (writeAt layout level v).length ≤ fuel →
    readValue fuel (writeAt layout level v ++ rest) = some (v, rest)

/-- Behind blanks a value is found where it begins. -/
theorem skipSpace_value {blanks : Text} (hb : ∀ c ∈ blanks, isSpace c = true) {v : Json}
    (h : Legible v) (layout : Layout) (level : Nat) (rest : Text) :
    skipSpace (blanks ++ (writeAt layout level v ++ rest)) = writeAt layout level v ++ rest := by
  obtain ⟨c, u, hu, hc, -⟩ := opens_writeAt h layout level
  rw [skipSpace_append hb, hu, List.cons_append, skipSpace_cons hc]

theorem skipSpace_blank_value {v : Json} (h : Legible v) (layout : Layout) (level : Nat)
    (rest : Text) : skipSpace (.ofChar ' ' :: (writeAt layout level v ++ rest)) =
      writeAt layout level v ++ rest :=
  @skipSpace_value [.ofChar ' '] (by decide) v h layout level rest

theorem endsNumber_cons {c : CodePoint} (t : Text)
    (hc : c.isDigit = false ∧ c ≠ '.' ∧ c ≠ 'e' ∧ c ≠ 'E') : EndsNumber (c :: t) := by
  rintro _ ⟨⟩
  exact hc

/-- The text of a member and what follows it. -/
def memberText (layout : Layout) (level : Nat) (m : Text × Json) (rest : Text) : Text :=
  stringText m.1 ++ .ofChar ':' :: .ofChar ' ' :: (writeAt layout level m.2 ++ rest)

theorem memberText_append (layout : Layout) (level : Nat) (m : Text × Json) (s t : Text) :
    memberText layout level m s ++ t = memberText layout level m (s ++ t) := by
  simp only [memberText, List.append_assoc, List.cons_append]

theorem length_memberText (layout : Layout) (level : Nat) (m : Text × Json) (rest : Text) :
    (memberText layout level m rest).length =
      (stringText m.1).length + (writeAt layout level m.2).length + rest.length + 2 := by
  simp only [memberText, List.length_append, List.length_cons]
  omega

/-- Behind blanks a member is found where its key begins. -/
theorem skipSpace_member {blanks : Text} (hb : ∀ c ∈ blanks, isSpace c = true) (layout : Layout)
    (level : Nat) (m : Text × Json) (rest : Text) :
    skipSpace (blanks ++ memberText layout level m rest) = memberText layout level m rest := by
  rw [skipSpace_append hb, memberText, stringText_append, skipSpace_cons (by decide)]

section Containers

variable {layout : Layout} (hl : layout.IsBlank) {blanks : Text}
  (hb : ∀ c ∈ blanks, isSpace c = true) (level : Nat) (rest : Text)

include hl hb

/-- The items of an array are read up to its closing bracket. -/
theorem readItems_written {item : Json} {items : List Json} (fuel : Nat)
    (legible : ∀ i ∈ item :: items, Legible i) (back : ∀ i ∈ item :: items, ReadsBack layout i)
    (hf : 2 * ((writeAt layout level item).length +
      (writeItems layout level items).length) < fuel) :
    readItems fuel (writeAt layout level item ++
      (writeItems layout level items ++ (blanks ++ .ofChar ']' :: rest))) =
        some (item :: items, rest) := by
  induction items generalizing item fuel with
  | nil =>
    obtain ⟨fuel, rfl⟩ := Nat.exists_eq_add_one_of_ne_zero (Nat.ne_zero_of_lt hf)
    have ends := endsNumber_of_isSpace hb (endsNumber_cons (c := .ofChar ']') rest (by decide))
    have first := back item List.mem_cons_self level fuel _ ends (by omega)
    rw [readItems.eq_def, writeItems, List.nil_append]
    simp only [first, skipSpace_append hb, skipSpace_cons (c := .ofChar ']') (by decide), if_true]
  | cons next items ih =>
    obtain ⟨fuel, rfl⟩ := Nat.exists_eq_add_one_of_ne_zero (Nat.ne_zero_of_lt hf)
    obtain ⟨gap, separator, hg⟩ := Layout.exists_gap hl level
    obtain ⟨-, legible_rest⟩ := List.forall_mem_cons.1 legible
    obtain ⟨back_first, back_rest⟩ := List.forall_mem_cons.1 back
    have text : writeItems layout level (next :: items) = .ofChar ',' ::
        (gap ++ (writeAt layout level next ++ writeItems layout level items)) := by
      rw [writeItems, separator, List.append_assoc, List.cons_append]
    rw [text] at hf ⊢
    simp only [List.length_cons, List.length_append] at hf
    -- The comma ends the item, even if it is a number.
    have first := back_first level fuel _ (endsNumber_cons (c := .ofChar ',') (gap ++
      (writeAt layout level next ++ (writeItems layout level items ++
        (blanks ++ .ofChar ']' :: rest)))) (by decide)) (by omega)
    have others := ih fuel legible_rest back_rest (by omega)
    have value := skipSpace_value hg (legible_rest next List.mem_cons_self) layout level
      (writeItems layout level items ++ (blanks ++ .ofChar ']' :: rest))
    rw [readItems.eq_def]
    simp only [List.cons_append, List.append_assoc, first,
      skipSpace_cons (c := .ofChar ',') (by decide), value, others]
    rfl

/-- The members of an object are read up to its closing brace. -/
theorem readMembers_written {member : Text × Json} {members : List (Text × Json)} (fuel : Nat)
    (joined : ∀ m ∈ member :: members, m.1.IsJoined)
    (legible : ∀ m ∈ member :: members, Legible m.2)
    (back : ∀ m ∈ member :: members, ReadsBack layout m.2)
    (hf : 2 * ((writeAt layout level member.2).length +
      (writeMembers layout level members).length) < fuel) :
    readMembers fuel (memberText layout level member
      (writeMembers layout level members ++ (blanks ++ .ofChar '}' :: rest))) =
        some (member :: members, rest) := by
  induction members generalizing member fuel with
  | nil =>
    obtain ⟨fuel, rfl⟩ := Nat.exists_eq_add_one_of_ne_zero (Nat.ne_zero_of_lt hf)
    have key := joined member List.mem_cons_self
    have ends := endsNumber_of_isSpace hb (endsNumber_cons (c := .ofChar '}') rest (by decide))
    have first := back member List.mem_cons_self level fuel _ ends (by omega)
    have value := skipSpace_blank_value (legible member List.mem_cons_self) layout level
      (blanks ++ .ofChar '}' :: rest)
    rw [readMembers.eq_def, writeMembers, List.nil_append, memberText, stringText_append]
    simp only [readString_escaped key, skipSpace_cons (c := .ofChar ':') (by decide), value, first,
      skipSpace_append hb, skipSpace_cons (c := .ofChar '}') (by decide)]
    rfl
  | cons next members ih =>
    obtain ⟨fuel, rfl⟩ := Nat.exists_eq_add_one_of_ne_zero (Nat.ne_zero_of_lt hf)
    obtain ⟨gap, separator, hg⟩ := Layout.exists_gap hl level
    obtain ⟨key, joined_rest⟩ := List.forall_mem_cons.1 joined
    obtain ⟨legible_first, legible_rest⟩ := List.forall_mem_cons.1 legible
    obtain ⟨back_first, back_rest⟩ := List.forall_mem_cons.1 back
    have text : writeMembers layout level (next :: members) = .ofChar ',' ::
        (gap ++ memberText layout level next (writeMembers layout level members)) := by
      rw [writeMembers, separator, List.append_assoc, List.append_assoc, List.append_assoc,
        List.cons_append]
      rfl
    rw [text] at hf ⊢
    simp only [List.length_cons, List.length_append, length_memberText] at hf
    let closing := writeMembers layout level members ++ (blanks ++ .ofChar '}' :: rest)
    have first := back_first level fuel _ (endsNumber_cons (c := .ofChar ',')
      (gap ++ memberText layout level next closing) (by decide)) (by omega)
    have others := ih fuel joined_rest legible_rest back_rest (by omega)
    have value := skipSpace_blank_value legible_first layout level
      (.ofChar ',' :: (gap ++ memberText layout level next closing))
    rw [readMembers.eq_def, memberText, stringText_append]
    simp only [List.cons_append, List.append_assoc, memberText_append, readString_escaped key,
      skipSpace_cons (c := .ofChar ':') (by decide), closing] at *
    simp only [value, first, skipSpace_cons (c := .ofChar ',') (by decide),
      skipSpace_member hg, others]
    rfl

end Containers

/-- Words, numbers and strings take one step of reading. -/
theorem readsBack_of_step {layout : Layout} {v : Json} (h : Legible v)
    (step : ∀ (level fuel : Nat) (rest : Text), EndsNumber rest →
      readValue (fuel + 1) (writeAt layout level v ++ rest) = some (v, rest)) :
    ReadsBack layout v := by
  intro level fuel rest hr hf
  obtain ⟨c, u, hu, -⟩ := opens_writeAt h layout level
  have present : fuel ≠ 0 := by
    rw [hu, List.length_cons] at hf
    omega
  obtain ⟨fuel, rfl⟩ := Nat.exists_eq_add_one_of_ne_zero present
  exact step level fuel rest hr

theorem readsBack_word {layout : Layout} {v : Json} (h : Legible v)
    (word : ∀ level, (writeAt layout level v, v) ∈ words) : ReadsBack layout v :=
  readsBack_of_step h fun level fuel rest _ => readValue_word (word level) fuel rest

theorem readsBack_array {layout : Layout} (hl : layout.IsBlank) {items : List Json}
    (legible : ∀ i ∈ items, Legible i) (back : ∀ i ∈ items, ReadsBack layout i) :
    ReadsBack layout (array items) := by
  cases items with
  | nil => exact readsBack_of_step (.array legible) fun level fuel rest _ => rfl
  | cons item items =>
    intro level fuel rest hr hf
    have hb := Layout.isSpace_of_mem_line hl level
    have text (t : Text) : writeAt layout level (array (item :: items)) ++ t =
        .ofChar '[' :: (layout.line (level + 1) ++ (writeAt layout (level + 1) item ++
          (writeItems layout (level + 1) items ++ (layout.line level ++ .ofChar ']' :: t)))) := by
      rw [writeAt]
      simp only [List.append_assoc]
      rfl
    have length := congrArg List.length (text [])
    simp only [List.append_nil, List.length_cons, List.length_append] at length
    obtain ⟨fuel, rfl⟩ := Nat.exists_eq_add_one_of_ne_zero (n := fuel) (by omega)
    have found := readItems_written hl hb (level + 1) rest fuel legible back (by omega)
    have value := skipSpace_value (Layout.isSpace_of_mem_line hl (level + 1))
      (legible item List.mem_cons_self) layout (level + 1)
      (writeItems layout (level + 1) items ++ (layout.line level ++ .ofChar ']' :: rest))
    obtain ⟨c, u, hu, -, open_item, -⟩ := opens_writeAt (legible item List.mem_cons_self) layout
      (level + 1)
    rw [hu, List.cons_append] at found value
    rw [text, hu, List.cons_append, readValue.eq_def]
    simp only [value, if_neg open_item, found]
    rfl

theorem readsBack_object {layout : Layout} (hl : layout.IsBlank) {members : List (Text × Json)}
    (nodup : (members.map Prod.fst).Nodup) (joined : ∀ m ∈ members, m.1.IsJoined)
    (legible : ∀ m ∈ members, Legible m.2) (back : ∀ m ∈ members, ReadsBack layout m.2) :
    ReadsBack layout (object members) := by
  cases members with
  | nil => exact readsBack_of_step (.object nodup joined legible) fun level fuel rest _ => rfl
  | cons member members =>
    intro level fuel rest hr hf
    have hb := Layout.isSpace_of_mem_line hl level
    have text (t : Text) : writeAt layout level (object (member :: members)) ++ t =
        .ofChar '{' :: (layout.line (level + 1) ++ memberText layout (level + 1) member
          (writeMembers layout (level + 1) members ++
            (layout.line level ++ .ofChar '}' :: t))) := by
      rw [writeAt, memberText]
      simp only [List.append_assoc]
      rfl
    have length := congrArg List.length (text [])
    simp only [List.append_nil, List.length_cons, List.length_append, length_memberText] at length
    obtain ⟨fuel, rfl⟩ := Nat.exists_eq_add_one_of_ne_zero (n := fuel) (by omega)
    have found := readMembers_written hl hb (level + 1) rest fuel joined legible back (by omega)
    have key := skipSpace_member (Layout.isSpace_of_mem_line hl (level + 1)) layout (level + 1)
      member (writeMembers layout (level + 1) members ++ (layout.line level ++ .ofChar '}' :: rest))
    rw [memberText, stringText_append] at found key
    rw [text, memberText, stringText_append, readValue.eq_def]
    simp only [key, found, Keyed.ofPairs_of_nodup nodup, Option.map_some]
    rfl

theorem readsBack {layout : Layout} (hl : layout.IsBlank) {v : Json} (h : Legible v) :
    ReadsBack layout v := by
  induction h with
  | null => exact readsBack_word .null fun _ => List.getElem_mem (l := words) (n := 0) (by decide)
  | bool value =>
    refine readsBack_word (.bool value) fun _ => ?_
    cases value
    · exact List.getElem_mem (l := words) (n := 2) (by decide)
    · exact List.getElem_mem (l := words) (n := 1) (by decide)
  | int short =>
    refine readsBack_of_step (.int short) fun level fuel rest hr => ?_
    rw [writeAt]
    exact (spellsNumber_ofInt short).readValue hr fuel
  | double value =>
    refine readsBack_of_step (.double value) fun level fuel rest hr => ?_
    rw [writeAt]
    rcases spellsNumber_double value with number | word
    · exact number.readValue hr fuel
    · exact readValue_word word fuel rest
  | string joined =>
    refine readsBack_of_step (.string joined) fun level fuel rest _ => ?_
    rw [writeAt]
    exact readValue_stringText joined fuel rest
  | array legible ih => exact readsBack_array hl legible ih
  | object nodup joined legible ih => exact readsBack_object hl nodup joined legible ih

/-- A legible value is read back from its text. -/
theorem read?_write {layout : Layout} (hl : layout.IsBlank) {v : Json} (h : Legible v) :
    read? (write layout v) = some v := by
  obtain ⟨c, u, hu, hc, -⟩ := opens_writeAt h layout 0
  have back := readsBack hl h 0 (2 * (write layout v).length + 2) [] nofun (Nat.le_add_right _ _)
  have start : skipSpace (write layout v) = write layout v := by
    rw [write, hu, skipSpace_cons hc]
  rw [List.append_nil] at back
  rw [read?, start]
  show (readValue _ (writeAt layout 0 v)).bind _ = _
  rw [back]
  rfl

/-! ## ASCII -/

theorem isAscii_of_isSpace {t : Text} (h : ∀ c ∈ t, isSpace c = true) : t.IsAscii := by
  intro c hc
  have space := h c hc
  simp only [isSpace, Bool.or_eq_true, decide_eq_true_eq] at space
  rcases space with ((rfl | rfl) | rfl) | rfl <;> decide

theorem SpellsNumber.isAscii {t : Text} {v : Json} (h : SpellsNumber t v) : t.IsAscii := by
  cases h with
  | @parts negative whole fractionText powerText fraction power _ hw hf hp value =>
  have sign : (signText negative).IsAscii := by
    cases negative <;> decide
  have fraction_ascii : fractionText.IsAscii := by
    cases hf with
    | none => exact nofun
    | some digits => exact List.forall_mem_cons.2 ⟨by decide, digits.isAscii⟩
  have power_ascii : powerText.IsAscii := by
    cases hp with
    | none => exact nofun
    | some letter sign digits =>
      refine List.forall_mem_cons.2 ⟨by rcases letter with rfl | rfl <;> decide, ?_⟩
      refine Text.IsAscii.append ?_ digits.isAscii
      cases sign <;> decide
  exact sign.append (hw.digits.isAscii.append (fraction_ascii.append power_ascii))

theorem isAscii_unitEscape (unit : Nat) : (unitEscape unit).IsAscii := by
  exact Text.IsAscii.append (by decide) fun c hc => Text.lt_of_mem_ofHex hc

theorem isAscii_escapedChar (c : CodePoint) : (escapedChar c).IsAscii := by
  unfold escapedChar
  repeat' split
  all_goals try decide
  · next h =>
    simp only [Bool.and_eq_true, decide_eq_true_eq] at h
    exact List.forall_mem_singleton.2 (by omega)
  · exact isAscii_unitEscape _
  · exact (isAscii_unitEscape _).append (isAscii_unitEscape _)

theorem isAscii_stringText (t : Text) : (stringText t).IsAscii := by
  have quote : Text.IsAscii "\"" := by decide
  refine (quote.append fun c hc => ?_).append quote
  obtain ⟨d, -, hd⟩ := List.mem_flatMap.1 hc
  exact isAscii_escapedChar d c hd

theorem isAscii_separator {layout : Layout} (hl : layout.IsBlank) (level : Nat) :
    (layout.separator level).IsAscii := by
  obtain ⟨gap, separator, hg⟩ := Layout.exists_gap hl level
  rw [separator]
  exact List.forall_mem_cons.2 ⟨by decide, isAscii_of_isSpace hg⟩

theorem isAscii_ofInt (n : Int) : (Text.ofInt n).IsAscii := by
  cases n with
  | ofNat n => exact (Text.isDigits_ofNat n).isAscii
  | negSucc n =>
    exact List.forall_mem_cons.2 ⟨by decide, (Text.isDigits_ofNat (n + 1)).isAscii⟩

section

variable {layout : Layout} (hl : layout.IsBlank)

include hl

mutual

theorem isAscii_writeAt (level : Nat) : ∀ v, (writeAt layout level v).IsAscii
  | null => by
    rw [writeAt]
    decide
  | bool true => by
    rw [writeAt]
    decide
  | bool false => by
    rw [writeAt]
    decide
  | int value => by
    rw [writeAt]
    exact isAscii_ofInt value
  | double value => by
    rw [writeAt]
    rcases spellsNumber_double value with number | word
    · exact number.isAscii
    · have words_ascii : ∀ p ∈ words, p.1.IsAscii := by decide
      exact words_ascii _ word
  | string value => by
    rw [writeAt]
    exact isAscii_stringText value
  | array [] => by
    rw [writeAt]
    decide
  | array (item :: rest) => by
    have line (level : Nat) := isAscii_of_isSpace (Layout.isSpace_of_mem_line hl level)
    rw [writeAt]
    exact ((((Text.IsAscii.append (by decide) (line _)).append
      (isAscii_writeAt (level + 1) item)).append (isAscii_writeItems (level + 1) rest)).append
        (line _)).append (by decide)
  | object [] => by
    rw [writeAt]
    decide
  | object ((key, value) :: rest) => by
    have line (level : Nat) := isAscii_of_isSpace (Layout.isSpace_of_mem_line hl level)
    rw [writeAt]
    exact ((((((Text.IsAscii.append (by decide) (line _)).append (isAscii_stringText key)).append
      (by decide)).append (isAscii_writeAt (level + 1) value)).append
        (isAscii_writeMembers (level + 1) rest)).append (line _)).append (by decide)

theorem isAscii_writeItems (level : Nat) : ∀ items, (writeItems layout level items).IsAscii
  | [] => by
    rw [writeItems]
    exact nofun
  | item :: rest => by
    rw [writeItems]
    exact ((isAscii_separator hl level).append (isAscii_writeAt level item)).append
      (isAscii_writeItems level rest)

theorem isAscii_writeMembers (level : Nat) : ∀ members,
    (writeMembers layout level members).IsAscii
  | [] => by
    rw [writeMembers]
    exact nofun
  | (key, value) :: rest => by
    have colon : Text.IsAscii ": " := by
      unfold Text.IsAscii
      decide
    rw [writeMembers]
    exact ((((isAscii_separator hl level).append (isAscii_stringText key)).append colon).append
      (isAscii_writeAt level value)).append (isAscii_writeMembers level rest)

end

/-- Whatever is written, the text is one of ASCII. -/
theorem isAscii_write (v : Json) : (write layout v).IsAscii :=
  isAscii_writeAt hl 0 v

end

end PullAuth.Json
