import PullAuth.Proofs.Text.Strict
import PullAuth.Toml.Reader

/-!
Integers with many digits. An integer is refused for its length before anything behind it is read,
so a document that is malformed behind an integer is reported as malformed only if the integer is
short enough (`read_of_digits`).
-/
namespace PullAuth.Toml

theorem after?_of_head {start t : Text} {c d : CodePoint} (hd : start.head? = some d)
    (hc : c ≠ d) : Text.after? start (c :: t) = none := by
  cases start with
  | nil => cases hd
  | cons e start =>
    cases hd
    rw [Text.after?_cons_cons, if_neg (by simpa using Ne.symm hc)]

theorem digitRun_append {ds : Text} (h : ds.IsDigits) (rest : Text) :
    digitRun CodePoint.isDigit (ds ++ rest) =
      (ds ++ (digitRun CodePoint.isDigit rest).1, (digitRun CodePoint.isDigit rest).2) := by
  induction ds with
  | nil => rfl
  | cons c ds ih =>
    obtain ⟨hc, hds⟩ := List.forall_mem_cons.1 h
    rw [List.cons_append, digitRun.eq_def]
    simp only [hc, if_true, ih hds, List.cons_append]

/-- What is malformed behind an integer. -/
def afterDigits : Text := "?\n"

/-- Digits in a row begin no date and no time of day. -/
theorem readMoment?_of_digits {a b c d e : CodePoint} (ds : Text)
    (hc : c.isDigit = true) (he : e.isDigit = true) :
    readMoment? (a :: b :: c :: d :: e :: ds) = none := by
  -- The fifth digit stands where the dash behind a year would, the third where the colon would.
  have noDash : Text.after? "-" (e :: ds) = none :=
    after?_of_head (d := .ofChar '-') rfl (CodePoint.ne_of_isDigit he rfl)
  have noColon : Text.after? ":" (c :: d :: e :: ds) = none :=
    after?_of_head (d := .ofChar ':') rfl (CodePoint.ne_of_isDigit hc rfl)
  have date : readDate? (a :: b :: c :: d :: e :: ds) = none := by
    simp only [readDate?, fixedDigits?]
    split
    · simp [noDash]
    · rfl
  have time : readTime? (a :: b :: c :: d :: e :: ds) = none := by
    simp only [readTime?, twoDigits?, fixedDigits?]
    split
    · simp only [List.drop_succ_cons, List.drop_zero, Option.bind_eq_bind, Option.bind_some]
      split <;> simp [noColon]
    · rfl
  rw [readMoment?, date, time]
  rfl

theorem readDecimal?_of_digits {d : CodePoint} {ds : Text} (h : Text.IsDigits (d :: ds))
    (hd : d ≠ '0') :
    readDecimal? (d :: ds ++ afterDigits) =
      some (if 4300 < (d :: ds).length then .error .integerTooLong
        else .ok (.integer (Text.digitsValue (d :: ds)), afterDigits)) := by
  have first : d.isDigit = true := h d List.mem_cons_self
  have sign : readSign (d :: ds ++ afterDigits) = (false, d :: ds ++ afterDigits) := by
    have noMinus : d ≠ '-' := CodePoint.ne_of_isDigit first rfl
    have noPlus : d ≠ '+' := CodePoint.ne_of_isDigit first rfl
    simp [readSign, noMinus, noPlus]
  have run : digitRun CodePoint.isDigit (d :: ds ++ afterDigits) = (d :: ds, afterDigits) := by
    have nothing : digitRun CodePoint.isDigit afterDigits = ([], afterDigits) := by rfl
    rw [digitRun_append h, nothing, List.append_nil]
  have fraction : readFraction afterDigits = (none, afterDigits) := by rfl
  have power : readExponent afterDigits = (none, afterDigits) := by rfl
  rw [readDecimal?, sign]
  simp only [List.cons_append, if_neg hd, digits?, first, if_true] at run ⊢
  simp only [run, Option.bind_eq_bind, Option.bind_some, fraction, power]
  simp only [gt_iff_lt]
  split <;> rfl

/-- What is read from digits with something malformed behind them. -/
def readingOfDigits (ds : Text) : Reading Toml :=
  if 4300 < ds.length then .error .integerTooLong
  else .ok (.integer (Text.digitsValue ds), afterDigits)

theorem readNumber_of_digits {d : CodePoint} {ds : Text} (h : Text.IsDigits (d :: ds))
    (hd : d ≠ '0') : readNumber (d :: ds ++ afterDigits) = readingOfDigits (d :: ds) := by
  have noMark {s : Text} (hs : s.head? = some (.ofChar '0')) :
      Text.after? s (d :: (ds ++ afterDigits)) = none := after?_of_head hs hd
  have notMarked : readMarkedInteger? (d :: ds ++ afterDigits) = none := by
    have hexadecimal := noMark (s := "0x") rfl
    have binary := noMark (s := "0b") rfl
    have octal := noMark (s := "0o") rfl
    simp [readMarkedInteger?, hexadecimal, binary, octal]
  rw [readNumber, notMarked, readDecimal?_of_digits h hd]
  rfl

theorem readValue_of_digits {d : CodePoint} {ds : Text} (h : Text.IsDigits (d :: ds))
    (hd : d ≠ '0') (long : 4 ≤ ds.length) (n room : Nat) :
    readValue (n + 1) room (d :: ds ++ afterDigits) = readingOfDigits (d :: ds) := by
  have other {c : CodePoint} (hc : c.isDigit = false) : d ≠ c :=
    CodePoint.ne_of_isDigit (h d List.mem_cons_self) hc
  have noMoment : readMoment? (d :: ds ++ afterDigits) = none := by
    match ds, long with
    | a :: b :: c :: e :: ds, _ => exact readMoment?_of_digits _ (h b (by simp)) (h e (by simp))
  have noTrue : Text.after? "true" (d :: (ds ++ afterDigits)) = none :=
    after?_of_head (d := .ofChar 't') rfl (other rfl)
  have noFalse : Text.after? "false" (d :: (ds ++ afterDigits)) = none :=
    after?_of_head (d := .ofChar 'f') rfl (other rfl)
  rw [← readNumber_of_digits h hd]
  simp only [List.cons_append] at noMoment ⊢
  rw [readValue]
  simp only [other (c := .ofChar '"') rfl, other (c := .ofChar '\'') rfl,
    other (c := .ofChar '[') rfl, other (c := .ofChar '\x7b') rfl, if_false, noTrue, noFalse,
    noMoment]

/-! ## A document with one pair -/

/-- A document that gives one value. -/
def pairDocument (value : Text) : Text := "a = " ++ value

theorem readStatement_pairDocument {c : CodePoint} (hc : isBlank c = false) (t : Text) :
    readStatement {} (pairDocument (c :: t)) =
      (readValue (2 * (c :: t).length + 2) valueRoom (c :: t)).bind fun (value, rest) =>
        (Draft.addPair ["a"] value {}).map (·, rest) := by
  have key (rest : Text) (n : Nat) :
      readKey (n + 1) ("a = " ++ rest) = .ok (["a"], "= " ++ rest) := by rfl
  have noItem (rest : Text) : Text.after? "[[" ("a = " ++ rest) = none := by rfl
  have noTable (rest : Text) : Text.after? "[" ("a = " ++ rest) = none := by rfl
  have behind (rest : Text) : Text.after? "=" ("= " ++ rest) = some (" " ++ rest) := by rfl
  have body : skipBlanks (" " ++ (c :: t)) = c :: t := by
    show List.dropWhile isBlank (c :: t) = c :: t
    exact List.dropWhile_cons_of_neg (by simp [hc])
  rw [pairDocument, readStatement]
  simp only [noItem, noTable, key, behind, body, bind, Except.bind, Option.elim]
  cases readValue (2 * (c :: t).length + 2) valueRoom (c :: t) with
  | error fault => rfl
  | ok found => cases Draft.addPair ["a"] found.1 {} <;> rfl

/-- The document is read as far as the end of its value, and on from there. -/
theorem readStatements_pairDocument (t : Text) (n : Nat) :
    readStatements (n + 1) {} (pairDocument t) = (do
      let (d, rest) ← readStatement {} (pairDocument t)
      match ← skipComment (skipBlanks rest) with
      | [] => .ok d.root
      | e :: rest => if e = '\n' then readStatements n d rest else .error .malformed) := by
  obtain ⟨rest, start⟩ : ∃ rest, pairDocument t = .ofChar 'a' :: rest := ⟨_, rfl⟩
  have blanks : skipBlanks (pairDocument t) = .ofChar 'a' :: rest := start ▸ rfl
  have noNewline : CodePoint.ofChar 'a' ≠ '\n' := by decide
  have noComment : CodePoint.ofChar 'a' ≠ '#' := by decide
  rw [readStatements, blanks, start]
  exact (if_neg noNewline).trans rfl

theorem replace_of_not_mem {s : Text} {c : CodePoint} (hs : s.head? = some c) (new : Text)
    {t : Text} (h : c ∉ t) : Text.replace s new t = t := by
  have from_start : ∀ t : Text, c ∉ t → Text.replaceFrom s new 0 t = t := by
    intro t h
    induction t with
    | nil => rfl
    | cons d t ih =>
      rw [List.mem_cons, not_or] at h
      rw [Text.replaceFrom, after?_of_head hs (Ne.symm h.1)]
      simp only [ih h.2]
  rw [Text.replace]
  split
  · rfl
  · exact from_start t h

theorem read_pairDocument {t : Text} (ascii : t.IsAscii) (noReturn : CodePoint.ofChar '\r' ∉ t) :
    read (Bytes.ofAscii (pairDocument t)) =
      readStatements ((pairDocument t).length + 1) {} (pairDocument t) := by
  have noReturn' : CodePoint.ofChar '\r' ∉ pairDocument t := by
    rw [pairDocument, List.mem_append, not_or]
    exact ⟨by decide, noReturn⟩
  have ascii' : (pairDocument t).IsAscii := (by decide : Text.IsAscii "a = ").append ascii
  rw [read, Utf8.decode_ofAscii .strict ascii']
  simp only [readText, replace_of_not_mem (s := "\r\n") rfl _ noReturn']

/-! ## Reading digits -/

/-- A document that is malformed behind an integer. -/
def digitsDocument (ds : Text) : Text := pairDocument (ds ++ afterDigits)

/-- A document that is malformed behind an integer is reported as malformed only if the integer is
short enough. -/
theorem read_of_digits {d : CodePoint} {ds : Text} (h : Text.IsDigits (d :: ds))
    (hd : d ≠ '0') (long : 4 ≤ ds.length) :
    read (Bytes.ofAscii (digitsDocument (d :: ds))) =
      .error (if 4300 < (d :: ds).length then .integerTooLong else .malformed) := by
  have first : d.isDigit = true := h d List.mem_cons_self
  have noReturn : CodePoint.ofChar '\r' ∉ d :: ds ++ afterDigits := by
    rw [List.mem_append, not_or]
    exact ⟨fun hm => CodePoint.ne_of_isDigit (h _ hm) (by decide) rfl, by decide⟩
  have solid : isBlank d = false := by
    have noSpace : d ≠ ' ' := CodePoint.ne_of_isDigit first rfl
    have noTab : d ≠ '\t' := CodePoint.ne_of_isDigit first rfl
    simp [isBlank, noSpace, noTab]
  rw [digitsDocument, read_pairDocument (h.isAscii.append (by decide)) noReturn,
    readStatements_pairDocument, List.cons_append, readStatement_pairDocument solid,
    ← List.cons_append, readValue_of_digits h hd long, readingOfDigits]
  split <;> rfl

end PullAuth.Toml
