import Mathlib.Data.List.TakeDrop
import PullAuth.Proofs.Text.Kept
import PullAuth.Proofs.Text.Occurrences
import PullAuth.Toml.Reader

/-!
How far the readers of TOML go. A reader leaves an end of the text that it is given, and if it finds
an integer too long then more than 4300 digits stand in that text, with nothing but underscores
between them (`Within`); besides, it may run out of room for values inside values. Readers put
together from such readers are such readers, so no document is refused for an integer unless it has
such digits in it (`hasLongInteger_of_read`). And bytes cannot be read at all exactly if they encode
no text (`read_eq_undecodable_iff`).
-/
namespace PullAuth.Toml

/-- More than 4300 digits stand in the text, with nothing but underscores between them. -/
def HasLongInteger (t : Text) : Prop :=
  ∃ run : Text, run <:+: t ∧ (∀ c ∈ run, c.isDigit = true ∨ c = '_') ∧
    4300 < (run.filter CodePoint.isDigit).length

theorem HasLongInteger.of_infix {s t : Text} (h : HasLongInteger s) (hs : s <:+: t) :
    HasLongInteger t := by
  obtain ⟨run, within, only, long⟩ := h
  exact ⟨run, within.trans hs, only, long⟩

theorem not_hasLongInteger_of_length_le {t : Text} (h : t.length ≤ 4300) : ¬HasLongInteger t := by
  rintro ⟨run, stands, -, long⟩
  have digits := List.length_filter_le CodePoint.isDigit run
  have within := stands.length_le
  omega

/-- What a reading of the text leaves is an end of it, and there is no fault but that the text is
malformed, is nested too deep or has an integer that is too long. -/
structure Within {α : Type} (left : α → Text) (t : Text) (result : Except Fault α) : Prop where
  suffix : ∀ a, result = .ok a → left a <:+ t
  fault : ∀ fault, result = .error fault →
    fault = .malformed ∨ fault = .tooDeep ∨ (fault = .integerTooLong ∧ HasLongInteger t)

namespace Within

variable {α β : Type} {left : α → Text} {left' : β → Text} {s t : Text} {result : Except Fault α}

theorem ok {a : α} (h : left a <:+ t) : Within left t (.ok a) := by
  refine ⟨?_, nofun⟩
  intro a' e
  cases e
  exact h

theorem malformed : Within left t (.error .malformed) := by
  refine ⟨nofun, ?_⟩
  intro fault e
  cases e
  exact .inl rfl

theorem tooDeep : Within left t (.error .tooDeep) := by
  refine ⟨nofun, ?_⟩
  intro fault e
  cases e
  exact .inr (.inl rfl)

/-- A fault of one reader is passed on by another, whatever that would have left. -/
theorem error {fault : Fault} (h : Within left t result) (failed : result = .error fault) :
    Within left' t (.error fault) := by
  refine ⟨nofun, ?_⟩
  intro fault' e
  cases e
  exact h.fault fault failed

theorem ite {condition : Prop} [Decidable condition] {other : Except Fault α}
    (h : Within left t result) (h' : Within left t other) :
    Within left t (if condition then result else other) := by
  split
  · exact h
  · exact h'

theorem mono (h : Within left s result) (hs : s <:+ t) : Within left t result := by
  refine ⟨fun a e => (h.suffix a e).trans hs, ?_⟩
  intro fault e
  rcases h.fault fault e with malformed | tooDeep | ⟨tooLong, long⟩
  · exact .inl malformed
  · exact .inr (.inl tooDeep)
  · exact .inr (.inr ⟨tooLong, long.of_infix hs.isInfix⟩)

theorem bind {f : α → Except Fault β} (h : Within left t result)
    (hf : ∀ a, Within left' (left a) (f a)) : Within left' t (result >>= f) := by
  cases result with
  | error fault => exact h.error rfl
  | ok a => exact (hf a).mono (h.suffix a rfl)

theorem map {f : α → β} (h : Within left t result) (hf : ∀ a, left' (f a) <:+ left a) :
    Within left' t (result.map f) := by
  cases result with
  | error fault => exact h.error rfl
  | ok a => exact .ok ((hf a).trans (h.suffix a rfl))

theorem mapFirst {result : Except Fault (α × Text)} (h : Within Prod.snd t result) (f : α → β) :
    Within Prod.snd t (result.map fun (value, rest) => (f value, rest)) :=
  h.map fun _ => List.suffix_refl _

theorem orMalformed {found : Option α} (h : ∀ a, found = some a → left a <:+ t) :
    Within left t (found.elim (.error .malformed) .ok) := by
  cases found with
  | none => exact .malformed
  | some a => exact .ok (h a rfl)

end Within

theorem within_behind (start t : Text) :
    Within id t ((Text.after? start t).elim (.error .malformed) .ok) :=
  .orMalformed fun _ => Text.after?_suffix

theorem skipBlanks_suffix (t : Text) : skipBlanks t <:+ t := List.dropWhile_suffix _

theorem snd_span_suffix (p : CodePoint → Bool) (t : Text) : (t.span p).2 <:+ t := by
  rw [List.span_eq_takeWhile_dropWhile]
  exact List.dropWhile_suffix _

/-! ## Strings -/

theorem within_readEscape (lines : Bool) (t : Text) :
    Within (fun _ => []) t (readEscape lines t) := by
  cases t with
  | nil => exact .malformed
  | cons e t =>
    have ok (found : Text × Mode) : Within (fun _ => []) (e :: t) (.ok found) :=
      .ok List.nil_suffix
    rw [readEscape]
    split
    · exact ok _
    split
    · exact ok _
    split
    · simp only
      split
      · exact ok _
      · exact .malformed
    split
    · exact ok _
    · exact .malformed

theorem within_readQuoted (lines : Bool) (mode : Mode) (t : Text) :
    Within Prod.snd t (readQuoted lines mode t) := by
  -- An escape changes the mode for what is behind it, so the modes are not fixed.
  induction t generalizing mode with
  | nil => cases mode <;> exact .malformed
  | cons c t ih =>
    have behind := List.suffix_cons c t
    have skip (mode : Mode) : Within Prod.snd (c :: t) (readQuoted lines mode t) :=
      (ih mode).mono behind
    have close : Within Prod.snd (c :: t)
        (.ok (([] : Text), if lines then t.drop 2 else t)) := by
      refine .ok (List.IsSuffix.trans ?_ behind)
      split
      · exact List.drop_suffix 2 t
      · exact List.suffix_refl t
    have plain := (skip .plain).mapFirst (c :: ·)
    have escape := (within_readEscape lines t).mono behind
    unfold readQuoted
    split
    · exact skip _
    · exact skip _
    · exact .ite (skip _) (.ite (skip _) .malformed)
    · refine .ite (skip _) (.ite close (.ite ?_ (.ite .malformed plain)))
      split
      · next failed => exact escape.error failed
      · next part mode _ => exact (skip mode).mapFirst (part ++ ·)

theorem within_readLiteral (t : Text) : Within Prod.snd t (readLiteral t) := by
  unfold readLiteral
  split
  · next value rest h =>
    split
    · exact .malformed
    · rw [(Text.cut?_eq_some_iff.1 h).1]
      exact .ok ((List.suffix_cons _ rest).trans (List.suffix_append value _))
  · exact .malformed

theorem withTrailingQuotes_suffix (quote : CodePoint) (value rest : Text) :
    (withTrailingQuotes quote value rest).2 <:+ rest := List.drop_suffix _ rest

theorem within_readLiteralLines (t : Text) : Within Prod.snd t (readLiteralLines t) := by
  unfold readLiteralLines
  have spec := Text.cutAt?_spec "'''" (dropNewline t)
  split
  · next value rest h =>
    rw [h] at spec
    split
    · exact .malformed
    · have behind : rest <:+ dropNewline t := ⟨_, spec.1.symm⟩
      exact .ok (((withTrailingQuotes_suffix _ value rest).trans behind).trans
        (Text.dropStart_suffix _ t))
  · exact .malformed

theorem within_readQuotedLines (t : Text) : Within Prod.snd t (readQuotedLines t) :=
  ((within_readQuoted true .plain (dropNewline t)).map fun (value, rest) =>
    withTrailingQuotes_suffix _ value rest).mono (Text.dropStart_suffix _ t)

/-! ## Keys and comments -/

theorem within_readKeyPart (t : Text) : Within Prod.snd t (readKeyPart t) := by
  cases t with
  | nil => exact .malformed
  | cons c t =>
    have behind := List.suffix_cons c t
    rw [readKeyPart]
    split
    · exact .ok (snd_span_suffix isBareKey (c :: t))
    split
    · exact (within_readLiteral t).mono behind
    split
    · exact (within_readQuoted false .plain t).mono behind
    · exact .malformed

theorem within_readKey (fuel : Nat) (t : Text) : Within Prod.snd t (readKey fuel t) := by
  induction fuel generalizing t with
  | zero => exact .malformed
  | succ fuel ih =>
    rw [readKey]
    refine (within_readKeyPart t).bind fun (part, rest) => ?_
    refine Within.mono ?_ (skipBlanks_suffix rest)
    dsimp only
    split
    · next nothing =>
      rw [nothing]
      exact .ok List.nil_suffix
    · next c behind some_left =>
      rw [some_left]
      split
      · refine Within.mono ?_ ((skipBlanks_suffix behind).trans (List.suffix_cons c behind))
        exact (ih (skipBlanks behind)).bind fun (parts, rest) => .ok (List.suffix_refl rest)
      · exact .ok (List.suffix_refl _)

theorem within_skipComment (t : Text) : Within id t (skipComment t) := by
  cases t with
  | nil => exact .ok List.nil_suffix
  | cons c t =>
    rw [skipComment]
    split
    · simp only
      split
      · exact .malformed
      · exact .ok ((snd_span_suffix _ t).trans (List.suffix_cons c t))
    · exact .ok (List.suffix_refl _)

theorem within_skipFiller (fuel : Nat) (t : Text) : Within id t (skipFiller fuel t) := by
  induction fuel generalizing t with
  | zero => exact .ok (List.suffix_refl t)
  | succ fuel ih =>
    rw [skipFiller]
    refine Within.mono ?_ (List.dropWhile_suffix isBlankOrNewline)
    split
    · next nothing =>
      rw [nothing]
      exact .ok List.nil_suffix
    · next c rest some_left =>
      rw [some_left]
      split
      · exact (within_skipComment (c :: rest)).bind ih
      · exact .ok (List.suffix_refl _)

/-! ## Dates and times -/

theorem fixedDigits?_suffix {count n : Nat} {t rest : Text}
    (h : fixedDigits? count t = some (n, rest)) : rest <:+ t := by
  simp only [fixedDigits?] at h
  split at h
  · cases h
    exact List.drop_suffix count t
  · cases h

theorem twoDigits?_suffix {low high n : Nat} {t rest : Text}
    (h : twoDigits? low high t = some (n, rest)) : rest <:+ t := by
  obtain ⟨⟨m, behind⟩, hm, h⟩ := Option.bind_eq_some_iff.1 h
  dsimp only at h
  split at h
  · cases h
    exact fixedDigits?_suffix hm
  · cases h

theorem readMicroseconds_suffix (t : Text) : (readMicroseconds t).2 <:+ t := by
  cases t with
  | nil => exact List.suffix_refl _
  | cons c t =>
    simp only [readMicroseconds]
    split
    · exact (List.drop_suffix _ t).trans (List.suffix_cons c t)
    · exact List.suffix_refl _

theorem readTime?_suffix {t rest : Text} {time : Nat × Nat × Nat × Nat}
    (h : readTime? t = some (time, rest)) : rest <:+ t := by
  obtain ⟨⟨hour, t₁⟩, hour_eq, h⟩ := Option.bind_eq_some_iff.1 h
  obtain ⟨t₂, colon, h⟩ := Option.bind_eq_some_iff.1 h
  obtain ⟨⟨minute, t₃⟩, minute_eq, h⟩ := Option.bind_eq_some_iff.1 h
  obtain ⟨t₄, colon', h⟩ := Option.bind_eq_some_iff.1 h
  obtain ⟨⟨second, t₅⟩, second_eq, h⟩ := Option.bind_eq_some_iff.1 h
  cases h
  have toMinute : t₂ <:+ t := (Text.after?_suffix colon).trans (twoDigits?_suffix hour_eq)
  have toSecond : t₄ <:+ t₂ := (Text.after?_suffix colon').trans (twoDigits?_suffix minute_eq)
  exact ((readMicroseconds_suffix t₅).trans (twoDigits?_suffix second_eq)).trans
    (toSecond.trans toMinute)

theorem offset_suffix {t : Text} {offset : Option (Int × Text)}
    (h : ∀ found, offset = some found → found.2 <:+ t) :
    (match offset with
      | some (minutes, rest) => (some minutes, rest)
      | none => (none, t)).2 <:+ t := by
  cases offset with
  | none => exact List.suffix_refl t
  | some found => exact h found rfl

theorem readOffset_suffix (t : Text) : (readOffset t).2 <:+ t := by
  cases t with
  | nil => exact List.suffix_refl _
  | cons c t =>
    have behind := List.suffix_cons c t
    rw [readOffset]
    split
    · exact behind
    split
    · refine offset_suffix fun (minutes, rest) h => ?_
      obtain ⟨⟨hour, t₁⟩, hour_eq, h⟩ := Option.bind_eq_some_iff.1 h
      obtain ⟨t₂, colon, h⟩ := Option.bind_eq_some_iff.1 h
      obtain ⟨⟨minute, t₃⟩, minute_eq, h⟩ := Option.bind_eq_some_iff.1 h
      cases h
      exact ((twoDigits?_suffix minute_eq).trans (Text.after?_suffix colon)).trans
        ((twoDigits?_suffix hour_eq).trans behind)
    · exact List.suffix_refl _

theorem readDate?_suffix {t rest : Text} {date : Nat × Nat × Nat}
    (h : readDate? t = some (date, rest)) : rest <:+ t := by
  obtain ⟨⟨year, t₁⟩, year_eq, h⟩ := Option.bind_eq_some_iff.1 h
  obtain ⟨t₂, dash, h⟩ := Option.bind_eq_some_iff.1 h
  obtain ⟨⟨month, t₃⟩, month_eq, h⟩ := Option.bind_eq_some_iff.1 h
  obtain ⟨t₄, dash', h⟩ := Option.bind_eq_some_iff.1 h
  obtain ⟨⟨day, t₅⟩, day_eq, h⟩ := Option.bind_eq_some_iff.1 h
  cases h
  have toMonth : t₂ <:+ t := (Text.after?_suffix dash).trans (fixedDigits?_suffix year_eq)
  have toDay : t₄ <:+ t₂ := (Text.after?_suffix dash').trans (twoDigits?_suffix month_eq)
  exact (twoDigits?_suffix day_eq).trans (toDay.trans toMonth)

theorem readTimeOfDate_suffix {t rest : Text} {time : Nat × Nat × Nat × Nat}
    {offset : Option Int} (h : readTimeOfDate t = some (time, offset, rest)) : rest <:+ t := by
  cases t with
  | nil => cases h
  | cons c t =>
    rw [readTimeOfDate] at h
    split at h
    · obtain ⟨⟨time', behind⟩, time_eq, h⟩ := Option.bind_eq_some_iff.1 h
      cases h
      exact ((readOffset_suffix behind).trans (readTime?_suffix time_eq)).trans
        (List.suffix_cons c t)
    · cases h

theorem within_of_readMoment? {t : Text} {reading : Reading Moment}
    (h : readMoment? t = some reading) : Within Prod.snd t reading := by
  unfold readMoment? at h
  split at h
  · next date rest hd =>
    cases h
    have toTime := readDate?_suffix hd
    split
    · split
      · next time offset behind ht => exact .ok ((readTimeOfDate_suffix ht).trans toTime)
      · exact .ok toTime
    · exact .malformed
  · obtain ⟨⟨time, rest⟩, ht, e⟩ := Option.map_eq_some_iff.1 h
    cases e
    exact .ok (readTime?_suffix ht)

/-! ## Numbers -/

/-- The digits of a run are those of the text up to its rest; only underscores stand between. -/
theorem digitRun_spec (p : CodePoint → Bool) (t : Text) :
    ∃ run : Text, t = run ++ (digitRun p t).2 ∧ (∀ c ∈ run, p c = true ∨ c = '_') ∧
      run.filter p = (digitRun p t).1 := by
  induction t using digitRun.induct p with
  | case1 => exact ⟨[], rfl, List.forall_mem_nil _, rfl⟩
  | case2 c t digit _ _ _ ih =>
    obtain ⟨run, e, only, kept⟩ := ih
    rw [digitRun.eq_def]
    simp only [digit, if_true]
    refine ⟨c :: run, congrArg (c :: ·) e, List.forall_mem_cons.2 ⟨.inl digit, only⟩, ?_⟩
    rw [List.filter_cons_of_pos digit, kept]
  | case3 c noDigit d t both _ _ _ ih =>
    obtain ⟨run, e, only, kept⟩ := ih
    rw [digitRun.eq_def]
    simp only [noDigit, both, if_true, Bool.false_eq_true, if_false]
    rw [Bool.and_eq_true, decide_eq_true_eq] at both
    refine ⟨c :: d :: run, congrArg (c :: d :: ·) e, List.forall_mem_cons.2 ⟨.inr both.1,
      List.forall_mem_cons.2 ⟨.inl both.2, only⟩⟩, ?_⟩
    rw [List.filter_cons_of_neg noDigit, List.filter_cons_of_pos both.2, kept]
  | case4 c noDigit d t no =>
    rw [digitRun.eq_def]
    simp only [noDigit, no]
    exact ⟨[], rfl, List.forall_mem_nil _, rfl⟩
  | case5 c noDigit =>
    rw [digitRun.eq_def]
    simp only [noDigit]
    exact ⟨[], rfl, List.forall_mem_nil _, rfl⟩

theorem digits?_spec {p : CodePoint → Bool} {t ds rest : Text}
    (h : digits? p t = some (ds, rest)) :
    ∃ run : Text, t = run ++ rest ∧ (∀ c ∈ run, p c = true ∨ c = '_') ∧ run.filter p = ds := by
  cases t with
  | nil => cases h
  | cons c t =>
    rw [digits?] at h
    split at h
    · have spec := digitRun_spec p (c :: t)
      rwa [Option.some.inj h] at spec
    · cases h

theorem digits?_suffix {p : CodePoint → Bool} {t ds rest : Text}
    (h : digits? p t = some (ds, rest)) : rest <:+ t := by
  obtain ⟨run, e, -⟩ := digits?_spec h
  exact ⟨run, e.symm⟩

theorem suffix_of_marked {t rest mark : Text} {value : Toml} {base : Nat}
    (h : ((Text.after? mark t).bind fun body =>
      (digits? (fun c => c.hexValue?.any (· < base)) body).bind fun (ds, rest) =>
        some (integer (valueInBase base ds), rest)) = some (value, rest)) : rest <:+ t := by
  obtain ⟨body, behind, h⟩ := Option.bind_eq_some_iff.1 h
  obtain ⟨⟨ds, last⟩, found, h⟩ := Option.bind_eq_some_iff.1 h
  cases h
  exact (digits?_suffix found).trans (Text.after?_suffix behind)

theorem readMarkedInteger?_suffix {t rest : Text} {value : Toml}
    (h : readMarkedInteger? t = some (value, rest)) : rest <:+ t := by
  rcases Option.or_eq_some_iff.1 h with h | ⟨-, h⟩
  · exact suffix_of_marked h
  rcases Option.or_eq_some_iff.1 h with h | ⟨-, h⟩
  · exact suffix_of_marked h
  · exact suffix_of_marked h

theorem readFraction_suffix (t : Text) : (readFraction t).2 <:+ t := by
  unfold readFraction
  split
  · next ds rest h =>
    obtain ⟨body, point, found⟩ := Option.bind_eq_some_iff.1 h
    exact (digits?_suffix found).trans (Text.after?_suffix point)
  · exact List.suffix_refl t

theorem readSign_suffix (t : Text) : (readSign t).2 <:+ t := by
  cases t with
  | nil => exact List.suffix_refl _
  | cons c t =>
    rw [readSign]
    split
    · exact List.suffix_cons c t
    split
    · exact List.suffix_cons c t
    · exact List.suffix_refl _

theorem readExponent_cons (c : CodePoint) (t : Text) :
    readExponent (c :: t) =
      if c = 'e' || c = 'E' then
        match digits? CodePoint.isDigit (readSign t).2 with
        | some (ds, rest) =>
          let n : Int := Text.digitsValue ds
          (some (if (readSign t).1 then -n else n), rest)
        | none => (none, c :: t)
      else (none, c :: t) := rfl

theorem readExponent_suffix (t : Text) : (readExponent t).2 <:+ t := by
  cases t with
  | nil => exact List.suffix_refl _
  | cons c t =>
    rw [readExponent_cons]
    split
    · split
      · next ds rest found =>
        exact ((digits?_suffix found).trans (readSign_suffix t)).trans (List.suffix_cons c t)
      · exact List.suffix_refl _
    · exact List.suffix_refl _

theorem within_of_readDecimal? {t : Text} {reading : Reading Toml}
    (h : readDecimal? t = some reading) : Within Prod.snd t reading := by
  have sign := readSign_suffix t
  unfold readDecimal? at h
  split at h
  next negative body hb =>
  rw [hb] at sign
  extract_lets jp at h
  have finish {whole rest : Text} (behind : rest <:+ t)
      (long : 4300 < whole.length → HasLongInteger t) (h : jp (whole, rest) = some reading) :
      Within Prod.snd t reading := by
    simp only [jp] at h
    have toEnd := ((readExponent_suffix _).trans (readFraction_suffix rest)).trans behind
    split at h
    · split at h
      · next tooMany =>
        cases h
        refine ⟨nofun, ?_⟩
        intro fault e
        cases e
        exact .inr (.inr ⟨rfl, long tooMany⟩)
      · cases h
        exact .ok toEnd
    · cases h
      exact .ok toEnd
  split at h
  · next c body =>
    split at h
    · exact finish ((List.suffix_cons c body).trans sign) (by simp) h
    · obtain ⟨⟨whole, rest⟩, found, h⟩ := Option.bind_eq_some_iff.1 h
      obtain ⟨run, e, only, kept⟩ := digits?_spec found
      have behind : rest <:+ t := (digits?_suffix found).trans sign
      refine finish behind (fun tooMany => ?_) h
      have stands : run <:+: c :: body := ⟨[], rest, e.symm⟩
      exact ⟨run, stands.trans sign.isInfix, only, kept ▸ tooMany⟩
  · cases h

theorem within_readNumber (t : Text) : Within Prod.snd t (readNumber t) := by
  unfold readNumber
  split
  · next found h => exact .ok (readMarkedInteger?_suffix h)
  split
  · next reading h => exact within_of_readDecimal? h
  split
  · next value rest h =>
    obtain ⟨⟨word, value'⟩, -, found⟩ := List.exists_of_findSome?_eq_some h
    obtain ⟨behind, after, e⟩ := Option.map_eq_some_iff.1 found
    cases e
    exact .ok (Text.after?_suffix after)
  · exact .malformed

/-! ## Values -/

/-- The readers of values, of the items of an array and of the pairs of a table go no further than
the text does. -/
structure ReadsWithin (fuel : Nat) : Prop where
  value : ∀ room t, Within Prod.snd t (readValue fuel room t)
  items : ∀ room t, Within Prod.snd t (readItems fuel room t)
  pairs : ∀ room frozen members t, Within Prod.snd t (readPairs fuel room frozen members t)

section Step

variable {fuel : Nat} (ih : ReadsWithin fuel)

include ih

theorem within_readValue_succ (room : Nat) (t : Text) :
    Within Prod.snd t (readValue (fuel + 1) room t) := by
  rw [readValue.eq_def]
  cases t with
  | nil => exact .malformed
  | cons c t =>
    have behind := List.suffix_cons c t
    dsimp only
    split
    · split
      · next s h =>
        have inside := (within_readQuotedLines s).mono ((Text.after?_suffix h).trans behind)
        exact inside.mapFirst string
      · exact ((within_readQuoted false .plain t).mono behind).mapFirst string
    split
    · split
      · next s h =>
        have inside := (within_readLiteralLines s).mono ((Text.after?_suffix h).trans behind)
        exact inside.mapFirst string
      · exact ((within_readLiteral t).mono behind).mapFirst string
    split
    · refine .ite .tooDeep ?_
      refine ((within_skipFiller t.length t).mono behind).bind fun filled => ?_
      split
      · exact .malformed
      next d rest =>
      split
      · exact .ok (List.suffix_cons d rest)
      · exact (ih.items _ (d :: rest)).bind fun (items, rest) => .ok (List.suffix_refl rest)
    split
    · refine .ite .tooDeep ?_
      refine Within.mono ?_ ((skipBlanks_suffix t).trans behind)
      split
      · exact .malformed
      next d rest h =>
      rw [h]
      split
      · exact .ok (List.suffix_cons d rest)
      · exact (ih.pairs _ [] [] (d :: rest)).bind fun (members, rest) => .ok (List.suffix_refl rest)
    split
    · next rest h => exact .ok (Text.after?_suffix h)
    · next rest h => exact .ok (Text.after?_suffix h)
    split
    · next reading h => exact (within_of_readMoment? h).map fun _ => List.suffix_refl _
    · exact within_readNumber (c :: t)

theorem within_readItems_succ (room : Nat) (t : Text) :
    Within Prod.snd t (readItems (fuel + 1) room t) := by
  rw [readItems]
  refine (ih.value room t).bind fun (item, rest) => ?_
  dsimp only
  refine (within_skipFiller rest.length rest).bind fun filled => ?_
  split
  · exact .malformed
  next d rest =>
  split
  · exact .ok (List.suffix_cons d rest)
  split
  · refine ((within_skipFiller rest.length rest).mono (List.suffix_cons d rest)).bind
      fun filled => ?_
    split
    · exact .malformed
    next e rest =>
    split
    · exact .ok (List.suffix_cons e rest)
    · exact (ih.items room (e :: rest)).bind fun (items, rest) => .ok (List.suffix_refl rest)
  · exact .malformed

theorem within_readPairs_succ (room : Nat) (frozen : List KeyPath) (members : Keyed Toml)
    (t : Text) : Within Prod.snd t (readPairs (fuel + 1) room frozen members t) := by
  rw [readPairs]
  refine (within_readKey (t.length + 1) t).bind fun (key, rest) => ?_
  dsimp only
  refine (within_behind "=" rest).bind fun rest => ?_
  refine ((ih.value room (skipBlanks rest)).mono (skipBlanks_suffix rest)).bind
    fun (value, rest) => ?_
  dsimp only
  split
  · exact .malformed
  split
  · exact .malformed
  next members _ =>
  refine Within.mono ?_ (skipBlanks_suffix rest)
  split
  · exact .malformed
  next d rest h =>
  rw [h]
  split
  · exact .ok (List.suffix_cons d rest)
  split
  · exact (ih.pairs room _ members (skipBlanks rest)).mono
      ((skipBlanks_suffix rest).trans (List.suffix_cons d rest))
  · exact .malformed

end Step

theorem readsWithin (fuel : Nat) : ReadsWithin fuel := by
  -- The three readers call each other, always with less fuel.
  induction fuel with
  | zero =>
    refine ⟨fun room t => ?_, fun room t => .malformed, fun room frozen members t => .malformed⟩
    cases t <;> exact .malformed
  | succ fuel ih =>
    exact ⟨within_readValue_succ ih, within_readItems_succ ih, within_readPairs_succ ih⟩

/-! ## Documents -/

namespace Draft

theorem within_openTable (key : KeyPath) (d : Draft) (t : Text) :
    Within (fun _ => t) t (openTable key d) := by
  simp only [openTable]
  split
  · exact .malformed
  split
  · exact .malformed
  · exact .ok (List.suffix_refl t)

theorem within_openItem (key : KeyPath) (d : Draft) (t : Text) :
    Within (fun _ => t) t (openItem key d) := by
  simp only [openItem]
  split
  · exact .malformed
  split
  · exact .malformed
  · exact .ok (List.suffix_refl t)

theorem within_addPair (key : KeyPath) (value : Toml) (d : Draft) (t : Text) :
    Within (fun _ => t) t (addPair key value d) := by
  simp only [addPair]
  split
  · exact .malformed
  split
  · exact .malformed
  · exact .ok (List.suffix_refl t)

end Draft

theorem within_closeHeader (brackets t : Text) : Within id t (closeHeader brackets t) :=
  within_behind brackets t

theorem within_readStatement (d : Draft) (t : Text) : Within Prod.snd t (readStatement d t) := by
  unfold readStatement
  split
  · next body h =>
    refine Within.mono ?_ ((skipBlanks_suffix body).trans (Text.after?_suffix h))
    refine (within_readKey _ (skipBlanks body)).bind fun (key, rest) => ?_
    refine (d.within_openItem key rest).bind fun d => ?_
    exact (within_closeHeader "]]" rest).bind fun rest => .ok (List.suffix_refl rest)
  · next body _ h =>
    refine Within.mono ?_ ((skipBlanks_suffix body).trans (Text.after?_suffix h))
    refine (within_readKey _ (skipBlanks body)).bind fun (key, rest) => ?_
    refine (d.within_openTable key rest).bind fun d => ?_
    exact (within_closeHeader "]" rest).bind fun rest => .ok (List.suffix_refl rest)
  · refine (within_readKey _ t).bind fun (key, rest) => ?_
    dsimp only
    refine (within_behind "=" rest).bind fun rest => ?_
    refine Within.mono ?_ (skipBlanks_suffix rest)
    refine ((readsWithin _).value _ (skipBlanks rest)).bind fun (value, rest) => ?_
    exact (d.within_addPair key value rest).bind fun d => .ok (List.suffix_refl rest)

theorem within_readStatements (fuel : Nat) (d : Draft) (t : Text) :
    Within (fun _ => []) t (readStatements fuel d t) := by
  induction fuel generalizing d t with
  | zero => exact .malformed
  | succ fuel ih =>
    rw [readStatements]
    refine Within.mono ?_ (skipBlanks_suffix t)
    split
    · exact .ok List.nil_suffix
    next c rest h =>
    rw [h]
    split
    · exact (ih d rest).mono (List.suffix_cons c rest)
    extract_lets onward
    have goesOn (found : Draft × Text) : Within (fun _ => []) found.2 (onward found) := by
      refine ((within_skipComment (skipBlanks found.2)).mono (skipBlanks_suffix found.2)).bind
        fun behind => ?_
      split
      · exact .ok List.nil_suffix
      next e rest =>
      split
      · exact (ih found.1 rest).mono (List.suffix_cons e rest)
      · exact .malformed
    split
    · exact goesOn (d, c :: rest)
    · exact (within_readStatement d (c :: rest)).bind goesOn

theorem within_readText (t : Text) : Within (fun _ => []) t (readText t) := by
  have read := within_readStatements ((Text.replace "\r\n" "\n" t).length + 1) {}
    (Text.replace "\r\n" "\n" t)
  refine ⟨fun _ _ => List.nil_suffix, fun fault e => ?_⟩
  rcases read.fault fault e with malformed | tooDeep | ⟨tooLong, run, stands, only, long⟩
  · exact .inl malformed
  · exact .inr (.inl tooDeep)
  -- The line ends that were replaced are no part of the run.
  have apart : ∀ c ∈ run, c ∉ ("\n" : Text) := by
    intro c hc hm
    obtain rfl := List.mem_singleton.1 hm
    rcases only _ hc with digit | underscore
    · cases digit
    · cases underscore
  exact .inr (.inr ⟨tooLong, run, Text.infix_of_replace (by decide) apart stands, only, long⟩)

/-- A reader is stuck with exactly the bytes that encode no text. -/
theorem read_eq_undecodable_iff {bs : Bytes} :
    read bs = .error .undecodable ↔ ∀ t, Utf8.encode? t ≠ some bs := by
  simp only [read]
  cases h : Utf8.decode .strict bs with
  | none =>
    simp only [true_iff]
    intro t encoded
    rw [Utf8.decode_strict_eq_some_iff.2 encoded] at h
    cases h
  | some t =>
    have encoded := Utf8.decode_strict_eq_some_iff.1 h
    refine ⟨fun e => ?_, fun none => absurd encoded (none t)⟩
    rcases (within_readText t).fault _ e with malformed | tooDeep | ⟨tooLong, -⟩
    · cases malformed
    · cases tooDeep
    · cases tooLong

theorem hasLongInteger_of_read {bs : Bytes} (h : read bs = .error .integerTooLong) :
    ∃ t, Utf8.encode? t = some bs ∧ HasLongInteger t := by
  simp only [read] at h
  split at h
  · next t decoded =>
    rcases (within_readText t).fault _ h with malformed | tooDeep | ⟨-, long⟩
    · cases malformed
    · cases tooDeep
    · exact ⟨t, Utf8.decode_strict_eq_some_iff.1 decoded, long⟩
  · cases h

end PullAuth.Toml
