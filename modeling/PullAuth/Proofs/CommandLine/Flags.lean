import Mathlib.Data.List.Nodup
import PullAuth.CommandLine.Run
import PullAuth.Proofs.Keyed
import PullAuth.Proofs.Runs

/-!
What a command line asks for. A flag is set by its option or by a word for yes in its variable of
the environment (`Flagged`), and the values that are read say so (`isSet_parametersOf`); the task
follows from the flags alone (`taskOf_eq`). Nothing but the option itself gives the flag that asks
for help on a command line (`value?_help`).
-/
namespace PullAuth.CommandLine

/-- A flag is set: by its option or, without one, by its variable of the environment. -/
def Flagged (arguments : Arguments) (environment : Keyed Text) (p : Parameter) : Prop :=
  (arguments.value? p).isSome = true ∨
    ∃ t, environmentValue? environment p = some t ∧ readFlag? t = some true

variable {tree : Tree} {arguments : Arguments} {environment : Keyed Text}
  {parameters : Parameters} {p : Parameter}

/-! ## Values -/

theorem Parameter.mem_all (p : Parameter) : p ∈ all := by
  cases p with
  | setting s => cases s <;> decide
  | _ => decide

theorem Parameter.eq_of_name {p q : Parameter} (h : p.name = q.name) : p = q := by
  have distinct : (all.map name).Nodup := by decide
  exact List.inj_on_of_nodup_map distinct p.mem_all q.mem_all h

theorem Parameter.standard?_of_flag (hf : p.sort = .flag) : p.standard? = some (.bool false) := by
  cases p with
  | setting s => cases s <;> cases hf
  | logLevel => cases hf
  | logFile => cases hf
  | _ => rfl

/-- The value of a flag says whether it is set. -/
theorem isPresent_of_valueOf (hf : p.sort = .flag) {value : Option Json}
    (h : valueOf tree arguments environment p = .ok value) :
    (value.map Json.isPresent).getD false = true ↔ Flagged arguments environment p := by
  have flag : ¬p.takesValue = true := by simp [Parameter.takesValue, hf]
  unfold valueOf given? at h
  unfold Flagged
  cases hv : arguments.value? p with
  | some t =>
    simp only [hv, if_neg flag, hf] at h
    cases h
    exact ⟨fun _ => .inl rfl, fun _ => rfl⟩
  | none =>
    cases he : environmentValue? environment p with
    | some t =>
      simp only [hv, he, hf, readValue] at h
      cases hr : readFlag? t with
      | none =>
        rw [hr] at h
        cases h
      | some set =>
        rw [hr] at h
        cases h
        simp [Json.isPresent, hr]
    | none =>
      simp only [hv, he, Parameter.standard?_of_flag hf, Option.bind_some, Json.text?] at h
      cases h
      simp [Json.isPresent]

/-- Among the values is that of every parameter in the list, and no other. -/
theorem get?_valuesOf {list : List Parameter} {values : Parameters}
    (h : valuesOf tree arguments environment list = .ok values) (p : Parameter) :
    (p ∉ list → Keyed.get? p.name values = none) ∧
      (p ∈ list → valueOf tree arguments environment p = .ok (Keyed.get? p.name values)) := by
  induction list generalizing values with
  | nil =>
    cases h
    exact ⟨fun _ => rfl, nofun⟩
  | cons q rest ih =>
    obtain ⟨value, hq, h⟩ := Results.bind_eq_ok_iff.1 h
    obtain ⟨others, ho, h⟩ := Results.bind_eq_ok_iff.1 h
    cases h
    obtain ⟨absent, present⟩ := ih ho
    by_cases e : p = q
    · subst e
      refine ⟨fun hn => absurd List.mem_cons_self hn, fun _ => ?_⟩
      cases value with
      | some found =>
        rw [hq]
        simp [Keyed.get?]
      | none =>
        -- The rest may name the parameter again, but it has no value there either.
        by_cases again : p ∈ rest
        · exact present again
        · rw [hq]
          exact congrArg _ (absent again).symm
    · have apart : q.name ≠ p.name := fun same => e (Parameter.eq_of_name same).symm
      have skipped : Keyed.get? p.name ((value.map ((q.name, ·))).toList ++ others) =
          Keyed.get? p.name others := by
        cases value with
        | none => rfl
        | some found => simp [Keyed.get?, apart]
      rw [skipped]
      exact ⟨fun hn => absent fun hm => hn (List.mem_cons_of_mem q hm),
        fun hm => present (List.mem_of_ne_of_mem e hm)⟩

theorem isSet_of_valuesOf {list : List Parameter}
    (h : valuesOf tree arguments environment list = .ok parameters) (hp : p ∈ list)
    (hf : p.sort = .flag) : isSet parameters p = true ↔ Flagged arguments environment p :=
  isPresent_of_valueOf hf ((get?_valuesOf h p).2 hp)

theorem mem_order (arguments : Arguments) (p : Parameter) : p ∈ arguments.order := by
  unfold Arguments.order
  by_cases given : p ∈ (arguments.options.map (·.1)).eraseDups
  · exact List.mem_append_left _ given
  · exact List.mem_append_right _
      (List.mem_filter.2 ⟨p.mem_all, by simpa [List.contains_iff_mem] using given⟩)

/-- The values of the parameters say which flags are set, unless help is asked for, which they say
alone then. -/
theorem isSet_parametersOf (h : parametersOf tree arguments environment = .ok parameters)
    (hf : p.sort = .flag) (hp : p = .help ∨ ¬Flagged arguments environment .help) :
    isSet parameters p = true ↔ Flagged arguments environment p := by
  obtain ⟨first, hh, h⟩ := Results.bind_eq_ok_iff.1 h
  have help := isSet_of_valuesOf hh List.mem_cons_self rfl
  by_cases asked : isSet first .help = true
  · rw [if_pos asked] at h
    cases h
    rcases hp with rfl | never
    · exact help
    · exact absurd (help.1 asked) never
  · rw [if_neg asked] at h
    obtain ⟨values, hv, h⟩ := Results.bind_eq_ok_iff.1 h
    split at h
    · cases h
      by_cases e : p = .help
      · subst e
        have left : Keyed.get? Parameter.help.name parameters = none :=
          (get?_valuesOf hv .help).1 (by simp)
        rw [← help, isSet, left]
        exact ⟨nofun, fun set => absurd set asked⟩
      · exact isSet_of_valuesOf hv (List.mem_filter.2 ⟨mem_order arguments p, by simp [e]⟩) hf
    · cases h

/-! ## The task -/

/-- What is asked for follows from the flags: of a description as a document and one as lines the
first counts. -/
theorem taskOf_eq (h : parametersOf tree arguments environment = .ok parameters)
    (hn : ¬Flagged arguments environment .help) :
    (Flagged arguments environment .versionDocument → taskOf parameters = .describe true) ∧
      (¬Flagged arguments environment .versionDocument →
        (Flagged arguments environment .version → taskOf parameters = .describe false) ∧
          (¬Flagged arguments environment .version → taskOf parameters = .provide parameters)) := by
  have help := isSet_parametersOf h (p := .help) rfl (.inl rfl)
  have document := isSet_parametersOf h (p := .versionDocument) rfl (.inr hn)
  have version := isSet_parametersOf h (p := .version) rfl (.inr hn)
  simp only [taskOf, if_neg (mt help.1 hn)]
  refine ⟨fun hd => if_pos (document.2 hd), fun hd => ?_⟩
  simp only [if_neg (mt document.1 hd)]
  exact ⟨fun hv => if_pos (version.2 hv), fun hv => if_neg (mt version.1 hv)⟩

/-! ## The option for help -/

theorem eq_of_ofOption? {option : Text} (h : Parameter.ofOption? option = some p) :
    p.option = option := by
  simpa using List.find?_some h

theorem shortWord_ne_help (argument : Text) (value : Option Text) :
    shortWord argument ≠ .option .help value := by
  unfold shortWord
  split <;> exact nofun

/-- The option for help is spelled out. -/
theorem eq_of_word {argument : Text} (h : word argument = .option .help none) :
    argument = Parameter.help.option := by
  unfold word at h
  split at h
  · cases h
  · split at h
    · cases h
    · cases hc : Text.cut? ('=' : CodePoint) argument with
      | some cut =>
        simp only [hc] at h
        split at h
        · cases h
        · split at h
          · cases h
          · exact absurd h (shortWord_ne_help argument none)
      | none =>
        simp only [hc] at h
        split at h
        · next ho =>
          cases h
          exact (eq_of_ofOption? ho).symm
        · split at h
          · cases h
          · exact absurd h (shortWord_ne_help argument none)

/-- Help is an option of a command line only if the command line holds it. -/
theorem mem_of_help_mem {list : List Text} (h : Arguments.read? list = some arguments)
    (hm : Parameter.help ∈ arguments.options.map (·.1)) : Parameter.help.option ∈ list := by
  -- One case for every kind of word; only a flag without a value can be help itself.
  induction list using Arguments.read?.induct generalizing arguments with
  | case1 =>
    cases h
    cases hm
  | case2 argument rest hw =>
    simp only [Arguments.read?, hw, Option.some.injEq] at h
    cases h
    cases hm
  | case3 argument rest hw => simp only [Arguments.read?, hw, reduceCtorEq] at h
  | case4 argument rest hw ih =>
    simp only [Arguments.read?, hw, Option.map_eq_some_iff] at h
    obtain ⟨others, ho, rfl⟩ := h
    exact List.mem_cons_of_mem _ (ih ho hm)
  | case5 argument p takes value rest hw ih =>
    simp only [Arguments.read?, hw, if_pos takes, Option.map_eq_some_iff] at h
    obtain ⟨others, ho, rfl⟩ := h
    rcases List.mem_cons.1 hm with e | later
    · subst e
      cases takes
    · exact List.mem_cons_of_mem _ (ih ho later)
  | case6 argument p takes value rest hw ih =>
    simp only [Arguments.read?, hw, if_pos takes, Option.map_eq_some_iff] at h
    obtain ⟨others, ho, rfl⟩ := h
    rcases List.mem_cons.1 hm with e | later
    · subst e
      cases takes
    · exact List.mem_cons_of_mem _ (List.mem_cons_of_mem _ (ih ho later))
  | case7 argument p takes hw => simp only [Arguments.read?, hw, if_pos takes, reduceCtorEq] at h
  | case8 argument rest p value hw flag given =>
    simp only [Arguments.read?, hw, if_neg flag, if_pos given, reduceCtorEq] at h
  | case9 argument rest p value hw flag alone ih =>
    simp only [Arguments.read?, hw, if_neg flag, if_neg alone, Option.map_eq_some_iff] at h
    obtain ⟨others, ho, rfl⟩ := h
    rcases List.mem_cons.1 hm with e | later
    · subst e
      rw [Option.not_isSome_iff_eq_none.1 alone] at hw
      rw [eq_of_word hw]
      exact List.mem_cons_self
    · exact List.mem_cons_of_mem _ (ih ho later)

/-- A command line that does not hold the option for help does not give that flag. -/
theorem value?_help {list : List Text} (h : Arguments.read? list = some arguments)
    (hn : Parameter.help.option ∉ list) : arguments.value? .help = none := by
  rw [Arguments.value?, Option.map_eq_none_iff, List.find?_eq_none]
  intro given hg e
  refine hn (mem_of_help_mem h (List.mem_map.2 ⟨given, List.mem_reverse.1 hg, ?_⟩))
  simpa using e

end PullAuth.CommandLine
