import PullAuth.Proofs.CommandLine.Flags
import PullAuth.Proofs.CommandLine.WithoutRegistries
import PullAuth.Proofs.Json.RoundTrip

/-!
One response or none. A command line that no one needs help with (`Unassisted`) writes the response
exactly if its invocation comes to an outcome, and the description of the release exactly if that is
asked for; in every other case, whatever it fails of, it writes nothing and its exit code says so
(`run_one_response`). Where help is asked for in the environment, or a shell asks for completions,
these are written instead (`run_assisted`).
-/
namespace PullAuth.CommandLine

variable {c : Command} {tree : Tree}

/-- A line that is a document which grants nothing: its member `auth` is null. -/
def IsResponse (t : Text) : Prop :=
  ∃ body document, t = body ++ ("\n" : Text) ∧ ('\n' : CodePoint) ∉ body ∧
    Json.read? body = some document ∧ document.member? "auth" = some .null

theorem legible_document : Json.Legible Response.document := by
  have text {t : Text} (joined : t.IsJoined) : Json.Legible (.string t) := .string joined
  refine .object (by decide) (by decide) (List.forall_mem_cons.2 ⟨text (by decide), ?_⟩)
  refine List.forall_mem_cons.2 ⟨text (by decide), List.forall_mem_cons.2 ⟨text (by decide), ?_⟩⟩
  exact List.forall_mem_singleton.2 .null

theorem isResponse_line : IsResponse Response.line :=
  ⟨Response.document.write .oneLine, Response.document, rfl, by decide +kernel,
    Json.read?_write (show Json.Layout.oneLine.IsBlank from trivial) legible_document, rfl⟩

/-- Nothing asks for help: no option, no variable of the environment and no shell. -/
structure Unassisted (c : Command) : Prop where
  option : ("--help" : Text) ∉ c.arguments
  environment : ∀ t, environmentValue? c.environment .help = some t → readFlag? t ≠ some true
  shell : instruction? c = none

/-- The options are valid and ask for a description of the release, as a document if that flag is
set. -/
def Describes (c : Command) (tree : Tree) (asDocument : Bool) : Prop :=
  ∃ arguments parameters, Arguments.read? c.arguments = some arguments ∧
    parametersOf tree arguments c.environment = .ok parameters ∧
    (asDocument = true ∧ Flagged arguments c.environment .versionDocument ∨
      asDocument = false ∧ ¬Flagged arguments c.environment .versionDocument ∧
        Flagged arguments c.environment .version)

/-! ## The task -/

theorem Unassisted.not_flagged (h : Unassisted c) {arguments : Arguments}
    (hr : Arguments.read? c.arguments = some arguments) :
    ¬Flagged arguments c.environment .help := by
  rintro (given | ⟨t, ht, set⟩)
  · rw [value?_help hr h.option] at given
    cases given
  · exact h.environment t ht set

theorem Unassisted.task_eq (h : Unassisted c) : task c tree = taskOfArguments c tree := by
  rw [task, h.shell]

theorem describes_iff {arguments : Arguments} {parameters : Parameters}
    (hr : Arguments.read? c.arguments = some arguments)
    (hp : parametersOf tree arguments c.environment = .ok parameters) {asDocument : Bool} :
    Describes c tree asDocument ↔
      asDocument = true ∧ Flagged arguments c.environment .versionDocument ∨
        asDocument = false ∧ ¬Flagged arguments c.environment .versionDocument ∧
          Flagged arguments c.environment .version := by
  constructor
  · rintro ⟨arguments', parameters', hr', -, asked⟩
    obtain rfl : arguments = arguments' := Option.some.inj (hr.symm.trans hr')
    exact asked
  · exact fun asked => ⟨arguments, parameters, hr, hp, asked⟩

/-- Valid options ask for the description of the release or for an invocation. -/
theorem Unassisted.task_cases (h : Unassisted c) (tree : Tree) :
    (∃ refusal, task c tree = .refuse refusal ∧ ∀ asDocument, ¬Describes c tree asDocument) ∨
      (∃ asDocument, task c tree = .describe asDocument ∧
        ∀ other, Describes c tree other ↔ other = asDocument) ∨
      ∃ parameters, task c tree = .provide parameters ∧
        ∀ asDocument, ¬Describes c tree asDocument := by
  rw [h.task_eq]
  unfold taskOfArguments
  cases hr : Arguments.read? c.arguments with
  | none =>
    refine .inl ⟨.misuse, rfl, fun asDocument ⟨arguments, _, valid, _⟩ => ?_⟩
    rw [hr] at valid
    cases valid
  | some arguments =>
    cases hp : parametersOf tree arguments c.environment with
    | error refusal =>
      refine .inl ⟨refusal, by simp only [hp], fun asDocument ⟨arguments', _, hr', valid, _⟩ => ?_⟩
      obtain rfl : arguments = arguments' := Option.some.inj (hr.symm.trans hr')
      rw [hp] at valid
      cases valid
    | ok parameters =>
      obtain ⟨document, otherwise⟩ := taskOf_eq hp (h.not_flagged hr)
      simp only [hp, describes_iff hr hp]
      by_cases hd : Flagged arguments c.environment .versionDocument
      · exact .inr (.inl ⟨true, document hd, by simp [hd]⟩)
      · by_cases hv : Flagged arguments c.environment .version
        · exact .inr (.inl ⟨false, (otherwise hd).1 hv, by simp [hd, hv]⟩)
        · exact .inr (.inr ⟨parameters, (otherwise hd).2 hv, by simp [hd, hv]⟩)

/-! ## What is written -/

theorem not_returns {outcome : Outcome} (h : ∀ parameters, task c tree ≠ .provide parameters) :
    ¬Returns c tree outcome :=
  fun ⟨parameters, _, _, prepared, _⟩ => h parameters prepared.task

/-- What a command line writes and its exit code, by what comes of it. -/
structure OneResponse (c : Command) (tree : Tree) : Prop where
  /-- The response and nothing else is written if the invocation comes to an outcome. -/
  returned : ∀ outcome, Returns c tree outcome →
    (c.run tree).exitCode = 0 ∧ (c.run tree).output = Response.line
  /-- The release is described without a look at the input, and no file is touched. -/
  described : ∀ asDocument, Describes c tree asDocument →
    (c.run tree).exitCode = 0 ∧ (c.run tree).output = description c.host asDocument ∧
      (c.run tree).tree = tree ∧ (c.run tree).calls = [] ∧ c.readsInput tree = false ∧
      ∀ input, ({ c with input } : Command).run tree = c.run tree
  /-- Nothing is written in any other case, and the exit code is not zero. -/
  otherwise : (∀ outcome, ¬Returns c tree outcome) →
    (∀ asDocument, ¬Describes c tree asDocument) →
    (c.run tree).exitCode ≠ 0 ∧ (c.run tree).output = []

theorem run_of_refuse {refusal : Refusal} (ht : task c tree = .refuse refusal) :
    (c.run tree).exitCode ≠ 0 ∧ (c.run tree).output = [] := by
  simp only [Command.run, ht]
  cases refusal with
  | misuse => exact ⟨Nat.succ_ne_zero 1, rfl⟩
  | breakdown cause => exact ⟨Nat.succ_ne_zero 0, rfl⟩

theorem run_of_describe {asDocument : Bool} (ht : task c tree = .describe asDocument) :
    c.run tree = { exitCode := 0, output := description c.host asDocument, tree } ∧
      c.readsInput tree = false := by
  simp only [Command.run, Command.readsInput, ht, and_self]

/-- A command line that no one needs help with writes one response, one description or nothing. -/
theorem run_one_response (tree : Tree) (h : Unassisted c) :
    OneResponse c tree ∧ IsResponse Response.line := by
  refine ⟨?_, isResponse_line⟩
  obtain ⟨refusal, ht, none⟩ | ⟨asDocument, ht, only⟩ | ⟨parameters, ht, none⟩ := h.task_cases tree
  · refine ⟨fun outcome returned => ?_, fun asDocument asked => absurd asked (none asDocument),
      fun _ _ => run_of_refuse ht⟩
    exact absurd returned (not_returns (by simp [ht]))
  · obtain ⟨ending, unread⟩ := run_of_describe ht
    refine ⟨fun outcome returned => ?_, fun other asked => ?_, fun _ undescribed => ?_⟩
    · exact absurd returned (not_returns (by simp [ht]))
    · obtain rfl := (only other).1 asked
      refine ⟨?_, ?_, ?_, ?_, unread, run_withInput unread⟩ <;> rw [ending]
    · exact absurd ((only asDocument).2 rfl) (undescribed asDocument)
  · refine ⟨fun outcome returned => ?_, fun asDocument asked => absurd asked (none asDocument),
      fun silent _ => ?_⟩
    · obtain ⟨code, output, -⟩ := run_of_returns returned
      exact ⟨code, output⟩
    · obtain ⟨code, output⟩ := run_of_not_returns ht silent
      exact ⟨by simp [code], output⟩

/-- A command line without a file of registries, on no files at all, writes the response. -/
theorem run_one_response_alone :
    Unassisted withoutRegistries ∧ OneResponse withoutRegistries {} ∧
      (withoutRegistries.run {}).output = Response.line ∧ IsResponse Response.line := by
  have unassisted : Unassisted withoutRegistries := ⟨by decide, nofun, rfl⟩
  obtain ⟨one, response⟩ := run_one_response {} unassisted
  exact ⟨unassisted, one, by decide +kernel, response⟩

/-! ## Help -/

/-- A command line without arguments. A shell that asks for completions is told an empty line. -/
def bare (environment : Keyed Text) : Command where
  arguments := []
  environment := environment
  input := []
  answer := .refused
  host := ⟨"3.11.0", "m", "cpython", "linux", none, []⟩
  completion _ := some "\n"

/-- The variable of the option for help holds a word for yes. -/
def helpVariables : Keyed Text := [(Parameter.help.environmentVariable, "1")]

/-- A shell asks for the completions of a command line without arguments. -/
def shellVariables : Keyed Text :=
  [(completionVariable programName, "bash_complete"), ("COMP_WORDS", programName ++ " "),
    ("COMP_CWORD", "1")]

/-- Whatever else it does, a command line without arguments describes the release only if a variable
of the environment asks for it. -/
theorem not_describes_bare {environment : Keyed Text}
    (hd : environmentValue? environment .versionDocument = none)
    (hv : environmentValue? environment .version = none) (asDocument : Bool) :
    ¬Describes (bare environment) tree asDocument := by
  have unset {p : Parameter} (h : environmentValue? environment p = none) :
      ¬Flagged {} environment p := by
    rintro (given | ⟨t, ht, -⟩)
    · cases given
    · rw [h] at ht
      cases ht
  rintro ⟨arguments, parameters, hr, -, asked⟩
  cases hr
  obtain ⟨-, set⟩ | ⟨-, -, set⟩ := asked
  · exact unset hd set
  · exact unset hv set

/-- Without an option for help a command line writes something else, and its exit code is zero, if
its environment asks for help or for completions. -/
theorem run_assisted :
    (("--help" : Text) ∉ (bare helpVariables).arguments ∧ ¬OneResponse (bare helpVariables) {} ∧
      ((bare helpVariables).run {}).exitCode = 0 ∧
      ((bare helpVariables).run {}).output = usage programName) ∧
    ("--help" : Text) ∉ (bare shellVariables).arguments ∧ ¬OneResponse (bare shellVariables) {} ∧
      ((bare shellVariables).run {}).exitCode = 0 ∧
      ((bare shellVariables).run {}).output = "\n" := by
  have help : task (bare helpVariables) {} = .help := rfl
  have shell : task (bare shellVariables) {} = .complete "bash_complete" := rfl
  have zero : ((bare helpVariables).run {}).exitCode = 0 ∧
      ((bare shellVariables).run {}).exitCode = 0 := by decide +kernel
  refine ⟨⟨by decide, fun one => ?_, zero.1, ?_⟩, by decide, fun one => ?_, zero.2, ?_⟩
  · refine (one.otherwise (fun outcome => not_returns (by simp [help])) ?_).1 zero.1
    exact not_describes_bare rfl rfl
  · rw [Command.run, help]
    rfl
  · refine (one.otherwise (fun outcome => not_returns (by simp [shell])) ?_).1 zero.2
    exact not_describes_bare rfl rfl
  · rw [Command.run, shell]
    rfl

end PullAuth.CommandLine
