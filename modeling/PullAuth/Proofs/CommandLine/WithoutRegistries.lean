import PullAuth.Proofs.CommandLine.Course

/-!
What happens without a file of registries. An invocation stops at once (`Invocation.Stops`): it
writes the response, reads nothing, asks the cluster for nothing and touches no file but that of its
journal. A command line does the same if the server can be told (`RespondsAlone`), which is looked
for before the file of registries is. Where the server cannot be told (`Cluster.Tells`), because its
environment file is no text or cannot be looked at, the command line breaks down instead of
responding. `run_without_registries` says all of this, for every input, environment, answer of the
cluster and content of the other files.
-/
namespace PullAuth

/-! ## The server -/

namespace Cluster

/-- The server can be told from the directory of its environment file. -/
inductive Tells (tree : Tree) (dir : Text) : Prop
  | relative (h : (Path.ofText dir).isAbsolute = false)
  /-- There is no environment file. -/
  | absent (fault : PathFault) (hs : tree.stat (environmentPath dir).toText = .error fault)
    (ha : Tree.PathFault.isAbsence fault = true)
  | directory (mode : Nat) (hs : tree.stat (environmentPath dir).toText = .ok (.directory mode))
  /-- The environment file is a text in UTF-8. -/
  | file (mode : Nat) (content : Bytes) (t : Text)
    (hs : tree.stat (environmentPath dir).toText = .ok (.file mode content))
    (hd : Utf8.decode .strict content = some t)

/-- The search for the server breaks down if it cannot be told. -/
theorem origin_of_not_tells {tree : Tree} {dir : Text} (h : ¬Tells tree dir) :
    ∃ cause, origin tree dir = .error (.breakdown cause) := by
  have absolute : (Path.ofText dir).isAbsolute = true := by
    by_contra e
    exact h (.relative (Bool.eq_false_iff.2 e))
  simp only [origin, absolute, Tree.find?, Bool.not_true, Bool.false_eq_true, if_false]
  cases hs : tree.stat (environmentPath dir).toText with
  | error fault =>
    have present : ¬Tree.PathFault.isAbsence fault = true := fun ha => h (.absent fault hs ha)
    simp only [if_neg present]
    cases fault <;> exact ⟨_, rfl⟩
  | ok node =>
    cases node with
    | directory mode => exact absurd (.directory mode hs) h
    | file mode content =>
      cases hd : Utf8.decode .strict content with
      | some t => exact absurd (.file mode content t hs hd) h
      | none =>
        simp only [EnvFile.read?, hd]
        exact ⟨_, rfl⟩

theorem exists_origin_of_tells {tree : Tree} {dir : Text} (h : Tells tree dir) :
    ∃ found, origin tree dir = .ok found := by
  by_cases absolute : (Path.ofText dir).isAbsolute = true
  · simp only [origin, absolute, Tree.find?, Bool.not_true, Bool.false_eq_true, if_false]
    cases h with
    | relative relative =>
      rw [relative] at absolute
      cases absolute
    | absent fault hs ha => simp [hs, ha]
    | directory mode hs => simp [hs]
    | file mode content t hs hd => simp [hs, EnvFile.read?, hd]
  · simp [origin, absolute]

end Cluster

/-! ## The invocation -/

namespace Invocation

/-- The invocation comes to its end at once and leaves everything as it is, its journal apart. -/
structure Stops (i : Invocation) (desk : Desk) : Prop where
  outcome : (i.carryOut desk).outcome = .ok .noRegistries
  output : (i.carryOut desk).output = Response.line
  calls : (i.carryOut desk).calls = []
  unread : (i.carryOut desk).inputRead = false
  files : desk.Continues (i.carryOut desk).desk

theorem hasRegistries_of_notFound {i : Invocation} {tree : Tree}
    (h : tree.stat i.registriesPath.toText = .error (.system .notFound)) :
    i.hasRegistries tree = .ok false := by
  rw [hasRegistries, h]

theorem stops_of_notFound {i : Invocation} {desk : Desk}
    (h : desk.tree.stat i.registriesPath.toText = .error (.system .notFound)) : i.Stops desk := by
  have report : i.carryOut desk = ⟨.ok .noRegistries, desk.note [.info ("Registries conf path " ++
      i.registriesPath.toText ++ " does not exist, stopping")], [], false⟩ := by
    rw [carryOut, hasRegistries_of_notFound h]
  exact ⟨by rw [report], by rw [report]; rfl, by rw [report], by rw [report],
    by rw [report]; exact Desk.continues_note _ _⟩

end Invocation

/-! ## The command line -/

namespace CommandLine

variable {c : Command} {tree : Tree} {parameters : Parameters} {opened : Desk}

/-- The command line writes the response and does nothing else: whatever is on the input is left
there, and no file is touched but the one in the place of the journal. -/
structure RespondsAlone (c : Command) (tree : Tree) (place? : Option Location) : Prop where
  returns : Returns c tree .noRegistries
  exitCode : (c.run tree).exitCode = 0
  output : (c.run tree).output = Response.line
  breakdown : (c.run tree).breakdown = none
  calls : (c.run tree).calls = []
  unread : c.readsInput tree = false
  input : ∀ input, ({ c with input } : Command).run tree = c.run tree
  files : ∀ at_, place? ≠ some at_ → (c.run tree).tree.node? at_ = tree.node? at_

/-- The command line breaks down and writes nothing. -/
structure BreaksDown (c : Command) (tree : Tree) : Prop where
  exitCode : (c.run tree).exitCode = 1
  output : (c.run tree).output = []
  breakdown : (c.run tree).breakdown.isSome = true
  calls : (c.run tree).calls = []

/-- The place of the journal. -/
def journalPlace? (c : Command) (parameters : Parameters) (tree : Tree) : Option Location :=
  (journalFile? c parameters).bind fun f => f.place? tree

theorem respondsAlone_of_tells (ht : task c tree = .provide parameters)
    (ho : Desk.withFile? (journalFile? c parameters) tree = .ok opened)
    (hr : opened.tree.stat (invocation c parameters).registriesPath.toText =
      .error (.system .notFound))
    (hs : Cluster.Tells (begun c parameters opened).tree
      (invocation c parameters).settings.serverDir) :
    RespondsAlone c tree (journalPlace? c parameters tree) := by
  obtain ⟨found, hf⟩ := Cluster.exists_origin_of_tells hs
  cases started : starting c parameters opened with
  | mk result desk =>
    -- The journal is open, so what was noted up to now has not made a file of registries.
    have up := continues_starting c parameters opened
    rw [started] at up
    have absent : desk.tree.stat (invocation c parameters).registriesPath.toText =
        .error (.system .notFound) :=
      (up.shape (Desk.isOpen_of_withFile? ho)).stat_of_error hr
    obtain rfl : result = .ok (found.address c.environment) := by
      rw [starting_eq, Cluster.finding_eq, hf] at started
      exact (congrArg Prod.fst started).symm
    have prepared : Prepared c tree parameters (found.address c.environment) desk :=
      ⟨ht, opened, ho, started⟩
    have stops := Invocation.stops_of_notFound absent
    have returns : Returns c tree .noRegistries := ⟨_, _, _, prepared, stops.outcome⟩
    obtain ⟨code, output, breakdown⟩ := run_of_returns returns
    have unread : c.readsInput tree = false := by
      simp only [Command.readsInput, ht, ho, started, Invocation.hasRegistries_of_notFound absent]
      rfl
    refine ⟨returns, code, output, breakdown, ?_, unread, run_withInput unread, ?_⟩
    · rw [run_of_prepared prepared]
      exact stops.calls
    · intro at_ elsewhere
      rw [run_of_prepared prepared]
      have course := (Desk.continues_withFile? ho).trans (up.trans stops.files)
      exact (course.trans (Desk.continues_note _ _)).others at_ elsewhere

theorem breaksDown_of_not_tells (ht : task c tree = .provide parameters)
    (ho : Desk.withFile? (journalFile? c parameters) tree = .ok opened)
    (hs : ¬Cluster.Tells (begun c parameters opened).tree
      (invocation c parameters).settings.serverDir) :
    BreaksDown c tree := by
  obtain ⟨cause, hc⟩ := Cluster.origin_of_not_tells hs
  have started : starting c parameters opened =
      (.error (.breakdown cause), begun c parameters opened) := by
    rw [starting_eq, Cluster.finding_eq, hc]
  have ending : c.run tree = (failed (begun c parameters opened).tree (.breakdown cause)).leaving
      (journalLevel parameters) (begun c parameters opened) := by
    simp only [Command.run, ht, provide, ho, providing, started]
  constructor <;>
    rw [ending] <;> rfl

/-- Without a file of registries an invocation stops at once. A command line that comes to it, with
its journal open, responds and does nothing else, provided that the server can be told; if it
cannot, the command line breaks down. -/
theorem run_without_registries (i : Invocation) (desk : Desk)
    (hr : desk.tree.stat i.registriesPath.toText = .error (.system .notFound)) :
    i.Stops desk ∧ ∀ (c : Command) (tree : Tree) (parameters : Parameters),
      task c tree = .provide parameters → invocation c parameters = i →
      Desk.withFile? (journalFile? c parameters) tree = .ok desk →
      (Cluster.Tells (begun c parameters desk).tree i.settings.serverDir →
        RespondsAlone c tree (journalPlace? c parameters tree)) ∧
      (¬Cluster.Tells (begun c parameters desk).tree i.settings.serverDir →
        BreaksDown c tree) := by
  refine ⟨Invocation.stops_of_notFound hr, fun c tree parameters ht hi ho => ?_⟩
  subst hi
  exact ⟨respondsAlone_of_tells ht ho hr, breaksDown_of_not_tells ht ho⟩

/-- A command line that names a file of registries and the directory of the environment file. -/
def withoutRegistries : Command where
  arguments := ["--registries-conf", "/missing.conf", "--apiserver-env-dir", "/k"]
  environment := []
  input := "no request"
  answer := .refused
  host := ⟨"3.11.0", "m", "cpython", "linux", none, []⟩

/-- Files with nothing but an environment file. -/
def environmentTree (content : Bytes) : Tree where
  nodes := [([Bytes.ofAscii "k"], .directory 0o755),
    ([Bytes.ofAscii "k", Bytes.ofAscii "apiserver-url.env"], .file 0o644 content)]

/-- Whether that command line comes to looking for the server, without a file of registries and
with that environment file. -/
def comesToLooking (content : Bytes) : Bool :=
  match task withoutRegistries (environmentTree content) with
  | .provide parameters =>
    match Desk.withFile? (journalFile? withoutRegistries parameters) (environmentTree content) with
    | .ok opened =>
      let i := invocation withoutRegistries parameters
      opened.tree.stat i.registriesPath.toText = .error (.system .notFound) &&
        (begun withoutRegistries parameters opened).tree.stat
          (Cluster.environmentPath i.settings.serverDir).toText = .ok (.file 0o644 content)
    | .error _ => false
  | _ => false

theorem exists_of_comesToLooking {content : Bytes} (h : comesToLooking content = true) :
    ∃ parameters opened, task withoutRegistries (environmentTree content) = .provide parameters ∧
      Desk.withFile? (journalFile? withoutRegistries parameters) (environmentTree content) =
        .ok opened ∧
      opened.tree.stat (invocation withoutRegistries parameters).registriesPath.toText =
        .error (.system .notFound) ∧
      (begun withoutRegistries parameters opened).tree.stat (Cluster.environmentPath
        (invocation withoutRegistries parameters).settings.serverDir).toText =
          .ok (.file 0o644 content) := by
  unfold comesToLooking at h
  split at h
  · next parameters ht =>
    split at h
    · next opened ho =>
      rw [Bool.and_eq_true, decide_eq_true_eq, decide_eq_true_eq] at h
      exact ⟨parameters, opened, ht, ho, h⟩
    · cases h
  · cases h

def addressLine : Bytes := Bytes.ofAscii "KUBERNETES_SERVICE_HOST=10.0.0.1\n"

/-- The command line responds although its input is no request; so does its invocation alone. -/
theorem run_without_registries_responds :
    ∃ parameters opened, (invocation withoutRegistries parameters).Stops opened ∧
      RespondsAlone withoutRegistries (environmentTree addressLine)
        (journalPlace? withoutRegistries parameters (environmentTree addressLine)) := by
  have looking : comesToLooking addressLine = true := by decide +kernel
  obtain ⟨parameters, opened, ht, ho, hr, hs⟩ := exists_of_comesToLooking looking
  obtain ⟨stops, responds⟩ := run_without_registries _ _ hr
  exact ⟨parameters, opened, stops, (responds _ _ _ ht rfl ho).1 (.file _ _ _ hs rfl)⟩

/-- The command line breaks down if its environment file is no text. -/
theorem run_of_undecodable :
    ∃ parameters opened, task withoutRegistries (environmentTree [0xFF]) = .provide parameters ∧
      Desk.withFile? (journalFile? withoutRegistries parameters) (environmentTree [0xFF]) =
        .ok opened ∧
      opened.tree.stat (invocation withoutRegistries parameters).registriesPath.toText =
        .error (.system .notFound) ∧
      (withoutRegistries.run (environmentTree [0xFF])).exitCode = 1 ∧
      (withoutRegistries.run (environmentTree [0xFF])).output = [] ∧
      (withoutRegistries.run (environmentTree [0xFF])).breakdown = some .undecodable := by
  have looking : comesToLooking [0xFF] = true := by decide +kernel
  obtain ⟨parameters, opened, ht, ho, hr, -⟩ := exists_of_comesToLooking looking
  exact ⟨parameters, opened, ht, ho, hr, by decide +kernel⟩

end CommandLine

end PullAuth
