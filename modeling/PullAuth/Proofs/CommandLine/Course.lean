import PullAuth.CommandLine.Run
import PullAuth.Proofs.Desk

/-!
The course of a command line that asks for an invocation. Its journal is opened, the server is
found, and the invocation is carried out. Where it does not come to that, nothing is written and the
exit code is one (`run_of_unprepared`); where it does, the ending is that of the invocation
(`run_of_prepared`), so that the response is written exactly if the invocation comes to an outcome
(`run_of_returns`, `run_of_not_returns`). A command line that does not read its input ends in the
same way on every input (`run_withInput`).
-/
namespace PullAuth

theorem Cluster.finding_eq (environment : Keyed Text) (dir : Text) (desk : Desk) :
    finding environment dir desk = match origin desk.tree dir with
      | .ok found => (.ok (found.address environment),
          desk.note (found.warnings ++ [found.entry environment]))
      | .error failure => (.error failure, desk) := by
  unfold finding
  rw [Runs.bind_eq, Work.look]
  cases origin desk.tree dir <;> rfl

/-- Without a file of registries the input makes no difference. -/
theorem Invocation.carryOut_withInput {i : Invocation} {desk : Desk}
    (h : i.hasRegistries desk.tree ≠ .ok true) (input : Text) :
    ({ i with input } : Invocation).carryOut desk = i.carryOut desk := by
  have same : ({ i with input } : Invocation).hasRegistries desk.tree =
    i.hasRegistries desk.tree := rfl
  rw [Invocation.carryOut, Invocation.carryOut, same]
  cases hr : i.hasRegistries desk.tree with
  | error failure => rfl
  | ok found =>
    cases found with
    | false => rfl
    | true => exact absurd hr h

namespace CommandLine

variable {c : Command} {tree : Tree} {parameters : Parameters}

/-! ## Up to the invocation -/

/-- The desk at which the server is looked for. -/
def begun (c : Command) (parameters : Parameters) (desk : Desk) : Desk :=
  desk.note ((invocation c parameters).settings.journal ++ [.info "Running credential provider"])

theorem starting_eq (c : Command) (parameters : Parameters) (desk : Desk) :
    starting c parameters desk =
      Cluster.finding c.environment (invocation c parameters).settings.serverDir
        (begun c parameters desk) := by
  unfold starting
  exact Runs.bind_eq_of_ok rfl

/-- All that happens to the files up to the invocation is that the journal goes on. -/
theorem continues_starting (c : Command) (parameters : Parameters) (desk : Desk) :
    desk.Continues (starting c parameters desk).2 := by
  have first : desk.Continues (begun c parameters desk) := Desk.continues_note _ _
  rw [starting_eq, Cluster.finding_eq]
  cases Cluster.origin (begun c parameters desk).tree
      (invocation c parameters).settings.serverDir with
  | error failure => exact first
  | ok found => exact first.trans (Desk.continues_note _ _)

/-- The command line comes to an invocation with the parameters: its journal is opened and the
server is found at the address. -/
structure Prepared (c : Command) (tree : Tree) (parameters : Parameters) (address : Text)
    (desk : Desk) : Prop where
  task : task c tree = .provide parameters
  found : ∃ opened, Desk.withFile? (journalFile? c parameters) tree = .ok opened ∧
    starting c parameters opened = (.ok address, desk)

/-- The command line comes to an invocation, and that comes to the outcome. -/
def Returns (c : Command) (tree : Tree) (outcome : Outcome) : Prop :=
  ∃ parameters address desk, Prepared c tree parameters address desk ∧
    ((invocation c parameters).carryOut desk).outcome = .ok outcome

/-! ## How it ends -/

theorem endingOf_of_ok {report : Report} {outcome : Outcome} (h : report.outcome = .ok outcome)
    (address : Text) : (endingOf address report).exitCode = 0 ∧
      (endingOf address report).output = Response.line ∧
      (endingOf address report).breakdown = none := by
  simp only [endingOf, Report.output, h, exitCode, breakdown?, and_self]

theorem endingOf_of_error {report : Report} {failure : Failure}
    (h : report.outcome = .error failure) (address : Text) :
    (endingOf address report).exitCode = 1 ∧ (endingOf address report).output = [] := by
  simp only [endingOf, Report.output, h, exitCode, and_self]

theorem run_of_prepared {address : Text} {desk : Desk}
    (h : Prepared c tree parameters address desk) :
    c.run tree = (endingOf address ((invocation c parameters).carryOut desk)).leaving
      (journalLevel parameters) (((invocation c parameters).carryOut desk).desk.note
        (closing? ((invocation c parameters).carryOut desk).outcome).toList) := by
  obtain ⟨opened, ho, hs⟩ := h.found
  simp only [Command.run, h.task, provide, ho, providing, hs]

theorem run_of_unprepared (ht : task c tree = .provide parameters)
    (h : ∀ address desk, ¬Prepared c tree parameters address desk) :
    (c.run tree).exitCode = 1 ∧ (c.run tree).output = [] := by
  simp only [Command.run, ht, provide]
  cases ho : Desk.withFile? (journalFile? c parameters) tree with
  | error fault => exact ⟨rfl, rfl⟩
  | ok opened =>
    cases hs : starting c parameters opened with
    | mk result desk =>
      cases result with
      | error failure =>
        simp only [providing, hs]
        exact ⟨rfl, rfl⟩
      | ok address => exact absurd ⟨ht, opened, ho, hs⟩ (h address desk)

theorem run_of_returns {outcome : Outcome} (h : Returns c tree outcome) :
    (c.run tree).exitCode = 0 ∧ (c.run tree).output = Response.line ∧
      (c.run tree).breakdown = none := by
  obtain ⟨parameters, address, desk, prepared, ended⟩ := h
  rw [run_of_prepared prepared]
  exact endingOf_of_ok ended address

theorem run_of_not_returns (ht : task c tree = .provide parameters)
    (h : ∀ outcome, ¬Returns c tree outcome) :
    (c.run tree).exitCode = 1 ∧ (c.run tree).output = [] := by
  by_cases hp : ∃ address desk, Prepared c tree parameters address desk
  · obtain ⟨address, desk, prepared⟩ := hp
    rw [run_of_prepared prepared]
    cases ended : ((invocation c parameters).carryOut desk).outcome with
    | ok outcome => exact absurd ⟨parameters, address, desk, prepared, ended⟩ (h outcome)
    | error failure => exact endingOf_of_error ended address
  · push Not at hp
    exact run_of_unprepared ht hp

/-! ## The input -/

theorem providing_withInput {opened : Desk}
    (h : ∀ address desk, starting c parameters opened = (.ok address, desk) →
      (invocation c parameters).hasRegistries desk.tree ≠ .ok true) (input : Text) :
    providing { c with input } parameters opened = providing c parameters opened := by
  have same : starting { c with input } parameters opened = starting c parameters opened := rfl
  simp only [providing, same]
  cases hs : starting c parameters opened with
  | mk result desk =>
    cases result with
    | error failure => rfl
    | ok address =>
      have carried : (invocation { c with input } parameters).carryOut desk =
        (invocation c parameters).carryOut desk :=
        Invocation.carryOut_withInput (h address desk hs) input
      simp only [carried]

/-- A command line that does not read its input ends in the same way on every input. -/
theorem run_withInput (h : c.readsInput tree = false) (input : Text) :
    ({ c with input } : Command).run tree = c.run tree := by
  have sameTask : task { c with input } tree = task c tree := rfl
  have sameFile (parameters : Parameters) :
    journalFile? { c with input } parameters = journalFile? c parameters := rfl
  rw [Command.run, Command.run, sameTask]
  cases ht : task c tree with
  | provide parameters =>
    simp only [provide, sameFile]
    cases ho : Desk.withFile? (journalFile? c parameters) tree with
    | error fault => rfl
    | ok opened =>
      refine providing_withInput (fun address desk hs e => ?_) input
      simp only [Command.readsInput, ht, ho, hs, e] at h
      cases h
  | _ => rfl

end CommandLine

end PullAuth
