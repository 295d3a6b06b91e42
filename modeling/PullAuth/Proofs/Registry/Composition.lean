import PullAuth.Proofs.Registry.Definitions
import PullAuth.Proofs.Registry.DropIns
import PullAuth.Proofs.Toml.Digits

/-!
A configuration of several files. It loads as one file does that holds all their tables one after
another, and if a file is not accepted, the first such file says how loading fails
(`load_composition`). The order in which the drop-in files are listed does not matter, nor do other
files. One way to fail is none that a caller is told of: a document that is malformed behind an
integer with too many digits ends in a breakdown (`load_of_long_integer`).
-/
namespace PullAuth.Registry

/-- All files are accepted, or there is a first one that is not. -/
theorem all_accepted_or_first (tree : Tree) (paths : List Path) :
    (∀ p ∈ paths, Accepted tree p) ∨ ∃ before path after, paths = before ++ path :: after ∧
      (∀ p ∈ before, Accepted tree p) ∧
      ((∃ fault, Refused tree path fault) ∨ ∃ cause, Breaks tree path cause) := by
  induction paths with
  | nil => exact .inl nofun
  | cons p paths ih =>
    rcases accepted_or_refused_or_breaks tree p with here | failed
    · rcases ih with all | ⟨before, path, after, rfl, good, bad⟩
      · exact .inl (List.forall_mem_cons.2 ⟨here, all⟩)
      · exact .inr ⟨p :: before, path, after, rfl, List.forall_mem_cons.2 ⟨here, good⟩, bad⟩
    · exact .inr ⟨[], p, paths, rfl, nofun, failed⟩

theorem exists_held_of_accepted {tree : Tree} {paths : List Path}
    (h : ∀ p ∈ paths, Accepted tree p) :
    ∃ held defined, List.Forall₂ (Holds tree) paths held ∧
      List.Forall₂ Defines held.flatten defined := by
  obtain ⟨lists, found⟩ := Results.exists_forall₂_iff.2 fun p hp => accepted_iff.1 (h p hp)
  obtain ⟨held, holds, defines⟩ := mapM_contribution_eq_ok_iff.1 (Results.mapM_eq_ok_iff.2 found)
  exact ⟨held, lists.flatten, holds, List.rel_flatten defines⟩

/-- Loading depends on which drop-in files there are and on what is read from the files. -/
theorem load_congr {tree other : Tree} {conf dir : Text} {paths paths' : List Path}
    (hp : configurationPaths tree conf dir = .ok paths)
    (hp' : configurationPaths other conf dir = .ok paths')
    (listed : (dropInNames other dir).Perm (dropInNames tree dir))
    (same : ∀ p ∈ paths, other.read p.toText = tree.read p.toText) :
    load other conf dir = load tree conf dir := by
  cases configurationPaths_unique hp hp' listed.symm
  have contributions : paths.mapM (contribution other) = paths.mapM (contribution tree) :=
    Results.mapM_congr fun p h => contribution_congr (same p h)
  rw [load_eq_contributions, load_eq_contributions, hp, hp', Except.bind, Except.bind,
    contributions]

/-- The files of a configuration are the main one and the drop-in files in the order of their names.
If all are accepted, the registries are the last ones of their scopes, in the order in which the
scopes first come, as if one file held all the tables. If not, the first file that is not accepted
is reported by name, unless reading it breaks down. Other files and the order in which files are
listed do not matter. -/
theorem load_composition {tree : Tree} {conf dir : Text} {paths : List Path}
    (hp : configurationPaths tree conf dir = .ok paths) :
    (∃ names, paths = Path.ofText conf :: names.map (Path.ofText dir).child ∧ InOrder names ∧
      names.Perm (dropInNames tree dir)) ∧
    ((∀ p ∈ paths, Accepted tree p) → ∃ held defined registries,
      List.Forall₂ (Holds tree) paths held ∧ List.Forall₂ Defines held.flatten defined ∧
      load tree conf dir = .ok registries ∧ (registries.map (·.scope)).Nodup ∧
      registries.map (·.scope) = (defined.map (·.scope)).eraseDups ∧
      (∀ r ∈ registries, (defined.filter fun d => d.scope = r.scope).getLast? = some r) ∧
      ∀ other single, Holds other (Path.ofText single) held.flatten →
        load other single [] = .ok registries) ∧
    ((∃ p ∈ paths, ¬ Accepted tree p) → ∃ before path after, paths = before ++ path :: after ∧
      (∀ p ∈ before, Accepted tree p) ∧
      ((∃ fault, Refused tree path fault ∧ load tree conf dir = .error (.configuration fault) ∧
          ∀ tell, path.toText <:+: fault.message tell) ∨
        ∃ cause, Breaks tree path cause ∧ load tree conf dir = .error (.breakdown cause))) ∧
    ∀ other paths', configurationPaths other conf dir = .ok paths' →
      (dropInNames other dir).Perm (dropInNames tree dir) →
      (∀ p ∈ paths, other.read p.toText = tree.read p.toText) →
      load other conf dir = load tree conf dir := by
  refine ⟨configurationPaths_spec hp, fun accepted => ?_, fun ⟨p, mem, bad⟩ => ?_,
    fun other paths' hp' listed same => load_congr hp hp' listed same⟩
  · obtain ⟨held, defined, holds, defines⟩ := exists_held_of_accepted accepted
    refine ⟨held, defined, combine defined, holds, defines,
      load_eq_ok_iff.2 ⟨paths, held, defined, hp, holds, defines, rfl⟩,
      nodup_scopes_combine defined, scopes_combine defined, fun r => mem_combine_iff.1, ?_⟩
    intro other single single_holds
    refine load_eq_ok_iff.2 ⟨[Path.ofText single], [held.flatten], defined, rfl,
      .cons single_holds .nil, ?_, rfl⟩
    rwa [List.flatten_cons, List.flatten_nil, List.append_nil]
  · rcases all_accepted_or_first tree paths with all | ⟨before, path, after, rfl, good, failed⟩
    · exact absurd (all p mem) bad
    · refine ⟨before, path, after, rfl, good, ?_⟩
      rcases failed with ⟨fault, refused⟩ | ⟨cause, breaks⟩
      · exact .inl ⟨fault, refused, load_of_refused hp good refused, refused.names⟩
      · exact .inr ⟨cause, breaks, load_of_breaks hp good breaks⟩

/-- The files of `overridingTree` listed the other way round, without the one that is no drop-in
file. -/
def reorderedTree : Tree where
  nodes := overridingTree.nodes.reverse.filter fun (place, _) =>
    place.getLast? ≠ some (Bytes.ofAscii "notes")

theorem load_composition_reordered :
    configurationPaths overridingTree "/r.conf" "/d" = .ok overridingPaths ∧
      (∀ p ∈ overridingPaths, Accepted overridingTree p) ∧
      ∃ registries : List Registry,
        registries.map (·.scope) = [("quay.io" : Text), ("quay.io/team" : Text)] ∧
        load overridingTree "/r.conf" "/d" = .ok registries ∧
        load reorderedTree "/r.conf" "/d" = .ok registries := by
  have accepted : ∀ p ∈ overridingPaths, Accepted overridingTree p := by
    have each : ∀ p ∈ overridingPaths,
        (contribution overridingTree p).toOption.isSome = true := by decide +kernel
    intro p hp
    obtain ⟨defined, h⟩ := Option.isSome_iff_exists.1 (each p hp)
    exact accepted_iff.2 ⟨defined, Results.toOption_eq_some_iff.1 h⟩
  have listed : dropInNames reorderedTree "/d" = [("a.conf" : Text), ("b.conf" : Text)] := by
    decide +kernel
  have paths : configurationPaths reorderedTree "/r.conf" "/d" = .ok overridingPaths :=
    configurationPaths_of_listed "/r.conf" (by decide) rfl rfl inOrder_overriding
      (listed ▸ .refl _)
  have same : ∀ p ∈ overridingPaths,
      reorderedTree.read p.toText = overridingTree.read p.toText := by decide +kernel
  obtain ⟨-, all, -, others⟩ := load_composition configurationPaths_overriding
  obtain ⟨held, defined, registries, -, -, loaded, -⟩ := all accepted
  have again := others reorderedTree overridingPaths paths
    (listed ▸ dropInNames_overriding ▸ List.Perm.swap _ _ _) same
  refine ⟨configurationPaths_overriding, accepted, registries, ?_, loaded, again.trans loaded⟩
  rw [load_overriding] at loaded
  cases loaded
  rfl

/-! ## Integers with too many digits -/

/-- A main file that is malformed behind an integer with `n` digits. -/
def digitsTree (n : Nat) : Tree where
  nodes := [([Bytes.ofAscii "r.conf"], .file 0o644
    (Bytes.ofAscii (Toml.digitsDocument (List.replicate n (.ofChar '1')))))]

theorem read_digitsTree (n : Nat) :
    (digitsTree n).read "/r.conf" =
      .ok (Bytes.ofAscii (Toml.digitsDocument (List.replicate n (.ofChar '1')))) := by rfl

/-- A main file that is no TOML document is reported unless an integer in it has too many digits;
then loading breaks down. -/
theorem load_digitsTree {n : Nat} (h : 5 ≤ n) :
    load (digitsTree n) "/r.conf" [] =
      .error (if 4300 < n then .breakdown .integerTooLong
        else .configuration (.notToml (Path.ofText "/r.conf"))) := by
  have paths : configurationPaths (digitsTree n) "/r.conf" [] =
      .ok ([] ++ Path.ofText "/r.conf" :: []) := rfl
  have digits : Text.IsDigits (List.replicate n (.ofChar '1')) := by
    intro c hc
    rw [List.eq_of_mem_replicate hc]
    decide
  have read : Toml.read (Bytes.ofAscii (Toml.digitsDocument (List.replicate n (.ofChar '1')))) =
      .error (if 4300 < n then .integerTooLong else .malformed) := by
    obtain ⟨m, rfl⟩ : ∃ m, n = m + 1 := ⟨n - 1, by omega⟩
    rw [List.replicate_succ] at digits ⊢
    rw [Toml.read_of_digits digits (by decide) (by rw [List.length_replicate]; omega),
      List.length_cons, List.length_replicate]
  split
  · next long =>
    rw [if_pos long] at read
    exact load_of_breaks paths nofun (.integerTooLong (read_digitsTree n) read)
  · next short =>
    rw [if_neg short] at read
    exact load_of_refused paths nofun (.notToml (read_digitsTree n) read)

/-- One digit makes the difference. -/
theorem load_of_long_integer :
    load (digitsTree 4300) "/r.conf" [] =
        .error (.configuration (.notToml (Path.ofText "/r.conf"))) ∧
      load (digitsTree 4301) "/r.conf" [] = .error (.breakdown .integerTooLong) :=
  ⟨load_digitsTree (by decide), load_digitsTree (by decide)⟩

end PullAuth.Registry
