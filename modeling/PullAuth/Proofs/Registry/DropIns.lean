import PullAuth.Registry.Load

/-!
The files of a configuration. Behind the main file come the files of a directory whose names end in
`.conf`, in the order of their names (`configurationPaths_spec`). The order in which a tree lists
the names, and the other names there, make no difference (`configurationPaths_unique`).
-/
namespace PullAuth

/-- The names in the directory at a location, in the order in which the tree lists them. -/
def Tree.listed (t : Tree) (at_ : Location) : List Text :=
  t.nodes.filterMap fun (place, _) =>
    match place.reverse with
    | name :: outer => if outer.reverse = at_ then Utf8.decode .keeping name else none
    | [] => none

namespace Registry

/-- The names of the drop-in files in a directory, as the tree lists them. -/
def dropInNames (tree : Tree) (dir : Text) : List Text :=
  if dir.isEmpty then []
  else match tree.find? (Path.ofText dir).toText, tree.locate (Path.ofText dir).toText with
    | .ok (some (.directory _)), .ok at_ => (tree.listed at_).filter (Text.endsWith · dropInEnding)
    | _, _ => []

/-- The names in ascending order. -/
def InOrder (names : List Text) : Prop := names.Pairwise fun s t => Text.notAfter s t = true

theorem inOrder_namesIn (tree : Tree) (at_ : Location) : InOrder (tree.namesIn at_) :=
  List.pairwise_mergeSort
    (fun a b c (h₁ : Text.notAfter a b = true) (h₂ : Text.notAfter b c = true) =>
      Text.notAfter_trans h₁ h₂)
    Text.notAfter_total (tree.listed at_)

theorem InOrder.eq_of_perm {names others : List Text} (h : InOrder names) (h' : InOrder others)
    (hp : names.Perm others) : names = others :=
  hp.eq_of_pairwise (fun _ _ _ _ => Text.notAfter_antisymm) h h'

theorem dropInPaths_spec {tree : Tree} {dir : Text} {paths : List Path}
    (h : dropInPaths tree dir = .ok paths) :
    ∃ names, paths = names.map (Path.ofText dir).child ∧ InOrder names ∧
      names.Perm (dropInNames tree dir) := by
  unfold dropInPaths at h
  unfold dropInNames
  split at h
  · next empty =>
    cases h
    exact ⟨[], rfl, .nil, by rw [if_pos empty]⟩
  · next nonempty =>
    rw [if_neg nonempty]
    cases hf : tree.find? (Path.ofText dir).toText with
    | error fault =>
      simp only [hf] at h
      cases h
    | ok found =>
      rcases found with _ | ⟨mode, content⟩ | mode
      · simp only [hf] at h
        cases h
        exact ⟨[], rfl, .nil, .nil⟩
      · simp only [hf] at h
        cases h
        exact ⟨[], rfl, .nil, .nil⟩
      · cases hl : tree.locate (Path.ofText dir).toText with
        | error fault =>
          simp only [hf, hl] at h
          cases h
        | ok at_ =>
          simp only [hf, hl] at h
          cases h
          exact ⟨_, rfl, (inOrder_namesIn tree at_).filter _, (List.mergeSort_perm _ _).filter _⟩

/-- Behind the main file come the drop-in files in the order of their names. -/
theorem configurationPaths_spec {tree : Tree} {conf dir : Text} {paths : List Path}
    (h : configurationPaths tree conf dir = .ok paths) :
    ∃ names, paths = Path.ofText conf :: names.map (Path.ofText dir).child ∧ InOrder names ∧
      names.Perm (dropInNames tree dir) := by
  unfold configurationPaths at h
  cases hd : dropInPaths tree dir with
  | error failure =>
    rw [hd] at h
    cases h
  | ok found =>
    rw [hd] at h
    cases h
    obtain ⟨names, rfl, ordered, perm⟩ := dropInPaths_spec hd
    exact ⟨names, rfl, ordered, perm⟩

/-- The files of a configuration whose directory is there. -/
theorem configurationPaths_of_listed {tree : Tree} {dir : Text} {mode : Nat} {at_ : Location}
    {names : List Text} (conf : Text) (given : dir ≠ [])
    (found : tree.find? (Path.ofText dir).toText = .ok (some (.directory mode)))
    (located : tree.locate (Path.ofText dir).toText = .ok at_) (ordered : InOrder names)
    (perm : names.Perm (dropInNames tree dir)) :
    configurationPaths tree conf dir =
      .ok (Path.ofText conf :: names.map (Path.ofText dir).child) := by
  have absent : ¬ dir.isEmpty = true := by simpa using given
  rw [dropInNames, if_neg absent] at perm
  simp only [found, located] at perm
  have same : (tree.namesIn at_).filter (Text.endsWith · dropInEnding) = names :=
    InOrder.eq_of_perm ((inOrder_namesIn tree at_).filter _) ordered
      (((List.mergeSort_perm _ _).filter _).trans perm.symm)
  rw [configurationPaths, dropInPaths, if_neg absent]
  simp only [found, located, same]
  rfl

/-- A main file and a directory in which two of three files are drop-in files, the later one listed
first; both of them describe the same registry. -/
def overridingTree : Tree where
  nodes := [
    ([Bytes.ofAscii "r.conf"], .file 0o644 (Bytes.ofAscii
      "[[registry]]\nlocation = \"quay.io/\"\n[[registry.mirror]]\nlocation = \"m.io/\"\n")),
    ([Bytes.ofAscii "d"], .directory 0o755),
    ([Bytes.ofAscii "d", Bytes.ofAscii "b.conf"], .file 0o644 (Bytes.ofAscii
      "[[registry]]\nlocation = \"quay.io/team\"\n[[registry.mirror]]\nlocation = \"b.io/\"\n")),
    ([Bytes.ofAscii "d", Bytes.ofAscii "notes"], .file 0o644 []),
    ([Bytes.ofAscii "d", Bytes.ofAscii "a.conf"], .file 0o644 (Bytes.ofAscii
      "[[registry]]\nlocation = \"quay.io/team\"\n"))]

def overridingPaths : List Path :=
  [Path.ofText "/r.conf", (Path.ofText "/d").child "a.conf", (Path.ofText "/d").child "b.conf"]

theorem dropInNames_overriding :
    dropInNames overridingTree "/d" = [("b.conf" : Text), ("a.conf" : Text)] := by decide +kernel

theorem inOrder_overriding : InOrder ["a.conf", "b.conf"] := by
  unfold InOrder
  decide

theorem configurationPaths_overriding :
    configurationPaths overridingTree "/r.conf" "/d" = .ok overridingPaths :=
  configurationPaths_of_listed "/r.conf" (by decide) rfl rfl inOrder_overriding
    (dropInNames_overriding ▸ List.Perm.swap _ _ _)

/-- Trees that list the same drop-in files agree on the files of a configuration. -/
theorem configurationPaths_unique {tree tree' : Tree} {conf dir : Text} {paths paths' : List Path}
    (h : configurationPaths tree conf dir = .ok paths)
    (h' : configurationPaths tree' conf dir = .ok paths')
    (hp : (dropInNames tree dir).Perm (dropInNames tree' dir)) : paths = paths' := by
  obtain ⟨names, rfl, ordered, perm⟩ := configurationPaths_spec h
  obtain ⟨others, rfl, ordered', perm'⟩ := configurationPaths_spec h'
  rw [ordered.eq_of_perm ordered' ((perm.trans hp).trans perm'.symm)]

end Registry

end PullAuth
