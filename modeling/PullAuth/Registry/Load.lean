import PullAuth.Desk
import PullAuth.Registry.Match
import PullAuth.Toml.Reader

/-!
The registries of a configuration: those of the main file and then those of the drop-in files, in
the order of their names. A later registry of the same scope replaces an earlier one in its place.
A file in the older format, which has no mirrors, contributes nothing. Main statements: when the
journal goes to no file, loading reads the files as they are and leaves them so.
-/
namespace PullAuth.Registry

def dropInEnding : Text := ".conf"

/-- What a file of registries holds. -/
inductive Source where
  /-- A file in the older format. -/
  | legacy
  /-- The registries of a file. -/
  | registries (list : List Registry)

/-- The registries that a file contributes. -/
def Source.contributed : Source → List Registry
  | legacy => []
  | registries list => list

def readMembers (path : Path) (members : Keyed Toml) : Except ConfigurationFault Source :=
  if Keyed.has "registries" members then .ok .legacy
  else match (Keyed.get? "registry" members).getD (.array []) with
    | .array tables =>
      match tables.mapM ofTable with
      | .ok list => .ok (.registries list)
      | .error fault => .error (.registry path.toText fault)
    | _ => .error (.registriesNotArray path)

def readBytes (path : Path) (bs : Bytes) : Except Failure Source :=
  match Toml.read bs with
  | .error .undecodable => .error (.breakdown .undecodable)
  | .error .integerTooLong => .error (.breakdown .integerTooLong)
  | .error .tooDeep => .error (.breakdown .tooDeep)
  | .error .malformed => .error (.configuration (.notToml path))
  | .ok members => (readMembers path members).mapError .configuration

def readFile (tree : Tree) (path : Path) : Except Failure Source :=
  match tree.read path.toText with
  | .error fault => .error (.ofPath (fun e => .configuration (.unreadable path e)) fault)
  | .ok bs => readBytes path bs

/-- The paths of the drop-in files in a directory; an empty text names no directory. -/
def dropInPaths (tree : Tree) (dir : Text) : Except Failure (List Path) :=
  if dir.isEmpty then .ok []
  else
    let d := Path.ofText dir
    match tree.find? d.toText with
    | .error fault => .error (.unexpected fault)
    | .ok (some (.directory _)) =>
      match tree.locate d.toText with
      | .ok at_ =>
        .ok (((tree.namesIn at_).filter (Text.endsWith · dropInEnding)).map d.child)
      | .error fault => .error (.unexpected fault)
    | .ok _ => .ok []

/-- The registries with those of the same scope replaced. -/
def combine (registries : List Registry) : List Registry :=
  (Keyed.ofPairs (registries.map fun r => (r.scope, r))).map (·.2)

/-- The paths of the files of a configuration, the main one first. -/
def configurationPaths (tree : Tree) (conf dir : Text) : Except Failure (List Path) :=
  (dropInPaths tree dir).map (Path.ofText conf :: ·)

/-- The entry about a file that is to be read. -/
def readingEntry (path : Path) : Entry :=
  .debug ("Loading registries configuration from " ++ path.toText)

def Source.warnings (path : Path) : Source → List Entry
  | legacy => [.warning (path.toText ++ " uses the V1 format which configures no mirrors")]
  | registries _ => []

/-- Reads files one after another, up to the first that cannot be used. -/
def readFiles : List Path → Work (List Source)
  | [] => return []
  | path :: rest => do
    Work.note [readingEntry path]
    let source ← Work.look (readFile · path)
    Work.note (source.warnings path)
    return source :: (← readFiles rest)

def loading (conf dir : Text) : Work (List Registry) := do
  let paths ← Work.look (configurationPaths · conf dir)
  let sources ← readFiles paths
  return combine (sources.flatMap Source.contributed)

/-- Finds the mirrors of an image in the order of their priority. -/
def matching (conf dir image : Text) : Work (List Text) := do
  if image.isEmpty then throw (.validation .emptyImage)
  let registries ← Work.mapFailure Failure.loadingRegistries (loading conf dir)
  return ((find? image registries).map (·.mirrors)).getD []

def load (tree : Tree) (conf dir : Text) : Except Failure (List Registry) :=
  (loading conf dir { tree }).1

/-- The mirrors of an image in the order of their priority. -/
def mirrorsOf (tree : Tree) (conf dir image : Text) : Except Failure (List Text) :=
  (matching conf dir image { tree }).1

/-! ## Loading when the journal goes to no file -/

theorem readFiles_cons (path : Path) (rest : List Path) (desk : Desk) :
    readFiles (path :: rest) desk =
      match readFile (desk.note [readingEntry path]).tree path with
      | .error failure => (.error failure, desk.note [readingEntry path])
      | .ok source =>
        let after := readFiles rest ((desk.note [readingEntry path]).note (source.warnings path))
        (after.1.map (source :: ·), after.2) := by
  rw [readFiles]
  cases h : readFile (desk.note [readingEntry path]).tree path with
  | error failure =>
    simp [bind, ExceptT.bind, ExceptT.bindCont, ExceptT.mk, StateT.bind, Work.note, Work.look, h]
    rfl
  | ok source =>
    simp [bind, ExceptT.bind, ExceptT.bindCont, ExceptT.mk, StateT.bind, Work.note, Work.look, h]
    cases readFiles rest ((desk.note [readingEntry path]).note (source.warnings path)) with
    | mk result after => cases result <;> rfl

/-- Every file is read as it was at the start, and the files stay as they were. -/
theorem readFiles_of_no_file (paths : List Path) {desk : Desk} (h : desk.file = none) :
    (readFiles paths desk).1 = paths.mapM (readFile desk.tree) ∧
      (readFiles paths desk).2.tree = desk.tree ∧ (readFiles paths desk).2.file = none := by
  induction paths generalizing desk with
  | nil => exact ⟨rfl, rfl, h⟩
  | cons path rest ih =>
    have first := Desk.tree_note_of_no_file [readingEntry path] h
    rw [List.mapM_cons, readFiles_cons, first]
    cases hs : readFile desk.tree path with
    | error failure => exact ⟨rfl, first, h⟩
    | ok source =>
      have second := Desk.tree_note_of_no_file (d := desk.note [readingEntry path])
        (source.warnings path) h
      obtain ⟨result, tree, file⟩ :=
        @ih ((desk.note [readingEntry path]).note (source.warnings path)) h
      rw [second, first] at result tree
      refine ⟨?_, tree, file⟩
      show Except.map _ _ = _
      rw [result]
      cases List.mapM (readFile desk.tree) rest <;> rfl

theorem loading_eq (conf dir : Text) (desk : Desk) :
    loading conf dir desk =
      match configurationPaths desk.tree conf dir with
      | .error failure => (.error failure, desk)
      | .ok paths =>
        ((readFiles paths desk).1.map fun sources => combine (sources.flatMap Source.contributed),
          (readFiles paths desk).2) := by
  rw [loading]
  cases h : configurationPaths desk.tree conf dir with
  | error failure =>
    simp [bind, ExceptT.bind, ExceptT.bindCont, ExceptT.mk, StateT.bind, Work.look, h]
    rfl
  | ok paths =>
    simp [bind, ExceptT.bind, ExceptT.bindCont, ExceptT.mk, StateT.bind, Work.look, h]
    cases readFiles paths desk with
    | mk result after => cases result <;> rfl

/-- The registries are those of the files as they are, and the files stay so. -/
theorem loading_of_no_file (conf dir : Text) {desk : Desk} (h : desk.file = none) :
    (loading conf dir desk).1 = load desk.tree conf dir ∧
      (loading conf dir desk).2.tree = desk.tree ∧ (loading conf dir desk).2.file = none := by
  rw [load, loading_eq, loading_eq]
  cases configurationPaths desk.tree conf dir with
  | error failure => exact ⟨rfl, rfl, h⟩
  | ok paths =>
    obtain ⟨result, tree, file⟩ := readFiles_of_no_file paths h
    have alone := (@readFiles_of_no_file paths { tree := desk.tree } rfl).1
    simp only [result, alone]
    exact ⟨trivial, tree, file⟩

/-- The registries of a configuration are those of its files, later ones replacing earlier ones. -/
theorem load_eq (tree : Tree) (conf dir : Text) :
    load tree conf dir =
      (configurationPaths tree conf dir).bind fun paths =>
        (paths.mapM (readFile tree)).map fun sources =>
          combine (sources.flatMap Source.contributed) := by
  rw [load, loading_eq]
  cases configurationPaths tree conf dir with
  | error failure => rfl
  | ok paths =>
    have alone := (@readFiles_of_no_file paths { tree } rfl).1
    simp only [alone]
    rfl

theorem matching_eq (conf dir image : Text) (desk : Desk) :
    matching conf dir image desk =
      if image.isEmpty then (.error (.validation .emptyImage), desk)
      else
        (((loading conf dir desk).1.mapError Failure.loadingRegistries).map fun registries =>
          ((find? image registries).map (·.mirrors)).getD [], (loading conf dir desk).2) := by
  rw [matching]
  by_cases h : image.isEmpty
  · simp [h, bind, ExceptT.bind, ExceptT.bindCont, ExceptT.mk, StateT.bind, throw, throwThe,
      MonadExceptOf.throw]
    rfl
  · simp only [h]
    cases hl : loading conf dir desk with
    | mk result after =>
      cases result <;>
        simp [bind, ExceptT.bind, ExceptT.bindCont, ExceptT.mk, StateT.bind, Work.mapFailure,
          hl] <;>
        rfl

/-- The mirrors are those of the files as they are, and the files stay so. -/
theorem matching_of_no_file (conf dir image : Text) {desk : Desk} (h : desk.file = none) :
    (matching conf dir image desk).1 = mirrorsOf desk.tree conf dir image ∧
      (matching conf dir image desk).2.tree = desk.tree ∧
      (matching conf dir image desk).2.file = none := by
  rw [mirrorsOf, matching_eq, matching_eq]
  by_cases hi : image.isEmpty
  · simp [hi, h]
  · obtain ⟨result, tree, file⟩ := loading_of_no_file conf dir h
    simp only [hi, result, load]
    exact ⟨rfl, tree, file⟩

/-- The mirrors of an image are those of the registry that is found for it. -/
theorem mirrorsOf_eq (tree : Tree) (conf dir image : Text) :
    mirrorsOf tree conf dir image =
      if image.isEmpty then .error (.validation .emptyImage)
      else ((load tree conf dir).mapError Failure.loadingRegistries).map fun registries =>
        ((find? image registries).map (·.mirrors)).getD [] := by
  rw [mirrorsOf, matching_eq]
  by_cases hi : image.isEmpty <;> simp [hi, load]

end PullAuth.Registry
