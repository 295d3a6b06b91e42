import PullAuth.Proofs.File.Operations
import PullAuth.Proofs.Registry.Composition
import PullAuth.Proofs.Registry.LongestScope
import PullAuth.Proofs.Toml.Depth
import PullAuth.Proofs.Toml.Extent

/-!
What a caller who looks for mirrors is told. A configuration gives the mirrors of every image, or
there is a fault in it that is reported as one of the configuration, unless looking at it breaks
down (`BreaksDown`). It does if the directory of the drop-in files cannot be looked at, or if
reading the first file that is not accepted does. Whatever is in the files, reading them does not
break down as long as they are texts in which no integer is too long and no value too deep, or the
system refuses to read them (`mirrorsOf_reports`). Too many brackets do make it break down, and so
does a file that is no text (`mirrorsOf_of_brackets`, `mirrorsOf_of_undecodable`).
-/
namespace PullAuth.Registry

variable {tree : Tree} {conf dir : Text}

/-- Looking at a configuration ends in a way that is not expected. -/
inductive BreaksDown (tree : Tree) (conf dir : Text) : Breakdown → Prop
  /-- The directory of the drop-in files cannot be looked at. -/
  | directory {error : SystemError} : dir ≠ [] →
    tree.find? (Path.ofText dir).toText = .error (.system error) →
    BreaksDown tree conf dir (.system error)
  /-- Reading the first file that is not accepted breaks down. -/
  | file {before after : List Path} {path : Path} {cause : Breakdown} :
    configurationPaths tree conf dir = .ok (before ++ path :: after) →
    (∀ p ∈ before, Accepted tree p) → Breaks tree path cause → BreaksDown tree conf dir cause

/-- The system refuses to read the file at a path, or there is a text in which no integer is too
long, and which is not nested too deep. -/
def Readable (tree : Tree) (path : Path) : Prop :=
  (∃ error, tree.read path.toText = .error (.system error)) ∨
    ∃ t bs, tree.read path.toText = .ok bs ∧ Utf8.encode? t = some bs ∧
      ¬Toml.HasLongInteger t ∧ Toml.readText t ≠ .error .tooDeep

theorem Readable.not_breaks {path : Path} {cause : Breakdown} (h : Readable tree path) :
    ¬Breaks tree path cause := by
  intro breaks
  rcases h with ⟨error, refused⟩ | ⟨t, bs, read, encoded, short, shallow⟩
  · cases breaks with
    | unencodable e => cases refused.symm.trans e
    | nullCharacter e => cases refused.symm.trans e
    | undecodable e _ => cases refused.symm.trans e
    | integerTooLong e _ => cases refused.symm.trans e
    | tooDeep e _ => cases refused.symm.trans e
  · cases breaks with
    | unencodable e => cases read.symm.trans e
    | nullCharacter e => cases read.symm.trans e
    | undecodable e fault =>
      cases read.symm.trans e
      exact Toml.read_eq_undecodable_iff.1 fault t encoded
    | integerTooLong e fault =>
      cases read.symm.trans e
      obtain ⟨t', encoded', long⟩ := Toml.hasLongInteger_of_read fault
      exact short (Utf8.eq_of_encode? encoded encoded' ▸ long)
    | tooDeep e fault =>
      cases read.symm.trans e
      rw [Toml.read, Utf8.decode_strict_eq_some_iff.2 encoded] at fault
      exact shallow fault

/-! ## The files of a configuration -/

/-- The files of a configuration are known unless the directory cannot be looked at. -/
theorem configurationPaths_ok_or_breaksDown (tree : Tree) (conf dir : Text) :
    (∃ paths, configurationPaths tree conf dir = .ok paths) ∨
      ∃ cause, BreaksDown tree conf dir cause := by
  by_cases given : dir = []
  · rw [given]
    exact .inl ⟨_, rfl⟩
  cases hf : tree.find? (Path.ofText dir).toText with
  | error fault =>
    have present := (Tree.find?_eq_error_iff.1 hf).2
    cases fault with
    | system error => exact .inr ⟨_, .directory given hf⟩
    | unencodable => cases present
    | nullCharacter => cases present
  | ok found =>
    rw [configurationPaths, dropInPaths, if_neg (by simpa using given)]
    rcases found with _ | ⟨mode, content⟩ | mode
    · simp only [hf]
      exact .inl ⟨_, rfl⟩
    · simp only [hf]
      exact .inl ⟨_, rfl⟩
    · obtain ⟨at_, located, -⟩ := Tree.stat_eq_ok_iff.1 (Tree.find?_eq_some_iff.1 hf)
      simp only [hf, located]
      exact .inl ⟨_, rfl⟩

theorem configurationPaths_of_unlistable {error : SystemError} (given : dir ≠ [])
    (h : tree.find? (Path.ofText dir).toText = .error (.system error)) :
    configurationPaths tree conf dir = .error (.breakdown (.system error)) := by
  rw [configurationPaths, dropInPaths, if_neg (by simpa using given)]
  simp only [h]
  rfl

/-! ## Loading -/

theorem load_of_breaksDown {cause : Breakdown} (h : BreaksDown tree conf dir cause) :
    load tree conf dir = .error (.breakdown cause) := by
  cases h with
  | directory given unlistable =>
    rw [load_eq, configurationPaths_of_unlistable given unlistable]
    rfl
  | file paths accepted breaks => exact load_of_breaks paths accepted breaks

/-- A configuration loads, has a fault that is told, or breaks down. -/
theorem load_ends (tree : Tree) (conf dir : Text) :
    (∃ registries, load tree conf dir = .ok registries) ∨
      (∃ fault, load tree conf dir = .error (.configuration fault)) ∨
      ∃ cause, BreaksDown tree conf dir cause := by
  rcases configurationPaths_ok_or_breaksDown tree conf dir with ⟨paths, hp⟩ | breaks
  · rcases all_accepted_or_first tree paths with accepted | ⟨before, path, after, rfl, good, bad⟩
    · obtain ⟨held, defined, holds, defines⟩ := exists_held_of_accepted accepted
      exact .inl ⟨_, load_eq_ok_iff.2 ⟨paths, held, defined, hp, holds, defines, rfl⟩⟩
    · rcases bad with ⟨fault, refused⟩ | ⟨cause, breaks⟩
      · exact .inr (.inl ⟨fault, load_of_refused hp good refused⟩)
      · exact .inr (.inr ⟨cause, .file hp good breaks⟩)
  · exact .inr (.inr breaks)

/-! ## Mirrors -/

theorem mirrorsOf_of_load_error {image : Text} {failure : Failure} (hi : image ≠ [])
    (h : load tree conf dir = .error failure) :
    mirrorsOf tree conf dir image = .error failure.loadingRegistries := by
  rw [mirrorsOf_eq, if_neg (by simpa using hi), h]
  rfl

theorem mirrorsOf_of_breaksDown {image : Text} (hi : image ≠ []) {cause : Breakdown}
    (h : BreaksDown tree conf dir cause) :
    mirrorsOf tree conf dir image = .error (.breakdown cause) :=
  mirrorsOf_of_load_error hi (load_of_breaksDown h)

theorem mirrorsOf_ends (tree : Tree) (conf dir : Text) {image : Text} (hi : image ≠ []) :
    (∃ mirrors, mirrorsOf tree conf dir image = .ok mirrors) ∨
      (∃ fault, mirrorsOf tree conf dir image =
        .error (.configuration (.loadingRegistries fault))) ∨
      ∃ cause, BreaksDown tree conf dir cause := by
  rcases load_ends tree conf dir with ⟨registries, ok⟩ | ⟨fault, refused⟩ | breaks
  · exact .inl ⟨_, mirrorsOf_of_load ok hi⟩
  · exact .inr (.inl ⟨fault, mirrorsOf_of_load_error hi refused⟩)
  · exact .inr (.inr breaks)

theorem not_breaksDown_of_readable {paths : List Path}
    (hp : configurationPaths tree conf dir = .ok paths) (readable : ∀ p ∈ paths, Readable tree p)
    (cause : Breakdown) : ¬BreaksDown tree conf dir cause := by
  intro breaks
  cases breaks with
  | directory given unlistable =>
    cases hp.symm.trans (configurationPaths_of_unlistable given unlistable)
  | file hp' _ breaks =>
    cases hp.symm.trans hp'
    exact (readable _ (List.mem_append_right _ List.mem_cons_self)).not_breaks breaks

/-- The search for mirrors breaks down exactly if looking at the configuration does. Otherwise it
gives mirrors or a fault of the configuration. So it does whenever all files of the configuration
are refused by the system or are texts in which no integer is too long and no value too deep. -/
theorem mirrorsOf_reports (tree : Tree) (conf dir : Text) {image : Text} (hi : image ≠ []) :
    (∀ cause, mirrorsOf tree conf dir image = .error (.breakdown cause) ↔
      BreaksDown tree conf dir cause) ∧
    ((∀ cause, ¬BreaksDown tree conf dir cause) →
      (∃ mirrors, mirrorsOf tree conf dir image = .ok mirrors) ∨
        ∃ fault, mirrorsOf tree conf dir image =
          .error (.configuration (.loadingRegistries fault))) ∧
    ∀ paths, configurationPaths tree conf dir = .ok paths → (∀ p ∈ paths, Readable tree p) →
      ∀ cause, ¬BreaksDown tree conf dir cause := by
  refine ⟨fun cause => ⟨fun h => ?_, mirrorsOf_of_breaksDown hi⟩, fun none => ?_,
    fun paths hp readable => not_breaksDown_of_readable hp readable⟩
  · rcases mirrorsOf_ends tree conf dir hi with ⟨mirrors, ok⟩ | ⟨fault, refused⟩ | ⟨cause', breaks⟩
    · cases h.symm.trans ok
    · cases h.symm.trans refused
    · cases h.symm.trans (mirrorsOf_of_breaksDown hi breaks)
      exact breaks
  · rcases mirrorsOf_ends tree conf dir hi with ok | refused | ⟨cause, breaks⟩
    · exact .inl ok
    · exact .inr refused
    · exact absurd breaks (none cause)

/-- A main file whose value begins with more brackets than there is room for makes the search break
down. -/
theorem mirrorsOf_of_brackets {n : Nat} (hn : Toml.valueRoom < Toml.arrayRoom * n) {image : Text}
    (hi : image ≠ []) (hr : tree.read (Path.ofText conf).toText =
      .ok (Bytes.ofAscii (Toml.pairDocument (Text.brackets n)))) :
    mirrorsOf tree conf [] image = .error (.breakdown .tooDeep) := by
  have paths : configurationPaths tree conf [] = .ok ([] ++ Path.ofText conf :: []) := rfl
  have breaks : Breaks tree (Path.ofText conf) .tooDeep := .tooDeep hr (Toml.read_of_brackets hn)
  exact mirrorsOf_of_breaksDown hi (.file paths (List.forall_mem_nil _) breaks)

/-- A main file that is malformed and a drop-in file that is a directory. -/
def unusableTree : Tree where
  nodes := [([Bytes.ofAscii "r.conf"], .file 0o644 (Bytes.ofAscii "[[registry]\n")),
    ([Bytes.ofAscii "d"], .directory 0o755),
    ([Bytes.ofAscii "d", Bytes.ofAscii "x.conf"], .directory 0o755)]

theorem mirrorsOf_reports_unusable :
    ("quay.io/app" : Text) ≠ [] ∧
      ((∃ mirrors, mirrorsOf unusableTree "/r.conf" "/d" "quay.io/app" = .ok mirrors) ∨
        ∃ fault, mirrorsOf unusableTree "/r.conf" "/d" "quay.io/app" =
          .error (.configuration (.loadingRegistries fault))) := by
  have given : ("quay.io/app" : Text) ≠ [] := by decide
  have listed : dropInNames unusableTree "/d" = [("x.conf" : Text)] := by decide +kernel
  have ordered : InOrder ["x.conf"] := List.pairwise_singleton _ _
  have paths : configurationPaths unusableTree "/r.conf" "/d" =
      .ok [Path.ofText "/r.conf", (Path.ofText "/d").child "x.conf"] :=
    configurationPaths_of_listed "/r.conf" (by decide) rfl rfl ordered (listed ▸ .refl _)
  have malformed : Toml.readText "[[registry]\n" = .error .malformed := by with_unfolding_all rfl
  have main : Readable unusableTree (Path.ofText "/r.conf") :=
    .inr ⟨"[[registry]\n", _, rfl, Utf8.encode?_of_isAscii (by decide),
      Toml.not_hasLongInteger_of_length_le (by decide), by
        rw [malformed]
        exact nofun⟩
  have dropIn : Readable unusableTree ((Path.ofText "/d").child "x.conf") :=
    .inl ⟨.isDirectory, by rfl⟩
  have readable : ∀ p ∈ [Path.ofText "/r.conf", (Path.ofText "/d").child "x.conf"],
      Readable unusableTree p :=
    List.forall_mem_cons.2 ⟨main, List.forall_mem_singleton.2 dropIn⟩
  obtain ⟨-, told, usual⟩ := mirrorsOf_reports unusableTree "/r.conf" "/d" given
  exact ⟨given, told (usual _ paths readable)⟩

/-- A main file with a single byte that begins no character. -/
def undecodableTree : Tree where
  nodes := [([Bytes.ofAscii "r.conf"], .file 0o644 [0xFF])]

theorem mirrorsOf_of_undecodable :
    undecodableTree.read "/r.conf" = .ok [0xFF] ∧
      mirrorsOf undecodableTree "/r.conf" [] "quay.io/app" = .error (.breakdown .undecodable) := by
  have read : undecodableTree.read "/r.conf" = .ok [0xFF] := rfl
  have paths : configurationPaths undecodableTree "/r.conf" [] =
      .ok ([] ++ Path.ofText "/r.conf" :: []) := rfl
  exact ⟨read, mirrorsOf_of_load_error (by decide)
    (load_of_breaks paths nofun (.undecodable read rfl))⟩

end PullAuth.Registry
