import PullAuth.Proofs.AuthFile.Confinement
import PullAuth.Proofs.File.Misspelling
import PullAuth.Proofs.Request.Acceptance

/-!
What a caller who has a credential file written is told. Whatever the file system does is reported,
and so is a file without entries or a relative directory. What is not reported comes from the texts
alone: an image that cannot be encoded, and a directory or a name that cannot be spelled
(`Escapes`). So nothing goes unreported for an image without surrogates, if the directory and the
namespace can be spelled (`write_reports`). A request can name an image that is a lone surrogate,
and that does go unreported (`write_of_lone_surrogate`).
-/
namespace PullAuth.AuthFile

open Runs (FailsWith)

/-! ## Steps -/

theorem failsWith_operation {f : Tree → Except PathFault Tree}
    (h : ∀ t, Tree.FailsOnlySystem (f t)) : FailsWith PathFault.IsSystem (Steps.operation f) := by
  intro t fault after e
  unfold Steps.operation at e
  split at e
  · cases e
  · next failed =>
    cases e
    exact h t fault failed

theorem failsWith_fill {path : Text} (h : Spellable path) (content : Bytes) :
    FailsWith PathFault.IsSystem (fill path content) := by
  refine FailsWith.get.bind fun found => ?_
  refine (failsWith_operation fun t => Tree.failsOnlySystem_writeFile h t content).bind fun _ => ?_
  split
  · exact .throw ⟨_, rfl⟩
  · exact .pure ()

/-! ## Replacing a file -/

theorem spellable_around (number : Nat) : Spellable "." ∧ Spellable (Text.ofHex 8 number) :=
  ⟨⟨Text.isWritable_iff.2 ⟨[0x2E], by decide⟩, by decide⟩,
    (Spelled.of_hexDigits fun _ hc => Text.exists_of_mem_ofHex hc).spellable⟩

theorem spellable_temporaryName {name : Text} (h : Spellable name) (number : Nat) :
    Spellable (temporaryName name number) := by
  obtain ⟨dot, digits⟩ := spellable_around number
  simp only [temporaryName, spellable_append_iff]
  exact ⟨⟨⟨dot, h⟩, dot⟩, digits⟩

theorem misspelled_temporaryName {name : Text} {fault : PathFault} (h : Misspelled name fault)
    (number : Nat) : Misspelled (temporaryName name number) fault := by
  obtain ⟨dot, digits⟩ := spellable_around number
  exact ((h.append_left dot).append_right dot).append_right digits

section
variable {p : Path} (root : p.root ≠ []) (parent : Spellable p.parent.toText) (content : Bytes)
include root parent

/-- A file whose path can be spelled is replaced, or the system keeps it from being. -/
theorem failsWith_replaceFile (name : Spellable p.name) (whole : Spellable p.toText) :
    FailsWith PathFault.IsSystem (replaceFile p content) := by
  refine FailsWith.get.bind fun found => ?_
  -- The name of the temporary file is that of the file with dots and digits around it.
  have temporary : Spellable (temporaryPath found p) := by
    obtain ⟨number, chosen⟩ := exists_temporaryPath_eq found p
    rw [chosen, Path.spellable_child_iff (d := p.parent) root]
    exact ⟨parent, spellable_temporaryName name number⟩
  refine (failsWith_operation fun t =>
    Tree.failsOnlySystem_createFile temporary t fileMode).bind fun _ => ?_
  refine FailsWith.tryCatch ?_ fun fault isSystem => ?_
  · refine (failsWith_fill temporary content).bind fun _ => ?_
    refine (failsWith_operation fun t =>
      Tree.failsOnlySystem_setMode temporary t fileMode).bind fun _ => ?_
    exact failsWith_operation fun t => Tree.failsOnlySystem_rename temporary t whole
  · refine (failsWith_operation fun t =>
      Tree.failsOnlySystem_removeFile temporary t).bind fun _ => ?_
    exact .throw isSystem

/-- A temporary file has the name of the file in its own, so it cannot be made if that cannot be
spelled. -/
theorem replaceFile_of_misspelled {fault : PathFault} (name : Misspelled p.name fault) (t : Tree) :
    replaceFile p content t = (.error fault, t) := by
  obtain ⟨number, chosen⟩ := exists_temporaryPath_eq t p
  have temporary : Misspelled (temporaryPath t p) fault := by
    rw [chosen]
    exact Path.misspelled_child (d := p.parent) root parent (misspelled_temporaryName name number)
  have looked : (get : Steps Tree) t = (.ok t, t) := rfl
  have stuck : Steps.operation (·.createFile fileMode (temporaryPath t p)) t =
      (.error fault, t) := by
    rw [Steps.operation, Tree.createFile_of_misspelled temporary]
  rw [temporaryPath] at stuck
  rw [replaceFile, Runs.bind_eq_of_ok looked, Runs.bind_eq, stuck]

end

/-! ## The directory -/

theorem ensureDirectory_of_misspelled {path : Text} {fault : PathFault}
    (h : Misspelled path fault) (mode : Nat) (t : Tree) :
    ensureDirectory mode path t = (.error fault, t) := by
  have stuck := Tree.makeDirectory_of_misspelled h t mode
  unfold ensureDirectory
  cases h <;> rw [stuck]

theorem failsWith_ensureDirectory {path : Text} (h : Spellable path) (mode : Nat) :
    FailsWith PathFault.IsSystem (ensureDirectory mode path) := by
  intro t fault after e
  have only := Tree.failsOnlySystem_makeDirectory h t mode
  unfold ensureDirectory at e
  split at e
  · cases e
  · cases e
    exact ⟨_, rfl⟩
  · split at e
    · cases e
    · cases e
      exact ⟨_, rfl⟩
  · next failed =>
    cases e
    exact only _ failed

/-- The directory itself is tried first. -/
theorem ensureDirectories_of_misspelled {root : Text} {names : List Text} {fault : PathFault}
    (h : Misspelled (Path.toText ⟨root, names.reverse⟩) fault) (mode : Nat) (t : Tree) :
    ensureDirectories root mode names t = (.error fault, t) := by
  cases names with
  | nil => exact ensureDirectory_of_misspelled h mode t
  | cons name outer =>
    simp only [ensureDirectories, ensureDirectory_of_misspelled h]
    cases h <;> rfl

/-- The directories around one that can be spelled can be spelled as well. -/
theorem failsWith_ensureDirectories {root : Text} (hr : root ≠ []) {names : List Text}
    (h : Spellable (Path.toText ⟨root, names.reverse⟩)) (mode : Nat) :
    FailsWith PathFault.IsSystem (ensureDirectories root mode names) := by
  induction names generalizing mode with
  | nil => exact failsWith_ensureDirectory h mode
  | cons name outer ih =>
    have around : Spellable (Path.toText ⟨root, outer.reverse⟩) := by
      have child : (⟨root, (name :: outer).reverse⟩ : Path) =
          Path.child ⟨root, outer.reverse⟩ name := by
        rw [Path.child, List.reverse_cons]
      rw [child] at h
      exact ((Path.spellable_child_iff hr).1 h).1
    intro t fault after e
    have first := failsWith_ensureDirectory h mode
    -- A missing directory around is made in between, and then the first attempt is made again.
    simp only [ensureDirectories] at e
    split at e
    · split at e
      · exact first _ fault after e
      · next earlier between failed =>
        cases e
        exact ih around 0o777 _ _ _ failed
    · exact first t fault after e

theorem toText_parent (p : Path) :
    Path.toText ⟨p.root, p.parent.names.reverse.reverse⟩ = p.parent.toText := by
  rw [List.reverse_reverse]
  rfl

/-! ## Writing -/

section
variable {p : Path} {content : Bytes} {t ready : Tree} {fault : PathFault}

theorem persist_of_misspelled_directory (wrong : Misspelled p.parent.toText fault) :
    persist p content t = (.error fault, t) := by
  rw [← toText_parent] at wrong
  rw [persist, Runs.bind_eq, ensureDirectories_of_misspelled wrong]

theorem spellable_directory
    (made : ensureDirectories p.root directoryMode p.parent.names.reverse t = (.ok (), ready)) :
    Spellable p.parent.toText := by
  rcases spellable_or_misspelled p.parent.toText with spelled | ⟨fault, wrong⟩
  · exact spelled
  · rw [← toText_parent] at wrong
    rw [ensureDirectories_of_misspelled wrong] at made
    cases made

theorem persist_of_misspelled_name (root : p.root ≠ [])
    (made : ensureDirectories p.root directoryMode p.parent.names.reverse t = (.ok (), ready))
    (wrong : Misspelled p.name fault) : persist p content t = (.error fault, ready) := by
  rw [persist, Runs.bind_eq_of_ok made]
  exact replaceFile_of_misspelled root (spellable_directory made) content wrong ready

/-- The misspellings that keep a file from being written: that of its directory, and that of its
name as soon as the directory is there. -/
inductive Blocks (p : Path) (t : Tree) (fault : PathFault) : Prop
  | directory : Misspelled p.parent.toText fault → Blocks p t fault
  | name {ready : Tree} :
    ensureDirectories p.root directoryMode p.parent.names.reverse t = (.ok (), ready) →
    Misspelled p.name fault → Blocks p t fault

theorem Blocks.not_isSystem (h : Blocks p t fault) : ¬fault.IsSystem := by
  cases h with
  | directory wrong => exact wrong.not_isSystem
  | name _ wrong => exact wrong.not_isSystem

theorem Blocks.persist (root : p.root ≠ []) (h : Blocks p t fault) :
    (persist p content t).1 = .error fault := by
  cases h with
  | directory wrong => rw [persist_of_misspelled_directory wrong]
  | name made wrong => rw [persist_of_misspelled_name root made wrong]

/-- Nothing but a misspelling makes writing fail with a fault that is none of the system. -/
theorem blocks_of_persist (root : p.root ≠ []) (named : p.names ≠ [])
    (failed : (persist p content t).1 = .error fault) (unusual : ¬fault.IsSystem) :
    Blocks p t fault := by
  rcases spellable_or_misspelled p.parent.toText with directory | ⟨other, wrong⟩
  · cases made : ensureDirectories p.root directoryMode p.parent.names.reverse t with
    | mk result ready =>
      cases result with
      | error other =>
        rw [persist, Runs.bind_eq, made] at failed
        cases failed
        rw [← toText_parent] at directory
        exact absurd (failsWith_ensureDirectories root directory _ _ _ _ made) unusual
      | ok _ =>
        rcases spellable_or_misspelled p.name with name | ⟨other, wrong⟩
        · have whole : Spellable p.toText := by
            rw [← Path.child_name_parent named, Path.spellable_child_iff (d := p.parent) root]
            exact ⟨directory, name⟩
          rw [persist, Runs.bind_eq_of_ok made] at failed
          exact absurd (failsWith_replaceFile root directory content name whole ready fault _
            (Prod.ext failed rfl)) unusual
        · rw [persist_of_misspelled_name root made wrong] at failed
          cases failed
          exact .name made wrong
  · rw [persist_of_misspelled_directory wrong] at failed
    cases failed
    exact .directory wrong

theorem persist_blocked_iff (content : Bytes) (root : p.root ≠ []) (named : p.names ≠ []) :
    ((persist p content t).1 = .error fault ∧ ¬fault.IsSystem) ↔ Blocks p t fault :=
  ⟨fun ⟨failed, unusual⟩ => blocks_of_persist root named failed unusual,
    fun blocks => ⟨blocks.persist root, blocks.not_isSystem⟩⟩

end

/-- What is to be written goes to its path, unless there are no entries in it. -/
theorem write_object (dir namespaceName image : Text) (file : CredentialFile) (tree : Tree) :
    (write dir namespaceName image (.value (.object file)) tree).1 =
      match path dir namespaceName image with
      | .error failure => .error failure
      | .ok p =>
        if hasEntries (.value (.object file)) then
          match (persist p (dump file) tree).1 with
          | .ok () => .ok p
          | .error fault => .error (.ofPath (.persistence p ·) fault)
        else .error .noCredentials := by
  unfold write
  rw [draft_object]
  cases path dir namespaceName image with
  | error failure => rfl
  | ok p =>
    cases hasEntries (.value (.object file)) with
    | false => rfl
    | true =>
      simp only [if_true]
      cases persist p (dump file) tree with
      | mk result after => cases result <;> rfl

/-- The failures that are reported to nobody when a file is written. -/
inductive Escapes (dir namespaceName image : Text) (file : CredentialFile) (tree : Tree) :
    Failure → Prop
  /-- The image has no digest. -/
  | image : (Path.ofText dir).isAbsolute = true → ¬image.IsScalar →
    Escapes dir namespaceName image file tree (.breakdown .unencodable)
  /-- The directory or the name of the file cannot be spelled. -/
  | spelling {p : Path} {fault : PathFault} : path dir namespaceName image = .ok p →
    hasEntries (.value (.object file)) = true → Blocks p tree fault →
    Escapes dir namespaceName image file tree (.unexpected fault)

/-! ## What is reported -/

theorem digest?_eq_none_iff {image : Text} : digest? image = none ↔ ¬image.IsScalar := by
  rw [digest?, Option.map_eq_none_iff, Utf8.encode?_eq_none_iff]

/-- A fault of a path goes unreported if it is none of the system, and then as it is. -/
theorem ofPath_unreported_iff {p : Path} {fault : PathFault} {failure : Failure} :
    (Failure.ofPath (.persistence p ·) fault = failure ∧ failure.message? = none) ↔
      ¬fault.IsSystem ∧ failure = .unexpected fault := by
  cases fault with
  | system error =>
    constructor
    · rintro ⟨rfl, silent⟩
      cases silent
    · rintro ⟨unusual, -⟩
      exact absurd ⟨error, rfl⟩ unusual
  | unencodable => exact ⟨fun h => ⟨nofun, h.1.symm⟩, fun h => ⟨h.2.symm, by rw [h.2]; rfl⟩⟩
  | nullCharacter => exact ⟨fun h => ⟨nofun, h.1.symm⟩, fun h => ⟨h.2.symm, by rw [h.2]; rfl⟩⟩

section
variable {dir namespaceName image : Text} (named : namespaceName ≠ []) (given : image ≠ [])
include named given

theorem path_of_given :
    path dir namespaceName image =
      if (Path.ofText dir).isAbsolute then
        match digest? image with
        | none => .error (.breakdown .unencodable)
        | some digest => .ok ((Path.ofText dir).join (Path.ofText (fileName namespaceName digest)))
      else .error (.validation (.relativeDirectory (Path.ofText dir))) := by
  rw [path, if_neg (by simpa using named), if_neg (by simpa using given)]
  show (if !(Path.ofText dir).isAbsolute then _ else _) = _
  cases (Path.ofText dir).isAbsolute <;> rfl

/-- The only reason to refuse a path that goes unreported is that the image has no digest. -/
theorem path_unreported_iff {failure : Failure} :
    (path dir namespaceName image = .error failure ∧ failure.message? = none) ↔
      (Path.ofText dir).isAbsolute = true ∧ ¬image.IsScalar ∧
        failure = .breakdown .unencodable := by
  rw [path_of_given named given, ← digest?_eq_none_iff]
  constructor
  · rintro ⟨e, silent⟩
    split at e
    · next absolute =>
      split at e
      · next none_there =>
        cases e
        exact ⟨absolute, none_there, rfl⟩
      · cases e
    · cases e
      cases silent
  · rintro ⟨absolute, none_there, rfl⟩
    rw [if_pos absolute, none_there]
    exact ⟨rfl, rfl⟩

variable {file : CredentialFile} {tree : Tree}

/-- If there is a path and there are entries, only a misspelling goes unreported. -/
theorem escapes_iff_of_path {p : Path} (hp : path dir namespaceName image = .ok p)
    (entries : hasEntries (.value (.object file)) = true) {failure : Failure} :
    Escapes dir namespaceName image file tree failure ↔
      ∃ fault, Blocks p tree fault ∧ failure = .unexpected fault := by
  constructor
  · intro escapes
    cases escapes with
    | image absolute surrogate =>
      have refused := ((path_unreported_iff named given).2 ⟨absolute, surrogate, rfl⟩).1
      cases hp.symm.trans refused
    | spelling found _ blocks =>
      cases hp.symm.trans found
      exact ⟨_, blocks, rfl⟩
  · rintro ⟨fault, blocks, rfl⟩
    exact .spelling hp entries blocks

theorem not_escapes_of_no_entries {p : Path} (hp : path dir namespaceName image = .ok p)
    (entries : hasEntries (.value (.object file)) = false) {failure : Failure} :
    ¬Escapes dir namespaceName image file tree failure := by
  intro escapes
  cases escapes with
  | image absolute surrogate =>
    have refused := ((path_unreported_iff named given).2 ⟨absolute, surrogate, rfl⟩).1
    cases hp.symm.trans refused
  | spelling _ some_there _ => cases entries.symm.trans some_there

theorem escapes_iff_of_refused {other : Failure} (hp : path dir namespaceName image = .error other)
    {failure : Failure} :
    Escapes dir namespaceName image file tree failure ↔
      path dir namespaceName image = .error failure ∧ failure.message? = none := by
  rw [path_unreported_iff named given]
  constructor
  · intro escapes
    cases escapes with
    | image absolute surrogate => exact ⟨absolute, surrogate, rfl⟩
    | spelling found => cases hp.symm.trans found
  · rintro ⟨absolute, surrogate, rfl⟩
    exact .image absolute surrogate

theorem write_unreported_iff {failure : Failure} :
    ((write dir namespaceName image (.value (.object file)) tree).1 = .error failure ∧
      failure.message? = none) ↔ Escapes dir namespaceName image file tree failure := by
  rw [write_object]
  cases hp : path dir namespaceName image with
  | error other => rw [escapes_iff_of_refused named given hp, hp]
  | ok p =>
    cases entries : hasEntries (.value (.object file)) with
    | false =>
      refine ⟨?_, fun escapes => absurd escapes (not_escapes_of_no_entries named given hp entries)⟩
      rintro ⟨e, silent⟩
      cases e
      cases silent
    | true =>
      have root := Path.root_ne_nil (isCanonical_path hp).root
      have names : p.names ≠ [] := by
        obtain ⟨before, last, e⟩ := exists_names_of_path hp
        simp [e]
      simp only [if_true, escapes_iff_of_path named given hp entries,
        ← persist_blocked_iff (dump file) root names]
      cases (persist p (dump file) tree).1 with
      | ok _ => simp
      | error fault =>
        simp only [Except.error.injEq, ofPath_unreported_iff]
        exact ⟨fun ⟨unusual, e⟩ => ⟨fault, ⟨rfl, unusual⟩, e⟩,
          fun ⟨_, ⟨same, unusual⟩, e⟩ => by cases same; exact ⟨unusual, e⟩⟩

end

/-- All parts of the path of a file come from the directory, the namespace and the digest. -/
theorem isSpellable_path {dir namespaceName image : Text} {p : Path}
    (h : path dir namespaceName image = .ok p) (directory : Spellable dir)
    (name : Spellable namespaceName) : p.IsSpellable := by
  obtain ⟨-, -, -, digest, hd, rfl⟩ := path_eq_ok_iff.1 h
  have whole : Spellable (fileName namespaceName digest) := by
    rw [fileName_eq, spellable_append_iff]
    exact ⟨name, (spelled_ending hd).spellable⟩
  exact (Path.isSpellable_ofText directory).join (Path.isSpellable_ofText whole)

/-- A failure to write a file goes unreported exactly if the image, the directory or the name of the
file is at fault. If the image has no surrogates, and the directory and the namespace can be
spelled, the path is returned or the failure is reported, whatever the file system is. -/
theorem write_reports (dir : Text) {namespaceName image : Text} (named : namespaceName ≠ [])
    (given : image ≠ []) (file : CredentialFile) (tree : Tree) :
    (∀ failure, ((write dir namespaceName image (.value (.object file)) tree).1 = .error failure ∧
      failure.message? = none) ↔ Escapes dir namespaceName image file tree failure) ∧
    (image.IsScalar → Spellable dir → Spellable namespaceName →
      (∃ p, (write dir namespaceName image (.value (.object file)) tree).1 = .ok p) ∨
        ∃ failure text, (write dir namespaceName image (.value (.object file)) tree).1 =
          .error failure ∧ failure.message? = some text) := by
  refine ⟨fun failure => write_unreported_iff named given, fun scalar directory name => ?_⟩
  cases result : (write dir namespaceName image (.value (.object file)) tree).1 with
  | ok p => exact .inl ⟨p, rfl⟩
  | error failure =>
    cases told : failure.message? with
    | some text => exact .inr ⟨failure, text, rfl, told⟩
    | none =>
      cases (write_unreported_iff named given).1 ⟨result, told⟩ with
      | image _ surrogate => exact absurd scalar surrogate
      | spelling found _ blocks =>
        have spellable := isSpellable_path found directory name
        cases blocks with
        | directory wrong => exact absurd spellable.parent.toText wrong.not_spellable
        | name _ wrong => exact absurd spellable.name wrong.not_spellable

/-- A file with one entry. -/
def singleEntry : CredentialFile :=
  [("auths", .object [("quay.io", .object [("auth", .string "dTpw")])])]

theorem write_reports_single :
    ("team" : Text) ≠ [] ∧ ("quay.io/app" : Text) ≠ [] ∧
      ((∃ p, (write "/auth" "team" "quay.io/app" (.value (.object singleEntry)) {}).1 = .ok p) ∨
        ∃ failure text, (write "/auth" "team" "quay.io/app"
          (.value (.object singleEntry)) {}).1 = .error failure ∧
            failure.message? = some text) := by
  have named : ("team" : Text) ≠ [] := by decide
  have given : ("quay.io/app" : Text) ≠ [] := by decide
  have scalar : Text.IsScalar "quay.io/app" := by
    unfold Text.IsScalar
    decide
  have directory : Spellable "/auth" :=
    ⟨Text.isWritable_iff.2 ⟨Bytes.ofAscii "/auth", by decide⟩, by decide⟩
  have name : Spellable "team" :=
    ⟨Text.isWritable_iff.2 ⟨Bytes.ofAscii "team", by decide⟩, by decide⟩
  exact ⟨named, given, (write_reports "/auth" named given singleEntry {}).2 scalar directory name⟩

def loneSurrogate : Text := (CodePoint.ofNat? 0xD800).toList

/-- A request for an image whose name is a lone surrogate, as an escape in a text can say. -/
def surrogateRequest : Text := (Json.object [("image", .string loneSurrogate)]).write .oneLine

/-- The request is accepted, and then the failure goes unreported. -/
theorem write_of_lone_surrogate :
    Request.ofText surrogateRequest = .ok { image := loneSurrogate, token := [] } ∧
      (write "/auth" "default" loneSurrogate (.value (.object singleEntry)) {}).1 =
        .error (.breakdown .unencodable) := by
  have read : Json.read surrogateRequest = .ok (.object [("image", .string loneSurrogate)]) := by
    cbv
  obtain ⟨shallow, denotes⟩ := Json.read_eq_ok_iff.1 read
  have accepted : Request.ofText surrogateRequest = .ok { image := loneSurrogate, token := [] } :=
    Request.ofText_eq_ok_iff.2 ⟨shallow, _, denotes, Request.fits_of_isNone (by decide +kernel),
      rfl, .inr ⟨rfl, rfl⟩⟩
  exact ⟨accepted, rfl⟩

end PullAuth.AuthFile
