import PullAuth.Proofs.AuthFile.Persist
import PullAuth.Proofs.CredentialFile.Global
import PullAuth.Proofs.File.Spelling
import PullAuth.Proofs.Merge.Overlay
import PullAuth.Proofs.Secret.Offers

/-!
What comes of an order for a credential file. `create_eq` lists the ways that it can go: the content
may not come together, the path may be refused, there may be nothing to write, and only then are
files touched. `read_of_create` says what is found at the path afterwards.
-/
namespace PullAuth.AuthFile

/-! ## Where the file lies -/

/-- A path is refused for an empty namespace, an empty image or one with a surrogate, and a relative
directory. -/
theorem path_eq_ok_iff {dir namespaceName image : Text} {p : Path} :
    path dir namespaceName image = .ok p ↔
      namespaceName ≠ [] ∧ image ≠ [] ∧ (Path.ofText dir).isAbsolute = true ∧
        ∃ digest, digest? image = some digest ∧
          p = (Path.ofText dir).join (Path.ofText (fileName namespaceName digest)) := by
  constructor
  · intro h
    unfold path at h
    split at h
    · cases h
    next h₁ =>
    split at h
    · cases h
    next h₂ =>
    simp only at h
    split at h
    · cases h
    next h₃ =>
    split at h
    · cases h
    next digest hd =>
    cases h
    rw [List.isEmpty_iff] at h₁ h₂
    exact ⟨h₁, h₂, by simpa using h₃, digest, hd, rfl⟩
  · intro ⟨h₁, h₂, h₃, digest, hd, e⟩
    rw [e]
    unfold path
    rw [if_neg (by rwa [List.isEmpty_iff]), if_neg (by rwa [List.isEmpty_iff])]
    simp only [h₃, hd, Bool.not_true, Bool.false_eq_true, if_false]

/-- The last name of the path ends with `.json`. -/
theorem exists_names_of_path {dir namespaceName image : Text} {p : Path}
    (h : path dir namespaceName image = .ok p) :
    ∃ before last, p.names = before ++ [last ++ (".json" : Text)] := by
  obtain ⟨-, -, -, digest, -, rfl⟩ := path_eq_ok_iff.1 h
  have slashless : ('/' : CodePoint) ∉ (".json" : Text) := by decide
  obtain ⟨outer, last, hn⟩ := Path.exists_names_ofText_append (namespaceName ++ "-" ++ digest)
    slashless (by decide)
  obtain ⟨before, hj⟩ := Path.names_join (Path.ofText dir)
    (Path.ofText (fileName namespaceName digest))
  rw [fileName, hn, ← List.append_assoc] at hj
  exact ⟨before ++ outer, last, hj⟩

/-- The path of a credential file can lead to a file: it ends with `.json`. -/
theorem leadsToFiles_of_path {dir namespaceName image : Text} {p : Path}
    (h : path dir namespaceName image = .ok p) : Tree.LeadsToFiles p.toText := by
  obtain ⟨before, last, hn⟩ := exists_names_of_path h
  have named : last ++ (".json" : Text) ≠ [] := List.append_ne_nil_of_right_ne_nil _ (by decide)
  obtain ⟨start, ht⟩ := Path.exists_toText_of_names hn named
  rw [ht, ← List.append_assoc]
  exact Tree.leadsToFiles_of_append _ (by decide) (by decide)

/-! ## What is to be written -/

/-- The bytes of a credential file: indented by tabs, with sorted keys. -/
def dump (file : CredentialFile) : Bytes :=
  Bytes.ofAscii (Json.write (.indented "\t") (Json.object file).sorted)

theorem bytesOf_object (file : CredentialFile) :
    bytesOf (.value (.object file)) = .ok (dump file) := by
  simp [bytesOf, Document.write, Document.sorted, Document.toJson, dump, Except.map]

/-- The global file of an order is loaded, and it can be copied. -/
def CopiesGlobal (order : Order) (tree : Tree) : Prop :=
  ∃ global, CredentialFile.loadGlobal tree order.home order.globalFile = .ok global ∧
    Merge.canCopy global = true

theorem content_eq (order : Order) (tree : Tree) :
    content order tree =
      if order.namespaceName.isEmpty then .error (.validation .emptyNamespace)
      else match order.secrets with
        | none => .error (.validation .noSecrets)
        | some secrets =>
          match CredentialFile.loadGlobal tree order.home order.globalFile with
          | .error failure => .error failure.readingGlobalFile
          | .ok global =>
            Harvest.ofSecrets secrets >>= fun harvest =>
              (Merge.merge harvest.configs global order.image order.mirrors).mapError
                .breakdown := by
  unfold content
  by_cases h : order.namespaceName.isEmpty = true
  · rw [if_pos h, if_pos h]
    rfl
  · rw [if_neg h, if_neg h]
    cases order.secrets with
    | none => rfl
    | some secrets => cases CredentialFile.loadGlobal tree order.home order.globalFile <;> rfl

theorem content_eq_ok_iff {order : Order} {tree : Tree} {file : CredentialFile} :
    content order tree = .ok file ↔ order.namespaceName ≠ [] ∧
      ∃ secrets, order.secrets = some secrets ∧
        ∃ global, CredentialFile.loadGlobal tree order.home order.globalFile = .ok global ∧
          ∃ harvest, Harvest.ofSecrets secrets = .ok harvest ∧
            Merge.merge harvest.configs global order.image order.mirrors = .ok file := by
  rw [content_eq]
  by_cases h : order.namespaceName = []
  · simp [h]
  · cases order.secrets with
    | none => simp [h]
    | some secrets =>
      cases CredentialFile.loadGlobal tree order.home order.globalFile with
      | error failure => simp [h]
      | ok global =>
        simp [h, Results.bind_eq_ok_iff, Results.mapError_eq_ok_iff]

theorem get?_entriesKey_of_content {order : Order} {tree : Tree} {file : CredentialFile}
    (h : content order tree = .ok file) :
    Keyed.get? CredentialFile.entriesKey file = some (.object (CredentialFile.entries file)) := by
  obtain ⟨-, secrets, -, global, -, harvest, -, hm⟩ := content_eq_ok_iff.1 h
  obtain ⟨-, written, -, -, rfl⟩ := Merge.merge_eq_ok_iff.1 hm
  rw [Merge.get?_entriesKey_overlay, Merge.entries_overlay]

/-- A file that has entries is written to its path. -/
theorem draft_object (dir namespaceName image : Text) (file : CredentialFile) :
    draft dir namespaceName image (.value (.object file)) =
      match path dir namespaceName image with
      | .error failure => .error failure
      | .ok p =>
        if hasEntries (.value (.object file)) then .ok (p, dump file)
        else .error .noCredentials := by
  unfold draft
  cases path dir namespaceName image with
  | error failure => rfl
  | ok p =>
    cases h : hasEntries (.value (.object file)) with
    | false =>
      simp [Document.isObject, Json.isObject, bind, Except.bind, throw, throwThe,
        MonadExceptOf.throw]
    | true =>
      simp [Document.isObject, Json.isObject, bind, Except.bind, bytesOf_object, pure,
        Except.pure, Except.mapError]

theorem draft_of_entries {file : CredentialFile}
    (h : Keyed.get? CredentialFile.entriesKey file = some (.object (CredentialFile.entries file)))
    (dir namespaceName image : Text) :
    draft dir namespaceName image (.value (.object file)) =
      match path dir namespaceName image with
      | .error failure => .error failure
      | .ok p =>
        if CredentialFile.entries file = [] then .error .noCredentials
        else .ok (p, dump file) := by
  have some_entries : hasEntries (.value (.object file)) =
      !(CredentialFile.entries file).isEmpty := by
    rw [hasEntries, Document.member?, Json.member?, h]
    rfl
  rw [draft_object, some_entries]
  cases path dir namespaceName image with
  | error failure => rfl
  | ok p => cases CredentialFile.entries file <;> rfl

/-! ## What comes of an order -/

theorem path_ne_noCredentials (dir namespaceName image : Text) :
    path dir namespaceName image ≠ .error .noCredentials := by
  unfold path
  split
  · exact nofun
  · split
    · exact nofun
    · simp only
      split
      · exact nofun
      · split
        · exact nofun
        · exact nofun

/-- Files are touched only if the content came together, its path is not refused and there is
something to write. -/
theorem create_eq (order : Order) (tree : Tree) :
    create order tree =
      match content order tree with
      | .error failure => (.error failure, tree)
      | .ok file =>
        match path order.dir order.namespaceName order.image with
        | .error failure => (.error failure, tree)
        | .ok p =>
          if CredentialFile.entries file = [] then (.error .noCredentials, tree)
          else match persist p (dump file) tree with
            | (.ok (), after) => (.ok p, after)
            | (.error fault, after) => (.error (.ofPath (.persistence p ·) fault), after) := by
  unfold create
  cases hc : content order tree with
  | error failure => rfl
  | ok file =>
    simp only [write, draft_of_entries (get?_entriesKey_of_content hc)]
    cases path order.dir order.namespaceName order.image with
    | error failure => rfl
    | ok p =>
      by_cases he : CredentialFile.entries file = []
      · simp only [if_pos he]
      · cases hw : persist p (dump file) tree with
        | mk result after => cases result <;> simp only [if_neg he, hw]

/-- Content that does not come together is another failure than having nothing to write. -/
theorem content_ne_noCredentials (order : Order) (tree : Tree) :
    content order tree ≠ .error .noCredentials := by
  -- Reporting a failure in other words does not make it this one.
  have reading : ∀ failure, CredentialFile.loadGlobal tree order.home order.globalFile =
      .error failure → failure.readingGlobalFile ≠ .noCredentials := by
    intro failure h e
    have : failure = .noCredentials := by cases failure <;> first | rfl | cases e
    exact CredentialFile.loadGlobal_ne_noCredentials tree order.home order.globalFile (this ▸ h)
  rw [content_eq]
  split
  · intro h
    cases h
  · split
    · intro h
      cases h
    · split
      · next failure hl =>
        intro h
        exact reading failure hl (Except.error.inj h)
      · next global _ =>
        rw [ne_eq, Results.bind_eq_error_iff]
        rintro (hh | ⟨harvest, -, hm⟩)
        · cases (Harvest.ofSecrets_eq_error_iff.1 hh).2
        · cases merged : Merge.merge harvest.configs global order.image order.mirrors <;>
            simp [Except.mapError, merged] at hm

/-- There is nothing to write only if the merged entries are empty. -/
theorem create_eq_noCredentials_iff {order : Order} {tree : Tree} :
    (create order tree).1 = .error .noCredentials ↔
      ∃ file, content order tree = .ok file ∧ CredentialFile.entries file = [] ∧
        ∃ p, path order.dir order.namespaceName order.image = .ok p := by
  rw [create_eq]
  cases hc : content order tree with
  | error failure =>
    constructor
    · intro h
      exact absurd (hc.trans (congrArg _ (Except.error.inj h)))
        (content_ne_noCredentials order tree)
    · intro ⟨file, h, _⟩
      cases h
  | ok file =>
    cases hp : path order.dir order.namespaceName order.image with
    | error failure =>
      constructor
      · intro h
        exact absurd (hp.trans (congrArg _ (Except.error.inj h))) (path_ne_noCredentials _ _ _)
      · intro ⟨_, _, _, p, h⟩
        cases h
    | ok p =>
      by_cases he : CredentialFile.entries file = []
      · simp only [if_pos he, true_iff]
        exact ⟨file, rfl, he, p, rfl⟩
      · simp only [if_neg he]
        constructor
        · intro h
          split at h
          · cases h
          · next fault _ _ => cases fault <;> cases h
        · intro ⟨file', h, he', _⟩
          cases h
          exact absurd he' he

/-- Nothing is touched unless there is content with entries. -/
theorem tree_create_of_no_entries {order : Order} {tree : Tree}
    (h : ∀ file, content order tree = .ok file → CredentialFile.entries file = []) :
    (create order tree).2 = tree := by
  rw [create_eq]
  cases hc : content order tree with
  | error failure => rfl
  | ok file =>
    cases path order.dir order.namespaceName order.image with
    | error failure => rfl
    | ok p => simp only [if_pos (h file hc)]

/-- What was written to the path of a file is found there. -/
theorem read_of_persist {dir namespaceName image : Text} {p : Path} {content : Bytes}
    {t after : Tree} (hp : path dir namespaceName image = .ok p)
    (h : persist p content t = (.ok (), after)) : after.read p.toText = .ok content := by
  obtain ⟨place, put⟩ := (meets_persist (leadsToFiles_of_path hp) content t).of_ok rfl h
  exact put.read

/-- What is returned is the path, and the file there holds the merged content. -/
theorem read_of_create {order : Order} {tree after : Tree} {p : Path}
    (h : create order tree = (.ok p, after)) :
    path order.dir order.namespaceName order.image = .ok p ∧
      ∃ file, content order tree = .ok file ∧ CredentialFile.entries file ≠ [] ∧
        after.read p.toText = .ok (dump file) := by
  rw [create_eq] at h
  cases hc : content order tree with
  | error failure =>
    rw [hc] at h
    cases h
  | ok file =>
    rw [hc] at h
    cases hp : path order.dir order.namespaceName order.image with
    | error failure =>
      rw [hp] at h
      cases h
    | ok found =>
      simp only [hp] at h
      by_cases he : CredentialFile.entries file = []
      · rw [if_pos he] at h
        cases h
      · rw [if_neg he] at h
        split at h
        · next last hw =>
          cases h
          exact ⟨rfl, file, rfl, he, read_of_persist hp hw⟩
        · cases h

end PullAuth.AuthFile
