import PullAuth.Proofs.AuthFile.Outcome
import PullAuth.Proofs.Json.RoundTrip

/-!
Writing a credential file is all or nothing. Whatever is refused or fails, every regular file is as
it was and none is added; directories may have been made. If a path is returned, the file there
holds the encoded text of the document and nothing else is changed (`write_all_or_nothing`).
-/
namespace PullAuth.AuthFile

theorem isAscii_of_write {contents : Document} {inOrder : Bool} {text : Text}
    (h : contents.write (.indented "\t") inOrder = .ok text) : text.IsAscii := by
  unfold Document.write at h
  cases hv : (if inOrder then contents.sorted else contents).toJson with
  | error fault =>
    rw [hv] at h
    cases h
  | ok v =>
    rw [hv] at h
    cases h
    exact Json.isAscii_write Json.Layout.isBlank_tabs v

/-- The bytes of a document in a file encode its text. -/
theorem bytesOf_eq_ok_iff {contents : Document} {bytes : Bytes} :
    bytesOf contents = .ok bytes ↔
      ∃ text, contents.write (.indented "\t") true = .ok text ∧ Utf8.encode? text = some bytes := by
  unfold bytesOf
  cases h : contents.write (.indented "\t") true with
  | error fault => simp [Except.map]
  | ok text =>
    have encoded := Utf8.encode?_of_isAscii (isAscii_of_write h)
    simp [Except.map, encoded]

theorem draft_eq_ok_iff {dir namespaceName image : Text} {contents : Document} {p : Path}
    {bytes : Bytes} :
    draft dir namespaceName image contents = .ok (p, bytes) ↔
      path dir namespaceName image = .ok p ∧ contents.isObject = true ∧
        hasEntries contents = true ∧ bytesOf contents = .ok bytes := by
  unfold draft
  cases path dir namespaceName image with
  | error failure => simp [bind, Except.bind]
  | ok found =>
    cases contents.isObject <;> cases hasEntries contents <;> cases bytesOf contents <;>
      simp [bind, Except.bind, throw, throwThe, MonadExceptOf.throw, Except.mapError, pure,
        Except.pure]

/-- How writing can end: with every regular file as it was, or with the bytes of the document at the
path. -/
theorem write_outcome (dir namespaceName image : Text) (contents : Document) (before : Tree) :
    match write dir namespaceName image contents before with
    | (.error _, after) => Tree.SameFiles before after
    | (.ok p, after) =>
      path dir namespaceName image = .ok p ∧ ∃ bytes, bytesOf contents = .ok bytes ∧
        ∃ place, Tree.Puts p.toText place (fileMode, bytes) before after := by
  unfold write
  cases hd : draft dir namespaceName image contents with
  | error failure => exact Tree.SameFiles.refl before
  | ok drafted =>
    obtain ⟨p, bytes⟩ := drafted
    obtain ⟨hp, -, -, hb⟩ := draft_eq_ok_iff.1 hd
    have ended := meets_persist (leadsToFiles_of_path hp) bytes before
    cases h : persist p bytes before with
    | mk result after =>
      cases result with
      | error fault =>
        simp only [h]
        exact ended.of_error rfl h
      | ok =>
        simp only [h]
        exact ⟨hp, bytes, hb, ended.of_ok rfl h⟩

section
variable {dir namespaceName image : Text} {contents : Document} {before after : Tree}

theorem puts_of_write {p : Path}
    (h : write dir namespaceName image contents before = (.ok p, after)) :
    path dir namespaceName image = .ok p ∧ ∃ bytes, bytesOf contents = .ok bytes ∧
      ∃ place, Tree.Puts p.toText place (fileMode, bytes) before after := by
  have ended := write_outcome dir namespaceName image contents before
  rw [h] at ended
  exact ended

theorem sameFiles_of_write {failure : Failure}
    (h : write dir namespaceName image contents before = (.error failure, after)) :
    Tree.SameFiles before after := by
  have ended := write_outcome dir namespaceName image contents before
  rw [h] at ended
  exact ended

end

/-- If writing a credential file fails, every regular file is as it was. If it returns a path, that
is the one for the namespace and the image; it leads to a file that only its owner may read and
write, and that holds the encoded text of the document, indented by tabs and with sorted keys; and
every other regular file is as it was. -/
theorem write_all_or_nothing (dir namespaceName image : Text) (contents : Document)
    (before : Tree) :
    match write dir namespaceName image contents before with
    | (.error _, after) => Tree.SameFiles before after
    | (.ok p, after) =>
      path dir namespaceName image = .ok p ∧
        ∃ text bytes, contents.write (.indented "\t") true = .ok text ∧
          Utf8.encode? text = some bytes ∧
            ∃ place, Tree.Puts p.toText place (0o600, bytes) before after := by
  have ended := write_outcome dir namespaceName image contents before
  cases hw : write dir namespaceName image contents before with
  | mk result after =>
    rw [hw] at ended
    cases result with
    | error failure => exact ended
    | ok p =>
      obtain ⟨hp, bytes, hb, put⟩ := ended
      obtain ⟨text, written, encoded⟩ := bytesOf_eq_ok_iff.1 hb
      exact ⟨hp, text, bytes, written, encoded, put⟩

/-- A document with one credential. -/
def smallDocument : Document :=
  .value (.object [("auths", .object [("quay.io", .object [("auth", .string "dTpw")])])])

/-- With room for three bytes the directory is made, and no file is left in it. -/
example : (write "/auth" "team" "quay.io/app" smallDocument
    { limits := { room := some 3 } }).2.nodes =
      [([Bytes.ofAscii "auth"], .directory 0o700)] := by
  decide +kernel

end PullAuth.AuthFile
