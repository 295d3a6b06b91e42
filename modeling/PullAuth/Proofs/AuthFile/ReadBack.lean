import PullAuth.Proofs.AuthFile.Confinement
import PullAuth.Proofs.AuthFile.Totality
import PullAuth.Proofs.CredentialFile.WellFormed
import PullAuth.Proofs.Merge.Stepwise

/-!
Credential files that are written and loaded again. A well-formed file is read back from the bytes
that are written of it, with its members in order (`ofBytes_dump`), and the path that writing
returns is the one from which loading reads (`isCanonical_path`). So what was merged and written is
loaded as the same document (`loadGlobal_of_write`).
-/
namespace PullAuth

namespace CredentialFile

/-- A well-formed file is read back from the bytes that are written of it, if there is room for its
levels. -/
theorem ofBytes_dump {file : CredentialFile} (h : WellFormed file)
    (shallow : (Json.object file).levels ≤ Json.levelLimit) (source : Text) :
    ofBytes source (AuthFile.dump file) = .ok (inOrder file) := by
  have sorted : (Json.object file).sorted = .object (inOrder file) := Json.sorted_object file
  have ordered := wellFormed_inOrder h
  have fits : Schema.credentialFile.misfit? Kinds.credentialFile source (.object (inOrder file)) =
      none := by
    rw [Schema.misfit?, Option.map_eq_none_iff, Schema.check_eq_none_iff]
    exact violations_credentialFile_iff.2 ⟨_, rfl, ordered.fits⟩
  have ascii := Json.isAscii_write Json.Layout.isBlank_tabs (.object (inOrder file))
  have shallow' := (Json.levels_sorted_le h.legible).trans shallow
  rw [sorted] at shallow'
  rw [AuthFile.dump, sorted, ofBytes, Utf8.decode_ofAscii .strict ascii]
  simp only [ofText, readDocument,
    Json.read_write Json.Layout.isBlank_tabs ordered.legible shallow', ofJson, fits]
  rw [Json.members, withEntries_of_wellFormed ordered]
  rfl

end CredentialFile

namespace AuthFile

/-- After a file was written, its path leads to a file that holds the document. -/
theorem read_of_write {dir namespaceName image : Text} {file : CredentialFile} {p : Path}
    {before after : Tree}
    (h : write dir namespaceName image (.value (.object file)) before = (.ok p, after)) :
    path dir namespaceName image = .ok p ∧ after.read p.toText = .ok (dump file) := by
  obtain ⟨hp, bytes, hb, place, put⟩ := puts_of_write h
  rw [bytesOf_object] at hb
  cases hb
  exact ⟨hp, put.read⟩

/-- What is loaded from the path of a file is what was read from its bytes. -/
theorem loadGlobal_of_read {tree : Tree} {p : Path} {bytes : Bytes} {file : CredentialFile}
    (hp : p.IsCanonical) (hr : tree.read p.toText = .ok bytes)
    (hb : CredentialFile.ofBytes p.toText bytes = .ok file) (home : Option Text) :
    CredentialFile.loadGlobal tree home p.toText = .ok file := by
  have present : p.toText.isEmpty = false := by
    rw [Path.toText_eq (by rcases hp.root with e | e <;> rw [e] <;> decide)]
    rcases hp.root with e | e <;> rw [e] <;> rfl
  have same : CredentialFile.pathOf home p.toText = .ok p := by
    rw [CredentialFile.pathOf, present, Path.ofText_toText hp]
    rfl
  have loaded : CredentialFile.load? tree p = .ok (some file) := by
    simp only [CredentialFile.load?, hr, hb]
    rfl
  rw [CredentialFile.loadGlobal_eq, same]
  simp only [loaded]
  rfl

/-- What is merged over a global file fits the schema of credential files, and once it is written
it is loaded from its path as the same document. -/
theorem loadGlobal_of_write {source : Text} {bytes : Bytes} {global merged : CredentialFile}
    {secrets : List Secret} {harvest : Harvest} {image : Text} {mirrors : List Text}
    (hg : CredentialFile.ofBytes source bytes = .ok global)
    (hs : Harvest.ofSecrets secrets = .ok harvest)
    (hm : Merge.merge harvest.configs global image mirrors = .ok merged) :
    Schema.credentialFile.violations (.object merged) = [] ∧
      ∀ (dir namespaceName imageName : Text) (before after : Tree) (p : Path) (home : Option Text),
        write dir namespaceName imageName (.value (.object merged)) before = (.ok p, after) →
        ∃ loaded, CredentialFile.loadGlobal after home p.toText = .ok loaded ∧
          Json.Alike (.object merged) (.object loaded) := by
  have formed := Merge.wellFormed_of_merge (CredentialFile.wellFormed_of_ofBytes hg) hs hm
  have shallow := (Merge.canCopy_iff.1 (Merge.canCopy_of_merge hm)).trans Merge.copyLimit_le
  constructor
  · exact CredentialFile.violations_credentialFile_iff.2 ⟨merged, rfl, formed.fits⟩
  · intro dir namespaceName imageName before after p home written
    obtain ⟨hp, hr⟩ := read_of_write written
    have back := CredentialFile.ofBytes_dump formed shallow p.toText
    exact ⟨CredentialFile.inOrder merged, loadGlobal_of_read (isCanonical_path hp) hr back home,
      CredentialFile.alike_inOrder formed⟩

/-- Where all is in order a document with entries is written. -/
theorem exists_write {order : Order} {secrets : List Secret} {digest : Text} {tree : Tree}
    (h : InOrder order secrets digest tree) {file : CredentialFile} (formed : file.WellFormed)
    (he : CredentialFile.entries file ≠ []) :
    ∃ p after, write order.dir order.namespaceName order.image (.value (.object file)) tree =
      (.ok p, after) := by
  have path_ok := path_eq_child h.namespaceName h.image h.digested h.absolute
  obtain ⟨bs, name, short⟩ := exists_fileName h.namespaceName h.digested
  obtain ⟨after, written⟩ := exists_persist (Path.root_ofText_cases h.absolute) name short
    h.writable (dump file)
  refine ⟨(Path.ofText order.dir).child (fileName order.namespaceName digest), after, ?_⟩
  simp only [write, draft_of_entries (CredentialFile.wellFormed_entries formed).1, path_ok,
    if_neg he, written]

/-- A global file with nested members that are not in order: a double, a character outside the
first plane, and a lone first half of a pair behind it. -/
def nestedGlobal : Bytes :=
  Bytes.ofAscii (Json.write .oneLine (.object [
    ("list", .array [.int (-7), .double (.ofDecimal false 25 (-1)), .null]),
    ("auths", .object []),
    ("inner", .object [("b", .bool true),
      ("a", .string [⟨0x1F511, by decide⟩, ⟨0xD83D, by decide⟩])])]))

theorem loadGlobal_of_write_nested :
    ∃ global harvest merged p after loaded,
      CredentialFile.ofBytes "global" nestedGlobal = .ok global ∧
      Harvest.ofSecrets [.holding usualEntries] = .ok harvest ∧
      Merge.merge harvest.configs global "quay.io/app" [] = .ok merged ∧
      Schema.credentialFile.violations (.object merged) = [] ∧
      write "/auth" "team" "quay.io/app" (.value (.object merged)) {} = (.ok p, after) ∧
      CredentialFile.loadGlobal after none p.toText = .ok loaded ∧
      Json.Alike (.object merged) (.object loaded) := by
  have runs : ((CredentialFile.ofBytes "global" nestedGlobal).toOption.bind fun global =>
      (Harvest.ofSecrets [.holding usualEntries]).toOption.bind fun harvest =>
        (Merge.merge harvest.configs global "quay.io/app" []).toOption.bind fun merged =>
          (CredentialFile.entries merged).head?).isSome = true := by decide +kernel
  obtain ⟨entry, he⟩ := Option.isSome_iff_exists.1 runs
  obtain ⟨global, hg, he⟩ := Option.bind_eq_some_iff.1 he
  obtain ⟨harvest, hs, he⟩ := Option.bind_eq_some_iff.1 he
  obtain ⟨merged, hm, he⟩ := Option.bind_eq_some_iff.1 he
  rw [Results.toOption_eq_some_iff] at hg hs hm
  have formed := Merge.wellFormed_of_merge (CredentialFile.wellFormed_of_ofBytes hg) hs hm
  have present : CredentialFile.entries merged ≠ [] := fun e => by
    rw [e] at he
    cases he
  obtain ⟨p, after, written⟩ := exists_write (inOrder_orderHolding usualEntries) formed present
  obtain ⟨fits, back⟩ := loadGlobal_of_write hg hs hm
  obtain ⟨loaded, hl, alike⟩ := back "/auth" "team" "quay.io/app" {} after p none written
  exact ⟨global, harvest, merged, p, after, loaded, hg, hs, hm, fits, written, hl, alike⟩

end AuthFile

end PullAuth
