import PullAuth.Proofs.AuthFile.Confinement
import PullAuth.Proofs.Document.Order

/-!
The bytes of a credential file do not depend on the order in which a document has its members.
Alike documents are written in one way, whatever becomes of it (`write_of_alike`). What is in the
file then is the text of the document with the keys of every object in ascending order, and writing
it once more changes nothing (`write_canonical`).
-/
namespace PullAuth.AuthFile

/-- The bytes in a file are those of the value that is written for a document in order. -/
theorem exists_of_bytesOf {contents : Document} {bytes : Bytes} (h : bytesOf contents = .ok bytes) :
    ∃ v, contents.inOrder = .ok v ∧
      Utf8.encode? (Json.write (.indented "\t") v) = some bytes := by
  obtain ⟨text, written, encoded⟩ := bytesOf_eq_ok_iff.1 h
  have ordered : contents.inOrder.map (Json.write (.indented "\t")) = .ok text := written
  obtain ⟨v, hv, rfl⟩ := Results.map_eq_ok_iff.1 ordered
  exact ⟨v, hv, encoded⟩

section
variable {contents other : Document} (alike : contents.Alike other)
include alike

theorem bytesOf_of_alike : bytesOf contents = bytesOf other := by
  show (contents.inOrder.map (Json.write (.indented "\t"))).map Bytes.ofAscii = _
  rw [alike.inOrder_eq]
  rfl

/-- Alike documents are written in one way. -/
theorem write_of_alike (dir namespaceName image : Text) :
    write dir namespaceName image contents = write dir namespaceName image other := by
  have entries : hasEntries contents = hasEntries other := by
    rw [hasEntries, hasEntries, alike.isPresent_member?_eq]
  have drafts : draft dir namespaceName image contents = draft dir namespaceName image other := by
    rw [draft, draft, alike.isObject_eq, entries, bytesOf_of_alike alike]
  funext tree
  rw [write, write, drafts]

/-- Wherever one of two alike documents is written, it goes to the path of the other and puts the
same bytes there. -/
theorem puts_of_write_alike {dir namespaceName image : Text} {p found : Path} {bytes : Bytes}
    {before after : Tree} (hp : path dir namespaceName image = .ok p)
    (hb : bytesOf contents = .ok bytes)
    (h : write dir namespaceName image other before = (.ok found, after)) :
    found = p ∧ ∃ place, Tree.Puts p.toText place (fileMode, bytes) before after := by
  obtain ⟨hp', bytes', hb', place, put⟩ := puts_of_write h
  obtain rfl : found = p := Except.ok.inj (hp'.symm.trans hp)
  rw [← bytesOf_of_alike alike, hb] at hb'
  obtain rfl : bytes = bytes' := Except.ok.inj hb'
  exact ⟨rfl, place, put⟩

/-- Documents that differ in the order of members only are written in the same way. The file then
holds the text of a value that is that of the document but for the order of members, and in which
the keys of every object ascend by code points. Each of the two documents is written to the same
path with the same bytes into any tree, and to write it again, with or without success, leaves the
file and every other as they are. -/
theorem write_canonical (dir namespaceName image : Text) :
    write dir namespaceName image contents = write dir namespaceName image other ∧
      ∀ before after p, write dir namespaceName image contents before = (.ok p, after) →
        ∃ v bytes, contents.Orders v ∧
          Utf8.encode? (Json.write (.indented "\t") v) = some bytes ∧
          (v.Legible → Json.read? (Json.write (.indented "\t") v) = some v) ∧
          after.read p.toText = .ok bytes ∧
          (∀ tree last found, write dir namespaceName image other tree = (.ok found, last) →
            found = p ∧ last.read p.toText = .ok bytes) ∧
          ∀ result last, write dir namespaceName image other after = (result, last) →
            Tree.SameFiles after last ∧ last.read p.toText = .ok bytes := by
  refine ⟨write_of_alike alike dir namespaceName image, ?_⟩
  intro before after p written
  obtain ⟨hp, bytes, hb, place, put⟩ := puts_of_write written
  obtain ⟨v, ordered, encoded⟩ := exists_of_bytesOf hb
  refine ⟨v, bytes, alike.orders v ordered, encoded, ?_, put.read, ?_, ?_⟩
  · exact Json.read?_write Json.Layout.isBlank_tabs
  · intro tree last found h
    obtain ⟨same, _, put'⟩ := puts_of_write_alike alike hp hb h
    exact ⟨same, put'.read⟩
  · intro result last h
    have kept : Tree.SameFiles after last := by
      cases result with
      | ok found =>
        obtain ⟨-, _, put'⟩ := puts_of_write_alike alike hp hb h
        exact put.again put'
      | error failure => exact sameFiles_of_write h
    exact ⟨kept, (put.keep kept).read⟩

end

/-- A document with two credentials. The second name has the lower code point, and its escape comes
after the one of the first. -/
def tildeLast : Document :=
  .object [("auths", .object [("😀", .credential ⟨"v", "q"⟩), ("～", .credential ⟨"u", "p"⟩)])]

def tildeFirst : Document :=
  .object [("auths", .object [("～", .credential ⟨"u", "p"⟩), ("😀", .credential ⟨"v", "q"⟩)])]

/-- What is written for both. -/
def tildeValue : Json :=
  .object [("auths", .object [("～", .object [("auth", .string "dTpw")]),
    ("😀", .object [("auth", .string "djpx")])])]

theorem tildeLast_alike : tildeLast.Alike tildeFirst := by
  refine .object rfl rfl (by decide) (.refl _) ?_
  intro m hm other ho _
  rw [List.mem_singleton.1 hm, List.mem_singleton.1 ho]
  refine .of_perm (.swap _ _ _) (by decide) ?_
  simp [Document.Alike.credential]

theorem inOrder_tildeLast : tildeLast.inOrder = .ok tildeValue := by
  have inner (a b : Document) :
      Keyed.sorted [("～", a), ("😀", b)] = ([("～", a), ("😀", b)] : Keyed Document) := by
    apply List.mergeSort_of_pairwise
    rw [List.pairwise_pair]
    show Text.notAfter "～" "😀" = true
    decide
  have outer (a : Document) : Keyed.sorted [("auths", a)] = ([("auths", a)] : Keyed Document) :=
    List.mergeSort_singleton _
  rw [tildeLast_alike.inOrder_eq]
  simp only [tildeFirst, Document.inOrder, Document.sorted, Document.sortedMembers, inner, outer]
  rfl

theorem exists_write_tildeLast :
    ∃ after, write "/auth" "team" "quay.io/app" tildeLast {} = (.ok fileOfTeam, after) := by
  have found : (path "/auth" "team" "quay.io/app").toOption = some fileOfTeam := by
    decide +kernel
  have bytes : bytesOf tildeLast =
      .ok (Bytes.ofAscii (Json.write (.indented "\t") tildeValue)) := by
    show (tildeLast.inOrder.map _).map _ = _
    rw [inOrder_tildeLast]
    rfl
  have drafted := draft_eq_ok_iff.2
    ⟨Results.toOption_eq_some_iff.1 found, rfl, by decide, bytes⟩
  have returned : (persist fileOfTeam
      (Bytes.ofAscii (Json.write (.indented "\t") tildeValue)) {}).1.toOption = some () := by
    decide +kernel
  rw [Results.toOption_eq_some_iff] at returned
  cases hp : persist fileOfTeam (Bytes.ofAscii (Json.write (.indented "\t") tildeValue)) {} with
  | mk result after =>
    rw [hp] at returned
    obtain rfl : result = .ok () := returned
    exact ⟨after, by simp only [write, drafted, hp]⟩

theorem write_canonical_tilde :
    ∃ after v bytes, write "/auth" "team" "quay.io/app" tildeLast {} = (.ok fileOfTeam, after) ∧
      tildeLast.Orders v ∧ Utf8.encode? (Json.write (.indented "\t") v) = some bytes ∧
      after.read fileOfTeam.toText = .ok bytes ∧
      ∀ result last, write "/auth" "team" "quay.io/app" tildeFirst after = (result, last) →
        Tree.SameFiles after last := by
  obtain ⟨after, written⟩ := exists_write_tildeLast
  obtain ⟨v, bytes, orders, encoded, -, read, -, again⟩ :=
    (write_canonical tildeLast_alike "/auth" "team" "quay.io/app").2 {} after fileOfTeam written
  exact ⟨after, v, bytes, written, orders, encoded, read, fun result last h =>
    (again result last h).1⟩

end PullAuth.AuthFile
