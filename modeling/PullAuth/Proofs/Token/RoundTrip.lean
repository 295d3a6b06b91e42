import PullAuth.Document
import PullAuth.Proofs.Bytes.Base64Url
import PullAuth.Proofs.Json.Order
import PullAuth.Proofs.Json.RoundTrip
import PullAuth.Proofs.Token.Reading
import PullAuth.Token.Writer

/-!
Tokens read back. A header, the claims and the bytes of a signature are written as three segments
and found again in the token (`claims_tokenOf`), whatever the layout of the documents is. So the
namespace that is found is the one that was claimed (`namespaceOf_tokenOf`), and neither the header,
the signature nor any other claim has an influence on it.
-/
namespace PullAuth

/-! ## The encoding of a segment -/

namespace Encoding

/-- No byte order mark begins with a character. -/
theorem not_isPrefixOf_of_mem_marks {mark : Bytes × Encoding} (h : mark ∈ marks) {a : UInt8}
    (rest : Bytes) (small : a.toNat < 0x80) (ha : a ≠ 0) :
    mark.1.isPrefixOf (a :: rest) = false := by
  have first : ∀ mark ∈ marks, ∃ b ∈ mark.1.head?, b = 0 ∨ 0x80 ≤ b.toNat := by decide
  obtain ⟨b, hb, outside⟩ := first mark h
  obtain ⟨others, e⟩ := List.head?_eq_some_iff.1 hb
  have differs : (b == a) = false := by
    rw [beq_eq_false_iff_ne]
    rintro rfl
    rcases outside with zero | large
    · exact ha zero
    · omega
  rw [e, List.isPrefixOf_cons_cons, differs, Bool.false_and]

theorem detect_eq_utf8 {a b : UInt8} (rest : Bytes) (small : a.toNat < 0x80) (ha : a ≠ 0)
    (hb : b ≠ 0) : detect (a :: b :: rest) = (utf8, a :: b :: rest) := by
  have unmarked : (marks.find? fun mark => mark.1.isPrefixOf (a :: b :: rest)) = none := by
    rw [List.find?_eq_none]
    intro mark h
    simp [not_isPrefixOf_of_mem_marks h (b :: rest) small ha]
  have zeros : ofZeros (a :: b :: rest) = utf8 := by
    rcases rest with _ | ⟨c, _ | ⟨d, rest⟩⟩
    · simp [ofZeros, ha, hb]
    · rfl
    · simp [ofZeros, ha, hb]
  rw [detect, unmarked, zeros]

/-- A text of ASCII that begins with two characters other than the null character is read as it
is. -/
theorem decodeDetected_ofAscii {c d : CodePoint} {t : Text} (ascii : Text.IsAscii (c :: d :: t))
    (hc : c.toNat ≠ 0) (hd : d.toNat ≠ 0) :
    decodeDetected (Bytes.ofAscii (c :: d :: t)) = some (c :: d :: t) := by
  have small := ascii c List.mem_cons_self
  have small' := ascii d (List.mem_cons_of_mem c List.mem_cons_self)
  have byte {n : Nat} (h : n < 0x80) : (UInt8.ofNat n).toNat = n :=
    Utf8.toNat_ofNat_byte (by omega)
  have ne_zero {n : Nat} (h : n < 0x80) (hn : n ≠ 0) : UInt8.ofNat n ≠ 0 := by
    intro e
    exact hn ((byte h).symm.trans (congrArg UInt8.toNat e))
  have found : detect (Bytes.ofAscii (c :: d :: t)) = (utf8, Bytes.ofAscii (c :: d :: t)) :=
    detect_eq_utf8 _ (by rw [byte small]; exact small) (ne_zero small hc) (ne_zero small' hd)
  rw [decodeDetected, found]
  exact Utf8.decode_ofAscii .lenient ascii

end Encoding

namespace Token

/-- A text that a document is written as, with any blanks and in any order of the members that
writing knows. A document has none if it has more levels than may be open at once. -/
def Written (v : Json) (t : Text) : Prop :=
  v.levels ≤ Json.levelLimit ∧ ∃ layout inOrder, Json.Layout.IsBlank layout ∧
    (Document.value v).write layout inOrder = .ok t

/-- A written object begins with a brace and another character. -/
theorem exists_write_object (layout : Json.Layout) (members : List (Text × Json)) :
    ∃ d rest, Json.write layout (.object members) = .ofChar '{' :: d :: rest ∧ d.toNat ≠ 0 := by
  cases members with
  | nil => exact ⟨.ofChar '}', [], rfl, by decide⟩
  | cons m members =>
    cases layout with
    | oneLine => exact ⟨.ofChar '"', _, rfl, by decide⟩
    | indented step => exact ⟨.ofChar '\n', _, rfl, by decide⟩

theorem membersOf_write {layout : Json.Layout} (hl : layout.IsBlank)
    {members : List (Text × Json)} (h : Json.Legible (.object members))
    (shallow : (Json.object members).levels ≤ Json.levelLimit) :
    membersOf (Bytes.ofAscii (Json.write layout (.object members))) = .ok members := by
  obtain ⟨d, rest, text, hd⟩ := exists_write_object layout members
  have ascii := Json.isAscii_write hl (.object members)
  have back := Json.read_write hl h shallow
  rw [text] at ascii back ⊢
  have decoded := Encoding.decodeDetected_ofAscii ascii (by decide) hd
  simp only [membersOf, decoded, Option.map_some, back]

/-- What is read back from a written object holds the same values, or the same values sorted. -/
theorem exists_membersOf_of_written {members : List (Text × Json)} {t : Text}
    (h : Json.Legible (.object members)) (hw : Written (.object members) t) :
    ∃ found, membersOf (Bytes.ofAscii t) = .ok found ∧
      ((∀ key, Keyed.get? key found = Keyed.get? key members) ∨
        ∀ key, Keyed.get? key found = (Keyed.get? key members).map Json.sorted) := by
  obtain ⟨shallow, layout, inOrder, blank, written⟩ := hw
  cases inOrder with
  | false =>
    cases written
    exact ⟨members, membersOf_write blank h shallow, .inl fun key => rfl⟩
  | true =>
    cases written
    have legible := Json.legible_sorted h
    have shallow' := (Json.levels_sorted_le h).trans shallow
    rw [Json.sorted_object] at legible shallow'
    refine ⟨_, ?_, .inr (Json.get?_sorted h.nodup)⟩
    show membersOf (Bytes.ofAscii (Json.write layout (Json.object members).sorted)) = _
    rw [Json.sorted_object]
    exact membersOf_write blank legible shallow'

/-! ## Segments -/

/-- The token of two written documents and a signature. -/
def tokenOf (head body : Text) (signature : Bytes) : Text :=
  Text.join "." [Base64Url.encode (Bytes.ofAscii head), Base64Url.encode (Bytes.ofAscii body),
    Base64Url.encode signature]

theorem compose_eq (header claims : Json) (signature : Bytes) :
    compose header claims signature =
      tokenOf (header.write .oneLine) (claims.write .oneLine) signature := rfl

theorem tokenOf_eq (head body : Text) (signature : Bytes) :
    tokenOf head body signature = Base64Url.encode (Bytes.ofAscii head) ++ .ofChar '.' ::
      (Base64Url.encode (Bytes.ofAscii body) ++ .ofChar '.' :: Base64Url.encode signature) := by
  simp only [tokenOf, Text.join, List.intercalate_cons_cons, List.intercalate_singleton,
    List.append_assoc]
  rfl

theorem isAscii_tokenOf (head body : Text) (signature : Bytes) :
    (tokenOf head body signature).IsAscii := by
  have segment (bs : Bytes) : (Base64Url.encode bs).IsAscii := fun c hc =>
    (Base64Url.of_mem_encode hc).1
  have behind (bs : Bytes) {t : Text} (ht : t.IsAscii) :
      Text.IsAscii (Base64Url.encode bs ++ .ofChar '.' :: t) :=
    (segment bs).append (List.forall_mem_cons.2 ⟨by decide, ht⟩)
  rw [tokenOf_eq]
  exact behind _ (behind _ (segment _))

/-- The segments of the documents make a token with the claims. -/
theorem claims_tokenOf {head body : Text} {header members : Keyed Json}
    (hh : membersOf (Bytes.ofAscii head) = .ok header) (admissible : Admissible header)
    (hb : membersOf (Bytes.ofAscii body) = .ok members) (signature : Bytes) :
    claims (Bytes.ofAscii (tokenOf head body signature)) = .ok members := by
  have segment (bs : Bytes) : Base64Url.IsSegment (Base64Url.encode bs) bs := .inl rfl
  rw [tokenOf_eq]
  rw [claims_of_segments (segment _) (segment _) (segment signature), hh]
  simp only [bind, Except.bind, headerFault?_eq_none_iff.2 admissible, Option.elim_none, hb]

/-! ## Assertions -/

/-- The claims say that the namespace is `namespaceName`, in a token that can be read: the header
names no key that is not a string and no extension, and both documents can be written. -/
structure Asserts (header claims : List (Text × Json)) (namespaceName : Text) : Prop where
  legibleHeader : Json.Legible (.object header)
  legibleClaims : Json.Legible (.object claims)
  kid : ∀ kid, Keyed.get? "kid" header = some kid → kid.isString = true
  crit : Keyed.get? "crit" header = none
  b64 : Keyed.get? "b64" header = none
  namespaceClaim : ∃ claim, Keyed.get? claimKey claims = some (.object claim) ∧
    Keyed.get? "namespace" claim = some (.string namespaceName)

theorem namespaceIn_eq {claims claim : Keyed Json} {namespaceName : Text}
    (hc : Keyed.get? claimKey claims = some (.object claim))
    (hn : Keyed.get? "namespace" claim = some (.string namespaceName)) :
    namespaceIn claims = .ok namespaceName := by
  simp only [namespaceIn, hc, hn]

theorem isString_sorted (v : Json) : v.sorted.isString = v.isString := by
  cases v <;> simp [Json.sorted, Json.isString]

section
variable {header claims : List (Text × Json)} {namespaceName : Text}
  (h : Asserts header claims namespaceName)
include h

/-- Sorting the members changes nothing that the header is looked at for. -/
theorem Asserts.admissible {found : Keyed Json}
    (hf : (∀ key, Keyed.get? key found = Keyed.get? key header) ∨
      ∀ key, Keyed.get? key found = (Keyed.get? key header).map Json.sorted) :
    Admissible found := by
  have absent {key : Text} (hk : Keyed.get? key header = none) : Keyed.get? key found = none := by
    rcases hf with same | sorted
    · rw [same, hk]
    · rw [sorted, hk]
      rfl
  refine ⟨fun kid hk => isString_iff.1 ?_, fun crit hc => ?_, ?_⟩
  · rcases hf with same | sorted
    · exact h.kid kid (same "kid" ▸ hk)
    · rw [sorted] at hk
      obtain ⟨v, hv, rfl⟩ := Option.map_eq_some_iff.1 hk
      rw [isString_sorted]
      exact h.kid v hv
  · rw [absent h.crit] at hc
    cases hc
  · rw [absent h.b64]
    exact nofun

theorem Asserts.namespaceIn_eq {found : Keyed Json}
    (hf : (∀ key, Keyed.get? key found = Keyed.get? key claims) ∨
      ∀ key, Keyed.get? key found = (Keyed.get? key claims).map Json.sorted) :
    namespaceIn found = .ok namespaceName := by
  obtain ⟨claim, hc, hn⟩ := h.namespaceClaim
  rcases hf with same | sorted
  · exact Token.namespaceIn_eq ((same claimKey).trans hc) hn
  · have legible := h.legibleClaims.get? hc
    have found_claim : Keyed.get? claimKey found =
        some (.object (Keyed.sorted (claim.map fun m => (m.1, m.2.sorted)))) := by
      rw [sorted, hc, Option.map_some, Json.sorted_object]
    apply Token.namespaceIn_eq found_claim
    rw [Json.get?_sorted legible.nodup, hn]
    rfl

/-- The namespace that the claims say is found, whatever the layout of the documents is. -/
theorem Asserts.namespaceOf_eq {head body : Text} (hh : Written (.object header) head)
    (hb : Written (.object claims) body) (signature : Bytes) :
    namespaceOf (tokenOf head body signature) = .ok namespaceName := by
  obtain ⟨readHeader, header_eq, header_found⟩ := exists_membersOf_of_written h.legibleHeader hh
  obtain ⟨readClaims, claims_eq, claims_found⟩ := exists_membersOf_of_written h.legibleClaims hb
  have ascii := isAscii_tokenOf head body signature
  have present : (tokenOf head body signature).isEmpty = false := by
    rw [List.isEmpty_eq_false_iff, tokenOf_eq]
    simp
  have read := claims_tokenOf header_eq (h.admissible header_found) claims_eq signature
  rw [namespaceOf, present, Utf8.encode?_of_isAscii ascii]
  show Token.claims (Bytes.ofAscii (tokenOf head body signature)) >>= namespaceIn = _
  rw [read]
  exact h.namespaceIn_eq claims_found

end

/-- The header of a token that names its key. -/
def sampleHeader : List (Text × Json) := [("alg", .string "RS256"), ("kid", .string "k1")]

/-- The claims of a token that expired long ago. -/
def sampleClaims : List (Text × Json) :=
  [("exp", .int 0), ("kubernetes.io", .object [("pod", .null), ("namespace", .string "team-a")])]

end Token

end PullAuth
