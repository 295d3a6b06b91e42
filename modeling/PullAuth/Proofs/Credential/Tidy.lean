import PullAuth.Credential
import PullAuth.Proofs.Bytes.Base64
import PullAuth.Proofs.Text.Kept

/-!
Credentials as bytes. A credential is cut out of bytes as it is cut out of their text: the name is
what stands before the first colon, and the password is what stands behind it, without null bytes at
its ends (`ofBytes_of_colon`). Writing a credential that was read puts just those parts together
again (`tidy`, `encode?_ofBytes`), and they are read as the same credential (`ofBytes_tidy`). So a
credential is read back as it was written exactly if it is one that bytes are read as
(`decode_of_encode?`), and which those are is said by `exists_ofBytes_iff`.
-/
namespace PullAuth.Credential

open Utf8 (keep)

/-- The bytes that are written for the credential in bytes. -/
def tidy (raw : Bytes) : Bytes :=
  match Text.cut? (0x3A : UInt8) raw with
  | some (name, password) => name ++ 0x3A :: withoutEnds 0 password
  | none => [0x3A]

/-! ## Reading bytes -/

theorem colon_mem_keep_iff (raw : Bytes) : (':' : CodePoint) ∈ keep raw ↔ (0x3A : UInt8) ∈ raw :=
  (Utf8.mem_encodeKept?_iff (b := 0x3A) (Utf8.encodeKept?_keep raw) (by decide)).symm

/-- The text of bytes is cut where the bytes are. -/
theorem cut?_keep (raw : Bytes) :
    Text.cut? (':' : CodePoint) (keep raw) =
      (Text.cut? (0x3A : UInt8) raw).map (Prod.map keep keep) := by
  cases hc : Text.cut? (0x3A : UInt8) raw with
  | none =>
    have absent := Text.cut?_eq_none_iff.1 hc
    rw [← colon_mem_keep_iff] at absent
    exact Text.cut?_eq_none_iff.2 absent
  | some parts =>
    obtain ⟨rfl, absent⟩ := Text.cut?_eq_some_iff.1 hc
    rw [← colon_mem_keep_iff] at absent
    exact Text.cut?_eq_some_iff.2 ⟨Utf8.keep_append (by decide) parts.1 parts.2, absent⟩

theorem trim_keep (bs : Bytes) : Text.trim (· = '\x00') (keep bs) = keep (withoutEnds 0 bs) :=
  Utf8.withoutEnds_keep (a := 0) (by decide) bs

theorem ofBytes_of_colon {name : Bytes} (absent : (0x3A : UInt8) ∉ name) (password : Bytes) :
    ofBytes (name ++ 0x3A :: password) = ⟨keep name, keep (withoutEnds 0 password)⟩ := by
  have cut := cut?_keep (name ++ 0x3A :: password)
  rw [Text.cut?_eq_some_iff.2 ⟨rfl, absent⟩, keep] at cut
  unfold ofBytes
  simp only [cut]
  exact congrArg (Credential.mk (keep name)) (trim_keep password)

theorem ofBytes_of_no_colon {raw : Bytes} (absent : (0x3A : UInt8) ∉ raw) : ofBytes raw = {} := by
  have cut := cut?_keep raw
  rw [Text.cut?_eq_none_iff.2 absent, keep] at cut
  unfold ofBytes
  simp only [cut]
  rfl

theorem tidy_of_colon {name : Bytes} (absent : (0x3A : UInt8) ∉ name) (password : Bytes) :
    tidy (name ++ 0x3A :: password) = name ++ 0x3A :: withoutEnds 0 password := by
  rw [tidy, Text.cut?_eq_some_iff.2 ⟨rfl, absent⟩]

theorem tidy_of_no_colon {raw : Bytes} (absent : (0x3A : UInt8) ∉ raw) : tidy raw = [0x3A] := by
  rw [tidy, Text.cut?_eq_none_iff.2 absent]

/-- Bytes have a first colon or none. -/
theorem colon_cases (raw : Bytes) :
    (∃ name password, raw = name ++ 0x3A :: password ∧ (0x3A : UInt8) ∉ name) ∨
      (0x3A : UInt8) ∉ raw := by
  cases hc : Text.cut? (0x3A : UInt8) raw with
  | none => exact .inr (Text.cut?_eq_none_iff.1 hc)
  | some parts => exact .inl ⟨parts.1, parts.2, Text.cut?_eq_some_iff.1 hc⟩

/-! ## Writing what was read -/

/-- A credential is written as its parts are. -/
theorem encode?_eq_some {username password : Text} {a b : Bytes}
    (ha : Utf8.encodeKept? username = some a) (hb : Utf8.encodeKept? password = some b) :
    encode? ⟨username, password⟩ = some (Base64.encode (a ++ 0x3A :: b)) := by
  have colon : Utf8.encodeKept? (":" : Text) = some [0x3A] := rfl
  have whole := Utf8.encodeKept?_append_eq_some (Utf8.encodeKept?_append_eq_some ha colon) hb
  rw [encode?, whole, List.append_assoc]
  rfl

theorem encode?_keep (name password : Bytes) :
    encode? ⟨keep name, keep password⟩ = some (Base64.encode (name ++ 0x3A :: password)) :=
  encode?_eq_some (Utf8.encodeKept?_keep name) (Utf8.encodeKept?_keep password)

theorem encode?_ofBytes (raw : Bytes) :
    (ofBytes raw).encode? = some (Base64.encode (tidy raw)) := by
  obtain ⟨name, password, rfl, absent⟩ | absent := colon_cases raw
  · rw [ofBytes_of_colon absent, tidy_of_colon absent, encode?_keep]
  · rw [ofBytes_of_no_colon absent, tidy_of_no_colon absent]
    exact encode?_keep [] []

theorem ofBytes_tidy (raw : Bytes) : ofBytes (tidy raw) = ofBytes raw := by
  obtain ⟨name, password, rfl, absent⟩ | absent := colon_cases raw
  · have same : withoutEnds 0 (withoutEnds 0 password) = withoutEnds (0 : UInt8) password :=
      withoutEnds_eq_self_iff.2 ⟨head?_withoutEnds, getLast?_withoutEnds⟩
    rw [tidy_of_colon absent, ofBytes_of_colon absent, ofBytes_of_colon absent, same]
  · rw [tidy_of_no_colon absent, ofBytes_of_no_colon absent]
    exact ofBytes_of_colon List.not_mem_nil []

/-! ## Reading what was written -/

/-- A text without its line ends. -/
def unwrapped (t : Text) : Text := t.filter fun c => !(c = '\r' || c = '\n')

theorem decode_eq (t : Text) : decode t = (Base64.decode (unwrapped t)).map ofBytes := rfl

theorem unwrapped_encode (bs : Bytes) : unwrapped (Base64.encode bs) = Base64.encode bs :=
  List.filter_eq_self.2 (Base64.forall_mem_encode (by decide) (by decide) bs)

theorem decode_encode (bs : Bytes) : decode (Base64.encode bs) = .ok (ofBytes bs) := by
  rw [decode_eq, unwrapped_encode, Base64.decode_encode]
  rfl

/-- A credential that was written is read back if bytes are read as it, and else another one is. -/
theorem decode_of_encode? {c : Credential} {auth : Text} (h : c.encode? = some auth) :
    ∃ back, decode auth = .ok back ∧ (back = c ↔ ∃ raw, ofBytes raw = c) := by
  obtain ⟨bs, -, rfl⟩ := Option.map_eq_some_iff.1 h
  refine ⟨ofBytes bs, decode_encode bs, fun same => ⟨bs, same⟩, ?_⟩
  rintro ⟨raw, rfl⟩
  rw [encode?_ofBytes, Option.some.injEq] at h
  have written := decode_encode bs
  rw [← h, decode_encode, ofBytes_tidy] at written
  exact (Except.ok.inj written).symm

/-- Bytes are read as a credential exactly if they are read as its parts, its name has no colon, and
no null characters stand around its password. -/
theorem exists_ofBytes_iff {c : Credential} :
    (∃ raw, ofBytes raw = c) ↔
      c.username.IsKept ∧ c.password.IsKept ∧ (':' : CodePoint) ∉ c.username ∧
        c.password.head? ≠ some '\x00' ∧ c.password.getLast? ≠ some '\x00' := by
  constructor
  · rintro ⟨raw, rfl⟩
    obtain ⟨name, password, rfl, absent⟩ | absent := colon_cases raw
    · rw [ofBytes_of_colon absent]
      refine ⟨⟨_, rfl⟩, ⟨_, rfl⟩, (colon_mem_keep_iff name).not.2 absent, ?_, ?_⟩
      · exact (Utf8.head?_keep_iff (a := 0) (by decide) _).not.2 head?_withoutEnds
      · exact (Utf8.getLast?_keep_iff (a := 0) (by decide) _).not.2 getLast?_withoutEnds
    · rw [ofBytes_of_no_colon absent]
      exact ⟨⟨[], rfl⟩, ⟨[], rfl⟩, nofun, nofun, nofun⟩
  · obtain ⟨username, password⟩ := c
    rintro ⟨⟨name, rfl⟩, ⟨secret, rfl⟩, absent, first, last⟩
    have bare : withoutEnds 0 secret = secret := by
      refine withoutEnds_eq_self_iff.2 ⟨?_, ?_⟩
      · exact (Utf8.head?_keep_iff (a := 0) (by decide) secret).not.1 first
      · exact (Utf8.getLast?_keep_iff (a := 0) (by decide) secret).not.1 last
    refine ⟨name ++ 0x3A :: secret, ?_⟩
    rw [ofBytes_of_colon ((colon_mem_keep_iff name).not.1 absent), bare]

end PullAuth.Credential
