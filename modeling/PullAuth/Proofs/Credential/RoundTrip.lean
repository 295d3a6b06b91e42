import PullAuth.Proofs.Credential.Tidy
import PullAuth.Proofs.Secret.Accounting

/-!
Credentials written and read again. Base64 that is broken into lines anywhere is read as if it were
not, and what is written for the credential in it are the bytes themselves, but for null bytes
around the password (`decode_wrapped`). A name and a password are read back as they were written
unless the name has a colon or the password has a null character at an end
(`decode_encode?_eq_iff`). So the credentials that were read from an `auth` always survive being
written, and those that an entry gives outright do if they are like them (`ofEntry_written`).
-/
namespace PullAuth.Credential

/-! ## Lines -/

/-- The second text is the first one with line ends put in, anywhere and any number of them. -/
inductive Wraps : Text → Text → Prop
  | nil : Wraps [] []
  | same {s t : Text} (c : CodePoint) : Wraps s t → Wraps (c :: s) (c :: t)
  | lineEnd {s t : Text} {c : CodePoint} : c = '\r' ∨ c = '\n' → Wraps s t → Wraps s (c :: t)

theorem unwrapped_cons_of_lineEnd {c : CodePoint} (h : c = '\r' ∨ c = '\n') (t : Text) :
    unwrapped (c :: t) = unwrapped t := by
  rcases h with rfl | rfl
  · rfl
  · rfl

theorem unwrapped_cons_of_not_lineEnd {c : CodePoint} (h : ¬(c = '\r' ∨ c = '\n')) (t : Text) :
    unwrapped (c :: t) = c :: unwrapped t :=
  List.filter_cons_of_pos (by rw [← Bool.decide_or, decide_eq_false h]; rfl)

theorem Wraps.unwrapped_eq {s t : Text} (h : Wraps s t) : unwrapped t = unwrapped s := by
  induction h with
  | nil => rfl
  | @same s t c _ ih =>
    by_cases ends : c = '\r' ∨ c = '\n'
    · rw [unwrapped_cons_of_lineEnd ends, unwrapped_cons_of_lineEnd ends, ih]
    · rw [unwrapped_cons_of_not_lineEnd ends, unwrapped_cons_of_not_lineEnd ends, ih]
  | @lineEnd s t c ends _ ih => rw [unwrapped_cons_of_lineEnd ends, ih]

/-- A text wraps what is left of it without its line ends. -/
theorem wraps_unwrapped (t : Text) : Wraps (unwrapped t) t := by
  induction t with
  | nil => exact .nil
  | cons c t ih =>
    by_cases ends : c = '\r' ∨ c = '\n'
    · rw [unwrapped_cons_of_lineEnd ends]
      exact .lineEnd ends ih
    · rw [unwrapped_cons_of_not_lineEnd ends]
      exact .same c ih

theorem Wraps.isAscii {s t : Text} (h : Wraps s t) (ascii : s.IsAscii) : t.IsAscii := by
  induction h with
  | nil => exact ascii
  | same c _ ih =>
    obtain ⟨first, others⟩ := List.forall_mem_cons.1 ascii
    exact List.forall_mem_cons.2 ⟨first, ih others⟩
  | lineEnd ends _ ih =>
    refine List.forall_mem_cons.2 ⟨?_, ih ascii⟩
    rcases ends with rfl | rfl
    · decide
    · decide

/-- The bytes of a text of ASCII stand for the text. -/
theorem authOfBytes_ofAscii {t : Text} (h : t.IsAscii) : authOfBytes (Bytes.ofAscii t) = t := by
  have small : ∀ b ∈ Bytes.ofAscii t, b.toNat < 0x80 := by
    intro b hb
    obtain ⟨c, hc, rfl⟩ := List.mem_map.1 hb
    have := h c hc
    rw [UInt8.toNat_ofNat']
    omega
  calc authOfBytes (Bytes.ofAscii t)
      = (Bytes.ofAscii t).map CodePoint.ofByte :=
        List.map_congr_left fun b hb => if_pos (small b hb)
    _ = t := Text.ofByte_ofAscii h

theorem decode_of_wraps {bs : Bytes} {t : Text} (h : Wraps (Base64.encode bs) t) :
    decode t = .ok (ofBytes bs) := by
  rw [decode_eq, h.unwrapped_eq, ← decode_eq, decode_encode]

/-- Base64 of bytes, as a text or as bytes and broken into lines anywhere, is read, and the
credential in it is written as those bytes without the null bytes around the password, or as a colon
alone if there is none in them. The same credential is read from what is written. -/
theorem decode_wrapped {raw : Bytes} {t : Text} (h : Wraps (Base64.encode raw) t) :
    decode (authOfBytes (Bytes.ofAscii t)) = decode t ∧
      ∃ c auth, decode t = .ok c ∧ c.encode? = some auth ∧ decode auth = .ok c ∧
        (∀ name password, raw = name ++ 0x3A :: password → (0x3A : UInt8) ∉ name →
          auth = Base64.encode (name ++ 0x3A :: withoutEnds 0 password) ∧
            (password.head? ≠ some 0 → password.getLast? ≠ some 0 →
              auth = Base64.encode raw)) ∧
        ((0x3A : UInt8) ∉ raw → auth = "Og==") := by
  have ascii := h.isAscii (Base64.isAscii_encode raw)
  have back : decode (Base64.encode (tidy raw)) = .ok (ofBytes raw) := by
    rw [decode_encode, ofBytes_tidy]
  refine ⟨congrArg decode (authOfBytes_ofAscii ascii), ofBytes raw, Base64.encode (tidy raw),
    decode_of_wraps h, encode?_ofBytes raw, back, ?_, ?_⟩
  · rintro name password rfl absent
    rw [tidy_of_colon absent]
    refine ⟨rfl, fun first last => ?_⟩
    rw [withoutEnds_eq_self_iff.2 ⟨first, last⟩]
  · intro absent
    rw [tidy_of_no_colon absent]
    rfl

/-- Bytes outside UTF-8 survive, null bytes around the password do not. -/
theorem decode_wrapped_stray :
    Wraps (Base64.encode [0x75, 0xFF, 0x3A, 0x00, 0x70, 0xE9, 0x00]) "df86\r\nAHDpAA==\n" ∧
      ∃ c, decode "df86\r\nAHDpAA==\n" = .ok c ∧
        c.encode? = some (Base64.encode [0x75, 0xFF, 0x3A, 0x70, 0xE9]) := by
  have wraps : Wraps (Base64.encode [0x75, 0xFF, 0x3A, 0x00, 0x70, 0xE9, 0x00])
      "df86\r\nAHDpAA==\n" := wraps_unwrapped "df86\r\nAHDpAA==\n"
  obtain ⟨-, c, auth, read, written, -, colon, -⟩ := decode_wrapped wraps
  obtain ⟨rfl, -⟩ := colon [0x75, 0xFF] [0x00, 0x70, 0xE9, 0x00] rfl (by decide)
  exact ⟨wraps, c, read, written⟩

/-! ## Names and passwords -/

/-- A name and a password without surrogates are written and read, and read as they were written
exactly if the name has no colon and the password no null character at either end. -/
theorem decode_encode?_eq_iff {username password : Text} (name : username.IsScalar)
    (secret : password.IsScalar) :
    ∃ auth c, encode? ⟨username, password⟩ = some auth ∧ decode auth = .ok c ∧
      (c = ⟨username, password⟩ ↔ (':' : CodePoint) ∉ username ∧
        password.head? ≠ some '\x00' ∧ password.getLast? ≠ some '\x00') := by
  obtain ⟨a, ha⟩ := name.isKept
  obtain ⟨b, hb⟩ := secret.isKept
  have written := encode?_keep a b
  rw [ha, hb] at written
  obtain ⟨c, read, same_iff⟩ := decode_of_encode? written
  refine ⟨_, c, written, read, ?_⟩
  rw [same_iff, exists_ofBytes_iff]
  exact ⟨fun ⟨_, _, rest⟩ => rest, fun rest => ⟨⟨a, ha⟩, ⟨b, hb⟩, rest⟩⟩

theorem decode_encode?_eq_iff_accented :
    Text.IsScalar "José" ∧ Text.IsScalar "pa:ss\x00é" ∧
      ∃ auth, encode? ⟨"José", "pa:ss\x00é"⟩ = some auth ∧
        decode auth = .ok ⟨"José", "pa:ss\x00é"⟩ := by
  have name : Text.IsScalar "José" := by decide
  have secret : Text.IsScalar "pa:ss\x00é" := by decide
  obtain ⟨auth, c, written, read, same_iff⟩ := decode_encode?_eq_iff name secret
  obtain rfl := same_iff.2 (by decide)
  exact ⟨name, secret, auth, written, read⟩

/-! ## Entries -/

/-- An entry that does not give its credential outright has it in base64. -/
theorem exists_ofBytes_of_ofEntry {members : Keyed Json} {c : Credential}
    (indirect : outright? members = none) (h : ofEntry members = .ok c) :
    ∃ raw, ofBytes raw = c := by
  unfold ofEntry at h
  rw [indirect] at h
  simp only at h
  cases ha : authText ((Keyed.get? "auth" members).getD .null) with
  | error fault =>
    rw [ha] at h
    cases h
  | ok auth =>
    rw [ha] at h
    have read : (decode auth).mapError EntryFault.notBase64 = .ok c := h
    rw [decode_eq] at read
    cases hd : Base64.decode (unwrapped auth) with
    | error fault =>
      rw [hd] at read
      cases read
    | ok raw =>
      rw [hd] at read
      exact ⟨raw, Except.ok.inj read⟩

/-- A credential can be written if all surrogates in it keep a byte. -/
theorem exists_written? {c : Credential} (name : c.username.IsWritable)
    (secret : c.password.IsWritable) : ∃ entry, c.written? = some entry := by
  obtain ⟨a, ha⟩ := Text.isWritable_iff.1 name
  obtain ⟨b, hb⟩ := Text.isWritable_iff.1 secret
  rw [written?, encode?_eq_some ha hb]
  exact ⟨_, rfl⟩

/-- A credential that was written as an entry is read from it. -/
theorem ofEntry_of_written? {c : Credential} {entry : Json} (h : c.written? = some entry) :
    ∃ back, ofEntry entry.members = .ok back ∧ (back = c ↔ ∃ raw, ofBytes raw = c) := by
  obtain ⟨auth, ha, rfl⟩ := Option.map_eq_some_iff.1 h
  obtain ⟨back, read, same_iff⟩ := decode_of_encode? ha
  refine ⟨back, ?_, same_iff⟩
  have entry : Keyed.get? "auth" [("auth", Json.string auth)] = some (.string auth) := if_pos rfl
  show ofEntry [("auth", .string auth)] = _
  rw [Harvest.ofEntry_of_auth entry, read]
  rfl

/-- A name and a password that an entry gives outright are texts. -/
theorem exists_string_of_outright? {members : Keyed Json} {given : Json × Json}
    (fits : CredentialFile.IsEntry (.object members)) (h : outright? members = some given) :
    ∃ username password, given = (.string username, .string password) := by
  obtain ⟨_, ⟨⟩, texts⟩ := fits
  have text (key : Text) (hk : key ∈ CredentialFile.textKeys) :
      ∃ t, (Keyed.get? key members).getD (.string []) = .string t := by
    cases hv : Keyed.get? key members with
    | none => exact ⟨[], rfl⟩
    | some value =>
      obtain ⟨t, rfl⟩ := texts key hk value hv
      exact ⟨t, rfl⟩
  obtain ⟨username, hu⟩ := text "username" (by decide)
  obtain ⟨password, hp⟩ := text "password" (by decide)
  unfold outright? at h
  split at h
  · rw [hu, hp] at h
    exact ⟨username, password, (Option.some.inj h).symm⟩
  · cases h

/-- What an entry gives outright is the credential in it. -/
theorem eq_of_outright? {members : Keyed Json} {c : Credential} {given : Json × Json}
    (fits : CredentialFile.IsEntry (.object members)) (h : ofEntry members = .ok c)
    (hg : outright? members = some given) : given = (.string c.username, .string c.password) := by
  obtain ⟨username, password, rfl⟩ := exists_string_of_outright? fits hg
  unfold ofEntry at h
  rw [hg] at h
  cases h
  rfl

/-- The credential in an entry survives being written if it is not given outright. If it is, it is
the name and the password as they are given; it is written if all surrogates in it keep a byte, and
what is written is read. It survives then exactly if bytes are read as its name and as its password,
the name has no colon, and the password no null character at either end. -/
theorem ofEntry_written {members : Keyed Json} {c : Credential}
    (fits : CredentialFile.IsEntry (.object members)) (h : ofEntry members = .ok c) :
    (outright? members = none →
      ∃ entry, c.written? = some entry ∧ ofEntry entry.members = .ok c) ∧
    (∀ given, outright? members = some given →
      given = (.string c.username, .string c.password)) ∧
    (c.username.IsWritable → c.password.IsWritable → ∃ entry, c.written? = some entry) ∧
    ∀ entry, c.written? = some entry → ∃ back, ofEntry entry.members = .ok back ∧
      (back = c ↔ c.username.IsKept ∧ c.password.IsKept ∧ (':' : CodePoint) ∉ c.username ∧
        c.password.head? ≠ some '\x00' ∧ c.password.getLast? ≠ some '\x00') := by
  refine ⟨fun indirect => ?_, fun _ => eq_of_outright? fits h, exists_written?,
    fun entry written => ?_⟩
  · obtain ⟨raw, rfl⟩ := exists_ofBytes_of_ofEntry indirect h
    have written : (ofBytes raw).written? =
        some (.object [("auth", .string (Base64.encode (tidy raw)))]) := by
      rw [written?, encode?_ofBytes]
      rfl
    obtain ⟨back, read, same_iff⟩ := ofEntry_of_written? written
    obtain rfl := same_iff.2 ⟨raw, rfl⟩
    exact ⟨_, written, read⟩
  · obtain ⟨back, read, same_iff⟩ := ofEntry_of_written? written
    exact ⟨back, read, same_iff.trans exists_ofBytes_iff⟩

/-- A letter outside ASCII, and a surrogate that keeps a byte. -/
def strayCredential : Credential := ⟨"José", ['p', Utf8.kept 0xFF]⟩

theorem isEntry_outright (username password : Text) :
    CredentialFile.IsEntry
      (.object [("username", .string username), ("password", .string password)]) := by
  refine ⟨_, rfl, fun key _ value hv => ?_⟩
  rw [Keyed.get?, Keyed.get?, Keyed.get?] at hv
  split at hv
  · exact ⟨_, (Option.some.inj hv).symm⟩
  · split at hv
    · exact ⟨_, (Option.some.inj hv).symm⟩
    · cases hv

theorem ofEntry_written_stray :
    ofEntry [("username", .string "José"), ("password", .string ['p', Utf8.kept 0xFF])] =
        .ok strayCredential ∧
      ∃ entry, strayCredential.written? = some entry ∧
        ofEntry entry.members = .ok strayCredential := by
  have outright :
      ofEntry [("username", .string "José"), ("password", .string ['p', Utf8.kept 0xFF])] =
        .ok strayCredential := by decide
  have name : Text.IsScalar "José" := by decide
  have kept : Text.IsKept ['p', Utf8.kept 0xFF] := ⟨[0x70, 0xFF], by decide⟩
  obtain ⟨-, -, succeeds, survives⟩ := ofEntry_written (isEntry_outright _ _) outright
  obtain ⟨entry, written⟩ := succeeds name.isKept.isWritable kept.isWritable
  obtain ⟨back, read, same_iff⟩ := survives entry written
  obtain rfl := same_iff.2 ⟨name.isKept, kept, by decide⟩
  exact ⟨outright, entry, written, read⟩

/-- A colon in a user name that is given outright is read as the end of the name. -/
theorem ofEntry_of_colon_in_name :
    CredentialFile.IsEntry (.object [("username", .string "a:b"), ("password", .string "c")]) ∧
      ofEntry [("username", .string "a:b"), ("password", .string "c")] = .ok ⟨"a:b", "c"⟩ ∧
      ∃ entry, written? ⟨"a:b", "c"⟩ = some entry ∧
        ofEntry entry.members = .ok ⟨"a", "b:c"⟩ ∧
        (⟨"a", "b:c"⟩ : Credential) ≠ ⟨"a:b", "c"⟩ :=
  ⟨isEntry_outright _ _, by decide, _, rfl, by decide, by decide⟩

end PullAuth.Credential
