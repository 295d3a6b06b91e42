import PullAuth.Cluster
import PullAuth.Proofs.Bytes.Base64
import PullAuth.Proofs.Runs

/-!
What becomes of listed secrets. A value is kept if it is a text that writes bytes in base64 and
dropped otherwise (`Keeps`), so a secret is converted value by value (`Converts`). Every listed
secret is converted, and a listing one by one and in its order, unless a value is a text with a
character outside ASCII: then the whole listing breaks down (`retrieve_converts`).
-/
namespace PullAuth

namespace Listed

/-- The values that are base64 texts, decoded, under their keys and in their order. -/
inductive Keeps : Keyed Json → Keyed Bytes → Prop
  | nil : Keeps [] []
  | kept {key t : Text} {bs : Bytes} {data : Keyed Json} {decoded : Keyed Bytes} :
    Base64.Writes t bs → Keeps data decoded →
    Keeps ((key, .string t) :: data) ((key, bs) :: decoded)
  | dropped {key : Text} {value : Json} {data : Keyed Json} {decoded : Keyed Bytes} :
    (∀ t bs, value = .string t → ¬Base64.Writes t bs) → Keeps data decoded →
    Keeps ((key, value) :: data) decoded

/-- The secret that a listed one is converted to; without metadata its name is empty, and without a
type its type. -/
structure Converts (s : Listed) (r : Secret) : Prop where
  name : r.name = s.metadata.getD (some [])
  type : r.type = s.type.getD []
  data : Keeps s.data r.data

/-- No value is a text with a character outside ASCII. -/
def IsAscii (s : Listed) : Prop := ∀ entry ∈ s.data, ∀ t, entry.2 = .string t → t.IsAscii

/-- A secret as a listing gives it. -/
def ofSecret (r : Secret) : Listed where
  metadata := some r.name
  type := some r.type
  data := r.data.map fun (key, bs) => (key, .string (Base64.encode bs))

/-! ## Values -/

theorem decodeValue_eq_ok_iff {value : Json} {bs : Bytes} :
    decodeValue value = .ok bs ↔ ∃ t, value = .string t ∧ Base64.Writes t bs := by
  cases value with
  | string t =>
    rw [decodeValue, Results.mapError_eq_ok_iff, Base64.decode_eq_ok_iff]
    simp
  | _ => simp [decodeValue]

theorem breaksDown_iff {value : Json} :
    breaksDown value = true ↔ ∃ t, value = .string t ∧ ¬t.IsAscii := by
  cases value with
  | string t =>
    have foreign := Base64.decode_eq_notAscii_iff (t := t)
    cases hd : Base64.decode t with
    | ok bs => simpa [breaksDown, decodeValue, hd, Except.mapError] using foreign
    | error fault =>
      cases fault <;> simpa [breaksDown, decodeValue, hd, Except.mapError] using foreign
  | _ => simp [breaksDown, decodeValue]

theorem isBroken_iff {s : Listed} : s.isBroken = true ↔ ¬s.IsAscii := by
  simp only [isBroken, IsAscii, List.any_eq_true, breaksDown_iff]
  push Not
  rfl

/-- The values that are kept are those that can be decoded. -/
theorem keeps_iff {data : Keyed Json} {decoded : Keyed Bytes} :
    Keeps data decoded ↔ decoded = decodedData data := by
  constructor
  · intro keeps
    induction keeps with
    | nil => rfl
    | kept writes _ ih =>
      have ok := decodeValue_eq_ok_iff.2 ⟨_, rfl, writes⟩
      rw [decodedData] at ih ⊢
      rw [List.filterMap_cons]
      simp only [ok, ih]
    | @dropped key value data decoded other _ ih =>
      rw [decodedData] at ih ⊢
      rw [List.filterMap_cons]
      cases hv : decodeValue value with
      | error fault => simp only [hv, ih]
      | ok bs =>
        obtain ⟨t, rfl, writes⟩ := decodeValue_eq_ok_iff.1 hv
        exact absurd writes (other t bs rfl)
  · rintro rfl
    induction data with
    | nil => exact .nil
    | cons entry data ih =>
      obtain ⟨key, value⟩ := entry
      rw [decodedData] at ih ⊢
      rw [List.filterMap_cons]
      cases hv : decodeValue value with
      | ok bs =>
        obtain ⟨t, rfl, writes⟩ := decodeValue_eq_ok_iff.1 hv
        simp only [hv]
        exact .kept writes ih
      | error fault =>
        simp only [hv]
        refine .dropped (fun t bs e writes => ?_) ih
        rw [decodeValue_eq_ok_iff.2 ⟨t, e, writes⟩] at hv
        cases hv

/-! ## Secrets -/

theorem converts_iff {s : Listed} {r : Secret} :
    Converts s r ↔ r = ⟨s.name, s.type.getD [], decodedData s.data⟩ := by
  obtain ⟨name, type, data⟩ := r
  rw [Secret.mk.injEq]
  constructor
  · rintro ⟨name, type, keeps⟩
    exact ⟨name, type, keeps_iff.1 keeps⟩
  · rintro ⟨name, type, decoded⟩
    exact ⟨name, type, keeps_iff.2 decoded⟩

theorem toSecret_of_isAscii {s : Listed} (h : s.IsAscii) :
    s.toSecret = .ok ⟨s.name, s.type.getD [], decodedData s.data⟩ := by
  rw [toSecret, if_neg (mt isBroken_iff.1 (not_not.2 h))]

theorem toSecret_of_not_isAscii {s : Listed} (h : ¬s.IsAscii) :
    s.toSecret = .error (.breakdown .dataNotAscii) := by
  rw [toSecret, if_pos (isBroken_iff.2 h)]

theorem toSecret_eq_ok_iff {s : Listed} {r : Secret} :
    s.toSecret = .ok r ↔ s.IsAscii ∧ Converts s r := by
  rw [converts_iff]
  by_cases h : s.IsAscii
  · rw [toSecret_of_isAscii h, Except.ok.injEq, and_iff_right h, eq_comm]
  · rw [toSecret_of_not_isAscii h]
    exact iff_of_false nofun fun both => h both.1

theorem keeps_ofSecret (data : Keyed Bytes) :
    Keeps (data.map fun (key, bs) => (key, .string (Base64.encode bs))) data := by
  induction data with
  | nil => exact .nil
  | cons entry data ih => exact .kept (Base64.writes_encode entry.2) ih

theorem isAscii_ofSecret (r : Secret) : (ofSecret r).IsAscii := by
  intro entry he t ht
  obtain ⟨⟨key, bs⟩, -, rfl⟩ := List.mem_map.1 he
  cases ht
  exact Base64.isAscii_encode bs

/-- A secret comes back from the listing that gives it. -/
theorem toSecret_ofSecret (r : Secret) : (ofSecret r).toSecret = .ok r :=
  toSecret_eq_ok_iff.2 ⟨isAscii_ofSecret r, rfl, rfl, keeps_ofSecret r.data⟩

/-! ## Listings -/

theorem retrieve_eq_ok_iff {list : List Listed} {found : List Secret} :
    Cluster.retrieve (.secrets list) = .ok found ↔
      (∀ s ∈ list, s.IsAscii) ∧ List.Forall₂ Converts list found := by
  show list.mapM toSecret = .ok found ↔ _
  simp only [Results.mapM_eq_ok_iff, toSecret_eq_ok_iff, List.forall₂_and_left]

theorem retrieve_of_isAscii {list : List Listed} (h : ∀ s ∈ list, s.IsAscii) :
    ∃ found, Cluster.retrieve (.secrets list) = .ok found := by
  refine ⟨list.map fun s => ⟨s.name, s.type.getD [], decodedData s.data⟩, ?_⟩
  rw [retrieve_eq_ok_iff, List.forall₂_map_right_iff, List.forall₂_same]
  exact ⟨h, fun s _ => converts_iff.2 rfl⟩

/-- One value outside ASCII is enough to break a listing down. -/
theorem retrieve_of_not_isAscii {list : List Listed} (h : ¬∀ s ∈ list, s.IsAscii) :
    Cluster.retrieve (.secrets list) = .error (.breakdown .dataNotAscii) := by
  show list.mapM toSecret = _
  obtain good | ⟨before, s, after, fault, rfl, good, bad⟩ :=
    Results.all_ok_or_first_error toSecret list
  · exact absurd (fun s hs => (toSecret_eq_ok_iff.1 (good s hs).choose_spec).1) h
  · have broken : ¬s.IsAscii := by
      intro ascii
      rw [toSecret_of_isAscii ascii] at bad
      cases bad
    rw [Results.mapM_of_error after good bad]
    rw [toSecret_of_not_isAscii broken] at bad
    cases bad
    rfl

/-- A listed secret is converted exactly if no value in it is a text with a character outside ASCII,
and a listing exactly if that is so of all its secrets, each in its place; otherwise the conversion
breaks down. A secret always comes back from its own listing. -/
theorem retrieve_converts (s : Listed) (list : List Listed) (origin : Secret) :
    ((∀ r, s.toSecret = .ok r ↔ s.IsAscii ∧ Converts s r) ∧
      (s.IsAscii ↔ ∃ r, s.toSecret = .ok r) ∧
      (¬s.IsAscii ↔ s.toSecret = .error (.breakdown .dataNotAscii))) ∧
    (ofSecret origin).toSecret = .ok origin ∧
    (∀ found, Cluster.retrieve (.secrets list) = .ok found ↔
      (∀ s ∈ list, s.IsAscii) ∧ List.Forall₂ Converts list found) ∧
    ((∀ s ∈ list, s.IsAscii) ↔ ∃ found, Cluster.retrieve (.secrets list) = .ok found) ∧
    ((¬∀ s ∈ list, s.IsAscii) ↔
      Cluster.retrieve (.secrets list) = .error (.breakdown .dataNotAscii)) := by
  refine ⟨⟨fun r => toSecret_eq_ok_iff, ?_, ?_⟩, toSecret_ofSecret origin,
    fun found => retrieve_eq_ok_iff, ?_, ?_⟩
  · exact ⟨fun h => ⟨_, toSecret_of_isAscii h⟩, fun ⟨r, h⟩ => (toSecret_eq_ok_iff.1 h).1⟩
  · refine ⟨toSecret_of_not_isAscii, fun h ascii => ?_⟩
    rw [toSecret_of_isAscii ascii] at h
    cases h
  · exact ⟨retrieve_of_isAscii, fun ⟨found, h⟩ => (retrieve_eq_ok_iff.1 h).1⟩
  · refine ⟨retrieve_of_not_isAscii, fun h ascii => ?_⟩
    obtain ⟨found, ok⟩ := retrieve_of_isAscii ascii
    rw [ok] at h
    cases h

/-- A secret with a credential file and a note that is no base64 text. -/
def accented : Listed where
  metadata := some (some "pull")
  type := some Harvest.secretType
  data := [(Harvest.dataKey, .string "e30="), ("note", .string "é")]

/-- The note should be dropped, but it breaks the conversion down, and the listing with it. -/
theorem toSecret_accented :
    Converts accented ⟨some "pull", Harvest.secretType, [(Harvest.dataKey, [0x7B, 0x7D])]⟩ ∧
      accented.toSecret = .error (.breakdown .dataNotAscii) ∧
      Cluster.retrieve (.secrets [accented]) = .error (.breakdown .dataNotAscii) := by
  exact ⟨⟨rfl, rfl, keeps_iff.2 (by decide)⟩, rfl, rfl⟩

end Listed

end PullAuth
