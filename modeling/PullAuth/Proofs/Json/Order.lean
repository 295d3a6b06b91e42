import PullAuth.Proofs.Json.Legible

/-!
JSON values that differ in the order of members only. Members have no order in JSON, so two objects
are alike when they have the same keys and alike values under each of them. Sorting the members of
a legible value gives a value like it (`alike_sorted`), which is legible again (`legible_sorted`).
-/
namespace PullAuth

namespace Json

/-- Two values that differ in the order of members only. -/
inductive Alike : Json → Json → Prop
  | null : Alike null null
  | bool (value : Bool) : Alike (bool value) (bool value)
  | int (value : Int) : Alike (int value) (int value)
  | double (value : Double) : Alike (double value) (double value)
  | string (value : Text) : Alike (string value) (string value)
  | array {items others : List Json} : items.length = others.length →
    (∀ pair ∈ items.zip others, Alike pair.1 pair.2) → Alike (array items) (array others)
  | object {members others : List (Text × Json)} :
    (∀ key, Keyed.has key members = Keyed.has key others) →
    (∀ key value other, Keyed.get? key members = some value → Keyed.get? key others = some other →
      Alike value other) → Alike (object members) (object others)

theorem sortedItems_eq (items : List Json) : sortedItems items = items.map sorted := by
  induction items with
  | nil => rfl
  | cons item items ih => rw [sortedItems, ih, List.map_cons]

theorem sortedMembers_eq (members : List (Text × Json)) :
    sortedMembers members = members.map fun m => (m.1, m.2.sorted) := by
  induction members with
  | nil => rfl
  | cons m members ih => rw [sortedMembers, ih, List.map_cons]

theorem sorted_array (items : List Json) : (array items).sorted = array (items.map sorted) := by
  rw [sorted, sortedItems_eq]

theorem sorted_object (members : List (Text × Json)) :
    (object members).sorted =
      object (Keyed.sorted (members.map fun m => (m.1, m.2.sorted))) := by
  rw [sorted, sortedMembers_eq]

/-- Under a key stands the same value as before, sorted. -/
theorem get?_sorted {members : List (Text × Json)} (h : (members.map Prod.fst).Nodup)
    (key : Text) :
    Keyed.get? key (Keyed.sorted (members.map fun m => (m.1, m.2.sorted))) =
      (Keyed.get? key members).map sorted := by
  have nodup : ((Keyed.sorted (members.map fun m => (m.1, m.2.sorted))).map Prod.fst).Nodup := by
    rw [((Keyed.sorted_perm _).map Prod.fst).nodup_iff, Keyed.keys_map]
    exact h
  rw [Keyed.get?_of_perm (Keyed.sorted_perm _) nodup, Keyed.get?_map]

theorem alike_sorted {v : Json} (h : Legible v) : Alike v v.sorted := by
  induction h with
  | null => exact .null
  | bool value => exact .bool value
  | int _ => exact .int _
  | double value => exact .double value
  | string _ => exact .string _
  | @array items _ ih =>
    have zip : items.zip (items.map sorted) = items.map fun item => (item, item.sorted) := by
      simpa using List.zip_map' (f := id) (g := sorted) (l := items)
    rw [sorted_array]
    refine .array (List.length_map _).symm fun pair hp => ?_
    rw [zip] at hp
    obtain ⟨item, hi, rfl⟩ := List.mem_map.1 hp
    exact ih item hi
  | object nodup _ _ ih =>
    rw [sorted_object]
    refine .object (fun key => ?_) fun key value other hv ho => ?_
    · rw [Keyed.has, Keyed.has, get?_sorted nodup, Option.isSome_map]
    · rw [get?_sorted nodup, hv] at ho
      cases ho
      exact ih (key, value) ((Keyed.get?_eq_some_iff nodup).1 hv)

theorem legible_sorted {v : Json} (h : Legible v) : Legible v.sorted := by
  induction h with
  | null => exact .null
  | bool value => exact .bool value
  | int short => exact .int short
  | double value => exact .double value
  | string joined => exact .string joined
  | array _ ih =>
    rw [sorted_array]
    exact .array (List.forall_mem_map.2 ih)
  | @object members nodup joined _ ih =>
    rw [sorted_object]
    have perm := Keyed.sorted_perm (members.map fun m => (m.1, m.2.sorted))
    refine .object ?_ (fun m hm => ?_) fun m hm => ?_
    · rw [(perm.map Prod.fst).nodup_iff, Keyed.keys_map]
      exact nodup
    · obtain ⟨m', hm', rfl⟩ := List.mem_map.1 (perm.mem_iff.1 hm)
      exact joined m' hm'
    · obtain ⟨m', hm', rfl⟩ := List.mem_map.1 (perm.mem_iff.1 hm)
      exact ih m' hm'

end Json

end PullAuth
