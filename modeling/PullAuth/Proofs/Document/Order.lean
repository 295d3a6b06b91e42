import Mathlib.Data.Set.List
import PullAuth.Document
import PullAuth.Proofs.Json.Order
import PullAuth.Proofs.Runs

/-!
Documents that differ in the order of members only (`Alike`). What is written as an array has items
and what is written as an object has members (`items?`, `members?`), in whichever way it is put
together. With their members in order alike documents are written as one value
(`Alike.inOrder_eq`). It is the value of the document but for the order of members, and in every
object of it the keys ascend (`Alike.orders`).
-/
namespace PullAuth

namespace Json

/-- Whether a value is neither an array nor an object. -/
def isPlain : Json → Bool
  | array _ => false
  | object _ => false
  | _ => true

/-- In every object of a value the keys ascend strictly. -/
inductive Ascends : Json → Prop
  | plain {v : Json} : v.isPlain = true → Ascends v
  | array {items : List Json} : (∀ item ∈ items, Ascends item) → Ascends (array items)
  | object {members : List (Text × Json)} :
    members.Pairwise (fun a b => Text.before a.1 b.1 = true) → (∀ m ∈ members, Ascends m.2) →
    Ascends (object members)

theorem alike_of_isPlain {v : Json} (h : v.isPlain = true) : Alike v v := by
  cases v with
  | null => exact .null
  | bool value => exact .bool value
  | int value => exact .int value
  | double value => exact .double value
  | string value => exact .string value
  | array _ => cases h
  | object _ => cases h

theorem sorted_of_isPlain {v : Json} (h : v.isPlain = true) : v.sorted = v := by
  cases v with
  | array _ => cases h
  | object _ => cases h
  | _ => rfl

theorem isPresent_sorted (v : Json) : v.sorted.isPresent = v.isPresent := by
  cases v with
  | array items => rw [sorted_array, isPresent, isPresent, List.isEmpty_map]
  | object members =>
    have perm := Keyed.sorted_perm (members.map fun m => (m.1, m.2.sorted))
    rw [sorted_object, isPresent, isPresent, perm.isEmpty_eq, List.isEmpty_map]
  | _ => rfl

end Json

namespace Document

/-! ## Items and members -/

/-- The items of what is written as an array. -/
def items? : Document → Option (List Document)
  | array items => some items
  | value (.array items) => some (items.map value)
  | _ => none

/-- The members of what is written as an object. -/
def members? : Document → Option (Keyed Document)
  | object members => some members
  | value (.object members) => some (members.map fun m => (m.1, value m.2))
  | _ => none

theorem isObject_eq (d : Document) : d.isObject = d.members?.isSome := by
  cases d with
  | value v => cases v <;> rfl
  | _ => rfl

theorem member?_eq (key : Text) (d : Document) :
    d.member? key = d.members?.bind (Keyed.get? key) := by
  cases d with
  | value v =>
    cases v with
    | object members => exact (Keyed.get?_map value key members).symm
    | _ => rfl
  | _ => rfl

/-- The values under keys, up to the first that there is none of. -/
def gathered (parts : Keyed (Except Fault Json)) : Except Fault (Keyed Json) :=
  parts.mapM fun part => part.2.map (part.1, ·)

theorem gathered_eq_ok_iff {parts : Keyed (Except Fault Json)} {found : Keyed Json} :
    gathered parts = .ok found ↔ parts = found.map fun m => (m.1, .ok m.2) := by
  have part (p : Text × Except Fault Json) (m : Text × Json) :
      p.2.map (p.1, ·) = .ok m ↔ p = (m.1, .ok m.2) := by
    obtain ⟨key, fault | value⟩ := p <;> simp [Except.map, Prod.ext_iff]
  rw [gathered, Results.mapM_eq_ok_iff]
  simp only [part]
  rw [← List.forall₂_map_right_iff (R := (· = ·)), List.forall₂_eq_eq_eq]

theorem sortedItems_eq (items : List Document) : sortedItems items = items.map sorted := by
  induction items with
  | nil => rfl
  | cons item items ih => rw [sortedItems, ih, List.map_cons]

theorem sortedMembers_eq (members : List (Text × Document)) :
    sortedMembers members = members.map fun m => (m.1, m.2.sorted) := by
  induction members with
  | nil => rfl
  | cons m members ih => rw [sortedMembers, ih, List.map_cons]

theorem itemsToJson_eq (items : List Document) :
    itemsToJson items = (items.map toJson).mapM id := by
  induction items with
  | nil => rfl
  | cons item items ih =>
    rw [itemsToJson, ih, List.map_cons, List.mapM_cons]
    rfl

theorem membersToJson_eq (members : List (Text × Document)) :
    membersToJson members = gathered (members.map fun m => (m.1, m.2.toJson)) := by
  induction members with
  | nil => rfl
  | cons m members ih =>
    rw [membersToJson, ih, List.map_cons, gathered, gathered, List.mapM_cons]
    cases m.2.toJson <;> rfl

/-- The value that is written for a document with its members in order. -/
def inOrder (d : Document) : Except Fault Json := d.sorted.toJson

section
variable {d : Document}

theorem items?_cases {items : List Document} (h : d.items? = some items) :
    d = array items ∨ ∃ values, d = value (.array values) ∧ items = values.map value := by
  unfold items? at h
  split at h
  · exact .inl (congrArg array (Option.some.inj h))
  · next values => exact .inr ⟨values, rfl, (Option.some.inj h).symm⟩
  · cases h

theorem members?_cases {members : Keyed Document} (h : d.members? = some members) :
    d = object members ∨
      ∃ values, d = value (.object values) ∧ members = values.map fun m => (m.1, value m.2) := by
  unfold members? at h
  split at h
  · exact .inl (congrArg object (Option.some.inj h))
  · next values => exact .inr ⟨values, rfl, (Option.some.inj h).symm⟩
  · cases h

theorem toJson_of_items? {items : List Document} (h : d.items? = some items) :
    d.toJson = ((items.map toJson).mapM id).map .array := by
  obtain rfl | ⟨values, rfl, rfl⟩ := items?_cases h
  · rw [toJson, itemsToJson_eq]
  · have all : (values.map value).map toJson = values.map .ok := List.map_map
    rw [toJson, all, Results.mapM_id_eq_ok_iff.2 rfl]
    rfl

theorem toJson_of_members? {members : Keyed Document} (h : d.members? = some members) :
    d.toJson = (gathered (members.map fun m => (m.1, m.2.toJson))).map .object := by
  obtain rfl | ⟨values, rfl, rfl⟩ := members?_cases h
  · rw [toJson, membersToJson_eq]
  · have all : (values.map fun m => (m.1, value m.2)).map (fun m => (m.1, m.2.toJson)) =
        values.map fun m => (m.1, .ok m.2) := List.map_map
    rw [toJson, all, gathered_eq_ok_iff.2 rfl]
    rfl

theorem members?_of_items? {items : List Document} (h : d.items? = some items) :
    d.members? = none := by
  obtain rfl | ⟨values, rfl, rfl⟩ := items?_cases h <;> rfl

theorem isPresent_of_items? {items : List Document} (h : d.items? = some items) :
    d.isPresent = !items.isEmpty := by
  obtain rfl | ⟨values, rfl, rfl⟩ := items?_cases h
  · rfl
  · rw [isPresent, Json.isPresent, List.isEmpty_map]

theorem isPresent_of_members? {members : Keyed Document} (h : d.members? = some members) :
    d.isPresent = !members.isEmpty := by
  obtain rfl | ⟨values, rfl, rfl⟩ := members?_cases h
  · rfl
  · rw [isPresent, Json.isPresent, List.isEmpty_map]

theorem items?_sorted {items : List Document} (h : d.items? = some items) :
    d.sorted.items? = some (items.map sorted) := by
  obtain rfl | ⟨values, rfl, rfl⟩ := items?_cases h
  · rw [sorted, items?, sortedItems_eq]
  · rw [sorted, Json.sorted_array, items?, List.map_map, List.map_map]
    rfl

theorem members?_sorted {members : Keyed Document} (h : d.members? = some members) :
    d.sorted.members? = some (Keyed.sorted (members.map fun m => (m.1, m.2.sorted))) := by
  obtain rfl | ⟨values, rfl, rfl⟩ := members?_cases h
  · rw [sorted, members?, sortedMembers_eq]
  · rw [sorted, Json.sorted_object, members?, ← Keyed.sorted_map, List.map_map, List.map_map]
    rfl

theorem inOrder_of_items? {items : List Document} (h : d.items? = some items) :
    d.inOrder = ((items.map inOrder).mapM id).map .array := by
  rw [inOrder, toJson_of_items? (items?_sorted h), List.map_map]
  rfl

/-- Members are put in order before their values are looked at, or afterwards. -/
theorem inOrder_of_members? {members : Keyed Document} (h : d.members? = some members) :
    d.inOrder =
      (gathered (Keyed.sorted (members.map fun m => (m.1, m.2.inOrder)))).map .object := by
  rw [inOrder, toJson_of_members? (members?_sorted h), ← Keyed.sorted_map, List.map_map]
  rfl

end

/-! ## Documents that are alike -/

/-- Two documents that differ in the order of members only. No object has a key twice. -/
inductive Alike : Document → Document → Prop
  | plain {v : Json} : v.isPlain = true → Alike (value v) (value v)
  | credential (c : Credential) : Alike (credential c) (credential c)
  | formless : Alike formless formless
  | standing {v w : Json} : Alike (value v) (value w) → Alike (standing v) (standing w)
  | array {d e : Document} {items others : List Document} : d.items? = some items →
    e.items? = some others → items.length = others.length →
    (∀ pair ∈ items.zip others, Alike pair.1 pair.2) → Alike d e
  | object {d e : Document} {members others : Keyed Document} : d.members? = some members →
    e.members? = some others → (members.map Prod.fst).Nodup →
    (members.map Prod.fst).Perm (others.map Prod.fst) →
    (∀ m ∈ members, ∀ other ∈ others, m.1 = other.1 → Alike m.2 other.2) → Alike d e

/-- Objects with the same members in another order are alike. -/
theorem Alike.of_perm {members others : Keyed Document} (hp : members.Perm others)
    (nodup : (members.map Prod.fst).Nodup) (each : ∀ m ∈ members, Alike m.2 m.2) :
    Alike (Document.object members) (Document.object others) := by
  refine .object rfl rfl nodup (hp.map Prod.fst) ?_
  intro m hm other ho shared
  cases List.inj_on_of_nodup_map nodup hm (hp.mem_iff.2 ho) shared
  exact each m hm

/-- Alike documents with their members in order are written as one value, or not at all for one
reason. -/
theorem Alike.inOrder_eq {d e : Document} (h : Alike d e) : d.inOrder = e.inOrder := by
  induction h with
  | plain _ => rfl
  | credential _ => rfl
  | formless => rfl
  | @standing v w _ ih =>
    have same : v.sorted = w.sorted := Except.ok.inj ih
    rw [inOrder, inOrder, sorted, sorted, same]
  | @array d e items others hd he length _ ih =>
    have each : List.Forall₂ (fun item other => item.inOrder = other.inOrder) items others :=
      List.forall₂_iff_zip.2 ⟨length, fun mem => ih _ mem⟩
    have same : items.map inOrder = others.map inOrder := by
      rw [← List.forall₂_eq_eq_eq, List.forall₂_map_left_iff, List.forall₂_map_right_iff]
      exact each
    rw [inOrder_of_items? hd, inOrder_of_items? he, same]
  | @object d e members others hd he nodup keys _ ih =>
    have perm := Keyed.perm_map_of_keys nodup keys ih
    have same := Keyed.sorted_of_perm perm (by rwa [Keyed.keys_map])
    rw [inOrder_of_members? hd, inOrder_of_members? he, same]

/-- Of two alike documents both say something or none does. -/
theorem Alike.isPresent_eq {d e : Document} (h : Alike d e) : d.isPresent = e.isPresent := by
  cases h with
  | plain _ => rfl
  | credential _ => rfl
  | formless => rfl
  | standing _ => rfl
  | @array _ _ items others hd he length _ =>
    have same : items.isEmpty = others.isEmpty := by
      rw [Bool.eq_iff_iff, List.isEmpty_iff_length_eq_zero, List.isEmpty_iff_length_eq_zero, length]
    rw [isPresent_of_items? hd, isPresent_of_items? he, same]
  | @object _ _ members others hd he _ keys _ =>
    have same : members.isEmpty = others.isEmpty := by
      rw [← List.isEmpty_map (f := Prod.fst), keys.isEmpty_eq, List.isEmpty_map]
    rw [isPresent_of_members? hd, isPresent_of_members? he, same]

theorem Alike.isObject_eq {d e : Document} (h : Alike d e) : d.isObject = e.isObject := by
  cases h with
  | plain _ => rfl
  | credential _ => rfl
  | formless => rfl
  | standing _ => rfl
  | array hd he _ _ =>
    rw [Document.isObject_eq, Document.isObject_eq, members?_of_items? hd, members?_of_items? he]
  | object hd he _ _ _ =>
    rw [Document.isObject_eq, Document.isObject_eq, hd, he]
    rfl

/-- Under every key both have something to say or none has. -/
theorem Alike.isPresent_member?_eq {d e : Document} (h : Alike d e) (key : Text) :
    (d.member? key).map isPresent = (e.member? key).map isPresent := by
  cases h with
  | plain _ => rfl
  | credential _ => rfl
  | formless => rfl
  | standing _ => rfl
  | array hd he _ _ =>
    rw [member?_eq, member?_eq, members?_of_items? hd, members?_of_items? he]
  | @object _ _ members others hd he nodup keys alike =>
    have perm := Keyed.perm_map_of_keys (f := isPresent) nodup keys
      fun m hm other ho shared => (alike m hm other ho shared).isPresent_eq
    have nodup : ((members.map fun m => (m.1, m.2.isPresent)).map Prod.fst).Nodup := by
      rwa [Keyed.keys_map]
    rw [member?_eq, member?_eq, hd, he]
    calc (Keyed.get? key members).map isPresent
        = Keyed.get? key (members.map fun m => (m.1, m.2.isPresent)) :=
          (Keyed.get?_map isPresent key members).symm
      _ = Keyed.get? key (others.map fun m => (m.1, m.2.isPresent)) :=
          Keyed.get?_of_perm perm nodup key
      _ = (Keyed.get? key others).map isPresent := Keyed.get?_map isPresent key others

/-! ## The value that is written -/

/-- A value is that of a document, with the keys of every object in ascending order. -/
structure Orders (d : Document) (v : Json) : Prop where
  ascends : v.Ascends
  alike : ∃ w, d.toJson = .ok w ∧ Json.Alike w v

section
variable {f : Document → Except Fault Json} {members : Keyed Document} {found : Keyed Json}
  (h : members.map (fun m => (m.1, f m.2)) = found.map fun m => (m.1, .ok m.2))
include h

theorem keys_of_found : found.map Prod.fst = members.map Prod.fst := by
  have keys := congrArg (List.map Prod.fst) h
  rw [Keyed.keys_map, Keyed.keys_map] at keys
  exact keys.symm

theorem exists_of_mem_found {m : Text × Json} (hm : m ∈ found) :
    ∃ part, (m.1, part) ∈ members ∧ f part = .ok m.2 := by
  have mem : (m.1, .ok m.2) ∈ members.map fun m => (m.1, f m.2) := by
    rw [h]
    exact List.mem_map_of_mem hm
  obtain ⟨⟨key, part⟩, hp, e⟩ := List.mem_map.1 mem
  obtain ⟨rfl, value⟩ := Prod.ext_iff.1 e
  exact ⟨part, hp, value⟩

theorem exists_of_mem_members {m : Text × Document} (hm : m ∈ members) :
    ∃ v, (m.1, v) ∈ found ∧ f m.2 = .ok v := by
  have mem : (m.1, f m.2) ∈ found.map fun m => (m.1, .ok m.2) := by
    rw [← h]
    exact List.mem_map_of_mem hm
  obtain ⟨⟨key, v⟩, hv, e⟩ := List.mem_map.1 mem
  obtain ⟨rfl, value⟩ := Prod.ext_iff.1 e
  exact ⟨v, hv, value.symm⟩

end

section
variable {d : Document} {v : Json}

theorem orders_of_isPlain (h : v.isPlain = true) : Orders (value v) v :=
  ⟨.plain h, v, rfl, Json.alike_of_isPlain h⟩

theorem orders_credential {c : Credential} (h : (credential c).inOrder = .ok v) :
    Orders (credential c) v := by
  have written : (credential c).toJson = .ok v := h
  have h := written
  rw [toJson] at h
  split at h
  · next entry found =>
    cases h
    obtain ⟨auth, -, rfl⟩ := Option.map_eq_some_iff.1 found
    refine ⟨.object (List.pairwise_singleton _ _) ?_, _, written, .object (fun _ => rfl) ?_⟩
    · intro m hm
      rw [List.mem_singleton.1 hm]
      exact .plain rfl
    · intro key w other hw ho
      obtain rfl : w = other := Option.some.inj (hw.symm.trans ho)
      cases List.mem_singleton.1 (Keyed.mem_of_get? hw)
      exact .string auth
  · cases h

theorem orders_standing (each : ∀ w, (value v).inOrder = .ok w → Orders (value v) w) {u : Json}
    (h : (standing v).inOrder = .ok u) : Orders (standing v) u := by
  have present : v.sorted.isPresent = true ∧ u = v.sorted := by
    rw [inOrder, sorted, toJson] at h
    split at h
    · next present =>
      cases h
      exact ⟨present, rfl⟩
    · cases h
  obtain ⟨present, rfl⟩ := present
  obtain ⟨ascends, w, hw, alike⟩ := each _ rfl
  cases hw
  rw [Json.isPresent_sorted] at present
  exact ⟨ascends, v, by rw [toJson, if_pos present], alike⟩

/-- The values of items are those that they have in order, but for the order of members. -/
theorem exists_alike_items {items : List Document} {found : List Json}
    (h : items.map inOrder = found.map .ok)
    (each : ∀ item ∈ items, ∀ w, item.inOrder = .ok w → Orders item w) :
    ∃ given : List Json, items.map toJson = given.map .ok ∧
      Json.Alike (.array given) (.array found) := by
  obtain ⟨given, hg⟩ : items.map toJson ∈ Set.range (List.map Except.ok) := by
    rw [Set.range_list_map]
    intro x hx
    obtain ⟨item, mem, rfl⟩ := List.mem_map.1 hx
    have there : item.inOrder ∈ found.map Except.ok := h ▸ List.mem_map_of_mem mem
    obtain ⟨w, -, hw⟩ := List.mem_map.1 there
    obtain ⟨u, hu, -⟩ := (each item mem w hw.symm).alike
    exact ⟨u, hu.symm⟩
  have lengths : given.length = found.length := by
    have all := congrArg List.length hg
    have ordered := congrArg List.length h
    simp only [List.length_map] at all ordered
    exact all.trans ordered
  refine ⟨given, hg.symm, .array lengths ?_⟩
  -- A pair of values belongs to one item.
  intro pair hp
  have there : Prod.map Except.ok Except.ok pair ∈
      items.map fun item => (item.toJson, item.inOrder) := by
    rw [← List.zip_map', h, ← hg, List.zip_map]
    exact List.mem_map_of_mem hp
  obtain ⟨item, mem, e⟩ := List.mem_map.1 there
  obtain ⟨plain, ordered⟩ := Prod.ext_iff.1 e
  obtain ⟨w, hw, alike⟩ := (each item mem pair.2 ordered).alike
  obtain rfl : pair.1 = w := Except.ok.inj (plain.symm.trans hw)
  exact alike

theorem orders_of_items? {items : List Document} (hd : d.items? = some items)
    (each : ∀ item ∈ items, ∀ w, item.inOrder = .ok w → Orders item w) (h : d.inOrder = .ok v) :
    Orders d v := by
  rw [inOrder_of_items? hd, Results.map_eq_ok_iff] at h
  obtain ⟨found, h, rfl⟩ := h
  rw [Results.mapM_id_eq_ok_iff] at h
  obtain ⟨given, hg, alike⟩ := exists_alike_items h each
  refine ⟨.array ?_, .array given, ?_, alike⟩
  · intro w hw
    have there : .ok w ∈ items.map inOrder := h ▸ List.mem_map_of_mem hw
    obtain ⟨item, mem, hi⟩ := List.mem_map.1 there
    exact (each item mem w hi).ascends
  · rw [toJson_of_items? hd, Results.mapM_id_eq_ok_iff.2 hg]
    rfl

theorem exists_alike_members {members : Keyed Document} (nodup : (members.map Prod.fst).Nodup)
    {found : Keyed Json}
    (h : (Keyed.sorted members).map (fun m => (m.1, m.2.inOrder)) =
      found.map fun m => (m.1, .ok m.2))
    (each : ∀ m ∈ members, ∀ w, m.2.inOrder = .ok w → Orders m.2 w) :
    ∃ given : Keyed Json,
      members.map (fun m => (m.1, m.2.toJson)) = given.map (fun m => (m.1, .ok m.2)) ∧
        Json.Alike (.object given) (.object found) := by
  have perm := Keyed.sorted_perm members
  obtain ⟨given, hg⟩ : members.map (fun m => (m.1, m.2.toJson)) ∈
      Set.range (List.map fun m : Text × Json => (m.1, Except.ok m.2)) := by
    rw [Set.range_list_map]
    intro x hx
    obtain ⟨m, mem, rfl⟩ := List.mem_map.1 hx
    obtain ⟨w, -, hw⟩ := exists_of_mem_members h (perm.mem_iff.2 mem)
    obtain ⟨u, hu, -⟩ := (each m mem w hw).alike
    exact ⟨(m.1, u), by rw [hu]⟩
  refine ⟨given, hg.symm, .object ?_ ?_⟩
  · intro key
    rw [Bool.eq_iff_iff, Keyed.has_iff_mem, Keyed.has_iff_mem, keys_of_found h,
      keys_of_found hg.symm, (perm.map Prod.fst).mem_iff]
  · -- Values under one key belong to one member.
    intro key w w' hw hw'
    obtain ⟨part, mem, hp⟩ := exists_of_mem_found hg.symm (Keyed.mem_of_get? hw)
    obtain ⟨part', mem', hp'⟩ := exists_of_mem_found h (Keyed.mem_of_get? hw')
    rw [perm.mem_iff] at mem'
    cases List.inj_on_of_nodup_map nodup mem mem' rfl
    obtain ⟨u, hu, alike⟩ := (each _ mem w' hp').alike
    obtain rfl : w = u := Except.ok.inj (hp.symm.trans hu)
    exact alike

theorem orders_of_members? {members : Keyed Document} (hd : d.members? = some members)
    (nodup : (members.map Prod.fst).Nodup)
    (each : ∀ m ∈ members, ∀ w, m.2.inOrder = .ok w → Orders m.2 w) (h : d.inOrder = .ok v) :
    Orders d v := by
  rw [inOrder_of_members? hd, Results.map_eq_ok_iff] at h
  obtain ⟨found, h, rfl⟩ := h
  rw [gathered_eq_ok_iff, Keyed.sorted_map] at h
  obtain ⟨given, hg, alike⟩ := exists_alike_members nodup h each
  refine ⟨.object ?_ ?_, .object given, ?_, alike⟩
  · have ascending := Keyed.ascend_sorted nodup
    rw [← List.pairwise_map (f := Prod.fst) (R := fun a b => Text.before a b = true)]
      at ascending ⊢
    rwa [keys_of_found h]
  · intro m hm
    obtain ⟨part, mem, hp⟩ := exists_of_mem_found h hm
    exact (each _ ((Keyed.sorted_perm members).mem_iff.1 mem) m.2 hp).ascends
  · rw [toJson_of_members? hd, gathered_eq_ok_iff.2 hg]
    rfl

end

/-- The value that is written for one of two alike documents has its keys in ascending order, and is
the value of the document but for the order of members. -/
theorem Alike.orders {d e : Document} (h : Alike d e) :
    ∀ v, d.inOrder = .ok v → Orders d v := by
  induction h with
  | @plain v plain =>
    intro w hw
    have same : v.sorted = w := Except.ok.inj hw
    rw [← same, Json.sorted_of_isPlain plain]
    exact orders_of_isPlain plain
  | credential c => exact fun v => orders_credential
  | formless => nofun
  | standing _ ih => exact fun v => orders_standing ih
  | @array d e items others hd _ length _ ih =>
    refine fun v => orders_of_items? hd fun item mem => ?_
    rw [← List.map_fst_zip length.le] at mem
    obtain ⟨pair, hp, rfl⟩ := List.mem_map.1 mem
    exact ih pair hp
  | @object d e members others hd _ nodup keys _ ih =>
    refine fun v => orders_of_members? hd nodup fun m mem => ?_
    have shared := keys.mem_iff.1 (List.mem_map_of_mem mem)
    obtain ⟨other, ho, same⟩ := List.mem_map.1 shared
    exact ih m mem other ho same.symm

end Document

end PullAuth
