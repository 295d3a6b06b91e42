import PullAuth.Proofs.File.Names
import PullAuth.Proofs.File.Operations
import PullAuth.Proofs.Text.Kept

/-!
Paths that cannot be spelled. The system has bytes for a text if every surrogate in it keeps a byte
and no null character is in it (`Spellable`); otherwise there is one fault that says why it has none
(`Misspelled`). A path that cannot be spelled fails every operation with that fault
(`route_of_misspelled`), and one that can be fails an operation only with an error of the system
(`FailsOnlySystem`). A path in a directory is spelled with the path of the directory and the name,
so it can be spelled exactly if both can be (`spellable_child_iff`).
-/
namespace PullAuth

structure Spellable (t : Text) : Prop where
  writable : t.IsWritable
  noNull : ('\x00' : CodePoint) ∉ t

/-- Why the system has no bytes for a text. -/
inductive Misspelled (t : Text) : PathFault → Prop
  | unencodable : ¬t.IsWritable → Misspelled t .unencodable
  | nullCharacter : t.IsWritable → ('\x00' : CodePoint) ∈ t → Misspelled t .nullCharacter

theorem spellable_or_misspelled (t : Text) : Spellable t ∨ ∃ fault, Misspelled t fault := by
  by_cases writable : t.IsWritable
  · by_cases null : ('\x00' : CodePoint) ∈ t
    · exact .inr ⟨_, .nullCharacter writable null⟩
    · exact .inl ⟨writable, null⟩
  · exact .inr ⟨_, .unencodable writable⟩

theorem Misspelled.not_spellable {t : Text} {fault : PathFault} (h : Misspelled t fault) :
    ¬Spellable t := by
  intro spellable
  cases h with
  | unencodable no => exact no spellable.writable
  | nullCharacter _ null => exact spellable.noNull null

/-- A fault that comes from the system and not from the spelling of a path. -/
def PathFault.IsSystem (fault : PathFault) : Prop := ∃ error, fault = .system error

theorem Misspelled.not_isSystem {t : Text} {fault : PathFault} (h : Misspelled t fault) :
    ¬fault.IsSystem := by
  rintro ⟨error, rfl⟩
  cases h

theorem Spelled.spellable {t : Text} {bs : Bytes} (h : Spelled t bs) : Spellable t :=
  ⟨Text.isWritable_iff.2 ⟨bs, h.encoded⟩, h.noNull⟩

theorem spellable_nil : Spellable [] := ⟨List.forall_mem_nil _, List.not_mem_nil⟩

/-! ## Texts that are put together -/

section
variable {s t : Text} {fault : PathFault}

theorem isWritable_append_iff : (s ++ t : Text).IsWritable ↔ s.IsWritable ∧ t.IsWritable :=
  List.forall_mem_append

theorem spellable_append_iff : Spellable (s ++ t) ↔ Spellable s ∧ Spellable t := by
  constructor
  · rintro ⟨writable, null⟩
    obtain ⟨hs, ht⟩ := isWritable_append_iff.1 writable
    rw [List.mem_append, not_or] at null
    exact ⟨⟨hs, null.1⟩, ⟨ht, null.2⟩⟩
  · rintro ⟨hs, ht⟩
    refine ⟨isWritable_append_iff.2 ⟨hs.writable, ht.writable⟩, ?_⟩
    rw [List.mem_append, not_or]
    exact ⟨hs.noNull, ht.noNull⟩

theorem Misspelled.append_left (h : Misspelled t fault) (hs : Spellable s) :
    Misspelled (s ++ t) fault := by
  cases h with
  | unencodable no => exact .unencodable fun writable => no (isWritable_append_iff.1 writable).2
  | nullCharacter writable null =>
    exact .nullCharacter (isWritable_append_iff.2 ⟨hs.writable, writable⟩)
      (List.mem_append_right s null)

theorem Misspelled.append_right (h : Misspelled s fault) (ht : Spellable t) :
    Misspelled (s ++ t) fault := by
  cases h with
  | unencodable no => exact .unencodable fun writable => no (isWritable_append_iff.1 writable).1
  | nullCharacter writable null =>
    exact .nullCharacter (isWritable_append_iff.2 ⟨writable, ht.writable⟩)
      (List.mem_append_left t null)

end

namespace Path

theorem spellable_slash : Spellable "/" :=
  ⟨Text.isWritable_iff.2 ⟨[0x2F], by decide⟩, by decide⟩

theorem spellable_child_iff {d : Path} (hd : d.root ≠ []) {name : Text} :
    Spellable (d.child name).toText ↔ Spellable d.toText ∧ Spellable name := by
  rw [toText_child hd]
  by_cases h : d.names = []
  · rw [if_pos h, spellable_append_iff, toText_eq hd, h, Text.join, List.intercalate_nil,
      List.append_nil]
  · rw [if_neg h, spellable_append_iff, spellable_append_iff]
    simp only [spellable_slash, and_true]

theorem misspelled_child {d : Path} (hd : d.root ≠ []) {name : Text} {fault : PathFault}
    (outer : Spellable d.toText) (h : Misspelled name fault) :
    Misspelled (d.child name).toText fault := by
  rw [toText_child hd]
  by_cases hn : d.names = []
  · rw [toText_eq hd, hn, Text.join, List.intercalate_nil, List.append_nil] at outer
    rw [if_pos hn]
    exact h.append_left outer
  · rw [if_neg hn]
    exact h.append_left (spellable_append_iff.2 ⟨outer, spellable_slash⟩)

end Path

theorem Path.child_name_parent {p : Path} (h : p.names ≠ []) : p.parent.child p.name = p := by
  have last : p.name = p.names.getLast h := by
    rw [Path.name, List.getLastD_eq_getLast?, List.getLast?_eq_some_getLast h]
    rfl
  rw [Path.child, Path.parent, last, List.dropLast_concat_getLast h]

/-! ## Parts of texts -/

theorem Spellable.of_subset {s t : Text} (h : Spellable t) (hs : s ⊆ t) : Spellable s :=
  ⟨fun c hc => h.writable c (hs hc), fun null => h.noNull (hs null)⟩

theorem spellable_join {names : List Text} (h : ∀ name ∈ names, Spellable name) :
    Spellable (Text.join "/" names) := by
  induction names with
  | nil => exact spellable_nil
  | cons name rest ih =>
    obtain ⟨first, others⟩ := List.forall_mem_cons.1 h
    cases rest with
    | nil => rwa [Text.join, List.intercalate_singleton]
    | cons second rest =>
      rw [Text.join, List.intercalate_cons_cons, spellable_append_iff, spellable_append_iff]
      exact ⟨⟨first, Path.spellable_slash⟩, ih others⟩

namespace Path

/-- All parts of a path can be spelled. -/
structure IsSpellable (p : Path) : Prop where
  root : Spellable p.root
  names : ∀ name ∈ p.names, Spellable name

theorem isSpellable_ofText {t : Text} (h : Spellable t) : (ofText t).IsSpellable := by
  refine ⟨?_, fun name hn => ?_⟩
  · show Spellable (rootOf t)
    unfold rootOf
    split
    · exact spellable_nil
    · exact spellable_append_iff.2 ⟨spellable_slash, spellable_slash⟩
    · exact spellable_slash
  · exact h.of_subset (Text.subset_of_mem_pieces (List.mem_filter.1 hn).1)

theorem IsSpellable.join {p q : Path} (hp : p.IsSpellable) (hq : q.IsSpellable) :
    (p.join q).IsSpellable := by
  unfold Path.join
  split
  · exact hq
  · refine ⟨hp.root, fun name hn => ?_⟩
    rcases List.mem_append.1 hn with hn | hn
    · exact hp.names name hn
    · exact hq.names name hn

theorem IsSpellable.parent {p : Path} (h : p.IsSpellable) : p.parent.IsSpellable :=
  ⟨h.root, fun name hn => h.names name (List.dropLast_subset p.names hn)⟩

theorem IsSpellable.toText {p : Path} (h : p.IsSpellable) : Spellable p.toText := by
  simp only [Path.toText]
  split
  · exact ⟨Text.isWritable_iff.2 ⟨[0x2E], by decide⟩, by decide⟩
  · exact spellable_append_iff.2 ⟨h.root, spellable_join h.names⟩

theorem IsSpellable.name {p : Path} (h : p.IsSpellable) : Spellable p.name := by
  rw [Path.name, List.getLastD_eq_getLast?]
  cases e : p.names.getLast? with
  | none => exact spellable_nil
  | some name => exact h.names name (List.mem_of_getLast? e)

end Path

/-! ## Operations -/

namespace Tree

theorem route_of_misspelled {path : Text} {fault : PathFault} (h : Misspelled path fault) :
    route path = .error fault := by
  cases h with
  | unencodable no =>
    have none_there : Utf8.encodeKept? path = none := by
      rw [Option.eq_none_iff_forall_ne_some]
      intro bs encoded
      exact no (Text.isWritable_iff.2 ⟨bs, encoded⟩)
    rw [route, none_there]
  | nullCharacter writable null =>
    obtain ⟨bs, encoded⟩ := Text.isWritable_iff.1 writable
    have there : (0 : UInt8) ∈ bs := (Utf8.mem_encodeKept?_iff encoded (by decide)).2 null
    simp only [route, encoded]
    rw [if_pos (by simpa using there)]

/-- The result is no failure but one of the system. -/
def FailsOnlySystem {α : Type} (result : Except PathFault α) : Prop :=
  ∀ fault, result = .error fault → fault.IsSystem

namespace FailsOnlySystem

variable {α β : Type}

theorem ok (a : α) : FailsOnlySystem (.ok a) := nofun

theorem system (error : SystemError) :
    FailsOnlySystem (.error (.system error) : Except PathFault α) := by
  intro fault e
  cases e
  exact ⟨error, rfl⟩

theorem bind {result : Except PathFault α} {f : α → Except PathFault β}
    (h : FailsOnlySystem result) (hf : ∀ a, FailsOnlySystem (f a)) :
    FailsOnlySystem (result >>= f) := by
  intro fault e
  rcases Results.bind_eq_error_iff.1 e with failed | ⟨a, -, failed⟩
  · exact h fault failed
  · exact hf a fault failed

end FailsOnlySystem

section
variable {path : Text} (h : Spellable path) (t : Tree)
include h

theorem failsOnlySystem_route : FailsOnlySystem (route path) := by
  obtain ⟨bs, encoded⟩ := Text.isWritable_iff.1 h.writable
  have absent : ¬(0 : UInt8) ∈ bs := fun there =>
    h.noNull ((Utf8.mem_encodeKept?_iff encoded (by decide)).1 there)
  simp only [route, encoded]
  rw [if_neg (by simpa using absent)]
  split
  · exact .system _
  split
  · exact .system _
  · exact .ok _

theorem failsOnlySystem_locate : FailsOnlySystem (t.locate path) := by
  refine (failsOnlySystem_route h).bind fun r => ?_
  split
  · exact .system _
  split
  · exact .system _
  · exact .ok _

theorem failsOnlySystem_makeDirectory (mode : Nat) :
    FailsOnlySystem (t.makeDirectory mode path) := by
  refine (failsOnlySystem_locate h t).bind fun at_ => ?_
  split
  · exact .system _
  · exact .ok _

theorem failsOnlySystem_createFile (mode : Nat) : FailsOnlySystem (t.createFile mode path) := by
  refine (failsOnlySystem_locate h t).bind fun at_ => ?_
  split
  · exact .system _
  · exact .ok _

theorem failsOnlySystem_writeFile (content : Bytes) :
    FailsOnlySystem (t.writeFile path content) := by
  refine (failsOnlySystem_locate h t).bind fun at_ => ?_
  split
  · exact .ok _
  · exact .system _
  · exact .system _

theorem failsOnlySystem_setMode (mode : Nat) : FailsOnlySystem (t.setMode path mode) := by
  refine (failsOnlySystem_locate h t).bind fun at_ => ?_
  split
  · exact .system _
  · exact .system _
  · exact .ok _
  · exact .ok _

theorem failsOnlySystem_removeFile : FailsOnlySystem (t.removeFile path) := by
  refine (failsOnlySystem_locate h t).bind fun at_ => ?_
  split
  · exact .ok _
  · exact .system _
  · exact .system _

theorem failsOnlySystem_rename {target : Text} (ht : Spellable target) :
    FailsOnlySystem (t.rename path target) := by
  refine (failsOnlySystem_locate h t).bind fun from_ => ?_
  refine (failsOnlySystem_locate ht t).bind fun to_ => ?_
  split
  · exact .system _
  · exact .system _
  · exact .system _
  split
  · exact .ok _
  · exact .system _

end

section
variable {path : Text} {fault : PathFault} (h : Misspelled path fault) (t : Tree)
include h

theorem locate_of_misspelled : t.locate path = .error fault := by
  rw [locate, route_of_misspelled h]
  rfl

theorem makeDirectory_of_misspelled (mode : Nat) : t.makeDirectory mode path = .error fault := by
  rw [makeDirectory, locate_of_misspelled h]
  rfl

theorem createFile_of_misspelled (mode : Nat) : t.createFile mode path = .error fault := by
  rw [createFile, locate_of_misspelled h]
  rfl

end

end Tree

end PullAuth
