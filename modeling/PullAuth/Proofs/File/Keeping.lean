import PullAuth.Proofs.File.Operations

/-!
Changes that lose no directory. Every step of a path goes through a directory, so a path leads to
the same location before and after such a change (`Keeps.locate`). Putting a file where no directory
is and taking a file away are changes of this kind, and so is everything that is done to a file
tree when a file is written.
-/
namespace PullAuth.Tree

/-- No directory of `t` is lost in `after`, and relative paths start from the same place. -/
structure Keeps (t after : Tree) : Prop where
  directory : ∀ at_, t.HasDirectory at_ → after.HasDirectory at_
  here : after.here = t.here

/-- A path that can lead to a file, because it does not end with a slash. -/
def LeadsToFiles (path : Text) : Prop := ∀ r, route path = .ok r → r.toDirectory = false

variable {t after : Tree}

theorem Keeps.refl (t : Tree) : Keeps t t := ⟨fun _ h => h, rfl⟩

theorem Keeps.trans {last : Tree} (h₁ : Keeps t after) (h₂ : Keeps after last) : Keeps t last :=
  ⟨fun at_ h => h₂.directory at_ (h₁.directory at_ h), h₂.here.trans h₁.here⟩

/-! ## Locations stay -/

theorem Keeps.step (hk : Keeps t after) {at_ next : Location} {name : Bytes}
    (h : t.step at_ name = .ok next) : after.step at_ name = .ok next := by
  rw [step_eq_ok_iff] at h ⊢
  exact ⟨hk.directory at_ h.1, h.2⟩

theorem Keeps.walk (hk : Keeps t after) {names : List Bytes} {start at_ : Location}
    (h : names.foldlM t.step start = .ok at_) : names.foldlM after.step start = .ok at_ := by
  induction names generalizing start with
  | nil => exact h
  | cons name rest ih =>
    rw [List.foldlM_cons, Results.bind_eq_ok_iff] at h ⊢
    obtain ⟨next, hs, hr⟩ := h
    exact ⟨next, hk.step hs, ih hr⟩

theorem not_hasDirectory_of_file {at_ : Location} {mode : Nat} {content : Bytes}
    (h : t.node? at_ = some (.file mode content)) : ¬t.HasDirectory at_ := by
  intro ⟨m, hm⟩
  rw [h] at hm
  cases hm

theorem Keeps.locate (hk : Keeps t after) {path : Text} {at_ : Location}
    (hp : LeadsToFiles path) (h : t.locate path = .ok at_) : after.locate path = .ok at_ := by
  obtain ⟨r, hr, hw, -⟩ := locate_eq_ok_iff.1 h
  refine locate_eq_ok_iff.2 ⟨r, hr, ?_, fun hd => ?_⟩
  · rw [hk.here]
    exact hk.walk hw
  · rw [hp r hr] at hd
    cases hd

/-- A path leads to the same location if a directory is there afterwards, even if it has just been
made. -/
theorem Keeps.locate_of_directory (hk : Keeps t after) {path : Text} {at_ : Location}
    (h : t.locate path = .ok at_) (hd : after.HasDirectory at_) : after.locate path = .ok at_ := by
  obtain ⟨r, hr, hw, -⟩ := locate_eq_ok_iff.1 h
  refine locate_eq_ok_iff.2 ⟨r, hr, ?_, fun _ mode content hf => ?_⟩
  · rw [hk.here]
    exact hk.walk hw
  · exact not_hasDirectory_of_file hf hd

theorem leadsToFiles_of_file {path : Text} {at_ : Location} {mode : Nat} {content : Bytes}
    (h : t.locate path = .ok at_) (hn : t.node? at_ = some (.file mode content)) :
    LeadsToFiles path := by
  intro r hr
  obtain ⟨r', hr', -, hd⟩ := locate_eq_ok_iff.1 h
  rw [hr] at hr'
  cases hr'
  cases e : r.toDirectory with
  | false => rfl
  | true => exact absurd hn (hd e mode content)

/-! ## Changes that keep the directories -/

theorem ne_root_of_not_hasDirectory {at_ : Location} (h : ¬t.HasDirectory at_) : at_ ≠ [] := by
  intro e
  rw [e] at h
  exact h t.hasDirectory_root

theorem not_hasDirectory_of_none {at_ : Location} (h : t.node? at_ = none) :
    ¬t.HasDirectory at_ := by
  intro ⟨m, hm⟩
  rw [h] at hm
  cases hm

theorem hasDirectory_set_of_ne {at_ other : Location} (node : Node) (h : other ≠ at_) :
    (t.set at_ node).HasDirectory other ↔ t.HasDirectory other := by
  rw [HasDirectory, HasDirectory, node?_set_of_ne t node h]

theorem keeps_set {at_ : Location} (node : Node) (h : ¬t.HasDirectory at_) :
    Keeps t (t.set at_ node) := by
  refine ⟨fun other ho => ?_, rfl⟩
  have hne : other ≠ at_ := fun e => h (e ▸ ho)
  exact (hasDirectory_set_of_ne node hne).2 ho

/-- A file takes the place of no directory. -/
theorem not_hasDirectory_set_file {at_ other : Location} {mode : Nat} {content : Bytes}
    (h : ¬t.HasDirectory other) : ¬(t.set at_ (.file mode content)).HasDirectory other := by
  by_cases e : other = at_
  · rw [← e]
    exact not_hasDirectory_of_file (node?_set_self t _ (ne_root_of_not_hasDirectory h))
  · rwa [hasDirectory_set_of_ne _ e]

theorem keeps_erase {at_ : Location} (h : ¬t.HasDirectory at_) : Keeps t (t.erase at_) := by
  refine ⟨fun other ⟨mode, hm⟩ => ⟨mode, ?_⟩, rfl⟩
  have hne : other ≠ at_ := fun e => h (e ▸ ⟨mode, hm⟩)
  rw [node?_erase_of_ne t hne, hm]

theorem keeps_makeDirectory {mode : Nat} {path : Text} (h : t.makeDirectory mode path = .ok after) :
    Keeps t after := by
  obtain ⟨at_, -, hn, rfl⟩ := makeDirectory_eq_ok_iff.1 h
  exact keeps_set _ (not_hasDirectory_of_none hn)

theorem keeps_createFile {mode : Nat} {path : Text} (h : t.createFile mode path = .ok after) :
    Keeps t after := by
  obtain ⟨at_, -, hn, rfl⟩ := createFile_eq_ok_iff.1 h
  exact keeps_set _ (not_hasDirectory_of_none hn)

theorem keeps_writeFile {path : Text} {content : Bytes} (h : t.writeFile path content = .ok after) :
    Keeps t after := by
  obtain ⟨at_, -, mode, old, hn, rfl⟩ := writeFile_eq_ok_iff.1 h
  exact keeps_set _ (not_hasDirectory_of_file hn)

/-- Other permissions do not make a directory anything else. -/
theorem keeps_setMode {path : Text} {mode : Nat} (h : t.setMode path mode = .ok after) :
    Keeps t after := by
  obtain ⟨-, at_, -, ⟨old, content, hn, rfl⟩ | ⟨old, hn, rfl⟩⟩ := setMode_eq_ok_iff.1 h
  · exact keeps_set _ (not_hasDirectory_of_file hn)
  · -- A directory stays one; the root is one whatever is put there.
    refine ⟨fun other ho => ?_, rfl⟩
    by_cases root : other = []
    · rw [root]
      exact hasDirectory_root _
    · by_cases e : other = at_
      · rw [← e]
        exact ⟨mode, node?_set_self t _ root⟩
      · exact (hasDirectory_set_of_ne _ e).2 ho

theorem keeps_rename {source target : Text} (h : t.rename source target = .ok after) :
    Keeps t after := by
  obtain ⟨-, from_, -, to_, -, mode, content, hf, ht, rfl⟩ := rename_eq_ok_iff.1 h
  have first := keeps_erase (not_hasDirectory_of_file hf)
  refine first.trans (keeps_set _ ?_)
  intro ⟨m, hm⟩
  apply ht
  by_cases e : to_ = from_
  · rw [e, node?_erase_self t (ne_root_of_not_hasDirectory (not_hasDirectory_of_file hf))] at hm
    cases hm
  · exact ⟨m, by rw [← hm, node?_erase_of_ne t e]⟩

end PullAuth.Tree
