import PullAuth.Proofs.File.Keeping

/-!
Trees of one shape: the same locations hold directories and the same hold files, whatever is in the
files. A path leads to the same location in both (`SameShape.locate`), or fails in the same way, so
a question about a path that does not ask for the content of a file has one answer
(`SameShape.stat_map`). Writing to a file that is there keeps the shape (`sameShape_set_file`).
-/
namespace PullAuth.Tree

/-- Whether it is a directory that is at a location, if anything is. -/
def kind? (t : Tree) (at_ : Location) : Option Bool := (t.node? at_).map Node.isDirectory

/-- What is at a location is a directory in both trees, or a file in both, or nothing in both, and
relative paths start from the same place. -/
structure SameShape (t after : Tree) : Prop where
  kind : ∀ at_, after.kind? at_ = t.kind? at_
  here : after.here = t.here

variable {t after : Tree}

theorem SameShape.refl (t : Tree) : SameShape t t := ⟨fun _ => rfl, rfl⟩

theorem SameShape.trans {last : Tree} (h₁ : SameShape t after) (h₂ : SameShape after last) :
    SameShape t last :=
  ⟨fun at_ => (h₂.kind at_).trans (h₁.kind at_), h₂.here.trans h₁.here⟩

/-- What can be at a location of two trees of one shape. -/
theorem SameShape.node?_cases (h : SameShape t after) (at_ : Location) :
    (t.node? at_ = none ∧ after.node? at_ = none) ∨
      (∃ mode mode', t.node? at_ = some (.directory mode) ∧
        after.node? at_ = some (.directory mode')) ∨
      ∃ mode content mode' content', t.node? at_ = some (.file mode content) ∧
        after.node? at_ = some (.file mode' content') := by
  have kind := h.kind at_
  unfold kind? at kind
  cases hn : t.node? at_ with
  | none =>
    rw [hn] at kind
    exact .inl ⟨rfl, Option.map_eq_none_iff.1 kind⟩
  | some node =>
    rw [hn] at kind
    obtain ⟨other, ho, e⟩ := Option.map_eq_some_iff.1 kind
    cases node with
    | directory mode =>
      cases other with
      | directory mode' => exact .inr (.inl ⟨mode, mode', rfl, ho⟩)
      | file mode' content' => cases e
    | file mode content =>
      cases other with
      | directory mode' => cases e
      | file mode' content' => exact .inr (.inr ⟨mode, content, mode', content', rfl, ho⟩)

/-! ## Following paths -/

/-- A step asks only whether it starts at a directory. -/
theorem SameShape.step (h : SameShape t after) : after.step = t.step := by
  funext at_ name
  unfold Tree.step
  obtain ⟨e, e'⟩ | ⟨_, _, e, e'⟩ | ⟨_, _, _, _, e, e'⟩ := h.node?_cases at_ <;> simp only [e, e']

theorem SameShape.locate (h : SameShape t after) (path : Text) :
    after.locate path = t.locate path := by
  unfold Tree.locate
  rw [h.here, h.step]
  refine bind_congr fun r => ?_
  cases r.names.foldlM t.step (if r.absolute then [] else t.here) with
  | error e => rfl
  | ok at_ =>
    obtain ⟨e, e'⟩ | ⟨_, _, e, e'⟩ | ⟨_, _, _, _, e, e'⟩ := h.node?_cases at_ <;>
      cases r.toDirectory <;> simp only [e, e']

/-- What a path leads to is of the same kind, or the path fails in the same way. -/
theorem SameShape.stat_map (h : SameShape t after) (path : Text) :
    (after.stat path).map Node.isDirectory = (t.stat path).map Node.isDirectory := by
  unfold Tree.stat
  rw [h.locate]
  cases t.locate path with
  | error fault => rfl
  | ok at_ =>
    simp only [bind, Except.bind]
    obtain ⟨e, e'⟩ | ⟨_, _, e, e'⟩ | ⟨_, _, _, _, e, e'⟩ := h.node?_cases at_ <;>
      simp only [e, e'] <;> rfl

theorem SameShape.stat_of_error (h : SameShape t after) {path : Text} {fault : PathFault}
    (hs : t.stat path = .error fault) : after.stat path = .error fault := by
  have same := h.stat_map path
  rw [hs] at same
  cases e : after.stat path with
  | error other =>
    rw [e] at same
    exact congrArg _ (Except.error.inj same)
  | ok node =>
    rw [e] at same
    cases same

/-! ## Changes -/

/-- The content of a file is no part of the shape. -/
theorem sameShape_set_file {at_ : Location} (hk : t.kind? at_ = some false) (mode : Nat)
    (content : Bytes) : SameShape t (t.set at_ (.file mode content)) := by
  have ne_root : at_ ≠ [] := by
    rintro rfl
    cases hk
  refine ⟨fun other => ?_, rfl⟩
  by_cases e : other = at_
  · rw [e, hk, kind?, node?_set_self t _ ne_root]
    rfl
  · rw [kind?, node?_set_of_ne t _ e, kind?]

end PullAuth.Tree
