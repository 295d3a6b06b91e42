import PullAuth.Proofs.File.Contents
import PullAuth.Proofs.File.Names

/-!
Where paths lead, whatever the tree looks like. A path has one place (`place?`), which it leads to
in every tree in which it leads anywhere (`place?_of_locate`). The places of names in one directory
differ if the bytes of the names do (`exists_place?_of_child`).
-/
namespace PullAuth.Tree

/-- The next place on the way, given that there is a directory. -/
def follow (at_ : Location) (name : Bytes) : Location :=
  if name = [0x2E] then at_
  else if name = [0x2E, 0x2E] then at_.dropLast
  else at_ ++ [name]

/-- The place of a path, from where relative paths start; none if the path cannot be spelled. -/
def place? (here : Location) (path : Text) : Option Location :=
  (route path).toOption.map fun r => r.names.foldl follow (if r.absolute then [] else here)

theorem place?_eq_some_iff {here place : Location} {path : Text} :
    place? here path = some place ↔
      ∃ r, route path = .ok r ∧ r.names.foldl follow (if r.absolute then [] else here) = place := by
  simp only [place?, Option.map_eq_some_iff, Results.toOption_eq_some_iff]

theorem follow_of_step {t : Tree} {at_ next : Location} {name : Bytes}
    (h : t.step at_ name = .ok next) : follow at_ name = next := by
  obtain ⟨-, ⟨rfl, rfl⟩ | ⟨rfl, rfl⟩ | ⟨dot, dots, -, rfl⟩⟩ := step_eq_ok_iff.1 h
  · rfl
  · rfl
  · rw [follow, if_neg dot, if_neg dots]

theorem foldl_follow_of_walk {t : Tree} {names : List Bytes} {start at_ : Location}
    (h : names.foldlM t.step start = .ok at_) : names.foldl follow start = at_ := by
  induction names generalizing start with
  | nil =>
    cases h
    rfl
  | cons name rest ih =>
    rw [List.foldlM_cons] at h
    obtain ⟨next, hs, hr⟩ := Results.bind_eq_ok_iff.1 h
    rw [List.foldl_cons, follow_of_step hs]
    exact ih hr

/-- Where a path leads in a tree is its place. -/
theorem place?_of_locate {t : Tree} {path : Text} {at_ : Location}
    (h : t.locate path = .ok at_) : place? t.here path = some at_ := by
  obtain ⟨r, hr, walk, -⟩ := locate_eq_ok_iff.1 h
  exact place?_eq_some_iff.2 ⟨r, hr, foldl_follow_of_walk walk⟩

/-- What is put at a path is put in its place. -/
theorem Puts.place?_eq {path : Text} {place : Location} {file : Nat × Bytes} {t after : Tree}
    (h : Puts path place file t after) : place? t.here path = some place := by
  rw [← h.here]
  exact place?_of_locate h.located

/-- The place of a name in a directory is the place of the directory and the bytes of the name. -/
theorem exists_place?_of_child {here place : Location} {d : Path}
    (hd : d.root = "/" ∨ d.root = "//") {name : Text} (named : Path.IsName name)
    (long : 2 < name.length) (h : place? here (d.child name).toText = some place) :
    ∃ outer bs, place? here d.toText = some outer ∧ Utf8.encodeKept? name = some bs ∧
      place = outer ++ [bs] := by
  obtain ⟨r, hr, rfl⟩ := place?_eq_some_iff.1 h
  obtain ⟨outer, bs, ho, absolute, hb, rfl⟩ := exists_route_of_child hd named hr
  have bs_long : 2 < bs.length := Nat.lt_of_lt_of_le long (Utf8.length_le_of_encodeKept? hb)
  refine ⟨_, bs, place?_eq_some_iff.2 ⟨outer, ho, rfl⟩, hb, ?_⟩
  -- The name is neither one dot nor two, so it is a step of its own.
  have dot : bs ≠ [0x2E] := by
    rintro rfl
    exact absurd bs_long (by decide)
  have dots : bs ≠ [0x2E, 0x2E] := by
    rintro rfl
    exact absurd bs_long (by decide)
  rw [absolute, if_pos rfl]
  show (outer.names ++ [bs]).foldl follow [] = _
  rw [List.foldl_append, List.foldl_cons, List.foldl_nil, follow, if_neg dot, if_neg dots]

end PullAuth.Tree
