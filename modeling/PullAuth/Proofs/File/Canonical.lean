import PullAuth.Proofs.File.Names

/-!
Paths that are read back from their spelling. An absolute path whose names are neither empty nor a
single dot and hold no slash is canonical: it is the path that its text spells (`ofText_toText`).
What a text spells is canonical, and so is such a path in a directory (`isCanonical_join`).
-/
namespace PullAuth

/-- Between the names that are joined the text is split again. -/
theorem Text.split_join {names : List Text} (hne : names ≠ [])
    (h : ∀ name ∈ names, ('/' : CodePoint) ∉ name) : split '/' (join "/" names) = names := by
  induction names with
  | nil => exact absurd rfl hne
  | cons name rest ih =>
    obtain ⟨first, others⟩ := List.forall_mem_cons.1 h
    cases rest with
    | nil =>
      rw [join, List.intercalate_singleton]
      exact pieces_of_not_mem first
    | cons second rest =>
      have text : join "/" (name :: second :: rest) =
          name ++ .ofChar '/' :: join "/" (second :: rest) := by
        rw [join, List.intercalate_cons_cons, List.append_assoc]
        rfl
      rw [text, split, pieces_append_cons, pieces_of_not_mem first]
      exact congrArg (name :: ·) (ih (List.cons_ne_nil _ _) others)

namespace Path

/-- An absolute path that a text spells. -/
structure IsCanonical (p : Path) : Prop where
  root : p.root = "/" ∨ p.root = "//"
  names : ∀ name ∈ p.names, IsName name

theorem isName_of_mem_ofText {t name : Text} (h : name ∈ (ofText t).names) : IsName name := by
  obtain ⟨piece, kept⟩ := List.mem_filter.1 h
  simp only [Bool.not_eq_true', Bool.or_eq_false_iff, List.isEmpty_eq_false_iff,
    decide_eq_false_iff_not] at kept
  exact ⟨kept.1, kept.2, Text.not_mem_of_mem_pieces piece⟩

theorem isCanonical_ofText {t : Text} (h : (ofText t).isAbsolute = true) :
    (ofText t).IsCanonical :=
  ⟨root_ofText_cases h, fun _ hn => isName_of_mem_ofText hn⟩

theorem isCanonical_join {p : Path} (hp : p.IsCanonical) (t : Text) :
    (p.join (ofText t)).IsCanonical := by
  unfold join
  by_cases h : (ofText t).isAbsolute = true
  · rw [if_pos h]
    exact isCanonical_ofText h
  · rw [if_neg h]
    refine ⟨hp.root, fun name hn => ?_⟩
    rcases List.mem_append.1 hn with hn | hn
    · exact hp.names name hn
    · exact isName_of_mem_ofText hn

/-- No slash stands in front of the names. -/
theorem head?_join {names : List Text} (h : ∀ name ∈ names, IsName name) :
    ∀ c ∈ (Text.join "/" names).head?, c ≠ '/' := by
  intro c hc
  cases names with
  | nil => cases hc
  | cons name rest =>
    obtain ⟨present, -, slash⟩ := h name List.mem_cons_self
    obtain ⟨d, name, rfl⟩ := List.exists_cons_of_ne_nil present
    have first : (Text.join "/" ((d :: name) :: rest)).head? = some d := by
      cases rest <;> rfl
    rw [first] at hc
    cases hc
    exact fun e => slash (e ▸ List.mem_cons_self)

theorem rootOf_append {root t : Text} (hr : root = "/" ∨ root = "//")
    (ht : ∀ c ∈ t.head?, c ≠ '/') : rootOf (root ++ t) = root := by
  have behind : t.takeWhile (fun (c : CodePoint) => c = '/') = [] := by
    cases t with
    | nil => rfl
    | cons c t => rw [List.takeWhile_cons, if_neg (by simpa using ht c rfl)]
  have slashes : (root ++ t).takeWhile (fun (c : CodePoint) => c = '/') = root := by
    rw [List.takeWhile_append_of_pos (by rcases hr with rfl | rfl <;> decide), behind,
      List.append_nil]
  rw [rootOf, slashes]
  rcases hr with rfl | rfl <;> rfl

/-- Of the pieces of a canonical path only the names are kept. -/
theorem names_ofText_append {root : Text} (hr : root = "/" ∨ root = "//") {names : List Text}
    (h : ∀ name ∈ names, IsName name) : (ofText (root ++ Text.join "/" names)).names = names := by
  let kept (name : Text) : Bool := !(name.isEmpty || name = ".")
  have all : names.filter kept = names := by
    refine List.filter_eq_self.2 fun name hn => ?_
    obtain ⟨present, dot, -⟩ := h name hn
    simp [kept, present, dot]
  have split : (Text.split '/' (Text.join "/" names)).filter kept = names := by
    by_cases hne : names = []
    · rw [hne]
      rfl
    · rw [Text.split_join hne fun name hn => (h name hn).2.2, all]
  show (Text.split '/' (root ++ Text.join "/" names)).filter kept = names
  rcases hr with rfl | rfl
  · show (Text.pieces _ (.ofChar '/' :: Text.join "/" names)).filter kept = names
    rw [Text.pieces_cons_self]
    exact split
  · show (Text.pieces _ (.ofChar '/' :: .ofChar '/' :: Text.join "/" names)).filter kept = names
    rw [Text.pieces_cons_self, Text.pieces_cons_self]
    exact split

/-- A canonical path is the one that its text spells. -/
theorem ofText_toText {p : Path} (h : p.IsCanonical) : ofText p.toText = p := by
  obtain ⟨hr, hn⟩ := h
  have present : p.root ≠ [] := by
    rcases hr with e | e <;> rw [e] <;> decide
  rw [toText_eq present]
  calc ofText (p.root ++ Text.join "/" p.names)
      = ⟨rootOf (p.root ++ Text.join "/" p.names),
          (ofText (p.root ++ Text.join "/" p.names)).names⟩ := rfl
    _ = ⟨p.root, p.names⟩ := by
        rw [rootOf_append hr (head?_join hn), names_ofText_append hr hn]

end Path

end PullAuth
