import PullAuth.File.Path
import PullAuth.Proofs.File.Keeping
import PullAuth.Proofs.Text.Encoded
import PullAuth.Proofs.Text.Pieces

/-!
How paths are spelled and where the spelling leads. A path given as text leads on in steps of bytes
(`route_eq_ok_iff`), and one whose last name holds no slash can lead to a file
(`leadsToFiles_of_append`).
-/
namespace PullAuth

namespace Tree

theorem route_eq_ok_iff {path : Text} {r : Route} :
    route path = .ok r ↔ ∃ bs, Utf8.encodeKept? path = some bs ∧ 0 ∉ bs ∧ bs ≠ [] ∧
      bs.length < 4096 ∧
        r = ⟨bs.head? = some 0x2F, routeNames bs, bs.getLast? = some 0x2F⟩ := by
  constructor
  · intro h
    unfold route at h
    split at h
    · cases h
    next bs he =>
    split at h
    · cases h
    next h₁ =>
    split at h
    · cases h
    next h₂ =>
    split at h
    · cases h
    next h₃ =>
    cases h
    exact ⟨bs, he, by simpa using h₁, by simpa using h₂, by omega, rfl⟩
  · intro ⟨bs, he, h₁, h₂, h₃, e⟩
    rw [e]
    simp only [route, he]
    rw [if_neg (by simpa using h₁), if_neg (by simpa using h₂), if_neg (by omega)]

/-- What ends with a text ends with something in it. -/
theorem getLast?_append_ne {before l : Bytes} {b : UInt8} (hne : l ≠ []) (h : b ∉ l) :
    (before ++ l).getLast? ≠ some b := by
  intro e
  obtain ⟨last, hlast⟩ := Option.ne_none_iff_exists'.1 (mt List.getLast?_eq_none_iff.1 hne)
  rw [List.getLast?_append, hlast, Option.some_or, Option.some.injEq] at e
  exact h (e ▸ List.mem_of_getLast? hlast)

/-- A text without a slash can stand for a file, whatever is before it. -/
theorem leadsToFiles_of_append (before : Text) {name : Text} (hne : name ≠ [])
    (hs : ('/' : CodePoint) ∉ name) : LeadsToFiles (before ++ name) := by
  intro r hr
  obtain ⟨bs, he, -, -, -, rfl⟩ := route_eq_ok_iff.1 hr
  obtain ⟨first, last, -, hl, rfl⟩ := Utf8.exists_of_encodeKept?_append he
  have slash : (0x2F : UInt8) ∉ last := fun h => hs ((Utf8.mem_encodeKept?_iff hl (by decide)).1 h)
  exact decide_eq_false (getLast?_append_ne (Utf8.ne_nil_of_encodeKept? hl hne) slash)

end Tree

namespace Path

/-- The last name of a path that a text spells ends as the text does. -/
theorem exists_names_ofText_append (t : Text) {ending : Text} (hs : ('/' : CodePoint) ∉ ending)
    (hl : 1 < ending.length) :
    ∃ before last, (ofText (t ++ ending)).names = before ++ [last ++ ending] := by
  obtain ⟨before, last, -, hp⟩ := Text.exists_pieces_append t hs
  refine ⟨before.filter fun name => !(name.isEmpty || name = "."), last, ?_⟩
  -- The name is neither empty nor a single dot, because it is too long for that.
  let named (name : Text) : Bool := !(name.isEmpty || name = ".")
  have kept : named (last ++ ending) = true := by
    show (!((last ++ ending).isEmpty || decide (last ++ ending = "."))) = true
    rw [Bool.not_eq_true', Bool.or_eq_false_iff, List.isEmpty_eq_false_iff,
      decide_eq_false_iff_not]
    constructor
    · intro e
      have := congrArg List.length e
      rw [List.length_append, List.length_nil] at this
      omega
    · intro e
      have : (last ++ ending).length = 1 := congrArg List.length e
      rw [List.length_append] at this
      omega
  show (Text.split '/' (t ++ ending)).filter named = before.filter named ++ [last ++ ending]
  rw [Text.split, hp, List.filter_append, List.filter_cons_of_pos kept, List.filter_nil]

theorem names_join (p q : Path) : ∃ before, (p.join q).names = before ++ q.names := by
  unfold join
  by_cases h : q.isAbsolute = true
  · exact ⟨[], by rw [if_pos h, List.nil_append]⟩
  · exact ⟨p.names, by rw [if_neg h]⟩

theorem exists_toText_of_names {p : Path} {before : List Text} {last : Text}
    (h : p.names = before ++ [last]) (hne : last ≠ []) : ∃ start, p.toText = start ++ last := by
  obtain ⟨start, hj⟩ := Text.exists_join_concat "/" before last
  refine ⟨p.root ++ start, ?_⟩
  have text : p.root ++ Text.join "/" p.names = p.root ++ start ++ last := by
    rw [h, hj, List.append_assoc]
  have long : (p.root ++ start ++ last).isEmpty = false := by
    rw [List.isEmpty_eq_false_iff]
    exact List.append_ne_nil_of_right_ne_nil _ hne
  unfold toText
  simp only [text, long]
  rfl

end Path

end PullAuth
