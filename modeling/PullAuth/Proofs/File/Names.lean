import PullAuth.Proofs.File.Spelling
import PullAuth.Proofs.Text.Hexadecimal

/-!
Names in a directory. Behind the path of a directory a name leads to a place in it
(`locate_child`), whatever the path looks like, as long as the name can be that of a file and the
whole is not too long.
-/
namespace PullAuth

/-- The text `name` is written with the bytes `bs`, and neither a slash nor a null character is in
it. -/
structure Spelled (name : Text) (bs : Bytes) : Prop where
  encoded : Utf8.encodeKept? name = some bs
  noSlash : ('/' : CodePoint) ∉ name
  noNull : ('\x00' : CodePoint) ∉ name

/-- A spelled text that can be the name of a file: it is not too long, and it is no name of dots. -/
structure FileName (name : Text) (bs : Bytes) : Prop extends Spelled name bs where
  short : bs.length ≤ 255
  long : 2 < bs.length

/-! ## Names -/

namespace Path

/-- A name in a path: it is neither left out nor split. -/
def IsName (name : Text) : Prop := name ≠ [] ∧ name ≠ "." ∧ ('/' : CodePoint) ∉ name

/-- A name is a path of its own. -/
theorem ofText_of_isName {name : Text} (h : IsName name) : ofText name = ⟨[], [name]⟩ := by
  obtain ⟨present, dot, slash⟩ := h
  have root : rootOf name = [] := by
    cases name with
    | nil => rfl
    | cons c rest =>
      have hc : c ≠ '/' := fun e => slash (e ▸ List.mem_cons_self)
      simp [rootOf, hc]
  let kept (name : Text) : Bool := !(name.isEmpty || name = ".")
  have whole : kept name = true := by simp [kept, present, dot]
  show (⟨rootOf name, (Text.split '/' name).filter kept⟩ : Path) = _
  rw [root, Text.split, Text.pieces_of_not_mem slash, List.filter_cons_of_pos whole,
    List.filter_nil]

/-- Behind a directory a name is a path in it. -/
theorem join_ofText_of_isName (d : Path) {name : Text} (h : IsName name) :
    d.join (ofText name) = d.child name := by
  rw [ofText_of_isName h]
  rfl

end Path

namespace Spelled

theorem append {s t : Text} {a b : Bytes} (hs : Spelled s a) (ht : Spelled t b) :
    Spelled (s ++ t) (a ++ b) := by
  refine ⟨Utf8.encodeKept?_append_eq_some hs.encoded ht.encoded, ?_, ?_⟩
  · rw [List.mem_append, not_or]
    exact ⟨hs.noSlash, ht.noSlash⟩
  · rw [List.mem_append, not_or]
    exact ⟨hs.noNull, ht.noNull⟩

theorem of_hexDigits {t : Text} (h : ∀ c ∈ t, ∃ d < 16, c = CodePoint.hexDigit d) :
    Spelled t (Bytes.ofAscii t) := by
  have digits : ∀ d < 16, (CodePoint.hexDigit d).toNat < 0x80 ∧
      CodePoint.hexDigit d ≠ '/' ∧ CodePoint.hexDigit d ≠ '\x00' := by decide
  have all (c : CodePoint) (hc : c ∈ t) : c.toNat < 0x80 ∧ c ≠ '/' ∧ c ≠ '\x00' := by
    obtain ⟨d, hd, rfl⟩ := h c hc
    exact digits d hd
  exact ⟨Utf8.encodeKept?_of_ascii fun c hc => (all c hc).1, fun hc => (all _ hc).2.1 rfl,
    fun hc => (all _ hc).2.2 rfl⟩

end Spelled

namespace FileName

variable {name : Text} {bs : Bytes}

theorem slash_not_mem (h : FileName name bs) : (0x2F : UInt8) ∉ bs := fun hm =>
  h.noSlash ((Utf8.mem_encodeKept?_iff h.encoded (by decide)).1 hm)

theorem null_not_mem (h : FileName name bs) : (0 : UInt8) ∉ bs := fun hm =>
  h.noNull ((Utf8.mem_encodeKept?_iff h.encoded (by decide)).1 hm)

theorem ne_nil (h : FileName name bs) : bs ≠ [] := by
  intro e
  have := h.long
  rw [e, List.length_nil] at this
  omega

theorem isName (h : FileName name bs) : Path.IsName name := by
  have long := h.long
  have encoded := h.encoded
  refine ⟨?_, ?_, h.noSlash⟩
  · rintro rfl
    cases encoded
    exact absurd long (by decide)
  · rintro rfl
    rw [show Utf8.encodeKept? "." = some [0x2E] by decide] at encoded
    cases encoded
    exact absurd long (by decide)

end FileName

/-! ## The spelling of a path in a directory -/

namespace Path

theorem root_ofText_cases {t : Text} (h : (ofText t).isAbsolute = true) :
    (ofText t).root = "/" ∨ (ofText t).root = "//" := by
  have absolute : (rootOf t).isEmpty = false := by
    rw [← Bool.not_eq_true']
    exact h
  show rootOf t = _ ∨ rootOf t = _
  unfold rootOf at absolute ⊢
  split
  · next none_there =>
    rw [none_there] at absolute
    cases absolute
  · exact .inr rfl
  · exact .inl rfl

theorem root_ne_nil {d : Path} (h : d.root = "/" ∨ d.root = "//") : d.root ≠ [] := by
  rcases h with e | e
  · rw [e]
    decide
  · rw [e]
    decide

theorem toText_eq {p : Path} (h : p.root ≠ []) :
    p.toText = p.root ++ Text.join "/" p.names := by
  have long : (p.root ++ Text.join "/" p.names).isEmpty = false := by
    rw [List.isEmpty_eq_false_iff]
    exact List.append_ne_nil_of_left_ne_nil h _
  unfold toText
  simp only [long]
  rfl

/-- A name is spelled behind a slash, which the root has already. -/
theorem toText_child {d : Path} (h : d.root ≠ []) (name : Text) :
    (d.child name).toText =
      if d.names = [] then d.root ++ name else d.toText ++ "/" ++ name := by
  have child : (d.child name).toText = d.root ++ Text.join "/" (d.names ++ [name]) :=
    toText_eq (p := d.child name) h
  rw [child, toText_eq h]
  by_cases hn : d.names = []
  · rw [if_pos hn, hn, List.nil_append, Text.join, List.intercalate_singleton]
  · rw [if_neg hn, Text.join_concat "/" name hn, List.append_assoc, List.append_assoc,
      List.append_assoc]

end Path

namespace Tree

theorem routeNames_append {bs : Bytes} (before : Bytes) (hs : (0x2F : UInt8) ∉ bs)
    (hne : bs ≠ []) : routeNames (before ++ 0x2F :: bs) = routeNames before ++ [bs] := by
  let named (name : Bytes) : Bool := !name.isEmpty
  have kept : named bs = true := by
    rw [Bool.not_eq_true', List.isEmpty_eq_false_iff]
    exact hne
  have split : Text.pieces 0x2F (before ++ 0x2F :: bs) = Text.pieces 0x2F before ++ [bs] := by
    rw [Text.pieces_append_cons, Text.pieces_of_not_mem hs]
  show (Text.pieces 0x2F (before ++ 0x2F :: bs)).filter named =
    (Text.pieces 0x2F before).filter named ++ [bs]
  rw [split, List.filter_append, List.filter_cons_of_pos kept, List.filter_nil]

theorem exists_encodeKept?_root {root : Text} (h : root = "/" ∨ root = "//") :
    ∃ before, Utf8.encodeKept? root = some (before ++ [0x2F]) ∧ routeNames before = [] ∧
      routeNames (before ++ [0x2F]) = [] ∧ (before ++ [0x2F]).head? = some 0x2F ∧
      0 ∉ before := by
  rcases h with rfl | rfl
  · exact ⟨[], by decide⟩
  · exact ⟨[0x2F], by decide⟩

/-- What is spelled in front of the slash and a name in a directory, against the spelling of the
directory: the same, or without the last of the slashes that it ends with. -/
structure Precedes (outer before : Bytes) : Prop where
  names : routeNames before = routeNames outer
  shorter : before.length ≤ outer.length
  longer : outer.length ≤ before.length + 1
  first : outer.head? = some 0x2F
  rooted : ∀ rest, (before ++ 0x2F :: rest).head? = some 0x2F
  null : 0 ∈ before ↔ 0 ∈ outer

theorem exists_encodeKept?_child {d : Path} (hd : d.root = "/" ∨ d.root = "//") {name : Text}
    {outer bs : Bytes} (ho : Utf8.encodeKept? d.toText = some outer)
    (hn : Utf8.encodeKept? name = some bs) :
    ∃ before, Utf8.encodeKept? (d.child name).toText = some (before ++ 0x2F :: bs) ∧
      Precedes outer before := by
  have root_ne := Path.root_ne_nil hd
  obtain ⟨before, hr, names_before, names_root, head, no_null⟩ := exists_encodeKept?_root hd
  by_cases h : d.names = []
  · -- The slash is the last of those in front.
    rw [Path.toText_eq root_ne, h, Text.join, List.intercalate_nil, List.append_nil, hr] at ho
    cases ho
    refine ⟨before, ?_, names_before.trans names_root.symm, by simp, by simp, head, ?_, ?_⟩
    · rw [Path.toText_child root_ne, if_pos h, Utf8.encodeKept?_append_eq_some hr hn]
      simp
    · intro rest
      rw [List.append_cons, List.head?_append, head]
      rfl
    · simp [no_null]
  · -- The slash is put between.
    have first : outer.head? = some 0x2F := by
      rw [Path.toText_eq root_ne, Utf8.encodeKept?_append, hr] at ho
      obtain ⟨rest, -, rfl⟩ := Option.map_eq_some_iff.1 ho
      rw [List.head?_append, head]
      rfl
    refine ⟨outer, ?_, rfl, Nat.le_refl _, Nat.le_succ _, first, ?_, Iff.rfl⟩
    · have slash : Utf8.encodeKept? "/" = some [0x2F] := by decide
      rw [Path.toText_child root_ne, if_neg h, Utf8.encodeKept?_append_eq_some
        (Utf8.encodeKept?_append_eq_some ho slash) hn]
      simp
    · intro rest
      rw [List.head?_append, first]
      rfl

/-- What a name in a directory is spelled with can be split again. -/
theorem exists_of_encodeKept?_child {d : Path} (hd : d.root = "/" ∨ d.root = "//") {name : Text}
    {whole : Bytes} (h : Utf8.encodeKept? (d.child name).toText = some whole) :
    ∃ outer bs, Utf8.encodeKept? d.toText = some outer ∧ Utf8.encodeKept? name = some bs := by
  have root_ne := Path.root_ne_nil hd
  rw [Path.toText_child root_ne] at h
  by_cases hn : d.names = []
  · rw [if_pos hn] at h
    obtain ⟨outer, bs, ho, hb, -⟩ := Utf8.exists_of_encodeKept?_append h
    refine ⟨outer, bs, ?_, hb⟩
    rw [Path.toText_eq root_ne, hn, Text.join, List.intercalate_nil, List.append_nil, ho]
  · rw [if_neg hn] at h
    obtain ⟨front, bs, hf, hb, -⟩ := Utf8.exists_of_encodeKept?_append h
    obtain ⟨outer, -, ho, -, -⟩ := Utf8.exists_of_encodeKept?_append hf
    exact ⟨outer, bs, ho, hb⟩

/-- A name behind the path of a directory is one more step, and the whole can lead to a file. -/
theorem route_child {d : Path} (hd : d.root = "/" ∨ d.root = "//") {name : Text}
    {outer bs : Bytes} (ho : Utf8.encodeKept? d.toText = some outer) (no_null : 0 ∉ outer)
    (short : outer.length + 256 < 4096) (hn : FileName name bs) :
    outer.head? = some 0x2F ∧
      route (d.child name).toText = .ok ⟨true, routeNames outer ++ [bs], false⟩ := by
  obtain ⟨before, he, precedes⟩ := exists_encodeKept?_child hd ho hn.encoded
  have len : (before ++ 0x2F :: bs).length < 4096 := by
    have := hn.short
    have := precedes.shorter
    rw [List.length_append, List.length_cons]
    omega
  have clean : 0 ∉ before ++ 0x2F :: bs := by
    rw [List.mem_append, List.mem_cons]
    intro h
    obtain h | h | h := h
    · exact no_null (precedes.null.1 h)
    · cases h
    · exact hn.null_not_mem h
  have steps : routeNames (before ++ 0x2F :: bs) = routeNames outer ++ [bs] := by
    rw [routeNames_append before hn.slash_not_mem hn.ne_nil, precedes.names]
  -- The spelling ends with the name, and so not with a slash.
  have ending : (before ++ 0x2F :: bs).getLast? ≠ some 0x2F := by
    rw [List.append_cons]
    exact getLast?_append_ne hn.ne_nil hn.slash_not_mem
  refine ⟨precedes.first, route_eq_ok_iff.2 ⟨_, he, clean, by simp, len, ?_⟩⟩
  rw [steps, decide_eq_true (precedes.rooted bs), decide_eq_false ending]

/-- A path in a directory that can be followed goes on from the path of the directory. -/
theorem exists_route_of_child {d : Path} (hd : d.root = "/" ∨ d.root = "//") {name : Text}
    (named : Path.IsName name) {r : Route} (h : route (d.child name).toText = .ok r) :
    ∃ outer bs, route d.toText = .ok outer ∧ outer.absolute = true ∧
      Utf8.encodeKept? name = some bs ∧ r = ⟨true, outer.names ++ [bs], false⟩ := by
  obtain ⟨whole, hw, clean, -, len, rfl⟩ := route_eq_ok_iff.1 h
  obtain ⟨outer, bs, ho, hb⟩ := exists_of_encodeKept?_child hd hw
  obtain ⟨before, he, precedes⟩ := exists_encodeKept?_child hd ho hb
  obtain rfl := Option.some.inj (he.symm.trans hw)
  have bs_ne_nil := Utf8.ne_nil_of_encodeKept? hb named.1
  have slash : (0x2F : UInt8) ∉ bs := fun hm =>
    named.2.2 ((Utf8.mem_encodeKept?_iff hb (by decide)).1 hm)
  have ending : (before ++ 0x2F :: bs).getLast? ≠ some 0x2F := by
    rw [List.append_cons]
    exact getLast?_append_ne bs_ne_nil slash
  have outer_ne_nil : outer ≠ [] := by
    intro e
    have := precedes.first
    rw [e] at this
    cases this
  have outer_clean : 0 ∉ outer := fun hm =>
    clean (List.mem_append_left _ (precedes.null.2 hm))
  have outer_len : outer.length < 4096 := by
    have := precedes.longer
    rw [List.length_append, List.length_cons] at len
    omega
  refine ⟨_, bs, route_eq_ok_iff.2 ⟨outer, ho, outer_clean, outer_ne_nil, outer_len, rfl⟩,
    decide_eq_true precedes.first, hb, ?_⟩
  rw [routeNames_append before slash bs_ne_nil, precedes.names,
    decide_eq_true (precedes.rooted bs), decide_eq_false ending]

/-! ## Places in a directory -/

/-- An absolute path to the directory at a location that is short enough for one more name. -/
structure PathToDirectory (t : Tree) (d : Path) (at_ : Location) : Prop where
  root : d.root = "/" ∨ d.root = "//"
  short : ∃ outer, Utf8.encodeKept? d.toText = some outer ∧ outer.length + 256 < 4096
  located : t.locate d.toText = .ok at_
  directory : t.HasDirectory at_

theorem PathToDirectory.of_keeps {t after : Tree} {d : Path} {at_ : Location} (hk : Keeps t after)
    (h : PathToDirectory t d at_) : PathToDirectory after d at_ :=
  ⟨h.root, h.short, hk.locate_of_directory h.located (hk.directory at_ h.directory),
    hk.directory at_ h.directory⟩

theorem step_fileName {t : Tree} {at_ : Location} (h : t.HasDirectory at_) {name : Text}
    {bs : Bytes} (hn : FileName name bs) : t.step at_ bs = .ok (at_ ++ [bs]) := by
  have long := hn.long
  refine step_eq_ok_iff.2 ⟨h, .inr (.inr ⟨?_, ?_, hn.short, rfl⟩)⟩
  · intro e
    rw [e] at long
    exact absurd long (by decide)
  · intro e
    rw [e] at long
    exact absurd long (by decide)

/-- A name behind the path of a directory leads to a place in it. -/
theorem locate_child {t : Tree} {d : Path} {at_ : Location} (h : PathToDirectory t d at_)
    {name : Text} {bs : Bytes} (hn : FileName name bs) :
    t.locate (d.child name).toText = .ok (at_ ++ [bs]) := by
  obtain ⟨hd, ⟨outer, ho, short⟩, hl, hat⟩ := h
  obtain ⟨r, hr, walk, -⟩ := locate_eq_ok_iff.1 hl
  obtain ⟨outer', ho', no_null, -, -, rfl⟩ := route_eq_ok_iff.1 hr
  rw [ho] at ho'
  cases ho'
  obtain ⟨head, route_eq⟩ := route_child hd ho no_null short hn
  simp only [head, decide_true, if_true] at walk
  -- The path goes through the directory, and the name is the last step.
  refine locate_eq_ok_iff.2 ⟨_, route_eq, ?_, nofun⟩
  simp only [if_true, List.foldlM_append]
  refine Results.bind_eq_ok_iff.2 ⟨at_, walk, ?_⟩
  rw [List.foldlM_cons]
  exact Results.bind_eq_ok_iff.2 ⟨at_ ++ [bs], step_fileName hat hn, rfl⟩

/-- Where a name in a directory leads, the directory is, and the place is in it. -/
theorem exists_locate_of_child {t : Tree} {d : Path} (hd : d.root = "/" ∨ d.root = "//")
    {name : Text} (named : Path.IsName name) (long : 2 < name.length) {place : Location}
    (h : t.locate (d.child name).toText = .ok place) :
    ∃ at_ bs, Utf8.encodeKept? name = some bs ∧ t.locate d.toText = .ok at_ ∧
      t.HasDirectory at_ ∧ place = at_ ++ [bs] := by
  obtain ⟨r, hr, walk, -⟩ := locate_eq_ok_iff.1 h
  obtain ⟨outer, bs, ho, absolute, hb, rfl⟩ := exists_route_of_child hd named hr
  -- The last step goes to the name, because that is neither one dot nor two.
  have bs_long : 2 < bs.length := Nat.lt_of_lt_of_le long (Utf8.length_le_of_encodeKept? hb)
  simp only [if_true, List.foldlM_append] at walk
  obtain ⟨at_, walked, last⟩ := Results.bind_eq_ok_iff.1 walk
  rw [List.foldlM_cons] at last
  obtain ⟨next, stepped, e⟩ := Results.bind_eq_ok_iff.1 last
  cases e
  obtain ⟨directory, ⟨rfl, -⟩ | ⟨rfl, -⟩ | ⟨-, -, -, rfl⟩⟩ := step_eq_ok_iff.1 stepped
  · exact absurd bs_long (by decide)
  · exact absurd bs_long (by decide)
  · refine ⟨at_, bs, hb, locate_eq_ok_iff.2 ⟨outer, ho, ?_, ?_⟩, directory, rfl⟩
    · rw [absolute]
      exact walked
    · intro _ mode content file
      exact not_hasDirectory_of_file file directory

theorem stat_child_eq_ok_iff {t : Tree} {d : Path} {at_ : Location} (h : PathToDirectory t d at_)
    {name : Text} {bs : Bytes} (hn : FileName name bs) {node : Node} :
    t.stat (d.child name).toText = .ok node ↔ t.node? (at_ ++ [bs]) = some node := by
  rw [stat_eq_ok_iff]
  constructor
  · intro ⟨place, hl, there⟩
    rw [locate_child h hn] at hl
    cases hl
    exact there
  · intro there
    exact ⟨at_ ++ [bs], locate_child h hn, there⟩

end Tree

end PullAuth
