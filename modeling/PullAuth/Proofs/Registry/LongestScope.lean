import PullAuth.Proofs.Registry.Declared
import PullAuth.Registry.Match

/-!
Which mirrors an image has. `Selects` says it of the tables of a configuration: the mirrors are
those of the last table of the longest scope that covers the image (`Selects.unique`). Where no
scope is a wildcard, the search does just that (`mirrorsOf_longest_scope`), since two scopes of one
length that cover the same image are the same (`Covers.eq_of_length_eq`).
-/
namespace PullAuth.Registry

/-! ## Scopes -/

/-- An image lies in a scope: it is the scope, or goes on behind it with a path, a tag or a
digest. -/
def Covers (scope image : Text) : Prop :=
  image = scope ∨ ∃ (c : CodePoint) (rest : Text),
    image = scope ++ c :: rest ∧ (c = '/' ∨ c = ':' ∨ c = '@')

theorem Covers.isPrefix {scope image : Text} (h : Covers scope image) : scope <+: image := by
  rcases h with rfl | ⟨c, rest, rfl, _⟩
  · exact List.prefix_refl _
  · exact List.prefix_append _ _

theorem Covers.eq_of_length_eq {scope other image : Text} (h : Covers scope image)
    (h' : Covers other image) (hl : scope.length = other.length) : scope = other :=
  (List.prefix_of_prefix_length_le h.isPrefix h'.isPrefix (Nat.le_of_eq hl)).eq_of_length hl

/-- An image lies in a scope if what follows the scope leaves the names in it whole. -/
theorem covers_iff {scope image : Text} :
    Covers scope image ↔ ∃ rest, image = scope ++ rest ∧ endsName rest = true := by
  have ends (rest : Text) : endsName rest = true ↔ rest = [] ∨ ∃ (c : CodePoint) (t : Text),
      rest = c :: t ∧ (c = '/' ∨ c = ':' ∨ c = '@') := by
    cases rest with
    | nil => simp [endsName]
    | cons c t => simp [endsName, or_assoc]
  simp only [ends]
  constructor
  · rintro (e | ⟨c, t, e, hc⟩)
    · exact ⟨[], by rw [e, List.append_nil], .inl rfl⟩
    · exact ⟨c :: t, e, .inr ⟨c, t, rfl, hc⟩⟩
  · rintro ⟨rest, e, rfl | ⟨c, t, rfl, hc⟩⟩
    · exact .inl (by rw [e, List.append_nil])
    · exact .inr ⟨c, t, e, hc⟩

theorem coverage?_eq_some_iff {scope image : Text} {n : Nat} (plain : isWildcard scope = false) :
    coverage? scope image = some n ↔ Covers scope image ∧ n = scope.length := by
  simp only [covers_iff, ← Text.after?_eq_some_iff, coverage?, plain, Bool.false_eq_true, if_false]
  cases Text.after? scope image with
  | none => simp
  | some rest => cases he : endsName rest <;> simp [he, @eq_comm Nat]

/-! ## The best registry -/

/-- The best of the registries so far, with how much of the image it covers. -/
def IsBest (image : Text) (registries : List Registry) : Option (Registry × Nat) → Prop
  | none => ∀ d ∈ registries, coverage? d.scope image = none
  | some (r, n) => r ∈ registries ∧ coverage? r.scope image = some n ∧
      ∀ d ∈ registries, ∀ m, coverage? d.scope image = some m → m ≤ n

theorem isBest_better {image : Text} {registries : List Registry}
    {best : Option (Registry × Nat)} (h : IsBest image registries best) (r : Registry) :
    IsBest image (registries ++ [r]) (better image best r) := by
  have both {P : Registry → Prop} (before : ∀ d ∈ registries, P d) (last : P r) :
      ∀ d ∈ registries ++ [r], P d :=
    List.forall_mem_append.2 ⟨before, List.forall_mem_singleton.2 last⟩
  have isNew : r ∈ registries ++ [r] := List.mem_append_right _ List.mem_cons_self
  have same {m k : Nat} (hm : coverage? r.scope image = some m)
      (hk : coverage? r.scope image = some k) : k = m := Option.some.inj (hk.symm.trans hm)
  rcases best with _ | ⟨b, n⟩
  · cases hr : coverage? r.scope image with
    | none =>
      simp only [better, hr]
      exact both h hr
    | some m =>
      simp only [better, hr]
      refine ⟨isNew, hr, both (fun d hd k hk => ?_) fun k hk => Nat.le_of_eq (same hr hk)⟩
      rw [h d hd] at hk
      cases hk
  · obtain ⟨mem, covered, most⟩ := h
    cases hr : coverage? r.scope image with
    | none =>
      simp only [better, hr]
      exact ⟨List.mem_append_left _ mem, covered, both most (by simp [hr])⟩
    | some m =>
      simp only [better, hr]
      split
      · next more =>
        refine ⟨isNew, hr, both (fun d hd k hk => ?_) fun k hk => Nat.le_of_eq (same hr hk)⟩
        exact Nat.le_trans (most d hd k hk) (Nat.le_of_lt more)
      · next less =>
        -- Of two that cover equally much the first one stays.
        refine ⟨List.mem_append_left _ mem, covered, both most fun k hk => ?_⟩
        exact same hr hk ▸ Nat.le_of_not_lt less

theorem isBest_foldl {image : Text} {before registries : List Registry}
    {best : Option (Registry × Nat)} (h : IsBest image before best) :
    IsBest image (before ++ registries) (registries.foldl (better image) best) := by
  induction registries generalizing before best with
  | nil => rwa [List.append_nil]
  | cons r registries ih =>
    have next := ih (isBest_better h r)
    rwa [List.append_assoc] at next

/-- Where no scope is a wildcard, the registry that is found has the longest scope of those that
cover the image. -/
theorem find?_spec (image : Text) {registries : List Registry}
    (plain : ∀ r ∈ registries, isWildcard r.scope = false) :
    match find? image registries with
    | none => ∀ d ∈ registries, ¬ Covers d.scope image
    | some r => r ∈ registries ∧ Covers r.scope image ∧
        ∀ d ∈ registries, Covers d.scope image → d.scope.length ≤ r.scope.length := by
  have first : IsBest image [] none := nofun
  have best : IsBest image registries (registries.foldl (better image) none) := isBest_foldl first
  rw [find?]
  generalize registries.foldl (better image) none = found at best
  rcases found with _ | ⟨r, n⟩
  · intro d hd covers
    have := (coverage?_eq_some_iff (plain d hd)).2 ⟨covers, rfl⟩
    rw [best d hd] at this
    cases this
  · obtain ⟨mem, covered, most⟩ := best
    obtain ⟨covers, rfl⟩ := (coverage?_eq_some_iff (plain r mem)).1 covered
    refine ⟨mem, covers, fun d hd hc => most d hd _ ?_⟩
    exact (coverage?_eq_some_iff (plain d hd)).2 ⟨hc, rfl⟩

/-! ## Which mirrors an image has -/

/-- The last of the tables that declare its scope. -/
def IsLast (tables : List Toml) (table : Toml) : Prop :=
  ∃ before after, tables = before ++ table :: after ∧
    ∀ t ∈ after, declaredScope t ≠ declaredScope table

/-- The mirrors that an image has by the tables of a configuration. -/
inductive Selects (tables : List Toml) (image : Text) : List Text → Prop
  /-- Those of the last table of the longest scope that covers the image. -/
  | longest {table : Toml} : IsLast tables table → Covers (declaredScope table) image →
    (∀ t ∈ tables, Covers (declaredScope t) image →
      (declaredScope t).length ≤ (declaredScope table).length) →
    Selects tables image (declaredMirrors table)
  /-- No scope covers the image. -/
  | none : (∀ t ∈ tables, ¬ Covers (declaredScope t) image) → Selects tables image []

theorem isLast_iff {tables : List Toml} {table : Toml} :
    IsLast tables table ↔
      (tables.filter fun t => declaredScope t = declaredScope table).getLast? = some table := by
  constructor
  · rintro ⟨before, after, rfl, others⟩
    have nothing : (after.filter fun t => declaredScope t = declaredScope table) = [] :=
      List.filter_eq_nil_iff.2 fun t ht => by simpa using others t ht
    simp [List.filter_append, nothing]
  · intro h
    obtain ⟨earlier, he⟩ := List.getLast?_eq_some_iff.1 h
    obtain ⟨before, rest, rfl, _, hr⟩ := List.filter_eq_append_iff.1 he
    obtain ⟨skipped, after, rfl, _, _, ha⟩ := List.filter_eq_cons_iff.1 hr
    refine ⟨before ++ skipped, after, by simp, fun t ht => ?_⟩
    simpa using List.filter_eq_nil_iff.1 ha t ht

theorem IsLast.mem {tables : List Toml} {table : Toml} (h : IsLast tables table) :
    table ∈ tables := by
  obtain ⟨before, after, rfl, _⟩ := h
  simp

/-- The tables leave no choice. -/
theorem Selects.unique {tables : List Toml} {image : Text} {found other : List Text}
    (h : Selects tables image found) (h' : Selects tables image other) : found = other := by
  cases h with
  | @longest table last covers most =>
    cases h' with
    | @longest table' last' covers' most' =>
      have same : declaredScope table = declaredScope table' :=
        covers.eq_of_length_eq covers'
          (Nat.le_antisymm (most' _ last.mem covers) (most _ last'.mem covers'))
      have one := isLast_iff.1 last
      rw [same, isLast_iff.1 last'] at one
      rw [Option.some.inj one]
    | none nowhere => exact absurd covers (nowhere _ last.mem)
  | none nowhere =>
    cases h' with
    | longest last covers _ => exact absurd covers (nowhere _ last.mem)
    | none _ => rfl

section

variable {tables others : List Toml}
  (same : ∀ scope, (others.filter fun t => declaredScope t = scope) =
    tables.filter fun t => declaredScope t = scope)

include same

theorem mem_of_filter_eq {table : Toml} (h : table ∈ others) : table ∈ tables := by
  have ofScope : table ∈ others.filter fun t => declaredScope t = declaredScope table :=
    List.mem_filter.2 ⟨h, by simp⟩
  rw [same] at ofScope
  exact List.mem_of_mem_filter ofScope

/-- Only the order of tables that declare the same scope matters. -/
theorem Selects.of_filter_eq {image : Text} {found : List Text} (h : Selects tables image found) :
    Selects others image found := by
  cases h with
  | longest last covers most =>
    refine .longest (isLast_iff.2 ?_) covers fun t ht => most t (mem_of_filter_eq same ht)
    rw [same]
    exact isLast_iff.1 last
  | none nowhere => exact .none fun t ht => nowhere t (mem_of_filter_eq same ht)

end

section

variable {tables : List Toml} {defined : List Registry}
  (defines : List.Forall₂ Defines tables defined)

include defines

/-- A registry that counts is the one that the last table of its scope defines. -/
theorem exists_isLast_of_mem_combine {r : Registry} (h : r ∈ combine defined) :
    ∃ table, IsLast tables table ∧ Defines table r := by
  have ofScope : List.Forall₂ Defines (tables.filter fun t => declaredScope t = r.scope)
      (defined.filter fun d => d.scope = r.scope) :=
    List.rel_filter (fun t d (hd : Defines t d) => by simp [(eq_declared_of_defines hd).1]) defines
  obtain ⟨earlier, he⟩ := List.getLast?_eq_some_iff.1 (mem_combine_iff.1 h)
  rw [he, ← List.forall₂_reverse_iff, List.reverse_append] at ofScope
  obtain ⟨table, rest, hd, _, e⟩ := List.forall₂_cons_right_iff.1 ofScope
  refine ⟨table, isLast_iff.2 ?_, hd⟩
  rw [← (eq_declared_of_defines hd).1, ← List.head?_reverse, e]
  rfl

/-- The scopes that count are those that the tables declare. -/
theorem exists_mem_combine_of_mem {table : Toml} (h : table ∈ tables) :
    ∃ r ∈ combine defined, r.scope = declaredScope table := by
  obtain ⟨d, hd, defined_by⟩ := Results.exists_right_of_mem defines h
  have scopes : d.scope ∈ (combine defined).map (·.scope) := by
    rw [scopes_combine, List.mem_eraseDups]
    exact List.mem_map_of_mem hd
  obtain ⟨r, hr, same⟩ := List.mem_map.1 scopes
  exact ⟨r, hr, same.trans (eq_declared_of_defines defined_by).1⟩

theorem selects_find? (image : Text) (plain : ∀ r ∈ combine defined, isWildcard r.scope = false) :
    Selects tables image (((find? image (combine defined)).map (·.mirrors)).getD []) := by
  have spec := find?_spec image plain
  cases hf : find? image (combine defined) with
  | none =>
    rw [hf] at spec
    refine .none fun t ht covers => ?_
    obtain ⟨r, hr, e⟩ := exists_mem_combine_of_mem defines ht
    exact spec r hr (e ▸ covers)
  | some r =>
    rw [hf] at spec
    obtain ⟨mem, covers, most⟩ := spec
    obtain ⟨table, last, hd⟩ := exists_isLast_of_mem_combine defines mem
    obtain ⟨scope, mirrors⟩ := eq_declared_of_defines hd
    rw [scope] at covers most
    rw [Option.map_some, Option.getD_some, mirrors]
    refine .longest last covers fun t ht hc => ?_
    obtain ⟨d, hd, e⟩ := exists_mem_combine_of_mem defines ht
    rw [← e]
    exact most d hd (e ▸ hc)

end

theorem mirrorsOf_of_load {tree : Tree} {conf dir image : Text} {registries : List Registry}
    (hl : load tree conf dir = .ok registries) (hi : image ≠ []) :
    mirrorsOf tree conf dir image = .ok (((find? image registries).map (·.mirrors)).getD []) := by
  rw [mirrorsOf_eq, if_neg (by simpa using hi), hl]
  rfl

/-- The mirrors of an image are those of the last table of the longest scope that covers it. Tables
of different scopes may stand in any order. -/
theorem mirrorsOf_longest_scope {tree : Tree} {conf dir image : Text} {registries : List Registry}
    (hl : load tree conf dir = .ok registries)
    (plain : ∀ r ∈ registries, isWildcard r.scope = false) (hi : image ≠ []) :
    ∃ names held found,
      InOrder names ∧ names.Perm (dropInNames tree dir) ∧
      List.Forall₂ (Holds tree) (Path.ofText conf :: names.map (Path.ofText dir).child) held ∧
      mirrorsOf tree conf dir image = .ok found ∧ Selects held.flatten image found ∧
      ∀ tree' conf' dir' registries' paths' held', load tree' conf' dir' = .ok registries' →
        configurationPaths tree' conf' dir' = .ok paths' →
        List.Forall₂ (Holds tree') paths' held' →
        (∀ scope, (held'.flatten.filter fun t => declaredScope t = scope) =
          held.flatten.filter fun t => declaredScope t = scope) →
        mirrorsOf tree' conf' dir' image = .ok found := by
  obtain ⟨paths, held, defined, hp, holds, defines, rfl⟩ := load_eq_ok_iff.1 hl
  obtain ⟨names, rfl, ordered, perm⟩ := configurationPaths_spec hp
  have selects := selects_find? defines image plain
  refine ⟨names, held, _, ordered, perm, holds, mirrorsOf_of_load hl hi, selects, ?_⟩
  intro tree' conf' dir' registries' paths' held' hl' hp' holds' same
  obtain ⟨_, _, defined', hq, holdsq, defines', rfl⟩ := load_eq_ok_iff.1 hl'
  cases hp'.symm.trans hq
  cases holds_unique holds' holdsq
  -- The other configuration has no other scopes, so none of them is a wildcard either.
  have plain' : ∀ r ∈ combine defined', isWildcard r.scope = false := by
    intro r hr
    obtain ⟨table, last, hd⟩ := exists_isLast_of_mem_combine defines' hr
    obtain ⟨d, mem, e⟩ := exists_mem_combine_of_mem defines (mem_of_filter_eq same last.mem)
    rw [(eq_declared_of_defines hd).1, ← e]
    exact plain d mem
  have selects' := (selects_find? defines' image plain').of_filter_eq fun scope =>
    (same scope).symm
  rw [mirrorsOf_of_load hl' hi, selects'.unique selects]

theorem mirrorsOf_longest_scope_overriding :
    ∃ held, List.Forall₂ (Holds overridingTree) overridingPaths held ∧
      Selects held.flatten "quay.io/team/app:1" [("b.io" : Text)] ∧
      mirrorsOf overridingTree "/r.conf" "/d" "quay.io/team/app:1" = .ok [("b.io" : Text)] := by
  have given : ("quay.io/team/app:1" : Text) ≠ [] := by decide
  obtain ⟨names, held, found, ordered, perm, holds, hm, selects, -⟩ :=
    mirrorsOf_longest_scope load_overriding (by decide) given
  have mirrors : found = [("b.io" : Text)] := by
    rw [mirrorsOf_of_load load_overriding given] at hm
    rw [← Except.ok.inj hm]
    decide
  have two : names = ["a.conf", "b.conf"] :=
    ordered.eq_of_perm inOrder_overriding
      (perm.trans (dropInNames_overriding ▸ List.Perm.swap _ _ _))
  subst mirrors two
  exact ⟨held, holds, selects, hm⟩

end PullAuth.Registry
