import Mathlib.Data.List.Nodup
import PullAuth.Proofs.Registry.Wildcard

/-!
Which of several registries is found, and whether their order matters. The search goes by how much
of the image a scope covers and takes the first of those that cover most (`find?_eq_some_iff`). That
is the one with the longest scope, in whatever order the registries stand, exactly if covering most
goes with being longest (`find?_longest_scope`). Among plain scopes it always does. A wildcard scope
covers a host of any length, so it can cover as much as a longer scope does, and then the order
decides (`find?_of_nested_domains`).
-/
namespace PullAuth.Registry

/-! ## The first of those that cover most -/

/-- The registry covers most of the image. -/
def IsWidest (image : Text) (registries : List Registry) (r : Registry) : Prop :=
  ∃ n, IsBest image registries (some (r, n))

/-- The registry covers more of the image than those before it, and those behind it do not cover
more. -/
def IsFirstWidest (image : Text) (registries : List Registry) (r : Registry) : Prop :=
  ∃ before after n, registries = before ++ r :: after ∧ coverage? r.scope image = some n ∧
    (∀ d ∈ before, ∀ m, coverage? d.scope image = some m → m < n) ∧
    ∀ d ∈ after, ∀ m, coverage? d.scope image = some m → m ≤ n

variable {image : Text} {registries : List Registry} {r : Registry}

theorem isBest_found (image : Text) (registries : List Registry) :
    IsBest image registries (registries.foldl (better image) none) := by
  have first : IsBest image [] none := nofun
  exact isBest_foldl first

theorem isWidest_of_find? (h : find? image registries = some r) :
    IsWidest image registries r := by
  obtain ⟨⟨b, n⟩, best, rfl⟩ := Option.map_eq_some_iff.1 h
  refine ⟨n, ?_⟩
  rw [← best]
  exact isBest_found image registries

theorem find?_eq_none_iff :
    find? image registries = none ↔ ∀ d ∈ registries, coverage? d.scope image = none := by
  have best := isBest_found image registries
  rw [find?, Option.map_eq_none_iff]
  cases hf : registries.foldl (better image) none with
  | none =>
    rw [hf] at best
    exact ⟨fun _ => best, fun _ => rfl⟩
  | some found =>
    obtain ⟨b, n⟩ := found
    rw [hf] at best
    constructor
    · intro absent
      cases absent
    · intro uncovered
      have covered := best.2.1
      rw [uncovered b best.1] at covered
      cases covered

/-- The best registry so far stays the best where no other covers more. -/
theorem foldl_better_of_le {n : Nat}
    (h : ∀ d ∈ registries, ∀ m, coverage? d.scope image = some m → m ≤ n) :
    registries.foldl (better image) (some (r, n)) = some (r, n) := by
  induction registries with
  | nil => rfl
  | cons d registries ih =>
    obtain ⟨first, others⟩ := List.forall_mem_cons.1 h
    have step : better image (some (r, n)) d = some (r, n) := by
      unfold better
      cases hd : coverage? d.scope image with
      | none => rfl
      | some m => exact if_neg (Nat.not_lt.2 (first m hd))
    rw [List.foldl_cons, step]
    exact ih others

theorem find?_of_isFirstWidest (h : IsFirstWidest image registries r) :
    find? image registries = some r := by
  obtain ⟨before, after, n, rfl, covered, less, most⟩ := h
  have next : better image (before.foldl (better image) none) r = some (r, n) := by
    have best := isBest_found image before
    generalize before.foldl (better image) none = found at best ⊢
    rcases found with _ | ⟨b, m⟩
    · simp only [better, covered]
    · simp only [better, covered]
      exact if_pos (less b best.1 m best.2.1)
  rw [find?, List.foldl_append, List.foldl_cons, next, foldl_better_of_le most]
  rfl

/-- Of the registries that cover most there is a first. -/
theorem IsWidest.exists_first (h : IsWidest image registries r) :
    ∃ first, IsFirstWidest image registries first := by
  obtain ⟨n, mem, covered, most⟩ := h
  have present : (registries.find? fun d => coverage? d.scope image = some n).isSome = true :=
    List.find?_isSome.2 ⟨r, mem, decide_eq_true covered⟩
  obtain ⟨first, hf⟩ := Option.isSome_iff_exists.1 present
  obtain ⟨same, before, after, rfl, others⟩ := List.find?_eq_some_iff_append.1 hf
  refine ⟨first, before, after, n, rfl, of_decide_eq_true same, ?_, ?_⟩
  · intro d hd m hm
    have bound := most d (List.mem_append_left _ hd) m hm
    have differs : coverage? d.scope image ≠ some n := by simpa using others d hd
    rw [hm, ne_eq, Option.some.injEq] at differs
    omega
  · intro d hd m hm
    exact most d (List.mem_append_right _ (List.mem_cons_of_mem _ hd)) m hm

/-- Of the registries that cover most of the image the first is found. -/
theorem find?_eq_some_iff :
    find? image registries = some r ↔ IsFirstWidest image registries r := by
  constructor
  · intro h
    obtain ⟨first, hf⟩ := (isWidest_of_find? h).exists_first
    have same := find?_of_isFirstWidest hf
    rw [h, Option.some.injEq] at same
    rwa [same]
  · exact find?_of_isFirstWidest

/-! ## The longest scope -/

/-- The registry has the longest of the scopes that cover the image. -/
def IsLongest (image : Text) (registries : List Registry) (r : Registry) : Prop :=
  r ∈ registries ∧ (coverage? r.scope image).isSome = true ∧
    ∀ d ∈ registries, (coverage? d.scope image).isSome = true → d.scope.length ≤ r.scope.length

instance : Decidable (IsLongest image registries r) :=
  inferInstanceAs (Decidable (_ ∧ _ ∧ ∀ d ∈ registries, _ → _))

/-- What covers most of the image has the longest of the scopes that cover it. -/
def Undisputed (image : Text) (registries : List Registry) : Prop :=
  ∀ r, IsWidest image registries r → IsLongest image registries r

theorem isWidest_congr {order : List Registry} (h : order.Perm registries) :
    IsWidest image order r ↔ IsWidest image registries r := by
  simp only [IsWidest, IsBest, h.mem_iff]

/-- In some order of the registries any that covers most is found. -/
theorem IsWidest.exists_order (h : IsWidest image registries r) :
    ∃ order, order.Perm registries ∧ find? image order = some r := by
  obtain ⟨n, mem, covered, most⟩ := h
  refine ⟨r :: registries.erase r, (List.perm_cons_erase mem).symm, find?_of_isFirstWidest ?_⟩
  refine ⟨[], registries.erase r, n, rfl, covered, nofun, ?_⟩
  intro d hd m hm
  exact most d (List.mem_of_mem_erase hd) m hm

/-- A scope is at most as long as what it covers, unless it is a wildcard scope and the image begins
with the dot of its domain. -/
theorem length_le_of_coverage? {scope : Text} {n : Nat} (dotless : image.head? ≠ some '.')
    (h : coverage? scope image = some n) : scope.length ≤ n := by
  cases hw : isWildcard scope with
  | false => exact Nat.le_of_eq ((coverage?_eq_some_iff hw).1 h).2.symm
  | true =>
    obtain ⟨domain, rfl⟩ := Text.startsWith_iff.1 hw
    obtain ⟨i, below, -, rfl⟩ := coverage?_wildcard_eq_some_iff.1 h
    have length : ("*." ++ domain : Text).length = domain.length + 2 := rfl
    -- With no host before it the domain would begin the image, and its dot would come first.
    have host : i ≠ 0 := by
      rintro rfl
      obtain ⟨rest, rfl⟩ := Text.standsAt_zero_iff.1 below.standsAt
      exact dotless rfl
    rw [length]
    omega

/-- Where a plain scope covers most, no longer scope covers the image. -/
theorem undisputed_of_plain (dotless : image.head? ≠ some '.')
    (plain : ∀ r, IsWidest image registries r → isWildcard r.scope = false) :
    Undisputed image registries := by
  intro r widest
  have own := plain r widest
  obtain ⟨n, mem, covered, most⟩ := widest
  refine ⟨mem, Option.isSome_iff_exists.2 ⟨n, covered⟩, ?_⟩
  intro d hd hc
  obtain ⟨m, hm⟩ := Option.isSome_iff_exists.1 hc
  calc d.scope.length
      ≤ m := length_le_of_coverage? dotless hm
    _ ≤ n := most d hd m hm
    _ = r.scope.length := ((coverage?_eq_some_iff own).1 covered).2

/-- The registry with the longest scope that covers the image is found, and found in every order if
there is only one such scope, exactly if covering most goes with being longest. It does where a
plain scope covers most of an image that begins with no dot. In any case the first of the registries
that cover most is found. -/
theorem find?_longest_scope (image : Text) {registries : List Registry}
    (distinct : (registries.map (·.scope)).Nodup) :
    ((∀ order, order.Perm registries →
        (∀ r, find? image order = some r → IsLongest image registries r) ∧
        ∀ s, IsLongest image registries s →
          (∀ t, IsLongest image registries t → t.scope = s.scope) →
          find? image order = some s) ↔
      Undisputed image registries) ∧
    (image.head? ≠ some '.' →
      (∀ r, IsWidest image registries r → isWildcard r.scope = false) →
      Undisputed image registries) ∧
    ∀ r, find? image registries = some r ↔ IsFirstWidest image registries r := by
  refine ⟨⟨?_, ?_⟩, undisputed_of_plain, fun r => find?_eq_some_iff⟩
  · intro wins r widest
    obtain ⟨order, perm, found⟩ := widest.exists_order
    exact (wins order perm).1 r found
  · intro undisputed order perm
    have longest : ∀ r, find? image order = some r → IsLongest image registries r :=
      fun r found => undisputed r ((isWidest_congr perm).1 (isWidest_of_find? found))
    refine ⟨longest, ?_⟩
    intro s hs only
    cases found : find? image order with
    | none =>
      have uncovered := find?_eq_none_iff.1 found s (perm.mem_iff.2 hs.1)
      have covered := hs.2.1
      rw [uncovered] at covered
      cases covered
    | some r =>
      have hr := longest r found
      exact congrArg some (List.inj_on_of_nodup_map distinct hr.1 hs.1 (only r hr))

/-- A domain, a host below it, and a part of what is on the host. -/
def hostInDomain : List Registry :=
  [⟨"*.example.com", [], []⟩, ⟨"foo.example.com", "foo.example.com", []⟩,
    ⟨"foo.example.com/team", "foo.example.com/team", []⟩]

/-- A part of a host covers more than the host and its domain, and wins in every order. -/
theorem find?_longest_scope_part :
    (hostInDomain.map (·.scope)).Nodup ∧
      ∀ order, order.Perm hostInDomain → find? "foo.example.com/team/app" order =
        some ⟨"foo.example.com/team", "foo.example.com/team", []⟩ := by
  have distinct : (hostInDomain.map (·.scope)).Nodup := by decide
  have part : coverage? "foo.example.com/team" "foo.example.com/team/app" = some 20 := by decide
  have domain : coverage? "*.example.com" "foo.example.com/team/app" = some 15 := by decide
  have plain : ∀ r, IsWidest "foo.example.com/team/app" hostInDomain r →
      isWildcard r.scope = false := by
    intro r ⟨n, mem, covered, most⟩
    have bound := most ⟨"foo.example.com/team", "foo.example.com/team", []⟩ (by decide) 20 part
    simp only [hostInDomain, List.mem_cons, List.not_mem_nil, or_false] at mem
    rcases mem with rfl | rfl | rfl
    · rw [domain, Option.some.injEq] at covered
      omega
    · decide
    · decide
  have only : ∀ t ∈ hostInDomain, IsLongest "foo.example.com/team/app" hostInDomain t →
      t.scope = "foo.example.com/team" := by decide
  have law := find?_longest_scope "foo.example.com/team/app" distinct
  have undisputed := law.2.1 (by decide) plain
  refine ⟨distinct, fun order perm => ?_⟩
  exact (law.1.2 undisputed order perm).2 _ (by decide) fun t ht => only t ht.1 ht

/-- Two domains, one below the other. -/
def nestedDomains : List Registry := [⟨"*.com", [], []⟩, ⟨"*.example.com", [], []⟩]

/-- Both cover as much of a host below them, so the first is found: the longer scope wins in the
reverse order only. -/
theorem find?_of_nested_domains :
    (nestedDomains.map (·.scope)).Nodup ∧
      find? "foo.example.com/app" nestedDomains = some ⟨"*.com", [], []⟩ ∧
      ¬IsLongest "foo.example.com/app" nestedDomains ⟨"*.com", [], []⟩ ∧
      IsLongest "foo.example.com/app" nestedDomains ⟨"*.example.com", [], []⟩ ∧
      find? "foo.example.com/app" nestedDomains.reverse = some ⟨"*.example.com", [], []⟩ := by
  decide

end PullAuth.Registry
