import PullAuth.Proofs.Registry.LongestScope
import PullAuth.Proofs.Text.Occurrences

/-!
Which references a wildcard scope covers. A reference lies below a domain if the domain, with a dot
before it, ends a name in the part before the first slash (`LiesBelow`); there may be several places
in one reference where it does. A wildcard scope looks at the first place where the domain stands,
whether it ends a name there or not. So whatever it covers lies below its domain, and it misses the
references in which the domain begins a longer name before it ends one (`coverage?_wildcard`).
-/
namespace PullAuth.Registry

/-- The reference lies below the domain, which ends a name of it behind `i` code points: it lies in
a scope that is a host below the domain. -/
def LiesBelow (domain ref : Text) (i : Nat) : Prop :=
  ∃ host : Text, host.length = i ∧ ('/' : CodePoint) ∉ host ∧
    Covers (host ++ ("." ++ domain : Text)) ref

theorem LiesBelow.standsAt {domain ref : Text} {i : Nat} (h : LiesBelow domain ref i) :
    Text.StandsAt ("." ++ domain) ref i := by
  obtain ⟨host, length, -, covers⟩ := h
  obtain ⟨rest, e, -⟩ := covers_iff.1 covers
  exact ⟨host, rest, e, length⟩

/-- A wildcard scope covers a reference up to the end of its domain, if the reference lies below
the domain at the first place where that stands. -/
theorem coverage?_wildcard_eq_some_iff {domain ref : Text} {n : Nat} :
    coverage? ("*." ++ domain) ref = some n ↔
      ∃ i, LiesBelow domain ref i ∧ Text.FirstAt ("." ++ domain) ref i ∧
        n = i + (domain.length + 1) := by
  have wildcard : isWildcard ("*." ++ domain) = true := Text.startsWith_iff.2 ⟨domain, rfl⟩
  have behind : ("*." ++ domain : Text).drop 1 = "." ++ domain := rfl
  have length : ("." ++ domain : Text).length = domain.length + 1 := rfl
  have spec := Text.cutAt?_spec ("." ++ domain) ref
  rw [coverage?, if_pos wildcard, behind]
  simp only [length]
  cases hc : Text.cutAt? ("." ++ domain) ref with
  | none =>
    rw [hc] at spec
    simp only [reduceCtorEq, false_iff]
    rintro ⟨i, below, -⟩
    exact spec i below.standsAt
  | some found =>
    obtain ⟨host, rest⟩ := found
    rw [hc] at spec
    obtain ⟨e, first⟩ := spec
    -- The text before the first place is the host, wherever a reference lies below the domain.
    have below_iff : LiesBelow domain ref host.length ↔
        ('/' : CodePoint) ∉ host ∧ endsName rest = true := by
      constructor
      · rintro ⟨other, hl, slash, covers⟩
        obtain ⟨rest', e', ends⟩ := covers_iff.1 covers
        obtain ⟨hosts, rfl⟩ := List.append_inj (e.symm.trans e') (by simp [hl])
        rw [List.append_cancel_right hosts]
        exact ⟨slash, ends⟩
      · rintro ⟨slash, ends⟩
        exact ⟨host, rfl, slash, covers_iff.2 ⟨rest, e, ends⟩⟩
    have found_iff : (∃ i, LiesBelow domain ref i ∧ Text.FirstAt ("." ++ domain) ref i ∧
        n = i + (domain.length + 1)) ↔
        LiesBelow domain ref host.length ∧ n = host.length + (domain.length + 1) := by
      constructor
      · rintro ⟨i, below, at_, h⟩
        rw [at_.unique first] at below h
        exact ⟨below, h⟩
      · rintro ⟨below, h⟩
        exact ⟨_, below, first, h⟩
    rw [found_iff, below_iff]
    by_cases hs : ('/' : CodePoint) ∈ host
    · simp [hs]
    · cases he : endsName rest <;> simp [hs, he, @eq_comm Nat]

/-- What a wildcard scope covers. Whatever is covered lies below the domain and is covered up to the
end of it; and that all references below the domain are covered holds exactly where the first
place of the domain is one at which it ends a name. -/
theorem coverage?_wildcard (domain ref : Text) :
    (∀ n, coverage? ("*." ++ domain) ref = some n →
      ∃ i, LiesBelow domain ref i ∧ n = i + (domain.length + 1)) ∧
    (∀ i, LiesBelow domain ref i → Text.FirstAt ("." ++ domain) ref i →
      coverage? ("*." ++ domain) ref = some (i + (domain.length + 1))) ∧
    (((coverage? ("*." ++ domain) ref).isSome = true ↔ ∃ i, LiesBelow domain ref i) ↔
      ∀ i j, LiesBelow domain ref i → Text.FirstAt ("." ++ domain) ref j →
        LiesBelow domain ref j) := by
  have sound : ∀ n, coverage? ("*." ++ domain) ref = some n →
      ∃ i, LiesBelow domain ref i ∧ n = i + (domain.length + 1) := by
    intro n h
    obtain ⟨i, below, -, e⟩ := coverage?_wildcard_eq_some_iff.1 h
    exact ⟨i, below, e⟩
  have complete : ∀ i, LiesBelow domain ref i → Text.FirstAt ("." ++ domain) ref i →
      coverage? ("*." ++ domain) ref = some (i + (domain.length + 1)) :=
    fun i below first => coverage?_wildcard_eq_some_iff.2 ⟨i, below, first, rfl⟩
  refine ⟨sound, complete, ?_⟩
  constructor
  · intro all i j below first
    obtain ⟨n, hn⟩ := Option.isSome_iff_exists.1 (all.2 ⟨i, below⟩)
    obtain ⟨k, found, at_, -⟩ := coverage?_wildcard_eq_some_iff.1 hn
    rwa [at_.unique first] at found
  · intro firsts
    constructor
    · intro h
      obtain ⟨n, hn⟩ := Option.isSome_iff_exists.1 h
      obtain ⟨i, below, -⟩ := sound n hn
      exact ⟨i, below⟩
    · intro ⟨i, below⟩
      -- Since the domain stands somewhere, there is a first place.
      obtain ⟨j, first⟩ := below.standsAt.exists_firstAt
      rw [complete j (firsts i j below first) first]
      rfl

/-- The domain begins a longer name before it ends one, and the reference below it is missed. -/
theorem coverage?_of_longer_name :
    LiesBelow "com" "registry.company.com" 16 ∧
      coverage? "*.com" "registry.company.com" = none :=
  ⟨⟨"registry.company", rfl, by decide, .inl rfl⟩, by decide⟩

end PullAuth.Registry
