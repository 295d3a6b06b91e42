import PullAuth.Proofs.Merge.Overlay

/-!
Registry names without their scheme. Either scheme is removed once and in a fixed order, so a scheme
is left where a name begins with one of them twice, or with both in the other order
(`hasScheme_normalized_iff`). These are the names that lose more when they are normalized again, and
the only ones from which an entry that applies gets a name with a scheme
(`normalized_idempotent_iff`).
-/
namespace PullAuth.Merge

def http : Text := "http://"

def https : Text := "https://"

def HasScheme (name : Text) : Prop := http <+: name ∨ https <+: name

/-- What names begin with that keep a scheme. -/
def schemeStacks : List Text :=
  [http ++ http, https ++ http, https ++ https, http ++ (https ++ http), http ++ (https ++ https)]

/-- Schemes are stacked in a name so that removing either once leaves one. -/
def Stacked (registry : Text) : Prop := ∃ start ∈ schemeStacks, start <+: registry

theorem normalized_eq (registry : Text) :
    normalized registry = Text.dropStart https (Text.dropStart http registry) := rfl

theorem dropStart_of_not_prefix {start t : Text} (h : ¬start <+: t) : Text.dropStart start t = t :=
  Text.dropStart_of_not_startsWith (Bool.eq_false_iff.2 (mt Text.startsWith_iff.1 h))

/-- No name begins with both schemes. -/
theorem not_https_of_http {t : Text} (h : http <+: t) : ¬https <+: t := fun h' =>
  absurd (List.prefix_of_prefix_length_le h h' (by decide)) (by decide)

theorem not_https_prefix (start t : Text) : ¬https ++ start <+: http ++ t := fun h =>
  not_https_of_http (List.prefix_append _ _) ((List.prefix_append _ _).trans h)

theorem not_http_prefix (start t : Text) : ¬http ++ start <+: https ++ t := fun h =>
  not_https_of_http ((List.prefix_append _ _).trans h) (List.prefix_append _ _)

theorem normalized_http_https (t : Text) : normalized (http ++ (https ++ t)) = t := by
  rw [normalized_eq, Text.dropStart_append, Text.dropStart_append]

theorem normalized_http {t : Text} (h : ¬https <+: t) : normalized (http ++ t) = t := by
  rw [normalized_eq, Text.dropStart_append, dropStart_of_not_prefix h]

theorem normalized_https (t : Text) : normalized (https ++ t) = t := by
  have other : ¬http <+: https ++ t := not_http_prefix [] t
  rw [normalized_eq, dropStart_of_not_prefix other, Text.dropStart_append]

theorem normalized_of_not_hasScheme {t : Text} (h : ¬HasScheme t) : normalized t = t := by
  obtain ⟨not_http, not_https⟩ := not_or.1 h
  rw [normalized_eq, dropStart_of_not_prefix not_http, dropStart_of_not_prefix not_https]

/-- The schemes that a name begins with. -/
theorem scheme_cases (s : Text) :
    (∃ t, s = http ++ (https ++ t)) ∨ (∃ t, s = http ++ t ∧ ¬https <+: t) ∨
      (∃ t, s = https ++ t) ∨ ¬HasScheme s := by
  by_cases first : http <+: s
  · obtain ⟨t, rfl⟩ := first
    by_cases second : https <+: t
    · obtain ⟨u, rfl⟩ := second
      exact .inl ⟨u, rfl⟩
    · exact .inr (.inl ⟨t, rfl, second⟩)
  by_cases second : https <+: s
  · obtain ⟨t, rfl⟩ := second
    exact .inr (.inr (.inl ⟨t, rfl⟩))
  · exact .inr (.inr (.inr (not_or.2 ⟨first, second⟩)))

/-- Names without a scheme are those that are left as they are. -/
theorem normalized_eq_self_iff {s : Text} : normalized s = s ↔ ¬HasScheme s := by
  refine ⟨fun same => ?_, normalized_of_not_hasScheme⟩
  -- Every removal makes a name shorter.
  obtain ⟨t, rfl⟩ | ⟨t, rfl, single⟩ | ⟨t, rfl⟩ | plain := scheme_cases s
  · rw [normalized_http_https, ← List.append_assoc, List.self_eq_append_left] at same
    cases same
  · rw [normalized_http single, List.self_eq_append_left] at same
    cases same
  · rw [normalized_https, List.self_eq_append_left] at same
    cases same
  · exact plain

theorem stacked_iff {s : Text} : Stacked s ↔ http ++ http <+: s ∨ https ++ http <+: s ∨
    https ++ https <+: s ∨ http ++ (https ++ http) <+: s ∨ http ++ (https ++ https) <+: s := by
  simp only [Stacked, schemeStacks, List.mem_cons, List.not_mem_nil, or_false, exists_eq_or_imp,
    exists_eq_left]

/-- A scheme is left in front of a name exactly if schemes are stacked in it. -/
theorem hasScheme_normalized_iff (s : Text) : HasScheme (normalized s) ↔ Stacked s := by
  rw [stacked_iff]
  obtain ⟨t, rfl⟩ | ⟨t, rfl, single⟩ | ⟨t, rfl⟩ | plain := scheme_cases s
  · have other : ¬http <+: https ++ t := not_http_prefix [] t
    simp only [normalized_http_https, List.prefix_append_right_inj, not_https_prefix, other,
      false_or]
    rfl
  · have other (start : Text) : ¬https ++ start <+: t := fun h =>
      single ((List.prefix_append _ _).trans h)
    simp only [normalized_http single, HasScheme, List.prefix_append_right_inj, not_https_prefix,
      single, other, or_false]
  · simp only [normalized_https, HasScheme, List.prefix_append_right_inj, not_http_prefix,
      false_or, or_false]
  · rw [normalized_of_not_hasScheme plain]
    obtain ⟨not_http, not_https⟩ := not_or.1 plain
    have first (start : Text) : ¬http ++ start <+: s := fun h =>
      not_http ((List.prefix_append _ _).trans h)
    have second (start : Text) : ¬https ++ start <+: s := fun h =>
      not_https ((List.prefix_append _ _).trans h)
    simp only [plain, first, second, or_self]

/-! ## Keys -/

/-- The names of the entries that apply are the normalized names of registries that apply. -/
theorem mem_keys_qualifying_iff {configs : List Config} {image name : Text} {mirrors : List Text} :
    name ∈ (qualifying configs image mirrors).map Prod.fst ↔
      applies image mirrors name = true ∧ ∃ config ∈ configs,
        ∃ registry ∈ config.auths.map Prod.fst, name = normalized registry := by
  rw [qualifying, Keyed.keys_ofPairs, List.mem_eraseDups, pairs_eq]
  constructor
  · intro h
    obtain ⟨pair, hp, rfl⟩ := List.mem_map.1 h
    obtain ⟨hp, ha⟩ := List.mem_filter.1 hp
    obtain ⟨entry, he, rfl⟩ := List.mem_map.1 hp
    obtain ⟨config, hc, he⟩ := List.mem_flatMap.1 he
    exact ⟨ha, config, hc, entry.1, List.mem_map_of_mem he, rfl⟩
  · rintro ⟨ha, config, hc, registry, hr, rfl⟩
    obtain ⟨entry, he, rfl⟩ := List.mem_map.1 hr
    have offered := List.mem_flatMap.2 ⟨config, hc, he⟩
    exact List.mem_map.2 ⟨(normalized entry.1, entry.2),
      List.mem_filter.2 ⟨List.mem_map.2 ⟨entry, offered, rfl⟩, ha⟩, rfl⟩

/-- Normalizing is idempotent for the names in which no schemes are stacked and for no others: in
front of these a scheme is left. An entry gets a name with a scheme exactly if it applies and its
registry is given by such a name. -/
theorem normalized_idempotent_iff (s name image : Text) (configs : List Config)
    (mirrors : List Text) :
    (normalized (normalized s) = normalized s ↔ ¬Stacked s) ∧
      (HasScheme (normalized s) ↔ Stacked s) ∧
      (name ∈ (qualifying configs image mirrors).map Prod.fst ∧ HasScheme name ↔
        applies image mirrors name = true ∧ ∃ config ∈ configs,
          ∃ registry ∈ config.auths.map Prod.fst,
            name = normalized registry ∧ Stacked registry) := by
  refine ⟨?_, hasScheme_normalized_iff s, ?_⟩
  · rw [normalized_eq_self_iff, hasScheme_normalized_iff]
  · rw [mem_keys_qualifying_iff, and_assoc]
    refine and_congr_right fun _ => ?_
    constructor
    · rintro ⟨⟨config, hc, registry, hr, rfl⟩, scheme⟩
      exact ⟨config, hc, registry, hr, rfl, (hasScheme_normalized_iff registry).1 scheme⟩
    · rintro ⟨config, hc, registry, hr, rfl, stacked⟩
      exact ⟨⟨config, hc, registry, hr, rfl⟩, (hasScheme_normalized_iff registry).2 stacked⟩

/-- Normalizing a name with two schemes leaves the second one, which goes when it is normalized
again. -/
theorem normalized_https_http :
    normalized "https://http://x" = "http://x" ∧
      normalized (normalized "https://http://x") ≠ normalized "https://http://x" := by
  decide

end PullAuth.Merge
