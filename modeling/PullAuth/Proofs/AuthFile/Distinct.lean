import PullAuth.Proofs.AuthFile.Confinement

/-!
When two credential files have one path. What stands behind the namespace in the name of a file is
of the same length for every image, so a name tells the namespace and the digest, whatever
characters are in the namespace (`fileName_inj`). Two files of a directory then have one path
exactly if they agree in both, and their images are the same unless two messages with one SHA-256
digest have been found (`path_distinct`).
-/
namespace PullAuth

theorem Bytes.toHex_injective : Function.Injective Bytes.toHex := by
  intro a b h
  have back := congrArg ofHex? h
  rwa [ofHex?_toHex, ofHex?_toHex, Option.some.injEq] at back

namespace AuthFile

/-! ## Digests and names -/

/-- The bytes of two images differ, but not their digests. -/
def Collide (i₁ i₂ : Text) : Prop :=
  ∃ b₁ b₂, Utf8.encode? i₁ = some b₁ ∧ Utf8.encode? i₂ = some b₂ ∧ b₁ ≠ b₂ ∧
    Sha256.digest b₁ = Sha256.digest b₂

/-- Nothing but a collision gives two images one digest. -/
theorem eq_or_collide {i₁ i₂ digest : Text} (h₁ : digest? i₁ = some digest)
    (h₂ : digest? i₂ = some digest) : i₁ = i₂ ∨ Collide i₁ i₂ := by
  obtain ⟨b₁, e₁, d₁⟩ := Option.map_eq_some_iff.1 h₁
  obtain ⟨b₂, e₂, d₂⟩ := Option.map_eq_some_iff.1 h₂
  have same : Sha256.digest b₁ = Sha256.digest b₂ := Bytes.toHex_injective (d₁.trans d₂.symm)
  by_cases h : b₁ = b₂
  · subst h
    exact .inl (Utf8.eq_of_encode? e₁ e₂)
  · exact .inr ⟨b₁, b₂, e₁, e₂, h, same⟩

/-- The name of a file is taken apart from its end, where a digest always takes as much room. -/
theorem fileName_inj {n₁ n₂ i₁ i₂ d₁ d₂ : Text} (h₁ : digest? i₁ = some d₁)
    (h₂ : digest? i₂ = some d₂) : fileName n₁ d₁ = fileName n₂ d₂ ↔ n₁ = n₂ ∧ d₁ = d₂ := by
  constructor
  · intro h
    rw [fileName_eq, fileName_eq] at h
    have room : (ending d₁).length = (ending d₂).length := by
      rw [length_ending h₁, length_ending h₂]
    obtain ⟨names, endings⟩ := List.append_inj' h room
    obtain ⟨dashed, -⟩ := List.append_inj' endings rfl
    exact ⟨names, List.append_cancel_left dashed⟩
  · rintro ⟨rfl, rfl⟩
    rfl

/-! ## Paths -/

section
variable {dir n₁ n₂ i₁ i₂ : Text} {p₁ p₂ : Path}

/-- The path of a file as it is written out tells the namespace and the image. -/
theorem eq_of_toText_path (hs₁ : ('/' : CodePoint) ∉ n₁) (hs₂ : ('/' : CodePoint) ∉ n₂)
    (h₁ : path dir n₁ i₁ = .ok p₁) (h₂ : path dir n₂ i₂ = .ok p₂)
    (same : p₁.toText = p₂.toText) :
    n₁ = n₂ ∧ ∃ digest, digest? i₁ = some digest ∧ digest? i₂ = some digest := by
  have paths : p₁ = p₂ := by
    rw [← Path.ofText_toText (isCanonical_path h₁), same,
      Path.ofText_toText (isCanonical_path h₂)]
  obtain ⟨d₁, hd₁, e₁⟩ := exists_eq_child_of_path hs₁ h₁
  obtain ⟨d₂, hd₂, e₂⟩ := exists_eq_child_of_path hs₂ h₂
  have names : fileName n₁ d₁ = fileName n₂ d₂ := by
    rw [← Path.name_child (Path.ofText dir) (fileName n₁ d₁), ← e₁, paths, e₂, Path.name_child]
  obtain ⟨rfl, rfl⟩ := (fileName_inj hd₁ hd₂).1 names
  exact ⟨rfl, d₁, hd₁, hd₂⟩

/-- In a directory there is one file for each namespace and digest: two files have one path exactly
if they agree in both. Paths that are written out alike are those of one namespace and one image,
or SHA-256 collides on the images. -/
theorem path_distinct (absolute : (Path.ofText dir).isAbsolute = true)
    (hn₁ : n₁ ≠ []) (hn₂ : n₂ ≠ []) (hi₁ : i₁ ≠ []) (hi₂ : i₂ ≠ [])
    (hs₁ : ('/' : CodePoint) ∉ n₁) (hs₂ : ('/' : CodePoint) ∉ n₂) :
    ((∃ p, path dir n₁ i₁ = .ok p ∧ path dir n₂ i₂ = .ok p) ↔
      n₁ = n₂ ∧ ∃ digest, digest? i₁ = some digest ∧ digest? i₂ = some digest) ∧
    (∀ p₁ p₂, path dir n₁ i₁ = .ok p₁ → path dir n₂ i₂ = .ok p₂ → p₁.toText = p₂.toText →
      n₁ = n₂ ∧ (i₁ = i₂ ∨ Collide i₁ i₂)) := by
  refine ⟨⟨?_, ?_⟩, fun p₁ p₂ h₁ h₂ same => ?_⟩
  · rintro ⟨p, h₁, h₂⟩
    exact eq_of_toText_path hs₁ hs₂ h₁ h₂ rfl
  · rintro ⟨rfl, digest, hd₁, hd₂⟩
    exact ⟨_, path_eq_ok_iff.2 ⟨hn₁, hi₁, absolute, digest, hd₁, rfl⟩,
      path_eq_ok_iff.2 ⟨hn₁, hi₂, absolute, digest, hd₂, rfl⟩⟩
  · obtain ⟨names, digest, hd₁, hd₂⟩ := eq_of_toText_path hs₁ hs₂ h₁ h₂ same
    exact ⟨names, eq_or_collide hd₁ hd₂⟩

end

/-- The file of a namespace that is itself spelled like the name of the file of `team`. -/
def fileOfLookalike : Path :=
  ⟨"/", ["auth", fileOfTeam.name ++
    "-f8ce045f22f764bab0ea9cbdee3a7986ca7f9c295d801d675f54acd239c9d0e9.json"]⟩

theorem path_distinct_lookalike :
    path "/auth" "team" "quay.io/app" = .ok fileOfTeam ∧
      path "/auth" fileOfTeam.name "quay.io/app" = .ok fileOfLookalike ∧
      ¬∃ p, path "/auth" "team" "quay.io/app" = .ok p ∧
        path "/auth" fileOfTeam.name "quay.io/app" = .ok p := by
  have team : (path "/auth" "team" "quay.io/app").toOption = some fileOfTeam := by
    decide +kernel
  have lookalike : (path "/auth" fileOfTeam.name "quay.io/app").toOption =
      some fileOfLookalike := by
    decide +kernel
  rw [Results.toOption_eq_some_iff] at team lookalike
  refine ⟨team, lookalike, fun shared => ?_⟩
  have apart : ("team" : Text) ≠ fileOfTeam.name := by decide
  exact apart ((path_distinct (by decide) (by decide) (by decide) (by decide) (by decide)
    (by decide) (by decide)).1.1 shared).1

end AuthFile

end PullAuth
