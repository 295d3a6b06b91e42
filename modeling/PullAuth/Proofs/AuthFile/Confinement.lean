import PullAuth.Proofs.AuthFile.AllOrNothing
import PullAuth.Proofs.File.Canonical

/-!
When a credential file stays in its directory. A namespace is taken as it comes, and a path put
behind a directory may lead out of it. It stays there exactly if the namespace has no slash, and
then nothing is written but the file of that name in the directory (`path_confined`).
-/
namespace PullAuth

theorem Sha256.length_bigEndian (count n : Nat) : (bigEndian count n).length = count := by
  induction count with
  | zero => rfl
  | succ count ih => rw [bigEndian, List.length_cons, ih]

theorem Sha256.length_digest (message : Bytes) : (digest message).length = 32 := by
  simp [digest, length_bigEndian]

namespace AuthFile

/-! ## The name of the file -/

/-- What stands behind the namespace in the name of a file. -/
def ending (digest : Text) : Text := "-" ++ digest ++ ".json"

theorem fileName_eq (namespaceName digest : Text) :
    fileName namespaceName digest = namespaceName ++ ending digest := by
  simp only [fileName, ending, List.append_assoc]

section
variable {image digest : Text} (hd : digest? image = some digest)
include hd

theorem length_ending : (ending digest).length = 70 := by
  obtain ⟨message, -, rfl⟩ := Option.map_eq_some_iff.1 hd
  have hex : (Sha256.digest message).toHex.length = 64 := by
    rw [Bytes.length_toHex, Sha256.length_digest]
  have dash : ("-" : Text).length = 1 := rfl
  have five : (".json" : Text).length = 5 := rfl
  simp only [ending, List.length_append, hex, dash, five]

/-- The ending is spelled in ASCII, without a slash or a null character. -/
theorem spelled_ending : Spelled (ending digest) (Bytes.ofAscii (ending digest)) := by
  obtain ⟨message, -, rfl⟩ := Option.map_eq_some_iff.1 hd
  have dash : Spelled "-" (Bytes.ofAscii "-") := by
    constructor <;> decide
  have last : Spelled ".json" (Bytes.ofAscii ".json") := by
    constructor <;> decide
  have digits := Spelled.of_hexDigits fun c (hc : c ∈ (Sha256.digest message).toHex) =>
    Text.exists_of_mem_toHex hc
  have spelled := (dash.append digits).append last
  simp only [Bytes.ofAscii, ← List.map_append] at spelled
  exact spelled

theorem isAscii_ending : (ending digest).IsAscii := by
  obtain ⟨message, -, rfl⟩ := Option.map_eq_some_iff.1 hd
  have digits : (Sha256.digest message).toHex.IsAscii := fun c hc => Text.lt_of_mem_toHex hc
  exact (Text.IsAscii.append (by decide) digits).append (by decide)

/-- Besides the namespace no slash is in the name of the file. -/
theorem slash_mem_fileName_iff (namespaceName : Text) :
    ('/' : CodePoint) ∈ fileName namespaceName digest ↔ ('/' : CodePoint) ∈ namespaceName := by
  rw [fileName_eq, List.mem_append]
  simp [(spelled_ending hd).noSlash]

theorem length_fileName (namespaceName : Text) :
    (fileName namespaceName digest).length = namespaceName.length + 70 := by
  rw [fileName_eq, List.length_append, length_ending hd]

theorem isName_fileName {namespaceName : Text} (hs : ('/' : CodePoint) ∉ namespaceName) :
    Path.IsName (fileName namespaceName digest) := by
  have long := length_fileName hd namespaceName
  refine ⟨?_, ?_, fun h => hs ((slash_mem_fileName_iff hd namespaceName).1 h)⟩
  · intro e
    rw [e, List.length_nil] at long
    omega
  · intro e
    rw [e, show ("." : Text).length = 1 from rfl] at long
    omega

/-- The bytes of the name of a file are those of the namespace and the ending. -/
theorem exists_of_encodeKept?_fileName {namespaceName : Text} {bs : Bytes}
    (h : Utf8.encodeKept? (fileName namespaceName digest) = some bs) :
    ∃ start, Utf8.encodeKept? namespaceName = some start ∧
      bs = start ++ Bytes.ofAscii (ending digest) := by
  rw [fileName_eq] at h
  obtain ⟨start, rest, hs, hr, rfl⟩ := Utf8.exists_of_encodeKept?_append h
  rw [(spelled_ending hd).encoded] at hr
  exact ⟨start, hs, by rw [Option.some.inj hr]⟩

end

/-! ## The directory of the file -/

/-- The path of a credential file is the one that its text spells. -/
theorem isCanonical_path {dir namespaceName image : Text} {p : Path}
    (h : path dir namespaceName image = .ok p) : p.IsCanonical := by
  obtain ⟨-, -, absolute, digest, -, rfl⟩ := path_eq_ok_iff.1 h
  exact Path.isCanonical_join (Path.isCanonical_ofText absolute) _

section
variable {dir namespaceName image : Text} {p : Path}

/-- Without a slash in the namespace the file is in the directory, under its name. -/
theorem exists_eq_child_of_path (hs : ('/' : CodePoint) ∉ namespaceName)
    (h : path dir namespaceName image = .ok p) :
    ∃ digest, digest? image = some digest ∧
      p = (Path.ofText dir).child (fileName namespaceName digest) := by
  obtain ⟨-, -, -, digest, hd, rfl⟩ := path_eq_ok_iff.1 h
  exact ⟨digest, hd, Path.join_ofText_of_isName _ (isName_fileName hd hs)⟩

/-- A file with that name in the directory has no slash in its name. -/
theorem slash_not_mem_of_name {digest : Text} (h : path dir namespaceName image = .ok p)
    (hd : digest? image = some digest) (hn : p.name = fileName namespaceName digest) :
    ('/' : CodePoint) ∉ namespaceName := by
  have present : p.names ≠ [] := by
    intro e
    have long := length_fileName hd namespaceName
    rw [← hn, Path.name, e, List.getLastD_nil, List.length_nil] at long
    omega
  have mem : p.name ∈ p.names := by
    rw [Path.name, List.getLastD_eq_getLast?, List.getLast?_eq_some_getLast present]
    exact List.getLast_mem present
  -- Every name in the path that comes out is without a slash.
  have named := (isCanonical_path h).names _ mem
  rw [hn] at named
  exact fun slash => named.2.2 ((slash_mem_fileName_iff hd _).2 slash)

/-- What is written lies in the directory. -/
theorem exists_place_of_puts (hs : ('/' : CodePoint) ∉ namespaceName)
    (h : path dir namespaceName image = .ok p) {before after : Tree} {place : Location}
    {file : Nat × Bytes} (put : Tree.Puts p.toText place file before after) :
    ∃ at_ bs, after.locate (Path.ofText dir).toText = .ok at_ ∧ after.HasDirectory at_ ∧
      Utf8.encodeKept? p.name = some bs ∧ place = at_ ++ [bs] := by
  obtain ⟨-, -, absolute, -⟩ := path_eq_ok_iff.1 h
  obtain ⟨digest, hd, rfl⟩ := exists_eq_child_of_path hs h
  have long : 2 < (fileName namespaceName digest).length := by
    have := length_fileName hd namespaceName
    omega
  obtain ⟨at_, bs, hb, located, directory, rfl⟩ := Tree.exists_locate_of_child
    (Path.root_ofText_cases absolute) (isName_fileName hd hs) long put.located
  rw [Path.name_child]
  exact ⟨at_, bs, located, directory, hb, rfl⟩

/-- The file of a namespace and an image is in the directory itself, under the name that is made of
the namespace and the digest of the image, exactly if no slash is in the namespace. Then nothing is
ever written but the file in the place of that name in the directory. -/
theorem path_confined (h : path dir namespaceName image = .ok p) :
    ((p.parent = Path.ofText dir ∧
        ∃ digest, digest? image = some digest ∧ p.name = fileName namespaceName digest) ↔
      ('/' : CodePoint) ∉ namespaceName) ∧
    (('/' : CodePoint) ∉ namespaceName → ∀ (contents : Document) (before after : Tree),
      (∀ failure, write dir namespaceName image contents before = (.error failure, after) →
        Tree.SameFiles before after) ∧
      (∀ found, write dir namespaceName image contents before = (.ok found, after) →
        found = p ∧ ∃ at_ bs bytes,
          after.locate (Path.ofText dir).toText = .ok at_ ∧ after.HasDirectory at_ ∧
          Utf8.encodeKept? p.name = some bs ∧
          Tree.Puts p.toText (at_ ++ [bs]) (fileMode, bytes) before after)) := by
  refine ⟨⟨?_, fun hs => ?_⟩, fun hs contents before after => ?_⟩
  · rintro ⟨-, digest, hd, hn⟩
    exact slash_not_mem_of_name h hd hn
  · obtain ⟨digest, hd, rfl⟩ := exists_eq_child_of_path hs h
    exact ⟨Path.parent_child _ _, digest, hd, Path.name_child _ _⟩
  · have ended := write_outcome dir namespaceName image contents before
    constructor
    · intro failure hw
      rw [hw] at ended
      exact ended
    · intro found hw
      rw [hw] at ended
      obtain ⟨hp, bytes, -, place, put⟩ := ended
      obtain rfl : found = p := Except.ok.inj (hp.symm.trans h)
      obtain ⟨at_, bs, located, directory, hb, rfl⟩ := exists_place_of_puts hs h put
      exact ⟨rfl, at_, bs, bytes, located, directory, hb, put⟩

end

/-- The file of the namespace `team` and the image `quay.io/app`. -/
def fileOfTeam : Path :=
  ⟨"/", ["auth",
    "team-f8ce045f22f764bab0ea9cbdee3a7986ca7f9c295d801d675f54acd239c9d0e9.json"]⟩

theorem path_confined_plain :
    path "/auth" "team" "quay.io/app" = .ok fileOfTeam ∧
      fileOfTeam.parent = Path.ofText "/auth" ∧
      ∃ after at_ bs bytes,
        write "/auth" "team" "quay.io/app" smallDocument {} = (.ok fileOfTeam, after) ∧
        Tree.Puts fileOfTeam.toText (at_ ++ [bs]) (fileMode, bytes) {} after := by
  have found : (path "/auth" "team" "quay.io/app").toOption = some fileOfTeam := by
    decide +kernel
  have returned : (write "/auth" "team" "quay.io/app" smallDocument {}).1.toOption =
      some fileOfTeam := by
    decide +kernel
  rw [Results.toOption_eq_some_iff] at found returned
  obtain ⟨inside, written⟩ := path_confined found
  obtain ⟨parent, -⟩ := inside.2 (by decide)
  cases hw : write "/auth" "team" "quay.io/app" smallDocument {} with
  | mk result after =>
    rw [hw] at returned
    obtain rfl : result = .ok fileOfTeam := returned
    obtain ⟨-, at_, bs, bytes, -, -, -, put⟩ :=
      (written (by decide) smallDocument {} after).2 fileOfTeam hw
    exact ⟨found, parent, after, at_, bs, bytes, rfl, put⟩

/-- A file of the namespace `/etc/cron.d/x`. -/
def fileOutside : Path :=
  ⟨"/", ["etc", "cron.d",
    "x-f8ce045f22f764bab0ea9cbdee3a7986ca7f9c295d801d675f54acd239c9d0e9.json"]⟩

/-- A namespace that begins with a slash directs the file out of the directory. -/
theorem write_outside :
    path "/auth" "/etc/cron.d/x" "quay.io/app" = .ok fileOutside ∧
      fileOutside.parent = Path.ofText "/etc/cron.d" ∧
      fileOutside.parent ≠ Path.ofText "/auth" ∧
      ∃ after content,
        write "/auth" "/etc/cron.d/x" "quay.io/app" smallDocument {} = (.ok fileOutside, after) ∧
        after.read fileOutside.toText = .ok content := by
  have found : (path "/auth" "/etc/cron.d/x" "quay.io/app").toOption = some fileOutside := by
    decide +kernel
  have returned : (write "/auth" "/etc/cron.d/x" "quay.io/app" smallDocument {}).1.toOption =
      some fileOutside := by
    decide +kernel
  rw [Results.toOption_eq_some_iff] at found returned
  have there : ((write "/auth" "/etc/cron.d/x" "quay.io/app" smallDocument {}).2.read
      fileOutside.toText).toOption.isSome = true := by
    decide +kernel
  have parent : fileOutside.parent = Path.ofText "/etc/cron.d" := by decide +kernel
  have outside : fileOutside.parent ≠ Path.ofText "/auth" := by decide +kernel
  cases hw : write "/auth" "/etc/cron.d/x" "quay.io/app" smallDocument {} with
  | mk result after =>
    rw [hw] at returned there
    obtain rfl : result = .ok fileOutside := returned
    obtain ⟨content, read⟩ := Option.isSome_iff_exists.1 there
    rw [Results.toOption_eq_some_iff] at read
    exact ⟨found, parent, outside, after, content, rfl, read⟩

end AuthFile

end PullAuth
