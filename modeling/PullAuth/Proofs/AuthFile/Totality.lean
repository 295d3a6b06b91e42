import PullAuth.Proofs.AuthFile.Confinement
import PullAuth.Proofs.AuthFile.Writable
import PullAuth.Proofs.Secret.Offers

/-!
When an order for a credential file ends as it should. Given an image, a namespace that can stand in
a file name, a global file that fits its schema and a directory that can be written to, the path is
the one for the namespace and the image (`path_eq_child`) and nothing fails when the file is
written. So all depends on what the secrets hold, and on how deep the global file is nested:
`create_ends_iff` says exactly which of them break an order down, and that nothing is touched then.
-/
namespace PullAuth

namespace AuthFile

/-! ## The name of the file -/

/-- A namespace that can stand in the name of a file: neither a slash nor a null character is in it,
and it is so short that the name of the file and those of temporary ones beside it have at most 255
bytes. -/
structure Nameable (namespaceName : Text) : Prop where
  ne_nil : namespaceName ≠ []
  spelled : ∃ bs, Spelled namespaceName bs ∧ bs.length ≤ 175

theorem exists_fileName {namespaceName : Text} (h : Nameable namespaceName) {image digest : Text}
    (hd : digest? image = some digest) :
    ∃ bs, FileName (fileName namespaceName digest) bs ∧ bs.length ≤ 245 := by
  obtain ⟨bs, hs, short⟩ := h.spelled
  have spelled := hs.append (spelled_ending hd)
  rw [← fileName_eq] at spelled
  have len : (bs ++ Bytes.ofAscii (ending digest)).length = bs.length + 70 := by
    rw [List.length_append, Bytes.ofAscii, List.length_map, length_ending hd]
  exact ⟨_, ⟨spelled, by omega, by omega⟩, by omega⟩

theorem path_eq_child {dir namespaceName image digest : Text} (hn : Nameable namespaceName)
    (hi : image ≠ []) (hd : digest? image = some digest)
    (ha : (Path.ofText dir).isAbsolute = true) :
    path dir namespaceName image =
      .ok ((Path.ofText dir).child (fileName namespaceName digest)) := by
  obtain ⟨bs, named, -⟩ := exists_fileName hn hd
  refine path_eq_ok_iff.2 ⟨hn.ne_nil, hi, ha, digest, hd, ?_⟩
  rw [Path.join_ofText_of_isName _ named.isName]

/-! ## Ending as it should -/

/-- What has to be in order besides the secrets: their list is there, the namespace can stand in a
file name, the image has a digest, the global file is missing or fits its schema, and the directory
is absolute and can be written to. -/
structure InOrder (order : Order) (secrets : List Secret) (digest : Text) (tree : Tree) : Prop where
  secrets : order.secrets = some secrets
  namespaceName : Nameable order.namespaceName
  image : order.image ≠ []
  digested : digest? order.image = some digest
  global : ∃ global, CredentialFile.loadGlobal tree order.home order.globalFile = .ok global
  absolute : (Path.ofText order.dir).isAbsolute = true
  writable : Writable tree (Path.ofText order.dir) (fileName order.namespaceName digest)

/-- The secrets can be harvested, and every credential that applies can be put under its name. -/
def AllPlaceable (order : Order) (secrets : List Secret) : Prop :=
  ∃ harvest ∈ (Harvest.ofSecrets secrets).toOption,
    ∀ pair ∈ Merge.qualifying harvest.configs order.image order.mirrors,
      Merge.Placeable pair.1 pair.2

instance (order : Order) (secrets : List Secret) : Decidable (AllPlaceable order secrets) :=
  inferInstanceAs (Decidable (∃ harvest ∈ _, _))

theorem allPlaceable_iff {order : Order} {secrets : List Secret} :
    AllPlaceable order secrets ↔ ∃ harvest, Harvest.ofSecrets secrets = .ok harvest ∧
      ∀ pair ∈ Merge.qualifying harvest.configs order.image order.mirrors,
        Merge.Placeable pair.1 pair.2 := by
  simp only [AllPlaceable, Option.mem_def, Results.toOption_eq_some_iff]

section
variable {order : Order} {secrets : List Secret} {digest : Text} {tree : Tree}
  (h : InOrder order secrets digest tree)
include h

/-- Only harvesting and merging depend on the secrets. -/
theorem exists_content_eq :
    ∃ global, CredentialFile.loadGlobal tree order.home order.globalFile = .ok global ∧
      content order tree = Harvest.ofSecrets secrets >>= fun harvest =>
        (Merge.merge harvest.configs global order.image order.mirrors).mapError .breakdown := by
  obtain ⟨global, hg⟩ := h.global
  have named : ¬order.namespaceName.isEmpty = true := by
    rw [List.isEmpty_iff]
    exact h.namespaceName.ne_nil
  refine ⟨global, hg, ?_⟩
  rw [content_eq, if_neg named, h.secrets]
  simp only [hg]

/-- Content that comes together is written, unless it has no entries. -/
theorem create_of_content {file : CredentialFile} (hc : content order tree = .ok file) :
    (create order tree).1 =
        .ok ((Path.ofText order.dir).child (fileName order.namespaceName digest)) ∨
      (create order tree).1 = .error .noCredentials := by
  have path_ok := path_eq_child h.namespaceName h.image h.digested h.absolute
  rw [create_eq, hc]
  simp only [path_ok]
  by_cases he : CredentialFile.entries file = []
  · rw [if_pos he]
    exact .inr rfl
  · obtain ⟨bs, name, short⟩ := exists_fileName h.namespaceName h.digested
    obtain ⟨after, written⟩ := exists_persist (Path.root_ofText_cases h.absolute) name short
      h.writable (dump file)
    rw [if_neg he, written]
    exact .inl rfl

/-- A global file that cannot be copied, a secret that cannot be harvested, and a credential that
applies and cannot be put under its name break the order down before any file is touched. -/
theorem create_of_unplaceable (hp : ¬(CopiesGlobal order tree ∧ AllPlaceable order secrets)) :
    ∃ cause, create order tree = (.error (.breakdown cause), tree) ∧
      (cause = .unencodable ∨ cause = .emptyRegistryName ∨ cause = .registryNameChanged ∨
        cause = .tooDeep) := by
  obtain ⟨global, hg, hc⟩ := exists_content_eq h
  have object := CredentialFile.hasEntriesObject_of_loadGlobal hg
  cases hs : Harvest.ofSecrets secrets with
  | error failure =>
    obtain ⟨-, rfl⟩ := Harvest.ofSecrets_eq_error_iff.1 hs
    rw [hs] at hc
    refine ⟨.tooDeep, ?_, .inr (.inr (.inr rfl))⟩
    rw [create_eq, hc]
    rfl
  | ok harvest =>
    rw [hs] at hc
    cases hm : Merge.merge harvest.configs global order.image order.mirrors with
    | error cause =>
      refine ⟨cause, ?_, ?_⟩
      · rw [create_eq, hc]
        simp only [bind, Except.bind, hm, Except.mapError]
      · rcases Merge.merge_error_cases object hm with ⟨-, misplaced⟩ | ⟨-, tooDeep⟩
        · exact misplaced.imp_right (Or.imp_right .inl)
        · exact .inr (.inr (.inr tooDeep))
    | ok file =>
      obtain ⟨copied, placeable⟩ := (Merge.exists_merge_iff object).1 ⟨file, hm⟩
      exact absurd ⟨⟨global, hg, copied⟩, allPlaceable_iff.2 ⟨harvest, hs, placeable⟩⟩ hp

/-- An order ends with the path of the file or with no credentials exactly if the global file can be
copied, the secrets can be harvested and every credential that applies can be put under its name.
Otherwise the order breaks down, and no file is touched. -/
theorem create_ends_iff :
    ((create order tree).1 =
          .ok ((Path.ofText order.dir).child (fileName order.namespaceName digest)) ∨
        (create order tree).1 = .error .noCredentials ↔
          CopiesGlobal order tree ∧ AllPlaceable order secrets) ∧
      (¬(CopiesGlobal order tree ∧ AllPlaceable order secrets) →
        ∃ cause, create order tree = (.error (.breakdown cause), tree) ∧
          (cause = .unencodable ∨ cause = .emptyRegistryName ∨ cause = .registryNameChanged ∨
            cause = .tooDeep)) := by
  refine ⟨⟨fun ended => ?_, fun ⟨copies, placed⟩ => ?_⟩, create_of_unplaceable h⟩
  · apply Classical.byContradiction
    intro hp
    obtain ⟨cause, breaks, -⟩ := create_of_unplaceable h hp
    rw [breaks] at ended
    rcases ended with e | e
    · cases e
    · cases e
  · obtain ⟨global, hg, hc⟩ := exists_content_eq h
    obtain ⟨_, hg', copied⟩ := copies
    obtain rfl := Except.ok.inj (hg.symm.trans hg')
    obtain ⟨harvest, hs, placeable⟩ := allPlaceable_iff.1 placed
    have object := CredentialFile.hasEntriesObject_of_loadGlobal hg
    obtain ⟨file, hm⟩ := (Merge.exists_merge_iff object).2 ⟨copied, placeable⟩
    rw [hs] at hc
    simp only [bind, Except.bind, hm, Except.mapError] at hc
    exact create_of_content h hc

end

/-- An order for the image `quay.io/app` with one secret that has the given entries. -/
def orderHolding (entries : Keyed Json) : Order where
  secrets := some [Secret.holding entries]
  home := none
  globalFile := "/config.json"
  dir := "/auth"
  namespaceName := "team"
  image := "quay.io/app"
  mirrors := []

/-- The digest of the image `quay.io/app`. -/
def digestOfApp : Text := (Sha256.digest (Bytes.ofAscii "quay.io/app")).toHex

/-- Where there are no files, the directory `/auth` can be made and written to. -/
theorem inOrder_orderHolding (entries : Keyed Json) :
    InOrder (orderHolding entries) [Secret.holding entries] digestOfApp {} := by
  have digested : digest? "quay.io/app" = some digestOfApp := by
    have encoded : Utf8.encode? "quay.io/app" = some (Bytes.ofAscii "quay.io/app") := by decide
    rw [digest?, encoded]
    rfl
  have team : Spelled "team" (Bytes.ofAscii "team") := by
    constructor <;> decide
  have nameable : Nameable "team" := ⟨by decide, _, team, by decide⟩
  have present : ("quay.io/app" : Text) ≠ [] := by decide
  have absolute : (Path.ofText "/auth").isAbsolute = true := by decide
  have outer : Utf8.encodeKept? (Path.ofText "/auth").toText = some (Bytes.ofAscii "/auth") := by
    decide
  -- The directory is made, and it is empty.
  let ready : Tree := { nodes := [([Bytes.ofAscii "auth"], .directory directoryMode)] }
  have made : ensureDirectories "/" directoryMode ["auth"] {} = (.ok (), ready) := by rfl
  have vacant : (ready.stat ((Path.ofText "/auth").child
      (fileName "team" digestOfApp)).toText).toOption = none := by
    decide +kernel
  refine ⟨rfl, nameable, present, digested, ⟨_, rfl⟩, absolute, ⟨_, outer, by decide⟩, ready,
    made, rfl, by decide, fun mode there => ?_⟩
  rw [show (orderHolding entries).dir = "/auth" from rfl] at there
  rw [show (orderHolding entries).namespaceName = "team" from rfl] at there
  rw [there] at vacant
  cases vacant

/-- A credential for `quay.io` as entries are usually written. -/
def usualEntries : Keyed Json := [("quay.io", .object [("auth", .string "dTpw")])]

theorem create_ends_usual :
    InOrder (orderHolding usualEntries) [Secret.holding usualEntries] digestOfApp {} ∧
      CopiesGlobal (orderHolding usualEntries) {} ∧
      AllPlaceable (orderHolding usualEntries) [Secret.holding usualEntries] ∧
      ((create (orderHolding usualEntries) {}).1 =
          .ok ((Path.ofText "/auth").child (fileName "team" digestOfApp)) ∨
        (create (orderHolding usualEntries) {}).1 = .error .noCredentials) := by
  have placed : AllPlaceable (orderHolding usualEntries) [Secret.holding usualEntries] := by
    decide +kernel
  have copies : CopiesGlobal (orderHolding usualEntries) {} := ⟨_, rfl, rfl⟩
  exact ⟨inOrder_orderHolding usualEntries, copies, placed,
    (create_ends_iff (inOrder_orderHolding usualEntries)).1.2 ⟨copies, placed⟩⟩

/-- What broke an order down. -/
def brokenBy? : Except Failure Path → Option Breakdown
  | .error (.breakdown cause) => some cause
  | _ => none

/-- A credential for `quay.io` whose user name is a lone surrogate. -/
def surrogateEntries : Keyed Json :=
  [("quay.io", .object [("username", .string [⟨0xD800, by decide⟩]), ("password", .string "p")])]

/-- A user name that cannot be encoded breaks the order down, although all else is in order. -/
theorem create_of_lone_surrogate :
    InOrder (orderHolding surrogateEntries) [Secret.holding surrogateEntries] digestOfApp {} ∧
      create (orderHolding surrogateEntries) {} = (.error (.breakdown .unencodable), {}) := by
  have unplaced : ¬AllPlaceable (orderHolding surrogateEntries)
      [Secret.holding surrogateEntries] := by
    decide +kernel
  have cause_eq : brokenBy? (create (orderHolding surrogateEntries) {}).1 = some .unencodable := by
    decide +kernel
  obtain ⟨cause, breaks, -⟩ :=
    create_of_unplaceable (inOrder_orderHolding surrogateEntries) fun both => unplaced both.2
  rw [breaks] at cause_eq
  cases cause_eq
  exact ⟨inOrder_orderHolding surrogateEntries, breaks⟩

end AuthFile

end PullAuth
