import PullAuth.Proofs.Keyed
import PullAuth.Proofs.Registry.DropIns
import PullAuth.Proofs.Runs

/-!
The definitions that a configuration consists of. `Holds` says which tables a file holds and
`Defines` which registry a table defines. A file is accepted if all its tables define registries
(`Accepted`); otherwise it is refused with a fault that names it (`Refused`), or reading it breaks
down (`Breaks`). A configuration loads exactly if its files hold tables that define registries
(`load_eq_ok_iff`); the first file that is not accepted says how loading fails (`load_of_refused`,
`load_of_breaks`). Of the definitions of a scope the last one counts, in the place of the first
(`scopes_combine`, `mem_combine_iff`).
-/
namespace PullAuth

namespace Registry

section

variable {α β : Type} {R : α → β → Prop}

/-- What corresponds to lists one after another comes from what corresponds to each of them. -/
theorem exists_lists_of_forall₂_flatten {ls : List (List α)} {bs : List β}
    (h : List.Forall₂ R ls.flatten bs) :
    ∃ lists, List.Forall₂ (List.Forall₂ R) ls lists ∧ lists.flatten = bs := by
  induction ls generalizing bs with
  | nil =>
    cases h
    exact ⟨[], .nil, rfl⟩
  | cons l ls ih =>
    rw [List.flatten_cons] at h
    have first := List.forall₂_take l.length h
    have others := List.forall₂_drop l.length h
    rw [List.take_left] at first
    rw [List.drop_left] at others
    obtain ⟨lists, apart, e⟩ := ih others
    exact ⟨bs.take l.length :: lists, .cons first apart, by simp [e]⟩

end

/-! ## Files -/

/-- The tables that the members of a file hold; a file in the older format holds none. -/
def tablesOf? (members : Keyed Toml) : Option (List Toml) :=
  if Keyed.has "registries" members then some []
  else match Keyed.get? "registry" members with
    | none => some []
    | some (.array tables) => some tables
    | some _ => none

/-- The file at a path is a TOML document that holds tables. -/
def Holds (tree : Tree) (path : Path) (tables : List Toml) : Prop :=
  ∃ bs members, tree.read path.toText = .ok bs ∧ Toml.read bs = .ok members ∧
    tablesOf? members = some tables

/-- Files hold no more than one list of tables each. -/
theorem holds_unique {tree : Tree} {paths : List Path} {held others : List (List Toml)}
    (h : List.Forall₂ (Holds tree) paths held) (h' : List.Forall₂ (Holds tree) paths others) :
    held = others := by
  refine List.right_unique_forall₂' (fun path tables tables' h h' => ?_) h h'
  obtain ⟨bs, members, hr, ht, hm⟩ := h
  obtain ⟨bs', members', hr', ht', hm'⟩ := h'
  cases hr.symm.trans hr'
  cases ht.symm.trans ht'
  exact Option.some.inj (hm.symm.trans hm')

/-- A table defines a registry. -/
def Defines (table : Toml) (r : Registry) : Prop := ofTable table = .ok r

/-- The file at a path can be used. -/
def Accepted (tree : Tree) (path : Path) : Prop :=
  ∃ tables, Holds tree path tables ∧ ∀ t ∈ tables, ∃ r, Defines t r

/-- The file at a path is refused with a fault. -/
inductive Refused (tree : Tree) (path : Path) : ConfigurationFault → Prop
  | unreadable {error : SystemError} : tree.read path.toText = .error (.system error) →
    Refused tree path (.unreadable path error)
  | notToml {bs : Bytes} : tree.read path.toText = .ok bs → Toml.read bs = .error .malformed →
    Refused tree path (.notToml path)
  | notArray {bs : Bytes} {members : Keyed Toml} : tree.read path.toText = .ok bs →
    Toml.read bs = .ok members → tablesOf? members = none →
    Refused tree path (.registriesNotArray path)
  /-- The first of the tables that defines no registry. -/
  | badTable {before after : List Toml} {table : Toml} {fault : Fault} :
    Holds tree path (before ++ table :: after) → (∀ t ∈ before, ∃ r, Defines t r) →
    ofTable table = .error fault →
    Refused tree path (.registry path.toText fault)

/-- Reading the file at a path ends in a way that is not expected. -/
inductive Breaks (tree : Tree) (path : Path) : Breakdown → Prop
  | unencodable : tree.read path.toText = .error .unencodable → Breaks tree path .unencodable
  | nullCharacter : tree.read path.toText = .error .nullCharacter →
    Breaks tree path .nullCharacter
  | undecodable {bs : Bytes} : tree.read path.toText = .ok bs →
    Toml.read bs = .error .undecodable → Breaks tree path .undecodable
  | integerTooLong {bs : Bytes} : tree.read path.toText = .ok bs →
    Toml.read bs = .error .integerTooLong → Breaks tree path .integerTooLong
  | tooDeep {bs : Bytes} : tree.read path.toText = .ok bs →
    Toml.read bs = .error .tooDeep → Breaks tree path .tooDeep

/-- A fault names the file that is refused. -/
theorem Refused.names {tree : Tree} {path : Path} {fault : ConfigurationFault}
    (h : Refused tree path fault) (tell : Detail → Text) :
    path.toText <:+: fault.message tell := by
  cases h with
  | @unreadable error _ =>
    exact ⟨"unable to read ", ": " ++ tell (.system error), by simp [ConfigurationFault.message]⟩
  | notToml _ _ =>
    exact ⟨"unable to parse ", ": " ++ tell .notToml, by simp [ConfigurationFault.message]⟩
  | notArray _ _ _ => exact ⟨[], ": registry must be an array", rfl⟩
  | @badTable _ _ _ fault _ _ _ =>
    exact ⟨[], ": " ++ fault.message, by simp [ConfigurationFault.message]⟩

/-- The registries that a file contributes, or why it cannot be used. -/
def contribution (tree : Tree) (path : Path) : Except Failure (List Registry) :=
  (readFile tree path).map Source.contributed

theorem contribution_of_bytes {tree : Tree} {path : Path} {bs : Bytes}
    (hr : tree.read path.toText = .ok bs) :
    contribution tree path = (readBytes path bs).map Source.contributed := by
  rw [contribution, readFile, hr]

theorem readMembers_eq (path : Path) (members : Keyed Toml) :
    (readMembers path members).map Source.contributed =
      match tablesOf? members with
      | none => .error (.registriesNotArray path)
      | some tables => (tables.mapM ofTable).mapError (.registry path.toText) := by
  unfold readMembers tablesOf?
  split
  · rfl
  · cases Keyed.get? "registry" members with
    | none => rfl
    | some value =>
      cases value with
      | array tables =>
        simp only [Option.getD_some]
        cases List.mapM ofTable tables <;> rfl
      | _ => rfl

theorem contribution_of_read {tree : Tree} {path : Path} {bs : Bytes} {members : Keyed Toml}
    (hr : tree.read path.toText = .ok bs) (ht : Toml.read bs = .ok members) :
    contribution tree path =
      match tablesOf? members with
      | none => .error (.configuration (.registriesNotArray path))
      | some tables =>
        (tables.mapM ofTable).mapError fun fault =>
          .configuration (.registry path.toText fault) := by
  have contributed : contribution tree path =
      ((readMembers path members).map Source.contributed).mapError .configuration := by
    simp only [contribution_of_bytes hr, readBytes, ht]
    cases readMembers path members <;> rfl
  rw [contributed, readMembers_eq]
  cases tablesOf? members with
  | none => rfl
  | some tables => cases h : List.mapM ofTable tables <;> simp only [h] <;> rfl

/-- A file contributes the registries that its tables define. -/
theorem contribution_eq_ok_iff {tree : Tree} {path : Path} {defined : List Registry} :
    contribution tree path = .ok defined ↔
      ∃ tables, Holds tree path tables ∧ List.Forall₂ Defines tables defined := by
  constructor
  · intro h
    cases hr : tree.read path.toText with
    | error fault =>
      rw [contribution, readFile, hr] at h
      cases h
    | ok bs =>
      cases ht : Toml.read bs with
      | error fault =>
        rw [contribution_of_bytes hr, readBytes, ht] at h
        cases fault <;> cases h
      | ok members =>
        rw [contribution_of_read hr ht] at h
        cases hm : tablesOf? members with
        | none =>
          rw [hm] at h
          cases h
        | some tables =>
          rw [hm] at h
          exact ⟨tables, ⟨bs, members, hr, ht, hm⟩,
            Results.mapM_eq_ok_iff.1 (Results.mapError_eq_ok_iff.1 h)⟩
  · intro ⟨tables, ⟨bs, members, hr, ht, hm⟩, defines⟩
    rw [contribution_of_read hr ht, hm]
    exact Results.mapError_eq_ok_iff.2 (Results.mapM_eq_ok_iff.2 defines)

theorem contribution_of_refused {tree : Tree} {path : Path} {fault : ConfigurationFault}
    (h : Refused tree path fault) : contribution tree path = .error (.configuration fault) := by
  cases h with
  | unreadable hr => rw [contribution, readFile, hr]; rfl
  | notToml hr ht => rw [contribution_of_bytes hr, readBytes, ht]; rfl
  | notArray hr ht hm => rw [contribution_of_read hr ht, hm]
  | badTable holds good bad =>
    obtain ⟨bs, members, hr, ht, hm⟩ := holds
    rw [contribution_of_read hr ht, hm]
    simp only [Results.mapM_of_error _ good bad]
    rfl

theorem contribution_of_breaks {tree : Tree} {path : Path} {cause : Breakdown}
    (h : Breaks tree path cause) : contribution tree path = .error (.breakdown cause) := by
  cases h with
  | unencodable hr => rw [contribution, readFile, hr]; rfl
  | nullCharacter hr => rw [contribution, readFile, hr]; rfl
  | undecodable hr ht => rw [contribution_of_bytes hr, readBytes, ht]; rfl
  | integerTooLong hr ht => rw [contribution_of_bytes hr, readBytes, ht]; rfl
  | tooDeep hr ht => rw [contribution_of_bytes hr, readBytes, ht]; rfl

/-- A file contributes what its bytes say. -/
theorem contribution_congr {tree other : Tree} {path : Path}
    (h : other.read path.toText = tree.read path.toText) :
    contribution other path = contribution tree path := by
  rw [contribution, contribution, readFile, readFile, h]

theorem accepted_iff {tree : Tree} {path : Path} :
    Accepted tree path ↔ ∃ defined, contribution tree path = .ok defined := by
  constructor
  · intro ⟨tables, holds, each⟩
    obtain ⟨defined, defines⟩ := Results.exists_forall₂_iff.2 each
    exact ⟨defined, contribution_eq_ok_iff.2 ⟨tables, holds, defines⟩⟩
  · intro ⟨defined, h⟩
    obtain ⟨tables, holds, defines⟩ := contribution_eq_ok_iff.1 h
    exact ⟨tables, holds, Results.exists_forall₂_iff.1 ⟨_, defines⟩⟩

/-- There is nothing else that can become of a file. -/
theorem accepted_or_refused_or_breaks (tree : Tree) (path : Path) :
    Accepted tree path ∨ (∃ fault, Refused tree path fault) ∨ ∃ cause, Breaks tree path cause := by
  cases hr : tree.read path.toText with
  | error fault =>
    cases fault with
    | system error => exact .inr (.inl ⟨_, .unreadable hr⟩)
    | unencodable => exact .inr (.inr ⟨_, .unencodable hr⟩)
    | nullCharacter => exact .inr (.inr ⟨_, .nullCharacter hr⟩)
  | ok bs =>
    cases ht : Toml.read bs with
    | error fault =>
      cases fault with
      | malformed => exact .inr (.inl ⟨_, .notToml hr ht⟩)
      | undecodable => exact .inr (.inr ⟨_, .undecodable hr ht⟩)
      | integerTooLong => exact .inr (.inr ⟨_, .integerTooLong hr ht⟩)
      | tooDeep => exact .inr (.inr ⟨_, .tooDeep hr ht⟩)
    | ok members =>
      cases hm : tablesOf? members with
      | none => exact .inr (.inl ⟨_, .notArray hr ht hm⟩)
      | some tables =>
        have holds : Holds tree path tables := ⟨bs, members, hr, ht, hm⟩
        rcases Results.all_ok_or_first_error ofTable tables with
          all | ⟨before, table, after, fault, rfl, good, bad⟩
        · exact .inl ⟨tables, holds, all⟩
        · exact .inr (.inl ⟨_, .badTable holds good bad⟩)

/-! ## Configurations -/

theorem load_eq_contributions (tree : Tree) (conf dir : Text) :
    load tree conf dir =
      (configurationPaths tree conf dir).bind fun paths =>
        (paths.mapM (contribution tree)).map fun lists => combine lists.flatten := by
  rw [load_eq]
  cases configurationPaths tree conf dir with
  | error failure => rfl
  | ok paths =>
    have all : paths.mapM (contribution tree) =
        (paths.mapM (readFile tree)).map (List.map Source.contributed) := Results.mapM_map _ _ _
    simp only [Except.bind, all]
    cases paths.mapM (readFile tree) <;> simp [Except.map, List.flatMap]

/-- The files of a configuration go together to the registries that their tables define. -/
theorem mapM_contribution_eq_ok_iff {tree : Tree} {paths : List Path}
    {lists : List (List Registry)} :
    paths.mapM (contribution tree) = .ok lists ↔
      ∃ held, List.Forall₂ (Holds tree) paths held ∧
        List.Forall₂ (List.Forall₂ Defines) held lists := by
  rw [Results.mapM_eq_ok_iff]
  simp only [contribution_eq_ok_iff]
  constructor
  · intro h
    induction h with
    | nil => exact ⟨[], .nil, .nil⟩
    | cons here _ ih =>
      obtain ⟨tables, holds, defines⟩ := here
      obtain ⟨held, allHold, allDefine⟩ := ih
      exact ⟨tables :: held, .cons holds allHold, .cons defines allDefine⟩
  · intro ⟨held, allHold, allDefine⟩
    induction allHold generalizing lists with
    | nil =>
      cases allDefine
      exact .nil
    | cons holds _ ih =>
      cases allDefine with
      | cons defines others => exact .cons ⟨_, holds, defines⟩ (ih others)

/-- A configuration loads exactly if its files hold tables that define registries. -/
theorem load_eq_ok_iff {tree : Tree} {conf dir : Text} {registries : List Registry} :
    load tree conf dir = .ok registries ↔
      ∃ paths held defined, configurationPaths tree conf dir = .ok paths ∧
        List.Forall₂ (Holds tree) paths held ∧ List.Forall₂ Defines held.flatten defined ∧
        registries = combine defined := by
  rw [load_eq_contributions]
  constructor
  · intro h
    obtain ⟨paths, hp, h⟩ := Results.bind_eq_ok_iff.1 h
    cases hl : paths.mapM (contribution tree) with
    | error failure =>
      rw [hl] at h
      cases h
    | ok lists =>
      rw [hl] at h
      obtain ⟨held, holds, defines⟩ := mapM_contribution_eq_ok_iff.1 hl
      cases h
      exact ⟨paths, held, lists.flatten, hp, holds, List.rel_flatten defines, rfl⟩
  · intro ⟨paths, held, defined, hp, holds, defines, e⟩
    obtain ⟨lists, apart, e'⟩ := exists_lists_of_forall₂_flatten defines
    have all := mapM_contribution_eq_ok_iff.2 ⟨held, holds, apart⟩
    rw [hp]
    simp only [Except.bind, all, e, ← e', Except.map]

/-- The later drop-in file counts where the earlier one describes the same registry. -/
theorem load_overriding :
    load overridingTree "/r.conf" "/d" =
      .ok [⟨"quay.io", "quay.io", ["m.io"]⟩, ⟨"quay.io/team", "quay.io/team", ["b.io"]⟩] := by
  have files : (overridingPaths.mapM (contribution overridingTree)).toOption =
      some [[⟨"quay.io", "quay.io", ["m.io"]⟩], [⟨"quay.io/team", "quay.io/team", []⟩],
        [⟨"quay.io/team", "quay.io/team", ["b.io"]⟩]] := by decide +kernel
  rw [load_eq_contributions, configurationPaths_overriding]
  simp only [Except.bind, Results.toOption_eq_some_iff.1 files, Except.map]
  have last : combine [⟨"quay.io", "quay.io", ["m.io"]⟩, ⟨"quay.io/team", "quay.io/team", []⟩,
      ⟨"quay.io/team", "quay.io/team", ["b.io"]⟩] =
      [⟨"quay.io", "quay.io", ["m.io"]⟩, ⟨"quay.io/team", "quay.io/team", ["b.io"]⟩] := by
    decide +kernel
  exact congrArg Except.ok last

theorem load_of_contribution {tree : Tree} {conf dir : Text} {before after : List Path}
    {path : Path} {failure : Failure}
    (hp : configurationPaths tree conf dir = .ok (before ++ path :: after))
    (hb : ∀ p ∈ before, Accepted tree p) (hf : contribution tree path = .error failure) :
    load tree conf dir = .error failure := by
  have usable : ∀ p ∈ before, ∃ found, contribution tree p = .ok found :=
    fun p hp => accepted_iff.1 (hb p hp)
  rw [load_eq_contributions, hp]
  simp only [Except.bind, Results.mapM_of_error after usable hf]
  rfl

/-- The first file that is not accepted says how loading fails, if it is refused. -/
theorem load_of_refused {tree : Tree} {conf dir : Text} {before after : List Path} {path : Path}
    {fault : ConfigurationFault}
    (hp : configurationPaths tree conf dir = .ok (before ++ path :: after))
    (hb : ∀ p ∈ before, Accepted tree p) (hf : Refused tree path fault) :
    load tree conf dir = .error (.configuration fault) :=
  load_of_contribution hp hb (contribution_of_refused hf)

/-- Loading breaks down with the first file that is not accepted, if reading it does. -/
theorem load_of_breaks {tree : Tree} {conf dir : Text} {before after : List Path} {path : Path}
    {cause : Breakdown}
    (hp : configurationPaths tree conf dir = .ok (before ++ path :: after))
    (hb : ∀ p ∈ before, Accepted tree p) (hf : Breaks tree path cause) :
    load tree conf dir = .error (.breakdown cause) :=
  load_of_contribution hp hb (contribution_of_breaks hf)

/-! ## Definitions of one scope -/

theorem mem_combine_iff {r : Registry} {defined : List Registry} :
    r ∈ combine defined ↔ (defined.filter fun d => d.scope = r.scope).getLast? = some r := by
  have under : r ∈ combine defined ↔
      (r.scope, r) ∈ Keyed.ofPairs (defined.map fun d => (d.scope, d)) := by
    -- Every registry was put under its own scope.
    constructor
    · intro h
      obtain ⟨⟨scope, d⟩, hm, rfl⟩ := List.mem_map.1 h
      obtain ⟨d', _, e⟩ := List.mem_map.1 (Keyed.mem_ofPairs hm)
      cases e
      exact hm
    · intro h
      exact List.mem_map.2 ⟨_, h, rfl⟩
  rw [under, ← Keyed.get?_eq_some_iff (Keyed.nodup_keys_ofPairs _), Keyed.get?_ofPairs,
    List.filter_map, List.getLast?_map, Option.map_map]
  simp [Function.comp_def]

/-- Each scope stands where it first came. -/
theorem scopes_combine (defined : List Registry) :
    (combine defined).map (·.scope) = (defined.map (·.scope)).eraseDups := by
  have keys := Keyed.keys_ofPairs (defined.map fun d => (d.scope, d))
  rw [List.map_map, Function.comp_def] at keys
  rw [← keys, combine, List.map_map]
  apply List.map_congr_left
  intro pair hm
  obtain ⟨d, _, rfl⟩ := List.mem_map.1 (Keyed.mem_ofPairs hm)
  rfl

theorem nodup_scopes_combine (defined : List Registry) :
    ((combine defined).map (·.scope)).Nodup := by
  have keys := Keyed.nodup_keys_ofPairs (defined.map fun d => (d.scope, d))
  rw [Keyed.keys_ofPairs, List.map_map, Function.comp_def] at keys
  rwa [scopes_combine]

end Registry

end PullAuth
