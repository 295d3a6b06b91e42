import PullAuth.Proofs.Json.Places
import PullAuth.Proofs.Schema

/-!
Where documents do not fit. A schema asks something of the value at every place of a document
(`Asks`), and a value can break that in itself, whatever its members are (`Breaks`). The violations
of a document are the breaches at its places, no more and no fewer (`mem_violations_iff`). Of these
the culprit is one that no other precedes: none is nearer to the root, and none of those equally
near has greater keys (`culprit_of_check`). So the check passes where there is nothing to be said of
any value (`check_eq_none_iff_not_complains`), and else it finds what is said of one.
-/
namespace PullAuth.Schema

/-! ## What is asked at a place -/

/-- What a schema asks of the members under a key. -/
inductive AsksMember (schema : Schema) (key : Text) : Schema → Prop
  | property {part : Schema} : (key, part) ∈ schema.properties → AsksMember schema key part
  | other {part : Schema} : schema.others = some part →
    key ∉ schema.properties.map Prod.fst → AsksMember schema key part

/-- What a schema asks of the value to which keys lead. -/
inductive Asks : Schema → List Text → Schema → Prop
  | root {schema : Schema} : Asks schema [] schema
  | member {schema part place : Schema} {key : Text} {keys : List Text} :
    schema.AsksMember key part → Asks part keys place → Asks schema (key :: keys) place

/-- A value breaks in itself what is asked of it. -/
inductive Breaks (schema : Schema) : Json → Breach → Prop
  | kind {value : Json} : schema.kinds ≠ [] → (∀ kind ∈ schema.kinds, kind.holds value = false) →
    Breaks schema value (.kind value schema.kinds)
  | empty : schema.nonEmpty = true → Breaks schema (.string []) (.empty (.string []))
  | missing {members : Keyed Json} {key : Text} : key ∈ schema.required →
    Keyed.get? key members = none → Breaks schema (.object members) (.missing key)
  | forbidden {value : Json} : schema.impossible = true → Breaks schema value (.forbidden value)

theorem asksMember_iff {schema part : Schema} {key : Text} :
    schema.AsksMember key part ↔ (key, part) ∈ schema.properties ∨
      (schema.others = some part ∧ key ∉ schema.properties.map Prod.fst) := by
  constructor
  · rintro (asked | ⟨asked, unnamed⟩)
    · exact .inl asked
    · exact .inr ⟨asked, unnamed⟩
  · rintro (asked | ⟨asked, unnamed⟩)
    · exact .property asked
    · exact .other asked unnamed

theorem asks_nil_iff {schema place : Schema} : schema.Asks [] place ↔ place = schema := by
  constructor
  · rintro ⟨⟩
    rfl
  · rintro rfl
    exact .root

theorem asks_cons_iff {schema place : Schema} {key : Text} {keys : List Text} :
    schema.Asks (key :: keys) place ↔
      ∃ part, schema.AsksMember key part ∧ part.Asks keys place := by
  constructor
  · rintro ⟨⟩
    exact ⟨_, ‹_›, ‹_›⟩
  · rintro ⟨part, asked, rest⟩
    exact .member asked rest

theorem mem_kindBreaches_iff {kinds : List ValueKind} {value : Json} {breach : Breach} :
    breach ∈ kindBreaches kinds value ↔
      kinds ≠ [] ∧ (∀ kind ∈ kinds, kind.holds value = false) ∧ breach = .kind value kinds := by
  unfold kindBreaches
  cases kinds with
  | nil => simp
  | cons kind kinds =>
    by_cases held : (kind :: kinds).any (·.holds value) = true
    · obtain ⟨k, hk, holds⟩ := List.any_eq_true.1 held
      simp only [held, Bool.or_true, if_true, List.not_mem_nil, false_iff]
      rintro ⟨-, none_holds, -⟩
      rw [none_holds k hk] at holds
      cases holds
    · have none_holds : ∀ k ∈ kind :: kinds, k.holds value = false := by simpa using held
      rw [Bool.not_eq_true] at held
      simp only [held, List.isEmpty_cons, Bool.or_false, Bool.false_eq_true, if_false,
        List.mem_singleton]
      exact ⟨fun h => ⟨List.cons_ne_nil _ _, none_holds, h⟩, fun h => h.2.2⟩

theorem mem_lackBreaches_iff {required : List Text} {nonEmpty : Bool} {value : Json}
    {breach : Breach} : breach ∈ lackBreaches required nonEmpty value ↔
      (∃ members key, value = .object members ∧ key ∈ required ∧ Keyed.get? key members = none ∧
        breach = .missing key) ∨
      (value = .string [] ∧ nonEmpty = true ∧ breach = .empty (.string [])) := by
  cases value with
  | object members =>
    simp only [lackBreaches, List.mem_map, List.mem_filter, Json.object.injEq, reduceCtorEq,
      false_and, or_false, Keyed.has, Option.not_isSome, Option.isNone_iff_eq_none]
    constructor
    · rintro ⟨key, ⟨asked, absent⟩, rfl⟩
      exact ⟨members, key, rfl, asked, absent, rfl⟩
    · rintro ⟨_, key, rfl, asked, absent, rfl⟩
      exact ⟨key, ⟨asked, absent⟩, rfl⟩
  | string t =>
    cases t with
    | nil => cases nonEmpty <;> simp [lackBreaches]
    | cons c t => simp [lackBreaches]
  | _ => simp [lackBreaches]

theorem mem_breaches_iff {schema : Schema} {value : Json} {breach : Breach} :
    breach ∈ forbiddenBreaches schema.impossible value ++ ownBreaches schema.kinds schema.required
      schema.nonEmpty schema.missingFirst value ↔ schema.Breaks value breach := by
  have own : breach ∈ ownBreaches schema.kinds schema.required schema.nonEmpty
      schema.missingFirst value ↔ breach ∈ kindBreaches schema.kinds value ∨
        breach ∈ lackBreaches schema.required schema.nonEmpty value := by
    unfold ownBreaches
    split <;> simp [or_comm]
  rw [List.mem_append, own, mem_kindBreaches_iff, mem_lackBreaches_iff]
  constructor
  · rintro (forbidden | ⟨some_kind, none_holds, rfl⟩ | ⟨members, key, rfl, asked, absent, rfl⟩ |
      ⟨rfl, nonEmpty, rfl⟩)
    · cases impossible : schema.impossible with
      | false => simp [forbiddenBreaches, impossible] at forbidden
      | true =>
        rw [impossible] at forbidden
        rw [List.mem_singleton.1 forbidden]
        exact .forbidden impossible
    · exact .kind some_kind none_holds
    · exact .missing asked absent
    · exact .empty nonEmpty
  · rintro (⟨some_kind, none_holds⟩ | nonEmpty | ⟨asked, absent⟩ | impossible)
    · exact .inr (.inl ⟨some_kind, none_holds, rfl⟩)
    · exact .inr (.inr (.inr ⟨rfl, nonEmpty, rfl⟩))
    · exact .inr (.inr (.inl ⟨_, _, rfl, asked, absent, rfl⟩))
    · rw [impossible]
      exact .inl List.mem_cons_self

/-! ## The violations are the breaches at the places -/

/-- Whatever is found in a member has its key in front. -/
theorem root_not_mem_under (key : Text) (violations : List Violation) (breach : Breach) :
    (⟨[], breach⟩ : Violation) ∉ violations.map (·.under key) := by
  simp [Violation.under]

theorem mem_under_iff {key other : Text} {keys : List Text} {breach : Breach}
    {violations : List Violation} :
    (⟨key :: keys, breach⟩ : Violation) ∈ violations.map (·.under other) ↔
      other = key ∧ ⟨keys, breach⟩ ∈ violations := by
  simp only [List.mem_map, Violation.under, Violation.mk.injEq, List.cons.injEq]
  constructor
  · rintro ⟨v, hv, ⟨same, rfl⟩, rfl⟩
    exact ⟨same, hv⟩
  · rintro ⟨same, hv⟩
    exact ⟨_, hv, ⟨same, rfl⟩, rfl⟩

theorem mem_propertyViolations_iff {properties : List (Text × Schema)} {members : Keyed Json}
    {v : Violation} : v ∈ propertyViolations properties members ↔
      ∃ property ∈ properties, ∃ inner, Keyed.get? property.1 members = some inner ∧
        v ∈ (property.2.violations inner).map (·.under property.1) := by
  induction properties with
  | nil => simp [propertyViolations]
  | cons property rest ih =>
    obtain ⟨key, schema⟩ := property
    rw [propertyViolations, List.mem_append, ih, List.exists_mem_cons_iff]
    refine or_congr_left ?_
    cases Keyed.get? key members with
    | none => simp
    | some inner => simp

theorem mem_otherViolations_iff {others : Option Schema} {members : List (Text × Json)}
    {v : Violation} : v ∈ otherViolations others members ↔
      ∃ part, others = some part ∧ ∃ m ∈ members,
        v ∈ (part.violations m.2).map (·.under m.1) := by
  cases others with
  | none => simp [otherViolations]
  | some part => simp [otherViolations, List.mem_flatMap]

/-- A violation is one of the value itself or one of its members. -/
theorem mem_violations_cases {schema : Schema} {value : Json} {v : Violation} :
    v ∈ schema.violations value ↔
      (∃ breach, schema.Breaks value breach ∧ v = ⟨[], breach⟩) ∨
      ∃ members, value = .object members ∧ (v ∈ propertyViolations schema.properties members ∨
        v ∈ otherViolations schema.others
          (members.filter fun m => !Keyed.has m.1 schema.properties)) := by
  simp only [← mem_breaches_iff, eq_comm (a := v)]
  obtain ⟨kinds, properties, others, required, nonEmpty, missingFirst, impossible⟩ := schema
  cases value with
  | object members =>
    simp only [violations, List.mem_append, List.mem_map, Json.object.injEq, exists_eq_left']
  | _ =>
    simp only [violations, List.append_nil, List.mem_map, reduceCtorEq, false_and, exists_const,
      or_false]

/-- At the root stands what the value breaks in itself. -/
theorem root_mem_violations_iff {schema : Schema} {value : Json} {breach : Breach} :
    ⟨[], breach⟩ ∈ schema.violations value ↔ schema.Breaks value breach := by
  rw [mem_violations_cases]
  constructor
  · rintro (⟨breach, breaks, e⟩ | ⟨members, rfl, found | found⟩)
    · cases e
      exact breaks
    · obtain ⟨property, -, inner, -, below⟩ := mem_propertyViolations_iff.1 found
      exact absurd below (root_not_mem_under _ _ _)
    · obtain ⟨part, -, m, -, below⟩ := mem_otherViolations_iff.1 found
      exact absurd below (root_not_mem_under _ _ _)
  · exact fun breaks => .inl ⟨breach, breaks, rfl⟩

/-- Below the root stand the violations of the members. -/
theorem member_mem_violations_iff {schema : Schema} {value : Json} (h : value.HasDistinctKeys)
    {key : Text} {keys : List Text} {breach : Breach} :
    ⟨key :: keys, breach⟩ ∈ schema.violations value ↔
      ∃ part inner, schema.AsksMember key part ∧ value.member? key = some inner ∧
        ⟨keys, breach⟩ ∈ part.violations inner := by
  rw [mem_violations_cases]
  constructor
  · rintro (⟨breach, -, e⟩ | ⟨members, rfl, found | found⟩)
    · cases e
    · obtain ⟨⟨other, part⟩, asked, inner, there, below⟩ := mem_propertyViolations_iff.1 found
      obtain ⟨rfl, inside⟩ := mem_under_iff.1 below
      exact ⟨part, inner, .property asked, there, inside⟩
    · obtain ⟨part, asked, ⟨other, inner⟩, there, below⟩ := mem_otherViolations_iff.1 found
      obtain ⟨rfl, inside⟩ := mem_under_iff.1 below
      obtain ⟨there, unnamed⟩ := List.mem_filter.1 there
      rw [Bool.not_eq_true', ← Bool.not_eq_true, Keyed.has_iff_mem] at unnamed
      -- A second member under the key would be found here, but keys do not lead to it.
      exact ⟨part, inner, .other asked unnamed,
        (Keyed.get?_eq_some_iff (h [] members rfl)).2 there, inside⟩
  · rintro ⟨part, inner, asked, there, below⟩
    cases value with
    | object members =>
      refine .inr ⟨members, rfl, ?_⟩
      cases asked with
      | property asked =>
        exact .inl (mem_propertyViolations_iff.2
          ⟨_, asked, inner, there, mem_under_iff.2 ⟨rfl, below⟩⟩)
      | other asked unnamed =>
        rw [← Keyed.has_iff_mem, Bool.not_eq_true, ← Bool.not_eq_true'] at unnamed
        exact .inr (mem_otherViolations_iff.2 ⟨part, asked, (key, inner),
          List.mem_filter.2 ⟨Keyed.mem_of_get? there, unnamed⟩, mem_under_iff.2 ⟨rfl, below⟩⟩)
    | _ => cases there

/-- The violations of a document are the breaches of what is asked at its places. -/
theorem mem_violations_iff {schema : Schema} {value : Json} (h : value.HasDistinctKeys)
    {keys : List Text} {breach : Breach} :
    ⟨keys, breach⟩ ∈ schema.violations value ↔
      ∃ part place, schema.Asks keys part ∧ value.at? keys = some place ∧
        part.Breaks place breach := by
  induction keys generalizing schema value with
  | nil =>
    rw [root_mem_violations_iff]
    constructor
    · exact fun breaks => ⟨schema, value, .root, rfl, breaks⟩
    · rintro ⟨part, place, asked, there, breaks⟩
      cases asks_nil_iff.1 asked
      cases there
      exact breaks
  | cons key keys ih =>
    rw [member_mem_violations_iff h]
    constructor
    · rintro ⟨part, inner, asked, there, below⟩
      obtain ⟨last, place, rest, found, breaks⟩ := (ih (h.of_member? there)).1 below
      exact ⟨last, place, .member asked rest, Json.at?_cons_eq_some_iff.2 ⟨inner, there, found⟩,
        breaks⟩
    · rintro ⟨last, place, asked, found, breaks⟩
      obtain ⟨part, asked, rest⟩ := asks_cons_iff.1 asked
      obtain ⟨inner, there, found⟩ := Json.at?_cons_eq_some_iff.1 found
      exact ⟨part, inner, asked, there,
        (ih (h.of_member? there)).2 ⟨last, place, rest, found, breaks⟩⟩

/-! ## The culprit -/

theorem pathBefore_irrefl (p : List Text) : pathBefore p p = false := by
  induction p with
  | nil => rfl
  | cons a p ih => simp [pathBefore, Text.before_irrefl, ih]

theorem pathBefore_trans {p q r : List Text} (h₁ : pathBefore p q = true)
    (h₂ : pathBefore q r = true) : pathBefore p r = true := by
  induction p generalizing q r with
  | nil =>
    cases q with
    | nil => cases h₁
    | cons b q => cases r with
      | nil => cases h₂
      | cons c r => rfl
  | cons a p ih =>
    cases q with
    | nil => cases h₁
    | cons b q => cases r with
      | nil => cases h₂
      | cons c r =>
        simp only [pathBefore, Bool.or_eq_true, Bool.and_eq_true, beq_iff_eq] at h₁ h₂ ⊢
        rcases h₁ with h₁ | ⟨rfl, h₁⟩ <;> rcases h₂ with h₂ | ⟨rfl, h₂⟩
        · exact .inl (Text.before_trans h₁ h₂)
        · exact .inl h₁
        · exact .inl h₂
        · exact .inr ⟨rfl, ih h₁ h₂⟩

/-- Of two paths that differ one comes before the other. -/
theorem pathBefore_trichotomy (p q : List Text) :
    pathBefore p q = true ∨ p = q ∨ pathBefore q p = true := by
  induction p generalizing q with
  | nil => cases q <;> simp [pathBefore]
  | cons a p ih =>
    cases q with
    | nil => simp [pathBefore]
    | cons b q =>
      rcases Text.before_trichotomy a b with h | rfl | h
      · exact .inl (by simp [pathBefore, h])
      · rcases ih q with h | rfl | h
        · exact .inl (by simp [pathBefore, h])
        · exact .inr (.inl rfl)
        · exact .inr (.inr (by simp [pathBefore, h]))
      · exact .inr (.inr (by simp [pathBefore, h]))

theorem precedes_iff {v w : Violation} : v.precedes w = true ↔
    v.path.length < w.path.length ∨
      v.path.length = w.path.length ∧ pathBefore w.path v.path = true := by
  simp [Violation.precedes]

theorem not_precedes_iff {v w : Violation} : v.precedes w = false ↔
    w.path.length ≤ v.path.length ∧
      (w.path.length = v.path.length → pathBefore w.path v.path = false) := by
  rw [← Bool.not_eq_true, precedes_iff, not_or, not_and, Nat.not_lt, Bool.not_eq_true, eq_comm]

theorem precedes_irrefl (v : Violation) : v.precedes v = false := by
  simp [Violation.precedes, pathBefore_irrefl]

theorem precedes_trans {u v w : Violation} (h₁ : u.precedes v = true) (h₂ : v.precedes w = true) :
    u.precedes w = true := by
  rw [precedes_iff] at *
  rcases h₁ with h₁ | ⟨e₁, h₁⟩ <;> rcases h₂ with h₂ | ⟨e₂, h₂⟩
  · exact .inl (by omega)
  · exact .inl (by omega)
  · exact .inl (by omega)
  · exact .inr ⟨by omega, pathBefore_trans h₂ h₁⟩

/-- Of two violations in different places one precedes the other. -/
theorem precedes_trichotomy (v w : Violation) :
    v.precedes w = true ∨ v.path = w.path ∨ w.precedes v = true := by
  simp only [precedes_iff]
  rcases Nat.lt_trichotomy v.path.length w.path.length with h | h | h
  · exact .inl (.inl h)
  · rcases pathBefore_trichotomy v.path w.path with hp | hp | hp
    · exact .inr (.inr (.inr ⟨h.symm, hp⟩))
    · exact .inr (.inl hp)
    · exact .inl (.inr ⟨h, hp⟩)
  · exact .inr (.inr (.inl h))

theorem not_precedes_trans {u v w : Violation} (h₁ : u.precedes v = false)
    (h₂ : v.precedes w = false) : u.precedes w = false := by
  by_contra h
  rw [Bool.not_eq_false] at h
  rcases precedes_trichotomy u v with first | same | last
  · rw [first] at h₁
    cases h₁
  · have first : v.precedes w = true := by rwa [precedes_iff, ← same, ← precedes_iff]
    rw [first] at h₂
    cases h₂
  · rw [precedes_trans last h] at h₂
    cases h₂

/-- Neither of two violations precedes the one that is kept. -/
theorem not_precedes_ite (best next : Violation) :
    let kept := if next.precedes best then next else best
    (kept = best ∨ kept = next) ∧ best.precedes kept = false ∧ next.precedes kept = false := by
  intro kept
  cases first : next.precedes best with
  | true =>
    have e : kept = next := if_pos first
    have asymm : best.precedes next = false := by
      by_contra last
      rw [Bool.not_eq_false] at last
      have loop := precedes_trans first last
      rw [precedes_irrefl] at loop
      cases loop
    rw [e]
    exact ⟨.inr rfl, asymm, precedes_irrefl next⟩
  | false =>
    have e : kept = best := if_neg (by rw [first]; decide)
    rw [e]
    exact ⟨.inl rfl, precedes_irrefl best, first⟩

/-- Of violations that are looked at one after another one is kept that no other precedes. -/
theorem foldl_precedes (rest : List Violation) (best : Violation) :
    let kept := rest.foldl (fun best w => if w.precedes best then w else best) best
    kept ∈ best :: rest ∧ ∀ w ∈ best :: rest, w.precedes kept = false := by
  induction rest generalizing best with
  | nil => simp [precedes_irrefl]
  | cons next rest ih =>
    obtain ⟨one, best_not, next_not⟩ := not_precedes_ite best next
    obtain ⟨mem, none_first⟩ := ih (if next.precedes best then next else best)
    obtain ⟨kept_first, others⟩ := List.forall_mem_cons.1 none_first
    -- Neither of the first two precedes the one of them that is kept, nor does that one the last.
    refine ⟨?_, List.forall_mem_cons.2 ⟨not_precedes_trans best_not kept_first,
      List.forall_mem_cons.2 ⟨not_precedes_trans next_not kept_first, others⟩⟩⟩
    rcases List.mem_cons.1 mem with e | mem
    · rw [List.foldl_cons, e]
      rcases one with one | one <;> rw [one] <;> simp
    · exact List.mem_cons_of_mem _ (List.mem_cons_of_mem _ mem)

/-- The culprit is a violation that no other precedes. -/
theorem culprit_of_check {schema : Schema} {value : Json} {v : Violation}
    (h : schema.check value = some v) : v ∈ schema.violations value ∧
      ∀ w ∈ schema.violations value, w.precedes v = false := by
  rw [check] at h
  cases found : schema.violations value with
  | nil =>
    rw [found] at h
    cases h
  | cons first rest =>
    rw [found] at h
    cases h
    exact foldl_precedes rest first

/-! ## What is said of a value -/

/-- What is said of the value to which keys lead, if it breaks what is asked there. -/
def Complains (schema : Schema) (keys : List Text) (value : Json) (what : Text) : Prop :=
  ∃ part breach, schema.Asks keys part ∧ part.Breaks value breach ∧ what = breach.message

theorem complains_nil_iff {schema : Schema} {value : Json} {what : Text} :
    schema.Complains [] value what ↔
      (schema.kinds ≠ [] ∧ (∀ kind ∈ schema.kinds, kind.holds value = false) ∧
        what = (Breach.kind value schema.kinds).message) ∨
      (∃ members key, value = .object members ∧ key ∈ schema.required ∧
        Keyed.get? key members = none ∧ what = (Breach.missing key).message) ∨
      (value = .string [] ∧ schema.nonEmpty = true ∧ what = (Breach.empty value).message) ∨
      (schema.impossible = true ∧ what = (Breach.forbidden value).message) := by
  constructor
  · rintro ⟨part, breach, asked, breaks, rfl⟩
    cases asks_nil_iff.1 asked
    cases breaks with
    | kind some_kind none_holds => exact .inl ⟨some_kind, none_holds, rfl⟩
    | missing asked absent => exact .inr (.inl ⟨_, _, rfl, asked, absent, rfl⟩)
    | empty nonEmpty => exact .inr (.inr (.inl ⟨rfl, nonEmpty, rfl⟩))
    | forbidden impossible => exact .inr (.inr (.inr ⟨impossible, rfl⟩))
  · rintro (⟨some_kind, none_holds, rfl⟩ | ⟨members, key, rfl, asked, absent, rfl⟩ |
      ⟨rfl, nonEmpty, rfl⟩ | ⟨impossible, rfl⟩)
    · exact ⟨schema, _, .root, .kind some_kind none_holds, rfl⟩
    · exact ⟨schema, _, .root, .missing asked absent, rfl⟩
    · exact ⟨schema, _, .root, .empty nonEmpty, rfl⟩
    · exact ⟨schema, _, .root, .forbidden impossible, rfl⟩

theorem complains_cons_iff {schema : Schema} {key : Text} {keys : List Text} {value : Json}
    {what : Text} : schema.Complains (key :: keys) value what ↔
      ∃ part, schema.AsksMember key part ∧ part.Complains keys value what := by
  constructor
  · rintro ⟨place, breach, asked, breaks, rfl⟩
    obtain ⟨part, asked, rest⟩ := asks_cons_iff.1 asked
    exact ⟨part, asked, place, breach, rest, breaks, rfl⟩
  · rintro ⟨part, asked, place, breach, rest, breaks, rfl⟩
    exact ⟨place, breach, .member asked rest, breaks, rfl⟩

theorem exists_violation_of_complains {schema : Schema} {document value : Json}
    (distinct : document.HasDistinctKeys) {keys : List Text} {what : Text}
    (there : document.at? keys = some value) (said : schema.Complains keys value what) :
    ∃ breach, ⟨keys, breach⟩ ∈ schema.violations document := by
  obtain ⟨part, breach, asked, breaks, -⟩ := said
  exact ⟨breach, (mem_violations_iff distinct).2 ⟨part, value, asked, there, breaks⟩⟩

theorem exists_complains_of_mem {schema : Schema} {document : Json}
    (distinct : document.HasDistinctKeys) {v : Violation} (h : v ∈ schema.violations document) :
    ∃ value, document.at? v.path = some value ∧
      schema.Complains v.path value v.breach.message := by
  obtain ⟨part, value, asked, there, breaks⟩ := (mem_violations_iff distinct).1 h
  exact ⟨value, there, part, v.breach, asked, breaks, rfl⟩

theorem check_eq_none_iff_not_complains {schema : Schema} {document : Json}
    (distinct : document.HasDistinctKeys) : schema.check document = none ↔
      ∀ keys value what, document.at? keys = some value → ¬schema.Complains keys value what := by
  rw [check_eq_none_iff, List.eq_nil_iff_forall_not_mem]
  constructor
  · intro none_found keys value what there said
    obtain ⟨breach, mem⟩ := exists_violation_of_complains distinct there said
    exact none_found _ mem
  · intro none_said v mem
    obtain ⟨value, there, said⟩ := exists_complains_of_mem distinct mem
    exact none_said _ _ _ there said

/-- Nothing is said of a value nearer to the root than the culprit, or as near and under greater
keys. -/
theorem nearest_of_check {schema : Schema} {document value : Json} {v : Violation}
    (distinct : document.HasDistinctKeys) (h : schema.check document = some v) {keys : List Text}
    {what : Text} (there : document.at? keys = some value)
    (said : schema.Complains keys value what) :
    v.path.length ≤ keys.length ∧
      (v.path.length = keys.length → pathBefore v.path keys = false) := by
  obtain ⟨breach, mem⟩ := exists_violation_of_complains distinct there said
  exact not_precedes_iff.1 ((culprit_of_check h).2 _ mem)

end PullAuth.Schema
