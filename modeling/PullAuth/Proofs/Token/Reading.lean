import PullAuth.Failure
import PullAuth.Proofs.Bytes.Base64Url
import PullAuth.Proofs.Json.Depth
import PullAuth.Proofs.Runs

/-!
The tokens that are read. `Decodes` says what a token with claims looks like: three segments between
dots, of which the first holds a header that nothing is wrong with and the second holds the claims.
`Extracts` says how the look for the namespace ends, one rule for each reason that is reported. A
token ends like that exactly if it has no surrogates and no document that is nested too deep. Any
other breaks the look down: one with surrogates has no bytes, and in the other the look sinks
(`reported?_namespaceOf`).
-/
namespace PullAuth.Token

/-! ## Tokens with claims -/

/-- The bytes write an object, in the encoding that they show. -/
def Holds (bs : Bytes) (members : Keyed Json) : Prop :=
  ∃ t, Encoding.decodeDetected bs = some t ∧ Json.Denotes t (.object members)

/-- The bytes write a text that is nested too deep, in the encoding that they show. -/
def IsDeep (bs : Bytes) : Prop :=
  ∃ t, Encoding.decodeDetected bs = some t ∧ Json.isTooDeep t = true

/-- Nothing is wrong with a header: it names its key by a string, if it does, it calls nothing
critical but that it says whether the claims are encoded, and it does not say that they are not. -/
structure Admissible (header : Keyed Json) : Prop where
  kid : ∀ kid, Keyed.get? "kid" header = some kid → ∃ name, kid = .string name
  crit : ∀ crit, Keyed.get? "crit" header = some crit →
    Keyed.has "b64" header = true ∧
      ∃ names, crit = .array names ∧ names ≠ [] ∧ ∀ name ∈ names, name = .string "b64"
  b64 : Keyed.get? "b64" header ≠ some (.bool false)

/-- A token has the claims: it is made of the segments of a header, the claims and a signature. -/
inductive Decodes : Text → Keyed Json → Prop
  | segments {head body signature : Text} {bs bs' bs'' : Bytes} {header claims : Keyed Json} :
    Base64Url.IsSegment head bs → Base64Url.IsSegment body bs' →
    Base64Url.IsSegment signature bs'' → Holds bs header → Admissible header →
    Holds bs' claims → Decodes (head ++ .ofChar '.' :: (body ++ .ofChar '.' :: signature)) claims

/-- The look at the bytes of a token comes to a document that is nested too deep: to the header
before anything else, to the claims when there is nothing wrong before them. -/
inductive Sinks : Bytes → Prop
  | header {head : Text} {bs middle last : Bytes} : Base64Url.IsSegment head bs → IsDeep bs →
    0x2E ∉ last → Sinks (Bytes.ofAscii head ++ 0x2E :: (middle ++ 0x2E :: last))
  | claims {head body signature : Text} {bs bs' bs'' : Bytes} {header : Keyed Json} :
    Base64Url.IsSegment head bs → Base64Url.IsSegment body bs' →
    Base64Url.IsSegment signature bs'' → Holds bs header → ¬IsDeep bs → Admissible header →
    IsDeep bs' →
    Sinks (Bytes.ofAscii (head ++ .ofChar '.' :: (body ++ .ofChar '.' :: signature)))

/-- What claims tell about the namespace: the namespace as it stands in them, or the reason why
there is none. -/
inductive Tells (claims : Keyed Json) : Except Text Text → Prop
  | missingClaim : Keyed.get? claimKey claims = none → Tells claims (.error "missing-claim")
  | claimNotMapping {claim : Json} : Keyed.get? claimKey claims = some claim →
    (∀ members, claim ≠ .object members) → Tells claims (.error "claim-not-mapping")
  | missingNamespace {claim : Keyed Json} : Keyed.get? claimKey claims = some (.object claim) →
    Keyed.get? "namespace" claim = none → Tells claims (.error "missing-namespace")
  | namespaceNotString {claim : Keyed Json} {value : Json} :
    Keyed.get? claimKey claims = some (.object claim) →
    Keyed.get? "namespace" claim = some value → (∀ name, value ≠ .string name) →
    Tells claims (.error "namespace-not-string")
  | namespaceName {claim : Keyed Json} {name : Text} :
    Keyed.get? claimKey claims = some (.object claim) →
    Keyed.get? "namespace" claim = some (.string name) → Tells claims (.ok name)

/-- The look at a token sinks, whose bytes are UTF-8. -/
def SinksIn (token : Text) : Prop := ∃ bs, Utf8.encode? token = some bs ∧ Sinks bs

/-- How the look for the namespace of a token ends. -/
inductive Extracts (token : Text) : Except Text Text → Prop
  | emptyToken : token = [] → Extracts token (.error "empty-token")
  | unparsable : token ≠ [] → (∀ claims, ¬Decodes token claims) →
    Extracts token (.error "unparseable")
  | told {claims : Keyed Json} {ending : Except Text Text} : Decodes token claims →
    Tells claims ending → Extracts token ending

/-- What is reported of a look: the namespace or the reason; a breakdown reports nothing. -/
def reported? (found : Except Fault Text) : Option (Except Text Text) :=
  match found.mapError Failure.ofToken with
  | .ok namespaceName => some (.ok namespaceName)
  | .error (.claim fault) => some (.error fault.reason)
  | .error _ => none

/-! ## Headers -/

section
variable (header : Keyed Json)

theorem isString_iff {v : Json} : v.isString = true ↔ ∃ t, v = .string t := by
  cases v <;> simp [Json.isString]

theorem keyHolds_iff : keyHolds header = true ↔
    ∀ kid, Keyed.get? "kid" header = some kid → ∃ name, kid = .string name := by
  unfold keyHolds
  split
  · next h => simp [h]
  · next kid h => simp [h, isString_iff]

theorem extensionFault?_eq_none_iff {extension : Json} :
    extensionFault? header extension = none ↔
      extension = .string "b64" ∧ Keyed.has "b64" header = true := by
  cases extension with
  | string name =>
    rw [extensionFault?]
    split
    · next other => simp [other]
    next known =>
    rw [not_not] at known
    subst known
    simp
  | _ => simp [extensionFault?]

theorem extensionsFault?_eq_none_iff :
    extensionsFault? header = none ↔ ∀ crit, Keyed.get? "crit" header = some crit →
      Keyed.has "b64" header = true ∧
        ∃ names, crit = .array names ∧ names ≠ [] ∧ ∀ name ∈ names, name = .string "b64" := by
  unfold extensionsFault?
  split
  · next h => simp [h]
  · next names h =>
    rw [h]
    cases names with
    | nil => simp
    | cons name names =>
      simp only [List.isEmpty_cons, Bool.false_eq_true, if_false, List.findSome?_eq_none_iff,
        extensionFault?_eq_none_iff]
      constructor
      · rintro known _ ⟨⟩
        exact ⟨(known name List.mem_cons_self).2, _, rfl, List.cons_ne_nil _ _,
          fun other ho => (known other ho).1⟩
      · intro holds other ho
        obtain ⟨present, _, ⟨⟩, -, known⟩ := holds _ rfl
        exact ⟨known other ho, present⟩
  · next crit other h =>
    rw [h]
    simp only [reduceCtorEq, false_iff]
    intro holds
    obtain ⟨-, names, rfl, -⟩ := holds crit rfl
    exact other names rfl

theorem saysUnencoded_iff :
    saysUnencoded header = true ↔ Keyed.get? "b64" header = some (.bool false) := by
  unfold saysUnencoded
  split
  · next h => simp [h]
  · next h =>
    simp only [Bool.false_eq_true, false_iff]
    exact h

end

/-- A header is passed exactly if nothing is wrong with it. -/
theorem headerFault?_eq_none_iff {header : Keyed Json} :
    headerFault? header = none ↔ Admissible header := by
  have named := keyHolds_iff header
  have known := extensionsFault?_eq_none_iff header
  have encoded := saysUnencoded_iff header
  unfold headerFault?
  constructor
  · intro h
    split at h
    · cases h
    next kid =>
    rw [Bool.not_eq_true, Bool.not_eq_false'] at kid
    obtain ⟨crit, b64⟩ := Option.or_eq_none_iff.1 h
    refine ⟨named.1 kid, known.1 crit, fun unencoded => ?_⟩
    rw [if_pos (encoded.2 unencoded)] at b64
    cases b64
  · rintro ⟨kid, crit, b64⟩
    rw [named.2 kid, known.2 crit, if_neg (mt encoded.1 b64)]
    rfl

/-! ## Segments -/

theorem membersOf_eq_ok_iff {bs : Bytes} {members : Keyed Json} :
    membersOf bs = .ok members ↔ ¬IsDeep bs ∧ Holds bs members := by
  unfold membersOf IsDeep Holds
  cases Encoding.decodeDetected bs with
  | none => simp
  | some t =>
    have read : Json.read t = .ok (.object members) ↔
        Json.isTooDeep t = false ∧ Json.Denotes t (.object members) := Json.read_eq_ok_iff
    simp only [Option.map_some, Option.some.injEq, exists_eq_left', Bool.not_eq_true, ← read]
    split <;> simp_all

theorem membersOf_eq_tooDeep_iff {bs : Bytes} : membersOf bs = .error .tooDeep ↔ IsDeep bs := by
  unfold membersOf IsDeep
  cases Encoding.decodeDetected bs with
  | none => simp
  | some t =>
    simp only [Option.map_some, Option.some.injEq, exists_eq_left', ← Json.read_eq_tooDeep_iff]
    split <;> simp_all

theorem membersOf_error_cases {bs : Bytes} {fault : Fault} (h : membersOf bs = .error fault) :
    fault = .unparsable ∨ fault = .tooDeep ∧ IsDeep bs := by
  by_cases deep : IsDeep bs
  · rw [membersOf_eq_tooDeep_iff.2 deep] at h
    cases h
    exact .inr ⟨rfl, deep⟩
  · unfold membersOf at h
    split at h
    · cases h
    · next e =>
      refine absurd (membersOf_eq_tooDeep_iff.1 ?_) deep
      rw [membersOf, e]
    · cases h
      exact .inl rfl

theorem required_eq_ok_iff {α : Type} {found : Option α} {a : α} :
    required found = .ok a ↔ found = some a := by
  cases found <;> simp [required]

/-- A dot stands in no segment. -/
theorem dot_not_mem_ofAscii {t : Text} {bs : Bytes} (h : Base64Url.IsSegment t bs) :
    (0x2E : UInt8) ∉ Bytes.ofAscii t := by
  intro dot
  have here := (Utf8.mem_ofAscii_iff (fun c hc => (h.of_mem hc).1) (by decide)).1 dot
  exact (h.of_mem here).2 rfl

theorem ofAscii_segments (head body signature : Text) :
    Bytes.ofAscii (head ++ .ofChar '.' :: (body ++ .ofChar '.' :: signature)) =
      (Bytes.ofAscii head ++ 0x2E :: Bytes.ofAscii body) ++ 0x2E :: Bytes.ofAscii signature := by
  simp only [Bytes.ofAscii, List.map_append, List.map_cons, List.append_assoc, List.cons_append]
  rfl

/-- Segments are cut out of the bytes of a token. -/
theorem claims_of_segments {head body signature : Text} {bs bs' bs'' : Bytes}
    (segment : Base64Url.IsSegment head bs) (segment' : Base64Url.IsSegment body bs')
    (segment'' : Base64Url.IsSegment signature bs'') :
    claims (Bytes.ofAscii (head ++ .ofChar '.' :: (body ++ .ofChar '.' :: signature))) =
      membersOf bs >>= fun header =>
        (headerFault? header).elim (membersOf bs') .error := by
  have last : Text.cutLast? 0x2E
      ((Bytes.ofAscii head ++ 0x2E :: Bytes.ofAscii body) ++ 0x2E :: Bytes.ofAscii signature) =
      some (Bytes.ofAscii head ++ 0x2E :: Bytes.ofAscii body, Bytes.ofAscii signature) :=
    Text.cutLast?_eq_some_iff.2 ⟨rfl, dot_not_mem_ofAscii segment''⟩
  have first : Text.cut? 0x2E (Bytes.ofAscii head ++ 0x2E :: Bytes.ofAscii body) =
      some (Bytes.ofAscii head, Bytes.ofAscii body) :=
    Text.cut?_eq_some_iff.2 ⟨rfl, dot_not_mem_ofAscii segment⟩
  rw [claims, ofAscii_segments, last]
  simp only [required, bind, Except.bind, first, Base64Url.decode?_eq_some_iff.2 ⟨_, rfl, segment⟩,
    Base64Url.decode?_eq_some_iff.2 ⟨_, rfl, segment'⟩,
    Base64Url.decode?_eq_some_iff.2 ⟨_, rfl, segment''⟩]
  cases membersOf bs with
  | error fault => rfl
  | ok header =>
    simp only
    cases headerFault? header <;> rfl

theorem claims_of_sinks {token : Bytes} (h : Sinks token) : claims token = .error .tooDeep := by
  cases h with
  | @header head bs middle last segment deep fresh =>
    have cut : Text.cutLast? 0x2E (Bytes.ofAscii head ++ 0x2E :: (middle ++ 0x2E :: last)) =
        some (Bytes.ofAscii head ++ 0x2E :: middle, last) :=
      Text.cutLast?_eq_some_iff.2 ⟨by simp, fresh⟩
    have first : Text.cut? 0x2E (Bytes.ofAscii head ++ 0x2E :: middle) =
        some (Bytes.ofAscii head, middle) :=
      Text.cut?_eq_some_iff.2 ⟨rfl, dot_not_mem_ofAscii segment⟩
    rw [claims, cut]
    simp only [required, bind, Except.bind, first,
      Base64Url.decode?_eq_some_iff.2 ⟨_, rfl, segment⟩, membersOf_eq_tooDeep_iff.2 deep]
  | claims segment segment' segment'' holds shallow admissible deep =>
    rw [claims_of_segments segment segment' segment'', membersOf_eq_ok_iff.2 ⟨shallow, holds⟩]
    simp only [bind, Except.bind, headerFault?_eq_none_iff.2 admissible, Option.elim_none,
      membersOf_eq_tooDeep_iff.2 deep]

/-- Claims that are read are those of a token in which nothing is nested too deep. -/
theorem decodes_of_claims {token : Bytes} {members : Keyed Json} (h : claims token = .ok members) :
    ∃ t, token = Bytes.ofAscii t ∧ Decodes t members := by
  simp only [claims, Results.bind_eq_ok_iff, required_eq_ok_iff, Prod.exists,
    Text.cut?_eq_some_iff, Text.cutLast?_eq_some_iff, Base64Url.decode?_eq_some_iff] at h
  obtain ⟨_, _, ⟨rfl, -⟩, _, _, ⟨rfl, -⟩, bs, ⟨head, rfl, segment⟩, header, read, bs',
    ⟨body, rfl, segment'⟩, _, ⟨signature, rfl, segment''⟩, checked⟩ := h
  split at checked
  · cases checked
  next sound =>
  exact ⟨_, (ofAscii_segments head body signature).symm,
    .segments segment segment' segment'' (membersOf_eq_ok_iff.1 read).2
      (headerFault?_eq_none_iff.1 sound) (membersOf_eq_ok_iff.1 checked).2⟩

/-- Claims are read from every token that has them, unless the look sinks. -/
theorem claims_of_decodes {t : Text} {members : Keyed Json} (h : Decodes t members)
    (floats : ¬Sinks (Bytes.ofAscii t)) : claims (Bytes.ofAscii t) = .ok members := by
  obtain @⟨head, body, signature, bs, bs', bs'', header, _, segment, segment', segment'', holds,
    admissible, holds'⟩ := h
  have shallow : ¬IsDeep bs := by
    intro deep
    refine floats ?_
    rw [ofAscii_segments, List.append_assoc, List.cons_append]
    exact .header segment deep (dot_not_mem_ofAscii segment'')
  have shallow' : ¬IsDeep bs' := fun deep =>
    floats (.claims segment segment' segment'' holds shallow admissible deep)
  rw [claims_of_segments segment segment' segment'', membersOf_eq_ok_iff.2 ⟨shallow, holds⟩]
  simp only [bind, Except.bind, headerFault?_eq_none_iff.2 admissible, Option.elim_none,
    membersOf_eq_ok_iff.2 ⟨shallow', holds'⟩]

theorem Decodes.isAscii {t : Text} {members : Keyed Json} (h : Decodes t members) : t.IsAscii := by
  obtain ⟨head, body, signature, -, -, -⟩ := h
  have segment {t : Text} {bs : Bytes} (h : Base64Url.IsSegment t bs) : t.IsAscii :=
    fun c hc => (h.of_mem hc).1
  have dot {t : Text} (h : t.IsAscii) : Text.IsAscii (.ofChar '.' :: t) :=
    List.forall_mem_cons.2 ⟨by decide, h⟩
  exact (segment head).append (dot ((segment body).append (dot (segment signature))))

/-- A text has claims exactly if they are read from its bytes, unless the look sinks. -/
theorem claims_of_encode? {token : Text} {bs : Bytes} (h : Utf8.encode? token = some bs)
    (floats : ¬Sinks bs) (members : Keyed Json) :
    claims bs = .ok members ↔ Decodes token members := by
  constructor
  · intro read
    obtain ⟨t, rfl, decodes⟩ := decodes_of_claims read
    have found := Utf8.decode_of_encode? .strict h
    rw [Utf8.decode_ofAscii .strict decodes.isAscii] at found
    exact Option.some.inj found ▸ decodes
  · intro decodes
    rw [Utf8.encode?_of_isAscii decodes.isAscii] at h
    cases h
    exact claims_of_decodes decodes floats

theorem Decodes.ne_nil {t : Text} {members : Keyed Json} (h : Decodes t members) : t ≠ [] := by
  obtain ⟨⟩ := h
  simp

/-! ## Endings -/

/-- A fault that makes a text no token. -/
def Fault.Spoils (fault : Fault) : Prop :=
  fault = .unparsable ∨ ∃ name, fault = .unknownExtension name

theorem Fault.Spoils.reported? {fault : Fault} (h : fault.Spoils) :
    reported? (.error fault) = some (.error "unparseable") := by
  rcases h with rfl | ⟨name, rfl⟩ <;> rfl

theorem spoils_of_required {α : Type} {found : Option α} {fault : Fault}
    (h : required found = .error fault) : fault.Spoils := by
  cases found <;> cases h
  exact .inl rfl

theorem spoils_of_extensionFault? {header : Keyed Json} {extension : Json} {fault : Fault}
    (h : extensionFault? header extension = some fault) : fault.Spoils := by
  unfold extensionFault? at h
  split at h
  · next name =>
    split at h
    · cases h
      exact .inr ⟨name, rfl⟩
    split at h <;> cases h
    exact .inl rfl
  · cases h
    exact .inl rfl

theorem spoils_of_headerFault? {header : Keyed Json} {fault : Fault}
    (h : headerFault? header = some fault) : fault.Spoils := by
  unfold headerFault? at h
  split at h
  · cases h
    exact .inl rfl
  rcases Option.or_eq_some_iff.1 h with crit | ⟨-, b64⟩
  · unfold extensionsFault? at crit
    split at crit
    · cases crit
    · split at crit
      · cases crit
        exact .inl rfl
      · obtain ⟨extension, -, hf⟩ := List.exists_of_findSome?_eq_some crit
        exact spoils_of_extensionFault? hf
    · cases crit
      exact .inl rfl
  · split at b64 <;> cases b64
    exact .inl rfl

/-- Every stage of the reading says that the text is no token, if it fails, unless the look
sinks. -/
theorem claims_error_cases {token : Bytes} {fault : Fault} (h : claims token = .error fault) :
    fault.Spoils ∨ fault = .tooDeep ∧ Sinks token := by
  obtain cut | ⟨⟨signed, signature⟩, last, behind⟩ := Results.bind_eq_error_iff.1 h
  · exact .inl (spoils_of_required cut)
  obtain cut | ⟨⟨head, body⟩, first, segments⟩ := Results.bind_eq_error_iff.1 behind
  · exact .inl (spoils_of_required cut)
  obtain decode | ⟨bs, decoded, reading⟩ := Results.bind_eq_error_iff.1 segments
  · exact .inl (spoils_of_required decode)
  clear h behind segments
  simp only [required_eq_ok_iff, Text.cut?_eq_some_iff, Text.cutLast?_eq_some_iff,
    Base64Url.decode?_eq_some_iff] at last first decoded
  obtain ⟨rfl, fresh⟩ := last
  obtain ⟨rfl, -⟩ := first
  obtain ⟨head, rfl, segment⟩ := decoded
  obtain refused | ⟨members, read, others⟩ := Results.bind_eq_error_iff.1 reading
  · obtain rfl | ⟨rfl, deep⟩ := membersOf_error_cases refused
    · exact .inl (.inl rfl)
    · rw [List.append_assoc, List.cons_append]
      exact .inr ⟨rfl, .header segment deep fresh⟩
  obtain decode | ⟨bs', decoded', last⟩ := Results.bind_eq_error_iff.1 others
  · exact .inl (spoils_of_required decode)
  obtain decode | ⟨bs'', decoded'', ending⟩ := Results.bind_eq_error_iff.1 last
  · exact .inl (spoils_of_required decode)
  split at ending
  · next hf =>
    cases ending
    exact .inl (spoils_of_headerFault? hf)
  next sound =>
  obtain rfl | ⟨rfl, deep⟩ := membersOf_error_cases ending
  · exact .inl (.inl rfl)
  simp only [required_eq_ok_iff, Base64Url.decode?_eq_some_iff] at decoded' decoded''
  obtain ⟨body, rfl, segment'⟩ := decoded'
  obtain ⟨signature, rfl, segment''⟩ := decoded''
  obtain ⟨shallow, holds⟩ := membersOf_eq_ok_iff.1 read
  rw [← ofAscii_segments]
  exact .inr ⟨rfl, .claims segment segment' segment'' holds shallow
    (headerFault?_eq_none_iff.1 sound) deep⟩

/-- What is reported of claims is what they tell. -/
theorem reported?_namespaceIn {claims : Keyed Json} {ending : Except Text Text} :
    reported? (namespaceIn claims) = some ending ↔ Tells claims ending := by
  constructor
  · intro h
    unfold namespaceIn at h
    split at h
    · next hc =>
      cases h
      exact .missingClaim hc
    · next claim hc =>
      split at h
      · next hn =>
        cases h
        exact .missingNamespace hc hn
      · next name hn =>
        cases h
        exact .namespaceName hc hn
      · next value other hn =>
        cases h
        exact .namespaceNotString hc hn other
    · next claim other hc =>
      cases h
      exact .claimNotMapping hc other
  · rintro (hc | ⟨hc, other⟩ | ⟨hc, hn⟩ | ⟨hc, hn, other⟩ | ⟨hc, hn⟩)
    · simp only [namespaceIn, hc]
      rfl
    · rename_i claim
      cases claim with
      | object members => exact absurd rfl (other members)
      | _ =>
        simp only [namespaceIn, hc]
        rfl
    · simp only [namespaceIn, hc, hn]
      rfl
    · rename_i value
      cases value with
      | string name => exact absurd rfl (other name)
      | _ =>
        simp only [namespaceIn, hc, hn]
        rfl
    · simp only [namespaceIn, hc, hn]
      rfl

/-- A text without surrogates is told by what its bytes are read as, unless the look sinks. -/
theorem reported?_of_encode? {token : Text} {bs : Bytes} (h : Utf8.encode? token = some bs)
    (floats : ¬Sinks bs) (present : token ≠ []) {ending : Except Text Text} :
    reported? (claims bs >>= namespaceIn) = some ending ↔ Extracts token ending := by
  have read := claims_of_encode? h floats
  cases hc : claims bs with
  | ok members =>
    have decodes := (read members).1 hc
    refine reported?_namespaceIn.trans ⟨.told decodes, ?_⟩
    rintro (absent | ⟨-, undecoded⟩ | ⟨decodes', tells⟩)
    · exact absurd absent present
    · exact absurd decodes (undecoded members)
    · obtain rfl : members = _ := Except.ok.inj (hc.symm.trans ((read _).2 decodes'))
      exact tells
  | error fault =>
    have undecoded (members : Keyed Json) : ¬Decodes token members := by
      rw [← read, hc]
      exact nofun
    have spoils : fault.Spoils := (claims_error_cases hc).resolve_right fun ⟨_, sinks⟩ =>
      floats sinks
    show reported? (.error fault) = _ ↔ _
    rw [spoils.reported?]
    constructor
    · rintro ⟨⟩
      exact .unparsable present undecoded
    · rintro (absent | - | ⟨decodes, -⟩)
      · exact absurd absent present
      · rfl
      · exact absurd decodes (undecoded _)

theorem reported?_of_isScalar {token : Text} (h : token.IsScalar) (floats : ¬SinksIn token)
    (ending : Except Text Text) :
    reported? (namespaceOf token) = some ending ↔ Extracts token ending := by
  by_cases empty : token = []
  · subst empty
    show some (.error "empty-token") = some ending ↔ _
    constructor
    · rintro ⟨⟩
      exact .emptyToken rfl
    · rintro (- | ⟨present, -⟩ | ⟨decodes, -⟩)
      · rfl
      · exact absurd rfl present
      · exact absurd rfl decodes.ne_nil
  · obtain ⟨bs, hb⟩ := Utf8.isScalar_iff_encode?.1 h
    rw [namespaceOf, if_neg (by simpa using empty), hb]
    exact reported?_of_encode? hb (fun sinks => floats ⟨bs, hb, sinks⟩) empty

theorem Sinks.ne_nil {token : Bytes} (h : Sinks token) : token ≠ [] := by
  cases h with
  | header => simp
  | claims =>
    rw [ofAscii_segments]
    simp

theorem namespaceOf_of_sinksIn {token : Text} (h : SinksIn token) :
    namespaceOf token = .error .tooDeep := by
  obtain ⟨bs, hb, sinks⟩ := h
  have present : token ≠ [] := by
    rintro rfl
    cases hb
    exact sinks.ne_nil rfl
  rw [namespaceOf, if_neg (by simpa using present), hb]
  simp only [claims_of_sinks sinks]
  rfl

theorem SinksIn.isScalar {token : Text} (h : SinksIn token) : token.IsScalar := by
  obtain ⟨bs, hb, -⟩ := h
  exact Utf8.isScalar_iff_encode?.2 ⟨bs, hb⟩

/-- The rules leave no token out. -/
theorem exists_extracts (token : Text) : ∃ ending, Extracts token ending := by
  by_cases empty : token = []
  · exact ⟨_, .emptyToken empty⟩
  by_cases decodes : ∃ claims, Decodes token claims
  · obtain ⟨claims, decodes⟩ := decodes
    obtain ⟨ending, tells⟩ : ∃ ending, Tells claims ending := by
      cases hc : Keyed.get? claimKey claims with
      | none => exact ⟨_, .missingClaim hc⟩
      | some claim =>
        by_cases mapping : ∃ members, claim = .object members
        · obtain ⟨members, rfl⟩ := mapping
          cases hn : Keyed.get? "namespace" members with
          | none => exact ⟨_, .missingNamespace hc hn⟩
          | some value =>
            by_cases text : ∃ name, value = .string name
            · obtain ⟨name, rfl⟩ := text
              exact ⟨_, .namespaceName hc hn⟩
            · exact ⟨_, .namespaceNotString hc hn (not_exists.1 text)⟩
        · exact ⟨_, .claimNotMapping hc (not_exists.1 mapping)⟩
    exact ⟨ending, .told decodes tells⟩
  · exact ⟨_, .unparsable empty (not_exists.1 decodes)⟩

/-- A text with surrogates is no token. -/
theorem extracts_of_not_isScalar {token : Text} (h : ¬token.IsScalar) :
    Extracts token (.error "unparseable") := by
  refine .unparsable ?_ fun claims decodes => h ?_
  · rintro rfl
    exact h (List.forall_mem_nil _)
  · exact fun c hc => Utf8.isSurrogate_of_range (.inl (by have := decodes.isAscii c hc; omega))

theorem namespaceOf_of_not_isScalar {token : Text} (h : ¬token.IsScalar) :
    namespaceOf token = .error .unencodable := by
  have present : token ≠ [] := by
    rintro rfl
    exact h (List.forall_mem_nil _)
  rw [namespaceOf, if_neg (by simpa using present), Utf8.encode?_eq_none_iff.2 h]

/-- The look for the namespace ends as the rules say, and there is an ending for every token,
exactly if the token has no surrogates and the look does not sink. With a surrogate it breaks down,
although the text is no token, and so does a look that sinks. -/
theorem reported?_namespaceOf (token : Text) :
    (∀ ending, reported? (namespaceOf token) = some ending ↔
        token.IsScalar ∧ ¬SinksIn token ∧ Extracts token ending) ∧
      (token.IsScalar ∧ ¬SinksIn token ↔
        ∃ ending, reported? (namespaceOf token) = some ending) ∧
      (¬token.IsScalar ↔ Extracts token (.error "unparseable") ∧
        (namespaceOf token).mapError Failure.ofToken = .error (.breakdown .unencodable)) ∧
      (SinksIn token ↔
        (namespaceOf token).mapError Failure.ofToken = .error (.breakdown .tooDeep)) := by
  by_cases scalar : token.IsScalar
  · by_cases sinks : SinksIn token
    · rw [namespaceOf_of_sinksIn sinks]
      refine ⟨fun ending => iff_of_false nofun fun h => h.2.1 sinks,
        iff_of_false (fun h => h.2 sinks) nofun, iff_of_false (not_not.2 scalar) ?_,
        iff_of_true sinks rfl⟩
      rintro ⟨-, broken⟩
      cases broken
    · have ended := reported?_of_isScalar scalar sinks
      obtain ⟨ending, extracts⟩ := exists_extracts token
      have reports := (ended ending).2 extracts
      have unbroken (cause : Breakdown) :
          (namespaceOf token).mapError Failure.ofToken ≠ .error (.breakdown cause) := by
        intro broken
        rw [reported?, broken] at reports
        cases reports
      refine ⟨fun ending => ?_, iff_of_true ⟨scalar, sinks⟩ ⟨_, reports⟩,
        iff_of_false (not_not.2 scalar) fun h => unbroken _ h.2,
        iff_of_false sinks (unbroken _)⟩
      rw [ended, and_iff_right sinks, and_iff_right scalar]
  · have broken := namespaceOf_of_not_isScalar scalar
    rw [broken]
    refine ⟨fun ending => iff_of_false nofun fun h => scalar h.1,
      iff_of_false (fun h => scalar h.1) nofun,
      iff_of_true scalar ⟨extracts_of_not_isScalar scalar, rfl⟩,
      iff_of_false (fun h => scalar h.isScalar) ?_⟩
    intro h
    cases h

/-- A lone surrogate is no token, and it breaks the look down. -/
theorem namespaceOf_lone_surrogate :
    Extracts [⟨0xD800, by decide⟩] (.error "unparseable") ∧
      reported? (namespaceOf [⟨0xD800, by decide⟩]) = none ∧
      (namespaceOf [⟨0xD800, by decide⟩]).mapError Failure.ofToken =
        .error (.breakdown .unencodable) :=
  ⟨extracts_of_not_isScalar (by decide), rfl, rfl⟩

end PullAuth.Token
