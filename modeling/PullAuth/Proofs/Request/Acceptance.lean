import PullAuth.Proofs.CredentialFile.Schema
import PullAuth.Proofs.Json.Depth
import PullAuth.Request

/-!
The texts that are requests. A text that is not nested too deep is accepted exactly if it denotes an
object that fits (`Fits`), and the request is what that object carries (`Carries`): its image and
its token, whatever its other members are. Every other one is refused, for one of two reasons
(`Refused`); the main statement is `ofText_accepts`.
-/
namespace PullAuth.Request

open CredentialFile (TextIfThere)
open Schema

/-- The members of a request that are texts if they are there. -/
def textKeys : List Text := ["kind", "apiVersion", "serviceAccountToken"]

/-- The members that a request carries on. -/
def carriedKeys : List Text := ["image", "serviceAccountToken"]

def IsTexts (value : Json) : Prop :=
  ∃ members, value = .object members ∧ ∀ m ∈ members, ∃ t, m.2 = .string t

/-- The members of a request. -/
structure Fits (members : Keyed Json) : Prop where
  image : ∃ t, Keyed.get? "image" members = some (.string t) ∧ t ≠ []
  texts : ∀ key ∈ textKeys, TextIfThere members key
  annotations : ∀ value, Keyed.get? "serviceAccountAnnotations" members = some value → IsTexts value

/-- The image and the token of a request are among the members; the token is empty if there is
none. -/
structure Carries (members : Keyed Json) (request : Request) : Prop where
  image : Keyed.get? "image" members = some (.string request.image)
  token : Keyed.get? "serviceAccountToken" members = some (.string request.token) ∨
    Keyed.get? "serviceAccountToken" members = none ∧ request.token = []

/-- The text asks for what the request says. -/
def Asks (t : Text) (request : Request) : Prop :=
  ∃ members, Json.Denotes t (.object members) ∧ Fits members ∧ Carries members request

/-- Why a text is no request: it denotes no value, or one that does not fit. -/
inductive Refused (t : Text) : ValidationFault → Prop
  | notJson : (∀ v, ¬Json.Denotes t v) → Refused t .requestNotJson
  | misfit {v : Json} {culprit : Schema.Violation} : Json.Denotes t v →
    (∀ members, v = .object members → ¬Fits members) →
    Schema.request.check v = some culprit →
    Refused t (.misfit ⟨Kinds.request, source, culprit⟩)

/-! ## The schema -/

theorem request_eq : Schema.request =
    { kinds := [.object],
      properties := [("kind", { kinds := [.string] }), ("apiVersion", { kinds := [.string] }),
        ("image", { kinds := [.string], nonEmpty := true }),
        ("serviceAccountToken", { kinds := [.string] }),
        ("serviceAccountAnnotations",
          { kinds := [.object], others := some { kinds := [.string] } })],
      required := ["image"] } := by
  with_unfolding_all rfl

theorem violations_image_iff {value : Json} :
    Schema.violations { kinds := [.string], nonEmpty := true } value = [] ↔
      ∃ t, value = .string t ∧ t ≠ [] := by
  constructor
  · intro h
    cases value with
    | string t =>
      refine ⟨t, rfl, ?_⟩
      rintro rfl
      cases h
    | _ => simp [violations, ownBreaches, lackBreaches, kindBreaches, ValueKind.holds] at h
  · rintro ⟨t, rfl, present⟩
    cases t with
    | nil => exact absurd rfl present
    | cons c t => rfl

theorem violations_annotations_iff {value : Json} :
    Schema.violations { kinds := [.object], others := some { kinds := [.string] } } value = [] ↔
      IsTexts value := by
  have object (members : Keyed Json) :
      Schema.violations { kinds := [.object], others := some { kinds := [.string] } }
        (.object members) = [] ↔ ∀ m ∈ members, ∃ t, m.2 = .string t := by
    have all : (members.filter fun m => !Keyed.has m.1 ([] : List (Text × Schema))) = members :=
      List.filter_eq_self.2 fun _ _ => rfl
    rw [violations_object_eq_nil_iff]
    simp only [all, otherViolations_some_eq_nil_iff, violations_string_iff]
    exact ⟨fun h => h.2.2, fun h => ⟨rfl, rfl, h⟩⟩
  constructor
  · intro h
    obtain ⟨members, rfl⟩ := exists_object_of_violations rfl h
    exact ⟨members, rfl, (object members).1 h⟩
  · rintro ⟨members, rfl, h⟩
    exact (object members).2 h

/-- A value passes the check if it is an object that fits. -/
theorem check_eq_none_iff {v : Json} :
    Schema.request.check v = none ↔ ∃ members, v = .object members ∧ Fits members := by
  have object (members : Keyed Json) :
      Schema.request.violations (.object members) = [] ↔ Fits members := by
    have own : forbiddenBreaches false (.object members) ++
        ownBreaches [.object] ["image"] false false (.object members) = [] ↔
          Keyed.has "image" members = true := by
      cases h : Keyed.has "image" members <;>
        simp [forbiddenBreaches, ownBreaches, kindBreaches, lackBreaches, ValueKind.holds, h]
    rw [request_eq, violations_object_eq_nil_iff, propertyViolations_eq_nil_iff]
    simp only [own, List.forall_mem_cons, List.not_mem_nil, false_implies, implies_true, and_true,
      violations_string_iff, violations_image_iff, violations_annotations_iff]
    constructor
    · rintro ⟨there, ⟨kind, version, image, token, annotations⟩, -⟩
      obtain ⟨value, hv⟩ := Option.isSome_iff_exists.1 there
      obtain ⟨t, rfl, present⟩ := image value hv
      refine ⟨⟨t, hv, present⟩, ?_, annotations⟩
      simp only [textKeys, List.forall_mem_cons, List.not_mem_nil, false_implies, implies_true,
        and_true]
      exact ⟨kind, version, token⟩
    · rintro ⟨⟨t, hv, present⟩, texts, annotations⟩
      simp only [textKeys, List.forall_mem_cons, List.not_mem_nil, false_implies, implies_true,
        and_true] at texts
      obtain ⟨kind, version, token⟩ := texts
      refine ⟨Option.isSome_iff_exists.2 ⟨_, hv⟩, ⟨kind, version, fun value h => ?_, token,
        annotations⟩, rfl⟩
      cases hv.symm.trans h
      exact ⟨t, rfl, present⟩
  rw [Schema.check_eq_none_iff]
  constructor
  · intro h
    obtain ⟨members, rfl⟩ := exists_object_of_violations (request_eq ▸ rfl) h
    exact ⟨members, rfl, (object members).1 h⟩
  · rintro ⟨members, rfl, h⟩
    exact (object members).2 h

/-! ## Documents and texts -/

/-- What an object that fits carries is read from its members. -/
theorem carries_iff {members : Keyed Json} (fits : Fits members) {request : Request} :
    Carries members request ↔ request = ⟨memberText "image" (.object members),
      memberText "serviceAccountToken" (.object members)⟩ := by
  obtain ⟨t, image, -⟩ := fits.image
  have token := fits.texts "serviceAccountToken" (by decide)
  simp only [memberText, Json.member?, image]
  constructor
  · rintro ⟨image', given | ⟨absent, empty⟩⟩
    · cases image.symm.trans image'
      rw [given]
      rfl
    · cases image.symm.trans image'
      rw [absent]
      exact congrArg (Request.mk _) empty
  · rintro rfl
    cases h : Keyed.get? "serviceAccountToken" members with
    | none => exact ⟨image, .inr ⟨h, rfl⟩⟩
    | some value =>
      obtain ⟨t, rfl⟩ := token value h
      exact ⟨image, .inl h⟩

theorem ofJson_of_fits {members : Keyed Json} (fits : Fits members) :
    ofJson (.object members) = .ok ⟨memberText "image" (.object members),
      memberText "serviceAccountToken" (.object members)⟩ := by
  rw [ofJson, Schema.misfit?, check_eq_none_iff.2 ⟨members, rfl, fits⟩]
  rfl

theorem ofJson_eq_error_iff {v : Json} {fault : ValidationFault} :
    ofJson v = .error fault ↔ ∃ culprit, Schema.request.check v = some culprit ∧
      fault = .misfit ⟨Kinds.request, source, culprit⟩ := by
  simp only [ofJson, Schema.misfit?]
  cases Schema.request.check v with
  | none => simp
  | some culprit => simp [eq_comm]

theorem ofJson_eq_ok_iff {v : Json} {request : Request} :
    ofJson v = .ok request ↔
      ∃ members, v = .object members ∧ Fits members ∧ Carries members request := by
  constructor
  · intro h
    cases hc : Schema.request.check v with
    | none =>
      obtain ⟨members, rfl, fits⟩ := check_eq_none_iff.1 hc
      rw [ofJson_of_fits fits] at h
      cases h
      exact ⟨members, rfl, fits, (carries_iff fits).2 rfl⟩
    | some culprit =>
      rw [ofJson_eq_error_iff.2 ⟨culprit, hc, rfl⟩] at h
      cases h
  · rintro ⟨members, rfl, fits, carries⟩
    rw [ofJson_of_fits fits, (carries_iff fits).1 carries]

theorem ofText_eq_ok_iff {t : Text} {request : Request} :
    ofText t = .ok request ↔ Json.isTooDeep t = false ∧ Asks t request := by
  rw [ofText, Json.readDocument_eq_ok_iff]
  refine and_congr_right fun _ => ⟨?_, ?_⟩
  · rintro ⟨v, denotes, accepted⟩
    obtain ⟨members, rfl, fits, carries⟩ := ofJson_eq_ok_iff.1 accepted
    exact ⟨members, denotes, fits, carries⟩
  · rintro ⟨members, denotes, fits, carries⟩
    exact ⟨_, denotes, ofJson_eq_ok_iff.2 ⟨members, rfl, fits, carries⟩⟩

theorem refused_iff {t : Text} {fault : ValidationFault} :
    Refused t fault ↔ (∃ v, Json.Denotes t v ∧ ofJson v = .error fault) ∨
      (∀ v, ¬Json.Denotes t v) ∧ fault = .requestNotJson := by
  constructor
  · rintro (undenoted | ⟨denotes, -, hc⟩)
    · exact .inr ⟨undenoted, rfl⟩
    · exact .inl ⟨_, denotes, ofJson_eq_error_iff.2 ⟨_, hc, rfl⟩⟩
  · rintro (⟨v, denotes, refused⟩ | ⟨undenoted, rfl⟩)
    · obtain ⟨culprit, hc, rfl⟩ := ofJson_eq_error_iff.1 refused
      refine .misfit denotes (fun members e fits => ?_) hc
      rw [check_eq_none_iff.2 ⟨members, e, fits⟩] at hc
      cases hc
    · exact .notJson undenoted

theorem ofText_eq_error_iff {t : Text} {failure : Failure} :
    ofText t = .error failure ↔ Json.Fails t (Refused t) failure :=
  Json.readDocument_eq_error_iff fun _ => refused_iff

/-- A text that is not nested too deep is a request exactly if it denotes an object that fits, and
it carries the image and the token of that object, which is all that counts of it. Every other one
is refused for its reason as an invalid input, and a text that is nested too deep is a
breakdown. -/
theorem ofText_accepts (t other : Text) :
    ((∃ request, ofText t = .ok request) ↔ Json.isTooDeep t = false ∧
      ∃ members, Json.Denotes t (.object members) ∧ Fits members) ∧
    (∀ request, ofText t = .ok request ↔ Json.isTooDeep t = false ∧ Asks t request) ∧
    (∀ failure, ofText t = .error failure ↔ Json.Fails t (Refused t) failure) ∧
    ∀ members members', Json.isTooDeep t = false → Json.isTooDeep other = false →
      Json.Denotes t (.object members) → Json.Denotes other (.object members') →
      Fits members → Fits members' →
      (∀ key ∈ carriedKeys, Keyed.get? key members' = Keyed.get? key members) →
      ofText other = ofText t := by
  refine ⟨?_, fun _ => ofText_eq_ok_iff, fun _ => ofText_eq_error_iff, ?_⟩
  · simp only [ofText_eq_ok_iff, exists_and_left]
    refine and_congr_right fun _ => ⟨?_, ?_⟩
    · rintro ⟨request, members, denotes, fits, -⟩
      exact ⟨members, denotes, fits⟩
    · rintro ⟨members, denotes, fits⟩
      exact ⟨_, members, denotes, fits, (carries_iff fits).2 rfl⟩
  · intro members members' shallow shallow' denotes denotes' fits fits' same
    have image : Keyed.get? "image" members' = Keyed.get? "image" members := same _ (by decide)
    have token : Keyed.get? "serviceAccountToken" members' =
        Keyed.get? "serviceAccountToken" members := same _ (by decide)
    obtain ⟨request, carries⟩ : ∃ request, Carries members request := ⟨_, (carries_iff fits).2 rfl⟩
    have carries' : Carries members' request := ⟨image ▸ carries.image, token ▸ carries.token⟩
    rw [ofText_eq_ok_iff.2 ⟨shallow, members, denotes, fits, carries⟩,
      ofText_eq_ok_iff.2 ⟨shallow', members', denotes', fits', carries'⟩]

/-- The members of a request that has just an image. -/
def shortMembers : Keyed Json := [("image", .string "quay.io/app")]

/-- The same image among members that are not carried on, one of which is no text. -/
def longMembers : Keyed Json :=
  [("kind", .string "x"), ("note", .array [.null]), ("image", .string "quay.io/app"),
    ("serviceAccountAnnotations", .object [("a", .string [])])]

theorem fits_of_isNone {members : Keyed Json}
    (h : (Schema.request.check (.object members)).isNone = true) : Fits members := by
  obtain ⟨found, e, fits⟩ := check_eq_none_iff.1 (Option.isNone_iff_eq_none.1 h)
  cases e
  exact fits

theorem ofText_accepts_long :
    Fits shortMembers ∧ Fits longMembers ∧
      ofText ((Json.object shortMembers).write .oneLine) = .ok ⟨"quay.io/app", []⟩ ∧
      ofText ((Json.object longMembers).write .oneLine) =
        ofText ((Json.object shortMembers).write .oneLine) := by
  have fits : Fits shortMembers := fits_of_isNone (by decide +kernel)
  have fits' : Fits longMembers := fits_of_isNone (by decide +kernel)
  have read : Json.read ((Json.object shortMembers).write .oneLine) = .ok (.object shortMembers) :=
    by cbv
  have read' : Json.read ((Json.object longMembers).write .oneLine) = .ok (.object longMembers) :=
    by cbv
  obtain ⟨shallow, short⟩ := Json.read_eq_ok_iff.1 read
  obtain ⟨shallow', long⟩ := Json.read_eq_ok_iff.1 read'
  obtain ⟨-, accepted, -, carried⟩ := ofText_accepts ((Json.object shortMembers).write .oneLine)
    ((Json.object longMembers).write .oneLine)
  have carries : Carries shortMembers ⟨"quay.io/app", []⟩ := ⟨rfl, .inr ⟨rfl, rfl⟩⟩
  have same : ∀ key ∈ carriedKeys, Keyed.get? key longMembers = Keyed.get? key shortMembers := by
    simp only [carriedKeys, List.forall_mem_cons, List.not_mem_nil, false_implies, implies_true,
      and_true]
    exact ⟨rfl, rfl⟩
  exact ⟨fits, fits', (accepted _).2 ⟨shallow, _, short, fits, carries⟩,
    carried _ _ shallow shallow' short long fits fits' same⟩

/-- Twenty thousand brackets are no request and yet are not refused. -/
theorem request_of_brackets :
    Refused (Text.brackets 20000) .requestNotJson ∧
      ofText (Text.brackets 20000) = .error (.breakdown .tooDeep) := by
  have deep : Json.isTooDeep (Text.brackets 20000) = true :=
    Json.isTooDeep_brackets (by decide)
  exact ⟨.notJson (Json.not_denotes_brackets 20000), ofText_eq_error_iff.2 (.tooDeep deep)⟩

end PullAuth.Request
