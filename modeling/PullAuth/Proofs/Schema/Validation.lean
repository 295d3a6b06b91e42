import PullAuth.Proofs.Request.Acceptance
import PullAuth.Proofs.Schema.Culprit

/-!
The check of documents under the kinds known from the start. What can be wrong with a request and
with a credential file is listed place by place (`Request.Wrong`, `CredentialFile.Wrong`), together
with what is said of the value there; the values in which nothing is wrong are the requests and the
credential files (`fits_request_iff`, `fits_credentialFile_iff`). They come back from the check as
they are; of any other document the message names a place at which something is wrong, none being
nearer to the root, and says it of the value to be found there (`Kinds.validate_reports`).
-/
namespace PullAuth

/-! ## What can be wrong -/

/-- What can be wrong with the value to which keys lead in a request, and what is said of it. -/
inductive Request.Wrong : List Text → Json → Text → Prop
  | notObject {value : Json} : value.isObject = false →
    Wrong [] value (value.display ++ " is not of type 'object'")
  | noImage {members : Keyed Json} : Keyed.get? "image" members = none →
    Wrong [] (.object members) "'image' is a required property"
  | emptyImage {value : Json} : value = .string [] →
    Wrong ["image"] value (value.display ++ " should be non-empty")
  | notText {key : Text} {value : Json} : key = "image" ∨ key ∈ textKeys → value.isString = false →
    Wrong [key] value (value.display ++ " is not of type 'string'")
  | annotationsNotObject {value : Json} : value.isObject = false →
    Wrong ["serviceAccountAnnotations"] value (value.display ++ " is not of type 'object'")
  | annotationNotText {key : Text} {value : Json} : value.isString = false →
    Wrong ["serviceAccountAnnotations", key] value (value.display ++ " is not of type 'string'")

/-- What can be wrong with the value to which keys lead in a credential file, and what is said of
it. -/
inductive CredentialFile.Wrong : List Text → Json → Text → Prop
  | notObject {value : Json} : value.isObject = false →
    Wrong [] value (value.display ++ " is not of type 'object'")
  | entriesNotObject {value : Json} : value.isObject = false → value.isNull = false →
    Wrong [entriesKey] value (value.display ++ " is not of type 'object', 'null'")
  | entryNotObject {registry : Text} {value : Json} : value.isObject = false →
    Wrong [entriesKey, registry] value (value.display ++ " is not of type 'object'")
  | notText {registry key : Text} {value : Json} : key ∈ textKeys → value.isString = false →
    Wrong [entriesKey, registry, key] value (value.display ++ " is not of type 'string'")

/-- No key at the top is empty. -/
theorem Request.Wrong.keys_ne {keys : List Text} {value : Json} {what : Text}
    (h : Wrong keys value what) : keys ≠ [[]] := by
  intro e
  cases h with
  | notText named =>
    cases e
    rcases named with named | named
    · cases named
    · exact absurd named (by decide)
  | _ => cases e

theorem CredentialFile.Wrong.keys_ne {keys : List Text} {value : Json} {what : Text}
    (h : Wrong keys value what) : keys ≠ [[]] := by
  intro e
  cases h <;> cases e

namespace Schema

/-! ## What is said of a request and of a credential file -/

theorem holds_object (value : Json) : ValueKind.object.holds value = value.isObject := by
  cases value <;> rfl

theorem holds_string (value : Json) : ValueKind.string.holds value = value.isString := by
  cases value <;> rfl

theorem holds_null (value : Json) : ValueKind.null.holds value = value.isNull := by
  cases value <;> rfl

theorem message_kind {kinds : List ValueKind} {ending : Text}
    (h : " is not of type " ++
      Text.join ", " (kinds.map fun kind => Text.quoted kind.name) = ending)
    (value : Json) : (Breach.kind value kinds).message = value.display ++ ending := by
  rw [Breach.message, List.append_assoc, h]

theorem message_notObject (value : Json) :
    (Breach.kind value [.object]).message = value.display ++ " is not of type 'object'" :=
  message_kind (by decide +kernel) value

theorem message_notString (value : Json) :
    (Breach.kind value [.string]).message = value.display ++ " is not of type 'string'" :=
  message_kind (by decide +kernel) value

theorem complains_text_iff {keys : List Text} {value : Json} {what : Text} :
    Complains { kinds := [.string] } keys value what ↔
      keys = [] ∧ value.isString = false ∧ what = value.display ++ " is not of type 'string'" := by
  cases keys with
  | nil =>
    rw [complains_nil_iff, message_notString]
    simp [holds_string]
  | cons key keys => simp [complains_cons_iff, asksMember_iff]

theorem complains_image_iff {keys : List Text} {value : Json} {what : Text} :
    Complains { kinds := [.string], nonEmpty := true } keys value what ↔
      keys = [] ∧
        ((value.isString = false ∧ what = value.display ++ " is not of type 'string'") ∨
          (value = .string [] ∧ what = value.display ++ " should be non-empty")) := by
  cases keys with
  | nil =>
    rw [complains_nil_iff, message_notString]
    simp [holds_string, Breach.message]
  | cons key keys => simp [complains_cons_iff, asksMember_iff]

theorem complains_annotations_iff {keys : List Text} {value : Json} {what : Text} :
    Complains { kinds := [.object], others := some { kinds := [.string] } } keys value what ↔
      (keys = [] ∧ value.isObject = false ∧ what = value.display ++ " is not of type 'object'") ∨
      ∃ key, keys = [key] ∧ value.isString = false ∧
        what = value.display ++ " is not of type 'string'" := by
  cases keys with
  | nil =>
    rw [complains_nil_iff, message_notObject]
    simp [holds_object]
  | cons key keys => simp [complains_cons_iff, asksMember_iff, complains_text_iff]

theorem message_notObjectOrNull (value : Json) : (Breach.kind value [.object, .null]).message =
    value.display ++ " is not of type 'object', 'null'" :=
  message_kind (by decide +kernel) value

theorem message_noImage :
    (Breach.missing "image").message = "'image' is a required property" := by
  decide +kernel

theorem asksMember_request_iff {key : Text} {part : Schema} :
    Schema.request.AsksMember key part ↔
      (key ∈ Request.textKeys ∧ part = { kinds := [.string] }) ∨
      (key = "image" ∧ part = { kinds := [.string], nonEmpty := true }) ∨
      (key = "serviceAccountAnnotations" ∧
        part = { kinds := [.object], others := some { kinds := [.string] } }) := by
  simp only [Request.request_eq, asksMember_iff, Request.textKeys, List.mem_cons, Prod.mk.injEq,
    List.not_mem_nil, reduceCtorEq, false_and, or_false]
  constructor
  · rintro (⟨rfl, rfl⟩ | ⟨rfl, rfl⟩ | image | ⟨rfl, rfl⟩ | annotations)
    · exact .inl ⟨.inl rfl, rfl⟩
    · exact .inl ⟨.inr (.inl rfl), rfl⟩
    · exact .inr (.inl image)
    · exact .inl ⟨.inr (.inr rfl), rfl⟩
    · exact .inr (.inr annotations)
  · rintro (⟨rfl | rfl | rfl, rfl⟩ | image | annotations)
    · exact .inl ⟨rfl, rfl⟩
    · exact .inr (.inl ⟨rfl, rfl⟩)
    · exact .inr (.inr (.inr (.inl ⟨rfl, rfl⟩)))
    · exact .inr (.inr (.inl image))
    · exact .inr (.inr (.inr (.inr annotations)))

/-- What is said of a request is what can be wrong with it. -/
theorem complains_request_iff {keys : List Text} {value : Json} {what : Text} :
    Schema.request.Complains keys value what ↔ Request.Wrong keys value what := by
  cases keys with
  | nil =>
    rw [Request.request_eq, complains_nil_iff, message_notObject]
    constructor
    · rintro (⟨-, none_holds, rfl⟩ | ⟨members, key, rfl, asked, absent, rfl⟩ | ⟨-, unasked, -⟩ |
        ⟨unasked, -⟩)
      · exact .notObject (holds_object value ▸ none_holds _ (List.mem_singleton_self _))
      · cases List.mem_singleton.1 asked
        exact message_noImage ▸ .noImage absent
      · cases unasked
      · cases unasked
    · rintro (not_object | absent)
      · exact .inl ⟨List.cons_ne_nil _ _, by simpa [holds_object] using not_object, rfl⟩
      · exact .inr (.inl ⟨_, _, rfl, List.mem_singleton_self _, absent, message_noImage.symm⟩)
  | cons key keys =>
    simp only [complains_cons_iff, asksMember_request_iff]
    constructor
    · rintro ⟨part, ⟨named, rfl⟩ | ⟨rfl, rfl⟩ | ⟨rfl, rfl⟩, said⟩
      · obtain ⟨rfl, not_text, rfl⟩ := complains_text_iff.1 said
        exact .notText (.inr named) not_text
      · obtain ⟨rfl, ⟨not_text, rfl⟩ | ⟨rfl, rfl⟩⟩ := complains_image_iff.1 said
        · exact .notText (.inl rfl) not_text
        · exact .emptyImage rfl
      · obtain ⟨rfl, not_object, rfl⟩ | ⟨key, rfl, not_text, rfl⟩ :=
          complains_annotations_iff.1 said
        · exact .annotationsNotObject not_object
        · exact .annotationNotText not_text
    · intro wrong
      cases wrong with
      | emptyImage empty =>
        exact ⟨_, .inr (.inl ⟨rfl, rfl⟩), complains_image_iff.2 ⟨rfl, .inr ⟨empty, rfl⟩⟩⟩
      | notText named not_text =>
        rcases named with rfl | named
        · exact ⟨_, .inr (.inl ⟨rfl, rfl⟩), complains_image_iff.2 ⟨rfl, .inl ⟨not_text, rfl⟩⟩⟩
        · exact ⟨_, .inl ⟨named, rfl⟩, complains_text_iff.2 ⟨rfl, not_text, rfl⟩⟩
      | annotationsNotObject not_object =>
        exact ⟨_, .inr (.inr ⟨rfl, rfl⟩),
          complains_annotations_iff.2 (.inl ⟨rfl, not_object, rfl⟩)⟩
      | annotationNotText not_text =>
        exact ⟨_, .inr (.inr ⟨rfl, rfl⟩),
          complains_annotations_iff.2 (.inr ⟨_, rfl, not_text, rfl⟩)⟩

theorem complains_entry_iff {keys : List Text} {value : Json} {what : Text} :
    CredentialFile.entrySchema.Complains keys value what ↔
      (keys = [] ∧ value.isObject = false ∧ what = value.display ++ " is not of type 'object'") ∨
      ∃ key ∈ CredentialFile.textKeys, keys = [key] ∧ value.isString = false ∧
        what = value.display ++ " is not of type 'string'" := by
  have asks {key : Text} {part : Schema} : CredentialFile.entrySchema.AsksMember key part ↔
      key ∈ CredentialFile.textKeys ∧ part = { kinds := [.string] } := by
    have properties : CredentialFile.entrySchema.properties =
        CredentialFile.textKeys.map fun key => (key, { kinds := [.string] }) := rfl
    have others : CredentialFile.entrySchema.others = none := rfl
    rw [asksMember_iff, properties, others, List.mem_map]
    simp [eq_comm]
  cases keys with
  | nil =>
    rw [CredentialFile.entrySchema, complains_nil_iff, message_notObject]
    simp [holds_object]
  | cons key keys =>
    simp only [complains_cons_iff, asks, reduceCtorEq, false_and, false_or]
    constructor
    · rintro ⟨part, ⟨named, rfl⟩, said⟩
      obtain ⟨rfl, not_text, rfl⟩ := complains_text_iff.1 said
      exact ⟨key, named, rfl, not_text, rfl⟩
    · rintro ⟨key, named, e, not_text, rfl⟩
      cases e
      exact ⟨_, ⟨named, rfl⟩, complains_text_iff.2 ⟨rfl, not_text, rfl⟩⟩

theorem complains_entries_iff {keys : List Text} {value : Json} {what : Text} :
    Complains { kinds := [.object, .null], others := some CredentialFile.entrySchema } keys value
        what ↔
      (keys = [] ∧ value.isObject = false ∧ value.isNull = false ∧
        what = value.display ++ " is not of type 'object', 'null'") ∨
      ∃ registry rest, keys = registry :: rest ∧
        CredentialFile.entrySchema.Complains rest value what := by
  cases keys with
  | nil =>
    rw [complains_nil_iff, message_notObjectOrNull]
    simp [holds_object, holds_null, and_assoc]
  | cons key keys => simp [complains_cons_iff, asksMember_iff]

/-- What is said of a credential file is what can be wrong with it. -/
theorem complains_credentialFile_iff {keys : List Text} {value : Json} {what : Text} :
    Schema.credentialFile.Complains keys value what ↔ CredentialFile.Wrong keys value what := by
  have asks {key : Text} {part : Schema} : Schema.credentialFile.AsksMember key part ↔
      key = CredentialFile.entriesKey ∧
        part = { kinds := [.object, .null], others := some CredentialFile.entrySchema } := by
    rw [CredentialFile.credentialFile_eq, asksMember_iff]
    simp
  cases keys with
  | nil =>
    rw [CredentialFile.credentialFile_eq, complains_nil_iff, message_notObject]
    constructor
    · rintro (⟨-, none_holds, rfl⟩ | ⟨members, key, -, unasked, -⟩ | ⟨-, unasked, -⟩ |
        ⟨unasked, -⟩)
      · exact .notObject (holds_object value ▸ none_holds _ (List.mem_singleton_self _))
      · cases unasked
      · cases unasked
      · cases unasked
    · rintro ⟨not_object⟩
      exact .inl ⟨List.cons_ne_nil _ _, by simpa [holds_object] using not_object, rfl⟩
  | cons key keys =>
    simp only [complains_cons_iff, asks]
    constructor
    · rintro ⟨part, ⟨rfl, rfl⟩, said⟩
      obtain ⟨rfl, not_object, not_null, rfl⟩ | ⟨registry, rest, rfl, below⟩ :=
        complains_entries_iff.1 said
      · exact .entriesNotObject not_object not_null
      · obtain ⟨rfl, not_object, rfl⟩ | ⟨key, named, rfl, not_text, rfl⟩ :=
          complains_entry_iff.1 below
        · exact .entryNotObject not_object
        · exact .notText named not_text
    · intro wrong
      refine ⟨_, ⟨?_, rfl⟩, complains_entries_iff.2 ?_⟩
      · cases wrong <;> rfl
      · cases wrong with
        | entriesNotObject not_object not_null => exact .inl ⟨rfl, not_object, not_null, rfl⟩
        | entryNotObject not_object =>
          exact .inr ⟨_, _, rfl, complains_entry_iff.2 (.inl ⟨rfl, not_object, rfl⟩)⟩
        | notText named not_text =>
          exact .inr ⟨_, _, rfl, complains_entry_iff.2 (.inr ⟨_, named, rfl, not_text, rfl⟩)⟩

/-- A value is a request exactly if nothing is wrong anywhere in it. -/
theorem fits_request_iff {document : Json} (distinct : document.HasDistinctKeys) :
    (∃ members, document = .object members ∧ Request.Fits members) ↔
      ∀ keys value what, document.at? keys = some value → ¬Request.Wrong keys value what := by
  rw [← Request.check_eq_none_iff, check_eq_none_iff_not_complains distinct]
  simp only [complains_request_iff]

/-- A value is a credential file exactly if nothing is wrong anywhere in it. -/
theorem fits_credentialFile_iff {document : Json} (distinct : document.HasDistinctKeys) :
    (∃ members, document = .object members ∧ CredentialFile.Fits members) ↔
      ∀ keys value what, document.at? keys = some value →
        ¬CredentialFile.Wrong keys value what := by
  rw [← CredentialFile.violations_credentialFile_iff, ← check_eq_none_iff,
    check_eq_none_iff_not_complains distinct]
  simp only [complains_credentialFile_iff]

/-! ## The message -/

/-- How a message tells a place: by the keys that lead to it. -/
def placeText : List Text → Text
  | [] => "<root>"
  | keys => Text.join "/" keys

theorem place_eq {v : Violation} (h : v.path ≠ [[]]) : v.place = placeText v.path := by
  obtain ⟨keys, breach⟩ := v
  cases keys with
  | nil => rfl
  | cons key rest =>
    have present : Text.join "/" (key :: rest) ≠ [] := by
      cases rest with
      | nil => simpa [Text.join] using h
      | cons next rest => simp [Text.join, Text.ofString]
    exact if_neg (by simpa using present)

end Schema

namespace Kinds

/-- How a document comes out of the check under the name of a kind, where `Wrong` tells what can be
wrong with the value to which keys lead and what is said of it. -/
inductive Verdict (Wrong : List Text → Json → Text → Prop) (kind source : Text) (document : Json) :
    Except Fault Json → Prop
  /-- Nothing is wrong with it. -/
  | returned : (∀ keys value what, document.at? keys = some value → ¬Wrong keys value what) →
    Verdict Wrong kind source document (.ok document)
  /-- Something is wrong at a place, nothing at one nearer to the root, or as near and of greater
  keys; the message names the place and says it of the value there. -/
  | reported {keys : List Text} {value : Json} {what : Text} {misfit : Misfit} :
    document.at? keys = some value → Wrong keys value what →
    (∀ other another said, document.at? other = some another → Wrong other another said →
      keys.length ≤ other.length ∧
        (keys.length = other.length → Schema.pathBefore keys other = false)) →
    misfit.message = "invalid " ++ kind ++
      (if source.isEmpty then ([] : Text) else " from " ++ source) ++
      " at " ++ Schema.placeText keys ++ ": " ++ what →
    Verdict Wrong kind source document (.error (.misfit misfit))

/-- A document comes out as the violations of the schema of its kind have it. -/
theorem verdict_of_complains {Wrong : List Text → Json → Text → Prop} {kinds : Kinds}
    {kind : Text} {description document : Json} {schema : Schema}
    (known : kinds.lookup? kind = some description)
    (describes : Schema.ofDocument? description = some schema)
    (wrong : ∀ {keys value what}, schema.Complains keys value what ↔ Wrong keys value what)
    (named : ∀ {keys value what}, Wrong keys value what → keys ≠ [[]])
    (distinct : document.HasDistinctKeys) (source : Text) :
    Verdict Wrong kind source document (kinds.validate kind source document) := by
  unfold validate
  rw [known]
  simp only [describes, Schema.misfit?]
  cases found : schema.check document with
  | none =>
    refine .returned fun keys value what there said => ?_
    exact (Schema.check_eq_none_iff_not_complains distinct).1 found _ _ _ there (wrong.2 said)
  | some v =>
    obtain ⟨value, there, said⟩ :=
      Schema.exists_complains_of_mem distinct (Schema.culprit_of_check found).1
    refine .reported there (wrong.1 said) (fun other another word there' said' => ?_) ?_
    · exact Schema.nearest_of_check distinct found there' (wrong.2 said')
    · rw [Misfit.message, Schema.place_eq (named (wrong.1 said))]

/-- Of both kinds, a document in which nothing is wrong comes back; of any other the message tells
what is wrong with the value at a place, none being nearer to the root. The documents are the values
in which no object has two members under one key, as it is in all that texts denote. -/
theorem validate_reports (source : Text) (document : Json) :
    (∀ t, Json.Denotes t document → document.HasDistinctKeys) ∧
    (document.HasDistinctKeys →
      Verdict Request.Wrong request source document
        (standard.validate request source document) ∧
      Verdict CredentialFile.Wrong credentialFile source document
        (standard.validate credentialFile source document)) := by
  have request_known : Schema.ofDocument? Schema.requestDocument = some Schema.request := rfl
  have file_known :
      Schema.ofDocument? Schema.credentialFileDocument = some Schema.credentialFile := rfl
  refine ⟨fun _ => Json.hasDistinctKeys_of_denotes, fun distinct => ⟨?_, ?_⟩⟩
  · exact verdict_of_complains rfl request_known Schema.complains_request_iff
      Request.Wrong.keys_ne distinct source
  · exact verdict_of_complains rfl file_known Schema.complains_credentialFile_iff
      CredentialFile.Wrong.keys_ne distinct source

/-- A file with an entry that is no object and, farther from the root, an `auth` that is no text. -/
def faultyFile : Json :=
  .object [("auths", .object [
    ("a.io", .object [("auth", .int 5)]),
    ("quay.io/app", .array [.null])])]

/-- As a credential file the faulty file is reported for the entry that is no object, and as a
request for the image that it lacks. -/
theorem validate_reports_nearest :
    faultyFile.HasDistinctKeys ∧
    Verdict Request.Wrong request [] faultyFile
      (.error (.misfit ⟨request, [], ⟨[], .missing "image"⟩⟩)) ∧
    Verdict CredentialFile.Wrong credentialFile "pull" faultyFile (.error (.misfit
      ⟨credentialFile, "pull", ⟨["auths", "quay.io/app"], .kind (.array [.null]) [.object]⟩⟩)) ∧
    Misfit.message
      ⟨credentialFile, "pull", ⟨["auths", "quay.io/app"], .kind (.array [.null]) [.object]⟩⟩ =
      "invalid DockerConfig from pull at auths/quay.io/app: [None] is not of type 'object'" := by
  have denotes : Json.Denotes (faultyFile.write .oneLine) faultyFile :=
    Json.read?_eq_some_iff.1 (by cbv)
  have distinct := (validate_reports [] faultyFile).1 _ denotes
  have as_request : standard.validate request [] faultyFile =
      .error (.misfit ⟨request, [], ⟨[], .missing "image"⟩⟩) := by
    with_unfolding_all rfl
  have as_file : standard.validate credentialFile "pull" faultyFile = .error (.misfit
      ⟨credentialFile, "pull", ⟨["auths", "quay.io/app"], .kind (.array [.null]) [.object]⟩⟩) := by
    with_unfolding_all rfl
  exact ⟨distinct, as_request ▸ ((validate_reports [] faultyFile).2 distinct).1,
    as_file ▸ ((validate_reports "pull" faultyFile).2 distinct).2, by decide +kernel⟩

end Kinds

end PullAuth
