import PullAuth.Proofs.AuthFile.Outcome

/-!
What a credential file depends on. Of the secrets only the offers that apply to the image or a
mirror are looked at (`merge_congr`), so two lists of secrets that agree on these come to the same
result and leave the same files (`create_eq_of_offers`). Nothing else in a secret has any influence,
and nothing else of it can get into the file, but for one thing: a secret whose file is nested too
deep breaks the order down, whatever it offers.
-/
namespace PullAuth

namespace Merge

/-- Merging looks at the pairs that apply and at nothing else. -/
theorem merge_congr {first second : List Config} {image : Text} {mirrors : List Text}
    (h : ((pairs first).filter fun pair => applies image mirrors pair.1) =
      (pairs second).filter fun pair => applies image mirrors pair.1) (global : CredentialFile) :
    merge first global image mirrors = merge second global image mirrors := by
  have same : qualifying first image mirrors = qualifying second image mirrors := by
    rw [qualifying, qualifying, h]
  rw [merge, merge, same]

end Merge

namespace AuthFile

/-- The offers of secrets that apply to the image or the mirrors of an order. -/
def applicable (order : Order) (secrets : List Secret) : List (Text × Credential) :=
  (secrets.flatMap Secret.offers).filter fun offer =>
    Merge.applies order.image order.mirrors offer.1

/-- The secrets of an order are looked at, and what they offer can be laid over the global file. -/
def Reaches (order : Order) (tree : Tree) : Prop :=
  order.namespaceName ≠ [] ∧ CopiesGlobal order tree

section
variable {order : Order} {first second : List Secret}

theorem content_congr (h : applicable order first = applicable order second)
    (deep : (∃ s ∈ first, s.TooDeep) ↔ ∃ s ∈ second, s.TooDeep) (tree : Tree) :
    content { order with secrets := some first } tree =
      content { order with secrets := some second } tree := by
  have harvests (global : CredentialFile) :
      (Harvest.ofSecrets first >>= fun harvest =>
        (Merge.merge harvest.configs global order.image order.mirrors).mapError
          Failure.breakdown) =
      Harvest.ofSecrets second >>= fun harvest =>
        (Merge.merge harvest.configs global order.image order.mirrors).mapError
          Failure.breakdown := by
    by_cases there : ∃ s ∈ first, s.TooDeep
    · rw [Harvest.ofSecrets_eq_error_iff.2 ⟨there, rfl⟩,
        Harvest.ofSecrets_eq_error_iff.2 ⟨deep.1 there, rfl⟩]
    · obtain ⟨harvest, hf⟩ := Harvest.exists_ofSecrets_iff.2 fun s hs ht => there ⟨s, hs, ht⟩
      obtain ⟨harvest', hs⟩ := Harvest.exists_ofSecrets_iff.2 fun s hs ht =>
        there (deep.2 ⟨s, hs, ht⟩)
      have pairs_eq : ((Merge.pairs harvest.configs).filter fun pair =>
          Merge.applies order.image order.mirrors pair.1) =
          (Merge.pairs harvest'.configs).filter fun pair =>
            Merge.applies order.image order.mirrors pair.1 := by
        rw [Harvest.pairs_ofSecrets hf, Harvest.pairs_ofSecrets hs]
        exact h
      rw [hf, hs]
      exact congrArg (Except.mapError Failure.breakdown) (Merge.merge_congr pairs_eq global)
  rw [content_eq, content_eq]
  simp only [harvests]

/-- Where the secrets are not looked at or the global file cannot be copied, they have no influence
at all. -/
theorem content_of_not_reaches {tree : Tree} (h : ¬Reaches order tree) :
    content { order with secrets := some first } tree =
      content { order with secrets := some second } tree := by
  rw [content_eq, content_eq]
  simp only
  split
  · rfl
  next named =>
  split
  · rfl
  next global hg =>
  have unable : Merge.canCopy global = false := by
    rw [← Bool.not_eq_true]
    exact fun copied => h ⟨by simpa using named, global, hg, copied⟩
  have broken (secrets : List Secret) :
      (Harvest.ofSecrets secrets >>= fun harvest =>
        (Merge.merge harvest.configs global order.image order.mirrors).mapError
          Failure.breakdown) = .error (.breakdown .tooDeep) := by
    cases hs : Harvest.ofSecrets secrets with
    | error failure =>
      obtain ⟨-, rfl⟩ := Harvest.ofSecrets_eq_error_iff.1 hs
      rfl
    | ok harvest =>
      show (Merge.merge harvest.configs global order.image order.mirrors).mapError _ = _
      rw [Merge.merge_eq, unable]
      rfl
  rw [broken, broken]

end

theorem path_ne_tooDeep (dir namespaceName image : Text) :
    path dir namespaceName image ≠ .error (.breakdown .tooDeep) := by
  unfold path
  split
  · exact nofun
  split
  · exact nofun
  simp only
  split
  · exact nofun
  split <;> exact nofun

/-- Where the secrets are looked at, one whose file is nested too deep breaks the order down like
that, and nothing else does. -/
theorem create_eq_tooDeep_iff {order : Order} {tree : Tree} (h : Reaches order tree)
    (secrets : List Secret) :
    (create { order with secrets := some secrets } tree).1 = .error (.breakdown .tooDeep) ↔
      ∃ s ∈ secrets, s.TooDeep := by
  obtain ⟨present, global, hg, copied⟩ := h
  have content_eq' : content { order with secrets := some secrets } tree =
      Harvest.ofSecrets secrets >>= fun harvest =>
        (Merge.merge harvest.configs global order.image order.mirrors).mapError
          Failure.breakdown := by
    rw [content_eq, if_neg (by simpa using present)]
    simp only [hg]
  rw [create_eq, content_eq']
  cases hs : Harvest.ofSecrets secrets with
  | error failure =>
    obtain ⟨deep, rfl⟩ := Harvest.ofSecrets_eq_error_iff.1 hs
    exact iff_of_true rfl deep
  | ok harvest =>
    have shallow := Harvest.exists_ofSecrets_iff.1 ⟨harvest, hs⟩
    refine iff_of_false ?_ fun ⟨s, hs, deep⟩ => shallow s hs deep
    simp only [bind, Except.bind]
    cases hm : Merge.merge harvest.configs global order.image order.mirrors with
    | error cause =>
      intro e
      cases e
      rcases Merge.merge_error_cases (CredentialFile.hasEntriesObject_of_loadGlobal hg) hm with
        ⟨-, e | e | e⟩ | ⟨unable, -⟩
      · cases e
      · cases e
      · cases e
      · rw [copied] at unable
        cases unable
    | ok file =>
      simp only [Except.mapError]
      split
      · next failure hp =>
        rintro ⟨⟩
        exact path_ne_tooDeep _ _ _ hp
      · split
        · exact nofun
        · split
          · exact nofun
          · next fault _ _ => cases fault <;> exact nofun

/-- Secrets that make the same applicable offers in the same order lead to the same result and
leave the same files, if both or neither of them have one whose file is nested too deep. In
particular a secret without an applicable offer may as well be missing: one of another type, one
without a credential file, and one whose entries cannot be decoded or are for registries that have
nothing to do with the image and the mirrors. But a secret whose file is nested too deep breaks an
order down that comes to the secrets. -/
theorem create_eq_of_offers (order : Order) (tree : Tree) :
    (∀ first second : List Secret, applicable order first = applicable order second →
      (create { order with secrets := some first } tree =
          create { order with secrets := some second } tree ↔
        (Reaches order tree → ((∃ s ∈ first, s.TooDeep) ↔ ∃ s ∈ second, s.TooDeep)))) ∧
    ∀ (before after : List Secret) (secret : Secret), ¬secret.TooDeep →
      (∀ offer ∈ secret.offers, ¬((∃ mirror ∈ order.mirrors, offer.1 <+: mirror) ∨
        offer.1 <+: order.image)) →
      create { order with secrets := some (before ++ secret :: after) } tree =
        create { order with secrets := some (before ++ after) } tree := by
  have congr (first second : List Secret) (h : applicable order first = applicable order second)
      (deep : Reaches order tree → ((∃ s ∈ first, s.TooDeep) ↔ ∃ s ∈ second, s.TooDeep)) :
      create { order with secrets := some first } tree =
        create { order with secrets := some second } tree := by
    rw [create, create]
    by_cases reached : Reaches order tree
    · rw [content_congr h (deep reached)]
    · rw [content_of_not_reaches reached]
  refine ⟨fun first second h => ⟨fun same reached => ?_, congr first second h⟩,
    fun before after secret shallow h => congr _ _ ?_ fun _ => ?_⟩
  · rw [← create_eq_tooDeep_iff reached, ← create_eq_tooDeep_iff reached, same]
  · -- The offers of the secret are left out before anything is done with them.
    have nothing : (secret.offers.filter fun offer =>
        Merge.applies order.image order.mirrors offer.1) = [] := by
      rw [List.filter_eq_nil_iff]
      intro offer ho ha
      exact h offer ho (Merge.applies_iff.1 ha)
    calc applicable order (before ++ secret :: after)
        = applicable order before ++ (secret.offers.filter fun offer =>
            Merge.applies order.image order.mirrors offer.1) ++ applicable order after := by
          simp only [applicable, List.flatMap_append, List.flatMap_cons, List.filter_append,
            List.append_assoc]
      _ = applicable order before ++ applicable order after := by rw [nothing, List.append_nil]
      _ = applicable order (before ++ after) := by
          simp only [applicable, List.flatMap_append, List.filter_append]
  · simp only [List.mem_append, List.mem_cons, or_and_right, exists_or, exists_eq_left, shallow,
      false_or]

/-- An order for the image `quay.io/app`, which has no mirrors. -/
def orderForApp (secrets : List Secret) : Order where
  secrets := some secrets
  home := none
  globalFile := "/config.json"
  dir := "/auth"
  namespaceName := "team"
  image := "quay.io/app"
  mirrors := []

/-- A secret without a credential file, and one whose entry for `quay.io` stands among others that
cannot be decoded or are for other registries. -/
def mixedSecrets : List Secret :=
  [⟨some "broken", Harvest.secretType, [(Harvest.dataKey, [])]⟩,
    Secret.holding [("quay.io", .object [("auth", .string "dTpw")]),
      ("quay.io/app", .object [("auth", .string "!")]),
      ("other.io", .object [("auth", .string "eDp5")])]]

/-- A secret that spells out the credential for `quay.io`. -/
def plainSecrets : List Secret :=
  [Secret.holding [("https://quay.io", .object [("username", .string "u"),
    ("password", .string "p")])]]

/-- The two lists of secrets have little in common but the one offer that applies. -/
theorem create_eq_of_offers_mixed :
    applicable (orderForApp []) mixedSecrets = applicable (orderForApp []) plainSecrets ∧
    create (orderForApp mixedSecrets) {} = create (orderForApp plainSecrets) {} := by
  have same : applicable (orderForApp []) mixedSecrets =
      applicable (orderForApp []) plainSecrets := by
    decide +kernel
  have harvested (secrets : List Secret) (h : (Harvest.ofSecrets secrets).toBool = true) :
      ¬∃ s ∈ secrets, s.TooDeep := by
    rintro ⟨s, hs, deep⟩
    rw [Harvest.ofSecrets_eq_error_iff.2 ⟨⟨s, hs, deep⟩, rfl⟩] at h
    cases h
  have mixed := harvested mixedSecrets (by decide +kernel)
  have plain := harvested plainSecrets (by decide +kernel)
  exact ⟨same, ((create_eq_of_offers (orderForApp []) {}).1 _ _ same).2 fun _ =>
    iff_of_false mixed plain⟩

/-- A secret without any offer breaks an order down that would end with no credentials without
it. -/
theorem create_of_brackets :
    applicable (orderForApp []) [Secret.ofBrackets 20000] = applicable (orderForApp []) [] ∧
      create (orderForApp [Secret.ofBrackets 20000]) {} = (.error (.breakdown .tooDeep), {}) ∧
      create (orderForApp []) {} = (.error .noCredentials, {}) := by
  have deep := Secret.tooDeep_ofBrackets (n := 20000) (by decide)
  have nothing : (Secret.ofBrackets 20000).offers = [] := by
    rw [Secret.offers, Harvest.fileOf_eq_error_iff.2 ⟨deep, rfl⟩]
  have ended : content (orderForApp [Secret.ofBrackets 20000]) {} =
      .error (.breakdown .tooDeep) := by
    rw [content_eq]
    show (Harvest.ofSecrets [Secret.ofBrackets 20000] >>= fun _ => _) = _
    rw [Harvest.ofSecrets_eq_error_iff.2 ⟨⟨_, List.mem_cons_self, deep⟩, rfl⟩]
    rfl
  refine ⟨?_, ?_, rfl⟩
  · simp only [applicable, List.flatMap_cons, nothing, List.flatMap_nil, List.append_nil]
  · rw [create_eq, ended]

end AuthFile

end PullAuth
