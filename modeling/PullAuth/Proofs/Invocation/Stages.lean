import PullAuth.Invocation
import PullAuth.Proofs.AuthFile.Outcome
import PullAuth.Proofs.Runs
import PullAuth.Token.Writer

/-!
The stages of an invocation. First the request is read, the namespace is taken from its token and
the mirrors are found, all of which only looks at the files (`looks_demanding`); then the cluster is
asked, and last the credential file is written (`delivering_of_no_file`). `run_cases` says how far
an invocation comes, and `run_in_stages` is what this comes to for one who looks at the outcome, the
requests to the cluster and the files: which of them can be there follows from how far the
invocation came.
-/
namespace PullAuth.Invocation

/-! ## What an invocation asks for -/

/-- The demand `d` is what the request asks for: the request is valid, its token asserts the
namespace, which is not empty, and the mirrors are those of the image. -/
structure Cleared (i : Invocation) (tree : Tree) (d : Demand) : Prop where
  request : i.request = .ok d.request
  asserted : asserted d.request.token = .ok d.namespaceName
  named : d.namespaceName ≠ []
  mirrors : Registry.mirrorsOf tree i.registriesPath.toText i.settings.registriesDir
    d.request.image = .ok d.mirrors

theorem Cleared.unique {i : Invocation} {tree : Tree} {d e : Demand} (hd : Cleared i tree d)
    (he : Cleared i tree e) : d = e := by
  obtain ⟨request, namespaceName, mirrors⟩ := d
  obtain ⟨request', namespaceName', mirrors'⟩ := e
  obtain rfl : request = request' := Except.ok.inj (hd.request.symm.trans he.request)
  obtain rfl : namespaceName = namespaceName' :=
    Except.ok.inj (hd.asserted.symm.trans he.asserted)
  obtain rfl : mirrors = mirrors' := Except.ok.inj (hd.mirrors.symm.trans he.mirrors)
  rfl

/-- The demand that a request on the input comes to. -/
def demandOf (i : Invocation) (tree : Tree) : Except Failure Demand :=
  i.request.bind fun request =>
    (asserted request.token).bind fun namespaceName =>
      if namespaceName.isEmpty then .error (.validation .emptyNamespaceClaim)
      else (Registry.mirrorsOf tree i.registriesPath.toText i.settings.registriesDir
        request.image).map fun mirrors => ⟨request, namespaceName, mirrors⟩

theorem demandOf_eq_ok_iff {i : Invocation} {tree : Tree} {d : Demand} :
    i.demandOf tree = .ok d ↔ Cleared i tree d := by
  unfold demandOf
  constructor
  · intro h
    obtain ⟨request, hr, h⟩ := Results.bind_eq_ok_iff.1 h
    obtain ⟨namespaceName, hn, h⟩ := Results.bind_eq_ok_iff.1 h
    by_cases he : namespaceName.isEmpty = true
    · rw [if_pos he] at h
      cases h
    · rw [if_neg he] at h
      cases hm : Registry.mirrorsOf tree i.registriesPath.toText i.settings.registriesDir
          request.image with
      | error failure =>
        rw [hm] at h
        cases h
      | ok mirrors =>
        rw [hm] at h
        cases h
        exact ⟨hr, hn, by rwa [List.isEmpty_iff] at he, hm⟩
  · intro h
    have named : ¬d.namespaceName.isEmpty = true := by
      rw [List.isEmpty_iff]
      exact h.named
    simp only [h.request, h.asserted, h.mirrors, Except.bind, Except.map, if_neg named]

/-! ## Looking at files -/

section
variable {α β : Type}

/-- Work that only looks at the files: it comes to a result that depends on them and leaves them as
they are, if its journal goes to no file. -/
def Looks (work : Work α) (result : Tree → Except Failure α) : Prop :=
  ∀ desk : Desk, desk.file = none →
    ∃ after, work desk = (result desk.tree, after) ∧ after.tree = desk.tree ∧ after.file = none

theorem Looks.note (entries : List Entry) : Looks (Work.note entries) fun _ => .ok () := by
  intro desk h
  exact ⟨desk.note entries, rfl, Desk.tree_note_of_no_file entries h, h⟩

theorem Looks.of (result : Except Failure α) : Looks (Work.of result) fun _ => result := by
  intro desk h
  exact ⟨desk, rfl, rfl, h⟩

/-- Looking twice is looking: the second look finds the files of the first. -/
theorem Looks.bind {x : Work α} {f : α → Work β} {first : Tree → Except Failure α}
    {second : α → Tree → Except Failure β} (hx : Looks x first)
    (hf : ∀ a, Looks (f a) (second a)) :
    Looks (x >>= f) fun tree => (first tree).bind fun a => second a tree := by
  intro desk h
  obtain ⟨between, hb, ht, hn⟩ := hx desk h
  rw [Runs.bind_eq, hb]
  show ∃ after, _ = ((first desk.tree).bind fun a => second a desk.tree, after) ∧ _
  cases first desk.tree with
  | error failure => exact ⟨between, rfl, ht, hn⟩
  | ok a =>
    -- The first look left the tree as it was, so the second one is at the same tree.
    obtain ⟨after, ha, ht', hn'⟩ := hf a between hn
    rw [ht] at ha ht'
    exact ⟨after, ha, ht', hn'⟩

/-- What is noted on the way makes no difference. -/
theorem Looks.after_note (entries : List Entry) {x : Work α} {result : Tree → Except Failure α}
    (h : Looks x result) : Looks (Work.note entries >>= fun _ => x) result :=
  (Looks.note entries).bind fun _ => h

end

theorem looks_matching (i : Invocation) (image : Text) :
    Looks (i.matching image) fun tree =>
      Registry.mirrorsOf tree i.registriesPath.toText i.settings.registriesDir image := by
  unfold matching
  refine Looks.after_note _ fun desk h => ?_
  obtain ⟨result, tree, file⟩ := Registry.matching_of_no_file i.registriesPath.toText
    i.settings.registriesDir image h
  exact ⟨(Registry.matching i.registriesPath.toText i.settings.registriesDir image desk).2,
    Prod.ext result rfl, tree, file⟩

theorem looks_demanding (i : Invocation) : Looks i.demanding fun tree => i.demandOf tree := by
  unfold demanding demandOf
  refine Looks.after_note _ ((Looks.of i.request).bind fun request => ?_)
  refine Looks.after_note _ ((Looks.of (asserted request.token)).bind fun namespaceName => ?_)
  refine Looks.after_note _ ?_
  by_cases h : namespaceName.isEmpty = true
  · simp only [if_pos h]
    exact Looks.of _
  · simp only [if_neg h]
    have mapped := (looks_matching i request.image).bind fun mirrors =>
      Looks.of (.ok (⟨request, namespaceName, mirrors⟩ : Demand))
    intro desk hn
    obtain ⟨after, e, rest⟩ := mapped desk hn
    refine ⟨after, ?_, rest⟩
    refine Eq.trans e (congrArg (·, after) ?_)
    cases Registry.mirrorsOf desk.tree i.registriesPath.toText i.settings.registriesDir
      request.image <;> rfl

/-! ## Delivering -/

/-- The outcome of delivering a demand and the files that are left behind. -/
def delivered (i : Invocation) (d : Demand) (tree : Tree) : Except Failure Outcome × Tree :=
  match Cluster.retrieve i.answer with
  | .error failure => (.error failure, tree)
  | .ok secrets =>
    (outcomeOf (AuthFile.create (i.order d secrets) tree).1,
      (AuthFile.create (i.order d secrets) tree).2)

/-- Writing a credential file does to the files what the order says, if the journal is in none of
them. -/
theorem creating_of_no_file (order : AuthFile.Order) {desk : Desk} (h : desk.file = none) :
    ∃ after, AuthFile.creating order desk = ((AuthFile.create order desk.tree).1, after) ∧
      after.tree = (AuthFile.create order desk.tree).2 ∧ after.file = none := by
  unfold AuthFile.creating
  cases AuthFile.create order desk.tree with
  | mk result tree =>
    have quiet : ({ desk with tree } : Desk).file = none := h
    cases result with
    | error failure =>
      exact ⟨_, rfl, Desk.tree_note_of_no_file _ quiet, quiet⟩
    | ok p =>
      refine ⟨_, rfl, ?_, ?_⟩
      · rw [Desk.replaced_of_no_file p quiet, Desk.tree_note_of_no_file _ quiet]
      · rw [Desk.replaced_of_no_file p quiet]
        exact quiet

theorem delivering_of_no_file (i : Invocation) (d : Demand) {desk : Desk} (h : desk.file = none) :
    (i.delivering d desk).1 = (i.delivered d desk.tree).1 ∧
      (i.delivering d desk).2.tree = (i.delivered d desk.tree).2 := by
  obtain ⟨first, hf, ht, hn⟩ := Looks.note
    (.info ("Getting secrets from namespace: " ++ d.namespaceName) ::
      Cluster.retrievalJournal i.answer) desk h
  unfold delivering delivered
  rw [Runs.bind_eq_of_ok hf, Runs.bind_eq]
  unfold Work.of
  cases Cluster.retrieve i.answer with
  | error failure => exact ⟨rfl, ht⟩
  | ok secrets =>
    obtain ⟨second, hf', ht', hn'⟩ := Looks.note
      [.info ("Got " ++ Text.ofNat secrets.length ++ " secret(s)")] first hn
    obtain ⟨after, hc, hct, hcn⟩ := creating_of_no_file (i.order d secrets) hn'
    rw [ht', ht] at hc hct
    simp only
    rw [Runs.bind_eq_of_ok hf', writing, hc]
    refine ⟨rfl, ?_⟩
    rw [← hct]
    exact Desk.tree_note_of_no_file _ hcn

/-- The file `file` is what the listed secrets make of the global file. -/
def Merges (i : Invocation) (tree : Tree) (d : Demand) (file : CredentialFile) : Prop :=
  ∃ secrets, Cluster.retrieve i.answer = .ok secrets ∧
    ∃ global, CredentialFile.loadGlobal tree i.home i.settings.globalFile = .ok global ∧
      ∃ harvest, Harvest.ofSecrets secrets = .ok harvest ∧
        Merge.merge harvest.configs global d.request.image d.mirrors = .ok file

theorem merges_iff {i : Invocation} {tree : Tree} {d : Demand} (hd : d.namespaceName ≠ [])
    {file : CredentialFile} :
    Merges i tree d file ↔ ∃ secrets, Cluster.retrieve i.answer = .ok secrets ∧
      AuthFile.content (i.order d secrets) tree = .ok file := by
  refine exists_congr fun secrets => and_congr_right fun _ => ?_
  rw [AuthFile.content_eq_ok_iff]
  constructor
  · intro merges
    exact ⟨hd, secrets, rfl, merges⟩
  · intro ⟨_, _, e, merges⟩
    cases e
    exact merges

theorem Merges.unique {i : Invocation} {tree : Tree} {d : Demand} {file other : CredentialFile}
    (hf : Merges i tree d file) (ho : Merges i tree d other) : file = other := by
  obtain ⟨secrets, hs, global, hg, harvest, hh, hm⟩ := hf
  obtain ⟨secrets', hs', global', hg', harvest', hh', hm'⟩ := ho
  obtain rfl : secrets = secrets' := Except.ok.inj (hs.symm.trans hs')
  obtain rfl : global = global' := Except.ok.inj (hg.symm.trans hg')
  obtain rfl : harvest = harvest' := Except.ok.inj (hh.symm.trans hh')
  exact Except.ok.inj (hm.symm.trans hm')

theorem calls_of_merges {i : Invocation} {tree : Tree} {d : Demand} {file : CredentialFile}
    (h : Merges i tree d file) (token namespaceName : Text) :
    Cluster.calls i.answer token namespaceName i.settings.timeout =
      [.client token, .list namespaceName Cluster.selector i.settings.timeout] := by
  obtain ⟨secrets, hs, -⟩ := h
  cases ha : i.answer with
  | noClient reason =>
    rw [ha] at hs
    cases hs
  | _ => rfl

/-- Delivering a demand goes well in two ways: with merged entries, which are written, and without
any. -/
theorem delivered_ok {i : Invocation} {tree : Tree} {d : Demand} (hd : d.namespaceName ≠ [])
    {outcome : Outcome} (h : (i.delivered d tree).1 = .ok outcome) :
    ∃ file, Merges i tree d file ∧
      ((outcome = .noCredentials ∧ CredentialFile.entries file = [] ∧
          (i.delivered d tree).2 = tree) ∨
        ∃ p, outcome = .written p ∧ CredentialFile.entries file ≠ [] ∧
          AuthFile.path i.settings.authDir d.namespaceName d.request.image = .ok p ∧
          (i.delivered d tree).2.read p.toText = .ok (AuthFile.dump file)) := by
  unfold delivered at h ⊢
  cases hs : Cluster.retrieve i.answer with
  | error failure =>
    rw [hs] at h
    cases h
  | ok secrets =>
    simp only [hs] at h ⊢
    cases hc : AuthFile.create (i.order d secrets) tree with
    | mk result after =>
      rw [hc] at h
      cases result with
      | ok p =>
        cases h
        obtain ⟨hp, file, hf, he, hr⟩ := AuthFile.read_of_create hc
        exact ⟨file, (merges_iff hd).2 ⟨secrets, hs, hf⟩, .inr ⟨p, rfl, he, hp, hr⟩⟩
      | error failure =>
        have none_there : failure = .noCredentials ∧ outcome = .noCredentials := by
          cases failure <;> cases h
          exact ⟨rfl, rfl⟩
        obtain ⟨rfl, rfl⟩ := none_there
        obtain ⟨file, hf, he, -⟩ := AuthFile.create_eq_noCredentials_iff.1 (congrArg Prod.fst hc)
        have untouched := AuthFile.tree_create_of_no_entries fun other ho => by
          rw [hf] at ho
          cases ho
          exact he
        rw [hc] at untouched
        exact ⟨file, (merges_iff hd).2 ⟨secrets, hs, hf⟩, .inl ⟨rfl, he, untouched⟩⟩

/-- Once there is merged content and a path for it, only writing can fail. -/
theorem delivered_of_merges {i : Invocation} {tree : Tree} {d : Demand}
    (hd : d.namespaceName ≠ []) {file : CredentialFile} (hf : Merges i tree d file) {p : Path}
    (hp : AuthFile.path i.settings.authDir d.namespaceName d.request.image = .ok p) :
    (i.delivered d tree).1 =
      if CredentialFile.entries file = [] then .ok .noCredentials
      else match (AuthFile.persist p (AuthFile.dump file) tree).1 with
        | .ok () => .ok (.written p)
        | .error fault => .error (.ofPath (.persistence p ·) fault) := by
  obtain ⟨secrets, hs, hc⟩ := (merges_iff hd).1 hf
  have path_ok : AuthFile.path (i.order d secrets).dir (i.order d secrets).namespaceName
      (i.order d secrets).image = .ok p := hp
  simp only [delivered, hs, AuthFile.create_eq, hc, path_ok]
  by_cases he : CredentialFile.entries file = []
  · rw [if_pos he, if_pos he]
    rfl
  · cases AuthFile.persist p (AuthFile.dump file) tree with
    | mk result after =>
      cases result with
      | ok done =>
        rw [if_neg he, if_neg he]
        rfl
      | error fault =>
        rw [if_neg he, if_neg he]
        cases fault <;> rfl

/-- Delivering a demand touches files only if there are merged entries. -/
theorem tree_delivered (i : Invocation) (tree : Tree) {d : Demand} (hd : d.namespaceName ≠ []) :
    (i.delivered d tree).2 = tree ∨
      ∃ file, Merges i tree d file ∧ CredentialFile.entries file ≠ [] := by
  unfold delivered
  cases hs : Cluster.retrieve i.answer with
  | error failure => exact .inl rfl
  | ok secrets =>
    by_cases h : ∃ file, AuthFile.content (i.order d secrets) tree = .ok file ∧
        CredentialFile.entries file ≠ []
    · obtain ⟨file, hf, he⟩ := h
      exact .inr ⟨file, (merges_iff hd).2 ⟨secrets, hs, hf⟩, he⟩
    · refine .inl (AuthFile.tree_create_of_no_entries fun file hf => ?_)
      exact Classical.byContradiction fun he => h ⟨file, hf, he⟩

/-! ## How far an invocation comes -/

theorem demanding_eq (i : Invocation) (tree : Tree) :
    ∃ after, i.demanding { tree } = (i.demandOf tree, after) ∧ after.tree = tree ∧
      after.file = none :=
  i.looks_demanding { tree } rfl

section
variable {i : Invocation} {tree : Tree} (h : i.hasRegistries tree = .ok true)
include h

theorem run_of_refused {failure : Failure} (hd : i.demandOf tree = .error failure) :
    (i.run tree).outcome = .error failure ∧ (i.run tree).calls = [] ∧
      (i.run tree).tree = tree := by
  obtain ⟨after, hw, ht, -⟩ := i.demanding_eq tree
  rw [hd] at hw
  simp only [run, carryOut, h, hw]
  exact ⟨trivial, trivial, ht⟩

/-- Without mirrors the cluster is not asked and no file is touched. -/
theorem run_of_no_mirrors {d : Demand} (hd : Cleared i tree d) (hm : d.mirrors = []) :
    (i.run tree).outcome = .ok .noMirrors ∧ (i.run tree).calls = [] ∧
      (i.run tree).tree = tree := by
  obtain ⟨after, hw, ht, hn⟩ := i.demanding_eq tree
  rw [demandOf_eq_ok_iff.2 hd] at hw
  simp only [run, carryOut, h, hw, fulfil, hm, List.isEmpty_nil, if_true]
  exact ⟨trivial, trivial, (Desk.tree_note_of_no_file _ hn).trans ht⟩

/-- With mirrors the cluster is asked, and the demand is delivered. -/
theorem run_of_mirrors {d : Demand} (hd : Cleared i tree d) (hm : d.mirrors ≠ []) :
    (i.run tree).outcome = (i.delivered d tree).1 ∧
      (i.run tree).calls =
        Cluster.calls i.answer d.request.token d.namespaceName i.settings.timeout ∧
      (i.run tree).tree = (i.delivered d tree).2 := by
  obtain ⟨after, hw, ht, hn⟩ := i.demanding_eq tree
  rw [demandOf_eq_ok_iff.2 hd] at hw
  have some_mirrors : ¬d.mirrors.isEmpty = true := by
    rw [List.isEmpty_iff]
    exact hm
  let noted := after.note [.info ("Got mirror(s) for " ++ d.request.image.quoted ++ ": " ++
    Text.join ", " d.mirrors)]
  have there : noted.tree = tree := (Desk.tree_note_of_no_file _ hn).trans ht
  have quiet : noted.file = none := hn
  obtain ⟨outcome, left⟩ := delivering_of_no_file i d quiet
  rw [there] at outcome left
  simp only [run, carryOut, h, hw, fulfil, if_neg some_mirrors]
  exact ⟨outcome, rfl, left⟩

end

/-! ## All stages -/

/-- What an invocation does, told by the demand it comes to. -/
structure Staged (i : Invocation) (tree : Tree) (r : Report) : Prop where
  /-- The cluster is asked only for an image with mirrors: once for a client, with the token of the
  request, and then at most once for the secrets of the namespace. -/
  calls : r.calls = [] ∨ ∃ d, Cleared i tree d ∧ d.mirrors ≠ [] ∧
    (r.calls = [.client d.request.token] ∨
      r.calls = [.client d.request.token,
        .list d.namespaceName Cluster.selector i.settings.timeout])
  /-- Files are touched only after the listing, and only if there are merged entries to write. -/
  files : r.tree = tree ∨ ∃ d file, Cleared i tree d ∧ d.mirrors ≠ [] ∧
    r.calls = [.client d.request.token,
      .list d.namespaceName Cluster.selector i.settings.timeout] ∧
    Merges i tree d file ∧ CredentialFile.entries file ≠ []
  /-- Whenever nothing fails, there is a demand that tells the outcomes apart. -/
  outcome : ∀ outcome, r.outcome = .ok outcome → ∃ d, Cleared i tree d ∧
    (outcome = .noMirrors ↔ d.mirrors = []) ∧
    (outcome = .noCredentials ↔ d.mirrors ≠ [] ∧
      ∃ file, Merges i tree d file ∧ CredentialFile.entries file = []) ∧
    ((∃ p, outcome = .written p) ↔ d.mirrors ≠ [] ∧
      ∃ file, Merges i tree d file ∧ CredentialFile.entries file ≠ []) ∧
    outcome ≠ .noRegistries
  /-- A demand without mirrors ends the invocation. -/
  ended : ∀ d, Cleared i tree d → d.mirrors = [] → r.outcome = .ok .noMirrors
  /-- A demand with mirrors does come to the cluster. -/
  asked : ∀ d, Cleared i tree d → d.mirrors ≠ [] →
    r.calls = Cluster.calls i.answer d.request.token d.namespaceName i.settings.timeout
  /-- Merged content with a path is written if there are entries, unless writing it fails. -/
  delivered : ∀ d file p, Cleared i tree d → d.mirrors ≠ [] → Merges i tree d file →
    AuthFile.path i.settings.authDir d.namespaceName d.request.image = .ok p →
    r.outcome =
      if CredentialFile.entries file = [] then .ok .noCredentials
      else match (AuthFile.persist p (AuthFile.dump file) tree).1 with
        | .ok () => .ok (.written p)
        | .error fault => .error (.ofPath (.persistence p ·) fault)
  /-- Without mirrors the cluster is not asked and no file is touched. -/
  noMirrors : r.outcome = .ok .noMirrors → r.calls = [] ∧ r.tree = tree
  /-- Without credentials no file is touched. -/
  noCredentials : r.outcome = .ok .noCredentials → r.tree = tree
  /-- What is written is the merged content, at the path for the namespace and the image. -/
  written : ∀ p, r.outcome = .ok (.written p) → ∃ d file, Cleared i tree d ∧
    Merges i tree d file ∧
    AuthFile.path i.settings.authDir d.namespaceName d.request.image = .ok p ∧
    r.tree.read p.toText = .ok (AuthFile.dump file)

section
variable {i : Invocation} {tree : Tree} (h : i.hasRegistries tree = .ok true)
include h

/-- How far an invocation comes: to no demand, to one without mirrors, or to one that is
delivered. -/
theorem run_cases :
    ((∃ failure, (i.run tree).outcome = .error failure) ∧ (i.run tree).calls = [] ∧
        (i.run tree).tree = tree) ∨
      (∃ d, Cleared i tree d ∧ d.mirrors = [] ∧ (i.run tree).outcome = .ok .noMirrors ∧
        (i.run tree).calls = [] ∧ (i.run tree).tree = tree) ∨
      ∃ d, Cleared i tree d ∧ d.mirrors ≠ [] ∧ (i.run tree).outcome = (i.delivered d tree).1 ∧
        (i.run tree).calls =
          Cluster.calls i.answer d.request.token d.namespaceName i.settings.timeout ∧
        (i.run tree).tree = (i.delivered d tree).2 := by
  cases hd : i.demandOf tree with
  | error failure =>
    obtain ⟨outcome, rest⟩ := run_of_refused h hd
    exact .inl ⟨⟨failure, outcome⟩, rest⟩
  | ok d =>
    have cleared := demandOf_eq_ok_iff.1 hd
    by_cases hm : d.mirrors = []
    · exact .inr (.inl ⟨d, cleared, hm, run_of_no_mirrors h cleared hm⟩)
    · exact .inr (.inr ⟨d, cleared, hm, run_of_mirrors h cleared hm⟩)

theorem calls_run : (i.run tree).calls = [] ∨ ∃ d, Cleared i tree d ∧ d.mirrors ≠ [] ∧
    ((i.run tree).calls = [.client d.request.token] ∨
      (i.run tree).calls = [.client d.request.token,
        .list d.namespaceName Cluster.selector i.settings.timeout]) := by
  obtain ⟨-, hc, -⟩ | ⟨d, -, -, -, hc, -⟩ | ⟨d, cleared, hm, -, hc, -⟩ := run_cases h
  · exact .inl hc
  · exact .inl hc
  · refine .inr ⟨d, cleared, hm, ?_⟩
    rw [hc]
    unfold Cluster.calls
    split
    · exact .inl rfl
    · exact .inr rfl

theorem tree_run : (i.run tree).tree = tree ∨ ∃ d file, Cleared i tree d ∧ d.mirrors ≠ [] ∧
    (i.run tree).calls = [.client d.request.token,
      .list d.namespaceName Cluster.selector i.settings.timeout] ∧
    Merges i tree d file ∧ CredentialFile.entries file ≠ [] := by
  obtain ⟨-, -, ht⟩ | ⟨d, -, -, -, -, ht⟩ | ⟨d, cleared, hm, -, hc, ht⟩ := run_cases h
  · exact .inl ht
  · exact .inl ht
  · rw [ht]
    obtain same | ⟨file, hf, he⟩ := tree_delivered i tree cleared.named
    · exact .inl same
    · exact .inr ⟨d, file, cleared, hm, hc.trans (calls_of_merges hf _ _), hf, he⟩

/-- An invocation that goes well comes to a demand, and ends in one of three ways. -/
theorem run_ok {outcome : Outcome} (e : (i.run tree).outcome = .ok outcome) :
    ∃ d, Cleared i tree d ∧
      ((d.mirrors = [] ∧ outcome = .noMirrors ∧ (i.run tree).calls = [] ∧
          (i.run tree).tree = tree) ∨
        (d.mirrors ≠ [] ∧ ∃ file, Merges i tree d file ∧
          ((outcome = .noCredentials ∧ CredentialFile.entries file = [] ∧
              (i.run tree).tree = tree) ∨
            ∃ p, outcome = .written p ∧ CredentialFile.entries file ≠ [] ∧
              AuthFile.path i.settings.authDir d.namespaceName d.request.image = .ok p ∧
              (i.run tree).tree.read p.toText = .ok (AuthFile.dump file)))) := by
  obtain ⟨⟨failure, ho⟩, -⟩ | ⟨d, cleared, hm, ho, rest⟩ | ⟨d, cleared, hm, ho, -, ht⟩ :=
    run_cases h
  · rw [ho] at e
    cases e
  · exact ⟨d, cleared, .inl ⟨hm, Except.ok.inj (e.symm.trans ho), rest⟩⟩
  · rw [ht]
    exact ⟨d, cleared, .inr ⟨hm, delivered_ok cleared.named (ho.symm.trans e)⟩⟩

/-- The demand tells the outcomes apart, for there is only one merged content. -/
theorem outcome_run {outcome : Outcome} (e : (i.run tree).outcome = .ok outcome) :
    ∃ d, Cleared i tree d ∧
      (outcome = .noMirrors ↔ d.mirrors = []) ∧
      (outcome = .noCredentials ↔ d.mirrors ≠ [] ∧
        ∃ file, Merges i tree d file ∧ CredentialFile.entries file = []) ∧
      ((∃ p, outcome = .written p) ↔ d.mirrors ≠ [] ∧
        ∃ file, Merges i tree d file ∧ CredentialFile.entries file ≠ []) ∧
      outcome ≠ .noRegistries := by
  obtain ⟨d, cleared, ⟨hm, rfl, -⟩ | ⟨hm, file, hf, ended⟩⟩ := run_ok h e
  · exact ⟨d, cleared, by simp [hm]⟩
  · have empty_iff : (∃ other, Merges i tree d other ∧ CredentialFile.entries other = []) ↔
        CredentialFile.entries file = [] :=
      ⟨fun ⟨_, ho, he⟩ => hf.unique ho ▸ he, fun he => ⟨file, hf, he⟩⟩
    have filled_iff : (∃ other, Merges i tree d other ∧ CredentialFile.entries other ≠ []) ↔
        CredentialFile.entries file ≠ [] :=
      ⟨fun ⟨_, ho, he⟩ => hf.unique ho ▸ he, fun he => ⟨file, hf, he⟩⟩
    refine ⟨d, cleared, ?_⟩
    rw [empty_iff, filled_iff]
    obtain ⟨rfl, he, -⟩ | ⟨p, rfl, he, -⟩ := ended
    · simp [hm, he]
    · simp [hm, he]

end

/-- An invocation goes through its stages in their order, whatever the files, the settings, the
input and the answer of the cluster are. -/
theorem run_in_stages (i : Invocation) (tree : Tree) (h : i.hasRegistries tree = .ok true) :
    Staged i tree (i.run tree) where
  calls := calls_run h
  files := tree_run h
  outcome _ e := outcome_run h e
  ended _ cleared hm := (run_of_no_mirrors h cleared hm).1
  asked _ cleared hm := (run_of_mirrors h cleared hm).2.1
  delivered _ _ _ cleared hm hf hp :=
    (run_of_mirrors h cleared hm).1.trans (delivered_of_merges cleared.named hf hp)
  noMirrors e := by
    obtain ⟨d, -, ⟨-, -, rest⟩ | ⟨-, file, -, ⟨wrong, -⟩ | ⟨p, wrong, -⟩⟩⟩ := run_ok h e
    · exact rest
    · cases wrong
    · cases wrong
  noCredentials e := by
    obtain ⟨d, -, ⟨-, wrong, -⟩ | ⟨-, file, -, ⟨-, -, same⟩ | ⟨p, wrong, -⟩⟩⟩ := run_ok h e
    · cases wrong
    · exact same
    · cases wrong
  written p e := by
    obtain ⟨d, cleared, ⟨-, wrong, -⟩ | ⟨-, file, hf, ⟨wrong, -⟩ | ⟨q, same, -, rest⟩⟩⟩ :=
      run_ok h e
    · cases wrong
    · cases wrong
    · cases same
      exact ⟨d, file, cleared, hf, rest⟩

/-- An invocation for the image `quay.io/app` and the namespace `team`, in which one secret has a
credential for `mirror.io`. -/
def forApp : Invocation where
  settings := ⟨"/registries.conf", "", "/auth", "/config.json", "", Cluster.defaultTimeout⟩
  home := none
  input := Json.write .oneLine (.object [("image", .string "quay.io/app"),
    ("serviceAccountToken", .string (Token.compose (.object [("alg", .string "none")])
      (.object [(Token.claimKey, .object [("namespace", .string "team")])]) []))])
  answer := .secrets [⟨none, some Harvest.secretType, [(Harvest.dataKey,
    .string (Base64.encode (Bytes.ofAscii (Json.write .oneLine (.object
      [(CredentialFile.entriesKey, .object [("mirror.io",
        .object [("auth", .string "dTpw")])])])))))]⟩]

/-- Files with nothing but a registry `quay.io` that `mirror.io` mirrors. -/
def mirroredTree : Tree where
  nodes := [([Bytes.ofAscii "registries.conf"], .file 0o644 (Bytes.ofAscii
    "[[registry]]\nlocation = \"quay.io\"\n[[registry.mirror]]\nlocation = \"mirror.io\"\n"))]

/-- The invocation goes through all stages and writes a file. -/
theorem run_in_stages_for_app :
    forApp.hasRegistries mirroredTree = .ok true ∧
      ((forApp.run mirroredTree).outcome.toOption.bind Outcome.path?).isSome = true ∧
      Staged forApp mirroredTree (forApp.run mirroredTree) := by
  have there : forApp.hasRegistries mirroredTree = .ok true := by rfl
  refine ⟨there, ?_, run_in_stages forApp mirroredTree there⟩
  decide +kernel

end PullAuth.Invocation
