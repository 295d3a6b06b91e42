import PullAuth.Proofs.AuthFile.Totality
import PullAuth.Proofs.File.Places

/-!
Orders of several tenants, one after the other in one directory. Each of them may return, fail or
have nothing to write.

1. One order changes the file in the place of its path if it returns, and no file otherwise
   (`create_outcome`, `file?_create_of_ne`).
2. Paths of different namespaces and images have different places, as long as the namespaces are
   spelled with different bytes and the digests of the images differ (`Tenants.eq_of_place?`).
3. So at the end every file is what the last order for it that returned has written, or what it was
   before, and so is the global file at any time (`run_isolated`).

A surrogate in a namespace may keep a byte of a longer sequence. Such a namespace is spelled like
another one, and the proviso of 2 on the bytes of the namespaces is there for it (`run_shared`).
-/
namespace PullAuth.AuthFile

/-! ## Places of files -/

section
variable {dir namespaceName image : Text} {p : Path} {here place : Location}

/-- The place of a file is in the place of its directory, under the bytes of the namespace and of
the digest. -/
theorem exists_place?_of_path (hs : ('/' : CodePoint) ∉ namespaceName)
    (h : path dir namespaceName image = .ok p) (hp : Tree.place? here p.toText = some place) :
    ∃ outer digest start, Tree.place? here (Path.ofText dir).toText = some outer ∧
      digest? image = some digest ∧ Utf8.encodeKept? namespaceName = some start ∧
      place = outer ++ [start ++ Bytes.ofAscii (ending digest)] := by
  obtain ⟨-, -, absolute, -⟩ := path_eq_ok_iff.1 h
  obtain ⟨digest, hd, rfl⟩ := exists_eq_child_of_path hs h
  have long : 2 < (fileName namespaceName digest).length := by
    have := length_fileName hd namespaceName
    omega
  obtain ⟨outer, bs, ho, hb, rfl⟩ := Tree.exists_place?_of_child
    (Path.root_ofText_cases absolute) (isName_fileName hd hs) long hp
  obtain ⟨start, spelled, rfl⟩ := exists_of_encodeKept?_fileName hd hb
  exact ⟨outer, digest, start, ho, hd, spelled, rfl⟩

/-- Files in the same place have namespaces with the same bytes and images with the same digest. -/
theorem alike_of_place? {otherNamespace otherImage : Text} {q : Path}
    (hs : ('/' : CodePoint) ∉ namespaceName) (hs' : ('/' : CodePoint) ∉ otherNamespace)
    (h : path dir namespaceName image = .ok p) (h' : path dir otherNamespace otherImage = .ok q)
    (hp : Tree.place? here p.toText = some place) (hq : Tree.place? here q.toText = some place) :
    (∃ start, Utf8.encodeKept? namespaceName = some start ∧
      Utf8.encodeKept? otherNamespace = some start) ∧
    ∃ digest, digest? image = some digest ∧ digest? otherImage = some digest := by
  obtain ⟨outer, digest, start, ho, hd, spelled, rfl⟩ := exists_place?_of_path hs h hp
  obtain ⟨outer', digest', start', ho', hd', spelled', same⟩ := exists_place?_of_path hs' h' hq
  obtain rfl : outer = outer' := Option.some.inj (ho.symm.trans ho')
  have bytes : start ++ Bytes.ofAscii (ending digest) =
      start' ++ Bytes.ofAscii (ending digest') :=
    List.singleton_inj.1 (List.append_cancel_left same)
  -- The endings have the same length, so the bytes are cut at the same place.
  have len : (Bytes.ofAscii (ending digest)).length = (Bytes.ofAscii (ending digest')).length := by
    simp only [Bytes.ofAscii, List.length_map, length_ending hd, length_ending hd']
  obtain ⟨rfl, endings⟩ := List.append_inj' bytes len
  have texts : ending digest = ending digest' :=
    Text.eq_of_ofAscii (isAscii_ending hd) (isAscii_ending hd') endings
  obtain rfl : digest = digest' := List.append_cancel_left (List.append_cancel_right texts)
  exact ⟨⟨start, spelled, spelled'⟩, digest, hd, hd'⟩

end

/-! ## One order -/

/-- An order leaves every regular file as it was, or it puts the merged content in the place of its
path. -/
theorem create_outcome (order : Order) (t : Tree) :
    match create order t with
    | (.error _, after) => Tree.SameFiles t after
    | (.ok p, after) => path order.dir order.namespaceName order.image = .ok p ∧
        ∃ file, content order t = .ok file ∧
          ∃ place, Tree.Puts p.toText place (fileMode, dump file) t after := by
  cases hc : content order t with
  | error failure =>
    have untouched : create order t = (.error failure, t) := by rw [create, hc]
    rw [untouched]
    exact Tree.SameFiles.refl t
  | ok file =>
    have writing : create order t =
        write order.dir order.namespaceName order.image (.value (.object file)) t := by
      rw [create, hc]
    have ended := write_outcome order.dir order.namespaceName order.image
      (.value (.object file)) t
    rw [writing]
    cases hw : write order.dir order.namespaceName order.image (.value (.object file)) t with
    | mk result after =>
      rw [hw] at ended
      cases result with
      | error failure => exact ended
      | ok p =>
        obtain ⟨hp, bytes, hb, put⟩ := ended
        rw [bytesOf_object] at hb
        cases hb
        exact ⟨hp, file, rfl, put⟩

theorem sameFiles_of_create {order : Order} {t : Tree} {failure : Failure}
    (h : (create order t).1 = .error failure) : Tree.SameFiles t (create order t).2 := by
  have ended := create_outcome order t
  cases hc : create order t with
  | mk result after =>
    rw [hc] at ended h
    obtain rfl : result = .error failure := h
    exact ended

theorem puts_of_create {order : Order} {t : Tree} {p : Path} (h : (create order t).1 = .ok p) :
    path order.dir order.namespaceName order.image = .ok p ∧
      ∃ file, content order t = .ok file ∧
        ∃ place, Tree.Puts p.toText place (fileMode, dump file) t (create order t).2 := by
  have ended := create_outcome order t
  cases hc : create order t with
  | mk result after =>
    rw [hc] at ended h
    obtain rfl : result = .ok p := h
    exact ended

theorem keeps_create (order : Order) (t : Tree) : Tree.Keeps t (create order t).2 := by
  cases h : (create order t).1 with
  | error failure => exact (sameFiles_of_create h).toKeeps
  | ok p =>
    obtain ⟨-, file, -, place, put⟩ := puts_of_create h
    exact put.toKeeps

/-- An order that returns no path to a place leaves the file there as it is. -/
theorem file?_create_of_ne {order : Order} {t : Tree} {at_ : Location}
    (h : ∀ p, (create order t).1 = .ok p → Tree.place? t.here p.toText ≠ some at_) :
    (create order t).2.file? at_ = t.file? at_ := by
  cases hc : (create order t).1 with
  | error failure => exact (sameFiles_of_create hc).files at_
  | ok p =>
    obtain ⟨-, file, -, place, put⟩ := puts_of_create hc
    apply put.files
    rintro rfl
    exact h p hc put.place?_eq

/-! ## Histories -/

/-- The tree after orders were carried out one after the other, whatever came of each. -/
def run (orders : List Order) (t : Tree) : Tree :=
  orders.foldl (fun t order => (create order t).2) t

theorem run_cons (order : Order) (orders : List Order) (t : Tree) :
    run (order :: orders) t = run orders (create order t).2 := rfl

theorem run_append (earlier later : List Order) (t : Tree) :
    run (earlier ++ later) t = run later (run earlier t) :=
  List.foldl_append

theorem keeps_run (orders : List Order) (t : Tree) : Tree.Keeps t (run orders t) := by
  induction orders generalizing t with
  | nil => exact Tree.Keeps.refl t
  | cons order orders ih => exact (keeps_create order t).trans (ih (create order t).2)

/-- A file stays as it is while no order returns a path to its place. -/
theorem file?_run_of_ne {orders : List Order} {t : Tree} {at_ : Location}
    (h : ∀ earlier order later p, orders = earlier ++ order :: later →
      (create order (run earlier t)).1 = .ok p → Tree.place? t.here p.toText ≠ some at_) :
    (run orders t).file? at_ = t.file? at_ := by
  induction orders generalizing t with
  | nil => rfl
  | cons order orders ih =>
    have here : (create order t).2.here = t.here := (keeps_create order t).here
    have others : (run orders (create order t).2).file? at_ = (create order t).2.file? at_ := by
      apply ih
      intro earlier next later p split returned
      rw [here]
      refine h (order :: earlier) next later p ?_ returned
      rw [split, List.cons_append]
    rw [run_cons, others]
    apply file?_create_of_ne
    intro p returned
    exact h [] order orders p rfl returned

/-- No order for the namespace and the image returns a path. -/
def Silent (namespaceName image : Text) (orders : List Order) (t : Tree) : Prop :=
  ∀ earlier order later, orders = earlier ++ order :: later →
    order.namespaceName = namespaceName → order.image = image →
      ∀ p, (create order (run earlier t)).1 ≠ .ok p

/-! ## Tenants -/

/-- Orders for some pairs of a namespace and an image in one directory. No namespace has a slash,
different ones have different bytes, and different images have different digests. -/
structure Tenants (dir : Text) (pairs : List (Text × Text)) (orders : List Order) : Prop where
  dir : ∀ order ∈ orders, order.dir = dir
  pair : ∀ order ∈ orders, (order.namespaceName, order.image) ∈ pairs
  noSlash : ∀ a ∈ pairs, ('/' : CodePoint) ∉ a.1
  spelled : ∀ a ∈ pairs, ∀ b ∈ pairs, Utf8.encodeKept? a.1 ≠ none →
    Utf8.encodeKept? a.1 = Utf8.encodeKept? b.1 → a.1 = b.1
  digested : ∀ a ∈ pairs, ∀ b ∈ pairs, digest? a.2 ≠ none → digest? a.2 = digest? b.2 → a.2 = b.2

/-- What tenants can rely on after the orders, which began with the tree `t`. -/
structure Isolated (dir : Text) (pairs : List (Text × Text)) (orders : List Order) (t : Tree) :
    Prop where
  /-- The file of a pair holds what the last order for the pair that returned has merged. -/
  last : ∀ earlier order later p, orders = earlier ++ order :: later →
    (create order (run earlier t)).1 = .ok p →
    Silent order.namespaceName order.image later (run (earlier ++ [order]) t) →
      path dir order.namespaceName order.image = .ok p ∧
      ∃ file, content order (run earlier t) = .ok file ∧
        (run orders t).stat p.toText = .ok (.file fileMode (dump file))
  /-- It is as it was, or still missing, if no order for the pair returned. -/
  untouched : ∀ pair ∈ pairs, Silent pair.1 pair.2 orders t →
    ∀ p at_, path dir pair.1 pair.2 = .ok p → Tree.place? t.here p.toText = some at_ →
      (run orders t).file? at_ = t.file? at_
  /-- A global file in a place of its own is as it was all the time. -/
  global : ∀ order ∈ orders, ∀ g at_, CredentialFile.pathOf order.home order.globalFile = .ok g →
    Tree.place? t.here g.toText = some at_ →
    (∀ other ∈ orders, ∀ p, path other.dir other.namespaceName other.image = .ok p →
      Tree.place? t.here p.toText ≠ some at_) →
        ∀ earlier later, orders = earlier ++ later → (run earlier t).file? at_ = t.file? at_

section
variable {dir : Text} {pairs : List (Text × Text)} {orders : List Order} {t : Tree}

/-- Namespaces without surrogates differ in their bytes. -/
theorem spelled_of_isScalar (h : ∀ a ∈ pairs, a.1.IsScalar) :
    ∀ a ∈ pairs, ∀ b ∈ pairs, Utf8.encodeKept? a.1 ≠ none →
      Utf8.encodeKept? a.1 = Utf8.encodeKept? b.1 → a.1 = b.1 := by
  intro a ha b hb spelled same
  obtain ⟨bs, hs⟩ := Option.ne_none_iff_exists'.1 spelled
  exact Utf8.eq_of_encodeKept? (h a ha) (h b hb) hs (same.symm.trans hs)

/-- Files in the same place are those of the same pair. -/
theorem Tenants.eq_of_place? (h : Tenants dir pairs orders) {a b : Text × Text} (ha : a ∈ pairs)
    (hb : b ∈ pairs) {p q : Path} (hp : path dir a.1 a.2 = .ok p) (hq : path dir b.1 b.2 = .ok q)
    {here place : Location} (hp' : Tree.place? here p.toText = some place)
    (hq' : Tree.place? here q.toText = some place) : a = b := by
  obtain ⟨⟨start, spelled, spelled'⟩, digest, hd, hd'⟩ :=
    alike_of_place? (h.noSlash a ha) (h.noSlash b hb) hp hq hp' hq'
  have namespaces : a.1 = b.1 := by
    apply h.spelled a ha b hb
    · simp [spelled]
    · rw [spelled, spelled']
  have images : a.2 = b.2 := by
    apply h.digested a ha b hb
    · simp [hd]
    · rw [hd, hd']
  exact Prod.ext namespaces images

/-- A file stays as it is while no order for its pair returns. -/
theorem Tenants.file?_run_of_silent (h : Tenants dir pairs orders) {pair : Text × Text}
    (hm : pair ∈ pairs) {p : Path} {at_ : Location} (hp : path dir pair.1 pair.2 = .ok p)
    (hp' : Tree.place? t.here p.toText = some at_) (silent : Silent pair.1 pair.2 orders t) :
    (run orders t).file? at_ = t.file? at_ := by
  apply file?_run_of_ne
  intro earlier order later q split returned same
  have mem : order ∈ orders := by simp [split]
  obtain ⟨hq, -⟩ := puts_of_create returned
  rw [h.dir order mem] at hq
  have pair_eq := h.eq_of_place? hm (h.pair order mem) hp hq hp' same
  exact silent earlier order later split (by rw [pair_eq]) (by rw [pair_eq]) q returned

theorem Tenants.of_append {earlier later : List Order} (h : Tenants dir pairs (earlier ++ later)) :
    Tenants dir pairs later :=
  ⟨fun order hm => h.dir order (List.mem_append_right earlier hm),
    fun order hm => h.pair order (List.mem_append_right earlier hm),
    h.noSlash, h.spelled, h.digested⟩

/-- Orders of tenants do not interfere: whatever comes of each order, at the end the file of a pair
holds what the last order for the pair that returned has merged, or what it held at the beginning
if none returned, and the global file is never changed. -/
theorem run_isolated (h : Tenants dir pairs orders) (t : Tree) : Isolated dir pairs orders t := by
  refine ⟨?_, ?_, ?_⟩
  · rintro earlier order later p rfl returned silent
    have mem : order ∈ earlier ++ order :: later := by simp
    obtain ⟨hp, file, merged, place, put⟩ := puts_of_create returned
    rw [h.dir order mem] at hp
    refine ⟨hp, file, merged, ?_⟩
    -- After the order the file is there, and from then on nothing returns to its place.
    have after_eq : (create order (run earlier t)).2 = run (earlier ++ [order]) t := by
      rw [run_append]
      rfl
    rw [after_eq] at put
    have rest : Tenants dir pairs later := by
      have split : earlier ++ order :: later = (earlier ++ [order]) ++ later := by simp
      rw [split] at h
      exact h.of_append
    have located : Tree.place? (run (earlier ++ [order]) t).here p.toText = some place :=
      Tree.place?_of_locate put.located
    have kept := rest.file?_run_of_silent (h.pair order mem) hp located silent
    have whole : run (earlier ++ order :: later) t = run later (run (earlier ++ [order]) t) := by
      rw [← run_append, List.append_assoc]
      rfl
    rw [whole]
    refine Tree.stat_eq_ok_iff.2 ⟨place, ?_, ?_⟩
    · exact (keeps_run later _).locate put.leadsToFiles put.located
    · rw [← Tree.file?_eq_some_iff, kept]
      exact put.there
  · intro pair hm silent p at_ hp hp'
    exact h.file?_run_of_silent hm hp hp' silent
  · rintro order - g at_ - - elsewhere earlier later rfl
    apply file?_run_of_ne
    rintro before next behind q rfl returned same
    obtain ⟨hq, -⟩ := puts_of_create returned
    exact elsewhere next (by simp) q hq same

end

/-- An order for a namespace with one secret. -/
def orderFor (namespaceName auth : Text) : Order :=
  { orderHolding [("quay.io", .object [("auth", .string auth)])] with namespaceName }

theorem run_isolated_two :
    Tenants "/auth" [("team", "quay.io/app"), ("other", "quay.io/app")]
        [orderFor "team" "dTpw", orderFor "other" "eDp5"] ∧
      (create (orderFor "team" "dTpw") {}).1 = .ok fileOfTeam ∧
      ∃ file, content (orderFor "team" "dTpw") {} = .ok file ∧
        (run [orderFor "team" "dTpw", orderFor "other" "eDp5"] {}).stat fileOfTeam.toText =
          .ok (.file fileMode (dump file)) := by
  have tenants : Tenants "/auth" [("team", "quay.io/app"), ("other", "quay.io/app")]
      [orderFor "team" "dTpw", orderFor "other" "eDp5"] := by
    refine ⟨?_, ?_, by decide, spelled_of_isScalar (by decide), ?_⟩
    · simp [orderFor, orderHolding]
    · simp [orderFor, orderHolding]
    · simp
  have returned : (create (orderFor "team" "dTpw") {}).1.toOption = some fileOfTeam := by
    decide +kernel
  rw [Results.toOption_eq_some_iff] at returned
  -- The order behind it is for another namespace.
  have silent : Silent "team" "quay.io/app" [orderFor "other" "eDp5"]
      (run ([] ++ [orderFor "team" "dTpw"]) {}) := by
    intro earlier order later split named
    have mem : order ∈ [orderFor "other" "eDp5"] := by simp [split]
    obtain rfl := List.mem_singleton.1 mem
    exact absurd named (by decide)
  obtain ⟨-, file, merged, there⟩ :=
    (run_isolated tenants {}).last [] (orderFor "team" "dTpw") _ _ rfl returned silent
  exact ⟨tenants, returned, file, merged, there⟩

/-- The letter e with an acute accent. -/
def accented : Text := "\u00E9"

/-- The two surrogates that keep the bytes of that letter. -/
def keptAccented : Text := [⟨0xDCC3, by decide⟩, ⟨0xDCA9, by decide⟩]

/-- The file of that namespace and the image `quay.io/app`. -/
def fileOfAccented : Path :=
  ⟨"/", ["auth",
    accented ++ "-f8ce045f22f764bab0ea9cbdee3a7986ca7f9c295d801d675f54acd239c9d0e9.json"]⟩

/-- Two namespaces that are spelled with the same bytes share one file: what the first order has
merged is lost when the second one returns. -/
theorem run_shared :
    accented ≠ keptAccented ∧ ('/' : CodePoint) ∉ accented ∧ ('/' : CodePoint) ∉ keptAccented ∧
      (create (orderFor accented "dTpw") {}).1 = .ok fileOfAccented ∧
      Silent accented "quay.io/app" [orderFor keptAccented "eDp5"]
        (run [orderFor accented "dTpw"] {}) ∧
      ∃ file other, content (orderFor accented "dTpw") {} = .ok file ∧
        (run [orderFor accented "dTpw", orderFor keptAccented "eDp5"] {}).read
          fileOfAccented.toText = .ok other ∧
        other ≠ dump file := by
  have returned : (create (orderFor accented "dTpw") {}).1.toOption = some fileOfAccented := by
    decide +kernel
  rw [Results.toOption_eq_some_iff] at returned
  have silent : Silent accented "quay.io/app" [orderFor keptAccented "eDp5"]
      (run [orderFor accented "dTpw"] {}) := by
    intro earlier order later split named
    have mem : order ∈ [orderFor keptAccented "eDp5"] := by simp [split]
    obtain rfl := List.mem_singleton.1 mem
    exact absurd named (by decide)
  have overwritten : ((content (orderFor accented "dTpw") {}).toOption.bind fun file =>
      ((run [orderFor accented "dTpw", orderFor keptAccented "eDp5"] {}).read
        fileOfAccented.toText).toOption.map fun other => decide (other ≠ dump file)) =
          some true := by
    decide +kernel
  obtain ⟨file, merged, rest⟩ := Option.bind_eq_some_iff.1 overwritten
  obtain ⟨other, read, differs⟩ := Option.map_eq_some_iff.1 rest
  rw [Results.toOption_eq_some_iff] at merged read
  exact ⟨by decide, by decide, by decide, returned, silent, file, other, merged, read,
    of_decide_eq_true differs⟩

end PullAuth.AuthFile
