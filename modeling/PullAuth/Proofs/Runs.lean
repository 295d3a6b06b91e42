import Mathlib.Data.List.Basic
import Mathlib.Data.List.Forall2
import PullAuth.Desk

/-!
Work that may fail, and what it means for it to go on or to stop. A result is followed by more work
only if it is no failure (`Results.bind_eq_ok_iff`), and work on a list goes well if it does for
every element (`Results.mapM_eq_ok_iff`). A run also keeps what was done before it failed
(`Runs.bind_eq`): the steps on a file tree and the work at a desk are both of this kind.
-/
namespace PullAuth

namespace Results

/-! ## Lists whose elements correspond -/

section

variable {α β : Type} {R : α → β → Prop}

theorem exists_forall₂_iff {l : List α} : (∃ bs, List.Forall₂ R l bs) ↔ ∀ a ∈ l, ∃ b, R a b := by
  induction l with
  | nil => exact ⟨fun _ => nofun, fun _ => ⟨[], .nil⟩⟩
  | cons a l ih =>
    rw [List.forall_mem_cons, ← ih]
    constructor
    · intro ⟨_, both⟩
      cases both with
      | cons here others => exact ⟨⟨_, here⟩, _, others⟩
    · intro ⟨⟨b, here⟩, bs, others⟩
      exact ⟨b :: bs, .cons here others⟩

theorem exists_right_of_mem {l : List α} {bs : List β} (h : List.Forall₂ R l bs) {a : α}
    (ha : a ∈ l) : ∃ b ∈ bs, R a b := by
  induction h with
  | nil => cases ha
  | cons here _ ih =>
    rcases List.mem_cons.1 ha with rfl | later
    · exact ⟨_, List.mem_cons_self, here⟩
    · obtain ⟨b, hb, related⟩ := ih later
      exact ⟨b, List.mem_cons_of_mem _ hb, related⟩

theorem exists_left_of_mem {l : List α} {bs : List β} (h : List.Forall₂ R l bs) {b : β}
    (hb : b ∈ bs) : ∃ a ∈ l, R a b :=
  exists_right_of_mem h.flip hb

end

/-! ## Results -/

theorem bind_eq_ok_iff {ε α β : Type} {x : Except ε α} {f : α → Except ε β} {b : β} :
    (x >>= f) = .ok b ↔ ∃ a, x = .ok a ∧ f a = .ok b := by
  cases x <;> simp [bind, Except.bind]

theorem bind_eq_error_iff {ε α β : Type} {x : Except ε α} {f : α → Except ε β} {fault : ε} :
    (x >>= f) = .error fault ↔ x = .error fault ∨ ∃ a, x = .ok a ∧ f a = .error fault := by
  cases x <;> simp [bind, Except.bind]

theorem map_eq_ok_iff {ε α β : Type} {f : α → β} {x : Except ε α} {b : β} :
    x.map f = .ok b ↔ ∃ a, x = .ok a ∧ f a = b := by
  cases x <;> simp [Except.map]

theorem mapError_eq_ok_iff {ε ε' α : Type} {f : ε → ε'} {x : Except ε α} {a : α} :
    x.mapError f = .ok a ↔ x = .ok a := by
  cases x <;> simp [Except.mapError]

theorem toOption_eq_some_iff {ε α : Type} {x : Except ε α} {a : α} :
    x.toOption = some a ↔ x = .ok a := by
  cases x <;> simp [Except.toOption]

section

variable {ε α β : Type} {f : α → Except ε β}

/-- A traversal goes well if it does for every element. -/
theorem mapM_eq_ok_iff {l : List α} {found : List β} :
    l.mapM f = .ok found ↔ List.Forall₂ (fun a b => f a = .ok b) l found := by
  induction l generalizing found with
  | nil => simp [pure, Except.pure, eq_comm]
  | cons a l ih =>
    rw [List.mapM_cons, bind_eq_ok_iff, List.forall₂_cons_left_iff]
    constructor
    · intro ⟨b, hb, h⟩
      obtain ⟨rest, hr, e⟩ := bind_eq_ok_iff.1 h
      cases e
      exact ⟨b, rest, hb, ih.1 hr, rfl⟩
    · intro ⟨b, rest, hb, hr, e⟩
      exact ⟨b, hb, bind_eq_ok_iff.2 ⟨rest, ih.2 hr, by rw [e]; rfl⟩⟩

/-- Results are put together exactly if all of them are there. -/
theorem mapM_id_eq_ok_iff {l : List (Except ε β)} {found : List β} :
    l.mapM id = .ok found ↔ l = found.map .ok := by
  rw [mapM_eq_ok_iff, ← List.forall₂_eq_eq_eq, List.forall₂_map_right_iff]
  rfl

/-- A traversal fails with the first element that does. -/
theorem mapM_of_error {before : List α} {a : α} {fault : ε} (after : List α)
    (hb : ∀ b ∈ before, ∃ found, f b = .ok found) (ha : f a = .error fault) :
    (before ++ a :: after).mapM f = .error fault := by
  induction before with
  | nil =>
    rw [List.nil_append, List.mapM_cons, ha]
    rfl
  | cons b before ih =>
    obtain ⟨⟨found, hf⟩, others⟩ := List.forall_mem_cons.1 hb
    rw [List.cons_append, List.mapM_cons, hf, ih others]
    rfl

/-- An operation goes well for all elements, or there is a first one that it fails for. -/
theorem all_ok_or_first_error (f : α → Except ε β) (l : List α) :
    (∀ a ∈ l, ∃ b, f a = .ok b) ∨ ∃ before a after fault, l = before ++ a :: after ∧
      (∀ b ∈ before, ∃ found, f b = .ok found) ∧ f a = .error fault := by
  induction l with
  | nil => exact .inl (by simp)
  | cons a l ih =>
    cases h : f a with
    | error fault => exact .inr ⟨[], a, l, fault, rfl, by simp, h⟩
    | ok b =>
      rcases ih with all | ⟨before, a', after, fault, rfl, good, bad⟩
      · exact .inl (List.forall_mem_cons.2 ⟨⟨b, h⟩, all⟩)
      · exact .inr ⟨a :: before, a', after, fault, rfl, List.forall_mem_cons.2 ⟨⟨b, h⟩, good⟩, bad⟩

theorem exists_of_mapM_error {l : List α} {fault : ε} (h : l.mapM f = .error fault) :
    ∃ a ∈ l, f a = .error fault := by
  rcases all_ok_or_first_error f l with all | ⟨before, a, after, first, rfl, good, bad⟩
  · obtain ⟨found, each⟩ := exists_forall₂_iff.2 all
    rw [mapM_eq_ok_iff.2 each] at h
    cases h
  · rw [mapM_of_error after good bad] at h
    cases h
    exact ⟨a, by simp, bad⟩

theorem mapM_congr {g : α → Except ε β} {l : List α} (h : ∀ a ∈ l, f a = g a) :
    l.mapM f = l.mapM g := by
  induction l with
  | nil => rfl
  | cons a l ih =>
    obtain ⟨ha, hl⟩ := List.forall_mem_cons.1 h
    rw [List.mapM_cons, List.mapM_cons, ha, ih hl]

/-- What a traversal finds can be changed while it runs or when it is done. -/
theorem mapM_map {γ : Type} (g : β → γ) (f : α → Except ε β) (l : List α) :
    l.mapM (fun a => (f a).map g) = (l.mapM f).map (List.map g) := by
  induction l with
  | nil => rfl
  | cons a l ih =>
    rw [List.mapM_cons, List.mapM_cons, ih]
    cases f a with
    | error fault => rfl
    | ok b => cases l.mapM f <;> rfl

end

end Results

namespace Runs

variable {ε σ α β : Type}

theorem bind_eq (x : ExceptT ε (StateM σ) α) (f : α → ExceptT ε (StateM σ) β) (s : σ) :
    (x >>= f) s = match x s with
      | (.ok a, between) => f a between
      | (.error failure, between) => (.error failure, between) := by
  change (ExceptT.bind x f : ExceptT ε (StateM σ) β) s = _
  simp only [ExceptT.bind, ExceptT.mk, bind, StateT.bind]
  cases x s with
  | mk result between => cases result <;> rfl

theorem bind_eq_of_ok {x : ExceptT ε (StateM σ) α} {f : α → ExceptT ε (StateM σ) β}
    {s between : σ} {a : α} (h : x s = (.ok a, between)) : (x >>= f) s = f a between := by
  rw [bind_eq, h]

theorem bind_eq_ok_iff {x : ExceptT ε (StateM σ) α} {f : α → ExceptT ε (StateM σ) β}
    {s after : σ} {b : β} :
    (x >>= f) s = (.ok b, after) ↔
      ∃ a between, x s = (.ok a, between) ∧ f a between = (.ok b, after) := by
  rw [bind_eq]
  cases h : x s with
  | mk result between =>
    cases result with
    | error failure =>
      constructor
      · intro e
        cases e
      · intro ⟨a, later, e, _⟩
        cases e
    | ok a =>
      constructor
      · intro e
        exact ⟨a, between, rfl, e⟩
      · intro ⟨a', later, e, e'⟩
        cases e
        exact e'

theorem tryCatch_eq (x : ExceptT ε (StateM σ) α) (handle : ε → ExceptT ε (StateM σ) α) (s : σ) :
    tryCatch x handle s = match x s with
      | (.ok a, after) => (.ok a, after)
      | (.error failure, between) => handle failure between := by
  change (ExceptT.tryCatch x handle : ExceptT ε (StateM σ) α) s = _
  simp only [ExceptT.tryCatch, ExceptT.mk, bind, StateT.bind]
  cases x s with
  | mk result between => cases result <;> rfl

/-- Work whose failures are handed on goes well only if nothing fails in it. -/
theorem tryCatch_eq_ok_iff {x : ExceptT ε (StateM σ) α} {handle : ε → ExceptT ε (StateM σ) α}
    {s after : σ} {a : α}
    (hf : ∀ failure between, handle failure between ≠ (.ok a, after)) :
    tryCatch x handle s = (.ok a, after) ↔ x s = (.ok a, after) := by
  rw [tryCatch_eq]
  cases x s with
  | mk result between =>
    cases result with
    | error failure =>
      constructor
      · intro e
        exact absurd e (hf failure between)
      · intro e
        cases e
    | ok a => exact Iff.rfl

/-! ## What holds however a run ends -/

/-- From a state in `P` the work comes to one in `Q` if it goes well, and to one in `E` if it
fails. -/
def Meets (P : σ → Prop) (x : ExceptT ε (StateM σ) α) (Q : α → σ → Prop) (E : σ → Prop) : Prop :=
  ∀ s, P s → match x s with
    | (.ok a, after) => Q a after
    | (.error _, after) => E after

namespace Meets

variable {P E E' : σ → Prop} {Q : α → σ → Prop} {R : β → σ → Prop}
  {x : ExceptT ε (StateM σ) α}

theorem of_ok (h : Meets P x Q E) {s after : σ} {a : α} (hs : P s) (e : x s = (.ok a, after)) :
    Q a after := by
  have ended := h s hs
  rwa [e] at ended

theorem of_error (h : Meets P x Q E) {s after : σ} {failure : ε} (hs : P s)
    (e : x s = (.error failure, after)) : E after := by
  have ended := h s hs
  rwa [e] at ended

theorem imp {Q' : α → σ → Prop} (h : Meets P x Q E) (hQ : ∀ a s, Q a s → Q' a s)
    (hE : ∀ s, E s → E' s) : Meets P x Q' E' := by
  intro s hs
  cases e : x s with
  | mk result after =>
    cases result with
    | error failure => exact hE after (h.of_error hs e)
    | ok a => exact hQ a after (h.of_ok hs e)

theorem bind {f : α → ExceptT ε (StateM σ) β} (hx : Meets P x Q E)
    (hf : ∀ a, Meets (Q a) (f a) R E) : Meets P (x >>= f) R E := by
  intro s hs
  rw [bind_eq]
  cases e : x s with
  | mk result between =>
    cases result with
    | error failure => exact hx.of_error hs e
    | ok a => exact hf a between (hx.of_ok hs e)

theorem tryCatch {handle : ε → ExceptT ε (StateM σ) α} (hx : Meets P x Q E')
    (hh : ∀ failure, Meets E' (handle failure) Q E) : Meets P (tryCatch x handle) Q E := by
  intro s hs
  rw [tryCatch_eq]
  cases e : x s with
  | mk result between =>
    cases result with
    | error failure => exact hh failure between (hx.of_error hs e)
    | ok a => exact hx.of_ok hs e

theorem pure (a : α) (h : ∀ s, P s → Q a s) :
    Meets P (pure a : ExceptT ε (StateM σ) α) Q E := h

theorem throw (failure : ε) (h : ∀ s, P s → E s) :
    Meets P (throw failure : ExceptT ε (StateM σ) α) Q E := h

theorem get (Q : σ → σ → Prop) (h : ∀ s, P s → Q s s) :
    Meets P (MonadState.get : ExceptT ε (StateM σ) σ) Q E := h

end Meets

/-! ## Which failures a run can end with -/

/-- If the work fails, it does so with a failure of a kind. -/
def FailsWith (K : ε → Prop) (x : ExceptT ε (StateM σ) α) : Prop :=
  ∀ s failure after, x s = (.error failure, after) → K failure

namespace FailsWith

variable {K : ε → Prop} {x : ExceptT ε (StateM σ) α}

theorem bind {f : α → ExceptT ε (StateM σ) β} (hx : FailsWith K x)
    (hf : ∀ a, FailsWith K (f a)) : FailsWith K (x >>= f) := by
  intro s failure after e
  rw [bind_eq] at e
  cases hs : x s with
  | mk result between =>
    rw [hs] at e
    cases result with
    | error earlier =>
      cases e
      exact hx s failure _ hs
    | ok a => exact hf a between failure after e

theorem tryCatch {handle : ε → ExceptT ε (StateM σ) α} (hx : FailsWith K x)
    (hh : ∀ failure, K failure → FailsWith K (handle failure)) :
    FailsWith K (tryCatch x handle) := by
  intro s failure after e
  rw [tryCatch_eq] at e
  cases hs : x s with
  | mk result between =>
    rw [hs] at e
    cases result with
    | error earlier => exact hh earlier (hx s earlier between hs) between failure after e
    | ok a => cases e

theorem pure (a : α) : FailsWith K (pure a : ExceptT ε (StateM σ) α) := by
  intro s failure after e
  cases e

theorem throw {failure : ε} (h : K failure) :
    FailsWith K (throw failure : ExceptT ε (StateM σ) α) := by
  intro s failure' after e
  cases e
  exact h

theorem get : FailsWith K (MonadState.get : ExceptT ε (StateM σ) σ) := by
  intro s failure after e
  cases e

end FailsWith

end Runs

end PullAuth
