import Mathlib.Tactic.Basic

/-! Reasoning about computations that carry a state and may raise. A raised error
keeps the state reached so far, as an exception does in an imperative language. -/
namespace Stateful

variable {ε σ τ ρ α β : Type}

/-- The state a computation leaves, whether it returns or raises. -/
def final : EStateM.Result ε σ α → σ
  | .ok _ s => s
  | .error _ s => s

@[simp] theorem final_ok (a : α) (s : σ) : final (.ok a s : EStateM.Result ε σ α) = s := rfl

@[simp] theorem final_error (e : ε) (s : σ) : final (.error e s : EStateM.Result ε σ α) = s := rfl

theorem pure_apply (a : α) (s : σ) : (pure a : EStateM ε σ α) s = .ok a s := rfl

theorem throw_apply (e : ε) (s : σ) : (throw e : EStateM ε σ α) s = .error e s := rfl

theorem get_apply (s : σ) : (get : EStateM ε σ σ) s = .ok s s := rfl

theorem modify_apply (g : σ → σ) (s : σ) : (modify g : EStateM ε σ PUnit) s = .ok ⟨⟩ (g s) := rfl

theorem bind_apply (x : EStateM ε σ α) (f : α → EStateM ε σ β) (s : σ) :
    (x >>= f) s = match x s with
      | .ok a t => f a t
      | .error e t => .error e t := rfl

theorem bind_of_ok {x : EStateM ε σ α} {f : α → EStateM ε σ β} {s t : σ} {a : α}
    (h : x s = .ok a t) : (x >>= f) s = f a t := by
  rw [bind_apply, h]

theorem bind_of_error {x : EStateM ε σ α} {f : α → EStateM ε σ β} {s t : σ} {e : ε}
    (h : x s = .error e t) : (x >>= f) s = .error e t := by
  rw [bind_apply, h]

/-- What holds of both ways a first step can end holds of the sequence. -/
theorem bind_cases {P : EStateM.Result ε σ β → Prop} {x : EStateM ε σ α}
    {f : α → EStateM ε σ β} {s : σ} (hok : ∀ a t, x s = .ok a t → P (f a t))
    (herror : ∀ e t, x s = .error e t → P (.error e t)) : P ((x >>= f) s) := by
  rw [bind_apply]
  cases hx : x s with
  | ok a t => exact hok a t hx
  | error e t => exact herror e t hx

/-- A sequence that returns has returned from its first step. -/
theorem ok_of_bind_apply {x : EStateM ε σ α} {f : α → EStateM ε σ β} {s u : σ} {b : β}
    (h : (x >>= f) s = .ok b u) : ∃ a t, x s = .ok a t ∧ f a t = .ok b u := by
  rw [bind_apply] at h
  cases hx : x s with
  | ok a t => rw [hx] at h; exact ⟨a, t, rfl, h⟩
  | error e t => rw [hx] at h; cases h

/-- Change the returned value. -/
def mapOk (g : α → β) : EStateM.Result ε σ α → EStateM.Result ε σ β
  | .ok a s => .ok (g a) s
  | .error e s => .error e s

theorem final_mapOk (g : α → β) (r : EStateM.Result ε σ α) : final (mapOk g r) = final r := by
  cases r <;> rfl

theorem ok_of_mapOk {g : α → β} {r : EStateM.Result ε σ α} {b : β} {s : σ}
    (h : mapOk g r = .ok b s) : ∃ a, r = .ok a s ∧ b = g a := by
  cases r with
  | ok a t =>
    cases h
    exact ⟨a, rfl, rfl⟩
  | error e t => cases h

theorem bind_pure_apply (x : EStateM ε σ α) (g : α → β) (s : σ) :
    (x >>= fun a => pure (g a)) s = mapOk g (x s) := by
  rw [bind_apply]
  cases x s <;> rfl

/-- Run a computation on a component of the state. -/
def zoom (view : σ → τ) (put : τ → σ → σ) (x : EStateM ε τ α) : EStateM ε σ α := fun s =>
  match x (view s) with
  | .ok a t => .ok a (put t s)
  | .error e t => .error e (put t s)

/-- The computation returned, with a value and a state that satisfy `p`. -/
def returns (p : α → σ → Bool) : EStateM.Result ε σ α → Bool
  | .ok a s => p a s
  | .error _ _ => false

theorem exists_of_returns {p : α → σ → Bool} {r : EStateM.Result ε σ α}
    (h : returns p r = true) : ∃ a s, r = .ok a s ∧ p a s = true := by
  cases r with
  | ok a s => exact ⟨a, s, rfl, h⟩
  | error e s => cases h

/-- The error that the computation raised, if any. -/
def errorOf : EStateM.Result ε σ α → Option ε
  | .ok _ _ => none
  | .error e _ => some e

theorem exists_of_errorOf {r : EStateM.Result ε σ α} {e : ε} (h : errorOf r = some e) :
    ∃ s, r = .error e s := by
  cases r with
  | ok a s => cases h
  | error e' s =>
    cases h
    exact ⟨s, rfl⟩

section Keeps

variable {f : σ → ρ}

/-- Nothing the computation does, even before raising, changes the view `f`. -/
def Keeps (f : σ → ρ) (x : EStateM ε σ α) : Prop := ∀ s, f (final (x s)) = f s

theorem Keeps.of_ok {x : EStateM ε σ α} (h : Keeps f x) {s t : σ} {a : α} (hx : x s = .ok a t) :
    f t = f s := by
  have := h s
  rwa [hx] at this

theorem Keeps.of_error {x : EStateM ε σ α} (h : Keeps f x) {s t : σ} {e : ε}
    (hx : x s = .error e t) : f t = f s := by
  have := h s
  rwa [hx] at this

theorem keeps_pure (a : α) : Keeps f (pure a : EStateM ε σ α) := fun _ => rfl

theorem keeps_throw (e : ε) : Keeps f (throw e : EStateM ε σ α) := fun _ => rfl

theorem keeps_get : Keeps f (get : EStateM ε σ σ) := fun _ => rfl

theorem keeps_modify {g : σ → σ} (h : ∀ s, f (g s) = f s) :
    Keeps f (modify g : EStateM ε σ PUnit) := h

theorem Keeps.bind {x : EStateM ε σ α} {k : α → EStateM ε σ β} (hx : Keeps f x)
    (hk : ∀ a, Keeps f (k a)) : Keeps f (x >>= k) := by
  intro s
  have h := hx s
  rw [bind_apply]
  cases hr : x s with
  | ok a t => rw [hr] at h; exact (hk a t).trans h
  | error e t => rw [hr] at h; exact h

theorem Keeps.ite {c : Prop} [Decidable c] {x y : EStateM ε σ α} (hx : Keeps f x)
    (hy : Keeps f y) : Keeps f (if c then x else y) := by
  split
  · exact hx
  · exact hy

theorem keeps_zoom {view : σ → τ} {put : τ → σ → σ} (x : EStateM ε τ α)
    (h : ∀ t s, f (put t s) = f s) : Keeps f (zoom view put x) := by
  intro s
  unfold zoom
  cases x (view s) <;> exact h _ _

/-- A view of a component is kept if the computation on the component keeps it. -/
theorem Keeps.zoom {view : σ → τ} {put : τ → σ → σ} {g : τ → ρ} {x : EStateM ε τ α}
    (hx : Keeps g x) (hview : ∀ s, f s = g (view s)) (hput : ∀ t s, f (put t s) = g t) :
    Keeps f (zoom view put x) := by
  intro s
  have h := hx (view s)
  rw [hview s]
  unfold Stateful.zoom
  cases hr : x (view s) with
  | ok a t =>
    rw [hr] at h
    exact (hput t s).trans h
  | error e t =>
    rw [hr] at h
    exact (hput t s).trans h

end Keeps

section Commutes

variable {g : σ → σ}

/-- Change the state under a result. -/
def mapState (g : σ → σ) : EStateM.Result ε σ α → EStateM.Result ε σ α
  | .ok a s => .ok a (g s)
  | .error e s => .error e (g s)

/-- The computation does not see whether `g` is applied before it or after it. -/
def Commutes (g : σ → σ) (x : EStateM ε σ α) : Prop := ∀ s, x (g s) = mapState g (x s)

theorem commutes_pure (a : α) : Commutes g (pure a : EStateM ε σ α) := fun _ => rfl

theorem commutes_throw (e : ε) : Commutes g (throw e : EStateM ε σ α) := fun _ => rfl

theorem commutes_modify {f : σ → σ} (h : ∀ s, f (g s) = g (f s)) :
    Commutes g (modify f : EStateM ε σ PUnit) :=
  fun s => congrArg (EStateM.Result.ok PUnit.unit) (h s)

theorem Commutes.bind {x : EStateM ε σ α} {k : α → EStateM ε σ β} (hx : Commutes g x)
    (hk : ∀ a, Commutes g (k a)) : Commutes g (x >>= k) := by
  intro s
  rw [bind_apply, bind_apply, hx s]
  cases x s with
  | ok a t => exact hk a t
  | error e t => rfl

/-- Reading the state commutes where what is read does not depend on `g`. -/
theorem commutes_get {k : σ → EStateM ε σ β} (h : ∀ s, k (g s) = k s)
    (hk : ∀ s, Commutes g (k s)) : Commutes g (get >>= k) := by
  intro s
  rw [bind_of_ok (get_apply _), bind_of_ok (get_apply _), h s]
  exact hk s s

theorem Commutes.ite {c : Prop} [Decidable c] {x y : EStateM ε σ α} (hx : Commutes g x)
    (hy : Commutes g y) : Commutes g (if c then x else y) := by
  split
  · exact hx
  · exact hy

theorem commutes_zoom {view : σ → τ} {put : τ → σ → σ} (x : EStateM ε τ α)
    (hv : ∀ s, view (g s) = view s) (hp : ∀ t s, put t (g s) = g (put t s)) :
    Commutes g (zoom view put x) := by
  intro s
  unfold zoom
  rw [hv s]
  cases x (view s) with
  | ok a t => exact congrArg (EStateM.Result.ok a) (hp t s)
  | error e t => exact congrArg (EStateM.Result.error e) (hp t s)

end Commutes

section Maintains

variable {E : ε → Prop} {I : σ → Prop} {Q : α → Prop} {Q' : β → Prop}

/-- The invariant `I` survives the computation, even when it raises; a returned value
satisfies `Q` and a raised error `E`. -/
structure Triple (E : ε → Prop) (I : σ → Prop) (Q : α → Prop) (r : EStateM.Result ε σ α) :
    Prop where
  invariant : I (final r)
  value : ∀ a t, r = .ok a t → Q a
  error : ∀ e t, r = .error e t → E e

/-- `Triple` from every state with the invariant. -/
def Maintains (E : ε → Prop) (I : σ → Prop) (x : EStateM ε σ α) (Q : α → Prop) : Prop :=
  ∀ s, I s → Triple E I Q (x s)

theorem triple_ok {a : α} {s : σ} (hs : I s) (ha : Q a) :
    Triple E I Q (.ok a s : EStateM.Result ε σ α) where
  invariant := hs
  value := by
    intro b t h
    cases h
    exact ha
  error := fun _ _ h => absurd h (by simp)

theorem triple_error {e : ε} {s : σ} (hs : I s) (he : E e) :
    Triple E I Q (.error e s : EStateM.Result ε σ α) where
  invariant := hs
  value := fun _ _ h => absurd h (by simp)
  error := by
    intro e' t h
    cases h
    exact he

theorem maintains_pure {a : α} (h : Q a) : Maintains E I (pure a : EStateM ε σ α) Q :=
  fun _ hs => triple_ok hs h

theorem maintains_throw {e : ε} (h : E e) : Maintains E I (throw e : EStateM ε σ α) Q :=
  fun _ hs => triple_error hs h

theorem maintains_get : Maintains E I (get : EStateM ε σ σ) I := fun _ hs => triple_ok hs hs

theorem maintains_modify {g : σ → σ} (h : ∀ s, I s → I (g s)) :
    Maintains E I (modify g : EStateM ε σ PUnit) fun _ => True :=
  fun s hs => triple_ok (h s hs) trivial

theorem Maintains.bind {x : EStateM ε σ α} {k : α → EStateM ε σ β} (hx : Maintains E I x Q)
    (hk : ∀ a, Q a → Maintains E I (k a) Q') : Maintains E I (x >>= k) Q' := by
  intro s hs
  have h := hx s hs
  rw [bind_apply]
  cases hr : x s with
  | ok a t =>
    rw [hr] at h
    exact hk a (h.value a t rfl) t h.invariant
  | error e t =>
    rw [hr] at h
    exact triple_error h.invariant (h.error e t rfl)

/-- An invariant of what the computation keeps. -/
theorem Keeps.maintains {f : σ → ρ} {x : EStateM ε σ α} (hx : Keeps f x)
    (hI : ∀ s t, f t = f s → I s → I t) :
    Maintains (fun _ => True) I x fun _ => True := by
  intro s hs
  exact ⟨hI _ _ (hx s) hs, fun _ _ _ => trivial, fun _ _ _ => trivial⟩

/-- What holds the view at every value keeps it. -/
theorem keeps_of_maintains {f : σ → ρ} {x : EStateM ε σ α}
    (hx : ∀ r, Maintains (fun _ => True) (fun s => f s = r) x fun _ => True) : Keeps f x :=
  fun s => (hx (f s) s rfl).invariant

theorem Maintains.ite {c : Prop} [Decidable c] {x y : EStateM ε σ α}
    (hx : c → Maintains E I x Q) (hy : ¬ c → Maintains E I y Q) :
    Maintains E I (if c then x else y) Q := by
  split
  · next h => exact hx h
  · next h => exact hy h

theorem Maintains.weaken {x : EStateM ε σ α} {R : α → Prop} (hx : Maintains E I x Q)
    (h : ∀ a, Q a → R a) : Maintains E I x R := by
  intro s hs
  obtain ⟨hi, hv, he⟩ := hx s hs
  exact ⟨hi, fun a t ha => h a (hv a t ha), he⟩

theorem Maintains.weakenError {E' : ε → Prop} {x : EStateM ε σ α} (hx : Maintains E I x Q)
    (h : ∀ e, E e → E' e) : Maintains E' I x Q := by
  intro s hs
  obtain ⟨hi, hv, he⟩ := hx s hs
  exact ⟨hi, hv, fun e t hr => h e (he e t hr)⟩

theorem Maintains.zoom {view : σ → τ} {put : τ → σ → σ} {J : τ → Prop} {x : EStateM ε τ α}
    (hx : Maintains E J x Q) (hv : ∀ s, I s → J (view s))
    (hp : ∀ t s, I s → J t → I (put t s)) : Maintains E I (zoom view put x) Q := by
  intro s hs
  have h := hx (view s) (hv s hs)
  unfold Stateful.zoom
  cases hr : x (view s) with
  | ok a t =>
    rw [hr] at h
    exact triple_ok (hp t s hs h.invariant) (h.value a t rfl)
  | error e t =>
    rw [hr] at h
    exact triple_error (hp t s hs h.invariant) (h.error e t rfl)

end Maintains

section Completes

variable {x : EStateM ε σ α} {k : α → EStateM ε σ β} {s t : σ} {a : α}

def Completes (x : EStateM ε σ α) (s : σ) : Prop := ∃ a t, x s = .ok a t

theorem completes_pure (a : α) (s : σ) : Completes (pure a : EStateM ε σ α) s := ⟨a, s, rfl⟩

theorem completes_modify (g : σ → σ) (s : σ) : Completes (modify g : EStateM ε σ PUnit) s :=
  ⟨_, _, rfl⟩

theorem completes_bind_of_ok (h : x s = .ok a t) :
    Completes (x >>= k) s ↔ Completes (k a) t := by
  unfold Completes
  rw [bind_of_ok h]

/-- Only the first part can raise. -/
theorem completes_bind_iff (hk : ∀ a t, x s = .ok a t → Completes (k a) t) :
    Completes (x >>= k) s ↔ Completes x s := by
  constructor
  · rintro ⟨b, u, h⟩
    obtain ⟨a, t, hx, -⟩ := ok_of_bind_apply h
    exact ⟨a, t, hx⟩
  · rintro ⟨a, t, hx⟩
    exact (completes_bind_of_ok hx).mpr (hk a t hx)

theorem completes_zoom_iff {view : σ → τ} {put : τ → σ → σ} {y : EStateM ε τ α} :
    Completes (zoom view put y) s ↔ Completes y (view s) := by
  unfold Completes zoom
  cases y (view s) <;> simp

end Completes

section Total

variable {x : EStateM ε σ α} {f : α → EStateM ε σ β} {s : σ}
  {P : α → σ → Prop} {Q : β → σ → Prop}

/-- From `s` the computation returns, and `P` holds of the value and the state after it. -/
def Total (x : EStateM ε σ α) (s : σ) (P : α → σ → Prop) : Prop := ∃ a t, x s = .ok a t ∧ P a t

theorem total_pure {a : α} (h : P a s) : Total (pure a : EStateM ε σ α) s P := ⟨a, s, rfl, h⟩

theorem Total.bind (hx : Total x s P) (hf : ∀ a t, P a t → Total (f a) t Q) :
    Total (x >>= f) s Q := by
  obtain ⟨a, t, hxs, hP⟩ := hx
  obtain ⟨b, u, hfa, hQ⟩ := hf a t hP
  exact ⟨b, u, (bind_of_ok hxs).trans hfa, hQ⟩

theorem total_modify_bind {g : σ → σ} {f : PUnit → EStateM ε σ β} (h : Total (f ⟨⟩) (g s) Q) :
    Total (modify g >>= f) s Q := h

theorem total_get_bind {f : σ → EStateM ε σ β} (h : Total (f s) s Q) : Total (get >>= f) s Q := h

theorem Total.weaken {R : α → σ → Prop} (hx : Total x s P) (h : ∀ a t, P a t → R a t) :
    Total x s R := by
  obtain ⟨a, t, hxs, hP⟩ := hx
  exact ⟨a, t, hxs, h a t hP⟩

/-- From `s` the computation raises `e`. -/
def Fails (x : EStateM ε σ α) (s : σ) (e : ε) : Prop := ∃ t, x s = .error e t

theorem Fails.bind {e : ε} (h : Fails x s e) : Fails (x >>= f) s e := by
  obtain ⟨t, hx⟩ := h
  exact ⟨t, bind_of_error hx⟩

theorem fails_get_bind {f : σ → EStateM ε σ β} {e : ε} (h : Fails (f s) s e) :
    Fails (get >>= f) s e := h

end Total

end Stateful
