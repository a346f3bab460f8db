import Ethereum.Lib.Stateful

/-! Two computations run side by side on related states. They end alike: both return, with
related values, or both raise, with related errors, and the states stay related. -/
namespace Relational

open Stateful

variable {ε ε' σ τ α β γ δ : Type} {E : ε → ε' → Prop} {R : σ → τ → Prop} {V : α → β → Prop}
  {W : γ → δ → Prop}

/-- Two results that agree. -/
inductive Agree (E : ε → ε' → Prop) (R : σ → τ → Prop) (V : α → β → Prop) :
    EStateM.Result ε σ α → EStateM.Result ε' τ β → Prop
  | ok {a b s t} (hv : V a b) (hs : R s t) : Agree E R V (.ok a s) (.ok b t)
  | error {e e' s t} (he : E e e') (hs : R s t) : Agree E R V (.error e s) (.error e' t)

/-- From related states the two computations come to results that agree. -/
def Related (E : ε → ε' → Prop) (R : σ → τ → Prop) (V : α → β → Prop) (x : EStateM ε σ α)
    (y : EStateM ε' τ β) : Prop :=
  ∀ s t, R s t → Agree E R V (x s) (y t)

theorem Agree.final {r : EStateM.Result ε σ α} {r' : EStateM.Result ε' τ β}
    (h : Agree E R V r r') : R (final r) (final r') := by
  cases h with
  | ok _ hs => exact hs
  | error _ hs => exact hs

theorem Agree.mapOk {r : EStateM.Result ε σ α} {r' : EStateM.Result ε' τ β} {f : α → γ}
    {g : β → δ} (h : Agree E R V r r') (hfg : ∀ a b, V a b → W (f a) (g b)) :
    Agree E R W (mapOk f r) (mapOk g r') := by
  cases h with
  | ok hv hs => exact .ok (hfg _ _ hv) hs
  | error he hs => exact .error he hs

theorem related_pure {a : α} {b : β} (h : V a b) :
    Related E R V (pure a : EStateM ε σ α) (pure b : EStateM ε' τ β) :=
  fun _ _ hs => .ok h hs

theorem related_throw {e : ε} {e' : ε'} (h : E e e') :
    Related E R V (throw e : EStateM ε σ α) (throw e' : EStateM ε' τ β) :=
  fun _ _ hs => .error h hs

theorem related_modify {f : σ → σ} {g : τ → τ} (h : ∀ s t, R s t → R (f s) (g t)) :
    Related E R (fun _ _ => True) (modify f : EStateM ε σ PUnit) (modify g : EStateM ε' τ PUnit) :=
  fun s t hs => .ok trivial (h s t hs)

/-- Two computations from one pair of states, each with what follows it. -/
theorem Agree.bind {x : EStateM ε σ α} {y : EStateM ε' τ β} {k : α → EStateM ε σ γ}
    {l : β → EStateM ε' τ δ} {s : σ} {t : τ} (h : Agree E R V (x s) (y t))
    (hk : ∀ {a b s' t'}, x s = .ok a s' → V a b → R s' t' → Agree E R W (k a s') (l b t')) :
    Agree E R W ((x >>= k) s) ((y >>= l) t) := by
  rw [bind_apply, bind_apply]
  generalize hx : x s = r, y t = r' at h
  cases h with
  | ok hv hs => exact hk hx hv hs
  | error he hs => exact .error he hs

theorem Related.bind {x : EStateM ε σ α} {y : EStateM ε' τ β} {k : α → EStateM ε σ γ}
    {l : β → EStateM ε' τ δ} (hx : Related E R V x y)
    (hk : ∀ a b, V a b → Related E R W (k a) (l b)) : Related E R W (x >>= k) (y >>= l) :=
  fun s t hs => (hx s t hs).bind fun _ hv hs' => hk _ _ hv _ _ hs'

theorem agree_modify_bind {f : σ → σ} {g : τ → τ} {k : PUnit → EStateM ε σ γ}
    {l : PUnit → EStateM ε' τ δ} {s : σ} {t : τ} (h : Agree E R W (k ⟨⟩ (f s)) (l ⟨⟩ (g t))) :
    Agree E R W ((modify f >>= k) s) ((modify g >>= l) t) := h

/-- A computation that reads the state first, where the rest may depend on both states. -/
theorem related_get_bind {k : σ → EStateM ε σ γ} {l : τ → EStateM ε' τ δ}
    (h : ∀ s t, R s t → Agree E R W (k s s) (l t t)) : Related E R W (get >>= k) (get >>= l) := by
  intro s t hs
  rw [bind_of_ok (get_apply s), bind_of_ok (get_apply t)]
  exact h s t hs

theorem Related.ite {c c' : Prop} [Decidable c] [Decidable c'] (hc : c ↔ c')
    {x x' : EStateM ε σ α} {y y' : EStateM ε' τ β} (hx : Related E R V x y)
    (hx' : Related E R V x' y') : Related E R V (if c then x else x') (if c' then y else y') := by
  by_cases h : c
  · rwa [if_pos h, if_pos (hc.mp h)]
  · rwa [if_neg h, if_neg (fun h' => h (hc.mpr h'))]

/-- A computation on a component in which the two states are equal. -/
theorem related_zoom {ρ : Type} {view : σ → ρ} {view' : τ → ρ} {put : ρ → σ → σ} {put' : ρ → τ → τ}
    (x : EStateM ε ρ α) (hview : ∀ s t, R s t → view s = view' t)
    (hput : ∀ r s t, R s t → R (put r s) (put' r t)) :
    Related Eq R Eq (zoom view put x) (zoom view' put' x) := by
  intro s t hs
  unfold zoom
  rw [hview s t hs]
  cases x (view' t) with
  | ok a r => exact .ok rfl (hput r s t hs)
  | error e r => exact .error rfl (hput r s t hs)

end Relational
