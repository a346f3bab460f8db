import Mathlib.Algebra.Order.Group.Int
import Mathlib.Data.List.Range
import Mathlib.Tactic.Ring

/-! Histories of a system that numbers some of its actions with a counter per key. -/
namespace Sequencing

variable {σ α κ : Type} {step : σ → α → σ → Prop}

/-- Finite histories: the actions between two states, in order. -/
inductive History (step : σ → α → σ → Prop) : σ → List α → σ → Prop
  | nil {s} : History step s [] s
  | cons {s t u a l} (hs : step s a t) (h : History step t l u) : History step s (a :: l) u

theorem History.append {s t u : σ} {l₁ l₂ : List α} (h₁ : History step s l₁ t)
    (h₂ : History step t l₂ u) : History step s (l₁ ++ l₂) u := by
  induction h₁ with
  | nil => exact h₂
  | cons hs _ ih => exact .cons hs (ih h₂)

theorem History.single {s t : σ} {a : α} (h : step s a t) : History step s [a] t := .cons h .nil

/-- What is true of the label of every step is true of all labels of a history. -/
theorem History.forall_labels {P : α → Prop} {s t : σ} {l : List α} (h : History step s l t)
    (hstep : ∀ {s a t}, step s a t → P a) : ∀ a ∈ l, P a := by
  induction h with
  | nil => exact fun a ha => absurd ha List.not_mem_nil
  | cons hs _ ih => exact List.forall_mem_cons.mpr ⟨hstep hs, ih⟩

/-- A relation between states that every step has, and that composes, holds across a history. -/
theorem History.of_steps {R : σ → σ → Prop} {s t : σ} {l : List α} (h : History step s l t)
    (hrefl : ∀ s, R s s) (htrans : ∀ {s t u}, R s t → R t u → R s u)
    (hstep : ∀ {s a t}, step s a t → R s t) : R s t := by
  induction h with
  | nil => exact hrefl _
  | cons hs _ ih => exact htrans (hstep hs) ih

/-- Amounts that the steps of a history have, and that add up, sum up across it. -/
theorem History.of_amounts {M : Type} [AddMonoid M] {R : M → σ → σ → Prop} {amount : α → M}
    {s t : σ} {l : List α} (h : History step s l t) (hrefl : ∀ s, R 0 s s)
    (htrans : ∀ {m n s t u}, R m s t → R n t u → R (m + n) s u)
    (hstep : ∀ {s a t}, step s a t → R (amount a) s t) : R (l.map amount).sum s t := by
  induction h with
  | nil => exact hrefl _
  | cons hs _ ih =>
    rw [List.map_cons, List.sum_cons]
    exact htrans (hstep hs) ih

/-- A system whose steps another one can follow, label by label, is followed over a history. -/
theorem History.follow {τ : Type} {step' : τ → α → τ → Prop} {R : σ → τ → Prop} {s s' : σ}
    {l : List α} {t : τ} (h : History step s l s') (hR : R s t)
    (hstep : ∀ {s a s' t}, R s t → step s a s' → ∃ t', step' t a t' ∧ R s' t') :
    ∃ t', History step' t l t' ∧ R s' t' := by
  induction h generalizing t with
  | nil => exact ⟨t, .nil, hR⟩
  | cons hs _ ih =>
    obtain ⟨u, hu, hRu⟩ := hstep hR hs
    obtain ⟨t', ht', hR'⟩ := ih hRu
    exact ⟨t', .cons hu ht', hR'⟩

/-- What is true at the end, and was true before every step after which it is true, is
true after every step. -/
theorem History.restrict {Q : σ → Prop} {s t : σ} {l : List α} (h : History step s l t)
    (hback : ∀ {s a t}, step s a t → Q t → Q s) (hQ : Q t) :
    Q s ∧ History (fun s a t => step s a t ∧ Q t) s l t := by
  induction h with
  | nil => exact ⟨hQ, .nil⟩
  | cons hs _ ih =>
    obtain ⟨ht, hl⟩ := ih hQ
    exact ⟨hback hs ht, .cons ⟨hs, ht⟩ hl⟩

/-- `number a k` is the number under which the action `a` counts for the key `k`. Such an
action needs the counter to stand at its number and moves it on. -/
structure Numbered (step : σ → α → σ → Prop) (counter : σ → κ → Int)
    (number : α → κ → Option Int) : Prop where
  mono : ∀ {s a t}, step s a t → ∀ k, counter s k ≤ counter t k
  eq : ∀ {s a t k n}, step s a t → number a k = some n → n = counter s k
  lt : ∀ {s a t k n}, step s a t → number a k = some n → n < counter t k

section Numbered

variable {counter : σ → κ → Int} {number : α → κ → Option Int} {s t : σ} {l : List α} {k : κ}
  {n : Int}

theorem History.counter_le (h : History step s l t) (hn : Numbered step counter number) (k : κ) :
    counter s k ≤ counter t k :=
  h.of_steps (R := fun s t => counter s k ≤ counter t k) (fun _ => le_rfl) le_trans
    fun hs => hn.mono hs k

/-- The numbers that a history has used lie between the counters at its two ends. -/
theorem History.number_bounds (h : History step s l t) (hn : Numbered step counter number)
    {a : α} (ha : a ∈ l) (hk : number a k = some n) : counter s k ≤ n ∧ n < counter t k := by
  induction h with
  | nil => cases ha
  | cons hs h ih =>
    rcases List.mem_cons.mp ha with rfl | hl
    · exact ⟨(hn.eq hs hk).ge, (hn.lt hs hk).trans_le (h.counter_le hn k)⟩
    · exact ⟨(hn.mono hs k).trans (ih hl).1, (ih hl).2⟩

/-- No number is used twice for one key. -/
theorem History.pairwise_number (h : History step s l t) (hn : Numbered step counter number) :
    l.Pairwise fun a b => ∀ k n, number a k = some n → number b k ≠ some n := by
  induction h with
  | nil => exact .nil
  | cons hs h ih =>
    refine List.pairwise_cons.mpr ⟨fun b hb k n ha hb' => ?_, ih⟩
    have h1 := hn.lt hs ha
    have h2 := (h.number_bounds hn hb hb').1
    exact absurd h1 (not_lt.mpr h2)

/-- Where only the numbered actions move the counter of `k`, and by one, their numbers
are consecutive. -/
theorem History.consecutive (h : History step s l t) (counter : σ → κ → Int)
    (hused : ∀ {s a t n}, step s a t → number a k = some n →
      n = counter s k ∧ counter t k = counter s k + 1)
    (hother : ∀ {s a t}, step s a t → number a k = none → counter t k = counter s k) :
    l.filterMap (number · k) = (List.range (l.filterMap (number · k)).length).map
      fun i : Nat => counter s k + (i : Int) := by
  induction h with
  | nil => rfl
  | @cons s t u a l hs _ ih =>
    cases hn : number a k with
    | none => simpa only [List.filterMap_cons, hn, ← hother hs hn] using ih
    | some n =>
      obtain ⟨rfl, ht⟩ := hused hs hn
      simp only [List.filterMap_cons, hn, List.length_cons, List.range_succ_eq_map,
        List.map_cons, List.map_map]
      refine congrArg₂ List.cons (by simp) (ih.trans (List.map_congr_left fun i _ => ?_))
      simp only [Function.comp_apply, ht, Nat.cast_succ]
      ring

end Numbered

end Sequencing
