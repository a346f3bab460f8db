import Mathlib.Data.List.Forall2
import Mathlib.Data.Set.Basic
import Mathlib.Logic.Function.Basic

/-! Machines that answer every input and move on, and what one machine says of another. Where an
input reads and changes only some places of the state, queues of inputs that get to different
places can be interleaved in any way. -/
namespace Machine

variable {σ τ ι ο : Type} {step : σ → ι → ο × σ} {spec : τ → ι → ο × τ} {R : σ → τ → Prop}
  {allowed : ι → Prop}

/-- The answers to a list of inputs, in order, and the state at the end. -/
def run (step : σ → ι → ο × σ) : List ι → σ → List ο × σ
  | [], s => ([], s)
  | i :: inputs, s =>
    ((step s i).1 :: (run step inputs (step s i).2).1, (run step inputs (step s i).2).2)

/-- From related states both machines give related answers to an allowed input and stay related. -/
def Agrees {π : Type} (step : σ → ι → ο × σ) (spec : τ → ι → π × τ) (A : ο → π → Prop)
    (R : σ → τ → Prop) (allowed : ι → Prop) : Prop :=
  ∀ s t i, R s t → allowed i → A (step s i).1 (spec t i).1 ∧ R (step s i).2 (spec t i).2

/-- What holds of one input holds of any number of them. -/
theorem Agrees.run {π : Type} {spec : τ → ι → π × τ} {A : ο → π → Prop}
    (h : Agrees step spec A R allowed) {s : σ} {t : τ} (hR : R s t) {inputs : List ι}
    (hallowed : ∀ i ∈ inputs, allowed i) :
    List.Forall₂ A (run step inputs s).1 (run spec inputs t).1 ∧
      R (run step inputs s).2 (run spec inputs t).2 := by
  induction inputs generalizing s t with
  | nil => exact ⟨.nil, hR⟩
  | cons i inputs ih =>
    obtain ⟨hanswer, hnext⟩ := h s t i hR (hallowed i List.mem_cons_self)
    obtain ⟨hanswers, hlast⟩ := ih hnext fun i hi => hallowed i (List.mem_cons_of_mem _ hi)
    exact ⟨.cons hanswer hanswers, hlast⟩

/-- From related states both machines answer an allowed input alike and stay related. -/
def Refines (step : σ → ι → ο × σ) (spec : τ → ι → ο × τ) (R : σ → τ → Prop)
    (allowed : ι → Prop) : Prop :=
  Agrees step spec Eq R allowed

theorem Refines.run (h : Refines step spec R allowed) {s : σ} {t : τ} (hR : R s t)
    {inputs : List ι} (hallowed : ∀ i ∈ inputs, allowed i) :
    (run step inputs s).1 = (run spec inputs t).1 ∧
      R (run step inputs s).2 (run spec inputs t).2 := by
  obtain ⟨hanswers, hlast⟩ := Agrees.run h hR hallowed
  rw [List.forall₂_eq_eq_eq] at hanswers
  exact ⟨hanswers, hlast⟩

end Machine

namespace Locality

open Machine

variable {σ ι ο κ θ : Type}

/-- Two states that are the same at the places of a set. -/
def SameOn (same : κ → σ → σ → Prop) (places : Set κ) (s t : σ) : Prop :=
  ∀ k ∈ places, same k s t

/-- The answer and what an input does depend on the places in its footprint alone, and all
other places stay as they are. -/
structure Local (step : σ → ι → ο × σ) (same : κ → σ → σ → Prop) (footprint : σ → ι → Set κ) :
    Prop where
  equivalence : ∀ k, Equivalence (same k)
  answer : ∀ {s t i}, SameOn same (footprint s i) s t → (step t i).1 = (step s i).1
  inside : ∀ {s t i}, SameOn same (footprint s i) s t →
    SameOn same (footprint s i) (step s i).2 (step t i).2
  outside : ∀ {s t i}, SameOn same (footprint s i) s t →
    SameOn same (footprint s i)ᶜ t (step t i).2

/-- The footprints of inputs one after the other. -/
def spread (step : σ → ι → ο × σ) (footprint : σ → ι → Set κ) : σ → List ι → Set κ
  | _, [] => ∅
  | s, i :: inputs => footprint s i ∪ spread step footprint (step s i).2 inputs

variable {step : σ → ι → ο × σ} {same : κ → σ → σ → Prop} {footprint : σ → ι → Set κ} {s t : σ}
  {i : ι} {places : Set κ}

theorem SameOn.mono {places' : Set κ} (h : SameOn same places s t) (hsub : places' ⊆ places) :
    SameOn same places' s t :=
  fun k hk => h k (hsub hk)

theorem Local.refl (h : Local step same footprint) (places : Set κ) (s : σ) :
    SameOn same places s s :=
  fun k _ => (h.equivalence k).refl s

/-- States that are the same at more places than an input gets to stay so. -/
theorem Local.sameOn_step (h : Local step same footprint) (hsub : footprint s i ⊆ places)
    (hst : SameOn same places s t) : SameOn same places (step s i).2 (step t i).2 := by
  intro k hk
  have hfoot : SameOn same (footprint s i) s t := hst.mono hsub
  by_cases hmem : k ∈ footprint s i
  · exact h.inside hfoot k hmem
  · have heq := h.equivalence k
    have hleft : same k s (step s i).2 := h.outside (h.refl _ s) k hmem
    have hright : same k t (step t i).2 := h.outside hfoot k hmem
    exact heq.trans (heq.symm hleft) (heq.trans (hst k hk) hright)

section Queues

/-- An input of a queue, and the answer to that queue. -/
def tagged (step : σ → ι → ο × σ) (s : σ) (x : θ × ι) : (θ × ο) × σ :=
  ((x.1, (step s x.2).1), (step s x.2).2)

theorem run_tagged (l : List (θ × ι)) (s : σ) :
    run (tagged step) l s = ((l.map Prod.fst).zip (run step (l.map Prod.snd) s).1,
      (run step (l.map Prod.snd) s).2) := by
  induction l generalizing s with
  | nil => rfl
  | cons x l ih =>
    rw [run, ih]
    rfl

variable [DecidableEq θ]

/-- What belongs to one queue, in order. -/
def queue {α : Type} (a : θ) (l : List (θ × α)) : List α :=
  l.filterMap fun x => if x.1 = a then some x.2 else none

theorem queue_cons_self {α : Type} (a : θ) (x : α) (l : List (θ × α)) :
    queue a ((a, x) :: l) = x :: queue a l := by
  simp [queue]

theorem queue_cons_of_ne {α : Type} {a b : θ} (h : b ≠ a) (x : α) (l : List (θ × α)) :
    queue a ((b, x) :: l) = queue a l := by
  simp [queue, h]

/-- Where the queues stay within places of their own, each runs as it would alone, from the state
`alone` that it knows. -/
structure Separate (step : σ → ι → ο × σ) (same : κ → σ → σ → Prop)
    (footprint : σ → ι → Set κ) (places : θ → Set κ) (alone : θ → σ) (t : σ)
    (l : List (θ × ι)) : Prop where
  within : ∀ a, spread step footprint (alone a) (queue a l) ⊆ places a
  disjoint : ∀ a b, a ≠ b → ∀ k ∈ places a, k ∉ places b
  sameOn : ∀ a, SameOn same (places a) (alone a) t

variable {places : θ → Set κ} {alone : θ → σ} {l l' : List (θ × ι)} {b : θ}

theorem Separate.footprint_subset
    (hsep : Separate step same footprint places alone t ((b, i) :: l)) :
    footprint (alone b) i ⊆ places b := by
  have hwithin := hsep.within b
  rw [queue_cons_self] at hwithin
  exact (Set.union_subset_iff.mp hwithin).1

/-- An input moves its own queue on and none of the others. -/
theorem Separate.next (h : Local step same footprint)
    (hsep : Separate step same footprint places alone t ((b, i) :: l)) :
    Separate step same footprint places (Function.update alone b (step (alone b) i).2)
      (step t i).2 l where
  within a := by
    have hwithin := hsep.within a
    by_cases hab : a = b
    · subst hab
      rw [queue_cons_self] at hwithin
      rw [Function.update_self]
      exact (Set.union_subset_iff.mp hwithin).2
    · rw [queue_cons_of_ne (Ne.symm hab)] at hwithin
      rwa [Function.update_of_ne hab]
  disjoint := hsep.disjoint
  sameOn a := by
    have hfoot := hsep.footprint_subset
    by_cases hab : a = b
    · subst hab
      rw [Function.update_self]
      exact h.sameOn_step hfoot (hsep.sameOn a)
    · rw [Function.update_of_ne hab]
      intro k hk
      have hother : k ∈ (footprint (alone b) i)ᶜ := fun hmem =>
        hsep.disjoint a b hab k hk (hfoot hmem)
      have hstep := h.outside ((hsep.sameOn b).mono hfoot) k hother
      exact (h.equivalence k).trans (hsep.sameOn a k hk) hstep

theorem Separate.answers (h : Local step same footprint)
    (hsep : Separate step same footprint places alone t l) (a : θ) :
    queue a (run (tagged step) l t).1 = (run step (queue a l) (alone a)).1 := by
  induction l generalizing alone t with
  | nil => rfl
  | cons x l ih =>
    obtain ⟨b, i⟩ := x
    have hnext := ih (hsep.next h)
    by_cases hab : a = b
    · subst hab
      rw [Function.update_self] at hnext
      rw [queue_cons_self, run, tagged, queue_cons_self, run, ← hnext]
      exact congrArg (· :: _) (h.answer ((hsep.sameOn a).mono hsep.footprint_subset))
    · rw [Function.update_of_ne hab] at hnext
      rw [queue_cons_of_ne (Ne.symm hab), run, tagged, queue_cons_of_ne (Ne.symm hab), ← hnext]

theorem Separate.final (h : Local step same footprint)
    (hsep : Separate step same footprint places alone t l) (a : θ) :
    SameOn same (places a) (run step (queue a l) (alone a)).2 (run (tagged step) l t).2 := by
  induction l generalizing alone t with
  | nil => exact hsep.sameOn a
  | cons x l ih =>
    obtain ⟨b, i⟩ := x
    have hnext := ih (hsep.next h)
    by_cases hab : a = b
    · subst hab
      rw [Function.update_self] at hnext
      rwa [queue_cons_self]
    · rw [Function.update_of_ne hab] at hnext
      rwa [queue_cons_of_ne (Ne.symm hab)]

/-- No queue gets to the other places. -/
theorem Separate.outside (h : Local step same footprint)
    (hsep : Separate step same footprint places alone t l) {k : κ} (hk : ∀ a, k ∉ places a) :
    same k t (run (tagged step) l t).2 := by
  induction l generalizing alone t with
  | nil => exact (h.equivalence k).refl t
  | cons x l ih =>
    obtain ⟨b, i⟩ := x
    have hfoot := hsep.footprint_subset
    have hstep : same k t (step t i).2 :=
      h.outside ((hsep.sameOn b).mono hfoot) k fun hmem => hk b (hfoot hmem)
    exact (h.equivalence k).trans hstep (ih (hsep.next h))

/-- Queues whose inputs, run alone, get to different places. -/
def Apart (step : σ → ι → ο × σ) (footprint : σ → ι → Set κ) (s : σ) (l : List (θ × ι)) : Prop :=
  ∀ a b, a ≠ b → ∀ k ∈ spread step footprint s (queue a l),
    k ∉ spread step footprint s (queue b l)

theorem Apart.separate (hapart : Apart step footprint s l) (h : Local step same footprint) :
    Separate step same footprint (fun a => spread step footprint s (queue a l)) (fun _ => s) s
      l where
  within _ := subset_rfl
  disjoint := hapart
  sameOn _ := h.refl _ s

/-- All interleavings of such queues come to the same state. -/
theorem Local.interleave (h : Local step same footprint) (hapart : Apart step footprint s l)
    (hqueues : ∀ a, queue a l = queue a l') (k : κ) :
    same k (run (tagged step) l s).2 (run (tagged step) l' s).2 := by
  have hapart' : Apart step footprint s l' := by
    intro a b hab
    rw [← hqueues a, ← hqueues b]
    exact hapart a b hab
  have heq := h.equivalence k
  by_cases hk : ∃ a, k ∈ spread step footprint s (queue a l)
  · obtain ⟨a, hka⟩ := hk
    have hfirst := (hapart.separate h).final h a k hka
    have hsecond := (hapart'.separate h).final h a k (hqueues a ▸ hka)
    rw [← hqueues a] at hsecond
    exact heq.trans (heq.symm hfirst) hsecond
  · have hnot : ∀ a, k ∉ spread step footprint s (queue a l) := fun a hka => hk ⟨a, hka⟩
    have hfirst := (hapart.separate h).outside h hnot
    have hsecond := (hapart'.separate h).outside h fun a => hqueues a ▸ hnot a
    exact heq.trans (heq.symm hfirst) hsecond

end Queues

end Locality
