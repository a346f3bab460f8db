import Mathlib.Algebra.Order.Group.Int

/-! Cells with names that are computed from an owner and its counter. A name is used up when
the counter moves on, and its cell may be filled at any later time. -/
namespace Allocation

variable {κ ν β : Type}

/-- What there is to see of a state: a counter for each owner and the content of each cell. -/
structure Slots (κ ν β : Type) where
  counter : κ → Int
  cell : ν → β

/-- Two owners or numbers do not share a name. -/
def Injective (name : κ → Int → ν → Prop) : Prop :=
  ∀ k n k' n' a, name k n a → name k' n' a → k = k' ∧ n = n'

/-- Every cell that is in use has a used name. -/
def Fresh (name : κ → Int → ν → Prop) (empty : β) (v : Slots κ ν β) : Prop :=
  ∀ a, v.cell a ≠ empty → ∃ k n, name k n a ∧ n < v.counter k

/-- Counters grow, and cells were empty that changed, with names used up in between. -/
structure Grows (name : κ → Int → ν → Prop) (empty : β) (v v' : Slots κ ν β) : Prop where
  counter : ∀ k, v.counter k ≤ v'.counter k
  cell : ∀ a, v'.cell a ≠ v.cell a →
    v.cell a = empty ∧ ∃ k n, name k n a ∧ v.counter k ≤ n ∧ n < v'.counter k

variable {name : κ → Int → ν → Prop} {empty : β} {v v' v'' : Slots κ ν β} {k : κ} {n : Int} {a : ν}

theorem Grows.refl (v : Slots κ ν β) : Grows name empty v v where
  counter _ := le_rfl
  cell _ h := absurd rfl h

theorem Grows.trans (h : Grows name empty v v') (h' : Grows name empty v' v'') :
    Grows name empty v v'' where
  counter k := (h.counter k).trans (h'.counter k)
  cell := by
    intro a ha
    by_cases hfirst : v'.cell a = v.cell a
    · rw [← hfirst] at ha
      obtain ⟨hempty, k, n, hn, hle, hlt⟩ := h'.cell a ha
      exact ⟨hfirst ▸ hempty, k, n, hn, (h.counter k).trans hle, hlt⟩
    · obtain ⟨hempty, k, n, hn, hle, hlt⟩ := h.cell a hfirst
      exact ⟨hempty, k, n, hn, hle, hlt.trans_le (h'.counter k)⟩

/-- Only counters have moved. -/
theorem grows_of_cell (hcounter : ∀ k, v.counter k ≤ v'.counter k) (hcell : v'.cell = v.cell) :
    Grows name empty v v' where
  counter := hcounter
  cell a h := absurd (congrFun hcell a) h

/-- A cell in use keeps its content. -/
theorem Grows.cell_eq (h : Grows name empty v v') (ha : v.cell a ≠ empty) :
    v'.cell a = v.cell a := by
  by_contra hne
  exact ha (h.cell a hne).1

theorem Grows.fresh (h : Grows name empty v v') (hv : Fresh name empty v) :
    Fresh name empty v' := by
  intro a ha
  by_cases hsame : v'.cell a = v.cell a
  · obtain ⟨k, n, hn, hlt⟩ := hv a (hsame ▸ ha)
    exact ⟨k, n, hn, hlt.trans_le (h.counter k)⟩
  · obtain ⟨-, k, n, hn, -, hlt⟩ := h.cell a hsame
    exact ⟨k, n, hn, hlt⟩

section Injective

variable (hinj : Injective name)
include hinj

/-- The cell whose name is next has not been filled. -/
theorem Fresh.vacant (hv : Fresh name empty v) (hn : name k (v.counter k) a) :
    v.cell a = empty := by
  by_contra ha
  obtain ⟨k', n', hn', hlt⟩ := hv a ha
  obtain ⟨rfl, rfl⟩ := hinj _ _ _ _ _ hn hn'
  exact lt_irrefl _ hlt

/-- Nobody else fills a cell whose name has been used up. -/
theorem Grows.vacant (h : Grows name empty v v') (hn : name k n a) (hlt : n < v.counter k)
    (ha : v.cell a = empty) : v'.cell a = empty := by
  by_contra hne
  obtain ⟨-, k', n', hn', hle, -⟩ := h.cell a (fun hsame => hne (hsame.trans ha))
  obtain ⟨rfl, rfl⟩ := hinj _ _ _ _ _ hn hn'
  exact absurd hlt (not_lt.mpr hle)

/-- To use up the next name, to go on from there, and to fill its cell at the end: nobody
has filled it until then. -/
theorem Grows.fill (hv : Fresh name empty v) (hn : name k (v.counter k) a)
    (hcounter : ∀ k, v.counter k ≤ v'.counter k) (hcell : v'.cell = v.cell)
    (hlt : v.counter k < v'.counter k) (hrest : Grows name empty v' v'') :
    v''.cell a = empty ∧ ∀ w : Slots κ ν β, w.counter = v''.counter →
      (∀ b, b ≠ a → w.cell b = v''.cell b) → Grows name empty v w := by
  have hvacant := hv.vacant hinj hn
  have hgrows := (grows_of_cell hcounter hcell).trans hrest
  refine ⟨hrest.vacant hinj hn hlt (hcell ▸ hvacant), fun w hw hother => ⟨?_, ?_⟩⟩
  · rw [hw]
    exact hgrows.counter
  · intro b hb
    rw [hw]
    by_cases hba : b = a
    · subst hba
      exact ⟨hvacant, k, v.counter k, hn, le_rfl, hlt.trans_le (hrest.counter k)⟩
    · rw [hother b hba] at hb
      exact hgrows.cell b hb

end Injective

end Allocation
