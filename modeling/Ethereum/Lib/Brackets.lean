import Mathlib.Algebra.GroupWithZero.Nat
import Mathlib.Algebra.Order.BigOperators.Group.List
import Mathlib.Data.List.Infix

/-! Traces in which intervals are opened and closed like brackets. An open interval has a price,
and a budget bounds what is open at any time. -/
namespace Brackets

/-- What an entry of a trace does with the intervals. -/
inductive Mark (κ : Type)
  | opens (k : κ)
  | closes (k : κ)
  | inside
  deriving DecidableEq

variable {ε κ : Type} [DecidableEq κ]

/-- The intervals that are open after an entry, the innermost first. Only the innermost can be
closed. -/
def Mark.apply : Mark κ → List κ → Option (List κ)
  | .opens k, ks => some (k :: ks)
  | .closes _, [] => none
  | .closes k, k' :: ks => if k = k' then some ks else none
  | .inside, ks => some ks

/-- The intervals that are open after a trace. -/
def scan (mark : ε → Mark κ) : List κ → List ε → Option (List κ)
  | ks, [] => some ks
  | ks, e :: l => ((mark e).apply ks).bind fun ks => scan mark ks l

/-- Every interval that is opened is closed again, and none was too expensive. -/
structure Nested (mark : ε → Mark κ) (price : κ → Nat) (budget : Nat) (l : List ε) : Prop where
  closed : scan mark [] l = some []
  paid : ∀ l₁, l₁ <+: l → ∃ ks, scan mark [] l₁ = some ks ∧ (ks.map price).sum ≤ budget

variable {mark : ε → Mark κ} {price : κ → Nat} {budget budget' : Nat} {l l₁ l₂ : List ε}
  {ks ks' outer : List κ} {e e' : ε} {k : κ}

theorem scan_append (ks : List κ) (l₁ l₂ : List ε) :
    scan mark ks (l₁ ++ l₂) = (scan mark ks l₁).bind fun ks => scan mark ks l₂ := by
  induction l₁ generalizing ks with
  | nil => rfl
  | cons e l ih =>
    rw [List.cons_append, scan, scan, Option.bind_assoc]
    exact congrArg _ (funext ih)

/-- Intervals that were open before a trace stay open below those that it opens. -/
theorem apply_outer {m : Mark κ} (h : m.apply ks = some ks') (outer : List κ) :
    m.apply (ks ++ outer) = some (ks' ++ outer) := by
  cases m with
  | opens k =>
    cases h
    rfl
  | inside =>
    cases h
    rfl
  | closes k =>
    cases ks with
    | nil => cases h
    | cons k' rest =>
      have hk : k = k' := by
        by_contra hne
        cases (if_neg hne).symm.trans h
      cases (if_pos hk).symm.trans h
      exact if_pos hk

theorem scan_outer (h : scan mark ks l = some ks') (outer : List κ) :
    scan mark (ks ++ outer) l = some (ks' ++ outer) := by
  induction l generalizing ks with
  | nil =>
    cases h
    rfl
  | cons e l ih =>
    obtain ⟨middle, happly, hscan⟩ := Option.bind_eq_some_iff.mp h
    rw [scan, apply_outer happly, Option.bind_some]
    exact ih hscan

namespace Nested

theorem nil : Nested mark price budget [] where
  closed := rfl
  paid l₁ h := by
    rw [List.prefix_nil.mp h]
    exact ⟨[], rfl, Nat.zero_le _⟩

theorem mono (h : Nested mark price budget l) (hle : budget ≤ budget') :
    Nested mark price budget' l where
  closed := h.closed
  paid l₁ hl := by
    obtain ⟨ks, hscan, hpaid⟩ := h.paid l₁ hl
    exact ⟨ks, hscan, hpaid.trans hle⟩

theorem inside (h : mark e = .inside) : Nested mark price budget [e] where
  closed := by
    rw [scan, h]
    rfl
  paid l₁ hl := by
    rcases List.prefix_cons_iff.mp hl with rfl | ⟨t, rfl, ht⟩
    · exact ⟨[], rfl, Nat.zero_le _⟩
    · rw [List.prefix_nil.mp ht, scan, h]
      exact ⟨[], rfl, Nat.zero_le _⟩

theorem append (h₁ : Nested mark price budget l₁) (h₂ : Nested mark price budget l₂) :
    Nested mark price budget (l₁ ++ l₂) where
  closed := by
    rw [scan_append, h₁.closed]
    exact h₂.closed
  paid l hl := by
    rcases List.prefix_or_prefix_of_prefix hl (List.prefix_append l₁ l₂) with hl' | ⟨t, rfl⟩
    · exact h₁.paid l hl'
    · rw [scan_append, h₁.closed]
      exact h₂.paid t ((List.prefix_append_right_inj l₁).mp hl)

theorem scan_wrap (h : Nested mark price budget l) (hclose : mark e' = .closes k) :
    scan mark [k] (l ++ [e']) = some [] := by
  have hinner : scan mark [k] l = some [k] := scan_outer h.closed [k]
  have hlast : (mark e').apply [k] = some [] := by
    rw [hclose]
    exact if_pos rfl
  rw [scan_append, hinner, Option.bind_some, scan, hlast]
  rfl

/-- An interval around a trace that the rest of the budget pays for. -/
theorem wrap (h : Nested mark price budget l) (hopen : mark e = .opens k)
    (hclose : mark e' = .closes k) :
    Nested mark price (price k + budget) (e :: (l ++ [e'])) where
  closed := by
    rw [scan, hopen]
    exact h.scan_wrap hclose
  paid l₁ hl := by
    rcases List.prefix_cons_iff.mp hl with rfl | ⟨t, rfl, ht⟩
    · exact ⟨[], rfl, Nat.zero_le _⟩
    · rw [scan, hopen]
      change ∃ ks, scan mark [k] t = some ks ∧ _
      rcases List.prefix_concat_iff.mp ht with rfl | ht
      · exact ⟨[], h.scan_wrap hclose, Nat.zero_le _⟩
      · obtain ⟨ks, hscan, hpaid⟩ := h.paid t ht
        refine ⟨ks ++ [k], scan_outer hscan [k], ?_⟩
        rw [List.map_append, List.sum_append, List.map_singleton, List.sum_singleton]
        omega

end Nested

end Brackets
