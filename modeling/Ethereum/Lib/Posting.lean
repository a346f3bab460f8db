import Mathlib.Algebra.Group.Action.Defs
import Mathlib.Algebra.BigOperators.Group.List.Basic
import Mathlib.Data.List.Perm.Basic
import Mathlib.Logic.Function.Basic

/-! Stores that change by amounts added to their entries. An absent entry counts as a given
value and comes into being when something is added to it. -/
namespace Posting

variable {κ α M : Type} [DecidableEq κ] [AddCommMonoid M] [AddAction M α] {d : α}
  {f : κ → Option α} {l l' : List (κ × M)} {k : κ}

/-- Add an amount to one entry. -/
def post (d : α) (f : κ → Option α) (p : κ × M) : κ → Option α :=
  Function.update f p.1 (some (p.2 +ᵥ (f p.1).getD d))

def postAll (d : α) (f : κ → Option α) (l : List (κ × M)) : κ → Option α := l.foldl (post d) f

theorem postAll_cons (p : κ × M) : postAll d f (p :: l) = postAll d (post d f p) l := rfl

theorem postAll_append : postAll d f (l ++ l') = postAll d (postAll d f l) l' := List.foldl_append

theorem post_comm (f : κ → Option α) (p q : κ × M) :
    post d (post d f p) q = post d (post d f q) p := by
  obtain ⟨j, m⟩ := p
  obtain ⟨k, n⟩ := q
  unfold post
  by_cases h : k = j
  · subst h
    simp [vadd_comm m n]
  · have h' : j ≠ k := Ne.symm h
    simp only [Function.update_of_ne h, Function.update_of_ne h']
    exact Function.update_comm h' _ _ f

/-- The order of the additions does not matter. -/
theorem postAll_perm (h : l.Perm l') : postAll d f l = postAll d f l' := by
  have hcomm : RightCommutative (post d : (κ → Option α) → κ × M → κ → Option α) :=
    ⟨fun f p q => post_comm f p q⟩
  exact h.foldl_eq f

theorem postAll_of_notMem (h : k ∉ l.map Prod.fst) : postAll d f l k = f k := by
  induction l generalizing f with
  | nil => rfl
  | cons p l ih =>
    rw [List.map_cons, List.mem_cons, not_or] at h
    rw [postAll_cons, ih h.2]
    exact Function.update_of_ne h.1 _ f

/-- An entry has changed by the sum of what was added to it. -/
theorem getD_postAll :
    (postAll d f l k).getD d = (l.map fun p => if p.1 = k then p.2 else 0).sum +ᵥ (f k).getD d := by
  induction l generalizing f with
  | nil => exact (zero_vadd M _).symm
  | cons p l ih =>
    rw [postAll_cons, ih, List.map_cons, List.sum_cons, add_comm, add_vadd]
    congr 1
    unfold post
    by_cases h : p.1 = k
    · rw [if_pos h, h, Function.update_self]
      rfl
    · rw [if_neg h, zero_vadd, Function.update_of_ne (Ne.symm h)]

end Posting
