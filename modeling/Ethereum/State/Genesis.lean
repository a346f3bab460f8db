import Ethereum.State.Moves

/-! The genesis state: balances and nothing else. -/
namespace Ethereum

namespace WorldState

/-- The account that an allocation makes. -/
def allocated (balance : Int) : Account := { balance }

variable {alloc : Dict Bytes Int}

theorem get?_foldl_setAccount (l : List (Bytes × Int)) (hl : (l.map Prod.fst).Nodup)
    (w : WorldState) (a : Bytes) :
    (l.foldl (fun w e => w.setAccount e.1 { balance := e.2 }) w).accounts.get? a =
      (((Dict.mk l hl).get? a).map allocated).or (w.accounts.get? a) := by
  induction l generalizing w with
  | nil => rfl
  | cons e l ih =>
    obtain ⟨b, balance⟩ := e
    have hnodup := hl
    rw [List.map_cons, List.nodup_cons] at hnodup
    rw [List.foldl_cons, ih hnodup.2, setAccount, Dict.get?_set]
    unfold Dict.get?
    rw [Dict.lookup_cons_eq]
    by_cases hb : a = b
    · subst hb
      have hnone : (Dict.mk l hnodup.2).get? a = none := by
        by_contra hsome
        obtain ⟨v, hv⟩ := Option.ne_none_iff_exists'.mp hsome
        exact hnodup.1 (Dict.mem_keys_iff.mpr ⟨v, hv⟩)
      unfold Dict.get? at hnone
      simp [hnone, allocated]
    · simp [hb]

theorem getAccount_createGenesisState (alloc : Dict Bytes Int) (a : Bytes) :
    (createGenesisState alloc).getAccount a = allocated ((alloc.get? a).getD 0) := by
  unfold createGenesisState getAccount Dict.getD
  rw [get?_foldl_setAccount _ alloc.nodup]
  cases alloc.get? a <;> rfl

theorem totalBalance_foldl_setAccount (l : List (Bytes × Int)) (hl : (l.map Prod.fst).Nodup)
    (w : WorldState) (hw : ∀ e ∈ l, w.accounts.get? e.1 = none) :
    (l.foldl (fun w e => w.setAccount e.1 { balance := e.2 }) w).totalBalance =
      w.totalBalance + (l.map Prod.snd).sum := by
  induction l generalizing w with
  | nil => simp
  | cons e l ih =>
    rw [List.map_cons, List.nodup_cons] at hl
    have htotal : (w.setAccount e.1 { balance := e.2 }).totalBalance = w.totalBalance + e.2 := by
      rw [totalBalance, setAccount, Dict.total_set, hw e List.mem_cons_self, Option.elim_none,
        sub_zero]
      rfl
    rw [List.foldl_cons, ih hl.2, htotal, List.map_cons, List.sum_cons, add_assoc]
    intro e' he'
    have hne : e'.1 ≠ e.1 := fun h => hl.1 (h ▸ List.mem_map.mpr ⟨e', he', rfl⟩)
    rw [setAccount, Dict.get?_set, if_neg hne]
    exact hw e' (List.mem_cons_of_mem _ he')

/-- All ether of the genesis state was allocated. -/
theorem totalBalance_createGenesisState (alloc : Dict Bytes Int) :
    (createGenesisState alloc).totalBalance = alloc.total id := by
  rw [createGenesisState, totalBalance_foldl_setAccount _ alloc.nodup _ fun _ _ => rfl]
  exact zero_add _

theorem solvent_createGenesisState (h : ∀ e ∈ alloc.entries, 0 ≤ e.2) :
    (createGenesisState alloc).Solvent := by
  intro a
  rw [getBalance, getAccount_createGenesisState]
  cases ha : alloc.get? a with
  | none => exact le_rfl
  | some balance => exact h _ (Dict.mem_of_get? ha)

end WorldState

end Ethereum
