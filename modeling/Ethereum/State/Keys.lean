import Ethereum.State.Genesis

/-! The keys of the accounts map. They come from modifications of accounts, and stay. -/
namespace Ethereum

namespace WorldState

/-- The keys under which a world state has an account. -/
def keys (w : WorldState) : List Bytes := w.accounts.entries.map Prod.fst

/-- Every account is kept under an address of 20 bytes. -/
def Addressed (w : WorldState) : Prop := ∀ a ∈ w.keys, a.length = 20

/-- `P` survives every modification of an account whose key `S` holds of. -/
def Closed (S : Bytes → Prop) (P : WorldState → Prop) : Prop :=
  ∀ w a f, S a → P w → P (w.modifyAccount a f)

/-- `w'` has the keys of `w`, and further ones that `S` holds of. -/
structure Extends (S : Bytes → Prop) (w w' : WorldState) : Prop where
  subset : w.keys ⊆ w'.keys
  added : ∀ a ∈ w'.keys, a ∈ w.keys ∨ S a

variable {S : Bytes → Prop} {P : WorldState → Prop} {w w' : WorldState}
  {a b sender recipient : Bytes} {amount : Int}

theorem mem_keys_modifyAccount {f : Account → Account} :
    b ∈ (w.modifyAccount a f).keys ↔ b = a ∨ b ∈ w.keys :=
  Dict.mem_keys_setEntries _ _ _ _

/-- An account that is there holds something. -/
theorem mem_keys_of_code (h : (w.getAccount a).code ≠ []) : a ∈ w.keys := by
  apply Dict.mem_keys_iff.mpr
  cases ha : w.accounts.get? a with
  | none =>
    rw [getAccount, Dict.getD, ha] at h
    exact absurd rfl h
  | some account => exact ⟨account, rfl⟩

section Extends

theorem Extends.refl (w : WorldState) : Extends S w w := ⟨List.Subset.refl _, fun _ => .inl⟩

/-- Keys are added by modifications only, and never removed. -/
theorem closed_extends (w : WorldState) : Closed S (Extends S w) := by
  intro w' a f ha h
  refine ⟨fun b hb => mem_keys_modifyAccount.mpr (.inr (h.subset hb)), fun b hb => ?_⟩
  rcases mem_keys_modifyAccount.mp hb with rfl | hb
  · exact .inr ha
  · exact h.added b hb

theorem Extends.addressed (h : Extends (fun a => a.length = 20) w w') (hw : w.Addressed) :
    w'.Addressed := by
  intro a ha
  rcases h.added a ha with ha | ha
  · exact hw a ha
  · exact ha

theorem Addressed.of_subset (h : w'.Addressed) (hsubset : w.keys ⊆ w'.keys) : w.Addressed :=
  fun a ha => h a (hsubset ha)

end Extends

section Closed

variable (hP : Closed S P)
include hP

theorem Closed.addBalance (ha : S a) (hw : P w) (amount : Int) : P (w.addBalance a amount) :=
  hP _ _ _ ha hw

theorem Closed.incrementNonce (ha : S a) (hw : P w) : P (w.incrementNonce a) := hP _ _ _ ha hw

theorem Closed.setCode (ha : S a) (hw : P w) (code : Bytes) : P (w.setCode a code) :=
  hP _ _ _ ha hw

theorem Closed.transfer (hsender : S sender) (hrecipient : S recipient) (hw : P w)
    (h : w.transfer sender recipient amount = .ok w') : P w' := by
  rcases transfer_eq_ok_iff.mp h with ⟨-, rfl⟩ | ⟨-, -, rfl⟩
  · exact hw
  · exact hP.addBalance hrecipient (hP _ _ _ hsender hw) amount

theorem Closed.persistStorage (ha : S a) (hw : P w) (storage : Dict Int Int) :
    P (w.persistStorage a storage) := by
  unfold WorldState.persistStorage
  generalize storage.entries = l
  induction l generalizing w with
  | nil => exact hw
  | cons e l ih => exact ih (hP _ _ _ ha hw)

end Closed

/-- The keys of a genesis state are those of its allocation. -/
theorem mem_keys_createGenesisState {alloc : Dict Bytes Int} :
    a ∈ (createGenesisState alloc).keys ↔ a ∈ alloc.entries.map Prod.fst := by
  have hget := get?_foldl_setAccount alloc.entries alloc.nodup ⟨.empty⟩ a
  rw [keys, Dict.mem_keys_iff, Dict.mem_keys_iff, createGenesisState, hget]
  cases alloc.get? a <;> simp

theorem addressed_createGenesisState {alloc : Dict Bytes Int}
    (h : ∀ e ∈ alloc.entries, e.1.length = 20) : (createGenesisState alloc).Addressed := by
  intro a ha
  obtain ⟨e, he, rfl⟩ := List.mem_map.mp (mem_keys_createGenesisState.mp ha)
  exact h e he

end WorldState

end Ethereum
