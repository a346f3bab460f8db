import Ethereum.State.WorldState
import Mathlib.Logic.Relation

/-! The world state as a ledger that changes only in the name of accounts with
authority. Which accounts have it is a parameter here. -/
namespace Ethereum

open Relation

/-- One change of the ledger, made by an account that `S` holds of. -/
inductive Move (S : Bytes → Prop) : WorldState → WorldState → Prop
  | pay {w w' sender recipient amount} (hs : S sender) (h0 : 0 < amount)
      (h : w.transfer sender recipient amount = .ok w') : Move S w w'
  | bump {w address} (hs : S address) : Move S w (w.incrementNonce address)
  | touch {w address} : Move S w (w.addBalance address 0)
  | deploy {w address code} (hs : S address) : Move S w (w.setCode address code)
  | persist {w address storage} (hs : S address) : Move S w (w.persistStorage address storage)

abbrev Moves (S : Bytes → Prop) : WorldState → WorldState → Prop := ReflTransGen (Move S)

variable {S T : Bytes → Prop} {w w' : WorldState} {a : Bytes}

theorem Move.mono (hST : ∀ a, S a → T a) (h : Move S w w') : Move T w w' := by
  cases h with
  | pay hs h0 ht => exact .pay (hST _ hs) h0 ht
  | bump hs => exact .bump (hST _ hs)
  | touch => exact .touch
  | deploy hs => exact .deploy (hST _ hs)
  | persist hs => exact .persist (hST _ hs)

theorem Moves.mono (hST : ∀ a, S a → T a) (h : Moves S w w') : Moves T w w' :=
  ReflTransGen.mono (fun _ _ => Move.mono hST) _ _ h

/-- A payment without a positive value moves nothing. -/
theorem Moves.pay {sender recipient : Bytes} {amount : Int} (hs : S sender)
    (h : (if 0 < amount then w.transfer sender recipient amount else .ok w) = .ok w') :
    Moves S w w' := by
  split at h
  · next h0 => exact .single (.pay hs h0 h)
  · cases h
    exact .refl

theorem getAccount_touch (address : Bytes) :
    (w.addBalance address 0).getAccount a = w.getAccount a := by
  unfold WorldState.addBalance
  rw [WorldState.getAccount_modifyAccount]
  split
  · next h => rw [h, add_zero]
  · rfl

section Conservation

theorem Move.totalBalance (h : Move S w w') : w'.totalBalance = w.totalBalance := by
  cases h with
  | pay _ _ ht => exact WorldState.totalBalance_transfer ht
  | bump _ => exact WorldState.totalBalance_incrementNonce _
  | touch => rw [WorldState.totalBalance_addBalance, add_zero]
  | deploy _ => exact WorldState.totalBalance_setCode _ _
  | persist _ => exact WorldState.totalBalance_persistStorage _ _

theorem Moves.totalBalance (h : Moves S w w') : w'.totalBalance = w.totalBalance := by
  induction h with
  | refl => rfl
  | tail _ hm ih => exact hm.totalBalance.trans ih

/-- No account is in debt. -/
def WorldState.Solvent (w : WorldState) : Prop := ∀ a, 0 ≤ w.getBalance a

theorem solvent_of_entries (h : ∀ e ∈ w.accounts.entries, 0 ≤ e.2.balance) : w.Solvent :=
  WorldState.forall_getAccount (P := fun account => 0 ≤ account.balance) le_rfl h

theorem solvent_transfer {sender recipient : Bytes} {amount : Int} (hw : w.Solvent)
    (h0 : 0 ≤ amount) (h : w.transfer sender recipient amount = .ok w') : w'.Solvent := by
  intro b
  have hb := hw b
  have hs : amount ≤ w.getBalance sender ∨ amount = 0 := by
    rcases WorldState.transfer_eq_ok_iff.mp h with ⟨h0, -⟩ | ⟨-, hle, -⟩
    · exact .inr h0
    · exact .inl hle
  unfold WorldState.getBalance at *
  rw [WorldState.getAccount_transfer h b]
  dsimp only
  split <;> split <;> first | omega | (subst_vars; omega)

theorem WorldState.Solvent.congr (h : w.Solvent)
    (hbalance : ∀ a, (w'.getAccount a).balance = (w.getAccount a).balance) : w'.Solvent :=
  fun a => (h a).trans_eq (hbalance a).symm

theorem Move.solvent (h : Move S w w') (hw : w.Solvent) : w'.Solvent := by
  cases h with
  | pay _ h0 ht => exact solvent_transfer hw h0.le ht
  | bump _ =>
    exact hw.congr (WorldState.field_incrementNonce Account.balance (fun _ _ => rfl) _)
  | touch =>
    apply hw.congr
    intro b
    rw [getAccount_touch]
  | deploy _ =>
    exact hw.congr (WorldState.field_setCode Account.balance (fun _ _ => rfl) _ _)
  | persist _ =>
    exact hw.congr (WorldState.field_persistStorage Account.balance (fun _ _ => rfl) _ _)

theorem Moves.solvent (h : Moves S w w') (hw : w.Solvent) : w'.Solvent := by
  induction h with
  | refl => exact hw
  | tail _ hm ih => exact hm.solvent ih

end Conservation

section Authority

/-- What an account that made no move can see: nothing but incoming payments. -/
structure Untouched (w w' : WorldState) (a : Bytes) : Prop where
  nonce : (w'.getAccount a).nonce = (w.getAccount a).nonce
  code : (w'.getAccount a).code = (w.getAccount a).code
  storage : (w'.getAccount a).storage = (w.getAccount a).storage
  balance : w.getBalance a ≤ w'.getBalance a

theorem Untouched.refl (w : WorldState) (a : Bytes) : Untouched w w a := ⟨rfl, rfl, rfl, le_rfl⟩

theorem Untouched.trans {w'' : WorldState} (h : Untouched w w' a) (h' : Untouched w' w'' a) :
    Untouched w w'' a where
  nonce := h'.nonce.trans h.nonce
  code := h'.code.trans h.code
  storage := h'.storage.trans h.storage
  balance := h.balance.trans h'.balance

theorem untouched_of_getAccount_eq (h : w'.getAccount a = w.getAccount a) : Untouched w w' a where
  nonce := by rw [h]
  code := by rw [h]
  storage := by rw [h]
  balance := by rw [WorldState.getBalance, WorldState.getBalance, h]

theorem untouched_transfer {sender recipient : Bytes} {amount : Int} (ha : a ≠ sender)
    (h0 : 0 ≤ amount) (h : w.transfer sender recipient amount = .ok w') : Untouched w w' a := by
  have hw := WorldState.getAccount_transfer h a
  refine ⟨by rw [hw], by rw [hw], by rw [hw], ?_⟩
  unfold WorldState.getBalance
  rw [hw, if_neg ha]
  dsimp only
  split <;> omega

theorem Move.untouched (h : Move S w w') (ha : ¬ S a) : Untouched w w' a := by
  cases h with
  | @pay _ sender _ _ hs h0 ht =>
    have hne : a ≠ sender := fun he => ha (he ▸ hs)
    exact untouched_transfer hne h0.le ht
  | @bump address hs =>
    have hne : a ≠ address := fun he => ha (he ▸ hs)
    exact untouched_of_getAccount_eq (WorldState.getAccount_modifyAccount_of_ne hne _)
  | touch => exact untouched_of_getAccount_eq (getAccount_touch _)
  | @deploy address _ hs =>
    have hne : a ≠ address := fun he => ha (he ▸ hs)
    exact untouched_of_getAccount_eq (WorldState.getAccount_modifyAccount_of_ne hne _)
  | @persist address _ hs =>
    have hne : a ≠ address := fun he => ha (he ▸ hs)
    refine untouched_of_getAccount_eq ?_
    rw [WorldState.getAccount_persistStorage, if_neg hne]

theorem Moves.untouched (h : Moves S w w') (ha : ¬ S a) : Untouched w w' a := by
  induction h with
  | refl => exact .refl _ _
  | tail _ hm ih => exact ih.trans (hm.untouched ha)

theorem Move.nonce_le (h : Move S w w') (a : Bytes) :
    (w.getAccount a).nonce ≤ (w'.getAccount a).nonce := by
  cases h with
  | pay _ _ ht => rw [WorldState.getAccount_transfer ht a]
  | bump _ =>
    unfold WorldState.incrementNonce
    rw [WorldState.getAccount_modifyAccount]
    split
    · next hb => subst hb; exact Int.le_add_one le_rfl
    · exact le_rfl
  | touch => rw [getAccount_touch]
  | deploy _ => exact (WorldState.field_setCode Account.nonce (fun _ _ => rfl) _ _ a).ge
  | persist _ => exact (WorldState.field_persistStorage Account.nonce (fun _ _ => rfl) _ _ a).ge

/-- Nonces only grow. -/
theorem Moves.nonce_le (h : Moves S w w') (a : Bytes) :
    (w.getAccount a).nonce ≤ (w'.getAccount a).nonce := by
  induction h with
  | refl => exact le_rfl
  | tail _ hm ih => exact ih.trans (hm.nonce_le a)

end Authority

end Ethereum
