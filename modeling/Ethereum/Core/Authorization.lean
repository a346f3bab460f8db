import Ethereum.Core.Completed

/-! No account is touched without authority, across a whole transaction. -/
namespace Ethereum

open Stateful

variable {env : Env} {fuel : Nat} {tx : Transaction} {sender a : Bytes} {blockGasLimit : Int}
  {s s' : TxState} {w w' : WorldState} {log : List Event} {gasRemaining : Int}

theorem untouched_refund : Untouched w (w.refund tx sender gasRemaining) a := by
  unfold WorldState.refund
  split
  · next h =>
    unfold WorldState.addBalance
    by_cases ha : a = sender
    · subst ha
      refine ⟨?_, ?_, ?_, ?_⟩ <;> simp [WorldState.getBalance]
      exact h.le
    · exact untouched_of_getAccount_eq (WorldState.getAccount_modifyAccount_of_ne ha _)
  · exact .refl _ _

theorem untouched_completed (h : Completed tx sender log gasRemaining w w') (ha : a ≠ sender)
    (hlog : a ∉ entered log) : Untouched w w' a := by
  obtain ⟨htouch, hpay, hmoves, hgas, rfl⟩ := h
  have hbill : Untouched w (w.bill tx sender) a :=
    untouched_of_getAccount_eq (getAccount_bill_of_ne ha)
  have hpaid : Moves (· = sender) _ _ := .pay rfl hpay
  exact (((hbill.trans (htouch.untouched id)).trans (hpaid.untouched ha)).trans
    (hmoves.untouched hlog)).trans untouched_refund

/-- What is left of a sender whose code has not run, after a nonce step and a cost. -/
structure Spent (w w' : WorldState) (sender : Bytes) (nonces cost : Int) : Prop where
  nonce : (w'.getAccount sender).nonce = (w.getAccount sender).nonce + nonces
  code : (w'.getAccount sender).code = (w.getAccount sender).code
  storage : (w'.getAccount sender).storage = (w.getAccount sender).storage
  balance : w.getBalance sender - cost ≤ w'.getBalance sender

theorem Spent.trans {w'' : WorldState} {n n' c c' : Int} (h : Spent w w' sender n c)
    (h' : Spent w' w'' sender n' c') : Spent w w'' sender (n + n') (c + c') where
  nonce := by rw [h'.nonce, h.nonce, add_assoc]
  code := h'.code.trans h.code
  storage := h'.storage.trans h.storage
  balance := by
    have := h.balance
    have := h'.balance
    omega

theorem Untouched.spent (h : Untouched w w' sender) : Spent w w' sender 0 0 where
  nonce := by rw [h.nonce, add_zero]
  code := h.code
  storage := h.storage
  balance := by
    have := h.balance
    omega

theorem spent_bill : Spent w (w.bill tx sender) sender 1 (tx.gas * tx.gasPrice) := by
  refine ⟨?_, ?_, ?_, ?_⟩ <;> simp [getAccount_bill_self, WorldState.getBalance]

theorem spent_payValue {recipient : Bytes} {value : Int} (h0 : 0 ≤ value)
    (h : payValue w sender recipient value = .ok w') : Spent w w' sender 0 value := by
  unfold payValue at h
  split at h
  · have hw := WorldState.getAccount_transfer h sender
    refine ⟨by rw [hw, add_zero], by rw [hw], by rw [hw], ?_⟩
    unfold WorldState.getBalance
    rw [hw, if_pos rfl]
    dsimp only
    split <;> omega
  · cases h
    refine ⟨(add_zero _).symm, rfl, rfl, ?_⟩
    omega

theorem spent_refund (h : 0 ≤ gasRemaining * tx.gasPrice) :
    Spent w (w.refund tx sender gasRemaining) sender 0 (-(gasRemaining * tx.gasPrice)) := by
  unfold WorldState.refund
  split
  · refine ⟨?_, ?_, ?_, ?_⟩ <;> simp [WorldState.getBalance, WorldState.addBalance]
  · refine ⟨(add_zero _).symm, rfl, rfl, ?_⟩
    omega

theorem spent_completed (h : Completed tx sender log gasRemaining w w') (hv : tx.NonNegative)
    (hlog : sender ∉ entered log) :
    Spent w w' sender 1 (tx.value + (tx.gas - gasRemaining) * tx.gasPrice) := by
  obtain ⟨htouch, hpay, hmoves, hgas, rfl⟩ := h
  have hprice := Int.mul_nonneg hgas hv.gasPrice
  have h := (((spent_bill.trans (htouch.untouched id).spent).trans
    (spent_payValue hv.value hpay)).trans (hmoves.untouched hlog).spent).trans
    (spent_refund hprice)
  convert h using 1 <;> ring

/-- An account that executes no frame is at most paid, and the sender of a transaction
whose code does not run spends one nonce, the value and the gas. -/
theorem applyTransaction_authority (env : Env) (fuel : Nat) (tx : Transaction)
    (blockGasLimit : Int) (w : WorldState) (s' : TxState) (result : TransactionResult)
    (h : applyTransaction env fuel tx blockGasLimit { world := w } = .ok result s') :
    ∃ sender, recoverSender env tx = .ok sender ∧
      (∀ a, a ≠ sender → a ∉ entered s'.log → Untouched w s'.world a) ∧
      (sender ∉ entered s'.log → Spent w s'.world sender 1
        ((if result.success then tx.value else 0) + result.gasUsed * tx.gasPrice)) := by
  cases accepted_of_applyTransaction h with
  | @failed sender hvalid hworld hsuccess hused =>
    refine ⟨sender, hvalid.recovered, fun a ha _ => ?_, fun _ => ?_⟩
    · rw [hworld]
      exact untouched_of_getAccount_eq (getAccount_bill_of_ne ha)
    · rw [hworld, hsuccess, hused]
      simpa using spent_bill
  | @completed sender hvalid hcompleted hsuccess hused =>
    refine ⟨sender, hvalid.recovered, fun a ha hlog => ?_, fun hlog => ?_⟩
    · exact untouched_completed hcompleted ha hlog
    · rw [hsuccess, hused, if_pos rfl]
      exact spent_completed hcompleted hvalid.nonNegative hlog

theorem applyTransaction_authority_nestedCall : ∃ result s',
    applyTransaction sampleEnv 100 sampleTransaction 100000 sampleState = .ok result s' ∧
      entered s'.log = [sampleContract, sampleCallee] ∧
      Spent sampleState.world s'.world sampleSender 1 (1 + result.gasUsed * 1) := by
  obtain ⟨result, s', h, hp⟩ := exists_of_returns
    (p := fun result s => result.success && entered s.log == [sampleContract, sampleCallee])
    (r := applyTransaction sampleEnv 100 sampleTransaction 100000 sampleState) (by decide +kernel)
  simp only [Bool.and_eq_true, beq_iff_eq] at hp
  obtain ⟨sender, hsender, -, hspent⟩ := applyTransaction_authority _ _ _ _ _ _ _ h
  have hs : recoverSender sampleEnv sampleTransaction = .ok sampleSender := by decide +kernel
  cases hs.symm.trans hsender
  rw [hp.1, if_pos rfl] at hspent
  exact ⟨result, s', h, hp.2, hspent (by rw [hp.2]; decide)⟩

end Ethereum
