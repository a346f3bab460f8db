import Ethereum.Core.Apply

/-! The result of a transaction that starts a frame, from the end of that frame. -/
namespace Ethereum

open Stateful

/-- What is left to do after the frame. -/
def TopFrame.finish (t : TopFrame) (tx : Transaction) (gas : Int) :
    Option (ExecutionResult × EVM) → TxM ExecutionResult :=
  if t.kind = .creation then finishCreate gas t.address else finishContractCall tx gas

variable {env : Env} {fuel : Nat} {tx : Transaction} {sender : Bytes} {gas blockGasLimit : Int}
  {s s' s₁ : TxState} {t : TopFrame} {w w' : WorldState} {evm : EVM}

theorem executeTransaction_of_opens (ht : Opens env tx sender s.world t w)
    (hpay : payValue w sender t.address tx.value = .ok w') :
    executeTransaction env fuel tx sender gas s =
      (runFrame env fuel t.kind t.code (t.context tx sender gas) t.storage >>= t.finish tx gas)
        { s with world := w' } := by
  rw [executeTransaction, bind_of_ok (get_apply _)]
  cases ht with
  | message hto hcode =>
    have hsend : sendValue sender tx.to tx.value s = _ := sendValue_of_ok hpay
    rw [if_neg hto, if_pos hcode, executeContractCall, bind_of_ok (get_apply _)]
    exact (bind_of_ok hsend).trans rfl
  | @creation a hto ha =>
    have hsend : sendValue sender a tx.value { s with world := s.world.addBalance a 0 } = _ :=
      sendValue_of_ok hpay
    rw [if_pos hto, executeCreate, ha, bind_of_ok (show attempt (.ok a) s = .ok a s from rfl),
      modifyWorld, bind_of_ok (modify_apply _ _)]
    exact (bind_of_ok hsend).trans rfl

theorem runFrame_of_ok (hc : runLoop env fuel (t.start tx sender gas w s.log) = .ok () evm) :
    runFrame env fuel t.kind t.code (t.context tx sender gas) t.storage { s with world := w } =
      .ok (some (
          { success := !evm.reverted, returnData := evm.returnData,
            gasUsed := gas - evm.gasRemaining, gasRemaining := evm.gasRemaining }, evm))
        { world := evm.worldState.getD w
          log := evm.log ++ [.leave t.kind (if !evm.reverted then .success else .failure)] } := by
  rw [runFrame_eq, execute, hc]
  rfl

theorem runFrame_of_outOfGas {needed remaining : Int}
    (hc : runLoop env fuel (t.start tx sender gas w s.log) =
      .error (.raised (.evmError (.outOfGas needed remaining))) evm) :
    runFrame env fuel t.kind t.code (t.context tx sender gas) t.storage { s with world := w } =
      .ok none { world := evm.worldState.getD w, log := evm.log ++ [.leave t.kind .outOfGas] } := by
  rw [runFrame_eq, execute, hc]
  rfl

theorem runFrame_of_error {e : Abort}
    (hc : runLoop env fuel (t.start tx sender gas w s.log) = .error e evm) :
    (∃ s₁, runFrame env fuel t.kind t.code (t.context tx sender gas) t.storage
        { s with world := w } = .ok none s₁) ∨
      ∃ e s₁, runFrame env fuel t.kind t.code (t.context tx sender gas) t.storage
        { s with world := w } = .error e s₁ := by
  have hframe := frame_end env fuel tx sender gas s t w
  rw [hc] at hframe
  generalize runFrame env fuel t.kind t.code (t.context tx sender gas) t.storage
    { s with world := w } = r at hframe ⊢
  cases hframe with
  | returned hc => cases hc
  | @outOfGas s₁ => exact .inl ⟨s₁, rfl⟩
  | @raised e s₁ => exact .inr ⟨e, s₁, rfl⟩

theorem applyTransaction_of_ok {x : ExecutionResult}
    (hvalid : Valid env tx s.world blockGasLimit sender)
    (h : executeTransaction env fuel tx sender tx.executionGas
      { s with world := s.world.bill tx sender } = .ok x s₁) :
    applyTransaction env fuel tx blockGasLimit s =
      settleTransaction tx sender s.world.snapshot x s₁ := by
  rw [applyTransaction_of_valid hvalid, applyBody_eq hvalid, bind_of_ok h]
  cases hx : x.success with
  | false => rw [settleTransaction_failure hvalid hx]
  | true => rw [settleTransaction_success hx]

section Ends

variable (hvalid : Valid env tx s.world blockGasLimit sender)
  (ht : Opens env tx sender (s.world.bill tx sender) t w)
  (hpay : payValue w sender t.address tx.value = .ok w')

include hvalid ht hpay

/-- The frame ends by itself and has not reverted: its changes are committed. -/
theorem applyTransaction_of_success
    (hc : runLoop env fuel (t.start tx sender tx.executionGas w' s.log) = .ok () evm)
    (hreverted : evm.reverted = false) :
    applyTransaction env fuel tx blockGasLimit s = .ok
      { success := true, returnData := evm.returnData, gasUsed := tx.gas - evm.gasRemaining,
        gasRemaining := evm.gasRemaining,
        contractAddress := if t.kind = .creation then some t.address else none }
      { world := (t.commit evm.returnData evm.storage (evm.worldState.getD w')).refund tx sender
          evm.gasRemaining
        log := evm.log ++ [.leave t.kind .success] } := by
  have hframe := runFrame_of_ok hc
  rw [hreverted] at hframe
  have hexec : executeTransaction env fuel tx sender tx.executionGas
      { s with world := s.world.bill tx sender } = .ok
        { success := true, returnData := evm.returnData,
          gasUsed := tx.executionGas - evm.gasRemaining, gasRemaining := evm.gasRemaining,
          contractAddress := if t.kind = .creation then some t.address else none }
        { world := t.commit evm.returnData evm.storage (evm.worldState.getD w')
          log := evm.log ++ [.leave t.kind .success] } := by
    refine (executeTransaction_of_opens ht hpay).trans ((bind_of_ok hframe).trans ?_)
    cases ht <;> rfl
  rw [applyTransaction_of_ok hvalid hexec, settleTransaction_success rfl]

/-- The frame ends by itself and has reverted: the sender is billed for all gas. -/
theorem applyTransaction_of_reverted
    (hc : runLoop env fuel (t.start tx sender tx.executionGas w' s.log) = .ok () evm)
    (hreverted : evm.reverted = true) :
    applyTransaction env fuel tx blockGasLimit s = .ok
      { success := false, returnData := evm.returnData, gasUsed := tx.gas, gasRemaining := 0,
        error := some "execution failed" }
      { world := s.world.bill tx sender, log := evm.log ++ [.leave t.kind .failure] } := by
  have hframe := runFrame_of_ok hc
  rw [hreverted] at hframe
  have hexec : executeTransaction env fuel tx sender tx.executionGas
      { s with world := s.world.bill tx sender } = .ok
        { success := false, returnData := evm.returnData,
          gasUsed := tx.executionGas - evm.gasRemaining, gasRemaining := evm.gasRemaining }
        { world := evm.worldState.getD w'
          log := evm.log ++ [.leave t.kind .failure] } := by
    refine (executeTransaction_of_opens ht hpay).trans ((bind_of_ok hframe).trans ?_)
    cases ht <;> rfl
  rw [applyTransaction_of_ok hvalid hexec, settleTransaction_failure hvalid rfl]

/-- `OutOfGas` is caught where the frame was started: the sender is billed for all gas. -/
theorem applyTransaction_of_none
    (hframe : runFrame env fuel t.kind t.code (t.context tx sender tx.executionGas) t.storage
      { s with world := w' } = .ok none s₁) :
    applyTransaction env fuel tx blockGasLimit s = .ok
      { success := false, returnData := [], gasUsed := tx.gas, gasRemaining := 0,
        error := some "execution failed" }
      { world := s.world.bill tx sender, log := s₁.log } := by
  have hexec : executeTransaction env fuel tx sender tx.executionGas
      { s with world := s.world.bill tx sender } = .ok
        { success := false, returnData := [], gasUsed := tx.executionGas, gasRemaining := 0 }
        s₁ := by
    refine (executeTransaction_of_opens ht hpay).trans ((bind_of_ok hframe).trans ?_)
    cases ht <;> rfl
  rw [applyTransaction_of_ok hvalid hexec, settleTransaction_failure hvalid rfl]

/-- The frame raises: the transaction fails, and the sender is billed for all gas. -/
theorem billed_of_error {e : Abort} {result : TransactionResult}
    (hc : runLoop env fuel (t.start tx sender tx.executionGas w' s.log) = .error e evm)
    (h : applyTransaction env fuel tx blockGasLimit s = .ok result s') :
    result.success = false ∧ result.gasUsed = tx.gas ∧ s'.world = s.world.bill tx sender := by
  obtain ⟨s₁, hframe⟩ | ⟨e, s₁, hframe⟩ := runFrame_of_error hc
  · rw [applyTransaction_of_none hvalid ht hpay hframe] at h
    cases h
    exact ⟨rfl, rfl, rfl⟩
  · have hopens : executeTransaction env fuel tx sender tx.executionGas
        { s with world := s.world.bill tx sender } = _ := executeTransaction_of_opens ht hpay
    rw [applyTransaction_of_valid hvalid, applyBody_eq hvalid,
      bind_of_error (hopens.trans (bind_of_error hframe))] at h
    cases e with
    | outOfFuel => cases h
    | raised e =>
      dsimp only at h
      rw [applyFailed_eq hvalid] at h
      cases h
      exact ⟨rfl, rfl, rfl⟩

/-- An exception that is not caught before the end: it becomes the error of the result. -/
theorem applyTransaction_of_exception {e : PyException}
    (hc : runLoop env fuel (t.start tx sender tx.executionGas w' s.log) = .error (.raised e) evm)
    (hother : ∀ needed remaining,
      Abort.raised e = .raised (.evmError (.outOfGas needed remaining)) → False) :
    applyTransaction env fuel tx blockGasLimit s = .ok
      { success := false, returnData := [], gasUsed := tx.gas, gasRemaining := 0,
        error := some (failureText e) }
      { world := s.world.bill tx sender, log := evm.log ++ [.leave t.kind .raised] } := by
  have hframe : runFrame env fuel t.kind t.code (t.context tx sender tx.executionGas) t.storage
      { s with world := w' } = .error (.raised e)
        { world := evm.worldState.getD w', log := evm.log ++ [.leave t.kind .raised] } := by
    rw [runFrame_eq, execute, hc, conclude.eq_3 _ _ _ hother, joinOutcome.eq_3 _ _ _ hother]
    rfl
  have hopens : executeTransaction env fuel tx sender tx.executionGas
      { s with world := s.world.bill tx sender } = _ := executeTransaction_of_opens ht hpay
  rw [applyTransaction_of_valid hvalid, applyBody_eq hvalid,
    bind_of_error (hopens.trans (bind_of_error hframe))]
  exact applyFailed_eq hvalid _

end Ends

end Ethereum
