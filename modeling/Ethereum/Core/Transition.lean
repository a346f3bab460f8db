import Ethereum.Core.Completed

/-! What an accepted transaction comes to, with the run of its frame. -/
namespace Ethereum

open Stateful

/-- The frame that a transaction starts when it is valid and its value can be paid. -/
inductive Starts (env : Env) (tx : Transaction) (blockGasLimit : Int) (s : TxState) : EVM → Prop
  | intro {sender t w w'} (hvalid : Valid env tx s.world blockGasLimit sender)
      (ht : Opens env tx sender (s.world.bill tx sender) t w)
      (hpay : payValue w sender t.address tx.value = .ok w') :
      Starts env tx blockGasLimit s (t.start tx sender tx.executionGas w' s.log)

/-- The log of a transaction without a frame, or that of its frame and one event more. -/
inductive LogOf (env : Env) (tx : Transaction) (blockGasLimit : Int) (s : TxState) :
    List Event → Prop
  | same : LogOf env tx blockGasLimit s s.log
  | frame {start c kind ending} (hs : Starts env tx blockGasLimit s start)
      (hc : Run env start c) : LogOf env tx blockGasLimit s ((final c).log ++ [.leave kind ending])

inductive Transition (env : Env) (tx : Transaction) (blockGasLimit : Int) (s s' : TxState)
    (result : TransactionResult) : Prop
  | failed {sender} (hvalid : Valid env tx s.world blockGasLimit sender)
      (hworld : s'.world = s.world.bill tx sender)
      (hlog : LogOf env tx blockGasLimit s s'.log) (hsuccess : result.success = false)
      (hused : result.gasUsed = tx.gas) (hremaining : result.gasRemaining = 0)
  | transferred {sender w} (hvalid : Valid env tx s.world blockGasLimit sender)
      (hpay : payValue (s.world.bill tx sender) sender tx.to tx.value = .ok w)
      (hworld : s'.world = w.refund tx sender tx.executionGas) (hlog : s'.log = s.log)
      (hsuccess : result.success = true) (hused : result.gasUsed = tx.gas - tx.executionGas)
      (hremaining : result.gasRemaining = tx.executionGas)
  | executed {sender t w w' evm} (hvalid : Valid env tx s.world blockGasLimit sender)
      (ht : Opens env tx sender (s.world.bill tx sender) t w)
      (hpay : payValue w sender t.address tx.value = .ok w')
      (hrun : Run env (t.start tx sender tx.executionGas w' s.log) (.ok () evm))
      (hworld : s'.world = (t.commit evm.returnData evm.storage (evm.worldState.getD w')).refund
        tx sender evm.gasRemaining)
      (hlog : s'.log = evm.log ++ [.leave t.kind .success])
      (hsuccess : result.success = true) (hused : result.gasUsed = tx.gas - evm.gasRemaining)
      (hremaining : result.gasRemaining = evm.gasRemaining) (hreverted : evm.reverted = false)

variable {env : Env} {fuel : Nat} {tx : Transaction} {sender : Bytes} {blockGasLimit : Int}
  {s s' : TxState} {result : TransactionResult}

theorem Transition.valid (h : Transition env tx blockGasLimit s s' result) :
    ∃ sender, Valid env tx s.world blockGasLimit sender := by
  cases h with
  | failed hvalid => exact ⟨_, hvalid⟩
  | transferred hvalid => exact ⟨_, hvalid⟩
  | executed hvalid => exact ⟨_, hvalid⟩

theorem logOf_executed {r : EStateM.Result Abort TxState ExecutionResult}
    (hvalid : Valid env tx s.world blockGasLimit sender)
    (h : Executed env fuel tx sender tx.executionGas
      { s with world := s.world.bill tx sender } r) :
    LogOf env tx blockGasLimit s (final r).log := by
  cases h with
  | refused hlog => exact hlog ▸ .same
  | transferred hlog => exact hlog ▸ .same
  | @succeeded t w w' c evm _ s₁ ht hpay hc hok hlog =>
    have hrun := run_runLoop env fuel (t.start tx sender tx.executionGas w' s.log)
    rw [← hc, hok] at hrun
    rw [final_ok, hlog]
    exact .frame (.intro hvalid ht hpay) hrun
  | @failed t w w' c ending _ ht hpay hc hlog =>
    have hrun := run_runLoop env fuel (t.start tx sender tx.executionGas w' s.log)
    rw [← hc] at hrun
    rw [hlog]
    exact .frame (.intro hvalid ht hpay) hrun

theorem transition_of_applyTransaction
    (h : applyTransaction env fuel tx blockGasLimit s = .ok result s') :
    Transition env tx blockGasLimit s s' result := by
  have happlied := applyTransaction_applied env fuel tx blockGasLimit s
  rw [h] at happlied
  cases happlied with
  | @failed sender r _ _ hvalid hexec _ hlog hworld hsuccess hused hremaining =>
    have hlogged := logOf_executed hvalid (executed_of_eq hexec)
    exact .failed hvalid hworld (hlog ▸ hlogged) hsuccess hused hremaining
  | @succeeded sender x s₁ _ _ hvalid hexec hx hlog hworld hsuccess hused hremaining =>
    cases executed_of_eq hexec with
    | transferred hs hpay _ hgas =>
      rw [hgas] at hworld hused hremaining
      exact .transferred hvalid hpay hworld (hlog.trans hs) hsuccess hused hremaining
    | @succeeded t w w' c evm _ _ ht hpay hc hok hl hw _ hgas hreverted =>
      have hrun := run_runLoop env fuel (t.start tx sender tx.executionGas w' s.log)
      rw [← hc, hok] at hrun
      rw [hgas] at hworld hused hremaining
      rw [hw] at hworld
      exact .executed hvalid ht hpay hrun hworld (hlog.trans hl) hsuccess hused
        hremaining hreverted
    | failed _ _ _ _ hfailed _ =>
      rw [hfailed x s₁ rfl] at hx
      cases hx

end Ethereum
