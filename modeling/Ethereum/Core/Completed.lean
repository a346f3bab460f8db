import Ethereum.Core.Apply
import Ethereum.Evm.Gas

/-! Accepted transactions on the ledger: a bill, a payment, the moves of the frames and
a refund. -/
namespace Ethereum

open Stateful Relation

/-- How a successful transaction gets from `w` to `w'`, with the frames of `log`. -/
inductive Completed (tx : Transaction) (sender : Bytes) (log : List Event) (gasRemaining : Int)
    (w w' : WorldState) : Prop
  | intro {w₁ w₂ w₃ : WorldState} {recipient : Bytes}
      (htouch : Moves (fun _ => False) (w.bill tx sender) w₁)
      (hpay : payValue w₁ sender recipient tx.value = .ok w₂)
      (hmoves : Moves (· ∈ entered log) w₂ w₃)
      (hgas : 0 ≤ gasRemaining)
      (hrefund : w' = w₃.refund tx sender gasRemaining)

variable {env : Env} {fuel : Nat} {tx : Transaction} {sender : Bytes} {gas blockGasLimit : Int}
  {s s' : TxState} {w w' : WorldState}

theorem Opens.touch {t : TopFrame} (h : Opens env tx sender w t w') :
    Moves (fun _ => False) w w' := by
  cases h with
  | message _ _ => exact .refl
  | creation _ _ => exact .single .touch

theorem entered_start (t : TopFrame) (log : List Event) :
    t.address ∈ entered (t.start tx sender gas w log).log :=
  mem_entered.mpr
    ⟨t.kind, _, List.mem_append_right _ (List.mem_singleton_self _), rfl⟩

theorem moves_topCommit {S : Bytes → Prop} (t : TopFrame) (returnData : Bytes)
    (storage : Dict Int Int) (w : WorldState) (hS : S t.address) :
    Moves S w (t.commit returnData storage w) := by
  unfold TopFrame.commit
  split
  · exact (ReflTransGen.single (.deploy hS)).trans (.single (.persist hS))
  · exact .single (.persist hS)

/-- What the frame of a transaction has done to the world state when it succeeds. -/
theorem moves_topFrame {t : TopFrame} {evm : EVM} {log : List Event}
    (h : Run env (t.start tx sender gas w s.log) (.ok () evm)) (hlog : evm.log <+: log) :
    Moves (· ∈ entered log) w
      (t.commit evm.returnData evm.storage (evm.worldState.getD w)) := by
  have hp := run_progress h
  have hmem : t.address ∈ entered (t.start tx sender gas w s.log).log := entered_start t s.log
  obtain ⟨w₁, hw₁, hm⟩ := hp.world hmem w rfl
  have hlast : t.address ∈ entered log := entered_mono hlog (entered_mono hp.log hmem)
  rw [show evm.worldState = some w₁ from hw₁]
  exact (hm.mono fun _ => entered_mono hlog).trans (moves_topCommit t _ _ _ hlast)

theorem completed_of_executed {x : ExecutionResult} {s₁ : TxState} (hgas : 0 ≤ gas)
    (h : Executed env fuel tx sender gas { s with world := w.bill tx sender } (.ok x s₁))
    (hx : x.success = true) :
    Completed tx sender s₁.log x.gasRemaining w
      (s₁.world.refund tx sender x.gasRemaining) := by
  cases h with
  | transferred hlog hpay _ hremaining =>
    exact ⟨.refl, hpay, .refl, hremaining ▸ hgas, rfl⟩
  | @succeeded t w₁ w₂ c evm _ _ ht hpay hc hok hlog hworld _ hremaining =>
    have hrun : Run env (t.start tx sender gas w₂ s.log) (.ok () evm) := by
      rw [← hok, hc]
      exact run_runLoop _ _ _
    have hnonneg : 0 ≤ evm.gasRemaining := run_gas_nonneg hrun hgas evm rfl
    refine ⟨ht.touch, hpay, ?_, hremaining ▸ hnonneg, rfl⟩
    rw [hworld, hlog]
    exact moves_topFrame hrun (List.prefix_append _ _)
  | failed _ _ _ _ hfailed _ =>
    rw [hfailed x s₁ rfl] at hx
    cases hx

theorem Valid.executionGas_nonneg (h : Valid env tx w blockGasLimit sender) :
    0 ≤ tx.executionGas := by
  have := h.intrinsicGas
  unfold Transaction.executionGas
  omega

/-- An accepted transaction has failed and is billed, or has completed. -/
inductive Accepted (env : Env) (tx : Transaction) (blockGasLimit : Int) (s s' : TxState)
    (result : TransactionResult) : Prop
  | failed {sender : Bytes} (hvalid : Valid env tx s.world blockGasLimit sender)
      (hworld : s'.world = s.world.bill tx sender) (hsuccess : result.success = false)
      (hused : result.gasUsed = tx.gas)
  | completed {sender : Bytes} (hvalid : Valid env tx s.world blockGasLimit sender)
      (hworld : Completed tx sender s'.log result.gasRemaining s.world s'.world)
      (hsuccess : result.success = true)
      (hused : result.gasUsed = tx.gas - result.gasRemaining)

theorem accepted_of_applyTransaction {result : TransactionResult}
    (h : applyTransaction env fuel tx blockGasLimit s = .ok result s') :
    Accepted env tx blockGasLimit s s' result := by
  have happlied := applyTransaction_applied env fuel tx blockGasLimit s
  rw [h] at happlied
  cases happlied with
  | failed hvalid hexec hfailed hlog hworld hsuccess hused hremaining =>
    exact .failed hvalid hworld hsuccess hused
  | @succeeded sender x s₁ _ _ hvalid hexec hx hlog hworld hsuccess hused hremaining =>
    have hcompleted :=
      completed_of_executed hvalid.executionGas_nonneg (executed_of_eq hexec) hx
    refine .completed hvalid ?_ hsuccess (by rw [hused, hremaining])
    rw [hlog, hremaining, hworld]
    exact hcompleted

theorem log_prefix_executed {r : EStateM.Result Abort TxState ExecutionResult}
    (h : Executed env fuel tx sender gas s r) : s.log <+: (final r).log := by
  cases h with
  | refused hlog => exact ⟨[], (List.append_nil _).trans hlog.symm⟩
  | transferred hlog => exact ⟨[], (List.append_nil _).trans hlog.symm⟩
  | @succeeded t w₁ w₂ c evm _ s₁ _ _ hc hok hlog _ _ _ =>
    have hrun := run_runLoop env fuel (t.start tx sender gas w₂ s.log)
    rw [← hc, hok] at hrun
    rw [final_ok, hlog]
    exact ((List.prefix_append _ _).trans (run_progress hrun).log).trans
      (List.prefix_append _ _)
  | @failed t w₁ w₂ c _ r _ _ hc hlog _ _ _ =>
    have hrun := run_runLoop env fuel (t.start tx sender gas w₂ s.log)
    rw [← hc] at hrun
    rw [hlog]
    exact ((List.prefix_append _ _).trans (run_progress hrun).log).trans
      (List.prefix_append _ _)

theorem log_prefix_of_applyTransaction {result : TransactionResult}
    (h : applyTransaction env fuel tx blockGasLimit s = .ok result s') : s.log <+: s'.log := by
  have happlied := applyTransaction_applied env fuel tx blockGasLimit s
  rw [h] at happlied
  cases happlied with
  | @failed sender r _ _ _ hexec _ hlog _ _ _ _ =>
    have hprefix := log_prefix_executed (executed_of_eq hexec)
    rwa [hlog]
  | @succeeded sender x s₁ _ _ _ hexec _ hlog _ _ _ _ =>
    have hprefix := log_prefix_executed (executed_of_eq hexec)
    rwa [hlog]

end Ethereum
