import Ethereum.Core.TopFrame
import Ethereum.Evm.Leaf
import Ethereum.Evm.Spending

/-! What an accepted transaction comes to whose frame takes a known amount of gas. -/
namespace Ethereum

open Stateful

/-- What is returned for a transaction that is billed for all its gas. -/
def Transaction.failed (tx : Transaction) (returnData : Bytes) : TransactionResult where
  success := false
  returnData := returnData
  gasUsed := tx.gas
  gasRemaining := 0
  error := some "execution failed"

/-- What is returned for a transaction whose frame has succeeded for `cost` gas. -/
def Transaction.succeeded (tx : Transaction) (cost : Int) (returnData : Bytes)
    (contractAddress : Option Bytes) : TransactionResult where
  success := true
  returnData := returnData
  gasUsed := calculateIntrinsicGas tx.data + cost
  gasRemaining := tx.executionGas - cost
  contractAddress := contractAddress

/-- The three ends of a transaction whose frame `t` takes `cost` gas. -/
inductive Exact (tx : Transaction) (sender : Bytes) (t : TopFrame) (s : TxState) (w : WorldState)
    (Q : Post) (cost : Int) : EStateM.Result Abort TxState TransactionResult → Prop
  | unpaid {s'} (hunpaid : tx.executionGas < cost) (hworld : s'.world = s.world.bill tx sender) :
      Exact tx sender t s w Q cost (.ok (tx.failed []) s')
  | reverted {s' returnData storage} (hpaid : cost ≤ tx.executionGas)
      (hQ : Q true returnData storage) (hworld : s'.world = s.world.bill tx sender) :
      Exact tx sender t s w Q cost (.ok (tx.failed returnData) s')
  | committed {s' returnData storage} (hpaid : cost ≤ tx.executionGas)
      (hQ : Q false returnData storage)
      (hworld : s'.world = (t.commit returnData storage w).refund tx sender
        (tx.executionGas - cost)) :
      Exact tx sender t s w Q cost (.ok (tx.succeeded cost returnData
        (if t.kind = .creation then some t.address else none)) s')

variable {env : Env} {fuel : Nat} {tx : Transaction} {sender : Bytes} {blockGasLimit : Int}
  {s : TxState} {t : TopFrame} {w w' : WorldState} {Q : Post} {cost : Int}

theorem exact_of_spent (hvalid : Valid env tx s.world blockGasLimit sender)
    (ht : Opens env tx sender (s.world.bill tx sender) t w)
    (hpay : payValue w sender t.address tx.value = .ok w')
    (hends : Ends (runLoop env fuel (t.start tx sender tx.executionGas w' s.log)))
    (hspent : Setting.Spent ⟨t.context tx sender tx.executionGas, some w'⟩ Q cost tx.executionGas
      (runLoop env fuel (t.start tx sender tx.executionGas w' s.log))) :
    Exact tx sender t s w' Q cost (applyTransaction env fuel tx blockGasLimit s) := by
  generalize hc : runLoop env fuel (t.start tx sender tx.executionGas w' s.log) = c at hends hspent
  cases hspent with
  | cut => exact absurd rfl (hends _ _ rfl)
  | unpaid hunpaid =>
    rw [applyTransaction_of_none hvalid ht hpay (runFrame_of_outOfGas hc)]
    exact .unpaid hunpaid rfl
  | @paid evm hpaid hremaining hworld hQ =>
    cases hreverted : evm.reverted with
    | true =>
      rw [hreverted] at hQ
      rw [applyTransaction_of_reverted hvalid ht hpay hc hreverted]
      exact .reverted hpaid hQ rfl
    | false =>
      rw [hreverted] at hQ
      have hused : tx.gas - evm.gasRemaining = calculateIntrinsicGas tx.data + cost := by
        rw [hremaining, Transaction.executionGas]
        omega
      rw [applyTransaction_of_success hvalid ht hpay hc hreverted, hused, hremaining, hworld]
      exact .committed hpaid hQ rfl

section Frames

variable {code : Bytes}

/-- A call of bytecode that starts no frames. -/
theorem exact_of_takes (hvalid : Valid env tx s.world blockGasLimit sender) (hto : tx.to ≠ [])
    (hcode : (s.world.getAccount tx.to).code = code) (hne : code ≠ []) (hleaf : Leaf code)
    (hfuel : tx.executionGas.toNat + 2 ≤ fuel)
    (htakes : ∀ F : Setting, F.context.caller = sender → F.context.data = tx.data →
      F.Takes env code 0 [] .empty (s.world.getAccount tx.to).storage cost Q) :
    ∃ w', payValue (s.world.bill tx sender) sender tx.to tx.value = .ok w' ∧
      Exact tx sender (messageFrame tx (s.world.bill tx sender)) s w' Q cost
        (applyTransaction env fuel tx blockGasLimit s) := by
  have hbilled : ((s.world.bill tx sender).getAccount tx.to).code = code :=
    (field_bill Account.code (fun _ _ _ => rfl) tx.to).trans hcode
  have hstorage : ((s.world.bill tx sender).getAccount tx.to).storage =
      (s.world.getAccount tx.to).storage := field_bill Account.storage (fun _ _ _ => rfl) tx.to
  have ht : Opens env tx sender (s.world.bill tx sender)
      (messageFrame tx (s.world.bill tx sender)) _ := .message hto (hbilled ▸ hne)
  obtain ⟨w', hpay⟩ := hvalid.payValue_bill tx.to
  have hstart : (messageFrame tx (s.world.bill tx sender)).start tx sender tx.executionGas w'
      s.log = EVM.init code
        ((messageFrame tx (s.world.bill tx sender)).context tx sender tx.executionGas)
        (s.world.getAccount tx.to).storage (some w') (s.log ++ [.enter .message
          ((messageFrame tx (s.world.bill tx sender)).context tx sender tx.executionGas)]) := by
    rw [← hbilled, ← hstorage]
    rfl
  refine ⟨w', hpay, exact_of_spent hvalid ht hpay ?_ ?_⟩
  · rw [hstart]
    exact runLoop_ends_of_leaf fuel _ hleaf hfuel
  · rw [hstart]
    refine (htakes ⟨_, some w'⟩ ?_ ?_).run tx.executionGas _ _ (run_runLoop env fuel _)
    · rfl
    · rfl

end Frames

end Ethereum
