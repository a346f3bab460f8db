import Ethereum.Core.Completed

/-! Ether is conserved: only the gas that is paid for leaves the world state. -/
namespace Ethereum

open Stateful

variable {env : Env} {fuel : Nat} {tx : Transaction} {sender : Bytes} {blockGasLimit : Int}
  {s s' : TxState} {w w' : WorldState} {log : List Event} {gasRemaining : Int}

theorem totalBalance_bill :
    (w.bill tx sender).totalBalance = w.totalBalance - tx.gas * tx.gasPrice := by
  rw [WorldState.bill, WorldState.totalBalance_incrementNonce,
    WorldState.totalBalance_modifyAccount]
  ring

theorem solvent_bill (h : w.Solvent) (hle : tx.gas * tx.gasPrice ≤ w.getBalance sender) :
    (w.bill tx sender).Solvent := by
  intro b
  have hb := h b
  unfold WorldState.getBalance WorldState.bill WorldState.incrementNonce at *
  rw [WorldState.getAccount_modifyAccount]
  split
  · next he =>
    subst he
    simp only [WorldState.getAccount_modifyAccount_self]
    omega
  · next he => rwa [WorldState.getAccount_modifyAccount_of_ne he]

theorem totalBalance_refund (h : 0 ≤ gasRemaining * tx.gasPrice) :
    (w.refund tx sender gasRemaining).totalBalance =
      w.totalBalance + gasRemaining * tx.gasPrice := by
  unfold WorldState.refund
  split
  · exact WorldState.totalBalance_addBalance _ _
  · omega

theorem solvent_refund (h : w.Solvent) : (w.refund tx sender gasRemaining).Solvent := by
  unfold WorldState.refund
  split
  · intro b
    have hb := h b
    unfold WorldState.getBalance WorldState.addBalance at *
    rw [WorldState.getAccount_modifyAccount]
    split
    · next he =>
      subst he
      dsimp only
      omega
    · exact hb
  · exact h

theorem totalBalance_completed (h : Completed tx sender log gasRemaining w w')
    (hprice : 0 ≤ tx.gasPrice) :
    w'.totalBalance = w.totalBalance - (tx.gas - gasRemaining) * tx.gasPrice := by
  obtain ⟨htouch, hpay, hmoves, hgas, rfl⟩ := h
  rw [totalBalance_refund (Int.mul_nonneg hgas hprice), hmoves.totalBalance,
    (Moves.pay (S := fun _ => True) trivial hpay).totalBalance, htouch.totalBalance,
    totalBalance_bill]
  ring

theorem solvent_completed (h : Completed tx sender log gasRemaining w w') (hw : w.Solvent)
    (hle : tx.gas * tx.gasPrice ≤ w.getBalance sender) : w'.Solvent := by
  obtain ⟨htouch, hpay, hmoves, hgas, rfl⟩ := h
  have htouched := htouch.solvent (solvent_bill hw hle)
  have hpaid := (Moves.pay (S := fun _ => True) trivial hpay).solvent htouched
  exact solvent_refund (hmoves.solvent hpaid)

theorem Accepted.conserves {result : TransactionResult} (hw : s.world.Solvent)
    (h : Accepted env tx blockGasLimit s s' result) :
    s'.world.totalBalance = s.world.totalBalance - result.gasUsed * tx.gasPrice ∧
      s'.world.Solvent := by
  cases h with
  | failed hvalid hworld _ hused =>
    rw [hworld, hused, totalBalance_bill]
    exact ⟨rfl, solvent_bill hw hvalid.upfront_le⟩
  | completed hvalid hcompleted _ hused =>
    rw [hused]
    exact ⟨totalBalance_completed hcompleted hvalid.nonNegative.gasPrice,
      solvent_completed hcompleted hw hvalid.upfront_le⟩

/-- Whatever code runs and however it ends, the ether in the world state changes by
exactly the price of the gas used, and nobody ends up in debt. -/
theorem applyTransaction_conserves (env : Env) (fuel : Nat) (tx : Transaction)
    (blockGasLimit : Int) (s s' : TxState) (result : TransactionResult) (hw : s.world.Solvent)
    (h : applyTransaction env fuel tx blockGasLimit s = .ok result s') :
    s'.world.totalBalance = s.world.totalBalance - result.gasUsed * tx.gasPrice ∧
      s'.world.Solvent := by
  cases accepted_of_applyTransaction h with
  | failed hvalid hworld _ hused =>
    rw [hworld, hused, totalBalance_bill]
    exact ⟨rfl, solvent_bill hw hvalid.upfront_le⟩
  | completed hvalid hcompleted _ hused =>
    rw [hused]
    exact ⟨totalBalance_completed hcompleted hvalid.nonNegative.gasPrice,
      solvent_completed hcompleted hw hvalid.upfront_le⟩

theorem applyTransaction_conserves_nestedCall : ∃ result s',
    applyTransaction sampleEnv 100 sampleTransaction 100000 sampleState = .ok result s' ∧
      s'.world.totalBalance = sampleState.world.totalBalance - result.gasUsed * 1 ∧
      s'.world.Solvent := by
  obtain ⟨result, s', h, -⟩ := exists_of_returns (p := fun result _ => result.success)
    (r := applyTransaction sampleEnv 100 sampleTransaction 100000 sampleState) (by decide +kernel)
  exact ⟨result, s', h, applyTransaction_conserves _ _ _ _ _ _ _
    (solvent_of_entries (by decide)) h⟩

end Ethereum
