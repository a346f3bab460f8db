import Ethereum.Core.TopFrame
import Ethereum.Evm.Callee
import Ethereum.Evm.Gas

/-! Where the gas goes that a frame has left when it reverts. -/
namespace Ethereum

open Stateful

/-- The parent has back what its child has not used. -/
def GivesBack (before after : EVM) (result : ExecutionResult) : Prop :=
  after.gasRemaining = before.gasRemaining - result.gasUsed

/-- The sender has back the price of the `remaining` gas of its frame, and is not charged for it. -/
structure Refunded (tx : Transaction) (sender : Bytes) (remaining : Int) (s s' : TxState)
    (result : TransactionResult) : Prop where
  balance : s'.world.getBalance sender =
    s.world.getBalance sender - tx.gas * tx.gasPrice + remaining * tx.gasPrice
  gasUsed : result.gasUsed = tx.gas - remaining

variable {env : Env} {fuel : Nat} {tx : Transaction} {sender : Bytes} {blockGasLimit : Int}
  {s s' : TxState} {evm evm' child : EVM} {p : Pending} {result : ExecutionResult}

/-- `CALL` charges what it has forwarded for a child that failed, `CREATE` what was used. -/
theorem charge_of_failure (hgas : ChildGas evm p) (h : execute env fuel p.child = .ok result child)
    (hsuccess : result.success = false) :
    result.gasUsed = p.gas - child.gasRemaining ∧
      p.charge (.ok result child) = if p.kind = .create then result.gasUsed else p.gas := by
  obtain ⟨-, hresult⟩ := conclude_eq_ok h
  refine ⟨by rw [hresult]; rfl, ?_⟩
  cases p with
  | call q =>
    have hforwarded := hgas.call q rfl
    simp [Pending.charge, hsuccess, Pending.kind, hforwarded]
  | create q => rfl

theorem givesBack_iff (hstack : evm.executionStack.length ≤ maxStackDepth)
    (hrun : evm.running = true) (hbegin : begin env evm = .ok (some p) evm')
    (h : execute env fuel p.child = .ok result child) (hsuccess : result.success = false) :
    ∃ evm'', iterate env (execute env fuel) evm = .ok () evm'' ∧
      (GivesBack evm' evm'' result ↔ p.kind = .create ∨ child.gasRemaining = 0) := by
  have hcaught : Caught (execute env fuel p.child) := by
    rw [h]
    exact .inl (by simp [endingOf, hsuccess])
  have hcontinues := continues_of_caught hstack hrun hbegin hcaught
  obtain ⟨hused, hcharge⟩ := charge_of_failure (childGas_of_begin hrun hbegin) h hsuccess
  refine ⟨_, hcontinues.completes, ?_⟩
  rw [GivesBack, hcontinues.gasRemaining, h, hcharge]
  by_cases hkind : p.kind = .create
  · simp [hkind]
  · rw [if_neg hkind, hused]
    constructor
    · intro hback
      exact .inr (by omega)
    · intro hback
      have := hback.resolve_left hkind
      omega

theorem refunded_iff {t : TopFrame} {w w' : WorldState}
    (hvalid : Valid env tx s.world blockGasLimit sender)
    (ht : Opens env tx sender (s.world.bill tx sender) t w)
    (hpay : payValue w sender t.address tx.value = .ok w')
    (hc : runLoop env fuel (t.start tx sender tx.executionGas w' s.log) = .ok () evm)
    (hreverted : evm.reverted = true) :
    ∃ result s', applyTransaction env fuel tx blockGasLimit s = .ok result s' ∧
      (Refunded tx sender evm.gasRemaining s s' result ↔ evm.gasRemaining = 0) := by
  refine ⟨_, _, applyTransaction_of_reverted hvalid ht hpay hc hreverted, ?_⟩
  constructor
  · intro hrefunded
    have hused : tx.gas = tx.gas - evm.gasRemaining := hrefunded.gasUsed
    omega
  · intro hzero
    refine ⟨?_, ?_⟩
    · rw [getBalance_bill, hzero, zero_mul, add_zero]
    · rw [hzero, sub_zero]

/-- A frame that reverts gives its remaining gas back to the parent exactly when `CREATE` has
started it, or none is left, and to the sender of its transaction only when none is left. -/
theorem revert_returns_gas_iff (env : Env) (fuel : Nat) :
    (∀ (parent evm child : EVM) (p : Pending) (result : ExecutionResult),
      parent.executionStack.length ≤ maxStackDepth → parent.running = true →
      begin env parent = .ok (some p) evm → execute env fuel p.child = .ok result child →
      result.success = false →
      ∃ evm', iterate env (execute env fuel) parent = .ok () evm' ∧
        (GivesBack evm evm' result ↔ p.kind = .create ∨ child.gasRemaining = 0)) ∧
    ∀ (tx : Transaction) (blockGasLimit : Int) (s : TxState) (sender : Bytes) (t : TopFrame)
      (w w' : WorldState) (evm : EVM), Valid env tx s.world blockGasLimit sender →
      Opens env tx sender (s.world.bill tx sender) t w →
      payValue w sender t.address tx.value = .ok w' →
      runLoop env fuel (t.start tx sender tx.executionGas w' s.log) = .ok () evm →
      evm.reverted = true →
      ∃ result s', applyTransaction env fuel tx blockGasLimit s = .ok result s' ∧
        (Refunded tx sender evm.gasRemaining s s' result ↔ evm.gasRemaining = 0) := by
  refine ⟨?_, ?_⟩
  · intro parent evm child p result hstack hrun hbegin h hsuccess
    exact givesBack_iff hstack hrun hbegin h hsuccess
  · intro tx blockGasLimit s sender t w w' evm hvalid ht hpay hc hreverted
    exact refunded_iff hvalid ht hpay hc hreverted

section Sample

/-- Bytecode that reverts with no data. -/
def revertCode : Bytes := [0x60, 0, 0x60, 0, 0xfd]

/-- The sample contract reverts. -/
def revertState : TxState where
  world := sampleWorld revertCode []

/-- The frame of the sample transaction in `revertState`. -/
def revertFrame : TopFrame := messageFrame sampleTransaction revertState.world

theorem exists_revertFrame : ∃ w' evm,
    payValue (revertState.world.bill sampleTransaction sampleSender) sampleSender sampleContract
      sampleTransaction.value = .ok w' ∧
    runLoop sampleEnv 100 (revertFrame.start sampleTransaction sampleSender 79000 w' []) =
      .ok () evm ∧ evm.reverted = true ∧ evm.gasRemaining = 78994 := by
  have hruns : (payValue (revertState.world.bill sampleTransaction sampleSender) sampleSender
      sampleContract sampleTransaction.value).toOption.elim false (fun w' =>
        returns (fun _ evm => decide (evm.reverted = true ∧ evm.gasRemaining = 78994))
          (runLoop sampleEnv 100 (revertFrame.start sampleTransaction sampleSender 79000 w' []))) =
      true := by decide +kernel
  cases hpay : payValue (revertState.world.bill sampleTransaction sampleSender) sampleSender
      sampleContract sampleTransaction.value with
  | error message =>
    rw [hpay] at hruns
    cases hruns
  | ok w' =>
    rw [hpay, Except.toOption, Option.elim_some] at hruns
    obtain ⟨_, evm, hc, hp⟩ := exists_of_returns hruns
    obtain ⟨hreverted, hgas⟩ := of_decide_eq_true hp
    exact ⟨w', evm, rfl, hc, hreverted, hgas⟩

/-- The transaction is charged for the gas that its frame has left. -/
theorem revert_keeps_gas : ∃ w' evm result s',
    payValue (revertState.world.bill sampleTransaction sampleSender) sampleSender sampleContract
      sampleTransaction.value = .ok w' ∧
    runLoop sampleEnv 100 (revertFrame.start sampleTransaction sampleSender 79000 w' []) =
      .ok () evm ∧ evm.reverted = true ∧ evm.gasRemaining = 78994 ∧
    applyTransaction sampleEnv 100 sampleTransaction 100000 revertState = .ok result s' ∧
    ¬ Refunded sampleTransaction sampleSender evm.gasRemaining revertState s' result := by
  obtain ⟨w', evm, hpay, hc, hreverted, hgas⟩ := exists_revertFrame
  obtain ⟨result, s', h, hp⟩ := exists_of_returns
    (p := fun (result : TransactionResult) (_ : TxState) => decide (result.gasUsed = 100000))
    (r := applyTransaction sampleEnv 100 sampleTransaction 100000 revertState)
    (by decide +kernel)
  refine ⟨w', evm, result, s', hpay, hc, hreverted, hgas, h, fun hrefunded => ?_⟩
  have hused := hrefunded.gasUsed
  rw [of_decide_eq_true hp, hgas] at hused
  cases hused

theorem revert_returns_gas_iff_sample :
    (∃ p evm evm' result child, begin sampleEnv (callingFrame 0 revertCode) = .ok (some p) evm ∧
      execute sampleEnv 50 p.child = .ok result child ∧
      iterate sampleEnv (execute sampleEnv 50) (callingFrame 0 revertCode) = .ok () evm' ∧
      (GivesBack evm evm' result ↔ p.kind = .create ∨ child.gasRemaining = 0)) ∧
    ∃ (evm : EVM) (result : TransactionResult) (s' : TxState), evm.gasRemaining = 78994 ∧
      applyTransaction sampleEnv 100 sampleTransaction 100000 revertState = .ok result s' ∧
      (Refunded sampleTransaction sampleSender evm.gasRemaining revertState s' result ↔
        evm.gasRemaining = 0) := by
  constructor
  · obtain ⟨q, evm, hbegin, hq⟩ := exists_of_returns
      (p := fun (q : Option Pending) _ => q.elim false fun p =>
        returns (fun result _ => !result.success) (execute sampleEnv 50 p.child))
      (r := begin sampleEnv (callingFrame 0 revertCode)) (by decide +kernel)
    cases q with
    | none => cases hq
    | some p =>
      obtain ⟨result, child, hexec, hsuccess⟩ := exists_of_returns hq
      obtain ⟨evm', h, hiff⟩ := (revert_returns_gas_iff sampleEnv 50).1 _ _ _ _ _ (by decide)
        (by decide) hbegin hexec (by simpa using hsuccess)
      exact ⟨p, evm, evm', result, child, hbegin, hexec, h, hiff⟩
  · obtain ⟨w', evm, hpay, hc, hreverted, hgas⟩ := exists_revertFrame
    have hvalid : Valid sampleEnv sampleTransaction revertState.world 100000 sampleSender :=
      validateTransaction_eq_ok_iff.mp (by decide +kernel)
    obtain ⟨result, s', h, hiff⟩ := (revert_returns_gas_iff sampleEnv 100).2 sampleTransaction
      100000 revertState sampleSender revertFrame _ w' evm hvalid
      (.message (by decide) (by decide +kernel)) hpay hc hreverted
    exact ⟨evm, result, s', hgas, h, hiff⟩

end Sample

end Ethereum
