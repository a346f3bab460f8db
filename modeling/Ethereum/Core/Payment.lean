import Ethereum.Core.Completed
import Ethereum.Evm.Bounded

/-! Gas pays for all work that a transaction does, up to one gap: the work of init code
that runs out of gas is not charged to the frame that creates the contract. -/
namespace Ethereum

open Stateful

variable {env : Env} {fuel : Nat} {tx : Transaction} {sender : Bytes} {blockGasLimit : Int}
  {s s' : TxState} {w : WorldState}

/-- A frame has spent at least the costs of its opcodes and those of its descendants. -/
theorem execute_pays {code : Bytes} {context : ExecutionContext} {storage : Dict Int Int}
    {world : Option WorldState} {result : ExecutionResult} {evm : EVM} (h0 : 0 ≤ context.gas)
    (h : execute env fuel (EVM.init code context storage world []) = .ok result evm)
    (hlog : Accounted evm.log) : charged evm.log ≤ result.gasUsed := by
  obtain ⟨hc, rfl⟩ := conclude_eq_ok h
  have hrun := run_runLoop env fuel (EVM.init code context storage world [])
  rw [hc] at hrun
  have hcovered := (run_covered hrun h0 hlog).returned evm rfl
  simp only [EVM.init, charged, List.map_nil, List.sum_nil] at hcovered ⊢
  omega

theorem accounted_of_inRange {evm evm' : EVM} (h : Run env evm (.ok () evm')) (hr : evm.InRange)
    (hcreate : Event.leave .create .outOfGas ∉ evm'.log) : Accounted evm'.log :=
  ⟨hcreate, (run_inRange h hr).shared.log⟩

/-- What the execution step of a transaction has charged, whether it succeeds or fails. -/
theorem charged_executed_step {r : EStateM.Result Abort TxState ExecutionResult} {gas : Int}
    (h0 : 0 ≤ gas) (h : Executed env fuel tx sender gas s r) (hs : s.log = [])
    (hlog : Accounted (final r).log) :
    charged (final r).log ≤ gas ∧
      ∀ x s', r = .ok x s' → x.success = true → charged s'.log + x.gasRemaining ≤ gas := by
  have hempty : charged s.log = 0 := by rw [hs]; rfl
  have hstart : ∀ (t : TopFrame) (w : WorldState),
      charged (t.start tx sender gas w s.log).log = 0 := fun t w =>
    (charged_snoc s.log (.enter t.kind (t.context tx sender gas))
      fun _ _ h => absurd h (by simp)).trans hempty
  cases h with
  | refused hl =>
    rw [final_error, hl, hempty]
    exact ⟨h0, fun _ _ h => absurd h (by simp)⟩
  | transferred hl _ _ hremaining =>
    rw [final_ok, hl, hempty]
    refine ⟨h0, fun x s' h _ => ?_⟩
    cases h
    rw [hl, hempty, hremaining]
    omega
  | @succeeded t _ w' c evm _ s₁ _ _ hc hok hl _ _ hremaining =>
    have hrun := run_runLoop env fuel (t.start tx sender gas w' s.log)
    rw [← hc, hok] at hrun
    rw [final_ok, hl] at hlog
    have hcovered := run_covered hrun h0 (hlog.mono (List.prefix_append _ _))
    have hlast : charged s₁.log = charged evm.log := by
      rw [hl]
      exact charged_snoc _ _ fun _ _ h => absurd h (by simp)
    have hreturned := hcovered.returned evm rfl
    have hbound := hcovered.log
    rw [hstart] at hreturned hbound
    have hgas : (t.start tx sender gas w' s.log).gasRemaining = gas := rfl
    rw [final_ok] at hbound ⊢
    refine ⟨by omega, fun x s' h _ => ?_⟩
    cases h
    omega
  | @failed t _ w' c ending _ _ _ hc hl hfailed _ _ =>
    have hrun := run_runLoop env fuel (t.start tx sender gas w' s.log)
    rw [← hc] at hrun
    rw [hl] at hlog
    have hbound := (run_covered hrun h0 (hlog.mono (List.prefix_append _ _))).log
    rw [hstart] at hbound
    have hgas : (t.start tx sender gas w' s.log).gasRemaining = gas := rfl
    rw [hl, charged_snoc _ (.leave t.kind ending) fun _ _ h => absurd h (by simp)]
    refine ⟨by omega, fun x s' h hx => ?_⟩
    rw [hfailed x s' h] at hx
    cases hx

theorem applyTransaction_pays {result : TransactionResult}
    (h : applyTransaction env fuel tx blockGasLimit { world := w } = .ok result s')
    (hlog : Accounted s'.log) :
    calculateIntrinsicGas tx.data + charged s'.log ≤ result.gasUsed := by
  have happlied := applyTransaction_applied env fuel tx blockGasLimit { world := w }
  rw [h] at happlied
  cases happlied with
  | @failed sender r _ _ hvalid hexec _ hl _ _ hused _ =>
    have := (charged_executed_step hvalid.executionGas_nonneg (executed_of_eq hexec) rfl
      (hl ▸ hlog)).1
    rw [hl, hused]
    unfold Transaction.executionGas at this
    omega
  | @succeeded sender x s₁ _ _ hvalid hexec hx hl _ _ hused _ =>
    have := (charged_executed_step hvalid.executionGas_nonneg (executed_of_eq hexec) rfl
      (hl ▸ hlog)).2 x s₁ rfl hx
    rw [hl, hused]
    unfold Transaction.executionGas at this
    omega

/-- Gas pays for all work in every run in which no init code runs out of gas. The other
way to lose gas, a frame started in debt, needs more gas than a word can hold. -/
theorem gas_pays_for_work (env : Env) :
    (∀ fuel code context storage world result evm, 0 ≤ context.gas →
      execute env fuel (EVM.init code context storage world []) = .ok result evm →
      Accounted evm.log → charged evm.log ≤ result.gasUsed) ∧
    (∀ fuel code context storage world result evm,
      (EVM.init code context storage world []).InRange →
      execute env fuel (EVM.init code context storage world []) = .ok result evm →
      Event.leave .create .outOfGas ∉ evm.log → charged evm.log ≤ result.gasUsed) ∧
    ∀ fuel tx blockGasLimit w result s',
      applyTransaction env fuel tx blockGasLimit { world := w } = .ok result s' →
      Accounted s'.log → calculateIntrinsicGas tx.data + charged s'.log ≤ result.gasUsed := by
  refine ⟨fun fuel code context storage world result evm => execute_pays,
    fun fuel code context storage world result evm hr h hcreate => ?_,
    fun fuel tx blockGasLimit w result s' => applyTransaction_pays⟩
  have hrun := run_runLoop env fuel (EVM.init code context storage world [])
  rw [(conclude_eq_ok h).1] at hrun
  exact execute_pays hr.gas.nonneg h (accounted_of_inRange hrun hr hcreate)

theorem gas_pays_for_work_nestedCall : ∃ result s',
    applyTransaction sampleEnv 100 sampleTransaction 100000 sampleState = .ok result s' ∧
      calculateIntrinsicGas [] + charged s'.log ≤ result.gasUsed := by
  obtain ⟨result, s', h, hlog⟩ := exists_of_returns (p := fun _ s => decide (Accounted s.log))
    (r := applyTransaction sampleEnv 100 sampleTransaction 100000 sampleState) (by decide +kernel)
  exact ⟨result, s', h, (gas_pays_for_work sampleEnv).2.2 _ _ _ _ _ _ h (of_decide_eq_true hlog)⟩

/-- Bytecode that creates a contract whose init code writes its storage in a loop until
it is out of gas. -/
def loopingCreateCode : Bytes :=
  [0x68, 0x5b, 0x60, 0, 0x60, 0, 0x55, 0x60, 0, 0x56, 0x60, 0, 0x52, 0x60, 9, 0x60, 23, 0x60, 0,
    0xf0, 0x00]

/-- The loop of the init code is free for the frame and for the transaction. -/
theorem gas_pays_for_work_not_create :
    (∃ result evm, execute sampleEnv 100 (EVM.init loopingCreateCode (sampleContext 40000) .empty
        (some (sampleWorld [] [])) []) = .ok result evm ∧
      result.gasUsed = 32018 ∧ charged evm.log = 37043) ∧
    ∃ result s', applyTransaction sampleEnv 100 sampleTransaction 100000
        { world := sampleWorld loopingCreateCode [] } = .ok result s' ∧
      result.gasUsed < calculateIntrinsicGas [] + charged s'.log := by
  constructor
  · obtain ⟨result, evm, h, hp⟩ := exists_of_returns
      (p := fun (result : ExecutionResult) (evm : EVM) =>
        result.gasUsed == 32018 && charged evm.log == 37043)
      (r := execute sampleEnv 100 (EVM.init loopingCreateCode (sampleContext 40000) .empty
        (some (sampleWorld [] [])) [])) (by decide +kernel)
    simp only [Bool.and_eq_true, beq_iff_eq] at hp
    exact ⟨result, evm, h, hp⟩
  · obtain ⟨result, s', h, hp⟩ := exists_of_returns
      (p := fun (result : TransactionResult) (s : TxState) =>
        decide (result.gasUsed < calculateIntrinsicGas [] + charged s.log))
      (r := applyTransaction sampleEnv 100 sampleTransaction 100000
        { world := sampleWorld loopingCreateCode [] }) (by decide +kernel)
    exact ⟨result, s', h, of_decide_eq_true hp⟩

end Ethereum
