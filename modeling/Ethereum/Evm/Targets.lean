import Ethereum.Evm.Reach

/-! Where child frames run: `CREATE` computes the address from the creator and its nonce,
`CALL` cuts it out of a word. -/
namespace Ethereum

open Stateful

variable {env : Env} {evm evm' : EVM}

/-- The creator and the nonce from which `_op_create` computes an address. -/
theorem contractAddress_of_start {q : PendingCreate}
    (h : opCreateStart env evm = .ok (some q) evm') :
    ∃ w, evm.worldState = some w ∧
      computeContractAddress env evm.context.address (w.getAccount evm.context.address).nonce =
        .ok q.contractAddress := by
  obtain ⟨value, evm₁, h₁, h⟩ := ok_of_bind_apply h
  obtain ⟨offset, evm₂, h₂, h⟩ := ok_of_bind_apply h
  obtain ⟨size, evm₃, h₃, h⟩ := ok_of_bind_apply h
  have hs₁ : evm₁.shell = evm.shell := keeps_stackPop.of_ok h₁
  have hs₂ : evm₂.shell = evm₁.shell := keeps_stackPop.of_ok h₂
  have hs₃ : evm₃.shell = evm₂.shell := keeps_stackPop.of_ok h₃
  have hs := hs₃.trans (hs₂.trans hs₁)
  rw [bind_of_ok (get_apply _)] at h
  rw [← show evm₃.worldState = evm.worldState from congrArg Shell.worldState hs,
    ← show evm₃.context = evm.context from congrArg Shell.context hs]
  cases hw : evm₃.worldState with
  | none =>
    rw [hw] at h
    obtain ⟨_, _, -, h⟩ := ok_of_bind_apply h
    cases h
  | some w =>
    rw [hw] at h
    obtain ⟨initCode, evm₄, -, h⟩ := ok_of_bind_apply h
    obtain ⟨contractAddress, evm₅, ha, h⟩ := ok_of_bind_apply h
    refine ⟨w, rfl, ?_⟩
    rw [(ok_of_attempt ha).1]
    obtain ⟨_, evm₆, -, h⟩ := ok_of_bind_apply h
    cases hpay : payValue ((w.incrementNonce evm₃.context.address).addBalance contractAddress 0)
        evm₃.context.address contractAddress value with
    | error message =>
      simp only [hpay] at h
      obtain ⟨_, _, -, h⟩ := ok_of_bind_apply h
      cases h
    | ok w' =>
      simp only [hpay] at h
      obtain ⟨_, evm₇, -, h⟩ := ok_of_bind_apply h
      cases h
      rfl

/-- The operands of a `CALL` that has started a child frame. -/
theorem callStart_eq_ok {q : PendingCall} (h : opCallStart env evm = .ok (some q) evm') :
    ∃ gas addrInt value argsOffset argsLength rest addrBytes,
      evm.executionStack = gas :: addrInt :: value :: argsOffset :: argsLength ::
        q.retOffset :: q.retLength :: rest ∧
      intToBytes 32 addrInt = .ok addrBytes ∧ q.targetAddress = addrBytes.drop 12 := by
  obtain ⟨gas, evm₁, h₁, h⟩ := ok_of_bind_apply h
  obtain ⟨addrInt, evm₂, h₂, h⟩ := ok_of_bind_apply h
  obtain ⟨value, evm₃, h₃, h⟩ := ok_of_bind_apply h
  obtain ⟨argsOffset, evm₄, h₄, h⟩ := ok_of_bind_apply h
  obtain ⟨argsLength, evm₅, h₅, h⟩ := ok_of_bind_apply h
  obtain ⟨retOffset, evm₆, h₆, h⟩ := ok_of_bind_apply h
  obtain ⟨retLength, evm₇, h₇, h⟩ := ok_of_bind_apply h
  have hstack : evm.executionStack = gas :: addrInt :: value :: argsOffset :: argsLength ::
      retOffset :: retLength :: evm₇.executionStack := by
    rw [stackPop_eq_ok h₁, stackPop_eq_ok h₂, stackPop_eq_ok h₃, stackPop_eq_ok h₄,
      stackPop_eq_ok h₅, stackPop_eq_ok h₆, stackPop_eq_ok h₇]
  rw [bind_of_ok (get_apply _)] at h
  cases hw : evm₇.worldState with
  | none =>
    rw [hw] at h
    obtain ⟨_, _, -, h⟩ := ok_of_bind_apply h
    cases h
  | some world =>
    rw [hw] at h
    obtain ⟨addrBytes, evm₈, ha, h⟩ := ok_of_bind_apply h
    obtain ⟨inputData, evm₉, -, h⟩ := ok_of_bind_apply h
    cases hpay : payValue world evm₇.context.address (addrBytes.drop 12) value with
    | error message =>
      simp only [hpay] at h
      obtain ⟨_, _, -, h⟩ := ok_of_bind_apply h
      cases h
    | ok w' =>
      simp only [hpay] at h
      obtain ⟨_, evm₁₀, -, h⟩ := ok_of_bind_apply h
      split at h
      · obtain ⟨_, _, -, h⟩ := ok_of_bind_apply h
        obtain ⟨_, _, -, h⟩ := ok_of_bind_apply h
        obtain ⟨_, _, -, h⟩ := ok_of_bind_apply h
        cases h
      · cases h
        exact ⟨_, _, _, _, _, _, _, hstack, (ok_of_attempt ha).1, rfl⟩

theorem length_of_callStart {q : PendingCall} (h : opCallStart env evm = .ok (some q) evm') :
    q.targetAddress.length = 20 := by
  obtain ⟨_, _, _, _, _, _, addrBytes, -, hbytes, htarget⟩ := callStart_eq_ok h
  rw [htarget, List.length_drop, length_of_intToBytes hbytes]

/-- What `begin` computes the address of a child frame from. -/
theorem target_of_begin {p : Pending} (hrun : evm.running = true)
    (h : begin env evm = .ok (some p) evm') :
    (∀ q, p = .call q → p.address.length = 20) ∧ ∀ q, p = .create q →
      ∃ w, evm.worldState = some w ∧ computeContractAddress env evm.context.address
        (w.getAccount evm.context.address).nonce = .ok p.address := by
  obtain ⟨byte, opcode, -, -, ⟨-, hnone, -⟩ | ⟨-, -, hb⟩⟩ := begin_eq_ok hrun h
  · cases hnone
  · rcases ok_of_beginOp hb with ⟨rfl, o, hstart, hp⟩ | ⟨rfl, o, hstart, hp⟩ | ⟨-, -, hnone, -⟩
    · obtain ⟨q, rfl, rfl⟩ := Option.map_eq_some_iff.mp hp.symm
      have htarget := contractAddress_of_start hstart
      exact ⟨fun _ h => absurd h (by simp), fun _ _ => htarget⟩
    · obtain ⟨q, rfl, rfl⟩ := Option.map_eq_some_iff.mp hp.symm
      exact ⟨fun _ _ => length_of_callStart hstart, fun _ h => absurd h (by simp)⟩
    · cases hnone

theorem length_of_target {p : Pending} (hrun : evm.running = true)
    (h : begin env evm = .ok (some p) evm') : p.address.length = 20 := by
  obtain ⟨hcall, hcreate⟩ := target_of_begin hrun h
  cases p with
  | call q => exact hcall q rfl
  | create q =>
    obtain ⟨w, -, ha⟩ := hcreate q rfl
    exact length_of_computeContractAddress ha

end Ethereum
