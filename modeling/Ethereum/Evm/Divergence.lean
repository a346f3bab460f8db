import Ethereum.Evm.Callee

/-! A frame that never ends. Its gas does not fit in 256 bits. -/
namespace Ethereum

open Stateful

/-- A loop that calls itself with the complement of its gas. Above `2 ^ 256` that is a
negative number, so the failed call pays the caller. -/
def spinCode : Bytes := [0x5b, 0x34, 0x34, 0x34, 0x34, 0x34, 0x30, 0x5a, 0x19, 0xf1, 0x56]

/-- With this gas a round forwards -126, which is what the round has cost. -/
def spinGas : Int := 2 ^ 256 + 140

/-- Gas, program counter and stack in one round of `spinCode`. -/
inductive SpinPhase (gas : Int) : Nat → List Int → Prop
  | jumpdest (h : gas = spinGas) : SpinPhase gas 0 []
  | callvalue (n : Nat) (hn : n ≤ 5) (h : gas + 1 + 2 * n = spinGas) :
      SpinPhase gas (n + 1) (List.replicate n 0)
  | gas (h : gas + 13 = spinGas) :
      SpinPhase gas 7 (intFromBytes sampleContract :: List.replicate 5 0)
  | not (h : gas + 15 = spinGas) :
      SpinPhase gas 8 (gas :: intFromBytes sampleContract :: List.replicate 5 0)
  | call (h : gas + 18 = spinGas) :
      SpinPhase gas 9 (-126 :: intFromBytes sampleContract :: List.replicate 5 0)
  | jump (h : gas = spinGas + 8) : SpinPhase gas 10 [0]

structure Spinning (evm : EVM) : Prop where
  code : evm.code = spinCode
  address : evm.context.address = sampleContract
  value : evm.context.value = 0
  world : ∃ w, evm.worldState = some w ∧ (w.getAccount sampleContract).code = spinCode
  stopped : evm.stopped = false
  phase : SpinPhase evm.gasRemaining evm.programCounter evm.executionStack

variable {env : Env} {fuel : Nat} {evm : EVM}

theorem SpinPhase.lt {gas : Int} {pc : Nat} {stack : List Int} (h : SpinPhase gas pc stack) :
    pc < spinCode.length := by
  cases h <;> (simp [spinCode]; try omega)

theorem Spinning.running (h : Spinning evm) : evm.running = true := by
  have := h.phase.lt
  simp [EVM.running, h.stopped, h.code, this]

/-- A new phase after a handler that touches only stack and gas. -/
theorem Spinning.next (h : Spinning evm) (opcode : Opcode) (stack : List Int)
    (hphase : SpinPhase (evm.gasRemaining - gasCost opcode) (evm.programCounter + 1) stack) :
    Spinning { evm.charge opcode with executionStack := stack } :=
  ⟨h.code, h.address, h.value, h.world, h.stopped, hphase⟩

/-- The frame that a round starts is in debt and fails at once. -/
theorem execute_in_debt (env : Env) (fuel : Nat) {child : EVM} (hcode : child.code = spinCode)
    (hpc : child.programCounter = 0) (hstop : child.stopped = false)
    (hgas : child.gasRemaining < 0) :
    (∃ needed remaining child', execute env fuel child =
      .error (.raised (.evmError (.outOfGas needed remaining))) child' ∧
      child'.worldState = child.worldState) ∨
    ∃ child', execute env fuel child = .error .outOfFuel child' := by
  cases fuel with
  | zero => exact .inr ⟨child, rfl⟩
  | succ fuel =>
    have hrun : child.running = true := by simp [EVM.running, hcode, hpc, hstop, spinCode]
    have hbyte : child.code[child.programCounter]? = some 0x5b := by rw [hcode, hpc]; rfl
    have h : iterate env (execute env fuel) child = _ :=
      iterate_of_unpaid .jumpdest hbyte (by decide) (by decide)
        (hgas.trans_le (gasCost_nonneg _))
    refine .inl ⟨gasCost .jumpdest, child.gasRemaining,
      { child with reverted := true, gasRemaining := 0 }, ?_, rfl⟩
    rw [execute, runLoop_of_error hrun h]
    rfl

/-- A round of `spinCode` on its way to the operands of the call. -/
theorem Spinning.push (h : Spinning evm) (opcode : Opcode) (v : Int) {byte : UInt8}
    (hbyte : spinCode[evm.programCounter]? = some byte) (hop : Opcode.ofByte byte = some opcode)
    (hne : opcode ≠ .invalid) (hgas : gasCost opcode ≤ evm.gasRemaining)
    (hlen : evm.executionStack.length < maxStackDepth)
    (hpush : dispatch env (execute env fuel) opcode (evm.charge opcode) =
      stackPush v (evm.charge opcode))
    (hphase : SpinPhase (evm.gasRemaining - gasCost opcode) (evm.programCounter + 1)
      (v :: evm.executionStack)) :
    ∃ evm', iterate env (execute env fuel) evm = .ok () evm' ∧ Spinning evm' :=
  ⟨_, (iterate_of_paid _ _ opcode ((congrArg (·[_]?) h.code).trans hbyte) hop hne hgas).trans
    (hpush.trans (stackPush_of_lt hlen)), h.next opcode _ hphase⟩

/-- The call at the end of a round pays for the round or never comes back. -/
theorem Spinning.call (h : Spinning evm) (hpc : evm.programCounter = 9)
    (hgas : evm.gasRemaining + 18 = spinGas)
    (hstack : evm.executionStack =
      -126 :: intFromBytes sampleContract :: List.replicate 5 0) :
    (∃ evm', iterate env (execute env fuel) evm = .ok () evm' ∧ Spinning evm') ∨
    ∃ evm', iterate env (execute env fuel) evm = .error .outOfFuel evm' := by
  have hspin : spinGas = 2 ^ 256 + 140 := rfl
  have hbyte : evm.code[evm.programCounter]? = some 0xf1 := by rw [h.code, hpc]; rfl
  rw [iterate_of_paid env _ .call hbyte (by decide) (by decide)
    (by simp only [gasCost, gasCallBase]; omega)]
  obtain ⟨w, hw, hcode⟩ := h.world
  have hword : intToBytes 32 (intFromBytes sampleContract) =
      .ok (List.replicate 12 0 ++ sampleContract) := by decide +kernel
  have hcharged : (evm.charge .call).executionStack =
      -126 :: intFromBytes sampleContract :: List.replicate 5 0 := hstack
  have hpay : payValue w (evm.charge .call).context.address sampleContract 0 = .ok w := rfl
  have hstart := opCallStart_of_payable env hcharged hw hword rfl hpay hcode (by decide)
  obtain ⟨q, evm₁, hbegin, hcharge, hchild, hworld, hevm⟩ : ∃ q evm₁,
      beginOp env .call (evm.charge .call) = .ok (some (.call q)) evm₁ ∧
      q.forwardedGas = q.child.gasRemaining ∧
      (q.child.code = spinCode ∧ q.child.programCounter = 0 ∧ q.child.stopped = false ∧
        q.child.gasRemaining = -126) ∧
      q.child.worldState = some w ∧
      evm₁ = { evm.charge .call with executionStack := [], worldState := some w } := by
    have hforward : min (-126) (evm.charge .call).gasRemaining = -126 := by
      simp only [EVM.charge, gasCost, gasCallBase]
      omega
    exact ⟨_, _, by rw [beginOp_call, hstart]; rfl, rfl, ⟨rfl, rfl, rfl, hforward⟩, rfl, rfl⟩
  rw [dispatch_of_child hbegin]
  obtain ⟨hc, hp, hs, hg'⟩ := hchild
  subst hevm
  rcases execute_in_debt env fuel hc hp hs (by omega) with
    ⟨needed, remaining, child', he, hw'⟩ | ⟨child', he⟩
  · rw [Pending.child, he]
    refine .inl ⟨_, settle_of_caught (by exact Nat.zero_lt_succ _) (.inr rfl), ?_⟩
    refine ⟨h.code, h.address, h.value, ⟨w, hw'.trans hworld, hcode⟩, h.stopped, ?_⟩
    simp only [EVM.afterFailure, EVM.charge, gasCost, gasCallBase, hpc, Pending.charge]
    exact .jump (by omega)
  · rw [Pending.child, he]
    exact .inr (settle_of_raised rfl)

theorem spinning_step (fuel : Nat) (evm : EVM) (h : Spinning evm) :
    (∃ evm', iterate env (execute env fuel) evm = .ok () evm' ∧ Spinning evm') ∨
    ∃ evm', iterate env (execute env fuel) evm = .error .outOfFuel evm' := by
  have hspin : spinGas = 2 ^ 256 + 140 := rfl
  have hphase := h.phase
  generalize hpc : evm.programCounter = pc at hphase
  generalize hstack : evm.executionStack = stack at hphase
  have hbyte : evm.code[evm.programCounter]? = spinCode[pc]? := by rw [h.code, hpc]
  have hpush := @Spinning.push env fuel evm h
  rw [hpc, hstack] at hpush
  cases hphase with
  | jumpdest hg =>
    have hi := iterate_of_paid env (execute env fuel) .jumpdest (hbyte.trans rfl)
      (by decide) (by decide) (by simp only [gasCost]; omega)
    refine .inl ⟨_, hi, h.next .jumpdest _ ?_⟩
    rw [hpc, hstack]
    exact .callvalue 0 (by omega) (by simp only [gasCost]; omega)
  | callvalue n hn hg =>
    have hlen : (List.replicate n (0 : Int)).length < maxStackDepth := by
      rw [List.length_replicate]
      exact hn.trans_lt (by decide)
    rcases Nat.lt_or_eq_of_le hn with hlt | rfl
    · have hb : ∀ n < 5, spinCode[n + 1]? = some 0x34 := by decide
      refine .inl (hpush .callvalue 0 (hb n hlt) (by decide) (by decide)
        (by simp only [gasCost]; omega) hlen (congrArg (fun v => stackPush v _) h.value) ?_)
      rw [← List.replicate_succ]
      exact .callvalue (n + 1) hlt (by simp only [gasCost]; push_cast; omega)
    · refine .inl (hpush .address (intFromBytes sampleContract) rfl (by decide)
        (by decide) (by simp only [gasCost]; omega) hlen
        (congrArg (fun a => stackPush (intFromBytes a) _) h.address) ?_)
      exact .gas (by simp only [gasCost]; omega)
  | gas hg =>
    refine .inl (hpush .gas (evm.gasRemaining - gasCost .gas) rfl (by decide)
      (by decide) (by simp only [gasCost]; omega) (Nat.lt_of_sub_pos (by decide)) rfl ?_)
    exact .not (by simp only [gasCost]; omega)
  | not hg =>
    have hi := iterate_of_paid env (execute env fuel) .not (hbyte.trans rfl)
      (by decide) (by decide) (by simp only [gasCost]; omega)
    have hcharged : (evm.charge .not).executionStack = _ := hstack
    refine .inl ⟨_, hi.trans ?_, h.next .not
      (-126 :: intFromBytes sampleContract :: List.replicate 5 0) ?_⟩
    · change (stackPop >>= fun a => stackPush (maxUint256 - a)) (evm.charge .not) = _
      have hcomplement : maxUint256 - evm.gasRemaining = -126 := by
        unfold maxUint256
        omega
      rw [bind_of_ok (stackPop_of_cons hcharged), hcomplement, stackPush_of_lt]
      simp [maxStackDepth]
    · rw [hpc]
      exact .call (by simp only [gasCost]; omega)
  | call hg => exact h.call hpc hg hstack
  | jump hg =>
    have hi := iterate_of_paid env (execute env fuel) .jump (hbyte.trans rfl)
      (by decide) (by decide) (by simp only [gasCost]; omega)
    refine .inl ⟨{ evm.charge .jump with executionStack := [], programCounter := 0 }, ?_,
      h.code, h.address, h.value, h.world, h.stopped, .jumpdest ?_⟩
    · have hcharged : (evm.charge .jump).executionStack = _ := hstack
      rw [hi]
      change (stackPop >>= jumpTo) (evm.charge .jump) = _
      rw [bind_of_ok (stackPop_of_cons hcharged), jumpTo, bind_of_ok (get_apply _), if_pos,
        modify_apply]
      · rfl
      · rw [show (evm.charge .jump).code = spinCode from h.code]
        decide
    · simp only [EVM.charge, gasCost]
      omega

end Ethereum
