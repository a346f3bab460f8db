import Ethereum.Evm.Run

/-! Running known bytecode: what the loop and the handlers come to when the next byte and
the operands are given. -/
namespace Ethereum

open Stateful

variable {env : Env} {fuel : Nat} {evm evm' : EVM} {exec : EVM → Outcome}

theorem stackPop_of_cons {v : Int} {rest : List Int} (h : evm.executionStack = v :: rest) :
    stackPop evm = .ok v { evm with executionStack := rest } := by
  simp only [stackPop, bind_apply, get_apply, h, modify_apply, pure_apply]

theorem stackPop_of_nil (h : evm.executionStack = []) :
    stackPop evm = .error (.raised (.evmError (.stackUnderflow 1 0))) evm := by
  simp only [stackPop, bind_apply, get_apply, h, raiseEvm, throw_apply]

theorem stackPush_of_le (v : Int) (h : maxStackDepth ≤ evm.executionStack.length) :
    stackPush v evm = .error (.raised (.evmError (.stackOverflow maxStackDepth))) evm := by
  simp only [stackPush, bind_apply, get_apply, if_pos h, raiseEvm, throw_apply]

theorem stackPush_of_lt {v : Int} (h : evm.executionStack.length < maxStackDepth) :
    stackPush v evm = .ok () { evm with executionStack := v :: evm.executionStack } := by
  simp only [stackPush, bind_apply, get_apply, if_neg (not_le.mpr h), modify_apply]

theorem liftMemory_of_ok {α : Type} {x : EStateM Abort Memory α} {a : α} {memory : Memory}
    (h : x evm.memory = .ok a memory) : liftMemory x evm = .ok a { evm with memory } := by
  simp only [liftMemory, zoom, h]

theorem liftMemory_of_error {α : Type} {x : EStateM Abort Memory α} {e : Abort} {memory : Memory}
    (h : x evm.memory = .error e memory) : liftMemory x evm = .error e { evm with memory } := by
  simp only [liftMemory, zoom, h]

theorem runLoop_of_running (hrun : evm.running = true) :
    runLoop env (fuel + 1) evm =
      (iterate env (execute env fuel) >>= fun _ => runLoop env fuel) evm := by
  rw [runLoop, bind_of_ok (get_apply _), if_pos hrun]
  rfl

theorem runLoop_of_ok (hrun : evm.running = true)
    (h : iterate env (execute env fuel) evm = .ok () evm') :
    runLoop env (fuel + 1) evm = runLoop env fuel evm' := by
  rw [runLoop_of_running hrun, bind_of_ok h]

theorem runLoop_of_error {e : Abort} (hrun : evm.running = true)
    (h : iterate env (execute env fuel) evm = .error e evm') :
    runLoop env (fuel + 1) evm = .error e evm' := by
  rw [runLoop_of_running hrun, bind_of_error h]

theorem runLoop_of_halted (h : evm.running = false) : runLoop env (fuel + 1) evm = .ok () evm := by
  rw [runLoop, bind_of_ok (get_apply _), h]
  rfl

/-- A paid opcode runs its handler in the charged state. -/
theorem iterate_of_paid (env : Env) (exec : EVM → Outcome) (opcode : Opcode) {byte : UInt8}
    (hbyte : evm.code[evm.programCounter]? = some byte)
    (hop : Opcode.ofByte byte = some opcode) (hne : opcode ≠ .invalid)
    (hgas : gasCost opcode ≤ evm.gasRemaining) :
    iterate env exec evm = dispatch env exec opcode (evm.charge opcode) := by
  rw [iterate_eq, dispatch_eq, bind_apply, bind_apply, begin_of_paid hbyte hop hne hgas]

theorem iterate_of_unpaid (opcode : Opcode) {byte : UInt8}
    (hbyte : evm.code[evm.programCounter]? = some byte)
    (hop : Opcode.ofByte byte = some opcode) (hne : opcode ≠ .invalid)
    (hgas : evm.gasRemaining < gasCost opcode) :
    iterate env exec evm =
      .error (.raised (.evmError (.outOfGas (gasCost opcode) evm.gasRemaining))) evm := by
  rw [iterate_eq, bind_of_error (begin_of_unpaid hbyte hop hne hgas)]

/-- An opcode that starts a child frame goes on with the outcome of that frame. -/
theorem dispatch_of_child {opcode : Opcode} {p : Pending}
    (h : beginOp env opcode evm = .ok (some p) evm') :
    dispatch env exec opcode evm = settle env p (exec p.child) evm' := by
  rw [dispatch_eq, bind_of_ok h]

/-- `CALL` without calldata to an account with code, when the value can be paid. -/
theorem opCallStart_of_payable (env : Env) {gas addr value argsOffset retOffset retLength : Int}
    {rest : List Int} {w w' : WorldState} {addrBytes target code : Bytes}
    (hstack : evm.executionStack =
      gas :: addr :: value :: argsOffset :: 0 :: retOffset :: retLength :: rest)
    (hw : evm.worldState = some w) (haddr : intToBytes 32 addr = .ok addrBytes)
    (htarget : addrBytes.drop 12 = target)
    (hpay : payValue w evm.context.address target value = .ok w')
    (hcode : (w.getAccount target).code = code) (hne : code ≠ []) :
    opCallStart env evm = .ok (some {
        child := EVM.init code
          { caller := evm.context.address, address := target, value, data := [],
            gas := min gas evm.gasRemaining }
          (w.getAccount target).storage (some w')
          (evm.log ++ [.enter .call
            { caller := evm.context.address, address := target, value, data := [],
              gas := min gas evm.gasRemaining }])
        targetAddress := target
        forwardedGas := min gas evm.gasRemaining
        retOffset, retLength })
      { evm with executionStack := rest, worldState := some w' } := by
  subst htarget hcode
  rw [opCallStart, bind_of_ok (stackPop_of_cons hstack), bind_of_ok (stackPop_of_cons rfl),
    bind_of_ok (stackPop_of_cons rfl), bind_of_ok (stackPop_of_cons rfl),
    bind_of_ok (stackPop_of_cons rfl), bind_of_ok (stackPop_of_cons rfl),
    bind_of_ok (stackPop_of_cons rfl), bind_of_ok (get_apply _)]
  simp only [hw, haddr, attempt, readCalldata, bind_apply, pure_apply, if_neg (lt_irrefl (0 : Int)),
    hpay, setWorld, modify_apply, if_neg hne]

/-- `CREATE` with init code that is already in memory, when the value can be paid. -/
theorem opCreateStart_of_payable {value offset size : Int} {rest : List Int}
    {w w' : WorldState} {memory : Memory} {initCode c : Bytes}
    (hstack : evm.executionStack = value :: offset :: size :: rest)
    (hw : evm.worldState = some w)
    (hcode : Memory.readRange env offset size evm.memory = .ok initCode memory)
    (hc : computeContractAddress env evm.context.address (w.getAccount evm.context.address).nonce =
      .ok c)
    (hpay : payValue (w.reserve evm.context.address c) evm.context.address c value = .ok w') :
    opCreateStart env evm = .ok (some {
        child := EVM.init initCode
          { caller := evm.context.address, address := c, value, data := [],
            gas := evm.gasRemaining } .empty (some w')
          (evm.log ++ [.enter .create
            { caller := evm.context.address, address := c, value, data := [],
              gas := evm.gasRemaining }])
        contractAddress := c })
      { evm with executionStack := rest, worldState := some w', memory } := by
  rw [WorldState.reserve] at hpay
  rw [opCreateStart, bind_of_ok (stackPop_of_cons hstack), bind_of_ok (stackPop_of_cons rfl),
    bind_of_ok (stackPop_of_cons rfl), bind_of_ok (get_apply _)]
  simp only [hw, hc, hcode, attempt, liftMemory, zoom, bind_apply, pure_apply, hpay, setWorld,
    modify_apply]

/-- A frame never ends if every iteration leads back into `I`, or hangs in a child frame. -/
theorem runLoop_outOfFuel (env : Env) (fuel : Nat) {I : EVM → Prop}
    (hrun : ∀ evm, I evm → evm.running = true)
    (hstep : ∀ fuel evm, I evm →
      (∃ evm', iterate env (execute env fuel) evm = .ok () evm' ∧ I evm') ∨
      ∃ evm', iterate env (execute env fuel) evm = .error .outOfFuel evm') (hI : I evm) :
    ∃ evm', runLoop env fuel evm = .error .outOfFuel evm' := by
  induction fuel generalizing evm with
  | zero => exact ⟨evm, rfl⟩
  | succ fuel ih =>
    rcases hstep fuel evm hI with ⟨evm', h, hI'⟩ | ⟨evm', h⟩
    · rw [runLoop_of_ok (hrun evm hI) h]
      exact ih hI'
    · exact ⟨evm', runLoop_of_error (hrun evm hI) h⟩

end Ethereum
