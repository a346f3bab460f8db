import Ethereum.Evm.Vm

/-! One iteration of the loop, cut where a child frame runs: `begin` gets to the start
of the child, if there is one, and `settle` takes over from its outcome. -/
namespace Ethereum

open Stateful

/-- A frame that has started a child and waits for its outcome. -/
inductive Pending
  | call (p : PendingCall)
  | create (p : PendingCreate)

namespace Pending

def child : Pending → EVM
  | .call p => p.child
  | .create p => p.child

def address : Pending → Bytes
  | .call p => p.targetAddress
  | .create p => p.contractAddress

def kind : Pending → FrameKind
  | .call _ => .call
  | .create _ => .create

end Pending

variable (env : Env)

/-- A handler up to the start of a child frame. -/
def beginOp : Opcode → EvmM (Option Pending)
  | .create => do
    let p ← opCreateStart env
    return p.map .create
  | .call => do
    let p ← opCallStart env
    return p.map .call
  | opcode => do
    localOp env opcode
    return none

/-- The body of the loop up to the start of a child frame. -/
def begin : EvmM (Option Pending) := do
  let evm ← get
  match evm.code[evm.programCounter]? with
  | none => return none
  | some byte =>
    match Opcode.ofByte byte with
    | none => raiseEvm (.invalidOpcode byte.toNat evm.programCounter)
    | some .invalid => do
      emit (.executed evm.context.address .invalid)
      modify fun evm => { evm with gasRemaining := 0, stopped := true, reverted := true }
      return none
    | some opcode => do
      consumeGas (gasCost opcode)
      emit (.executed evm.context.address opcode)
      modify fun evm => { evm with programCounter := evm.programCounter + 1 }
      beginOp env opcode

def settle : Pending → Outcome → EvmM Unit
  | .call p => opCallFinish env p
  | .create p => opCreateFinish p

variable {env} {evm evm' : EVM}

theorem dispatch_local (exec : EVM → Outcome) {opcode : Opcode} (hc : opcode ≠ .create)
    (hl : opcode ≠ .call) : dispatch env exec opcode = localOp env opcode := by
  cases opcode <;> first | rfl | contradiction

theorem dispatch_eq (exec : EVM → Outcome) (opcode : Opcode) :
    dispatch env exec opcode = (do
      match ← beginOp env opcode with
      | none => pure ()
      | some p => settle env p (exec p.child)) := by
  funext evm
  by_cases hc : opcode = .create
  · subst hc
    simp only [dispatch, beginOp, opCreate, bind_apply, pure_apply]
    cases opCreateStart env evm with
    | error e s => rfl
    | ok p s => cases p <;> rfl
  · by_cases hl : opcode = .call
    · subst hl
      simp only [dispatch, beginOp, opCall, bind_apply, pure_apply]
      cases opCallStart env evm with
      | error e s => rfl
      | ok p s => cases p <;> rfl
    · have hb : beginOp env opcode = (do localOp env opcode; return none) := by
        cases opcode <;> first | rfl | contradiction
      rw [dispatch_local exec hc hl, hb]
      simp only [bind_apply, pure_apply]
      cases localOp env opcode evm <;> rfl

/-- The state in which the handler of a paid opcode runs. -/
def EVM.charge (evm : EVM) (opcode : Opcode) : EVM :=
  { evm with
    gasRemaining := evm.gasRemaining - gasCost opcode
    programCounter := evm.programCounter + 1
    log := evm.log ++ [.executed evm.context.address opcode] }

/-- The state that `INVALID` leaves. -/
def EVM.invalidated (evm : EVM) : EVM :=
  { evm with
    gasRemaining := 0
    stopped := true
    reverted := true
    log := evm.log ++ [.executed evm.context.address .invalid] }

theorem consumeGas_of_le {cost : Int} (h : cost ≤ evm.gasRemaining) :
    consumeGas cost evm = .ok () { evm with gasRemaining := evm.gasRemaining - cost } := by
  simp only [consumeGas, bind_apply, get_apply, if_neg (not_lt.mpr h), modify_apply]

theorem consumeGas_of_lt {cost : Int} (h : evm.gasRemaining < cost) :
    consumeGas cost evm =
      .error (.raised (.evmError (.outOfGas cost evm.gasRemaining))) evm := by
  simp only [consumeGas, bind_apply, get_apply, if_pos h, raiseEvm, throw_apply]

/-- How one iteration of a running frame starts. -/
inductive Fetched (env : Env) (evm : EVM) : Prop
  | unknown (byte : UInt8)
      (h : begin env evm =
        .error (.raised (.evmError (.invalidOpcode byte.toNat evm.programCounter))) evm)
  | outOfGas (opcode : Opcode) (hgas : evm.gasRemaining < gasCost opcode)
      (h : begin env evm =
        .error (.raised (.evmError (.outOfGas (gasCost opcode) evm.gasRemaining))) evm)
  | invalid (h : begin env evm = .ok none evm.invalidated)
  | paid (opcode : Opcode) (hop : opcode ≠ .invalid) (hgas : gasCost opcode ≤ evm.gasRemaining)
      (hbyte : ∃ byte, Opcode.ofByte byte = some opcode)
      (h : begin env evm = beginOp env opcode (evm.charge opcode))

theorem begin_of_invalid {byte : UInt8} (hbyte : evm.code[evm.programCounter]? = some byte)
    (hop : Opcode.ofByte byte = some .invalid) : begin env evm = .ok none evm.invalidated := by
  simp only [begin, bind_apply, get_apply, hbyte, hop, emit, modify_apply, pure_apply]
  rfl

theorem begin_of_opcode {byte : UInt8} {opcode : Opcode}
    (hbyte : evm.code[evm.programCounter]? = some byte)
    (hop : Opcode.ofByte byte = some opcode) (hne : opcode ≠ .invalid) :
    begin env evm =
      (consumeGas (gasCost opcode) >>= fun _ =>
        emit (.executed evm.context.address opcode) >>= fun _ =>
        (modify fun evm => { evm with programCounter := evm.programCounter + 1 }) >>= fun _ =>
        beginOp env opcode) evm := by
  simp only [begin, bind_apply, get_apply, hbyte, hop]

theorem begin_of_paid {byte : UInt8} {opcode : Opcode}
    (hbyte : evm.code[evm.programCounter]? = some byte)
    (hop : Opcode.ofByte byte = some opcode) (hne : opcode ≠ .invalid)
    (hgas : gasCost opcode ≤ evm.gasRemaining) :
    begin env evm = beginOp env opcode (evm.charge opcode) := by
  rw [begin_of_opcode hbyte hop hne, bind_of_ok (consumeGas_of_le hgas), emit,
    bind_of_ok (modify_apply _ _), bind_of_ok (modify_apply _ _)]
  rfl

theorem begin_of_unpaid {byte : UInt8} {opcode : Opcode}
    (hbyte : evm.code[evm.programCounter]? = some byte)
    (hop : Opcode.ofByte byte = some opcode) (hne : opcode ≠ .invalid)
    (hgas : evm.gasRemaining < gasCost opcode) :
    begin env evm =
      .error (.raised (.evmError (.outOfGas (gasCost opcode) evm.gasRemaining))) evm := by
  rw [begin_of_opcode hbyte hop hne, bind_of_error (consumeGas_of_lt hgas)]

theorem begin_of_unknown {byte : UInt8} (hbyte : evm.code[evm.programCounter]? = some byte)
    (hop : Opcode.ofByte byte = none) :
    begin env evm =
      .error (.raised (.evmError (.invalidOpcode byte.toNat evm.programCounter))) evm := by
  simp only [begin, bind_apply, get_apply, hbyte, hop, raiseEvm, throw_apply]

theorem byte_of_running (hrun : evm.running = true) :
    ∃ byte, evm.code[evm.programCounter]? = some byte := by
  have hlt : evm.programCounter < evm.code.length := by
    simp only [EVM.running, Bool.and_eq_true, decide_eq_true_eq] at hrun
    exact hrun.2
  exact ⟨_, List.getElem?_eq_getElem hlt⟩

theorem fetched (env : Env) (hrun : evm.running = true) : Fetched env evm := by
  obtain ⟨byte, hbyte⟩ := byte_of_running hrun
  cases hop : Opcode.ofByte byte with
  | none => exact .unknown byte (begin_of_unknown hbyte hop)
  | some opcode =>
    by_cases hne : opcode = .invalid
    · subst hne
      exact .invalid (begin_of_invalid hbyte hop)
    · by_cases hgas : gasCost opcode ≤ evm.gasRemaining
      · exact .paid opcode hne hgas ⟨byte, hop⟩ (begin_of_paid hbyte hop hne hgas)
      · exact .outOfGas opcode (not_le.mp hgas)
          (begin_of_unpaid hbyte hop hne (not_le.mp hgas))

/-- The first half of an iteration leaves the frame alone, stops it at `INVALID` or runs a paid
opcode, so what holds in these cases holds after it. -/
theorem final_begin {P : EVM → Prop} (env : Env) (hrun : evm.running = true) (hsame : P evm)
    (hinvalid : P evm.invalidated)
    (hpaid : ∀ opcode, opcode ≠ .invalid → gasCost opcode ≤ evm.gasRemaining →
      (∃ byte, Opcode.ofByte byte = some opcode) →
      P (final (beginOp env opcode (evm.charge opcode)))) : P (final (begin env evm)) := by
  cases fetched env hrun with
  | unknown byte h => rw [h]; exact hsame
  | outOfGas opcode hgas h => rw [h]; exact hsame
  | invalid h => rw [h]; exact hinvalid
  | paid opcode hop hgas hbyte h => rw [h]; exact hpaid opcode hop hgas hbyte

/-- An iteration that raises nothing before a child runs has paid for its opcode, or has
met `INVALID`. -/
theorem begin_eq_ok {child : Option Pending} (hrun : evm.running = true)
    (h : begin env evm = .ok child evm') :
    ∃ byte opcode, evm.code[evm.programCounter]? = some byte ∧
      Opcode.ofByte byte = some opcode ∧
      (opcode = .invalid ∧ child = none ∧ evm' = evm.invalidated ∨
        opcode ≠ .invalid ∧ gasCost opcode ≤ evm.gasRemaining ∧
          beginOp env opcode (evm.charge opcode) = .ok child evm') := by
  obtain ⟨byte, hbyte⟩ := byte_of_running hrun
  cases hop : Opcode.ofByte byte with
  | none => rw [begin_of_unknown hbyte hop] at h; cases h
  | some opcode =>
    refine ⟨byte, opcode, hbyte, hop, ?_⟩
    by_cases hne : opcode = .invalid
    · subst hne
      rw [begin_of_invalid hbyte hop] at h
      cases h
      exact .inl ⟨rfl, rfl, rfl⟩
    · rcases le_or_gt (gasCost opcode) evm.gasRemaining with hgas | hgas
      · rw [begin_of_paid hbyte hop hne hgas] at h
        exact .inr ⟨hne, hgas, h⟩
      · rw [begin_of_unpaid hbyte hop hne hgas] at h
        cases h

/-- An iteration is its two halves with the child frame run in between. -/
theorem iterate_eq (exec : EVM → Outcome) :
    iterate env exec = (do
      match ← begin env with
      | none => pure ()
      | some p => settle env p (exec p.child)) := by
  funext evm
  cases hbyte : evm.code[evm.programCounter]? with
  | none => simp only [iterate, begin, bind_apply, get_apply, hbyte, pure_apply]
  | some byte =>
    cases hop : Opcode.ofByte byte with
    | none =>
      simp only [iterate, begin, bind_apply, get_apply, hbyte, hop, raiseEvm, throw_apply]
    | some opcode =>
      by_cases hne : opcode = .invalid
      · subst hne
        simp only [iterate, begin, bind_apply, get_apply, hbyte, hop, emit, modify_apply,
          pure_apply]
      · have h : iterate env exec evm =
            (consumeGas (gasCost opcode) >>= fun _ =>
              emit (.executed evm.context.address opcode) >>= fun _ =>
              (modify fun evm => { evm with programCounter := evm.programCounter + 1 }) >>= fun _ =>
              dispatch env exec opcode) evm := by
          simp only [iterate, bind_apply, get_apply, hbyte, hop]
        rw [h]
        by_cases hgas : gasCost opcode ≤ evm.gasRemaining
        · rw [bind_of_ok (consumeGas_of_le hgas), emit, bind_of_ok (modify_apply _ _),
            bind_of_ok (modify_apply _ _), dispatch_eq, bind_apply, bind_apply,
            begin_of_paid hbyte hop hne hgas]
          rfl
        · rw [bind_of_error (consumeGas_of_lt (not_le.mp hgas)), bind_apply,
            begin_of_unpaid hbyte hop hne (not_le.mp hgas)]

end Ethereum
