import Ethereum.Evm.Gas
import Ethereum.Evm.Script
import Ethereum.Core.StateTransition

/-! The gas that a run has used is the least gas with which it can be run, unless it looks
at its gas or starts frames. -/
namespace Ethereum

open Stateful

/-- The same frame with more gas, or less. -/
def EVM.fund (d : Int) (evm : EVM) : EVM :=
  { evm with
    gasRemaining := evm.gasRemaining + d
    context := { evm.context with gas := evm.context.gas + d } }

section Handlers

variable {d : Int} (env : Env)

theorem fund_stackPop : Commutes (EVM.fund d) stackPop := by
  refine commutes_get (fun _ => rfl) fun evm => ?_
  split
  · exact commutes_throw _
  · exact Commutes.bind (commutes_modify fun _ => rfl) fun _ => commutes_pure _

theorem fund_stackPush (value : Int) : Commutes (EVM.fund d) (stackPush value) :=
  commutes_get (fun _ => rfl) fun _ => Commutes.ite (commutes_throw _)
    (commutes_modify fun _ => rfl)

theorem fund_stackPeek (depth : Nat) : Commutes (EVM.fund d) (stackPeek depth) := by
  refine commutes_get (fun _ => rfl) fun evm => ?_
  split
  · exact commutes_throw _
  · exact commutes_pure _

theorem fund_attempt {α : Type} (x : Except PyException α) : Commutes (EVM.fund d) (attempt x) := by
  cases x with
  | error e => exact commutes_throw _
  | ok a => exact commutes_pure _

theorem fund_liftMemory {α : Type} (x : EStateM Abort Memory α) :
    Commutes (EVM.fund d) (liftMemory x) :=
  commutes_zoom x (fun _ => rfl) fun _ _ => rfl

theorem fund_binaryOp (f : Int → Int → Int) : Commutes (EVM.fund d) (binaryOp f) :=
  fund_stackPop.bind fun _ => fund_stackPop.bind fun _ => fund_stackPush _

theorem fund_pushOf {f : EVM → Int} (h : ∀ evm : EVM, f (evm.fund d) = f evm) :
    Commutes (EVM.fund d) (pushOf f) :=
  commutes_get (fun evm => congrArg stackPush (h evm)) fun _ => fund_stackPush _

theorem fund_copyOp {source : EVM → Bytes} (h : ∀ evm : EVM, source (evm.fund d) = source evm) :
    Commutes (EVM.fund d) (copyOp env source) := by
  refine fund_stackPop.bind fun _ => fund_stackPop.bind fun _ => fund_stackPop.bind fun _ => ?_
  refine Commutes.ite (commutes_pure _) (commutes_get (fun evm => ?_) fun evm => ?_)
  · rw [h evm]
  · exact (fund_attempt _).bind fun _ => (fund_attempt _).bind fun _ => fund_liftMemory _

theorem fund_jumpTo (destination : Int) : Commutes (EVM.fund d) (jumpTo destination) :=
  commutes_get (fun _ => rfl) fun _ => Commutes.ite (commutes_modify fun _ => rfl)
    (commutes_throw _)

theorem fund_opPush (n : Nat) : Commutes (EVM.fund d) (opPush n) :=
  commutes_get (fun _ => rfl) fun _ => (fund_attempt _).bind fun _ =>
    (fund_stackPush _).bind fun _ => commutes_modify fun _ => rfl

theorem fund_opSwap (depth : Nat) : Commutes (EVM.fund d) (opSwap depth) := by
  refine commutes_get (fun _ => rfl) fun _ => ?_
  split
  · exact commutes_modify fun _ => rfl
  · exact commutes_throw _

theorem fund_opSload : Commutes (EVM.fund d) opSload :=
  fund_stackPop.bind fun _ => commutes_get (fun _ => rfl) fun _ =>
    Commutes.bind (commutes_modify fun _ => rfl) fun _ => fund_stackPush _

theorem fund_opSstore : Commutes (EVM.fund d) opSstore :=
  fund_stackPop.bind fun _ => fund_stackPop.bind fun _ => commutes_get (fun _ => rfl) fun _ =>
    Commutes.bind (commutes_modify fun _ => rfl) fun _ => commutes_modify fun _ => rfl

theorem fund_readAndHalt {halt : Bytes → EVM → EVM}
    (h : ∀ data (evm : EVM), halt data (evm.fund d) = (halt data evm).fund d) :
    Commutes (EVM.fund d) (do
      let offset ← stackPop
      let size ← stackPop
      let data ← liftMemory (Memory.readRange env offset size)
      modify (halt data)) :=
  fund_stackPop.bind fun _ => fund_stackPop.bind fun _ => (fund_liftMemory _).bind fun _ =>
    commutes_modify fun _ => h _ _

/-- `GAS` alone tells how much gas there is. -/
theorem fund_localOp {opcode : Opcode} (h : opcode ≠ .gas) :
    Commutes (EVM.fund d) (localOp env opcode) := by
  cases opcode with
  | gas => exact absurd rfl h
  | push n => exact fund_opPush n
  | dup n => exact (fund_stackPeek _).bind fun _ => fund_stackPush _
  | swap n => exact fund_opSwap n
  | stop => exact commutes_modify fun _ => rfl
  | exp =>
    exact fund_stackPop.bind fun _ => fund_stackPop.bind fun _ => (fund_attempt _).bind fun _ =>
      fund_stackPush _
  | iszero | not => exact fund_stackPop.bind fun _ => fund_stackPush _
  | sha3 =>
    exact fund_stackPop.bind fun _ => fund_stackPop.bind fun _ =>
      (fund_liftMemory _).bind fun _ => fund_stackPush _
  | address | caller | callvalue | calldatasize | codesize | msize =>
    exact fund_pushOf fun _ => rfl
  | calldataload =>
    exact fund_stackPop.bind fun _ => commutes_get (fun _ => rfl) fun _ =>
      (fund_attempt _).bind fun _ => fund_stackPush _
  | calldatacopy | codecopy => exact fund_copyOp env fun _ => rfl
  | pop => exact fund_stackPop.bind fun _ => commutes_pure _
  | mload =>
    exact fund_stackPop.bind fun _ => (fund_liftMemory _).bind fun _ => fund_stackPush _
  | mstore | mstore8 =>
    exact fund_stackPop.bind fun _ => fund_stackPop.bind fun _ => fund_liftMemory _
  | sload => exact fund_opSload
  | sstore => exact fund_opSstore
  | jump => exact fund_stackPop.bind fun _ => fund_jumpTo _
  | jumpi =>
    exact fund_stackPop.bind fun _ => fund_stackPop.bind fun _ =>
      Commutes.ite (fund_jumpTo _) (commutes_pure _)
  | jumpdest => exact commutes_pure _
  | «return» | revert => exact fund_readAndHalt env fun _ _ => rfl
  | create | call | invalid => exact commutes_get (fun _ => rfl) fun _ => commutes_throw _
  | add | mul | sub | div | mod | lt | gt | eq | and | or => exact fund_binaryOp _

end Handlers

/-- The opcodes that do not look at the gas, start no frame and do not take all gas away. -/
structure Opcode.GasBlind (opcode : Opcode) : Prop where
  gas : opcode ≠ .gas
  call : opcode ≠ .call
  create : opcode ≠ .create
  invalid : opcode ≠ .invalid

def Event.executedOpcode : Event → Option Opcode
  | .executed _ opcode => some opcode
  | _ => none

/-- Only such opcodes were executed. -/
def GasBlind (log : List Event) : Prop :=
  ∀ a opcode, Event.executed a opcode ∈ log → opcode.GasBlind

variable {env : Env} {fuel fuel' : Nat} {evm evm' : EVM} {d : Int}

instance (opcode : Opcode) : Decidable opcode.GasBlind :=
  decidable_of_iff (opcode ≠ .gas ∧ opcode ≠ .call ∧ opcode ≠ .create ∧ opcode ≠ .invalid)
    ⟨fun ⟨h₁, h₂, h₃, h₄⟩ => ⟨h₁, h₂, h₃, h₄⟩, fun h => ⟨h.gas, h.call, h.create, h.invalid⟩⟩

instance (log : List Event) : Decidable (GasBlind log) :=
  decidable_of_iff (∀ event ∈ log, ∀ opcode ∈ event.executedOpcode, opcode.GasBlind)
    ⟨fun h a opcode hmem => h _ hmem opcode rfl, fun h event hmem opcode hop => by
      cases event with
      | executed a opcode' => cases hop; exact h _ _ hmem
      | _ => cases hop⟩

theorem GasBlind.mono {log log' : List Event} (h : GasBlind log') (hl : log <+: log') :
    GasBlind log :=
  fun a opcode hmem => h a opcode (hl.subset hmem)

/-- An iteration that only executes such an opcode has paid for it and run its handler. -/
theorem paid_of_iterate (hrun : evm.running = true)
    (h : iterate env (execute env fuel) evm = .ok () evm') (hblind : GasBlind evm'.log) :
    ∃ byte opcode, evm.code[evm.programCounter]? = some byte ∧
      Opcode.ofByte byte = some opcode ∧ opcode.GasBlind ∧ gasCost opcode ≤ evm.gasRemaining ∧
      localOp env opcode (evm.charge opcode) = .ok () evm' := by
  rw [iterate_eq] at h
  obtain ⟨child, evm₁, hb, hrest⟩ := ok_of_bind_apply h
  have hlog : evm₁.log <+: evm'.log := by
    cases child with
    | none =>
      cases hrest
      exact List.prefix_rfl
    | some p =>
      have hchild := progress_child hrun hb (run_progress (run_runLoop env fuel p.child))
      change settle env p (conclude p.gas (runLoop env fuel p.child)) evm₁ = .ok () evm' at hrest
      rw [hrest] at hchild
      exact hchild.log
  obtain ⟨byte, opcode, hbyte, hop, ⟨rfl, -, rfl⟩ | ⟨hne, hgas, hpaid⟩⟩ := begin_eq_ok hrun hb
  · have hmem : Event.executed evm.context.address .invalid ∈ evm.invalidated.log :=
      List.mem_append_right _ (List.mem_singleton_self _)
    exact absurd rfl (hblind _ _ (hlog.subset hmem)).invalid
  · have hcharged : (evm.charge opcode).log <+: evm₁.log := by
      have hprogress : Progress (evm.charge opcode)
          (final (beginOp env opcode (evm.charge opcode))) := by
        cases beginOp_effect env (evm.charge opcode) opcode with
        | inFrame hr h => exact progress_localEffect h
        | contract hop h => exact progress_start h
      rw [hpaid] at hprogress
      exact hprogress.log
    have hmem : Event.executed evm.context.address opcode ∈ (evm.charge opcode).log :=
      List.mem_append_right _ (List.mem_singleton_self _)
    have hop' := hblind _ _ (hlog.subset (hcharged.subset hmem))
    refine ⟨byte, opcode, hbyte, hop, hop', hgas, ?_⟩
    rw [beginOp_local hop'.create hop'.call] at hpaid
    obtain ⟨_, hlocal, rfl⟩ := ok_of_mapOk hpaid
    cases hrest
    exact hlocal

theorem fund_charge (d : Int) (evm : EVM) (opcode : Opcode) :
    (evm.fund d).charge opcode = (evm.charge opcode).fund d := by
  simp only [EVM.fund, EVM.charge, EVM.mk.injEq, true_and, and_true]
  omega

/-- The handler of such an opcode in a frame with other gas. -/
theorem iterate_fund (exec : EVM → Outcome) {byte : UInt8} {opcode : Opcode}
    (hbyte : evm.code[evm.programCounter]? = some byte) (hop : Opcode.ofByte byte = some opcode)
    (hblind : opcode.GasBlind) (h : localOp env opcode (evm.charge opcode) = .ok () evm')
    (hgas : gasCost opcode ≤ evm.gasRemaining + d) :
    iterate env exec (evm.fund d) = .ok () (evm'.fund d) := by
  have hpaid := iterate_of_paid env exec opcode
    (show (evm.fund d).code[(evm.fund d).programCounter]? = some byte from hbyte) hop
    hblind.invalid (show gasCost opcode ≤ (evm.fund d).gasRemaining from hgas)
  rw [hpaid, dispatch_local exec hblind.create hblind.call, fund_charge,
    fund_localOp env hblind.gas, h]
  rfl

/-- Two runs in lockstep: with the gas that the first has used the second ends alike, with
less it runs out of gas. -/
theorem runLoop_fund (h : runLoop env fuel evm = .ok () evm') (hfuel : fuel ≤ fuel')
    (hblind : GasBlind evm'.log) (d : Int) :
    evm'.gasRemaining ≤ evm.gasRemaining ∧
      (0 ≤ evm'.gasRemaining + d → runLoop env fuel' (evm.fund d) = .ok () (evm'.fund d)) ∧
      (evm'.gasRemaining + d < 0 → 0 ≤ evm.gasRemaining + d ∨ evm.running = true →
        ∃ needed remaining evm'', runLoop env fuel' (evm.fund d) =
          .error (.raised (.evmError (.outOfGas needed remaining))) evm'') := by
  induction fuel generalizing evm fuel' with
  | zero => cases h
  | succ fuel ih =>
    obtain ⟨n, rfl⟩ : ∃ n, fuel' = n + 1 := ⟨fuel' - 1, by omega⟩
    cases hrun : evm.running with
    | false =>
      have hhalted : runLoop env (n + 1) (evm.fund d) = .ok () (evm.fund d) :=
        runLoop_of_halted (show (evm.fund d).running = false from hrun)
      rw [runLoop_of_halted hrun] at h
      cases h
      refine ⟨le_rfl, fun _ => hhalted, fun hneg hstart => ?_⟩
      rcases hstart with hstart | hstart
      · omega
      · cases hstart
    | true =>
      rw [runLoop_of_running hrun] at h
      obtain ⟨_, evm₁, hstep, hrest⟩ := ok_of_bind_apply h
      have hlog := (run_progress (run_runLoop env fuel evm₁)).log
      rw [hrest] at hlog
      obtain ⟨byte, opcode, hbyte, hop, hop', hgas, hlocal⟩ :=
        paid_of_iterate hrun hstep (hblind.mono hlog)
      have hpaid : evm₁.gasRemaining = evm.gasRemaining - gasCost opcode := by
        have heffect : LocalEffect (evm.charge opcode)
          (final (localOp env opcode (evm.charge opcode))) := localOp_effect opcode
        rw [hlocal] at heffect
        exact (charged_localEffect heffect).2
      have hcost := gasCost_nonneg opcode
      obtain ⟨hle, hok, hout⟩ := ih hrest (Nat.le_of_succ_le_succ hfuel)
      refine ⟨by omega, fun henough => ?_, fun hneg _ => ?_⟩
      · have hiterate := iterate_fund (execute env n) hbyte hop hop' hlocal
          (show gasCost opcode ≤ evm.gasRemaining + d by omega)
        rw [runLoop_of_ok (show (evm.fund d).running = true from hrun) hiterate]
        exact hok henough
      · rcases le_or_gt (gasCost opcode) (evm.gasRemaining + d) with hd | hd
        · have hiterate := iterate_fund (execute env n) hbyte hop hop' hlocal hd
          rw [runLoop_of_ok (show (evm.fund d).running = true from hrun) hiterate]
          exact hout hneg (.inl (by omega))
        · have hiterate : iterate env (execute env n) (evm.fund d) = _ := iterate_of_unpaid opcode
            (show (evm.fund d).code[(evm.fund d).programCounter]? = some byte from hbyte) hop
            hop'.invalid (show (evm.fund d).gasRemaining < gasCost opcode from hd)
          exact ⟨_, _, _, runLoop_of_error (show (evm.fund d).running = true from hrun) hiterate⟩

theorem init_fund (code : Bytes) (context : ExecutionContext) (storage : Dict Int Int)
    (world : Option WorldState) (log : List Event) (gas : Int) :
    EVM.init code { context with gas } storage world log =
      (EVM.init code context storage world log).fund (gas - context.gas) := by
  simp only [EVM.fund, EVM.init, EVM.mk.injEq, true_and, and_true]
  exact ⟨by omega, by congr 1; omega⟩

theorem running_init {code : Bytes} (h : code ≠ []) (context : ExecutionContext)
    (storage : Dict Int Int) (world : Option WorldState) (log : List Event) :
    (EVM.init code context storage world log).running = true := by
  have := List.length_pos_iff.mpr h
  exact decide_eq_true this

/-- The same code, caller, address, value, calldata and storage with other gas: with less
than `gasUsed` the run raises `OutOfGas`, with that much or more it ends alike. -/
theorem gas_used_is_threshold (env : Env) (fuel fuel' : Nat) (code : Bytes)
    (context : ExecutionContext) (storage : Dict Int Int) (world : Option WorldState) (gas : Int)
    {result : ExecutionResult} {evm : EVM}
    (h : execute env fuel (EVM.init code context storage world []) = .ok result evm)
    (hblind : GasBlind evm.log) (hfuel : fuel ≤ fuel') (hgas : 0 ≤ gas ∨ code ≠ []) :
    (gas < result.gasUsed → ∃ needed remaining evm',
      execute env fuel' (EVM.init code { context with gas } storage world []) =
        .error (.raised (.evmError (.outOfGas needed remaining))) evm') ∧
    (result.gasUsed ≤ gas → ∃ result' evm',
      execute env fuel' (EVM.init code { context with gas } storage world []) = .ok result' evm' ∧
      result'.success = result.success ∧ result'.returnData = result.returnData ∧
      result'.gasUsed = result.gasUsed ∧
      evm'.storage = evm.storage ∧ evm'.memory = evm.memory) := by
  obtain ⟨hloop, rfl⟩ := conclude_eq_ok h
  obtain ⟨-, hok, hout⟩ := runLoop_fund hloop hfuel hblind (gas - context.gas)
  have hstart : (EVM.init code context storage world []).gasRemaining = context.gas := rfl
  rw [← init_fund] at hok hout
  refine ⟨fun hlt => ?_, fun hle => ?_⟩
  · have hneg : evm.gasRemaining + (gas - context.gas) < 0 := by
      dsimp only at hlt
      omega
    have henough : 0 ≤ (EVM.init code context storage world []).gasRemaining +
        (gas - context.gas) ∨ (EVM.init code context storage world []).running = true := by
      rcases hgas with hgas | hgas
      · exact .inl (by omega)
      · exact .inr (running_init hgas _ _ _ _)
    obtain ⟨needed, remaining, evm', hraise⟩ := hout hneg henough
    exact ⟨needed, remaining, { evm' with reverted := true, gasRemaining := 0 }, by
      rw [execute, hraise]
      rfl⟩
  · have henough : 0 ≤ evm.gasRemaining + (gas - context.gas) := by
      dsimp only at hle
      omega
    refine ⟨_, evm.fund (gas - context.gas), congrArg (conclude _) (hok henough), rfl, rfl, ?_,
      rfl, rfl⟩
    change gas - (evm.gasRemaining + (gas - context.gas)) = context.gas - evm.gasRemaining
    omega

/-- A loop that stores 2, 1 and 0 in slot 0, without the gas for it. -/
theorem gas_used_is_threshold_loop : ∃ needed remaining evm,
    execute sampleEnv 50 (EVM.init
      [0x60, 0x03, 0x5b, 0x60, 0x01, 0x90, 0x03, 0x80, 0x60, 0x00, 0x55, 0x80, 0x60, 0x02, 0x57]
      { sampleContext 100000 with gas := 10000 } .empty none []) =
      .error (.raised (.evmError (.outOfGas needed remaining))) evm := by
  obtain ⟨result, evm, h, hp⟩ := exists_of_returns
    (p := fun (result : ExecutionResult) (evm : EVM) =>
      decide (GasBlind evm.log ∧ 10000 < result.gasUsed))
    (r := execute sampleEnv 50 (EVM.init
      [0x60, 0x03, 0x5b, 0x60, 0x01, 0x90, 0x03, 0x80, 0x60, 0x00, 0x55, 0x80, 0x60, 0x02, 0x57]
      (sampleContext 100000) .empty none []))
    (by decide +kernel)
  obtain ⟨hblind, hused⟩ := of_decide_eq_true hp
  exact (gas_used_is_threshold sampleEnv 50 50 _ _ _ _ 10000 h hblind le_rfl
    (.inl (by decide))).1 hused

end Ethereum
