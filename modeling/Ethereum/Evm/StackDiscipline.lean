import Ethereum.Evm.Reach
import Ethereum.Evm.StackEffect

/-! The stack of a frame in every state that a run gets to, and what each opcode does to it. -/
namespace Ethereum

open Stateful

variable {α : Type} {env : Env} {evm : EVM} {stack : List Int} {δ ε : Nat}

theorem ne_dup_zero {byte : UInt8} {opcode : Opcode} (h : Opcode.ofByte byte = some opcode) :
    opcode ≠ .dup 0 := by
  rintro rfl
  cases decodes_of_ofByte h with
  | single _ _ hdup _ => exact hdup 0 rfl

section Reachable

/-- The computation never leaves more than 1024 items where there were not more before. -/
abbrev KeepsDepth (x : EvmM α) : Prop :=
  Maintains (fun _ => True) (fun evm => evm.executionStack.length ≤ maxStackDepth) x fun _ => True

theorem Shifts.keepsDepth {x : EvmM α} (hx : Shifts δ ε x) : KeepsDepth x := by
  intro evm h
  have hdepth := (hx evm).depth
  rw [Nat.max_eq_right h] at hdepth
  exact ⟨hdepth, fun _ _ _ => trivial, fun _ _ _ => trivial⟩

theorem LeavesStack.keepsDepth {x : EvmM α} (hx : LeavesStack x) : KeepsDepth x := by
  intro evm h
  obtain ⟨hstack, -, -⟩ := hx evm.executionStack evm rfl
  exact ⟨hstack ▸ h, fun _ _ _ => trivial, fun _ _ _ => trivial⟩

theorem keepsDepth_stackPop : KeepsDepth stackPop := by
  have h := (shifts_stackPop fun v => shifts_pure v).keepsDepth
  rwa [bind_pure] at h

theorem keepsDepth_writeReturnData (retOffset retLength : Int) (returnData : Bytes) :
    KeepsDepth (writeReturnData env retOffset retLength returnData) := by
  have hwrite : ∀ data, LeavesStack (liftMemory (Memory.writeRange env retOffset data)) :=
    fun data => leaves_liftMemory (spared_writeRange _ _)
  refine LeavesStack.keepsDepth (LeavesStack.ite ?_ (leaves_pure ()))
  exact ((leaves_attempt (spares_allocate env _ _)).bind fun _ => hwrite _).ite (hwrite _)

theorem keepsDepth_settle (p : Pending) (o : Outcome) : KeepsDepth (settle env p o) :=
  settle_maintains env (fun _ _ _ => maintains_modify fun _ h => h)
    (fun _ => maintains_modify fun _ h => h) (fun _ _ _ => keepsDepth_writeReturnData _ _ _)
    (fun _ => maintains_modify fun _ h => h) (fun v _ => (shifts_stackPush v).keepsDepth)
    fun _ _ _ => trivial

theorem keepsDepth_beginOp {opcode : Opcode} (hdup : opcode ≠ .dup 0) (hinvalid : opcode ≠ .invalid)
    (h : evm.executionStack.length ≤ maxStackDepth) :
    (final (beginOp env opcode evm)).executionStack.length ≤ maxStackDepth := by
  have hread : ∀ offset size, KeepsDepth (liftMemory (Memory.readRange env offset size)) :=
    fun _ _ => (leaves_liftMemory (spared_readRange _ _)).keepsDepth
  have hpush : ∀ value, KeepsDepth (stackPush value) := fun value =>
    (shifts_stackPush value).keepsDepth
  by_cases hcreate : opcode = .create
  · subst hcreate
    rw [beginOp_create, final_mapOk]
    exact (opCreateStart_maintains env keepsDepth_stackPop hpush hread
      (fun _ => maintains_modify fun _ h => h) evm h).invariant
  · by_cases hcall : opcode = .call
    · subst hcall
      rw [beginOp_call, final_mapOk]
      exact (opCallStart_maintains env keepsDepth_stackPop hpush hread
        (fun _ => maintains_modify fun _ h => h) (fun _ => maintains_modify fun _ h => h)
        evm h).invariant
    · rw [beginOp_local hcreate hcall, final_mapOk]
      exact ((shifts_localOp hdup hcreate hcall hinvalid).keepsDepth evm h).invariant

/-- No half of an iteration takes a stack beyond 1024 items, and a child frame starts without
any. -/
theorem frameInvariant_depth (env : Env) : FrameInvariant env (fun _ => True)
    fun evm => evm.executionStack.length ≤ maxStackDepth where
  first := by
    intro evm _ hrun h
    apply final_begin (P := fun evm₁ => evm₁.executionStack.length ≤ maxStackDepth) env hrun h h
    rintro opcode hop _ ⟨byte, hbyte⟩
    exact keepsDepth_beginOp (ne_dup_zero hbyte) hop h
  child := by
    intro evm evm₁ p _ hrun hb _
    obtain ⟨_, _, _, _, _, _, _, hchild, -⟩ := childOf_of_begin hrun hb
    rw [hchild.child]
    exact Nat.zero_le _
  second := by
    intro evm evm₁ p c _ _ _ _ h _
    exact (keepsDepth_settle p (conclude p.gas c) evm₁ h).invariant

end Reachable

/-- The items that an opcode takes and puts decide which error the stack raises, and what becomes
of it if none is raised. -/
structure StackDisciplined (opcode : Opcode) (stack : List Int)
    (r : EStateM.Result Abort EVM Unit) : Prop where
  underflow : (∃ needed actual evm,
    r = .error (.raised (.evmError (.stackUnderflow needed actual))) evm) ↔
      stack.length < opcode.removed
  overflow : (∃ depth evm, r = .error (.raised (.evmError (.stackOverflow depth))) evm) →
    opcode.removed ≤ stack.length ∧ maxStackDepth < stack.length - opcode.removed + opcode.added
  overflows : stack.length ≤ maxStackDepth → opcode.removed ≤ stack.length →
    maxStackDepth < stack.length - opcode.removed + opcode.added →
      ∃ depth evm, r = .error (.raised (.evmError (.stackOverflow depth))) evm
  height : ∀ evm, r = .ok () evm →
    evm.executionStack.length = stack.length - opcode.removed + opcode.added
  untouched : ∀ evm, r = .ok () evm →
    evm.executionStack.drop opcode.added = stack.drop opcode.removed

theorem stackDisciplined_of_stackEffect {opcode : Opcode} {r : EStateM.Result Abort EVM Unit}
    (h : StackEffect opcode.removed opcode.added stack r)
    (hfull : opcode.removed < opcode.added → opcode.removed ≤ stack.length →
      maxStackDepth ≤ stack.length →
      ∃ depth evm, r = .error (.raised (.evmError (.stackOverflow depth))) evm) :
    StackDisciplined opcode stack r where
  underflow := by
    constructor
    · rintro ⟨needed, actual, s, rfl⟩
      cases h with
      | underflow hδ _ => exact hδ
      | spared _ he _ => exact absurd rfl (he.underflow needed actual)
    · intro hlt
      cases h with
      | underflow _ _ => exact ⟨_, _, _, rfl⟩
      | overflow hδ _ _ => omega
      | spared hδ _ _ => omega
      | completed hδ _ _ _ => omega
  overflow := by
    rintro ⟨depth, s, rfl⟩
    cases h with
    | overflow hδ hfull _ => exact ⟨hδ, hfull⟩
    | spared _ he _ => exact absurd rfl (he.overflow depth)
  overflows := by
    intro hle hδ hover
    have hadded := opcode.added_le
    exact hfull (by omega) hδ (by omega)
  height := by
    rintro s rfl
    cases h with
    | completed _ hheight _ _ => exact hheight
  untouched := by
    rintro s rfl
    cases h with
    | completed _ _ huntouched _ => exact huntouched

/-- Every opcode that starts no frame raises an underflow exactly where it would remove more items
than there are, leaves the other items alone and changes the height by what it adds and removes.
It raises an overflow only where the result is too high, and always there, unless the stack is
too high already, which it is in no state that a run gets to. -/
theorem stack_discipline (env : Env) :
    (∀ (exec : EVM → Outcome) (evm : EVM) (byte : UInt8) (opcode : Opcode),
      evm.code[evm.programCounter]? = some byte → Opcode.ofByte byte = some opcode →
      opcode ∉ [.create, .call, .invalid] → gasCost opcode ≤ evm.gasRemaining →
      StackDisciplined opcode evm.executionStack (iterate env exec evm)) ∧
    ∀ code context storage world log evm,
      Passes env (EVM.init code context storage world log) evm →
      evm.executionStack.length ≤ maxStackDepth := by
  constructor
  · intro exec evm byte opcode hbyte hop hmem hgas
    obtain ⟨hcreate, hcall, hinvalid⟩ :
        opcode ≠ .create ∧ opcode ≠ .call ∧ opcode ≠ .invalid := by
      simpa using hmem
    rw [iterate_of_paid env exec opcode hbyte hop hinvalid hgas, dispatch_local exec hcreate hcall]
    apply stackDisciplined_of_stackEffect
    · exact shifts_localOp (ne_dup_zero hop) hcreate hcall hinvalid (evm.charge opcode)
    · intro hgrows hδ hfull
      exact ⟨_, _, overflow_of_full hgrows (by exact hδ) (by exact hfull)⟩
  · intro code context storage world log evm h
    exact (frameInvariant_depth env).passes (fun _ => trivial) h (Nat.zero_le _)

/-- A frame with 3 gas. -/
def stackFrame (code : Bytes) (stack : List Int) : EVM :=
  { EVM.init code { caller := [], address := [], value := 0, data := [], gas := 3 } .empty none []
    with executionStack := stack }

/-- `ADD` removes two items, but there is one. -/
theorem stack_discipline_add : ∃ needed actual evm',
    iterate (.ofTables [] [] (by decide) (by decide)) (fun child => .error .outOfFuel child)
      (stackFrame [0x01] [7]) =
        .error (.raised (.evmError (.stackUnderflow needed actual))) evm' :=
  ((stack_discipline (.ofTables [] [] (by decide) (by decide))).1
    (fun child => .error .outOfFuel child) (stackFrame [0x01] [7]) 0x01 .add rfl (by decide)
    (by decide) (by decide)).underflow.mpr (by decide)

/-- `POP` leaves 1025 of 1026 items, and raises nothing. -/
theorem stack_discipline_not_overfull : ¬ ∀ (env : Env) (exec : EVM → Outcome) (evm : EVM)
    (byte : UInt8) (opcode : Opcode),
      evm.code[evm.programCounter]? = some byte → Opcode.ofByte byte = some opcode →
      opcode ∉ [.create, .call, .invalid] → gasCost opcode ≤ evm.gasRemaining →
      ((∃ depth evm', iterate env exec evm =
          .error (.raised (.evmError (.stackOverflow depth))) evm') ↔
        opcode.removed ≤ evm.executionStack.length ∧
          maxStackDepth < evm.executionStack.length - opcode.removed + opcode.added) := by
  intro h
  obtain ⟨env⟩ : Nonempty Env := ⟨.ofTables [] [] (by decide) (by decide)⟩
  have hlength : (stackFrame [0x50] (0 :: List.replicate 1025 0)).executionStack.length = 1026 :=
    congrArg (· + 1) List.length_replicate
  have hpop := h env (fun child => .error .outOfFuel child)
    (stackFrame [0x50] (0 :: List.replicate 1025 0)) 0x50 .pop rfl (by decide) (by decide)
    (by decide)
  rw [hlength] at hpop
  obtain ⟨depth, evm', hraise⟩ := hpop.mpr (by decide)
  have hbyte : (stackFrame [0x50] (0 :: List.replicate 1025 0)).code[0]? = some 0x50 := rfl
  rw [iterate_of_paid env _ .pop hbyte (by decide) (by decide) (by decide)] at hraise
  cases hraise

end Ethereum
