import Ethereum.Evm.Hoare

/-! How many items each opcode takes off the stack and puts on it. -/
namespace Ethereum

open Stateful

namespace Opcode

/-- The items that the opcode takes off the stack. -/
def removed : Opcode → Nat
  | .stop | .jumpdest | .invalid | .push _ => 0
  | .address | .caller | .callvalue | .calldatasize | .codesize | .msize | .gas => 0
  | .iszero | .not | .calldataload | .pop | .mload | .sload | .jump => 1
  | .add | .mul | .sub | .div | .mod | .exp | .lt | .gt | .eq | .and | .or => 2
  | .sha3 | .mstore | .mstore8 | .sstore | .jumpi | .return | .revert => 2
  | .calldatacopy | .codecopy | .create => 3
  | .call => 7
  | .dup n => n
  | .swap n => n + 1

/-- The items that it puts on the stack. -/
def added : Opcode → Nat
  | .stop | .jumpdest | .invalid | .pop | .jump | .jumpi | .return | .revert => 0
  | .mstore | .mstore8 | .sstore | .calldatacopy | .codecopy => 0
  | .dup n | .swap n => n + 1
  | _ => 1

theorem added_le (opcode : Opcode) : opcode.added ≤ opcode.removed + 1 := by
  cases opcode <;> simp [added, removed]

end Opcode

/-- An error that the stack is not to blame for. -/
structure Abort.SparesStack (e : Abort) : Prop where
  underflow : ∀ needed actual, e ≠ .raised (.evmError (.stackUnderflow needed actual))
  overflow : ∀ depth, e ≠ .raised (.evmError (.stackOverflow depth))

/-- What comes of a stack from which `δ` items are taken and on which `ε` items are put. -/
inductive StackEffect {α : Type} (δ ε : Nat) (stack : List Int) :
    EStateM.Result Abort EVM α → Prop
  | underflow {needed actual evm} (hδ : stack.length < δ)
      (hdepth : evm.executionStack.length ≤ max stack.length maxStackDepth) :
      StackEffect δ ε stack (.error (.raised (.evmError (.stackUnderflow needed actual))) evm)
  | overflow {depth evm} (hδ : δ ≤ stack.length) (hfull : maxStackDepth < stack.length - δ + ε)
      (hdepth : evm.executionStack.length ≤ max stack.length maxStackDepth) :
      StackEffect δ ε stack (.error (.raised (.evmError (.stackOverflow depth))) evm)
  | spared {e evm} (hδ : δ ≤ stack.length) (he : e.SparesStack)
      (hdepth : evm.executionStack.length ≤ max stack.length maxStackDepth) :
      StackEffect δ ε stack (.error e evm)
  | completed {a evm} (hδ : δ ≤ stack.length)
      (hheight : evm.executionStack.length = stack.length - δ + ε)
      (huntouched : evm.executionStack.drop ε = stack.drop δ)
      (hdepth : evm.executionStack.length ≤ max stack.length maxStackDepth) :
      StackEffect δ ε stack (.ok a evm)

variable {α β : Type} {env : Env} {evm evm' : EVM} {stack : List Int} {δ ε k n : Nat}

namespace StackEffect

variable {r : EStateM.Result Abort EVM α}

/-- Items below do not matter. -/
theorem frame (h : StackEffect δ ε stack r) (hk : δ + k ≤ stack.length) :
    StackEffect (δ + k) (ε + k) stack r := by
  cases h with
  | underflow hδ _ => omega
  | overflow _ hfull hdepth => exact .overflow hk (by omega) hdepth
  | spared _ he hdepth => exact .spared hk he hdepth
  | completed _ hheight huntouched hdepth =>
    refine .completed hk (by omega) ?_ hdepth
    rw [← List.drop_drop, ← List.drop_drop, huntouched]

/-- Where the top item was taken off before. -/
theorem cons (h : StackEffect δ ε stack r) (v : Int) :
    StackEffect (δ + 1) ε (v :: stack) r := by
  have hlength : (v :: stack).length = stack.length + 1 := List.length_cons
  cases h with
  | underflow hδ hdepth => exact .underflow (by omega) (by omega)
  | overflow hδ hfull hdepth => exact .overflow (by omega) (by omega) (by omega)
  | spared hδ he hdepth => exact .spared (by omega) he (by omega)
  | completed hδ hheight huntouched hdepth =>
    exact .completed (by omega) (by omega) huntouched (by omega)

theorem depth (h : StackEffect δ ε stack r) :
    (final r).executionStack.length ≤ max stack.length maxStackDepth := by
  cases h with
  | underflow _ hdepth => exact hdepth
  | overflow _ _ hdepth => exact hdepth
  | spared _ _ hdepth => exact hdepth
  | completed _ _ _ hdepth => exact hdepth

end StackEffect

/-- The computation has this effect on every stack. -/
def Shifts (δ ε : Nat) (x : EvmM α) : Prop :=
  ∀ evm, StackEffect δ ε evm.executionStack (x evm)

/-- The computation neither changes the stack nor complains about it. -/
def LeavesStack (x : EvmM α) : Prop :=
  ∀ stack, Maintains Abort.SparesStack (fun evm => evm.executionStack = stack) x fun _ => True

section Rules

theorem shifts_stackPop {x : Int → EvmM α} (hx : ∀ v, Shifts δ ε (x v)) :
    Shifts (δ + 1) ε (stackPop >>= x) := by
  intro evm
  cases hs : evm.executionStack with
  | nil =>
    rw [bind_of_error (stackPop_of_nil hs)]
    exact .underflow (Nat.zero_lt_succ _) (by simp [hs])
  | cons v rest =>
    rw [bind_of_ok (stackPop_of_cons hs)]
    exact (hx v { evm with executionStack := rest }).cons v

theorem shifts_stackPush (v : Int) : Shifts 0 1 (stackPush v) := by
  intro evm
  rcases Nat.lt_or_ge evm.executionStack.length maxStackDepth with h | h
  · rw [stackPush_of_lt h]
    exact .completed (Nat.zero_le _) rfl rfl (by rw [List.length_cons]; omega)
  · rw [stackPush_of_le v h]
    exact .overflow (Nat.zero_le _) (by omega) (le_max_left _ _)

/-- The first steps have left the stack alone. -/
theorem LeavesStack.bind_shifts {x : EvmM α} {f : α → EvmM β} (hx : LeavesStack x)
    (hf : ∀ a, Shifts 0 ε (f a)) : Shifts 0 ε (x >>= f) := by
  intro evm
  obtain ⟨hstack, -, herror⟩ := hx evm.executionStack evm rfl
  cases hr : x evm with
  | ok a evm' =>
    rw [hr, final_ok] at hstack
    rw [bind_of_ok hr, ← hstack]
    exact hf a evm'
  | error e evm' =>
    rw [hr, final_error] at hstack
    rw [bind_of_error hr]
    exact .spared (Nat.zero_le _) (herror e evm' hr) (hstack ▸ le_max_left _ _)

theorem shifts_pure (a : α) : Shifts 0 0 (pure a : EvmM α) :=
  fun _ => .completed (Nat.zero_le _) rfl rfl (le_max_left _ _)

theorem LeavesStack.shifts {x : EvmM α} (hx : LeavesStack x) : Shifts 0 0 x := by
  have h := hx.bind_shifts shifts_pure
  rwa [bind_pure] at h

/-- The last steps leave the stack alone. -/
theorem Shifts.bind {x : EvmM α} {f : α → EvmM β} (hx : Shifts δ ε x)
    (hf : ∀ a, LeavesStack (f a)) : Shifts δ ε (x >>= f) := by
  intro evm
  have h := hx evm
  cases hr : x evm with
  | error e evm' =>
    rw [hr] at h
    rw [bind_of_error hr]
    cases h with
    | underflow hδ hdepth => exact .underflow hδ hdepth
    | overflow hδ hfull hdepth => exact .overflow hδ hfull hdepth
    | spared hδ he hdepth => exact .spared hδ he hdepth
  | ok a evm' =>
    rw [hr] at h
    rw [bind_of_ok hr]
    cases h with
    | completed hδ hheight huntouched hdepth =>
      obtain ⟨hstack, -, herror⟩ := hf a evm'.executionStack evm' rfl
      cases hrest : f a evm' with
      | ok b evm'' =>
        rw [hrest, final_ok] at hstack
        exact .completed hδ (hstack ▸ hheight) (hstack ▸ huntouched) (hstack ▸ hdepth)
      | error e evm'' =>
        rw [hrest, final_error] at hstack
        exact .spared hδ (herror e evm'' hrest) (hstack ▸ hdepth)

end Rules

section Spared

/-- The step raises nothing that the stack is to blame for. -/
def Spares (x : Except PyException α) : Prop := ∀ e, x = .error e → (Abort.raised e).SparesStack

theorem spares_ok (a : α) : Spares (.ok a : Except PyException α) := by
  intro e h
  cases h

/-- Errors that are not the machine's own. -/
theorem spares_error {e : PyException} (h : ∀ e', e ≠ .evmError e') :
    Spares (.error e : Except PyException α) := by
  rintro _ ⟨⟩
  constructor
  · intro needed actual he
    exact h _ (Abort.raised.inj he)
  · intro depth he
    exact h _ (Abort.raised.inj he)

theorem Spares.bind {x : Except PyException α} {f : α → Except PyException β} (hx : Spares x)
    (hf : ∀ a, Spares (f a)) : Spares (x >>= f) := by
  cases x with
  | error e =>
    rintro _ ⟨⟩
    exact hx e rfl
  | ok a => exact hf a

theorem Spares.ite {c : Prop} [Decidable c] {x y : Except PyException α} (hx : Spares x)
    (hy : Spares y) : Spares (if c then x else y) := by
  split
  · exact hx
  · exact hy

theorem spares_mapM {f : α → Except PyException β} (hf : ∀ a, Spares (f a)) (l : List α) :
    Spares (l.mapM f) := by
  induction l with
  | nil => exact spares_ok []
  | cons a l ih =>
    rw [List.mapM_cons]
    exact (hf a).bind fun _ => ih.bind fun _ => spares_ok _

theorem spares_allocate (env : Env) (count total : Int) : Spares (env.allocate count total) :=
  (spares_error (by simp)).ite ((spares_error (by simp)).ite (spares_ok ()))

theorem spares_bytearray (env : Env) (size : Int) : Spares (env.bytearray size) :=
  (spares_error (by simp)).ite ((spares_allocate env _ _).bind fun _ => spares_ok _)

theorem spares_getIndex (l : Bytes) (i : Int) : Spares (getIndex l i) := by
  unfold getIndex
  refine (spares_error (by simp)).ite ?_
  split
  · exact spares_ok _
  · exact spares_error (by simp)

theorem spares_readWindow (data : Bytes) (offset : Int) (size : Nat) :
    Spares (readWindow data offset size) :=
  spares_mapM (fun _ => (spares_getIndex _ _).ite (spares_ok 0)) _

theorem spares_setIndex (l : Bytes) (i : Int) (b : UInt8) : Spares (setIndex l i b) :=
  (spares_error (by simp)).ite (spares_ok _)

theorem spares_intToBytes (width : Nat) (v : Int) : Spares (intToBytes width v) :=
  (spares_error (by simp)).ite ((spares_error (by simp)).ite (spares_ok _))

theorem spares_powMod (base exponent : Int) : Spares (powMod base exponent) :=
  (spares_ok _).ite ((spares_error (by simp)).ite (spares_ok _))

theorem maintains_spared {σ : Type} {I : σ → Prop} {x : Except PyException α} (hx : Spares x) :
    Maintains Abort.SparesStack I (attempt x) fun _ => True := by
  cases x with
  | ok a => exact maintains_pure trivial
  | error e => exact maintains_throw (hx e rfl)

/-- The memory raises nothing that the stack is to blame for. -/
abbrev SparedMemory (x : EStateM Abort Memory α) : Prop :=
  Maintains Abort.SparesStack (fun _ => True) x fun _ => True

theorem spared_expandTo (offset size : Int) : SparedMemory (Memory.expandTo env offset size) :=
  maintains_get.bind fun _ _ => Maintains.ite (fun _ => maintains_pure trivial) fun _ =>
    (maintains_spared (spares_allocate env _ _)).bind fun _ _ => maintains_modify fun _ h => h

theorem spared_load (offset : Int) : SparedMemory (Memory.load env offset) :=
  (spared_expandTo offset 32).bind fun _ _ => maintains_get.bind fun _ _ => maintains_pure trivial

theorem spared_store (offset value : Int) : SparedMemory (Memory.store env offset value) :=
  (spared_expandTo offset 32).bind fun _ _ =>
    (maintains_spared (spares_intToBytes 32 value)).bind fun _ _ => maintains_modify fun _ h => h

theorem spared_store8 (offset value : Int) : SparedMemory (Memory.store8 env offset value) :=
  (spared_expandTo offset 1).bind fun _ _ => maintains_get.bind fun _ _ =>
    (maintains_spared (spares_setIndex _ _ _)).bind fun _ _ => maintains_modify fun _ h => h

theorem spared_readRange (offset size : Int) : SparedMemory (Memory.readRange env offset size) :=
  Maintains.ite (fun _ => maintains_pure trivial) fun _ =>
    (spared_expandTo offset size).bind fun _ _ => maintains_get.bind fun _ _ =>
      maintains_pure trivial

theorem spared_writeRange (offset : Int) (data : Bytes) :
    SparedMemory (Memory.writeRange env offset data) :=
  Maintains.ite (fun _ => maintains_pure trivial) fun _ =>
    (spared_expandTo offset _).bind fun _ _ => maintains_modify fun _ h => h

end Spared

section Leaves

theorem leaves_get : LeavesStack (get : EvmM EVM) :=
  fun _ => maintains_get.weaken fun _ _ => trivial

theorem leaves_pure (a : α) : LeavesStack (pure a : EvmM α) := fun _ => maintains_pure trivial

theorem leaves_modify {f : EVM → EVM} (hf : ∀ evm, (f evm).executionStack = evm.executionStack) :
    LeavesStack (modify f) :=
  fun _ => maintains_modify fun evm h => (hf evm).trans h

theorem leaves_emit (event : Event) : LeavesStack (emit event) := leaves_modify fun _ => rfl

theorem leaves_opStop : LeavesStack opStop := leaves_modify fun _ => rfl

theorem leaves_attempt {x : Except PyException α} (hx : Spares x) :
    LeavesStack (attempt x : EvmM α) :=
  fun _ => maintains_spared hx

theorem leaves_liftMemory {x : EStateM Abort Memory α} (hx : SparedMemory x) :
    LeavesStack (liftMemory x) :=
  fun _ => hx.zoom (fun _ _ => trivial) fun _ _ h _ => h

theorem LeavesStack.bind {x : EvmM α} {f : α → EvmM β} (hx : LeavesStack x)
    (hf : ∀ a, LeavesStack (f a)) : LeavesStack (x >>= f) :=
  fun stack => (hx stack).bind fun a _ => hf a stack

theorem LeavesStack.ite {c : Prop} [Decidable c] {x y : EvmM α} (hx : LeavesStack x)
    (hy : LeavesStack y) : LeavesStack (if c then x else y) :=
  fun stack => Maintains.ite (fun _ => hx stack) fun _ => hy stack

theorem leaves_jumpTo (destination : Int) : LeavesStack (jumpTo destination) := by
  refine leaves_get.bind fun evm => LeavesStack.ite ?_ ?_
  · exact leaves_modify fun _ => rfl
  · exact fun stack => maintains_throw ⟨by simp, by simp⟩

end Leaves

section Handlers

theorem shifts_binaryOp (f : Int → Int → Int) : Shifts 2 1 (binaryOp f) :=
  shifts_stackPop fun _ => shifts_stackPop fun _ => shifts_stackPush _

theorem shifts_pushOf (f : EVM → Int) : Shifts 0 1 (pushOf f) :=
  leaves_get.bind_shifts fun _ => shifts_stackPush _

theorem shifts_copyOp (source : EVM → Bytes) : Shifts 3 0 (copyOp env source) := by
  refine shifts_stackPop fun _ => shifts_stackPop fun _ => shifts_stackPop fun _ => ?_
  refine LeavesStack.shifts ((leaves_pure ()).ite (leaves_get.bind fun _ => ?_))
  refine (leaves_attempt (spares_bytearray env _)).bind fun _ => ?_
  refine (leaves_attempt (spares_readWindow _ _ _)).bind fun _ => ?_
  exact leaves_liftMemory (spared_writeRange _ _)

/-- `RETURN` and `REVERT`. -/
theorem shifts_readAndHalt {halt : Bytes → EVM → EVM}
    (h : ∀ data evm, (halt data evm).executionStack = evm.executionStack) :
    Shifts 2 0 (do
      let offset ← stackPop
      let size ← stackPop
      let data ← liftMemory (Memory.readRange env offset size)
      modify (halt data)) :=
  shifts_stackPop fun _ => shifts_stackPop fun _ => LeavesStack.shifts
    ((leaves_liftMemory (spared_readRange _ _)).bind fun _ => leaves_modify (h _))

theorem shifts_opPush (n : Nat) : Shifts 0 1 (opPush n) :=
  leaves_get.bind_shifts fun _ => (leaves_attempt (spares_readWindow _ _ _)).bind_shifts fun _ =>
    (shifts_stackPush _).bind fun _ => leaves_modify fun _ => rfl

/-- `DUP` reads an item and pushes on top of all of them. -/
theorem shifts_opDup (depth : Nat) : Shifts (depth + 1) (depth + 2) (opDup depth) := by
  intro evm
  cases hv : evm.executionStack[depth]? with
  | none =>
    have hlength := List.getElem?_eq_none_iff.mp hv
    have hpeek : stackPeek depth evm = .error (.raised (.evmError
        (.stackUnderflow (depth + 1) evm.executionStack.length))) evm := by
      rw [stackPeek, bind_of_ok (get_apply _), hv]
      rfl
    rw [opDup, bind_of_error hpeek]
    exact .underflow (by omega) (le_max_left _ _)
  | some v =>
    obtain ⟨hlength, -⟩ := List.getElem?_eq_some_iff.mp hv
    have hpeek : stackPeek depth evm = .ok v evm := by
      rw [stackPeek, bind_of_ok (get_apply _), hv]
      rfl
    have hpush := (shifts_stackPush v evm).frame (k := depth + 1) (by omega)
    rw [opDup, bind_of_ok hpeek]
    rwa [Nat.zero_add, Nat.add_comm 1] at hpush

/-- `SWAP` writes two of the items above those that it leaves alone. -/
theorem shifts_opSwap (depth : Nat) : Shifts (depth + 1) (depth + 1) (opSwap depth) := by
  intro evm
  rw [opSwap, bind_of_ok (get_apply _)]
  rcases Nat.lt_or_ge depth evm.executionStack.length with hlt | hge
  · have htop : 0 < evm.executionStack.length := by omega
    rw [List.getElem?_eq_getElem htop, List.getElem?_eq_getElem hlt]
    refine .completed hlt ?_ ?_ ?_
    · simp only [List.length_set]
      omega
    · rw [List.drop_set_of_lt (by omega), List.drop_set_of_lt (by omega)]
    · simp only [List.length_set]
      omega
  · rw [List.getElem?_eq_none hge]
    cases evm.executionStack[0]? with
    | none => exact .underflow (by omega) (le_max_left _ _)
    | some top => exact .underflow (by omega) (le_max_left _ _)

/-- Every handler that starts no frame has the effect of its opcode. -/
theorem shifts_localOp {opcode : Opcode} (hdup : opcode ≠ .dup 0) (hcreate : opcode ≠ .create)
    (hcall : opcode ≠ .call) (hinvalid : opcode ≠ .invalid) :
    Shifts opcode.removed opcode.added (localOp env opcode) := by
  cases opcode with
  | create => exact absurd rfl hcreate
  | call => exact absurd rfl hcall
  | invalid => exact absurd rfl hinvalid
  | push n => exact shifts_opPush n
  | dup n =>
    cases n with
    | zero => exact absurd rfl hdup
    | succ depth => exact shifts_opDup depth
  | swap n => exact shifts_opSwap n
  | stop => exact leaves_opStop.shifts
  | add | mul | sub | div | mod | lt | gt | eq | and | or => exact shifts_binaryOp _
  | exp =>
    exact shifts_stackPop fun _ => shifts_stackPop fun _ =>
      (leaves_attempt (spares_powMod _ _)).bind_shifts fun _ => shifts_stackPush _
  | iszero | not => exact shifts_stackPop fun _ => shifts_stackPush _
  | sha3 =>
    exact shifts_stackPop fun _ => shifts_stackPop fun _ =>
      (leaves_liftMemory (spared_readRange _ _)).bind_shifts fun _ => shifts_stackPush _
  | address | caller | callvalue | calldatasize | codesize | msize | gas => exact shifts_pushOf _
  | calldataload =>
    exact shifts_stackPop fun _ => leaves_get.bind_shifts fun _ =>
      (leaves_attempt (spares_readWindow _ _ _)).bind_shifts fun _ => shifts_stackPush _
  | calldatacopy | codecopy => exact shifts_copyOp _
  | pop => exact shifts_stackPop fun _ => shifts_pure _
  | mload =>
    exact shifts_stackPop fun _ => (leaves_liftMemory (spared_load _)).bind_shifts fun _ =>
      shifts_stackPush _
  | mstore =>
    exact shifts_stackPop fun _ => shifts_stackPop fun _ =>
      (leaves_liftMemory (spared_store _ _)).shifts
  | mstore8 =>
    exact shifts_stackPop fun _ => shifts_stackPop fun _ =>
      (leaves_liftMemory (spared_store8 _ _)).shifts
  | sload =>
    exact shifts_stackPop fun _ => leaves_get.bind_shifts fun _ =>
      (leaves_emit _).bind_shifts fun _ => shifts_stackPush _
  | sstore =>
    exact shifts_stackPop fun _ => shifts_stackPop fun _ => LeavesStack.shifts
      (leaves_get.bind fun _ => (leaves_emit _).bind fun _ => leaves_modify fun _ => rfl)
  | jump => exact shifts_stackPop fun _ => (leaves_jumpTo _).shifts
  | jumpi =>
    exact shifts_stackPop fun _ => shifts_stackPop fun _ =>
      ((leaves_jumpTo _).ite (leaves_pure ())).shifts
  | jumpdest => exact shifts_pure ()
  | «return» | revert => exact shifts_readAndHalt fun _ _ => rfl

/-- An opcode that adds more than it removes pushes first of all. -/
theorem overflow_of_full {opcode : Opcode} (hgrows : opcode.removed < opcode.added)
    (hδ : opcode.removed ≤ evm.executionStack.length)
    (hfull : maxStackDepth ≤ evm.executionStack.length) :
    localOp env opcode evm =
      .error (.raised (.evmError (.stackOverflow maxStackDepth))) evm := by
  cases opcode with
  | address | caller | callvalue | calldatasize | codesize | msize | gas =>
    exact (bind_of_ok (get_apply _)).trans (stackPush_of_le _ hfull)
  | push n =>
    rw [localOp, opPush, bind_of_ok (get_apply _), bind_of_ok (attempt_readWindow _ _ _ _),
      bind_of_error (stackPush_of_le _ hfull)]
  | dup n =>
    have hlt : n - 1 < evm.executionStack.length := by
      have hn : n ≤ evm.executionStack.length := hδ
      unfold maxStackDepth at hfull
      omega
    have hpeek : stackPeek (n - 1) evm = .ok (evm.executionStack.get ⟨n - 1, hlt⟩) evm := by
      rw [stackPeek, bind_of_ok (get_apply _), List.getElem?_eq_getElem hlt]
      rfl
    rw [localOp, opDup, bind_of_ok hpeek, stackPush_of_le _ hfull]
  | swap n => exact absurd hgrows (lt_irrefl _)
  | _ => exact absurd hgrows (by decide)

end Handlers

end Ethereum
