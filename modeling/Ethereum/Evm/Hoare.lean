import Ethereum.Evm.Range
import Ethereum.Evm.Script

/-! Preconditions of known bytecode that starts no frames. What is left of the gas and what is
in the log stay open, so one derivation is about every run. -/
namespace Ethereum

open Stateful

/-- `size` bytes from `offset` on, with zeros past the end. -/
def window (data : Bytes) (offset size : Nat) : Bytes :=
  (List.range size).map fun i => data.getD (offset + i) 0

/-- The word that `CALLDATALOAD` reads. -/
def wordAt (data : Bytes) (offset : Nat) : Int := intFromBytes (window data offset 32)

@[simp] theorem length_window (data : Bytes) (offset size : Nat) :
    (window data offset size).length = size := by simp [window]

theorem getIndex_of_lt {data : Bytes} {i : Nat} (h : i < data.length) :
    getIndex data i = .ok (data.getD i 0) := by
  have hnonneg : ¬ (i : Int) < 0 := by omega
  simp [getIndex, hnonneg, h]

theorem readWindow_eq (data : Bytes) (offset size : Nat) :
    readWindow data offset size = .ok (window data offset size) := by
  have hbyte : ∀ i : Nat, (if (offset : Int) + i < data.length then getIndex data (offset + i)
      else .ok 0) = (pure (data.getD (offset + i) 0) : Except PyException UInt8) := by
    intro i
    by_cases h : offset + i < data.length
    · rw [if_pos (by omega)]
      exact_mod_cast getIndex_of_lt h
    · rw [if_neg (by omega), List.getD_eq_default _ _ (not_lt.mp h)]
      rfl
  unfold readWindow window
  simp only [hbyte]
  exact List.mapM_pure

theorem attempt_readWindow {σ : Type} (data : Bytes) (offset size : Nat) (s : σ) :
    attempt (readWindow data offset size) s = .ok (window data offset size) s := by
  rw [readWindow_eq]
  rfl

theorem word_wordAt (data : Bytes) (offset : Nat) : Word (wordAt data offset) :=
  word_intFromBytes (by simp [window])

section Handlers

variable {evm : EVM} {v : Int} {rest : List Int}

theorem opPush_of_lt (n : Nat) (hs : evm.executionStack.length < maxStackDepth) :
    opPush n evm = .ok () { evm with
      executionStack := intFromBytes (window evm.code evm.programCounter n) :: evm.executionStack
      programCounter := evm.programCounter + n } := by
  rw [opPush, bind_of_ok (get_apply _), bind_of_ok (attempt_readWindow _ _ _ _),
    bind_of_ok (stackPush_of_lt hs), modify_apply]

theorem opCalldataload_of_cons {offset : Nat} (hstack : evm.executionStack = (offset : Int) :: rest)
    (hs : rest.length < maxStackDepth) :
    opCalldataload evm =
      .ok () { evm with executionStack := wordAt evm.context.data offset :: rest } := by
  rw [opCalldataload, bind_of_ok (stackPop_of_cons hstack), bind_of_ok (get_apply _),
    bind_of_ok (attempt_readWindow _ _ _ _)]
  exact stackPush_of_lt hs

theorem opReturn_of_cons {env : Env} {offset size : Int} {bytes : Bytes} {memory : Memory}
    (hstack : evm.executionStack = offset :: size :: rest)
    (hread : Memory.readRange env offset size evm.memory = .ok bytes memory) :
    opReturn env evm = .ok () { evm with
      executionStack := rest, memory, returnData := bytes, stopped := true } := by
  have hlift : liftMemory (Memory.readRange env offset size)
      { evm with executionStack := rest } = _ := liftMemory_of_ok hread
  rw [opReturn, bind_of_ok (stackPop_of_cons hstack), bind_of_ok (stackPop_of_cons rfl)]
  exact bind_of_ok hlift

end Handlers

section Memory

variable {v : Int} {bytes : Bytes}

theorem expandTo_first_word (env : Env) :
    Memory.expandTo env 0 32 .empty = .ok () ⟨List.replicate 32 0⟩ ∨
      env.bufferLimit ≤ 32 ∧
        Memory.expandTo env 0 32 .empty = .error (.raised .memoryError) .empty := by
  have hneed : ¬ ((32 : Int) = 0 ∨ 0 + 32 ≤ Memory.empty.size) := by decide
  rw [Memory.expandTo, bind_of_ok (get_apply _)]
  simp only [if_neg hneed]
  rcases le_or_gt (env.bufferLimit : Int) 32 with hlimit | hlimit
  · have hfail : env.allocate 32 32 = .error .memoryError := by
      rw [Env.allocate, if_neg (by omega), if_pos hlimit]
    exact .inr ⟨by exact_mod_cast hlimit,
      bind_of_error (congrArg (fun x => attempt x Memory.empty) hfail)⟩
  · have hfits : env.allocate 32 32 = .ok () := by
      rw [Env.allocate, if_neg (by omega), if_neg (not_le.mpr hlimit)]
    exact .inl ((bind_of_ok (congrArg (fun x => attempt x Memory.empty) hfits)).trans rfl)

/-- The first word that a frame stores, if there is memory for it. -/
theorem store_first_word (env : Env) (hv : intToBytes 32 v = .ok bytes) :
    Memory.store env 0 v .empty = .ok () ⟨bytes⟩ ∨
      env.bufferLimit ≤ 32 ∧
        Memory.store env 0 v .empty = .error (.raised .memoryError) .empty := by
  have hlength := length_of_intToBytes hv
  rcases expandTo_first_word env with h | ⟨hlimit, h⟩
  · left
    have hbytes : ∀ memory : Memory, attempt (intToBytes 32 v) memory = .ok bytes memory := by
      intro memory
      rw [hv]
      rfl
    rw [Memory.store, bind_of_ok h, bind_of_ok (hbytes _), modify_apply]
    simp [setSlice, sliceBound]
  · right
    rw [Memory.store, bind_of_error h]
    exact ⟨hlimit, rfl⟩

theorem readRange_word (env : Env) (h : bytes.length = 32) :
    Memory.readRange env 0 32 ⟨bytes⟩ = .ok bytes ⟨bytes⟩ := by
  have hfits : Memory.expandTo env 0 32 ⟨bytes⟩ = .ok () ⟨bytes⟩ := by
    rw [Memory.expandTo, bind_of_ok (get_apply _)]
    exact congrFun (if_pos (.inr (by simp [Memory.size, h]))) _
  rw [Memory.readRange, if_neg (by norm_num), bind_of_ok hfits, bind_of_ok (get_apply _),
    pure_apply]
  simp [slice, sliceBound, h, List.take_of_length_le]

end Memory

/-- The error of a run that ends for want of fuel or gas, or of memory for one word. -/
inductive Abort.Starved (env : Env) : Abort → Prop
  | fuel : Starved env .outOfFuel
  | gas {needed remaining} : Starved env (.raised (.evmError (.outOfGas needed remaining)))
  | memory (h : env.bufferLimit ≤ 32) : Starved env (.raised .memoryError)

/-- What does not change while a frame runs bytecode without `CALL` and `CREATE`, beside the
bytecode. -/
structure Setting where
  context : ExecutionContext
  world : Option WorldState

/-- `reverted`, the return data and the storage when the frame ends. -/
abbrev Post := Bool → Bytes → Dict Int Int → Prop

namespace Setting

/-- The frame at a loop head. -/
def state (F : Setting) (code : Bytes) (pc : Nat) (stack : List Int) (memory : Memory)
    (storage : Dict Int Int) (gas : Int) (log : List Event) : EVM where
  code := code
  programCounter := pc
  executionStack := stack
  memory := memory
  storage := storage
  gasRemaining := gas
  context := F.context
  worldState := F.world
  stopped := false
  returnData := []
  reverted := false
  log := log

/-- The frame has left the world state alone, and has starved or ends as `Q` says. -/
structure Ends (F : Setting) (env : Env) (Q : Post) (r : LoopResult) : Prop where
  world : (final r).worldState = F.world
  error : ∀ e evm, r = .error e evm → e.Starved env
  ok : ∀ evm, r = .ok () evm → Q evm.reverted evm.returnData evm.storage

/-- Every run from this loop head ends as `Q` says. -/
def Wp (F : Setting) (env : Env) (code : Bytes) (pc : Nat) (stack : List Int) (memory : Memory)
    (storage : Dict Int Int) (Q : Post) : Prop :=
  ∀ gas log r, Run env (F.state code pc stack memory storage gas log) r → F.Ends env Q r

variable {F : Setting} {env : Env} {code : Bytes} {pc : Nat} {stack : List Int} {memory : Memory}
  {storage : Dict Int Int} {Q : Post} {opcode : Opcode}

theorem ends_error {e : Abort} {evm : EVM} (hw : evm.worldState = F.world) (he : e.Starved env) :
    F.Ends env Q (.error e evm) where
  world := hw
  error := by
    rintro _ _ ⟨⟩
    exact he
  ok := by
    intro _ h
    cases h

theorem ends_ok {evm : EVM} (hw : evm.worldState = F.world)
    (hQ : Q evm.reverted evm.returnData evm.storage) : F.Ends env Q (.ok () evm) where
  world := hw
  error := by
    intro _ _ h
    cases h
  ok := by
    rintro _ ⟨⟩
    exact hQ

/-- The opcode at the program counter runs in its frame. -/
structure Fetches (code : Bytes) (pc : Nat) (opcode : Opcode) : Prop where
  byte : ∃ byte, code[pc]? = some byte ∧ Opcode.ofByte byte = some opcode
  isLocal : opcode ≠ .call ∧ opcode ≠ .create ∧ opcode ≠ .invalid

instance (pc : Nat) (opcode : Opcode) : Decidable (Fetches code pc opcode) :=
  decidable_of_iff ((code[pc]?.bind Opcode.ofByte) = some opcode ∧
      (opcode ≠ .call ∧ opcode ≠ .create ∧ opcode ≠ .invalid))
    ⟨fun ⟨h, hlocal⟩ => ⟨Option.bind_eq_some_iff.mp h, hlocal⟩,
      fun h => ⟨Option.bind_eq_some_iff.mpr h.byte, h.isLocal⟩⟩

theorem Fetches.running (h : Fetches code pc opcode) (gas : Int) (log : List Event) :
    (F.state code pc stack memory storage gas log).running = true := by
  obtain ⟨⟨byte, hbyte, -⟩, -⟩ := h
  have hlt := (List.getElem?_eq_some_iff.mp hbyte).1
  exact decide_eq_true hlt

theorem Fetches.begin_of_lt (h : Fetches code pc opcode) {gas : Int} (log : List Event)
    (hgas : gas < gasCost opcode) :
    begin env (F.state code pc stack memory storage gas log) =
      .error (.raised (.evmError (.outOfGas (gasCost opcode) gas)))
        (F.state code pc stack memory storage gas log) := by
  obtain ⟨⟨byte, hbyte, hop⟩, -, -, hne⟩ := h
  exact begin_of_unpaid hbyte hop hne hgas

theorem Fetches.begin_of_le (h : Fetches code pc opcode) {gas : Int} (log : List Event)
    (hgas : gasCost opcode ≤ gas) :
    begin env (F.state code pc stack memory storage gas log) =
      mapOk (fun _ => none) (localOp env opcode (F.state code (pc + 1) stack memory storage
        (gas - gasCost opcode) (log ++ [.executed F.context.address opcode]))) := by
  obtain ⟨⟨byte, hbyte, hop⟩, hcall, hcreate, hne⟩ := h
  have hpaid : begin env (F.state code pc stack memory storage gas log) = _ :=
    begin_of_paid hbyte hop hne hgas
  rw [hpaid, beginOp_local hcreate hcall]
  rfl

/-- An opcode: the frame runs out of gas, or it goes on from what the handler comes to. -/
theorem wp_op (hop : Fetches code pc opcode)
    (h : ∀ gas log,
      (∃ evm, localOp env opcode (F.state code (pc + 1) stack memory storage gas log) =
        .ok () evm ∧ ∀ r, Run env evm r → F.Ends env Q r) ∨
      ∃ e evm, localOp env opcode (F.state code (pc + 1) stack memory storage gas log) =
        .error e evm ∧ evm.worldState = F.world ∧ e.Starved env) :
    F.Wp env code pc stack memory storage Q := by
  intro gas log r hr
  have hrun : (F.state code pc stack memory storage gas log).running = true := hop.running gas log
  have hcut : F.Ends env Q (.error .outOfFuel (F.state code pc stack memory storage gas log)) :=
    ends_error rfl .fuel
  rcases lt_or_ge gas (gasCost opcode) with hgas | hgas
  · rcases hr.of_error hrun (hop.begin_of_lt log hgas) with rfl | rfl
    · exact hcut
    · exact ends_error rfl .gas
  · have hb : begin env (F.state code pc stack memory storage gas log) = _ :=
      hop.begin_of_le log hgas
    rcases h (gas - gasCost opcode) (log ++ [.executed F.context.address opcode]) with
      ⟨evm, hlocal, hends⟩ | ⟨e, evm, hlocal, hworld, he⟩
    · rw [hlocal] at hb
      rcases hr.of_ok hrun hb with rfl | hrest
      · exact hcut
      · exact hends r hrest
    · rw [hlocal] at hb
      rcases hr.of_error hrun hb with rfl | rfl
      · exact hcut
      · exact ends_error hworld he

/-- An opcode after which the frame goes on. -/
theorem wp_next {pc' : Nat} {stack' : List Int} {memory' : Memory} {storage' : Dict Int Int}
    (hop : Fetches code pc opcode)
    (h : ∀ gas log, ∃ log',
      localOp env opcode (F.state code (pc + 1) stack memory storage gas log) =
        .ok () (F.state code pc' stack' memory' storage' gas log'))
    (hnext : F.Wp env code pc' stack' memory' storage' Q) :
    F.Wp env code pc stack memory storage Q := by
  refine wp_op hop fun gas log => ?_
  obtain ⟨log', hlocal⟩ := h gas log
  exact .inl ⟨_, hlocal, hnext gas log'⟩

/-- An opcode that ends the frame. -/
theorem wp_halt (hop : Fetches code pc opcode)
    (h : ∀ gas log, ∃ evm,
      localOp env opcode (F.state code (pc + 1) stack memory storage gas log) = .ok () evm ∧
        evm.stopped = true ∧ evm.worldState = F.world ∧
        Q evm.reverted evm.returnData evm.storage) : F.Wp env code pc stack memory storage Q := by
  refine wp_op hop fun gas log => ?_
  obtain ⟨evm, hlocal, hstopped, hworld, hQ⟩ := h gas log
  refine .inl ⟨evm, hlocal, fun r hr => ?_⟩
  rcases hr.of_halted (by simp [EVM.running, hstopped]) with rfl | rfl
  · exact ends_error hworld .fuel
  · exact ends_ok hworld hQ

theorem pop_state {v : Int} {gas : Int} {log : List Event} :
    stackPop (F.state code pc (v :: stack) memory storage gas log) =
      .ok v (F.state code pc stack memory storage gas log) :=
  stackPop_of_cons rfl

theorem push_state {v : Int} {gas : Int} {log : List Event} (hs : stack.length < maxStackDepth) :
    stackPush v (F.state code pc stack memory storage gas log) =
      .ok () (F.state code pc (v :: stack) memory storage gas log) :=
  stackPush_of_lt hs

theorem liftMemory_state {α : Type} {x : EStateM Abort Memory α} {y : α} {memory' : Memory}
    {gas : Int} {log : List Event} (h : x memory = .ok y memory') :
    liftMemory x (F.state code pc stack memory storage gas log) =
      .ok y (F.state code pc stack memory' storage gas log) :=
  liftMemory_of_ok h

section Rules

variable {rest : List Int} {a b v : Int}

theorem wp_push (n : Nat) (v : Int) (h : F.Wp env code (pc + 1 + n) (v :: stack) memory storage Q)
    (hop : Fetches code pc (.push n) := by decide)
    (hv : intFromBytes (window code (pc + 1) n) = v := by decide)
    (hs : stack.length < maxStackDepth := by simp [maxStackDepth]) :
    F.Wp env code pc stack memory storage Q := by
  subst hv
  refine wp_next hop (fun gas log => ⟨log, ?_⟩) h
  have hpush : opPush n (F.state code (pc + 1) stack memory storage gas log) = _ :=
    opPush_of_lt n hs
  exact hpush

theorem wp_dup (n : Nat) (h : F.Wp env code (pc + 1) (v :: stack) memory storage Q)
    (hop : Fetches code pc (.dup n) := by decide) (hv : stack[n - 1]? = some v := by rfl)
    (hs : stack.length < maxStackDepth := by simp [maxStackDepth]) :
    F.Wp env code pc stack memory storage Q := by
  refine wp_next hop (fun gas log => ⟨log, ?_⟩) h
  have hpeek : stackPeek (n - 1) (F.state code (pc + 1) stack memory storage gas log) =
      .ok v (F.state code (pc + 1) stack memory storage gas log) := by
    rw [stackPeek, bind_of_ok (get_apply _), show
      (F.state code (pc + 1) stack memory storage gas log).executionStack = stack from rfl, hv]
    rfl
  rw [localOp, opDup, bind_of_ok hpeek, push_state hs]

theorem wp_swap_one (h : F.Wp env code (pc + 1) (b :: a :: rest) memory storage Q)
    (hop : Fetches code pc (.swap 1) := by decide) :
    F.Wp env code pc (a :: b :: rest) memory storage Q :=
  wp_next hop (fun _ log => ⟨log, rfl⟩) h

theorem wp_pop (h : F.Wp env code (pc + 1) rest memory storage Q)
    (hop : Fetches code pc .pop := by decide) :
    F.Wp env code pc (v :: rest) memory storage Q :=
  wp_next hop (fun _ log => ⟨log, rfl⟩) h

theorem wp_jumpdest (h : F.Wp env code (pc + 1) stack memory storage Q)
    (hop : Fetches code pc .jumpdest := by decide) :
    F.Wp env code pc stack memory storage Q :=
  wp_next hop (fun _ log => ⟨log, rfl⟩) h

theorem wp_binary {f : Int → Int → Int} (hf : localOp env opcode = binaryOp f)
    (h : F.Wp env code (pc + 1) (f a b :: rest) memory storage Q) (hop : Fetches code pc opcode)
    (hs : rest.length < maxStackDepth) :
    F.Wp env code pc (a :: b :: rest) memory storage Q := by
  refine wp_next hop (fun gas log => ⟨log, ?_⟩) h
  rw [hf, binaryOp, bind_of_ok pop_state, bind_of_ok pop_state, push_state hs]

theorem wp_add (h : F.Wp env code (pc + 1) ((a + b) % modValue :: rest) memory storage Q)
    (hop : Fetches code pc .add := by decide)
    (hs : rest.length < maxStackDepth := by simp [maxStackDepth]) :
    F.Wp env code pc (a :: b :: rest) memory storage Q :=
  wp_binary rfl h hop hs

theorem wp_sub (h : F.Wp env code (pc + 1) ((a - b) % modValue :: rest) memory storage Q)
    (hop : Fetches code pc .sub := by decide)
    (hs : rest.length < maxStackDepth := by simp [maxStackDepth]) :
    F.Wp env code pc (a :: b :: rest) memory storage Q :=
  wp_binary rfl h hop hs

theorem wp_div (hb : b ≠ 0) (h : F.Wp env code (pc + 1) (a.fdiv b :: rest) memory storage Q)
    (hop : Fetches code pc .div := by decide)
    (hs : rest.length < maxStackDepth := by simp [maxStackDepth]) :
    F.Wp env code pc (a :: b :: rest) memory storage Q := by
  refine wp_binary rfl ?_ hop hs
  rwa [if_pos hb]

theorem wp_lt (h : F.Wp env code (pc + 1) ((if a < b then 1 else 0) :: rest) memory storage Q)
    (hop : Fetches code pc .lt := by decide)
    (hs : rest.length < maxStackDepth := by simp [maxStackDepth]) :
    F.Wp env code pc (a :: b :: rest) memory storage Q :=
  wp_binary rfl h hop hs

theorem wp_eq (h : F.Wp env code (pc + 1) ((if a = b then 1 else 0) :: rest) memory storage Q)
    (hop : Fetches code pc .eq := by decide)
    (hs : rest.length < maxStackDepth := by simp [maxStackDepth]) :
    F.Wp env code pc (a :: b :: rest) memory storage Q :=
  wp_binary rfl h hop hs

theorem wp_caller
    (h : F.Wp env code (pc + 1) (intFromBytes F.context.caller :: stack) memory storage Q)
    (hop : Fetches code pc .caller := by decide)
    (hs : stack.length < maxStackDepth := by simp [maxStackDepth]) :
    F.Wp env code pc stack memory storage Q :=
  wp_next hop (fun _ log => ⟨log, (bind_of_ok (get_apply _)).trans (push_state hs)⟩) h

theorem wp_calldataload (offset : Nat) (hv : v = offset)
    (h : F.Wp env code (pc + 1) (wordAt F.context.data offset :: rest) memory storage Q)
    (hop : Fetches code pc .calldataload := by decide)
    (hs : rest.length < maxStackDepth := by simp [maxStackDepth]) :
    F.Wp env code pc (v :: rest) memory storage Q := by
  subst hv
  refine wp_next hop (fun gas log => ⟨log, ?_⟩) h
  have hload : opCalldataload
      (F.state code (pc + 1) ((offset : Int) :: rest) memory storage gas log) = _ :=
    opCalldataload_of_cons rfl hs
  exact hload

theorem wp_sload (h : F.Wp env code (pc + 1) (storage.getD a 0 :: rest) memory storage Q)
    (hop : Fetches code pc .sload := by decide)
    (hs : rest.length < maxStackDepth := by simp [maxStackDepth]) :
    F.Wp env code pc (a :: rest) memory storage Q := by
  refine wp_next hop (fun gas log => ⟨log ++ [.sload F.context.address a (storage.getD a 0)], ?_⟩) h
  rw [localOp, opSload, bind_of_ok pop_state, bind_of_ok (get_apply _), emit,
    bind_of_ok (modify_apply _ _)]
  exact push_state hs

theorem wp_sstore (h : F.Wp env code (pc + 1) rest memory (storage.set a v) Q)
    (hop : Fetches code pc .sstore := by decide) :
    F.Wp env code pc (a :: v :: rest) memory storage Q :=
  wp_next hop (fun _ log => ⟨log ++ [.sstore F.context.address a v], rfl⟩) h

/-- A jump on a condition: `p` is what the comparison before it was about. -/
theorem wp_jumpi {p : Prop} [Decidable p] (destination : Nat) (hb : b = destination)
    (htaken : p → F.Wp env code destination rest memory storage Q)
    (hnext : ¬ p → F.Wp env code (pc + 1) rest memory storage Q)
    (hop : Fetches code pc .jumpi := by decide)
    (hdest : destination ∈ findJumpdests code := by decide) :
    F.Wp env code pc (b :: (if p then 1 else 0) :: rest) memory storage Q := by
  subst hb
  by_cases hp : p
  · refine wp_next hop (fun gas log => ⟨log, ?_⟩) (htaken hp)
    rw [if_pos hp, localOp, opJumpi, bind_of_ok pop_state, bind_of_ok pop_state,
      if_pos one_ne_zero, jumpTo, bind_of_ok (get_apply _), if_pos ⟨Int.natCast_nonneg _, hdest⟩]
    rfl
  · refine wp_next hop (fun gas log => ⟨log, ?_⟩) (hnext hp)
    rw [if_neg hp, localOp, opJumpi, bind_of_ok pop_state, bind_of_ok pop_state,
      if_neg (not_not.mpr rfl)]
    rfl

theorem wp_mstore {memory' : Memory} (hstore : Memory.store env a v memory = .ok () memory')
    (h : F.Wp env code (pc + 1) rest memory' storage Q)
    (hop : Fetches code pc .mstore := by decide) :
    F.Wp env code pc (a :: v :: rest) memory storage Q := by
  refine wp_next hop (fun gas log => ⟨log, ?_⟩) h
  rw [localOp, opMstore, bind_of_ok pop_state, bind_of_ok pop_state, liftMemory_state hstore]

/-- Where a word cannot be stored, for want of memory. -/
theorem wp_mstore_error {e : Abort} {memory' : Memory}
    (hstore : Memory.store env a v memory = .error e memory') (he : e.Starved env)
    (hop : Fetches code pc .mstore := by decide) :
    F.Wp env code pc (a :: v :: rest) memory storage Q := by
  refine wp_op hop fun gas log => .inr ⟨e, F.state code (pc + 1) rest memory' storage gas log, ?_,
    rfl, he⟩
  rw [localOp, opMstore, bind_of_ok pop_state, bind_of_ok pop_state]
  exact liftMemory_of_error hstore

theorem wp_stop (h : Q false [] storage) (hop : Fetches code pc .stop := by decide) :
    F.Wp env code pc stack memory storage Q :=
  wp_halt hop fun _ _ => ⟨_, rfl, rfl, rfl, h⟩

theorem wp_return {data : Bytes} {memory' : Memory}
    (hread : Memory.readRange env a b memory = .ok data memory') (h : Q false data storage)
    (hop : Fetches code pc .return := by decide) :
    F.Wp env code pc (a :: b :: rest) memory storage Q :=
  wp_halt hop fun _ _ => ⟨_, opReturn_of_cons rfl hread, rfl, rfl, h⟩

theorem wp_revert {data : Bytes} {memory' : Memory}
    (hread : Memory.readRange env a b memory = .ok data memory') (h : Q true data storage)
    (hop : Fetches code pc .revert := by decide) :
    F.Wp env code pc (a :: b :: rest) memory storage Q := by
  refine wp_halt hop fun gas log => ?_
  rw [localOp, opRevert, bind_of_ok pop_state, bind_of_ok pop_state,
    bind_of_ok (liftMemory_state hread)]
  exact ⟨_, rfl, rfl, rfl, h⟩

end Rules

section Idioms

variable {v : Int}

/-- `PUSH1 0 PUSH1 0 REVERT` -/
theorem wp_revert_empty (h : Q true [] storage)
    (h₁ : Fetches code pc (.push 1) := by decide)
    (v₁ : intFromBytes (window code (pc + 1) 1) = 0 := by decide)
    (h₂ : Fetches code (pc + 2) (.push 1) := by decide)
    (v₂ : intFromBytes (window code (pc + 3) 1) = 0 := by decide)
    (h₃ : Fetches code (pc + 4) .revert := by decide)
    (hs : stack.length + 1 < maxStackDepth := by simp [maxStackDepth]) :
    F.Wp env code pc stack memory storage Q := by
  refine wp_push 1 0 ?_ h₁ v₁ (by omega)
  refine wp_push 1 0 ?_ h₂ v₂ hs
  exact wp_revert rfl h h₃

/-- `PUSH1 0 MSTORE PUSH1 32 PUSH1 0 RETURN`: the word on top of the stack is returned, if there
is memory for it. -/
theorem wp_return_word {rest : List Int} {returnData : Bytes}
    (hdata : intToBytes 32 v = .ok returnData) (h : Q false returnData storage)
    (h₁ : Fetches code pc (.push 1) := by decide)
    (v₁ : intFromBytes (window code (pc + 1) 1) = 0 := by decide)
    (h₂ : Fetches code (pc + 2) .mstore := by decide)
    (h₃ : Fetches code (pc + 3) (.push 1) := by decide)
    (v₃ : intFromBytes (window code (pc + 4) 1) = 32 := by decide)
    (h₄ : Fetches code (pc + 5) (.push 1) := by decide)
    (v₄ : intFromBytes (window code (pc + 6) 1) = 0 := by decide)
    (h₅ : Fetches code (pc + 7) .return := by decide)
    (hs : rest.length + 1 < maxStackDepth := by simp [maxStackDepth]) :
    F.Wp env code pc (v :: rest) .empty storage Q := by
  refine wp_push 1 0 ?_ h₁ v₁ hs
  rcases store_first_word env hdata with hstore | ⟨hlimit, hstore⟩
  · refine wp_mstore hstore ?_ h₂
    refine wp_push 1 32 ?_ h₃ v₃ (by omega)
    refine wp_push 1 0 ?_ h₄ v₄ hs
    exact wp_return (readRange_word env (length_of_intToBytes hdata)) h h₅
  · exact wp_mstore_error hstore (.memory hlimit) h₂

end Idioms

end Setting

end Ethereum
