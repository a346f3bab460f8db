import Ethereum.Evm.Windows
import Ethereum.Evm.WordAccounts
import Ethereum.Lib.Relational

/-! The interpreter is the machine on words, opcode by opcode, for opcodes that start no frame. -/
namespace Ethereum

open Stateful Padded Relational

/-- What an exception is about. -/
def Abort.fault : Abort → Fault
  | .outOfFuel => .outOfFuel
  | .raised (.evmError (.outOfGas _ _)) => .outOfGas
  | .raised (.evmError (.stackUnderflow _ _)) => .stackUnderflow
  | .raised (.evmError (.stackOverflow _)) => .stackOverflow
  | .raised (.evmError (.invalidJumpDestination _)) => .invalidJump
  | .raised (.evmError (.invalidOpcode _ _)) => .invalidOpcode
  | .raised .memoryError | .raised (.overflowError _) => .outOfMemory
  | .raised _ => .other

namespace WordMachine

/-- What the interpreter can hold. -/
structure Fits (I : Input) : Prop where
  code : Short I.code
  data : Short I.data
  address : I.address.length ≤ 32
  caller : I.caller.length ≤ 32
  gas : I.gas < 2 ^ 256

/-- The frame stands for the machine. -/
structure Shows (env : Env) (I : Input) (evm : EVM) (m : WordMachine) : Prop where
  code : evm.code = I.code
  data : evm.context.data = I.data
  address : evm.context.address = I.address
  caller : evm.context.caller = I.caller
  value : evm.context.value = I.value.toNat
  fits : Fits I
  programCounter : evm.programCounter = m.programCounter
  stack : evm.executionStack = m.stack.map fun w => (w.toNat : Int)
  memory : evm.memory.Refines m.memory m.accessed
  holds : env.Holds m.accessed
  cells : ShowsCells evm.storage m.cells
  world : Option.Rel ShowsWorld evm.worldState m.world
  gas : evm.gasRemaining = m.gas
  gas_le : m.gas ≤ I.gas
  stopped : evm.stopped = m.stopped
  reverted : evm.reverted = m.reverted
  returnData : evm.returnData = m.returnData
  answer_short : Short m.returnData

/-- The two end alike. -/
abbrev Simulates (env : Env) (I : Input) {α β : Type} (V : α → β → Prop) (x : EvmM α)
    (y : WordM β) : Prop :=
  Related (fun e f => e.fault = f) (Shows env I) V x y

variable {env : Env} {I : Input} {α β : Type} {V : α → β → Prop}

section Rules

theorem simulates_throw {e : Abort} {f : Fault} (h : e.fault = f) :
    Simulates env I V (throw e) (throw f) := related_throw h

theorem simulates_modify {f : EVM → EVM} {g : WordMachine → WordMachine}
    (h : ∀ evm m, Shows env I evm m → Shows env I (f evm) (g m)) :
    Simulates env I (fun _ _ => True) (modify f) (modify g) := related_modify h

theorem simulates_stackPop : Simulates env I Stands stackPop pop := by
  refine related_get_bind fun evm m h => ?_
  have hstack := h.stack
  cases hm : m.stack with
  | nil =>
    rw [hm] at hstack
    rw [hstack]
    exact .error rfl h
  | cons w rest =>
    rw [hm] at hstack
    rw [hstack]
    exact .ok rfl { h with stack := rfl }

theorem simulates_pop {k : Int → EvmM α} {k' : U256 → WordM β}
    (h : ∀ w : U256, Simulates env I V (k w.toNat) (k' w)) :
    Simulates env I V (stackPop >>= k) (pop >>= k') := by
  refine simulates_stackPop.bind ?_
  rintro _ w rfl
  exact h w

theorem simulates_stackPush {v : Int} {w : U256} (hv : Stands v w) :
    Simulates env I (fun _ _ => True) (stackPush v) (push w) := by
  refine related_get_bind fun evm m h => ?_
  have hfull : maxStackDepth ≤ evm.executionStack.length ↔ maxStackDepth ≤ m.stack.length := by
    rw [h.stack, List.length_map]
  refine Related.ite hfull (simulates_throw rfl) (simulates_modify fun evm m h => ?_) _ _ h
  refine { h with stack := ?_ }
  rw [h.stack, hv]
  rfl

/-- An event is not seen. -/
theorem simulates_emit {x : EvmM α} {y : WordM β} (event : Event) (h : Simulates env I V x y) :
    Simulates env I V (emit event >>= fun _ => x) y :=
  fun evm m hs => h { evm with log := evm.log ++ [event] } m { hs with }

theorem simulates_pushOf {f : EVM → Int} {g : WordMachine → U256}
    (h : ∀ evm m, Shows env I evm m → Stands (f evm) (g m)) :
    Simulates env I (fun _ _ => True) (pushOf f) (do push (g (← get))) := by
  refine related_get_bind fun evm m hs => ?_
  exact simulates_stackPush (h evm m hs) evm m hs

theorem simulates_binaryOp {f : Int → Int → Int} {g : U256 → U256 → U256}
    (h : ∀ a b : U256, Stands (f a.toNat b.toNat) (g a b)) :
    Simulates env I (fun _ _ => True) (binaryOp f) (binary g) := by
  refine simulates_pop fun a => ?_
  refine simulates_pop fun b => ?_
  exact simulates_stackPush (h a b)

end Rules

section Memory

/-- The end of the accesses after one more. -/
def reached (accessed offset size : Nat) : Nat :=
  if size = 0 then accessed else max accessed (offset + size)

theorem access_of_holds {m : WordMachine} {o n : Nat} (h : env.Holds (reached m.accessed o n)) :
    access env o n m = .ok () { m with accessed := reached m.accessed o n } := by
  rw [access, bind_of_ok (get_apply _)]
  exact congrFun (if_pos h) m

theorem access_of_not_holds {m : WordMachine} {o n : Nat}
    (h : ¬ env.Holds (reached m.accessed o n)) : access env o n m = .error .outOfMemory m := by
  rw [access, bind_of_ok (get_apply _)]
  exact congrFun (if_neg h) m

/-- An access of the frame, and what the machine does for it. -/
theorem simulates_memoryOp (op : MemoryOp) {x : EStateM Abort Memory α}
    {wrap : α → MemoryOutput} {o n : Nat} {y : WordM β}
    (hrun : op.run env = do let a ← x; return wrap a)
    (hextent : ∀ m, max m op.extent = reached m o n)
    (hok : ∀ (m : WordMachine) a, env.Holds (reached m.accessed o n) →
      op.output m.memory = wrap a → ∃ b, V a b ∧
      y { m with accessed := reached m.accessed o n } =
        .ok b { m with accessed := reached m.accessed o n, memory := op.effect m.memory }) :
    Simulates env I V (liftMemory x) (access env o n >>= fun _ => y) := by
  intro evm m h
  by_cases hholds : env.Holds (reached m.accessed o n)
  · obtain ⟨memory, hop, hrefines⟩ := MemoryOp.run_of_holds h.memory op (hextent _ ▸ hholds)
    rw [hrun] at hop
    obtain ⟨a, t, hx, hpure⟩ := ok_of_bind_apply hop
    rw [pure_apply] at hpure
    injection hpure with hwrap ht
    subst ht
    obtain ⟨b, hV, hy⟩ := hok m a hholds hwrap.symm
    rw [bind_of_ok (access_of_holds hholds), hy, liftMemory, zoom, hx]
    rw [hextent] at hrefines
    exact .ok hV { h with memory := hrefines, holds := hholds }
  · obtain ⟨e, hop, hmemory⟩ :=
      MemoryOp.run_of_not_holds h.memory h.holds op (hextent _ ▸ hholds)
    rw [hrun] at hop
    have hx : x evm.memory = .error (.raised e) evm.memory := by
      rw [bind_apply] at hop
      cases hx : x evm.memory with
      | ok a t =>
        rw [hx] at hop
        cases hop
      | error e' t =>
        rw [hx] at hop
        injection hop with he ht
        rw [he, ht]
    rw [bind_of_error (access_of_not_holds hholds), liftMemory, zoom, hx]
    refine .error ?_ h
    rcases hmemory with rfl | ⟨message, rfl⟩ <;> rfl

theorem max_eq_reached (m o n : Nat) : max m (if n = 0 then 0 else o + n) = reached m o n := by
  unfold reached
  split
  · exact Nat.max_zero m
  · rfl

/-- What a memory holds is not long. -/
theorem lt_of_holds {accessed o n : Nat} (h : env.Holds (reached accessed o n)) : n < 2 ^ 63 := by
  have hlimit := env.bufferLimit_le
  unfold reached at h
  split at h
  · omega
  · unfold Env.Holds wordsFor at h
    omega

theorem simulates_readRange (o n : Nat) :
    Simulates env I (fun data data' => data = data' ∧ Short data')
      (liftMemory (Memory.readRange env o n)) (readMemory env o n) := by
  refine simulates_memoryOp (.readRange o n) rfl (max_eq_reached · o n) ?_
  intro m data hholds h
  cases h
  exact ⟨_, ⟨rfl, length_read.trans_lt (lt_of_holds hholds)⟩, rfl⟩

theorem simulates_load (o : Nat) :
    Simulates env I (fun v data => v = intFromBytes data ∧ data.length ≤ 32)
      (liftMemory (Memory.load env o)) (readMemory env o 32) := by
  refine simulates_memoryOp (.load o) rfl (max_eq_reached · o 32) ?_
  intro m v _ h
  cases h
  exact ⟨_, ⟨rfl, length_read.le⟩, rfl⟩

theorem simulates_writeRange (o : Nat) (data : Bytes) :
    Simulates env I (fun _ _ => True) (liftMemory (Memory.writeRange env o data))
      (writeMemory env o data) := by
  refine simulates_memoryOp (.writeRange o data) rfl (max_eq_reached · o data.length) ?_
  exact fun m a _ _ => ⟨(), trivial, rfl⟩

theorem simulates_store (o : Nat) (v : U256) :
    Simulates env I (fun _ _ => True) (liftMemory (Memory.store env o v.toNat))
      (writeMemory env o (BigEndian.toBytes 32 v.toNat)) := by
  have heffect : ∀ f, (MemoryOp.store o v.toFin).effect f =
      write f o (BigEndian.toBytes 32 v.toNat) := fun _ => rfl
  have hlength := BigEndian.length_toBytes 32 v.toNat
  generalize BigEndian.toBytes 32 v.toNat = data at heffect hlength
  refine simulates_memoryOp (.store o v.toFin) rfl (fun m => ?_) fun m a _ _ => ⟨(), trivial, ?_⟩
  · rw [hlength]
    exact max_eq_reached m o 32
  · rw [heffect]
    rfl

theorem simulates_store8 (o : Nat) (v : U256) :
    Simulates env I (fun _ _ => True) (liftMemory (Memory.store8 env o v.toNat))
      (writeMemory env o [UInt8.ofNat v.toNat]) := by
  refine simulates_memoryOp (.store8 o v.toNat) rfl (max_eq_reached · o 1) ?_
  intro m a _ _
  have heffect : ∀ f, (MemoryOp.store8 o v.toNat).effect f = write f o [UInt8.ofNat v.toNat] := by
    intro f
    have hbyte : UInt8.ofNat ((v.toNat : Int) % 256).toNat = UInt8.ofNat v.toNat := by
      rw [show ((v.toNat : Int) % 256).toNat = v.toNat % 256 by omega]
      exact UInt8.toNat.inj (by simp)
    rw [MemoryOp.effect, hbyte]
  refine ⟨(), trivial, ?_⟩
  rw [heffect]
  rfl

end Memory

section Handlers

theorem simulates_attempt_window {source : Bytes} {o n : Nat} {k : Bytes → EvmM α} {y : WordM β}
    (h : Simulates env I V (k (read (view 0 source) o n)) y) :
    Simulates env I V (attempt (readWindow source o n) >>= k) y := by
  intro evm m hs
  rw [bind_of_ok (attempt_readWindow source o n evm)]
  exact h evm m hs

/-- There is no buffer to copy through where there is none to copy to. -/
theorem not_holds_reached {accessed o n : Nat} (hn : n ≠ 0) (h : env.bufferLimit ≤ n) :
    ¬ env.Holds (reached accessed o n) := by
  rw [reached, if_neg hn]
  unfold Env.Holds wordsFor
  omega

theorem agree_noBuffer {e : PyException} {evm : EVM} {m : WordMachine} {o : Nat} {data : Bytes}
    {V : α → Unit → Prop} (he : e.IsMemory) (h : Shows env I evm m) (hdata : data.length ≠ 0)
    (hle : env.bufferLimit ≤ data.length) :
    Agree (fun (e : Abort) f => e.fault = f) (Shows env I) V (.error (.raised e) evm)
      (writeMemory env o data m) := by
  rw [writeMemory, bind_of_error (access_of_not_holds (not_holds_reached hdata hle))]
  refine .error ?_ h
  rcases he with rfl | ⟨message, rfl⟩ <;> rfl

theorem simulates_copyOp {source : EVM → Bytes} {data : Bytes}
    (h : ∀ evm m, Shows env I evm m → source evm = data) :
    Simulates env I (fun _ _ => True) (copyOp env source) (copy env data) := by
  refine simulates_pop fun d => ?_
  refine simulates_pop fun o => ?_
  refine simulates_pop fun n => ?_
  by_cases hn : n.toNat = 0
  · rw [hn]
    exact simulates_writeRange d.toNat []
  · rw [if_neg (by exact_mod_cast hn)]
    intro evm m hs
    rw [bind_of_ok (get_apply evm), h evm m hs]
    have hlength : (read (view 0 data) o.toNat n.toNat).length = n.toNat := length_read
    rcases Nat.lt_or_ge n.toNat env.bufferLimit with hlt | hge
    · rw [bind_of_ok (attempt_bytearray hlt evm)]
      exact simulates_attempt_window (simulates_writeRange d.toNat _) evm m hs
    · obtain ⟨e, he, hmemory⟩ := bytearray_of_le hge
      have hraised : attempt (env.bytearray n.toNat) evm = .error (.raised e) evm := by
        rw [he]
        rfl
      rw [bind_of_error hraised]
      exact agree_noBuffer hmemory hs (hlength.symm ▸ hn) (hlength.symm ▸ hge)

theorem Shows.sstore {evm : EVM} {m : WordMachine} (h : Shows env I evm m) (k v : U256) :
    Shows env I { evm with storage := evm.storage.set k.toNat v.toNat }
      { m with cells := Function.update m.cells k (some v) } :=
  { h with cells := h.cells.set k v }

theorem Shows.stands_address {evm : EVM} {m : WordMachine} (h : Shows env I evm m) :
    Stands (intFromBytes evm.context.address) (.ofBytes I.address) := by
  rw [h.address]
  exact stands_ofBytes h.fits.address

theorem Shows.stands_caller {evm : EVM} {m : WordMachine} (h : Shows env I evm m) :
    Stands (intFromBytes evm.context.caller) (.ofBytes I.caller) := by
  rw [h.caller]
  exact stands_ofBytes h.fits.caller

theorem Shows.stands_length_data {evm : EVM} {m : WordMachine} (h : Shows env I evm m) :
    Stands evm.context.data.length (.ofNat 256 I.data.length) := by
  rw [h.data]
  exact stands_length h.fits.data

theorem Shows.stands_length_code {evm : EVM} {m : WordMachine} (h : Shows env I evm m) :
    Stands evm.code.length (.ofNat 256 I.code.length) := by
  rw [h.code]
  exact stands_length h.fits.code

theorem Shows.stands_gas {evm : EVM} {m : WordMachine} (h : Shows env I evm m) :
    Stands evm.gasRemaining (.ofNat 256 m.gas) := by
  have hlt := h.fits.gas
  have hle := h.gas_le
  rw [h.gas]
  exact stands_ofNat (by omega)

theorem Shows.stands_size {evm : EVM} {m : WordMachine} (h : Shows env I evm m) :
    Stands evm.memory.size (.ofNat 256 (wordsFor m.accessed)) := by
  have hlimit := env.bufferLimit_le
  rw [Memory.size, h.memory.length]
  refine stands_ofNat ?_
  rcases h.holds with hzero | hlt
  · rw [hzero]
    decide
  · omega

theorem Shows.getElem? {evm : EVM} {m : WordMachine} (h : Shows env I evm m) (n : Nat) :
    evm.executionStack[n]? = m.stack[n]?.map fun w => (w.toNat : Int) := by
  rw [h.stack, List.getElem?_map]

theorem simulates_dup (n : Nat) :
    Simulates env I (fun _ _ => True) (opDup n) (dup n) := by
  intro evm m h
  have hpeek := h.getElem? n
  rw [dup, bind_of_ok (get_apply m)]
  cases hm : m.stack[n]? with
  | none =>
    rw [hm] at hpeek
    have hraised : stackPeek n evm =
        .error (.raised (.evmError (.stackUnderflow (n + 1) evm.executionStack.length))) evm := by
      rw [stackPeek, bind_of_ok (get_apply evm), hpeek]
      rfl
    rw [opDup, bind_of_error hraised]
    exact .error rfl h
  | some w =>
    rw [hm] at hpeek
    have hvalue : stackPeek n evm = .ok (w.toNat : Int) evm := by
      rw [stackPeek, bind_of_ok (get_apply evm), hpeek]
      rfl
    rw [opDup, bind_of_ok hvalue]
    exact simulates_stackPush rfl evm m h

theorem simulates_swap (n : Nat) :
    Simulates env I (fun _ _ => True) (opSwap n) (swap n) := by
  refine related_get_bind fun evm m h => ?_
  rw [h.getElem? 0, h.getElem? n]
  rcases m.stack[0]? with _ | top
  · exact .error rfl h
  rcases m.stack[n]? with _ | other
  · exact .error rfl h
  refine .ok trivial { h with stack := ?_ }
  dsimp only
  rw [h.stack, List.map_set, List.map_set]

theorem simulates_jumpTo (destination : U256) :
    Simulates env I (fun _ _ => True) (jumpTo destination.toNat) (jump I destination) := by
  intro evm m h
  have hvalid : (0 ≤ (destination.toNat : Int) ∧ (destination.toNat : Int).toNat ∈
      findJumpdests evm.code) ↔ destination.toNat ∈ findJumpdests I.code := by
    rw [h.code, Int.toNat_natCast]
    exact and_iff_right (Int.natCast_nonneg _)
  rw [jumpTo, bind_of_ok (get_apply evm)]
  refine Related.ite hvalid (simulates_modify ?_) (simulates_throw rfl) evm m h
  exact fun evm m h => { h with programCounter := rfl }

theorem simulates_halt {end_ : Bytes → EVM → EVM} {stop : Bytes → WordMachine → WordMachine}
    (h : ∀ data evm m, Short data → Shows env I evm m →
      Shows env I (end_ data evm) (stop data m)) :
    Simulates env I (fun _ _ => True) (do
      let offset ← stackPop
      let size ← stackPop
      let data ← liftMemory (Memory.readRange env offset size)
      modify (end_ data)) (halt env stop) := by
  refine simulates_pop fun o => ?_
  refine simulates_pop fun n => ?_
  refine (simulates_readRange o.toNat n.toNat).bind ?_
  rintro data _ ⟨rfl, hdata⟩
  exact simulates_modify fun evm m => h data evm m hdata

/-- Each opcode means what the machine does. -/
theorem simulates_localOp {opcode : Opcode} (hpush : ∀ n, opcode = .push n → n ≤ 32) :
    Simulates env I (fun _ _ => True) (localOp env opcode) (perform env I opcode) := by
  cases opcode with
  | stop =>
    exact simulates_modify fun evm m h => { h with stopped := rfl }
  | add => exact simulates_binaryOp stands_add
  | mul => exact simulates_binaryOp stands_mul
  | sub => exact simulates_binaryOp stands_sub
  | div => exact simulates_binaryOp stands_div
  | mod => exact simulates_binaryOp stands_mod
  | exp =>
    refine simulates_pop fun a => ?_
    refine simulates_pop fun b => ?_
    obtain ⟨v, hv, hstands⟩ := stands_exp a b
    rw [hv]
    exact simulates_stackPush hstands
  | lt => exact simulates_binaryOp stands_lt
  | gt => exact simulates_binaryOp fun a b => stands_lt b a
  | eq => exact simulates_binaryOp stands_eq
  | iszero =>
    refine simulates_pop fun a => ?_
    exact simulates_stackPush (stands_iszero a)
  | and => exact simulates_binaryOp stands_and
  | or => exact simulates_binaryOp stands_or
  | not =>
    refine simulates_pop fun a => ?_
    exact simulates_stackPush (stands_not a)
  | sha3 =>
    refine simulates_pop fun o => ?_
    refine simulates_pop fun n => ?_
    refine (simulates_readRange o.toNat n.toNat).bind ?_
    rintro data _ ⟨rfl, -⟩
    exact simulates_stackPush (stands_ofBytes (env.keccak256_length data).le)
  | address => exact simulates_pushOf fun evm m h => h.stands_address
  | caller => exact simulates_pushOf fun evm m h => h.stands_caller
  | callvalue => exact simulates_pushOf fun evm m h => h.value
  | calldataload =>
    refine simulates_pop fun o => ?_
    intro evm m h
    rw [bind_of_ok (get_apply evm), h.data]
    exact simulates_attempt_window (simulates_stackPush (stands_ofBytes length_read.le)) evm m h
  | calldatasize => exact simulates_pushOf fun evm m h => h.stands_length_data
  | calldatacopy => exact simulates_copyOp fun evm m h => h.data
  | codesize => exact simulates_pushOf fun evm m h => h.stands_length_code
  | codecopy => exact simulates_copyOp fun evm m h => h.code
  | pop => exact simulates_stackPop.bind fun _ _ _ => related_pure trivial
  | mload =>
    refine simulates_pop fun o => ?_
    refine (simulates_load o.toNat).bind ?_
    rintro _ data ⟨rfl, hlength⟩
    exact simulates_stackPush (stands_ofBytes hlength)
  | mstore =>
    refine simulates_pop fun o => ?_
    refine simulates_pop fun v => ?_
    exact simulates_store o.toNat v
  | mstore8 =>
    refine simulates_pop fun o => ?_
    refine simulates_pop fun v => ?_
    exact simulates_store8 o.toNat v
  | sload =>
    refine simulates_pop fun k => ?_
    refine related_get_bind fun evm m h => ?_
    exact simulates_emit _ (simulates_stackPush (h.cells.stands k)) evm m h
  | sstore =>
    refine simulates_pop fun k => ?_
    refine simulates_pop fun v => ?_
    intro evm m h
    exact simulates_emit (.sstore evm.context.address k.toNat v.toNat)
      (simulates_modify fun evm m h => h.sstore k v) evm m h
  | jump =>
    refine simulates_pop fun d => ?_
    exact simulates_jumpTo d
  | jumpi =>
    refine simulates_pop fun d => ?_
    refine simulates_pop fun c => ?_
    exact Related.ite (not_congr (toNat_eq_zero_iff c)) (simulates_jumpTo d) (related_pure trivial)
  | msize => exact simulates_pushOf fun evm m h => h.stands_size
  | gas => exact simulates_pushOf fun evm m h => h.stands_gas
  | jumpdest => exact related_pure trivial
  | push n =>
    refine related_get_bind fun evm m h => ?_
    rw [h.code, h.programCounter]
    refine simulates_attempt_window (Related.bind (V := fun _ _ => True) ?_ fun _ _ _ => ?_) evm m h
    · exact simulates_stackPush (stands_ofBytes (length_read.le.trans (hpush n rfl)))
    · refine simulates_modify fun evm m h => { h with programCounter := ?_ }
      rw [h.programCounter]
  | dup n => exact simulates_dup (n - 1)
  | swap n => exact simulates_swap n
  | «return» =>
    exact simulates_halt fun _ _ _ hdata h =>
      { h with stopped := rfl, returnData := rfl, answer_short := hdata }
  | revert =>
    exact simulates_halt fun _ _ _ hdata h =>
      { h with stopped := rfl, reverted := rfl, returnData := rfl, answer_short := hdata }
  | create | call | invalid => exact fun evm m h => .error rfl h

end Handlers

end WordMachine

end Ethereum
