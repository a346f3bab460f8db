import Ethereum.Evm.MemoryModel
import Ethereum.Evm.Vm

/-! What the opcodes mean, apart from the interpreter: a machine on words of 256 bits, with
memory, storage and the ledger as total functions. All accounts of the ledger exist from the
beginning, with nothing in them. -/
namespace Ethereum

open Padded

abbrev U256 := BitVec 256

/-- The word of a big-endian byte string. -/
def U256.ofBytes (data : Bytes) : U256 := .ofNat 256 (BigEndian.fromBytes data)

/-- The storage of a contract, `none` where nothing was ever written. -/
abbrev Cells := U256 → Option U256

structure WordAccount where
  nonce : Nat := 0
  balance : Nat := 0
  code : Bytes := []
  cells : Cells := fun _ => none

abbrev WordWorld := Bytes → WordAccount

namespace WordWorld

variable (v : WordWorld) (a : Bytes)

def modify (f : WordAccount → WordAccount) : WordWorld := Function.update v a (f (v a))

def bump : WordWorld := v.modify a fun x => { x with nonce := x.nonce + 1 }

def credit (amount : Nat) : WordWorld :=
  v.modify a fun x => { x with balance := x.balance + amount }

def debit (amount : Nat) : WordWorld :=
  v.modify a fun x => { x with balance := x.balance - amount }

/-- Nobody pays more than they hold. -/
def pay (recipient : Bytes) (amount : Nat) : Option WordWorld :=
  if (v a).balance < amount then none else some ((v.debit a amount).credit recipient amount)

def deploy (code : Bytes) : WordWorld := v.modify a fun x => { x with code }

/-- Write a copy of the storage back; what it does not know stays. -/
def persist (cells : Cells) : WordWorld :=
  v.modify a fun x => { x with cells := fun k => (cells k).or (x.cells k) }

end WordWorld

/-- How a frame goes wrong. -/
inductive Fault
  | outOfGas | stackUnderflow | stackOverflow | invalidJump | invalidOpcode | outOfMemory
  | outOfFuel | other
  deriving DecidableEq

/-- What a frame is given. No opcode changes it. -/
structure Input where
  code : Bytes
  data : Bytes
  address : Bytes
  caller : Bytes
  value : U256
  gas : Nat

/-- `accessed` is the end of the accesses to memory so far, and `cells` is the frame's own copy
of its storage. -/
structure WordMachine where
  programCounter : Nat := 0
  stack : List U256 := []
  memory : Nat → UInt8 := fun _ => 0
  accessed : Nat := 0
  cells : Cells
  world : Option WordWorld
  gas : Nat
  stopped : Bool := false
  reverted : Bool := false
  returnData : Bytes := []

abbrev WordM := EStateM Fault WordMachine

abbrev WordResult := EStateM.Result Fault WordMachine Unit

/-- A frame that is about to start, with the storage and the ledger that it finds. -/
structure WordFrame where
  input : Input
  cells : Cells
  world : WordWorld

def WordFrame.start (f : WordFrame) : WordMachine where
  cells := f.cells
  world := some f.world
  gas := f.input.gas

namespace WordMachine

variable (env : Env) (I : Input)

instance (m : Nat) : Decidable (env.Holds m) :=
  inferInstanceAs (Decidable (m = 0 ∨ wordsFor m < env.bufferLimit))

def payGas (cost : Nat) : WordM Unit := do
  if (← get).gas < cost then throw .outOfGas
  else modify fun m => { m with gas := m.gas - cost }

def pop : WordM U256 := do
  match (← get).stack with
  | [] => throw .stackUnderflow
  | w :: rest => do
    modify fun m => { m with stack := rest }
    return w

def push (w : U256) : WordM Unit := do
  if maxStackDepth ≤ (← get).stack.length then throw .stackOverflow
  else modify fun m => { m with stack := w :: m.stack }

/-- Use the memory up to the end of the range. -/
def access (offset size : Nat) : WordM Unit := do
  let m ← get
  let accessed := if size = 0 then m.accessed else max m.accessed (offset + size)
  if env.Holds accessed then set { m with accessed } else throw .outOfMemory

def readMemory (offset size : Nat) : WordM Bytes := do
  access env offset size
  return read (← get).memory offset size

def writeMemory (offset : Nat) (data : Bytes) : WordM Unit := do
  access env offset data.length
  modify fun m => { m with memory := write m.memory offset data }

def unary (f : U256 → U256) : WordM Unit := do
  let a ← pop
  push (f a)

def binary (f : U256 → U256 → U256) : WordM Unit := do
  let a ← pop
  let b ← pop
  push (f a b)

def truth (c : Bool) : U256 := if c then 1 else 0

def copy (source : Bytes) : WordM Unit := do
  let destOffset ← pop
  let offset ← pop
  let size ← pop
  writeMemory env destOffset.toNat (read (view 0 source) offset.toNat size.toNat)

def dup (n : Nat) : WordM Unit := do
  match (← get).stack[n]? with
  | none => throw .stackUnderflow
  | some w => push w

def swap (n : Nat) : WordM Unit := do
  let m ← get
  match m.stack[0]?, m.stack[n]? with
  | some top, some other =>
    modify fun m => { m with stack := (m.stack.set 0 other).set n top }
  | _, _ => throw .stackUnderflow

def jump (destination : U256) : WordM Unit := do
  if destination.toNat ∈ findJumpdests I.code then
    modify fun m => { m with programCounter := destination.toNat }
  else throw .invalidJump

/-- Stop with a part of the memory. -/
def halt (stop : Bytes → WordMachine → WordMachine) : WordM Unit := do
  let offset ← pop
  let size ← pop
  let data ← readMemory env offset.toNat size.toNat
  modify (stop data)

/-- The meaning of an opcode that starts no frame. -/
def perform : Opcode → WordM Unit
  | .stop => modify fun m => { m with stopped := true }
  | .add => binary (· + ·)
  | .mul => binary (· * ·)
  | .sub => binary (· - ·)
  | .div => binary (· / ·)
  | .mod => binary fun a b => if b = 0 then 0 else a % b
  | .exp => binary fun a b => a ^ b.toNat
  | .lt => binary fun a b => truth (a < b)
  | .gt => binary fun a b => truth (b < a)
  | .eq => binary fun a b => truth (a = b)
  | .iszero => unary fun a => truth (a = 0)
  | .and => binary (· &&& ·)
  | .or => binary (· ||| ·)
  | .not => unary (~~~ ·)
  | .sha3 => do
    let offset ← pop
    let size ← pop
    let data ← readMemory env offset.toNat size.toNat
    push (.ofBytes (env.keccak256 data))
  | .address => push (.ofBytes I.address)
  | .caller => push (.ofBytes I.caller)
  | .callvalue => push I.value
  | .calldataload => unary fun offset => .ofBytes (read (view 0 I.data) offset.toNat 32)
  | .calldatasize => push (.ofNat 256 I.data.length)
  | .calldatacopy => copy env I.data
  | .codesize => push (.ofNat 256 I.code.length)
  | .codecopy => copy env I.code
  | .pop => do
    let _ ← pop
    pure ()
  | .mload => do
    let offset ← pop
    let data ← readMemory env offset.toNat 32
    push (.ofBytes data)
  | .mstore => do
    let offset ← pop
    let value ← pop
    writeMemory env offset.toNat (BigEndian.toBytes 32 value.toNat)
  | .mstore8 => do
    let offset ← pop
    let value ← pop
    writeMemory env offset.toNat [UInt8.ofNat value.toNat]
  | .sload => do
    let key ← pop
    push (((← get).cells key).getD 0)
  | .sstore => do
    let key ← pop
    let value ← pop
    modify fun m => { m with cells := Function.update m.cells key (some value) }
  | .jump => do
    let destination ← pop
    jump I destination
  | .jumpi => do
    let destination ← pop
    let condition ← pop
    if condition ≠ 0 then jump I destination else pure ()
  | .msize => do push (.ofNat 256 (wordsFor (← get).accessed))
  | .gas => do push (.ofNat 256 (← get).gas)
  | .jumpdest => pure ()
  | .push n => do
    push (.ofBytes (read (view 0 I.code) (← get).programCounter n))
    modify fun m => { m with programCounter := m.programCounter + n }
  | .dup n => dup (n - 1)
  | .swap n => swap n
  | .return => halt env fun data m => { m with returnData := data, stopped := true }
  | .revert => halt env fun data m =>
    { m with returnData := data, stopped := true, reverted := true }
  | .create | .call | .invalid => throw .invalidOpcode

section Frames

def putWorld (world : WordWorld) : WordM Unit := modify fun m => { m with world := some world }

/-- The ledger is shared: it comes back from a frame however that ends. -/
def join (child : WordMachine) : WordM Unit := modify fun m => { m with world := child.world }

def spend (amount : Nat) : WordM Unit := modify fun m => { m with gas := m.gas - amount }

def changeWorld (f : WordWorld → WordWorld) : WordM Unit :=
  modify fun m => { m with world := m.world.map f }

/-- Where the contract goes that a creator with this nonce makes. -/
def contractAddress (creator : Bytes) (nonce : Nat) : Bytes :=
  (env.keccak256 (rlpEncode (.list [.bytes creator, .bytes (BigEndian.minimal nonce)]))).drop 12

/-- `CREATE` up to the start of the init code, which starts with all gas that is left. -/
def createStart : WordM (Option WordFrame) := do
  let value ← pop
  let offset ← pop
  let size ← pop
  let m ← get
  match m.world with
  | none => do
    push 0
    return none
  | some world => do
    let code ← readMemory env offset.toNat size.toNat
    let address := contractAddress env I.address (world I.address).nonce
    let world := world.bump I.address
    putWorld world
    match world.pay I.address address value.toNat with
    | none => do
      push 0
      return none
    | some world => do
      putWorld world
      let input : Input := { code, data := [], address, caller := I.address, value, gas := m.gas }
      return some { input, cells := fun _ => none, world }

/-- `CREATE` from the end of the init code. Gas that runs out in it costs the creator nothing. -/
def createFinish (f : WordFrame) : WordResult → WordM Unit
  | .ok _ child => do
    join child
    if child.reverted then do
      spend (f.input.gas - child.gas)
      push 0
    else do
      changeWorld fun world => world.deploy f.input.address child.returnData
      changeWorld fun world => world.persist f.input.address child.cells
      spend (f.input.gas - child.gas)
      push (.ofBytes f.input.address)
  | .error .outOfGas child => do
    join child
    push 0
  | .error e child => do
    join child
    throw e

/-- A call that has started, and where the answer goes. -/
structure Call extends WordFrame where
  retOffset : Nat
  retLength : Nat

/-- `CALL` up to the start of the callee. -/
def callStart : WordM (Option Call) := do
  let gas ← pop
  let address ← pop
  let value ← pop
  let argsOffset ← pop
  let argsLength ← pop
  let retOffset ← pop
  let retLength ← pop
  let m ← get
  match m.world with
  | none => do
    push 0
    return none
  | some world => do
    -- the low 160 bits
    let target := BigEndian.toBytes 20 address.toNat
    let data ← readMemory env argsOffset.toNat argsLength.toNat
    match world.pay I.address target value.toNat with
    | none => do
      push 0
      return none
    | some paid => do
      putWorld paid
      if (world target).code = [] then do
        push 1
        return none
      else do
        let input : Input :=
          { code := (world target).code, data, address := target, caller := I.address, value,
            gas := min gas.toNat m.gas }
        return some
          { input, cells := (world target).cells, world := paid, retOffset := retOffset.toNat,
            retLength := retLength.toNat }

/-- An answer is padded with zeros; no answer writes nothing. -/
def writeAnswer (offset size : Nat) (answer : Bytes) : WordM Unit :=
  if answer = [] then pure () else writeMemory env offset (read (view 0 answer) 0 size)

/-- `CALL` from the end of the callee. Only a success gives gas back. -/
def callFinish (c : Call) : WordResult → WordM Unit
  | .ok _ child => do
    join child
    if child.reverted then do
      spend c.input.gas
      push 0
    else do
      changeWorld fun world => world.persist c.input.address child.cells
      writeAnswer env c.retOffset c.retLength child.returnData
      spend (c.input.gas - child.gas)
      push 1
  | .error .outOfGas child => do
    join child
    spend c.input.gas
    push 0
  | .error e child => do
    join child
    throw e

/-- The meaning of an opcode, where `exec` is what frames do. -/
def instruction (exec : Input → WordMachine → WordResult) : Opcode → WordM Unit
  | .create => do
    match ← createStart env I with
    | none => pure ()
    | some f => createFinish f (exec f.input f.start)
  | .call => do
    match ← callStart env I with
    | none => pure ()
    | some c => callFinish env c (exec c.input c.start)
  | opcode => perform env I opcode

/-- One instruction. `INVALID` takes all gas. -/
def step (exec : Input → WordMachine → WordResult) : WordM Unit := do
  let m ← get
  match I.code[m.programCounter]? with
  | none => pure ()
  | some byte =>
    match Opcode.ofByte byte with
    | none => throw .invalidOpcode
    | some opcode =>
      if opcode = .invalid then
        modify fun m => { m with gas := 0, stopped := true, reverted := true }
      else do
        payGas (gasCost opcode).toNat
        modify fun m => { m with programCounter := m.programCounter + 1 }
        instruction env I exec opcode

def running (m : WordMachine) : Bool := !m.stopped && m.programCounter < I.code.length

/-- Instructions up to the end of the frame, and of the frames that it starts. -/
def run (I : Input) : Nat → WordM Unit
  | 0 => throw .outOfFuel
  | fuel + 1 => do
    if (← get).running I then
      step env I fun J => run J fuel
      run I fuel
    else pure ()

end Frames

end WordMachine

end Ethereum
