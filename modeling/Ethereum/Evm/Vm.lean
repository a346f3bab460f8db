import Ethereum.Encoding.Rlp
import Ethereum.Evm.Memory
import Ethereum.Evm.Opcodes
import Ethereum.State.WorldState
import Mathlib.Data.Int.Bitwise

/-! The stack machine (`evm/vm.py`). A handler is a computation on the `EVM` object that
may raise. The world state is one object shared by all frames, so a child frame
starts from its parent's and hands it back however it ends. -/
namespace Ethereum

structure ExecutionContext where
  caller : Bytes
  address : Bytes
  value : Int
  data : Bytes
  gas : Int
  deriving DecidableEq

/-- `contractAddress` is the attribute that `_execute_create` attaches. -/
structure ExecutionResult where
  success : Bool
  returnData : Bytes
  gasUsed : Int
  gasRemaining : Int
  contractAddress : Option Bytes := none
  deriving DecidableEq

/-- Who started a frame: a transaction that calls a contract (`message`) or makes one
(`creation`), or an opcode of another frame. -/
inductive FrameKind
  | message | creation | call | create
  deriving DecidableEq

inductive Ending
  | success | failure | outOfGas | raised
  deriving DecidableEq

/-- What the machine did, in order. The log is ghost state: no handler reads it. -/
inductive Event
  | enter (kind : FrameKind) (context : ExecutionContext)
  | leave (kind : FrameKind) (ending : Ending)
  | executed (address : Bytes) (opcode : Opcode)
  | sload (address : Bytes) (key value : Int)
  | sstore (address : Bytes) (key value : Int)
  deriving DecidableEq

/-- The top of `executionStack` is its head. -/
structure EVM where
  code : Bytes
  programCounter : Nat
  executionStack : List Int
  memory : Memory
  storage : Dict Int Int
  gasRemaining : Int
  context : ExecutionContext
  worldState : Option WorldState
  stopped : Bool
  returnData : Bytes
  reverted : Bool
  log : List Event
  deriving DecidableEq

/-- `EVM(code, context, storage, world_state)` -/
def EVM.init (code : Bytes) (context : ExecutionContext) (storage : Dict Int Int)
    (worldState : Option WorldState) (log : List Event) : EVM where
  code := code
  programCounter := 0
  executionStack := []
  memory := .empty
  storage := storage
  gasRemaining := context.gas
  context := context
  worldState := worldState
  stopped := false
  returnData := []
  reverted := false
  log := log

/-- The condition of the loop in `execute`. -/
def EVM.running (evm : EVM) : Bool := !evm.stopped && evm.programCounter < evm.code.length

abbrev EvmM := EStateM Abort EVM

/-- How `execute()` ends: it returns a result or raises. -/
abbrev Outcome := EStateM.Result Abort EVM ExecutionResult

def raiseEvm {α : Type} (e : EVMError) : EvmM α := throw (.raised (.evmError e))

def emit (event : Event) : EvmM Unit := modify fun evm => { evm with log := evm.log ++ [event] }

def setWorld (world : WorldState) : EvmM Unit :=
  modify fun evm => { evm with worldState := some world }

def liftMemory {α : Type} (x : EStateM Abort Memory α) : EvmM α :=
  Stateful.zoom EVM.memory (fun memory evm => { evm with memory }) x

def consumeGas (cost : Int) : EvmM Unit := do
  let evm ← get
  if evm.gasRemaining < cost then raiseEvm (.outOfGas cost evm.gasRemaining)
  else modify fun evm => { evm with gasRemaining := evm.gasRemaining - cost }

def stackPop : EvmM Int := do
  let evm ← get
  match evm.executionStack with
  | [] => raiseEvm (.stackUnderflow 1 0)
  | value :: rest => do
    modify fun evm => { evm with executionStack := rest }
    return value

def stackPush (value : Int) : EvmM Unit := do
  let evm ← get
  if maxStackDepth ≤ evm.executionStack.length then raiseEvm (.stackOverflow maxStackDepth)
  else modify fun evm => { evm with executionStack := value :: evm.executionStack }

def stackPeek (depth : Nat) : EvmM Int := do
  let evm ← get
  match evm.executionStack[depth]? with
  | none => raiseEvm (.stackUnderflow (depth + 1) evm.executionStack.length)
  | some value => return value

section Handlers

variable (env : Env)

def opStop : EvmM Unit := modify fun evm => { evm with stopped := true }

/-- Pop two operands and push a function of them. -/
def binaryOp (f : Int → Int → Int) : EvmM Unit := do
  let a ← stackPop
  let b ← stackPop
  stackPush (f a b)

def opAdd : EvmM Unit := binaryOp fun a b => (a + b) % modValue
def opMul : EvmM Unit := binaryOp fun a b => (a * b) % modValue
def opSub : EvmM Unit := binaryOp fun a b => (a - b) % modValue
def opDiv : EvmM Unit := binaryOp fun a b => if b ≠ 0 then a.fdiv b else 0
def opMod : EvmM Unit := binaryOp fun a b => if b ≠ 0 then a.fmod b else 0
def opLt : EvmM Unit := binaryOp fun a b => if a < b then 1 else 0
def opGt : EvmM Unit := binaryOp fun a b => if a > b then 1 else 0
def opEq : EvmM Unit := binaryOp fun a b => if a = b then 1 else 0
def opAnd : EvmM Unit := binaryOp Int.land
def opOr : EvmM Unit := binaryOp Int.lor

/-- `pow(base, exponent, MOD_VALUE)`. A negative exponent asks for a power of the
inverse, and the inverse of an odd base is its power `2^254 - 1`. -/
def powMod (base exponent : Int) : Except PyException Int :=
  if 0 ≤ exponent then .ok (base ^ exponent.toNat % modValue)
  else if base % 2 = 0 then
    .error (.valueError "base is not invertible for the given modulus")
  else .ok (base ^ ((2 ^ 254 - 1) * exponent.natAbs) % modValue)

def opExp : EvmM Unit := do
  let base ← stackPop
  let exponent ← stackPop
  let result ← attempt (powMod base exponent)
  stackPush result

def opIszero : EvmM Unit := do
  let a ← stackPop
  stackPush (if a = 0 then 1 else 0)

def opNot : EvmM Unit := do
  let a ← stackPop
  stackPush (maxUint256 - a)

def opSha3 : EvmM Unit := do
  let offset ← stackPop
  let size ← stackPop
  let data ← liftMemory (Memory.readRange env offset size)
  stackPush (intFromBytes (env.keccak256 data))

/-- Push a value that the frame already holds. -/
def pushOf (f : EVM → Int) : EvmM Unit := do
  let evm ← get
  stackPush (f evm)

def opAddress : EvmM Unit := pushOf fun evm => intFromBytes evm.context.address
def opCaller : EvmM Unit := pushOf fun evm => intFromBytes evm.context.caller
def opCallvalue : EvmM Unit := pushOf fun evm => evm.context.value
def opCalldatasize : EvmM Unit := pushOf fun evm => evm.context.data.length
def opCodesize : EvmM Unit := pushOf fun evm => evm.code.length
def opMsize : EvmM Unit := pushOf fun evm => evm.memory.size
def opGas : EvmM Unit := pushOf fun evm => evm.gasRemaining

/-- The loop that copies `data[offset + i]` for each `i` below `size` and leaves zero
where that is past the end. -/
def readWindow (data : Bytes) (offset : Int) (size : Nat) : Except PyException Bytes :=
  (List.range size).mapM fun i : Nat =>
    if offset + i < data.length then getIndex data (offset + i) else .ok 0

def opCalldataload : EvmM Unit := do
  let offset ← stackPop
  let evm ← get
  let word ← attempt (readWindow evm.context.data offset 32)
  stackPush (intFromBytes word)

/-- The body that `CALLDATACOPY` and `CODECOPY` share. -/
def copyOp (source : EVM → Bytes) : EvmM Unit := do
  let destOffset ← stackPop
  let offset ← stackPop
  let size ← stackPop
  if size = 0 then pure ()
  else
    let evm ← get
    let _ ← attempt (env.bytearray size)
    let data ← attempt (readWindow (source evm) offset size.toNat)
    liftMemory (Memory.writeRange env destOffset data)

def opCalldatacopy : EvmM Unit := copyOp env fun evm => evm.context.data
def opCodecopy : EvmM Unit := copyOp env EVM.code

def opPop : EvmM Unit := do
  let _ ← stackPop
  pure ()

def opPush (n : Nat) : EvmM Unit := do
  let evm ← get
  let valueBytes ← attempt (readWindow evm.code evm.programCounter n)
  stackPush (intFromBytes valueBytes)
  modify fun evm => { evm with programCounter := evm.programCounter + n }

def opDup (depth : Nat) : EvmM Unit := do
  let value ← stackPeek depth
  stackPush value

def opSwap (depth : Nat) : EvmM Unit := do
  let evm ← get
  match evm.executionStack[0]?, evm.executionStack[depth]? with
  | some top, some other => modify fun evm =>
    { evm with executionStack := (evm.executionStack.set 0 other).set depth top }
  | _, _ => raiseEvm (.stackUnderflow (depth + 1) evm.executionStack.length)

def opMload : EvmM Unit := do
  let offset ← stackPop
  let value ← liftMemory (Memory.load env offset)
  stackPush value

def opMstore : EvmM Unit := do
  let offset ← stackPop
  let value ← stackPop
  liftMemory (Memory.store env offset value)

def opMstore8 : EvmM Unit := do
  let offset ← stackPop
  let value ← stackPop
  liftMemory (Memory.store8 env offset value)

def opSload : EvmM Unit := do
  let key ← stackPop
  let evm ← get
  let value := evm.storage.getD key 0
  emit (.sload evm.context.address key value)
  stackPush value

def opSstore : EvmM Unit := do
  let key ← stackPop
  let value ← stackPop
  let evm ← get
  emit (.sstore evm.context.address key value)
  modify fun evm => { evm with storage := evm.storage.set key value }

/-- `valid_jumpdests` is computed from the code when the frame is built, and the code
of a frame never changes. -/
def jumpTo (destination : Int) : EvmM Unit := do
  let evm ← get
  if 0 ≤ destination ∧ destination.toNat ∈ findJumpdests evm.code then
    modify fun evm => { evm with programCounter := destination.toNat }
  else raiseEvm (.invalidJumpDestination destination)

def opJump : EvmM Unit := do
  let destination ← stackPop
  jumpTo destination

def opJumpi : EvmM Unit := do
  let destination ← stackPop
  let condition ← stackPop
  if condition ≠ 0 then jumpTo destination else pure ()

def opJumpdest : EvmM Unit := pure ()

def opReturn : EvmM Unit := do
  let offset ← stackPop
  let size ← stackPop
  let data ← liftMemory (Memory.readRange env offset size)
  modify fun evm => { evm with returnData := data, stopped := true }

def opRevert : EvmM Unit := do
  let offset ← stackPop
  let size ← stackPop
  let data ← liftMemory (Memory.readRange env offset size)
  modify fun evm => { evm with returnData := data, stopped := true, reverted := true }

/-- The handlers that start no frame. `INVALID` never gets here and has no handler. -/
def localOp : Opcode → EvmM Unit
  | .push n => opPush n
  | .dup n => opDup (n - 1)
  | .swap n => opSwap n
  | .stop => opStop
  | .add => opAdd
  | .mul => opMul
  | .sub => opSub
  | .div => opDiv
  | .mod => opMod
  | .exp => opExp
  | .lt => opLt
  | .gt => opGt
  | .eq => opEq
  | .iszero => opIszero
  | .and => opAnd
  | .or => opOr
  | .not => opNot
  | .sha3 => opSha3 env
  | .address => opAddress
  | .caller => opCaller
  | .callvalue => opCallvalue
  | .calldataload => opCalldataload
  | .calldatasize => opCalldatasize
  | .calldatacopy => opCalldatacopy env
  | .codesize => opCodesize
  | .codecopy => opCodecopy env
  | .pop => opPop
  | .mload => opMload env
  | .mstore => opMstore env
  | .mstore8 => opMstore8 env
  | .sload => opSload
  | .sstore => opSstore
  | .jump => opJump
  | .jumpi => opJumpi
  | .msize => opMsize
  | .gas => opGas
  | .jumpdest => opJumpdest
  | .return => opReturn env
  | .revert => opRevert env
  | .create | .call | .invalid => do
    let evm ← get
    raiseEvm (.invalidOpcode 0xfe (evm.programCounter - 1))

end Handlers

/-- The transfer that comes before a call or a creation with value. -/
def payValue (world : WorldState) (sender recipient : Bytes) (value : Int) :
    Except String WorldState :=
  if 0 < value then world.transfer sender recipient value else .ok world

/-- The address of a new contract (`core/address.py`). -/
def computeContractAddress (env : Env) (sender : Bytes) (nonce : Int) :
    Except PyException Bytes :=
  match intToRlpBytes nonce with
  | .error e => .error e
  | .ok nonceBytes =>
    .ok ((env.keccak256 (rlpEncode (.list [.bytes sender, .bytes nonceBytes]))).drop 12)

theorem length_of_computeContractAddress {env : Env} {sender address : Bytes} {nonce : Int}
    (h : computeContractAddress env sender nonce = .ok address) : address.length = 20 := by
  unfold computeContractAddress at h
  split at h
  · cases h
  · cases h
    rw [List.length_drop, env.keccak256_length]

/-- The local variables of `_op_create` at the point where the child is executed. -/
structure PendingCreate where
  child : EVM
  contractAddress : Bytes

/-- The local variables of `_op_call` at the point where the child is executed. -/
structure PendingCall where
  child : EVM
  targetAddress : Bytes
  forwardedGas : Int
  retOffset : Int
  retLength : Int

/-- Take over the shared world state (and the log) from a child that has ended. -/
def joinChild (kind : FrameKind) (ending : Ending) (child : EVM) : EvmM Unit :=
  modify fun evm =>
    { evm with worldState := child.worldState, log := child.log ++ [.leave kind ending] }

def useGas (amount : Int) : EvmM Unit :=
  modify fun evm => { evm with gasRemaining := evm.gasRemaining - amount }

def persistStorage (address : Bytes) (storage : Dict Int Int) : EvmM Unit :=
  modify fun evm => { evm with
    worldState := evm.worldState.map fun world => world.persistStorage address storage }

section Contracts

variable (env : Env)

/-- `_op_create` up to the execution of the init code. -/
def opCreateStart : EvmM (Option PendingCreate) := do
  let value ← stackPop
  let offset ← stackPop
  let size ← stackPop
  let evm ← get
  match evm.worldState with
  | none => do
    stackPush 0
    return none
  | some world => do
    let initCode ← liftMemory (Memory.readRange env offset size)
    let creator := evm.context.address
    let contractAddress ←
      attempt (computeContractAddress env creator (world.getAccount creator).nonce)
    let world := (world.incrementNonce creator).addBalance contractAddress 0
    setWorld world
    match payValue world creator contractAddress value with
    | .error _ => do
      stackPush 0
      return none
    | .ok world => do
      setWorld world
      let context : ExecutionContext :=
        { caller := creator, address := contractAddress, value, data := [],
          gas := evm.gasRemaining }
      let child := EVM.init initCode context .empty (some world)
        (evm.log ++ [.enter .create context])
      return some { child, contractAddress }

/-- `_op_create` from the outcome of the init code. -/
def opCreateFinish (p : PendingCreate) : Outcome → EvmM Unit
  | .ok result child =>
    if result.success then do
      joinChild .create .success child
      modify fun evm => { evm with
        worldState := evm.worldState.map fun world =>
          world.setCode p.contractAddress result.returnData }
      persistStorage p.contractAddress child.storage
      useGas result.gasUsed
      stackPush (intFromBytes p.contractAddress)
    else do
      joinChild .create .failure child
      useGas result.gasUsed
      stackPush 0
  | .error (.raised (.evmError (.outOfGas _ _))) child => do
    joinChild .create .outOfGas child
    stackPush 0
  | .error e child => do
    joinChild .create .raised child
    throw e

def opCreate (exec : EVM → Outcome) : EvmM Unit := do
  match ← opCreateStart env with
  | none => pure ()
  | some p => opCreateFinish p (exec p.child)

def readCalldata (argsOffset argsLength : Int) : EvmM Bytes :=
  if 0 < argsLength then liftMemory (Memory.readRange env argsOffset argsLength) else pure []

/-- `_op_call` up to the execution of the callee. -/
def opCallStart : EvmM (Option PendingCall) := do
  let gas ← stackPop
  let addrInt ← stackPop
  let value ← stackPop
  let argsOffset ← stackPop
  let argsLength ← stackPop
  let retOffset ← stackPop
  let retLength ← stackPop
  let evm ← get
  match evm.worldState with
  | none => do
    stackPush 0
    return none
  | some world => do
    let addrBytes ← attempt (intToBytes 32 addrInt)
    let targetAddress := addrBytes.drop 12
    let forwardedGas := min gas evm.gasRemaining
    let inputData ← readCalldata env argsOffset argsLength
    let targetAccount := world.getAccount targetAddress
    match payValue world evm.context.address targetAddress value with
    | .error _ => do
      stackPush 0
      return none
    | .ok world => do
      setWorld world
      if targetAccount.code = [] then
        useGas forwardedGas
        useGas (-forwardedGas)
        stackPush 1
        return none
      else
        let context : ExecutionContext :=
          { caller := evm.context.address, address := targetAddress, value, data := inputData,
            gas := forwardedGas }
        let child := EVM.init targetAccount.code context targetAccount.storage (some world)
          (evm.log ++ [.enter .call context])
        return some { child, targetAddress, forwardedGas, retOffset, retLength }

/-- Copy the callee's return data, zero-padded to `retLength`, to the caller's memory. -/
def writeReturnData (retOffset retLength : Int) (returnData : Bytes) : EvmM Unit :=
  if 0 < retLength ∧ returnData ≠ [] then do
    let writeData := returnData.take retLength.toNat
    let missing := retLength - writeData.length
    if 0 < missing then
      attempt (env.allocate missing retLength)
      liftMemory (Memory.writeRange env retOffset
        (writeData ++ List.replicate missing.toNat 0))
    else liftMemory (Memory.writeRange env retOffset writeData)
  else pure ()

/-- `_op_call` from the outcome of the callee. -/
def opCallFinish (p : PendingCall) : Outcome → EvmM Unit
  | .ok result child =>
    if result.success then do
      joinChild .call .success child
      persistStorage p.targetAddress child.storage
      writeReturnData env p.retOffset p.retLength result.returnData
      useGas result.gasUsed
      stackPush 1
    else do
      joinChild .call .failure child
      useGas p.forwardedGas
      stackPush 0
  | .error (.raised (.evmError (.outOfGas _ _))) child => do
    joinChild .call .outOfGas child
    useGas p.forwardedGas
    stackPush 0
  | .error e child => do
    joinChild .call .raised child
    throw e

def opCall (exec : EVM → Outcome) : EvmM Unit := do
  match ← opCallStart env with
  | none => pure ()
  | some p => opCallFinish env p (exec p.child)

def dispatch (exec : EVM → Outcome) : Opcode → EvmM Unit
  | .create => opCreate env exec
  | .call => opCall env exec
  | opcode => localOp env opcode

/-- The body of the loop in `execute`; `exec` runs the frames it starts. -/
def iterate (exec : EVM → Outcome) : EvmM Unit := do
  let evm ← get
  match evm.code[evm.programCounter]? with
  | none => pure ()
  | some byte =>
    match Opcode.ofByte byte with
    | none => raiseEvm (.invalidOpcode byte.toNat evm.programCounter)
    | some .invalid => do
      emit (.executed evm.context.address .invalid)
      modify fun evm => { evm with gasRemaining := 0, stopped := true, reverted := true }
    | some opcode => do
      consumeGas (gasCost opcode)
      emit (.executed evm.context.address opcode)
      modify fun evm => { evm with programCounter := evm.programCounter + 1 }
      dispatch env exec opcode

/-- The end of `execute`: out of gas is marked and raised again. -/
def conclude (initialGas : Int) : EStateM.Result Abort EVM Unit → Outcome
  | .ok _ evm => .ok
      { success := !evm.reverted
        returnData := evm.returnData
        gasUsed := initialGas - evm.gasRemaining
        gasRemaining := evm.gasRemaining } evm
  | .error (.raised (.evmError (.outOfGas needed remaining))) evm =>
    .error (.raised (.evmError (.outOfGas needed remaining)))
      { evm with reverted := true, gasRemaining := 0 }
  | .error e evm => .error e evm

/-- The loop of `execute`. The fuel bounds the number of iterations and the depth of
frames together. -/
def runLoop : Nat → EvmM Unit
  | 0 => throw .outOfFuel
  | fuel + 1 => do
    let evm ← get
    if evm.running then
      iterate env fun child => conclude child.gasRemaining (runLoop fuel child)
      runLoop fuel
    else pure ()

def execute (fuel : Nat) : EVM → Outcome := fun evm =>
  conclude evm.gasRemaining (runLoop env fuel evm)

end Contracts

end Ethereum
