import Ethereum.Core.TxValidator
import Ethereum.Evm.Vm

/-! The state transition function (`core/state_transition.py`). -/
namespace Ethereum

structure TransactionResult where
  success : Bool
  returnData : Bytes
  gasUsed : Int
  gasRemaining : Int
  error : Option String := none
  contractAddress : Option Bytes := none
  deriving DecidableEq

/-- The world state that a transaction modifies in place, and the log of its frames. -/
structure TxState where
  world : WorldState
  log : List Event := []
  deriving DecidableEq

abbrev TxM := EStateM Abort TxState

def modifyWorld (f : WorldState → WorldState) : TxM Unit :=
  modify fun s => { s with world := f s.world }

/-- `world_state.deduct_balance(address, amount)` -/
def deduct (address : Bytes) (amount : Int) : TxM Unit := do
  let s ← get
  match s.world.deductBalance address amount with
  | .error message => throw (.raised (.valueError message))
  | .ok world => modifyWorld fun _ => world

/-- `if value > 0: world_state.transfer(sender, recipient, value)` -/
def sendValue (sender recipient : Bytes) (value : Int) : TxM Unit := do
  let s ← get
  match payValue s.world sender recipient value with
  | .error message => throw (.raised (.valueError message))
  | .ok world => modifyWorld fun _ => world

/-- Take over the shared world state from a frame that has ended. -/
def joinFrame (kind : FrameKind) (ending : Ending) (evm : EVM) : TxM Unit :=
  modify fun s =>
    { world := evm.worldState.getD s.world, log := evm.log ++ [.leave kind ending] }

/-- The `try` around `evm.execute()`; `none` where `OutOfGas` is caught. -/
def joinOutcome (kind : FrameKind) : Outcome → TxM (Option (ExecutionResult × EVM))
  | .ok result evm => do
    joinFrame kind (if result.success then .success else .failure) evm
    return some (result, evm)
  | .error (.raised (.evmError (.outOfGas _ _))) evm => do
    joinFrame kind .outOfGas evm
    return none
  | .error e evm => do
    joinFrame kind .raised evm
    throw e

section Execution

variable (env : Env) (fuel : Nat) (tx : Transaction) (sender : Bytes) (gasAvailable : Int)

/-- Build the frame of a transaction and run it. -/
def runFrame (kind : FrameKind) (code : Bytes) (context : ExecutionContext)
    (storage : Dict Int Int) : TxM (Option (ExecutionResult × EVM)) := do
  let s ← get
  let log := s.log ++ [.enter kind context]
  joinOutcome kind (execute env fuel (EVM.init code context storage (some s.world) log))

def executeValueTransfer : TxM ExecutionResult := do
  sendValue sender tx.to tx.value
  return { success := true, returnData := [], gasUsed := 0, gasRemaining := gasAvailable }

/-- `_execute_contract_call` from the end of the frame. -/
def finishContractCall : Option (ExecutionResult × EVM) → TxM ExecutionResult
  | none =>
    return { success := false, returnData := [], gasUsed := gasAvailable, gasRemaining := 0 }
  | some (result, evm) => do
    if result.success then
      modifyWorld fun world => world.persistStorage tx.to evm.storage
    return result

def executeContractCall : TxM ExecutionResult := do
  let s ← get
  let contract := s.world.getAccount tx.to
  sendValue sender tx.to tx.value
  let context : ExecutionContext :=
    { caller := sender, address := tx.to, value := tx.value, data := tx.data, gas := gasAvailable }
  let outcome ← runFrame env fuel .message contract.code context contract.storage
  finishContractCall tx gasAvailable outcome

/-- `_execute_create` from the end of the frame. -/
def finishCreate (contractAddress : Bytes) :
    Option (ExecutionResult × EVM) → TxM ExecutionResult
  | none =>
    return { success := false, returnData := [], gasUsed := gasAvailable, gasRemaining := 0 }
  | some (result, evm) => do
    if result.success then
      modifyWorld fun world => world.setCode contractAddress result.returnData
      modifyWorld fun world => world.persistStorage contractAddress evm.storage
    return { result with
      contractAddress := if result.success then some contractAddress else none }

def executeCreate : TxM ExecutionResult := do
  let contractAddress ← attempt (computeContractAddress env sender tx.nonce)
  modifyWorld fun world => world.addBalance contractAddress 0
  sendValue sender contractAddress tx.value
  let context : ExecutionContext :=
    { caller := sender, address := contractAddress, value := tx.value, data := [],
      gas := gasAvailable }
  let outcome ← runFrame env fuel .creation tx.data context .empty
  finishCreate gasAvailable contractAddress outcome

/-- Step 5 of `apply_transaction`. -/
def executeTransaction : TxM ExecutionResult := do
  let s ← get
  if tx.to = [] then executeCreate env fuel tx sender gasAvailable
  else if (s.world.getAccount tx.to).code ≠ [] then
    executeContractCall env fuel tx sender gasAvailable
  else executeValueTransfer tx sender gasAvailable

/-- Restore the snapshot, then charge the sender again. -/
def rollback (snapshot : Dict Bytes Account) : TxM Unit := do
  modifyWorld fun world => world.revert snapshot
  deduct sender (tx.gas * tx.gasPrice)
  modifyWorld fun world => world.incrementNonce sender

/-- Steps 6 and 7 of `apply_transaction`. -/
def settleTransaction (snapshot : Dict Bytes Account) (result : ExecutionResult) :
    TxM TransactionResult := do
  if !result.success then rollback tx sender snapshot
  let gasRemaining := if result.success then result.gasRemaining else 0
  let gasUsed := if result.success then tx.gas - gasRemaining else tx.gas
  let gasRefund := gasRemaining * tx.gasPrice
  if 0 < gasRefund then modifyWorld fun world => world.addBalance sender gasRefund
  return {
    success := result.success
    returnData := result.returnData
    gasUsed
    gasRemaining
    error := if result.success then none else some "execution failed"
    contractAddress := result.contractAddress }

/-- The `try` block of `apply_transaction`. -/
def applyBody (snapshot : Dict Bytes Account) : TxM TransactionResult := do
  deduct sender (tx.gas * tx.gasPrice)
  modifyWorld fun world => world.incrementNonce sender
  let result ←
    executeTransaction env fuel tx sender (tx.gas - calculateIntrinsicGas tx.data)
  settleTransaction tx sender snapshot result

/-- The `except` blocks of `apply_transaction`; the two differ in the error text. -/
def applyFailed (snapshot : Dict Bytes Account) (error : String) : TxM TransactionResult := do
  rollback tx sender snapshot
  return {
    success := false
    returnData := []
    gasUsed := tx.gas
    gasRemaining := 0
    error := some error }

/-- What the two `except` clauses report about an exception. -/
def failureText : PyException → String
  | .evmError e => e.str
  | e => s!"unexpected error: {e.str}"

def applyTransaction (blockGasLimit : Int) : TxM TransactionResult := do
  let s ← get
  match validateTransaction env tx s.world blockGasLimit with
  | .error e => throw (.raised (.transactionError e))
  | .ok sender =>
    let snapshot := s.world.snapshot
    fun s => match applyBody env fuel tx sender snapshot s with
      | .error (.raised e) s => applyFailed tx sender snapshot (failureText e) s
      | result => result

end Execution

section Sample

/-- A frame of the sample contract. -/
def sampleContext (gas : Int) : ExecutionContext where
  caller := sampleSender
  address := sampleContract
  value := 0
  data := []
  gas := gas

/-- The contract passes 2 wei on to the callee, which writes its storage. -/
def sampleState : TxState where
  world := sampleWorld (callCode sampleCallee 2 [0x00]) [0x60, 7, 0x60, 0, 0x55, 0x00]

example : Stateful.returns (fun result s => result.success && result.gasUsed == 26126 &&
    s.world.getStorage sampleCallee 0 == 7 && s.world.getBalance sampleCallee == 2)
    (applyTransaction sampleEnv 100 sampleTransaction 100000 sampleState) = true := by
  decide +kernel

end Sample

end Ethereum
