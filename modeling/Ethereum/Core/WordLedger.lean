import Ethereum.Core.Apply
import Ethereum.Evm.WordMachine

/-! The state transition on the ledger of words: validation, the bill, one payment, the frames
of the machine and the refund. A transaction that fails leaves the bill and nothing else. -/
namespace Ethereum

/-- What becomes of a transaction that is not rejected. -/
structure WordVerdict where
  success : Bool
  returnData : Bytes
  gasUsed : Nat
  gasRemaining : Nat
  contractAddress : Option Bytes
  deriving DecidableEq

abbrev WordAnswer := Except TransactionError WordVerdict × WordWorld

namespace WordLedger

/-- The accounts that a chain starts with. -/
def genesis (alloc : Dict Bytes Int) : WordWorld := fun a => { balance := (alloc.getD a 0).toNat }

variable (env : Env) (tx : Transaction) (sender : Bytes)

/-- The checks; the first that fails is reported. -/
def validate (v : WordWorld) (blockGasLimit : Int) : Except TransactionError Bytes :=
  match recoverSender env tx with
  | .error reason => .error (.invalidSignature reason)
  | .ok sender =>
    let totalCost := tx.value + tx.gas * tx.gasPrice
    let intrinsic := calculateIntrinsicGas tx.data
    if ((v sender).nonce : Int) ≠ tx.nonce then .error (.invalidNonce (v sender).nonce tx.nonce)
    else if (v sender).balance < totalCost then
      .error (.insufficientBalance totalCost (v sender).balance)
    else if tx.gas > blockGasLimit then .error (.exceedsBlockGasLimit tx.gas blockGasLimit)
    else if tx.gas < intrinsic then .error (.intrinsicGasTooLow intrinsic tx.gas)
    else .ok sender

/-- All gas is paid in advance. -/
def bill (v : WordWorld) : WordWorld :=
  (v.debit sender (tx.gas.toNat * tx.gasPrice.toNat)).bump sender

/-- What the frame of the transaction is given. -/
def input (v : WordWorld) : Input where
  code := if tx.to = [] then tx.data else (v tx.to).code
  data := if tx.to = [] then [] else tx.data
  address := if tx.to = [] then WordMachine.contractAddress env sender tx.nonce.toNat else tx.to
  caller := sender
  value := .ofNat 256 tx.value.toNat
  gas := tx.executionGas.toNat

/-- The storage that the frame finds. -/
def cells (v : WordWorld) : Cells := if tx.to = [] then fun _ => none else (v tx.to).cells

def failed (billed : WordWorld) (returnData : Bytes) : WordAnswer :=
  (.ok
    { success := false
      returnData
      gasUsed := tx.gas.toNat
      gasRemaining := 0
      contractAddress := none }, billed)

def succeeded (v : WordWorld) (gasRemaining : Nat) (returnData : Bytes)
    (contractAddress : Option Bytes) : WordAnswer :=
  (.ok
    { success := true
      returnData
      gasUsed := tx.gas.toNat - gasRemaining
      gasRemaining
      contractAddress }, v.credit sender (gasRemaining * tx.gasPrice.toNat))

/-- What a frame that has succeeded leaves in the ledger. -/
def commit (v : WordWorld) (address : Bytes) (m : WordMachine) : WordWorld :=
  if tx.to = [] then (v.deploy address m.returnData).persist address m.cells
  else v.persist address m.cells

/-- From the end of the frame. The machine hands on the ledger it was given. -/
def finish (billed : WordWorld) (address : Bytes) : WordResult → WordAnswer
  | .error _ _ => failed tx billed []
  | .ok _ m =>
    if m.reverted then failed tx billed m.returnData
    else succeeded tx sender (commit tx (m.world.getD billed) address m) m.gas m.returnData
      (if tx.to = [] then some address else none)

def execute (fuel : Nat) (billed : WordWorld) : WordAnswer :=
  if tx.to ≠ [] ∧ (billed tx.to).code = [] then
    match billed.pay sender tx.to tx.value.toNat with
    | none => failed tx billed []
    | some paid => succeeded tx sender paid tx.executionGas.toNat [] none
  else
    let I := input env tx sender billed
    match billed.pay sender I.address tx.value.toNat with
    | none => failed tx billed []
    | some paid => finish tx sender billed I.address
        (WordMachine.run env I fuel
          { cells := cells tx billed, world := some paid, gas := I.gas })

/-- One transaction with a block gas limit. -/
def apply (fuel : Nat) (v : WordWorld) (entry : Transaction × Int) : WordAnswer :=
  match validate env entry.1 v entry.2 with
  | .error e => (.error e, v)
  | .ok sender => execute env entry.1 sender fuel (bill entry.1 sender v)

end WordLedger

end Ethereum
