import Ethereum.Core.Transaction
import Ethereum.State.WorldState

/-! The checks before a transaction may touch the state (`core/tx_validator.py`). -/
namespace Ethereum

def calculateIntrinsicGas (data : Bytes) : Int :=
  data.foldl (fun gas byte => if byte = 0 then gas + 4 else gas + 16) 21000

theorem le_calculateIntrinsicGas (data : Bytes) : 21000 ≤ calculateIntrinsicGas data := by
  have h : ∀ gas : Int,
      gas ≤ data.foldl (fun gas byte => if byte = 0 then gas + 4 else gas + 16) gas := by
    induction data with
    | nil => exact fun gas => le_rfl
    | cons byte rest ih =>
      intro gas
      refine le_trans ?_ (ih _)
      dsimp only
      split <;> omega
  exact h 21000

theorem calculateIntrinsicGas_le (data : Bytes) :
    calculateIntrinsicGas data ≤ 21000 + 16 * data.length := by
  have h : ∀ gas : Int, data.foldl (fun gas byte => if byte = 0 then gas + 4 else gas + 16) gas ≤
      gas + 16 * data.length := by
    induction data with
    | nil => exact fun gas => by simp
    | cons byte rest ih =>
      intro gas
      refine le_trans (ih _) ?_
      rw [List.length_cons]
      dsimp only
      split <;> omega
  exact h 21000

/-- The checks in the order of the source; the first that fails is reported. -/
def validateTransaction (env : Env) (tx : Transaction) (world : WorldState)
    (blockGasLimit : Int) : Except TransactionError Bytes :=
  match recoverSender env tx with
  | .error reason => .error (.invalidSignature reason)
  | .ok senderAddress =>
    let senderAccount := world.getAccount senderAddress
    let totalCost := tx.value + tx.gas * tx.gasPrice
    let intrinsic := calculateIntrinsicGas tx.data
    if senderAccount.nonce ≠ tx.nonce then
      .error (.invalidNonce senderAccount.nonce tx.nonce)
    else if senderAccount.balance < totalCost then
      .error (.insufficientBalance totalCost senderAccount.balance)
    else if tx.gas > blockGasLimit then .error (.exceedsBlockGasLimit tx.gas blockGasLimit)
    else if tx.gas < intrinsic then .error (.intrinsicGasTooLow intrinsic tx.gas)
    else .ok senderAddress

/-- Everything that validation guarantees to the state transition. -/
structure Valid (env : Env) (tx : Transaction) (world : WorldState) (blockGasLimit : Int)
    (sender : Bytes) : Prop where
  recovered : recoverSender env tx = .ok sender
  nonce : (world.getAccount sender).nonce = tx.nonce
  balance : tx.value + tx.gas * tx.gasPrice ≤ (world.getAccount sender).balance
  blockGasLimit : tx.gas ≤ blockGasLimit
  intrinsicGas : calculateIntrinsicGas tx.data ≤ tx.gas

variable {env : Env} {tx : Transaction} {world : WorldState} {blockGasLimit : Int} {sender : Bytes}

theorem validateTransaction_eq_ok_iff :
    validateTransaction env tx world blockGasLimit = .ok sender ↔
      Valid env tx world blockGasLimit sender := by
  unfold validateTransaction
  constructor
  · intro h
    split at h
    · cases h
    · next a ha =>
      dsimp only at h
      split_ifs at h with h1 h2 h3 h4
      cases h
      exact ⟨ha, not_not.mp h1, not_lt.mp h2, not_lt.mp h3, not_lt.mp h4⟩
  · intro h
    rw [h.recovered]
    simp [h.nonce, not_lt.mpr h.balance, not_lt.mpr h.blockGasLimit, not_lt.mpr h.intrinsicGas]

theorem Valid.nonNegative (h : Valid env tx world blockGasLimit sender) : tx.NonNegative :=
  (recoverSender_eq_ok h.recovered).1

theorem Valid.length_sender (h : Valid env tx world blockGasLimit sender) : sender.length = 20 :=
  (recoverSender_eq_ok h.recovered).2

section Sample

def sampleCallee : Bytes :=
  [0x68, 0x13, 0xeb, 0x93, 0x62, 0x37, 0x2e, 0xef, 0x62, 0x00, 0xf3, 0xb1, 0xdb, 0xc3, 0xf8, 0x19,
    0x67, 0x1c, 0xba, 0x69]

/-- Bytecode that calls an address with a value and all gas, then goes on with `rest`. -/
def callCode (target : Bytes) (value : UInt8) (rest : Bytes) : Bytes :=
  [0x60, 0, 0x60, 0, 0x60, 0, 0x60, 0, 0x60, value, 0x73] ++ target ++ [0x5a, 0xf1] ++ rest

/-- Bytecode that stores 7 in slot 0. -/
def sevenCode : Bytes := [0x60, 7, 0x60, 0, 0x55, 0x00]

/-- A rich sender and two contracts. -/
def sampleWorld (code calleeCode : Bytes) : WorldState where
  accounts := ⟨[(sampleSender, { balance := 1000000 }), (sampleContract, { balance := 10, code }),
    (sampleCallee, { code := calleeCode })],
    show [sampleSender, sampleContract, sampleCallee].Nodup by decide⟩

example : validateTransaction sampleEnv sampleTransaction (sampleWorld [] []) 100000 =
    .ok sampleSender := by
  decide +kernel

end Sample

end Ethereum
