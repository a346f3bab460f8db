import Ethereum.Encoding.Rlp

/-! Signed legacy transactions (`transactions/transaction.py`). -/
namespace Ethereum

structure Transaction where
  nonce : Int
  gasPrice : Int
  gas : Int
  «to» : Bytes
  value : Int
  data : Bytes
  v : Int := 0
  r : Int := 0
  s : Int := 0
  deriving DecidableEq

variable (env : Env) (tx : Transaction)

def Transaction.isSigned : Bool := tx.v ≠ 0 && tx.r ≠ 0 && tx.s ≠ 0

def signingHash : Except PyException Bytes := do
  let nonce ← intToRlpBytes tx.nonce
  let gasPrice ← intToRlpBytes tx.gasPrice
  let gas ← intToRlpBytes tx.gas
  let value ← intToRlpBytes tx.value
  let unsignedFields : List Rlp :=
    [.bytes nonce, .bytes gasPrice, .bytes gas, .bytes tx.to, .bytes value, .bytes tx.data]
  return env.keccak256 (rlpEncode (.list unsignedFields))

/-- An exception is given by its message, which is all that the validator reads. -/
def recoverSender : Except String Bytes :=
  if !tx.isSigned then .error "Cannot recover sender from unsigned transaction"
  else match signingHash env tx with
    | .error e => .error e.str
    | .ok txHash => env.recover (tx.v - 27) tx.r tx.s txHash

variable {env tx}

/-- The integer fields that the encoder accepts. -/
structure Transaction.NonNegative (tx : Transaction) : Prop where
  nonce : 0 ≤ tx.nonce
  gasPrice : 0 ≤ tx.gasPrice
  gas : 0 ≤ tx.gas
  value : 0 ≤ tx.value

theorem nonneg_of_intToRlpBytes {n : Int} {b : Bytes} (h : intToRlpBytes n = .ok b) : 0 ≤ n := by
  by_contra hn
  have hne : n ≠ 0 := by omega
  rw [intToRlpBytes, if_neg hne, intToBytes, if_pos (not_le.mp hn)] at h
  cases h

/-- Hashing for the signature is what stops negative fields. -/
theorem nonNegative_of_signingHash {b : Bytes} (h : signingHash env tx = .ok b) :
    tx.NonNegative := by
  obtain ⟨nonce, hn, h⟩ := ok_of_bind h
  obtain ⟨gasPrice, hp, h⟩ := ok_of_bind h
  obtain ⟨gas, hg, h⟩ := ok_of_bind h
  obtain ⟨value, hv, -⟩ := ok_of_bind h
  exact ⟨nonneg_of_intToRlpBytes hn, nonneg_of_intToRlpBytes hp,
    nonneg_of_intToRlpBytes hg, nonneg_of_intToRlpBytes hv⟩

theorem recoverSender_eq_ok {a : Bytes} (h : recoverSender env tx = .ok a) :
    tx.NonNegative ∧ a.length = 20 := by
  unfold recoverSender at h
  split at h
  · cases h
  · split at h
    · cases h
    · next txHash hh => exact ⟨nonNegative_of_signingHash hh, env.recover_length h⟩

section Sample

def sampleSender : Bytes :=
  [0x7e, 0x5f, 0x45, 0x52, 0x09, 0x1a, 0x69, 0x12, 0x5d, 0x5d, 0xfc, 0xb7, 0xb8, 0xc2, 0x65, 0x90,
    0x29, 0x39, 0x5b, 0xdf]

def sampleContract : Bytes :=
  [0x2b, 0x5a, 0xd5, 0xc4, 0x79, 0x5c, 0x02, 0x65, 0x14, 0xf8, 0x31, 0x7c, 0x7a, 0x21, 0x5e, 0x21,
    0x8d, 0xcc, 0xd6, 0xcf]

/-- A call of the sample contract that sends 1 wei along. -/
def sampleTransaction : Transaction where
  nonce := 0
  gasPrice := 1
  gas := 100000
  «to» := sampleContract
  value := 1
  data := []
  v := 27
  r := 29209231870733750432146048905238552399536443938914907582065723822839046402047
  s := 35480050729638172518792214227981872120401937392558852024184191012306793325341

def sampleTransactionHash : Bytes :=
  [0xe5, 0x5a, 0xee, 0xe3, 0x1e, 0xb5, 0xaf, 0xf2, 0x9b, 0xfa, 0x78, 0x0d, 0x12, 0x51, 0x7d, 0x2a,
    0xef, 0xde, 0x09, 0x77, 0x17, 0x9e, 0xac, 0xe3, 0xde, 0x51, 0xd5, 0x41, 0x09, 0x3e, 0x42, 0x06]

/-- A free call of the sample contract with more gas than fits in 256 bits. -/
def hugeTransaction : Transaction where
  nonce := 0
  gasPrice := 0
  gas := 2 ^ 256 + 21140
  «to» := sampleContract
  value := 0
  data := []
  v := 27
  r := 78142300112755329329476460613018725320519800477189771528856589627690181107039
  s := 46240577647165239150301540659092777067109093116713103733098696788236390084196

def hugeTransactionHash : Bytes :=
  [0x21, 0x7c, 0xc2, 0xdf, 0x6c, 0x2a, 0x44, 0xe4, 0xcb, 0xb3, 0x3b, 0x24, 0xa0, 0x9c, 0xc9, 0xf9,
    0xfd, 0x2f, 0xef, 0x4c, 0x8d, 0xa9, 0xec, 0x53, 0x05, 0xc6, 0xd0, 0xa1, 0x2d, 0xfc, 0x58, 0xe0]

/-- The first contract that the sample contract creates is at the last 20 bytes. -/
def sampleCreationHash : Bytes :=
  [0xb8, 0x7b, 0x1e, 0xd7, 0x41, 0x80, 0x87, 0x01, 0x07, 0xdb, 0x21, 0xb4, 0x15, 0x3b, 0x84, 0xf3,
    0x77, 0xc6, 0xc7, 0xa7, 0xd9, 0x3b, 0xd9, 0xa7, 0x17, 0xe4, 0x80, 0x97, 0xca, 0x6c, 0xfd, 0x11]

def sampleEnv : Env := .ofTables
  [(rlpEncode (.list [.bytes [], .bytes [1], .bytes [0x01, 0x86, 0xa0], .bytes sampleContract,
      .bytes [1], .bytes []]), sampleTransactionHash),
    (rlpEncode (.list [.bytes [], .bytes [],
      .bytes (1 :: (List.replicate 30 0 ++ [0x52, 0x94])), .bytes sampleContract, .bytes [],
      .bytes []]), hugeTransactionHash),
    (rlpEncode (.list [.bytes sampleContract, .bytes []]), sampleCreationHash)]
  [((0, sampleTransaction.r, sampleTransaction.s, sampleTransactionHash), sampleSender),
    ((0, hugeTransaction.r, hugeTransaction.s, hugeTransactionHash), sampleSender)]
  (by decide) (by decide)

/-- A creation. The init code stores 42 in slot 0 and returns one byte of runtime code. -/
def deployTransaction : Transaction where
  nonce := 0
  gasPrice := 1
  gas := 100000
  «to» := []
  value := 0
  data := [0x60, 0x2a, 0x60, 0, 0x55, 0x60, 0xfe, 0x60, 0, 0x53, 0x60, 1, 0x60, 0, 0xf3]
  v := 28
  r := 77566413476061905304510719060517608501122935062897098691043482875582531388195
  s := 3130038827964934742535961028272136678223812848779365022755735866894499460064

def deployTransactionHash : Bytes :=
  [0x3e, 0x32, 0x78, 0xe1, 0x8b, 0x20, 0x9e, 0x5c, 0xeb, 0xe8, 0x3e, 0x7b, 0xc9, 0x16, 0xed, 0x8d,
    0x1f, 0x55, 0xf9, 0xcb, 0x74, 0x6c, 0x9b, 0xf1, 0xd3, 0x53, 0x9e, 0x6f, 0x08, 0xe7, 0x1a,
    0x3d]

/-- The contract that the sample sender creates first is at the last 20 bytes. -/
def deployCreationHash : Bytes :=
  [0x6a, 0x12, 0x0a, 0xf8, 0x21, 0xc2, 0x76, 0x70, 0xf3, 0x0b, 0xe8, 0x9f, 0xf2, 0xe2, 0x46, 0xbb,
    0x76, 0xdf, 0x87, 0x6c, 0xef, 0x8b, 0x38, 0xae, 0x84, 0x13, 0x0f, 0x4f, 0x55, 0xde, 0x39,
    0x5b]

def deployEnv : Env := .ofTables
  [(rlpEncode (.list [.bytes [], .bytes [1], .bytes [0x01, 0x86, 0xa0], .bytes [], .bytes [],
      .bytes deployTransaction.data]), deployTransactionHash),
    (rlpEncode (.list [.bytes sampleSender, .bytes []]), deployCreationHash)]
  [((1, deployTransaction.r, deployTransaction.s, deployTransactionHash), sampleSender)]
  (by decide) (by decide)

end Sample

end Ethereum
