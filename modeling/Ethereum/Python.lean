import Ethereum.Lib.BigEndian
import Ethereum.Lib.Stateful
import Mathlib.Data.List.Forall2

/-! What the code takes from Python and from the packages it imports: exceptions,
slices of byte strings, integer conversions, hashing and signature recovery. -/
namespace Ethereum

abbrev Bytes := List UInt8

/-- The subclasses of `EVMError` that are ever raised. -/
inductive EVMError
  | outOfGas (needed remaining : Int)
  | stackUnderflow (needed actual : Int)
  | stackOverflow (maxDepth : Int)
  | invalidJumpDestination (destination : Int)
  | invalidOpcode (opcode pc : Nat)
  deriving DecidableEq

/-- The subclasses of `TransactionError`. -/
inductive TransactionError
  | invalidSignature (reason : String)
  | invalidNonce (expected got : Int)
  | insufficientBalance (required available : Int)
  | exceedsBlockGasLimit (txGas blockLimit : Int)
  | intrinsicGasTooLow (required provided : Int)
  deriving DecidableEq

inductive PyException
  | valueError (message : String)
  | overflowError (message : String)
  | indexError (message : String)
  | memoryError
  | evmError (e : EVMError)
  | transactionError (e : TransactionError)
  deriving DecidableEq

/-- Why a computation of the model stops early: the code raised, or the model's
own step budget ran out. No handler of the code sees the latter. -/
inductive Abort
  | raised (e : PyException)
  | outOfFuel
  deriving DecidableEq

/-- The code raised; the budget of the model did not run out. -/
def Abort.IsRaised (e : Abort) : Prop := e ≠ .outOfFuel

theorem isRaised_raised (e : PyException) : Abort.IsRaised (.raised e) := nofun

/-- `f"{n:0{width}x}"` -/
def formatHex (width : Nat) (n : Int) : String :=
  let sign := if n < 0 then "-" else ""
  let digits := String.ofList (Nat.toDigits 16 n.natAbs)
  let padding := width - sign.length - digits.length
  sign ++ String.ofList (List.replicate padding '0') ++ digits

/-- `f"\x7bn:,\x7d"` -/
def formatThousands (n : Int) : String :=
  let sign := if n < 0 then "-" else ""
  let grouped := (Nat.toDigits 10 n.natAbs).reverse.zipIdx.flatMap fun digit =>
    if digit.2 ≠ 0 ∧ digit.2 % 3 = 0 then [',', digit.1] else [digit.1]
  sign ++ String.ofList grouped.reverse

def EVMError.str : EVMError → String
  | .outOfGas needed remaining => s!"Out of gas: needed {needed}, only {remaining} remaining"
  | .stackUnderflow needed actual => s!"Stack underflow: need {needed} items, have {actual}"
  | .stackOverflow maxDepth => s!"Stack overflow: maximum depth {maxDepth} exceeded"
  | .invalidJumpDestination destination =>
    s!"Invalid jump destination: 0x{formatHex 4 destination} ({destination}) is not a JUMPDEST"
  | .invalidOpcode opcode pc =>
    s!"Invalid opcode: 0x{(formatHex 2 opcode).toUpper} at PC={pc}"

def TransactionError.str : TransactionError → String
  | .invalidSignature reason =>
    if reason = "" then "Invalid transaction signature"
    else s!"Invalid transaction signature: {reason}"
  | .invalidNonce expected got => s!"Invalid nonce: expected {expected}, got {got}"
  | .insufficientBalance required available =>
    s!"Insufficient balance: need {required}, have {available}"
  | .exceedsBlockGasLimit txGas blockLimit =>
    s!"Transaction gas {txGas} exceeds block gas limit {blockLimit}"
  | .intrinsicGasTooLow required provided =>
    s!"Intrinsic gas too low: need {required}, provided {provided}"

/-- `str(e)` -/
def PyException.str : PyException → String
  | .valueError message | .overflowError message | .indexError message => message
  | .memoryError => ""
  | .evmError e => e.str
  | .transactionError e => e.str

theorem ok_of_bind {ε α β : Type} {x : Except ε α} {f : α → Except ε β} {b : β}
    (h : (x >>= f) = .ok b) : ∃ a, x = .ok a ∧ f a = .ok b := by
  cases x with
  | error e => cases h
  | ok a => exact ⟨a, rfl, h⟩

theorem forall₂_of_mapM {ε α β : Type} {f : α → Except ε β} {l : List α} {r : List β}
    (h : l.mapM f = .ok r) : List.Forall₂ (fun x y => f x = .ok y) l r := by
  induction l generalizing r with
  | nil =>
    cases h
    exact .nil
  | cons x l ih =>
    rw [List.mapM_cons] at h
    obtain ⟨y, hy, h⟩ := ok_of_bind h
    obtain ⟨rest, hrest, h⟩ := ok_of_bind h
    cases h
    exact .cons hy (ih hrest)

theorem exists_mapM {ε α β : Type} {f : α → Except ε β} {l : List α}
    (h : ∀ x ∈ l, ∃ y, f x = .ok y) : ∃ r, l.mapM f = .ok r := by
  induction l with
  | nil => exact ⟨[], rfl⟩
  | cons x l ih =>
    obtain ⟨y, hy⟩ := h x List.mem_cons_self
    obtain ⟨r, hr⟩ := ih fun z hz => h z (List.mem_cons_of_mem _ hz)
    rw [List.mapM_cons, hy]
    exact ⟨y :: r, by rw [hr]; rfl⟩

/-- Run a fallible step inside a stateful computation. -/
def attempt {σ α : Type} : Except PyException α → EStateM Abort σ α
  | .ok a => pure a
  | .error e => throw (.raised e)

theorem ok_of_attempt {σ α : Type} {x : Except PyException α} {s t : σ} {a : α}
    (h : attempt x s = .ok a t) : x = .ok a ∧ t = s := by
  cases x with
  | error e => cases h
  | ok b => cases h; exact ⟨rfl, rfl⟩

theorem error_of_attempt {σ α : Type} {x : Except PyException α} {s t : σ} {e : Abort}
    (h : attempt x s = .error e t) : t = s := by
  cases x with
  | error e' => cases h; rfl
  | ok b => cases h

theorem isRaised_of_attempt {σ α : Type} {x : Except PyException α} {s t : σ} {e : Abort}
    (h : attempt x s = .error e t) : e.IsRaised := by
  cases x with
  | error e' => cases h; exact isRaised_raised e'
  | ok b => cases h

theorem maintains_attempt {σ α : Type} {I : σ → Prop} (x : Except PyException α) :
    Stateful.Maintains (fun _ => True) I (attempt x) fun a => x = .ok a := by
  cases x with
  | ok a => exact Stateful.maintains_pure rfl
  | error e => exact Stateful.maintains_throw trivial

/-- Where the slice bound `i` falls in a sequence of `n` elements. -/
def sliceBound (n : Nat) (i : Int) : Nat := if i < 0 then (i + n).toNat else min i.toNat n

/-- `l[lo:hi]` -/
def slice (l : Bytes) (lo hi : Int) : Bytes :=
  (l.drop (sliceBound l.length lo)).take (sliceBound l.length hi - sliceBound l.length lo)

/-- `l[lo:hi] = d` -/
def setSlice (l : Bytes) (lo hi : Int) (d : Bytes) : Bytes :=
  l.take (sliceBound l.length lo) ++ d ++
    l.drop (max (sliceBound l.length lo) (sliceBound l.length hi))

/-- `l[i]` for a byte string -/
def getIndex (l : Bytes) (i : Int) : Except PyException UInt8 :=
  let j := if i < 0 then i + l.length else i
  if j < 0 then .error (.indexError "index out of range")
  else match l[j.toNat]? with
    | some b => .ok b
    | none => .error (.indexError "index out of range")

/-- `l[i] = b` for a byte array -/
def setIndex (l : Bytes) (i : Int) (b : UInt8) : Except PyException Bytes :=
  let j := if i < 0 then i + l.length else i
  if j < 0 ∨ (l.length : Int) ≤ j then .error (.indexError "bytearray index out of range")
  else .ok (l.set j.toNat b)

/-- `n.to_bytes(width, "big")` -/
def intToBytes (width : Nat) (n : Int) : Except PyException Bytes :=
  if n < 0 then .error (.overflowError "can't convert negative int to unsigned")
  else if 256 ^ width ≤ n then .error (.overflowError "int too big to convert")
  else .ok (BigEndian.toBytes width n.toNat)

/-- `bytes(values)` for a list of integers -/
def bytesOfInts (values : List Int) : Except PyException Bytes :=
  values.mapM fun v =>
    if 0 ≤ v ∧ v < 256 then .ok (UInt8.ofNat v.toNat)
    else .error (.valueError "bytes must be in range(0, 256)")

/-- `int.from_bytes(l, "big")` -/
def intFromBytes (l : Bytes) : Int := BigEndian.fromBytes l

theorem intFromBytes_nonneg (l : Bytes) : 0 ≤ intFromBytes l := Int.natCast_nonneg _

theorem intFromBytes_lt {l : Bytes} {k : Nat} (h : l.length ≤ k) : intFromBytes l < 256 ^ k := by
  have h1 := BigEndian.fromBytes_lt l
  have h2 : 256 ^ l.length ≤ 256 ^ k := Nat.pow_le_pow_right (by norm_num) h
  unfold intFromBytes
  exact_mod_cast h1.trans_le h2

theorem length_of_intToBytes {width : Nat} {n : Int} {l : Bytes} (h : intToBytes width n = .ok l) :
    l.length = width := by
  unfold intToBytes at h
  split at h
  · cases h
  · split at h
    · cases h
    · cases h
      exact BigEndian.length_toBytes _ _

/-- The packages and the interpreter the code runs on: the Keccak and ECDSA
libraries and the size at which growing a byte buffer fails. -/
structure Env where
  keccak256 : Bytes → Bytes
  keccak256_length : ∀ data, (keccak256 data).length = 32
  /-- From `(v, r, s)` and a message hash to the signer's canonical address. -/
  recover : Int → Int → Int → Bytes → Except String Bytes
  recover_length : ∀ {v r s h a}, recover v r s h = .ok a → a.length = 20
  bufferLimit : Nat
  bufferLimit_le : bufferLimit ≤ 2 ^ 63

/-- Libraries that know the hashes and the signatures of a table. -/
def Env.ofTables (hashes : List (Bytes × Bytes))
    (signers : List ((Int × Int × Int × Bytes) × Bytes)) (hhashes : ∀ e ∈ hashes, e.2.length = 32)
    (hsigners : ∀ e ∈ signers, e.2.length = 20) : Env where
  keccak256 data := (hashes.lookup data).getD (List.replicate 32 0)
  keccak256_length data := by
    cases h : hashes.lookup data with
    | none => rfl
    | some hash =>
      obtain ⟨l₁, l₂, he, -⟩ := List.lookup_eq_some_iff.mp h
      exact hhashes (data, hash) (by simp [he])
  recover v r s hash := match signers.lookup (v, r, s, hash) with
    | none => .error "BadSignature"
    | some signer => .ok signer
  recover_length {v r s hash a} h := by
    cases hl : signers.lookup (v, r, s, hash) with
    | none => rw [hl] at h; cases h
    | some signer =>
      rw [hl] at h
      cases h
      obtain ⟨l₁, l₂, he, -⟩ := List.lookup_eq_some_iff.mp hl
      exact hsigners ((v, r, s, hash), a) (by simp [he])
  bufferLimit := 2 ^ 63
  bufferLimit_le := le_rfl

/-- Ask for `count` more bytes in a buffer of `total` bytes. -/
def Env.allocate (env : Env) (count total : Int) : Except PyException Unit :=
  if 2 ^ 63 ≤ count then
    .error (.overflowError "cannot fit 'int' into an index-sized integer")
  else if env.bufferLimit ≤ total then .error .memoryError
  else .ok ()

/-- `bytearray(size)`: `size` zero bytes -/
def Env.bytearray (env : Env) (size : Int) : Except PyException Bytes :=
  if size < 0 then .error (.valueError "negative count")
  else do
    env.allocate size size
    return List.replicate size.toNat 0

end Ethereum
