import Ethereum.Core.TxValidator
import Ethereum.Encoding.Injective

/-! Signing (`sign_transaction` in `transactions/transaction.py`, `crypto/keys.py`), and what
recovery and validation make of a signed transaction. -/
namespace Ethereum

structure Signature where
  v : Int
  r : Int
  s : Int
  deriving DecidableEq

/-- A private key of the ECDSA library: what it signs, the address of its public key, and that
the recovery of its signatures leads back to that address. -/
structure PrivateKey (env : Env) where
  signMsgHash : Bytes → Signature
  toCanonicalAddress : Bytes
  v_eq : ∀ hash, (signMsgHash hash).v = 0 ∨ (signMsgHash hash).v = 1
  r_ne : ∀ hash, (signMsgHash hash).r ≠ 0
  s_ne : ∀ hash, (signMsgHash hash).s ≠ 0
  recovers : ∀ hash, hash.length = 32 →
    env.recover (signMsgHash hash).v (signMsgHash hash).r (signMsgHash hash).s hash =
      .ok toCanonicalAddress

variable {env : Env}

def privateKeyToAddress (privateKey : PrivateKey env) : Bytes := privateKey.toCanonicalAddress

def signTransaction (tx : Transaction) (privateKey : PrivateKey env) :
    Except PyException Transaction := do
  let txHash ← signingHash env tx
  let signature := privateKey.signMsgHash txHash
  return { tx with v := signature.v + 27, r := signature.r, s := signature.s }

variable {tx signed : Transaction} {key key' : PrivateKey env} {w : WorldState}
  {blockGasLimit : Int} {sender : Bytes}

theorem PrivateKey.length_address (key : PrivateKey env) : (privateKeyToAddress key).length = 20 :=
  env.recover_length (key.recovers (env.keccak256 []) (env.keccak256_length _))

/-- The signature is no part of what is signed. -/
theorem signingHash_resigned (env : Env) (tx : Transaction) (v r s : Int) :
    signingHash env { tx with v, r, s } = signingHash env tx := rfl

theorem signingHash_of_nonNegative (env : Env) (h : tx.NonNegative) :
    ∃ hash, signingHash env tx = .ok hash := by
  obtain ⟨nonce, hn⟩ := intToRlpBytes_of_nonneg h.nonce
  obtain ⟨gasPrice, hp⟩ := intToRlpBytes_of_nonneg h.gasPrice
  obtain ⟨gas, hg⟩ := intToRlpBytes_of_nonneg h.gas
  obtain ⟨value, hv⟩ := intToRlpBytes_of_nonneg h.value
  rw [signingHash, hn, hp, hg, hv]
  exact ⟨_, rfl⟩

theorem intToRlpBytes_of_neg {n : Int} (h : n < 0) :
    intToRlpBytes n = .error (.overflowError "can't convert negative int to unsigned") := by
  rw [intToRlpBytes, if_neg (by omega), intToBytes, if_pos h]

/-- Any negative field raises the same exception. -/
theorem signingHash_of_negative (env : Env) (h : ¬ tx.NonNegative) :
    signingHash env tx = .error (.overflowError "can't convert negative int to unsigned") := by
  unfold signingHash
  rcases lt_or_ge tx.nonce 0 with hn | hn
  · rw [intToRlpBytes_of_neg hn]
    rfl
  obtain ⟨nonce, hn'⟩ := intToRlpBytes_of_nonneg hn
  rw [hn']
  rcases lt_or_ge tx.gasPrice 0 with hp | hp
  · rw [intToRlpBytes_of_neg hp]
    rfl
  obtain ⟨gasPrice, hp'⟩ := intToRlpBytes_of_nonneg hp
  rw [hp']
  rcases lt_or_ge tx.gas 0 with hg | hg
  · rw [intToRlpBytes_of_neg hg]
    rfl
  obtain ⟨gas, hg'⟩ := intToRlpBytes_of_nonneg hg
  rw [hg']
  rcases lt_or_ge tx.value 0 with hv | hv
  · rw [intToRlpBytes_of_neg hv]
    rfl
  · exact absurd ⟨hn, hp, hg, hv⟩ h

/-- What signing comes to where it does not raise. -/
structure Signed (key : PrivateKey env) (tx signed : Transaction) : Prop where
  nonNegative : tx.NonNegative
  v : signed.v = 27 ∨ signed.v = 28
  fields : { signed with v := tx.v, r := tx.r, s := tx.s } = tx
  isSigned : signed.isSigned = true
  recovered : recoverSender env signed = .ok (privateKeyToAddress key)

theorem exists_signTransaction (key : PrivateKey env) (h : tx.NonNegative) :
    ∃ signed, signTransaction tx key = .ok signed := by
  obtain ⟨hash, hhash⟩ := signingHash_of_nonNegative env h
  rw [signTransaction, hhash]
  exact ⟨_, rfl⟩

theorem exists_signature (h : signTransaction tx key = .ok signed) :
    ∃ v r s, signed = { tx with v, r, s } := by
  obtain ⟨hash, -, h⟩ := ok_of_bind h
  cases h
  exact ⟨_, _, _, rfl⟩

theorem signed_of_signTransaction (h : signTransaction tx key = .ok signed) :
    Signed key tx signed := by
  obtain ⟨hash, hhash, h⟩ := ok_of_bind h
  cases h
  have hlength : hash.length = 32 := by
    obtain ⟨nonce, -, h⟩ := ok_of_bind hhash
    obtain ⟨gasPrice, -, h⟩ := ok_of_bind h
    obtain ⟨gas, -, h⟩ := ok_of_bind h
    obtain ⟨value, -, h⟩ := ok_of_bind h
    cases h
    exact env.keccak256_length _
  have hv : (key.signMsgHash hash).v + 27 = 27 ∨ (key.signMsgHash hash).v + 27 = 28 := by
    rcases key.v_eq hash with h | h
    · exact .inl (by rw [h]; rfl)
    · exact .inr (by rw [h]; rfl)
  have hsigned : Transaction.isSigned { tx with
      v := (key.signMsgHash hash).v + 27
      r := (key.signMsgHash hash).r
      s := (key.signMsgHash hash).s } = true := by
    have hne : (key.signMsgHash hash).v + 27 ≠ 0 := by omega
    simp [Transaction.isSigned, hne, key.r_ne hash, key.s_ne hash]
  refine ⟨nonNegative_of_signingHash hhash, hv, rfl, hsigned, ?_⟩
  rw [recoverSender, hsigned, signingHash_resigned, hhash]
  dsimp only
  rw [add_sub_cancel_right]
  exact key.recovers hash hlength

/-- The conditions under which a transaction of this sender is accepted. -/
structure Acceptable (tx : Transaction) (w : WorldState) (blockGasLimit : Int) (sender : Bytes) :
    Prop where
  nonce : (w.getAccount sender).nonce = tx.nonce
  balance : tx.value + tx.gas * tx.gasPrice ≤ w.getBalance sender
  blockGasLimit : tx.gas ≤ blockGasLimit
  intrinsicGas : calculateIntrinsicGas tx.data ≤ tx.gas

theorem Signed.acceptable_iff (h : Signed key tx signed) :
    validateTransaction env signed w blockGasLimit = .ok sender ↔
      sender = privateKeyToAddress key ∧ Acceptable tx w blockGasLimit sender := by
  have hfields := h.fields
  rw [validateTransaction_eq_ok_iff]
  constructor
  · intro hvalid
    have hsender := Except.ok.inj (hvalid.recovered.symm.trans h.recovered)
    rw [← hfields]
    exact ⟨hsender, hvalid.nonce, hvalid.balance, hvalid.blockGasLimit, hvalid.intrinsicGas⟩
  · rintro ⟨rfl, hok⟩
    rw [← hfields] at hok
    exact ⟨h.recovered, hok.nonce, hok.balance, hok.blockGasLimit, hok.intrinsicGas⟩

/-- A signer that cannot pay is told so. -/
theorem Signed.insufficient (h : Signed key tx signed)
    (hnonce : (w.getAccount (privateKeyToAddress key)).nonce = tx.nonce)
    (hbalance : w.getBalance (privateKeyToAddress key) < tx.value + tx.gas * tx.gasPrice) :
    validateTransaction env signed w blockGasLimit = .error (.insufficientBalance
      (tx.value + tx.gas * tx.gasPrice) (w.getBalance (privateKeyToAddress key))) := by
  have hfields := h.fields
  rw [← hfields] at hnonce hbalance ⊢
  rw [validateTransaction, h.recovered]
  dsimp only
  rw [if_neg (not_not.mpr hnonce)]
  exact if_pos hbalance

/-- Signing raises exactly for a negative field. What is signed keeps its fields, is recovered to
the signer and accepted from nobody else, exactly if nonce, balance and gas allow it. A second
signature, by the same key or another, replaces the first. -/
theorem sign_transaction_round_trip (env : Env) (key key' : PrivateKey env) (tx : Transaction) :
    (¬ tx.NonNegative → signTransaction tx key =
      .error (.overflowError "can't convert negative int to unsigned")) ∧
    (tx.NonNegative → ∃ signed, signTransaction tx key = .ok signed ∧
      (signed.v = 27 ∨ signed.v = 28) ∧ { signed with v := tx.v, r := tx.r, s := tx.s } = tx ∧
      recoverSender env signed = .ok (privateKeyToAddress key) ∧
      signTransaction signed key' = signTransaction tx key' ∧
      ∀ w blockGasLimit sender, validateTransaction env signed w blockGasLimit = .ok sender ↔
        sender = privateKeyToAddress key ∧ Acceptable tx w blockGasLimit sender) := by
  constructor
  · intro h
    rw [signTransaction, signingHash_of_negative env h]
    rfl
  · intro h
    obtain ⟨signed, hsign⟩ := exists_signTransaction key h
    have hsigned := signed_of_signTransaction hsign
    refine ⟨signed, hsign, hsigned.v, hsigned.fields, hsigned.recovered, ?_,
      fun w blockGasLimit sender => hsigned.acceptable_iff⟩
    obtain ⟨v, r, s, rfl⟩ := exists_signature hsign
    unfold signTransaction
    rw [signingHash_resigned]

section Sample

/-- The hashes that the sample key has signed. It gives every other hash one signature. -/
structure SignatureTable where
  entries : List (Bytes × Signature)
  valid : ∀ e ∈ entries, (e.2.v = 0 ∨ e.2.v = 1) ∧ 2 < e.2.r ∧ e.2.s ≠ 0

def SignatureTable.sign (table : SignatureTable) (hash : Bytes) : Signature :=
  (table.entries.lookup hash).getD ⟨0, 1, 1⟩

theorem SignatureTable.sign_valid (table : SignatureTable) (hash : Bytes) :
    ((table.sign hash).v = 0 ∨ (table.sign hash).v = 1) ∧ 0 < (table.sign hash).r ∧
      (table.sign hash).r ≠ 2 ∧ (table.sign hash).s ≠ 0 := by
  unfold sign
  cases h : table.entries.lookup hash with
  | none => decide
  | some signature =>
    obtain ⟨l₁, l₂, he, -⟩ := List.lookup_eq_some_iff.mp h
    obtain ⟨hv, hr, hs⟩ := table.valid (hash, signature) (by simp [he])
    refine ⟨hv, ?_, ?_, hs⟩
    · exact lt_trans (by decide) hr
    · exact hr.ne'

/-- The address of a second key. It signs nothing in the samples. -/
def sampleRecipient : Bytes :=
  [0x2b, 0x5a, 0xd5, 0xc4, 0x79, 0x5c, 0x02, 0x65, 0x14, 0xf8, 0x31, 0x7c, 0x7a, 0x21, 0x5e, 0x21,
    0x8d, 0xcc, 0xd6, 0xcf]

theorem length_of_noSigner (e : (Int × Int × Int × Bytes) × Bytes) (h : e ∈ []) :
    e.2.length = 20 :=
  absurd h List.not_mem_nil

/-- Libraries that know the two keys. -/
def Env.ofKeys (hashes : List (Bytes × Bytes)) (table : SignatureTable)
    (hhashes : ∀ e ∈ hashes, e.2.length = 32) : Env :=
  { Env.ofTables hashes [] hhashes length_of_noSigner with
    recover v r s hash :=
      if ⟨v, r, s⟩ = table.sign hash then .ok sampleSender
      else if (⟨v, r, s⟩ : Signature) = ⟨0, 2, 1⟩ then .ok sampleRecipient
      else .error "BadSignature"
    recover_length {v r s hash a} h := by
      split at h
      · cases h
        rfl
      · split at h
        · cases h
          rfl
        · cases h }

variable {hashes : List (Bytes × Bytes)} {table : SignatureTable}
  {hhashes : ∀ e ∈ hashes, e.2.length = 32}

def senderKey : PrivateKey (.ofKeys hashes table hhashes) where
  signMsgHash := table.sign
  toCanonicalAddress := sampleSender
  v_eq hash := (table.sign_valid hash).1
  r_ne hash := (table.sign_valid hash).2.1.ne'
  s_ne hash := (table.sign_valid hash).2.2.2
  recovers _ _ := if_pos rfl

def recipientKey : PrivateKey (.ofKeys hashes table hhashes) where
  signMsgHash _ := ⟨0, 2, 1⟩
  toCanonicalAddress := sampleRecipient
  v_eq _ := .inl rfl
  r_ne _ := by decide
  s_ne _ := by decide
  recovers hash _ := by
    have hne : (⟨0, 2, 1⟩ : Signature) ≠ table.sign hash := by
      intro h
      exact (table.sign_valid hash).2.2.1 (congrArg Signature.r h).symm
    exact (if_neg hne).trans (if_pos rfl)

def sampleSignatures : SignatureTable where
  entries := [(sampleTransactionHash, ⟨0, sampleTransaction.r, sampleTransaction.s⟩)]
  valid := by decide

def signingEnv : Env := .ofKeys
  [(rlpEncode (.list [.bytes [], .bytes [1], .bytes [0x01, 0x86, 0xa0], .bytes sampleContract,
      .bytes [1], .bytes []]), sampleTransactionHash)]
  sampleSignatures (by decide)

/-- The sample transaction before it is signed. -/
def unsignedTransaction : Transaction := { sampleTransaction with v := 0, r := 0, s := 0 }

/-- It is signed, and accepted from its sender. -/
theorem sign_transaction_round_trip_sample :
    signTransaction unsignedTransaction (senderKey : PrivateKey signingEnv) =
      .ok sampleTransaction ∧
    validateTransaction signingEnv sampleTransaction (sampleWorld [] []) 100000 =
      .ok sampleSender := by
  have h : signTransaction unsignedTransaction (senderKey : PrivateKey signingEnv) =
      .ok sampleTransaction := rfl
  obtain ⟨signed, hsign, -, -, -, -, hvalid⟩ := (sign_transaction_round_trip signingEnv senderKey
    senderKey unsignedTransaction).2 ⟨by decide, by decide, by decide, by decide⟩
  obtain rfl : sampleTransaction = signed := Except.ok.inj (h.symm.trans hsign)
  refine ⟨h, (hvalid _ _ _).mpr ⟨rfl, ?_, ?_, ?_, ?_⟩⟩
  · exact (by decide +kernel : ((sampleWorld [] []).getAccount sampleSender).nonce = 0)
  · decide +kernel
  · decide
  · decide

end Sample

end Ethereum
