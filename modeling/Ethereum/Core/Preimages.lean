import Ethereum.Chain.Block
import Ethereum.Encoding.Injective
import Ethereum.Evm.Vm

/-! What is hashed: unsigned transactions, headers, and creators with their nonces. The
hashed bytes determine the fields, and the number of fields tells the three kinds apart. -/
namespace Ethereum

/-- `rlp_encode(unsigned_fields)`, which `signing_hash` hashes. -/
def signingPreimage (tx : Transaction) : Except PyException Bytes := do
  let nonce ← intToRlpBytes tx.nonce
  let gasPrice ← intToRlpBytes tx.gasPrice
  let gas ← intToRlpBytes tx.gas
  let value ← intToRlpBytes tx.value
  let unsignedFields : List Rlp :=
    [.bytes nonce, .bytes gasPrice, .bytes gas, .bytes tx.to, .bytes value, .bytes tx.data]
  return rlpEncode (.list unsignedFields)

/-- `encoded`, which `compute_contract_address` hashes. -/
def contractAddressPreimage (sender : Bytes) (nonce : Int) : Except PyException Bytes := do
  let nonceBytes ← intToRlpBytes nonce
  return rlpEncode (.list [.bytes sender, .bytes nonceBytes])

theorem signingHash_eq (env : Env) (tx : Transaction) :
    signingHash env tx = (signingPreimage tx).map env.keccak256 := by
  unfold signingHash signingPreimage
  cases intToRlpBytes tx.nonce with
  | error e => rfl
  | ok nonce =>
    cases intToRlpBytes tx.gasPrice with
    | error e => rfl
    | ok gasPrice =>
      cases intToRlpBytes tx.gas with
      | error e => rfl
      | ok gas => cases intToRlpBytes tx.value <;> rfl

theorem computeContractAddress_eq (env : Env) (sender : Bytes) (nonce : Int) :
    computeContractAddress env sender nonce =
      (contractAddressPreimage sender nonce).map fun encoded =>
        (env.keccak256 encoded).drop 12 := by
  unfold computeContractAddress contractAddressPreimage
  cases intToRlpBytes nonce <;> rfl

/-- The encoded fields of a list of byte strings. -/
def Fields (b : Bytes) (fields : List Bytes) : Prop := b = rlpEncode (.list (fields.map .bytes))

theorem Fields.unique {b : Bytes} {fields fields' : List Bytes} (h : Fields b fields)
    (h' : Fields b fields') (hb : b.length < 2 ^ 64) : fields = fields' := by
  unfold Fields at h h'
  have hitems := eq_of_rlpEncode (h ▸ hb) (h.symm.trans h')
  injection hitems with hmap
  exact (List.map_inj_right fun _ _ he => Rlp.bytes.inj he).mp hmap

theorem signingPreimage_fields {tx : Transaction} {b : Bytes} (h : signingPreimage tx = .ok b) :
    ∃ nonce gasPrice gas value, intToRlpBytes tx.nonce = .ok nonce ∧
      intToRlpBytes tx.gasPrice = .ok gasPrice ∧ intToRlpBytes tx.gas = .ok gas ∧
      intToRlpBytes tx.value = .ok value ∧
      Fields b [nonce, gasPrice, gas, tx.to, value, tx.data] := by
  obtain ⟨nonce, hn, h⟩ := ok_of_bind h
  obtain ⟨gasPrice, hp, h⟩ := ok_of_bind h
  obtain ⟨gas, hg, h⟩ := ok_of_bind h
  obtain ⟨value, hv, h⟩ := ok_of_bind h
  cases h
  exact ⟨nonce, gasPrice, gas, value, hn, hp, hg, hv, rfl⟩

theorem headerPreimage_fields {header : Header} {b : Bytes} (h : headerPreimage header = .ok b) :
    ∃ number timestamp, intToRlpBytes header.number = .ok number ∧
      intToRlpBytes header.timestamp = .ok timestamp ∧
      Fields b [header.parentHash, number, timestamp, header.stateRoot] := by
  obtain ⟨number, hn, h⟩ := ok_of_bind h
  obtain ⟨timestamp, ht, h⟩ := ok_of_bind h
  cases h
  exact ⟨number, timestamp, hn, ht, rfl⟩

theorem contractAddressPreimage_fields {sender b : Bytes} {nonce : Int}
    (h : contractAddressPreimage sender nonce = .ok b) :
    ∃ nonceBytes, intToRlpBytes nonce = .ok nonceBytes ∧ Fields b [sender, nonceBytes] := by
  obtain ⟨nonceBytes, hn, h⟩ := ok_of_bind h
  cases h
  exact ⟨nonceBytes, hn, rfl⟩

theorem signingPreimage_injective {tx tx' : Transaction} {b : Bytes} (hb : b.length < 2 ^ 64)
    (h : signingPreimage tx = .ok b) (h' : signingPreimage tx' = .ok b) :
    tx.nonce = tx'.nonce ∧ tx.gasPrice = tx'.gasPrice ∧ tx.gas = tx'.gas ∧ tx.to = tx'.to ∧
      tx.value = tx'.value ∧ tx.data = tx'.data := by
  obtain ⟨nonce, gasPrice, gas, value, hn, hp, hg, hv, hf⟩ := signingPreimage_fields h
  obtain ⟨nonce', gasPrice', gas', value', hn', hp', hg', hv', hf'⟩ := signingPreimage_fields h'
  have he := hf.unique hf' hb
  simp only [List.cons.injEq, and_true] at he
  obtain ⟨rfl, rfl, rfl, hto, rfl, hdata⟩ := he
  exact ⟨eq_of_intToRlpBytes hn hn', eq_of_intToRlpBytes hp hp', eq_of_intToRlpBytes hg hg',
    hto, eq_of_intToRlpBytes hv hv', hdata⟩

theorem headerPreimage_injective {header header' : Header} {b : Bytes} (hb : b.length < 2 ^ 64)
    (h : headerPreimage header = .ok b) (h' : headerPreimage header' = .ok b) :
    header = header' := by
  obtain ⟨number, timestamp, hn, ht, hf⟩ := headerPreimage_fields h
  obtain ⟨number', timestamp', hn', ht', hf'⟩ := headerPreimage_fields h'
  have he := hf.unique hf' hb
  simp only [List.cons.injEq, and_true] at he
  obtain ⟨hparent, rfl, rfl, hroot⟩ := he
  have hnumber := eq_of_intToRlpBytes hn hn'
  have htimestamp := eq_of_intToRlpBytes ht ht'
  cases header
  cases header'
  simp_all

theorem contractAddressPreimage_injective {sender sender' b : Bytes} {nonce nonce' : Int}
    (hb : b.length < 2 ^ 64) (h : contractAddressPreimage sender nonce = .ok b)
    (h' : contractAddressPreimage sender' nonce' = .ok b) : sender = sender' ∧ nonce = nonce' := by
  obtain ⟨nonceBytes, hn, hf⟩ := contractAddressPreimage_fields h
  obtain ⟨nonceBytes', hn', hf'⟩ := contractAddressPreimage_fields h'
  have he := hf.unique hf' hb
  simp only [List.cons.injEq, and_true] at he
  obtain ⟨hsender, rfl⟩ := he
  exact ⟨hsender, eq_of_intToRlpBytes hn hn'⟩

/-- Hashed bytes bind every field of what they encode and are of one kind only. -/
theorem preimages_bind (b : Bytes) (hb : b.length < 2 ^ 64) :
    (∀ tx tx', signingPreimage tx = .ok b → signingPreimage tx' = .ok b →
      tx.nonce = tx'.nonce ∧ tx.gasPrice = tx'.gasPrice ∧ tx.gas = tx'.gas ∧ tx.to = tx'.to ∧
        tx.value = tx'.value ∧ tx.data = tx'.data) ∧
      (∀ header header', headerPreimage header = .ok b → headerPreimage header' = .ok b →
        header = header') ∧
      (∀ sender nonce sender' nonce', contractAddressPreimage sender nonce = .ok b →
        contractAddressPreimage sender' nonce' = .ok b → sender = sender' ∧ nonce = nonce') ∧
      (∀ tx header, signingPreimage tx = .ok b → headerPreimage header ≠ .ok b) ∧
      (∀ tx sender nonce, signingPreimage tx = .ok b →
        contractAddressPreimage sender nonce ≠ .ok b) ∧
      ∀ header sender nonce, headerPreimage header = .ok b →
        contractAddressPreimage sender nonce ≠ .ok b := by
  refine ⟨fun _ _ => signingPreimage_injective hb, fun _ _ => headerPreimage_injective hb,
    fun _ _ _ _ => contractAddressPreimage_injective hb, ?_, ?_, ?_⟩
  · intro tx header h h'
    obtain ⟨_, _, _, _, -, -, -, -, hf⟩ := signingPreimage_fields h
    obtain ⟨_, _, -, -, hf'⟩ := headerPreimage_fields h'
    exact absurd (congrArg List.length (hf.unique hf' hb)) (by simp)
  · intro tx sender nonce h h'
    obtain ⟨_, _, _, _, -, -, -, -, hf⟩ := signingPreimage_fields h
    obtain ⟨_, -, hf'⟩ := contractAddressPreimage_fields h'
    exact absurd (congrArg List.length (hf.unique hf' hb)) (by simp)
  · intro header sender nonce h h'
    obtain ⟨_, _, -, -, hf⟩ := headerPreimage_fields h
    obtain ⟨_, -, hf'⟩ := contractAddressPreimage_fields h'
    exact absurd (congrArg List.length (hf.unique hf' hb)) (by simp)

/-- Only transactions with the fields of the sample are signed over its bytes. -/
theorem preimages_bind_sample : ∃ b, signingPreimage sampleTransaction = .ok b ∧
    ∀ tx, signingPreimage tx = .ok b → tx.to = sampleContract := by
  obtain ⟨b, hb, hlen⟩ : ∃ b, signingPreimage sampleTransaction = .ok b ∧ b.length < 2 ^ 64 :=
    ⟨rlpEncode (.list [.bytes [], .bytes [1], .bytes [0x01, 0x86, 0xa0], .bytes sampleContract,
      .bytes [1], .bytes []]), by decide +kernel, by decide +kernel⟩
  refine ⟨b, hb, fun tx h => ?_⟩
  exact ((preimages_bind b hlen).1 tx sampleTransaction h hb).2.2.2.1

end Ethereum
