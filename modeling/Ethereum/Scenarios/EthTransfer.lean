import Ethereum.Scenarios.Program

/-! The first scenario (`scenarios/01_eth_transfer.py`): a payment of a tenth of an ether. -/
namespace Ethereum

open Stateful

def transferGasLimit : Int := 21000
def transferValue : Int := oneEth / 10

/-- `main` without its output: the genesis block and the block on top of it. -/
def ethTransfer (env : Env) (fuel : Nat) (sender recipient : PrivateKey env) (time : Int) :
    ScenarioM (Block × Block) := do
  let senderAddr := privateKeyToAddress sender
  let recipientAddr := privateKeyToAddress recipient
  startFrom (allocate senderAddr recipientAddr)
  let senderInitialBalance := (← get).world.getBalance senderAddr
  let genesisStateRoot ← raising ((← get).world.stateRootPlaceholder env)
  let genesisBlock := createGenesisBlock genesisStateRoot 0
  let _ ← raising (blockHash env genesisBlock)
  let submitted ← submit env fuel sender "Transaction failed"
    (scenarioTransaction 0 transferGasLimit recipientAddr transferValue [])
  let senderPostBalance := (← get).world.getBalance senderAddr
  let recipientPostBalance := (← get).world.getBalance recipientAddr
  let block1StateRoot ← raising ((← get).world.stateRootPlaceholder env)
  let block1 ← raising (createBlock env genesisBlock [submitted.1] block1StateRoot time)
  let _ ← raising (blockHash env block1)
  let expectedGasCost := transferGasLimit * scenarioGasPrice
  let expectedSenderBalance := oneEth - transferValue - expectedGasCost
  let expectedRecipientBalance := transferValue
  assertThat (senderPostBalance == expectedSenderBalance)
    (s!"Sender balance mismatch: expected {expectedSenderBalance}, " ++
      s!"got {senderPostBalance}")
  assertThat (recipientPostBalance == expectedRecipientBalance)
    (s!"Recipient balance mismatch: expected {expectedRecipientBalance}, " ++
      s!"got {recipientPostBalance}")
  assertThat (senderPostBalance < senderInitialBalance) "Sender balance should have decreased"
  return (genesisBlock, block1)

variable {env : Env} {fuel : Nat} {sender recipient : PrivateKey env} {time : Int} {s : TxState}

/-- What the payment leaves behind. -/
structure Transferred (sender recipient : PrivateKey env) (time : Int) (blocks : Block × Block)
    (s : TxState) : Prop where
  balance : s.world.getBalance (privateKeyToAddress sender) = oneEth - transferValue - 21000
  received : s.world.getBalance (privateKeyToAddress recipient) = transferValue
  mined : ∃ root, s.world.stateRootPlaceholder env = .ok root ∧ Mined sender blocks.1 blocks.2
    [scenarioTransaction 0 transferGasLimit (privateKeyToAddress recipient) transferValue []]
    root time

theorem nonNegative_transfer (a : Bytes) :
    (scenarioTransaction 0 transferGasLimit a transferValue []).NonNegative :=
  ⟨le_rfl, (by decide : 0 ≤ scenarioGasPrice), (by decide : 0 ≤ transferGasLimit),
    (by decide : 0 ≤ transferValue)⟩

/-- The payment between two accounts of the genesis state. -/
theorem total_payment {alloc : Dict Bytes Int} {failure : String}
    (hsender : alloc.getD (privateKeyToAddress sender) 0 = oneEth)
    (hrecipient : alloc.getD (privateKeyToAddress recipient) 0 = 0)
    (hne : privateKeyToAddress recipient ≠ privateKeyToAddress sender)
    (h0 : ∀ a, 0 ≤ alloc.getD a 0) :
    Total (submit env fuel sender failure (scenarioTransaction 0 transferGasLimit
      (privateKeyToAddress recipient) transferValue []))
      { s with world := WorldState.createGenesisState alloc } fun r s' =>
        signTransaction (scenarioTransaction 0 transferGasLimit (privateKeyToAddress recipient)
          transferValue []) sender = .ok r.1 ∧
        s'.world.getBalance (privateKeyToAddress sender) = oneEth - transferValue - 21000 ∧
        s'.world.getBalance (privateKeyToAddress recipient) = transferValue ∧
        ∃ root, s'.world.stateRootPlaceholder env = .ok root := by
  have hvalue : transferValue = 10 ^ 17 := by decide
  obtain ⟨signed, hsign⟩ :=
    exists_signTransaction sender (nonNegative_transfer (privateKeyToAddress recipient))
  have hsigned := signed_of_signTransaction hsign
  have hshows := shows_genesis alloc
  have hvalid : Valid env signed (WorldState.createGenesisState alloc) scenarioBlockGasLimit
      (privateKeyToAddress sender) := by
    refine validateTransaction_eq_ok_iff.mp (hsigned.acceptable_iff.mpr ⟨rfl, ?_, ?_, ?_, ?_⟩)
    · exact (hshows _).nonce
    · rw [WorldState.getBalance, (hshows _).balance]
      simp only [Ledger.genesis, hsender, scenarioTransaction, hvalue, oneEth, scenarioGasPrice,
        transferGasLimit]
      norm_num
    · exact (by decide : transferGasLimit ≤ scenarioBlockGasLimit)
    · exact (by decide : calculateIntrinsicGas [] ≤ transferGasLimit)
  obtain ⟨v, r, t, hfields⟩ := exists_signature hsign
  have hto : signed.to = privateKeyToAddress recipient := by rw [hfields]; rfl
  have hprice : signed.gasPrice = 1 := by rw [hfields]; rfl
  have hamount : signed.value = transferValue := by rw [hfields]; rfl
  have hdata : signed.data = [] := by rw [hfields]; rfl
  have hne' : signed.to ≠ [] := by
    intro h
    have hlength := recipient.length_address
    rw [← hto, h] at hlength
    cases hlength
  obtain ⟨s', happly, hs'⟩ := payment_refines fuel (s := { s with world := _ }) hshows hvalid
    hne' rfl
  have hmessage : (Ledger.genesis alloc).message signed (privateKeyToAddress sender) =
      (signed.transferResult, (Ledger.genesis alloc).settle signed (privateKeyToAddress sender)
        (privateKeyToAddress recipient) transferValue 21000) := by
    rw [← hto, ← hamount, show (21000 : Int) = calculateIntrinsicGas signed.data by rw [hdata]; rfl]
    rfl
  rw [hmessage] at happly hs'
  have hbalance : ∀ a, s'.world.getBalance a = alloc.getD a 0 +
      ((if a = privateKeyToAddress recipient then transferValue else 0) -
        if a = privateKeyToAddress sender then transferValue + 21000 else 0) := by
    intro a
    rw [WorldState.getBalance, (hs' a).balance]
    simp only [Ledger.settle, Ledger.genesis, hprice, mul_one]
  refine total_submit hsign happly rfl ⟨?_, ?_, ?_⟩
  · rw [hbalance, hsender, if_neg hne.symm, if_pos rfl]
    ring
  · rw [hbalance, hrecipient, if_pos rfl, if_neg hne]
    ring
  · apply WorldState.stateRootPlaceholder_of_nonneg
    intro a
    have ha := hbalance a
    have ha0 := h0 a
    rw [WorldState.getBalance] at ha
    constructor
    · rw [(hs' a).nonce]
      simp only [Ledger.settle, Ledger.genesis]
      split <;> decide
    · rw [ha]
      by_cases hs : a = privateKeyToAddress sender
      · subst hs
        rw [hsender, if_neg hne.symm, if_pos rfl]
        decide
      · rw [if_neg hs]
        split <;> omega

/-- For any two keys with different addresses every assertion holds, and the block goes on the
chain. A recipient that is the sender overwrites its allocation and the payment is refused. -/
theorem eth_transfer_scenario (env : Env) (fuel : Nat) (sender recipient : PrivateKey env)
    (time : Int) (htime : 0 ≤ time) (s : TxState) :
    (privateKeyToAddress recipient ≠ privateKeyToAddress sender → ∃ blocks s',
      ethTransfer env fuel sender recipient time s = .ok blocks s' ∧
      Transferred sender recipient time blocks s') ∧
    (privateKeyToAddress recipient = privateKeyToAddress sender → ∃ s',
      ethTransfer env fuel sender recipient time s = .error (.raised (.transactionError
        (.insufficientBalance (10 ^ 17 + 21000) 0))) s') := by
  have h0 := getD_allocate_nonneg (privateKeyToAddress sender) (privateKeyToAddress recipient)
  obtain ⟨genesisRoot, hgenesis⟩ := exists_genesisRoot env h0
  obtain ⟨genesisHash, hhash⟩ := exists_genesisHash env genesisRoot
  constructor
  · intro hne
    refine total_startFrom_bind (total_get_bind (total_get_bind ?_))
    refine total_raising_bind hgenesis (total_raising_bind hhash ?_)
    refine Total.bind (total_payment (getD_allocate_sender hne) (getD_allocate_recipient _ _) hne
      h0) ?_
    rintro ⟨signed, result⟩ s' ⟨hsigned, hsender, hrecipient, root, hroot⟩
    obtain ⟨block, hash, hcreate, hblock, hmined⟩ :=
      exists_mined (.cons hsigned .nil) genesisRoot root htime
    refine total_get_bind (total_get_bind (total_get_bind ?_))
    refine total_raising_bind hroot (total_raising_bind hcreate (total_raising_bind hblock ?_))
    refine total_assertThat_bind ?_ (total_assertThat_bind ?_ (total_assertThat_bind ?_ ?_))
    · rw [hsender]
      decide
    · rw [hrecipient]
      decide
    · rw [hsender, getBalance_genesis, getD_allocate_sender hne]
      decide
    · exact total_pure ⟨hsender, hrecipient, root, hroot, hmined⟩
  · intro heq
    refine fails_startFrom_bind (fails_get_bind (fails_get_bind ?_))
    refine fails_raising_bind hgenesis (fails_raising_bind hhash (Fails.bind ?_))
    obtain ⟨signed, hsign⟩ :=
      exists_signTransaction sender (nonNegative_transfer (privateKeyToAddress recipient))
    have hzero : (WorldState.createGenesisState (allocate (privateKeyToAddress sender)
        (privateKeyToAddress recipient))).getBalance (privateKeyToAddress sender) = 0 := by
      rw [getBalance_genesis, ← heq]
      exact getD_allocate_recipient _ _
    have hrefused : validateTransaction env signed (WorldState.createGenesisState (allocate
        (privateKeyToAddress sender) (privateKeyToAddress recipient))) scenarioBlockGasLimit = _ :=
      (signed_of_signTransaction hsign).insufficient (shows_genesis _ _).nonce (hzero ▸ (by decide :
        0 < transferValue + transferGasLimit * scenarioGasPrice))
    rw [hzero] at hrefused
    exact fails_submit hsign hrefused

section Sample

def paymentHash : Bytes := BigEndian.toBytes 32
  0xf9b38d58284e45752b6eb70a17800fdc8d3dca0ab5334e5d24a321091643a20a

def paymentRootHash : Bytes := BigEndian.toBytes 32
  0xf8cebe55f185be54445eb1f75f025dd69767e1705ba349346ecc7f72e479d0fa

def paymentBlockHash : Bytes := BigEndian.toBytes 32
  0x08558022f91927343be26b1b8259e265353c18e5d7ad61c5ba99dcd5ea3288bd

def paymentSignatures : SignatureTable where
  entries := [(paymentHash, ⟨1,
    37073242432117712566417310683355484382078614207169063094330193024405126951360,
    42496882148908274391359433671386404986731609398795647889317819617225291579460⟩)]
  valid := by decide

def paymentEnv : Env := .ofKeys
  (genesisHashes ++
    [(signedEncoding [] [0x52, 0x08] sampleRecipient (BigEndian.toBytes 8 (10 ^ 17)) [],
        paymentHash),
      (accountEncoding sampleRecipient [] (BigEndian.toBytes 8 (10 ^ 17)) [] ++
        accountEncoding sampleSender [1] (BigEndian.toBytes 8 899999999999979000) [],
        paymentRootHash),
      (headerEncoding genesisBlockHash [1] [1] paymentRootHash, paymentBlockHash)])
  paymentSignatures (by decide +kernel)

theorem eth_transfer_scenario_sample : ∃ blocks s',
    ethTransfer paymentEnv 0 senderKey recipientKey 1 blankState = .ok blocks s' ∧
    s'.world.getBalance sampleSender = 899999999999979000 ∧
    s'.world.getBalance sampleRecipient = 100000000000000000 := by
  obtain ⟨blocks, s', hrun, hend⟩ := (eth_transfer_scenario paymentEnv 0 senderKey recipientKey 1
    zero_le_one blankState).1 (by decide : sampleRecipient ≠ sampleSender)
  refine ⟨blocks, s', hrun, hend.balance.trans ?_, hend.received.trans ?_⟩
  · decide
  · decide

end Sample

end Ethereum
