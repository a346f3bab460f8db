import Ethereum.Scenarios.Program

/-! The third scenario (`scenarios/03_token.py`): a token is deployed, its supply issued, and a
part of it transferred. -/
namespace Ethereum

open Stateful

def initialSupply : Int := 1000000
def transferAmount : Int := 1000

/-- `balanceOf` as the script calls it: build the calldata, submit it, decode what is returned. -/
def submitBalanceOf (env : Env) (fuel : Nat) (deployer : PrivateKey env) (failure : String)
    (nonce : Int) (contractAddr address : Bytes) : ScenarioM (Transaction × Int) := do
  let calldata ← raising (encodeBalanceOf env address)
  let submitted ← submit env fuel deployer failure
    (scenarioTransaction nonce scenarioGasLimit contractAddr 0 calldata)
  return (submitted.1, decodeUint256 submitted.2.returnData)

/-- `main` without its output: the contract address, the genesis block and the block on it. -/
def tokenScenario (env : Env) (fuel : Nat) (deployer recipient : PrivateKey env) (time : Int) :
    ScenarioM (Bytes × Block × Block) := do
  let deployerAddr := privateKeyToAddress deployer
  let recipientAddr := privateKeyToAddress recipient
  startFrom (allocate deployerAddr recipientAddr)
  let genesisStateRoot ← raising ((← get).world.stateRootPlaceholder env)
  let genesisBlock := createGenesisBlock genesisStateRoot 0
  let initCode ← raising (buildInitCode tokenRuntimeBytecode)
  let deployed ← submit env fuel deployer "Deployment failed"
    (scenarioTransaction 0 scenarioGasLimit [] 0 initCode)
  let contractAddr ← raising (computeContractAddress env deployerAddr 0)
  let contractCode := ((← get).world.getAccount contractAddr).code
  assertThat (contractCode == tokenRuntimeBytecode)
    (s!"Deployed code mismatch: expected {tokenRuntimeBytecode.length} bytes, " ++
      s!"got {contractCode.length} bytes")
  let deployerStorageKey := intFromBytes deployerAddr
  modify fun s =>
    { s with world := s.world.setStorage contractAddr deployerStorageKey initialSupply }
  let checked ← submitBalanceOf env fuel deployer "balanceOf(deployer) failed" 1 contractAddr
    deployerAddr
  assertThat (checked.2 == initialSupply)
    s!"Expected deployer balance={initialSupply}, got {checked.2}"
  let transferCalldata ← raising (encodeTransfer env recipientAddr transferAmount)
  let transferred ← submit env fuel deployer "transfer() failed"
    (scenarioTransaction 2 scenarioGasLimit contractAddr 0 transferCalldata)
  let deployerFinal ← submitBalanceOf env fuel deployer "balanceOf(deployer) failed" 3 contractAddr
    deployerAddr
  let recipientFinal ← submitBalanceOf env fuel deployer "balanceOf(recipient) failed" 4
    contractAddr recipientAddr
  let stateRoot ← raising ((← get).world.stateRootPlaceholder env)
  let block1 ← raising (createBlock env genesisBlock [deployed.1, checked.1, transferred.1]
    stateRoot time)
  let _ ← raising (blockHash env block1)
  let expectedDeployerBalance := initialSupply - transferAmount
  let expectedRecipientBalance := transferAmount
  assertThat (deployerFinal.2 == expectedDeployerBalance)
    ("Deployer balance mismatch: expected " ++ formatThousands expectedDeployerBalance ++
      ", got " ++ formatThousands deployerFinal.2)
  assertThat (recipientFinal.2 == expectedRecipientBalance)
    ("Recipient balance mismatch: expected " ++ formatThousands expectedRecipientBalance ++
      ", got " ++ formatThousands recipientFinal.2)
  assertThat (deployerFinal.2 + recipientFinal.2 == initialSupply)
    "Token conservation violated: total tokens changed"
  return (contractAddr, genesisBlock, block1)

variable {env : Env} {fuel n : Nat} {deployer recipient : PrivateKey env} {failure : String}
  {time amount : Int} {s : TxState} {L : Ledger} {sender a address data : Bytes}

theorem length_of_encodeTransfer (h : encodeTransfer env address amount = .ok data) :
    data.length = 68 := by
  obtain ⟨word, hword, h⟩ := ok_of_bind h
  obtain ⟨value, hvalue, h⟩ := ok_of_bind h
  cases h
  rw [length_encodeCall (length_computeSelector env _)]
  · rfl
  · intro arg harg
    rcases List.mem_cons.mp harg with rfl | harg
    · exact length_of_encodeAddress hword
    · exact List.mem_singleton.mp harg ▸ length_of_encodeUint256 hvalue

theorem length_of_encodeBalanceOf (h : encodeBalanceOf env address = .ok data) :
    data.length = 36 := by
  obtain ⟨word, hword, h⟩ := ok_of_bind h
  cases h
  rw [length_encodeCall (length_computeSelector env _)]
  · rfl
  · intro arg harg
    exact List.mem_singleton.mp harg ▸ length_of_encodeAddress hword

/-- A balance is read, and nothing changes for the next transaction. -/
theorem Ready.balanceOf (h : Ready L s sender n) (hn : n < 10)
    (hkey : privateKeyToAddress deployer = sender) (hmemory : 256 < env.bufferLimit)
    (hfuel : 100002 ≤ fuel) (ha : a ≠ []) (hK : (L a).contract = some token)
    (hselectors : TokenSelectors env) (haddress : address.length = 20) :
    Total (submitBalanceOf env fuel deployer failure n a address) s fun r s' =>
      (∃ data, encodeBalanceOf env address = .ok data ∧
        signTransaction (scenarioTransaction n scenarioGasLimit a 0 data) deployer = .ok r.1) ∧
      r.2 = (L a).slots.get (intFromBytes address) ∧
      ∃ L', Ready L' s' sender (n + 1) ∧ (L' a).contract = some token ∧
        (L' a).slots = (L a).slots := by
  obtain ⟨data, hdata, hselector, hword⟩ : ∃ data, encodeBalanceOf env address = .ok data ∧
      data.take 4 = _ ∧ _ := encodeBalanceOf_words haddress
  have hlength := length_of_encodeBalanceOf hdata
  rw [hselectors.balanceOf] at hselector
  have hne : balanceOfSelectorBytes ≠ transferSelectorBytes := by decide
  have hcall : token.call sender data (L a).slots =
      ⟨true, BigEndian.toBytes 32 ((L a).slots.get (intFromBytes address)).toNat, (L a).slots⟩ := by
    change tokenCall sender data (L a).slots = _
    rw [tokenCall, hselector, if_neg hne, if_pos rfl, hword]
  have hgas : token.gas sender data (L a).slots = 179 := by
    change tokenCallGas sender data (L a).slots = _
    rw [tokenCallGas, hselector, if_neg hne, if_pos rfl]
  refine total_raising_bind hdata (Total.bind (h.call hn hkey hmemory hfuel ha hK ?_ ?_ ?_ ?_) ?_)
  · omega
  · rw [hgas]
    omega
  · rw [hgas]
    omega
  · rw [hcall]
  rintro submitted s' ⟨hsigned, hreturned, L', hready, hcontract, hslots⟩
  rw [hcall] at hreturned hslots
  refine total_pure ⟨⟨data, hdata, hsigned⟩, ?_, L', hready, hcontract, hslots⟩
  dsimp only
  rw [hreturned]
  exact decodeUint256_toBytes ((L a).slots.word _)

/-- The issue: the script writes a slot, and no transaction is sent. -/
theorem Ready.issue (h : Ready L s sender n) (a : Bytes) {k v u : Int} (hv : u = v % 2 ^ 256) :
    Ready (L.store a ((L a).slots.set k v)) { s with world := s.world.setStorage a k u } sender n :=
  ⟨shows_setStorage h.shows hv, h.nonce, h.funds, h.nonneg⟩

/-- A transfer that the caller can afford. -/
theorem Ready.transfer (h : Ready L s sender n) (hn : n < 10)
    (hkey : privateKeyToAddress deployer = sender) (hmemory : 256 < env.bufferLimit)
    (hfuel : 100002 ≤ fuel) (ha : a ≠ []) (hK : (L a).contract = some token)
    (hselectors : TokenSelectors env) (hdata : data.length ≤ 267)
    (hselector : data.take 4 = computeSelector env "transfer(address,uint256)")
    (hamount : wordAt data 36 ≤ (L a).slots.get (intFromBytes sender)) :
    Total (submit env fuel deployer failure (scenarioTransaction n scenarioGasLimit a 0 data)) s
      fun r s' => signTransaction (scenarioTransaction n scenarioGasLimit a 0 data) deployer =
        .ok r.1 ∧ ∃ L', Ready L' s' sender (n + 1) ∧ (L' a).contract = some token ∧
        (L' a).slots = (L a).slots.move (intFromBytes sender) (wordAt data 4) (wordAt data 36) := by
  rw [hselectors.transfer] at hselector
  have hcall : token.call sender data (L a).slots = ⟨true, [], (L a).slots.move
      (intFromBytes sender) (wordAt data 4) (wordAt data 36)⟩ := by
    change tokenCall sender data (L a).slots = _
    rw [tokenCall, if_pos hselector, if_neg (not_lt.mpr hamount)]
  have hgas : token.gas sender data (L a).slots = 10301 := by
    change tokenCallGas sender data (L a).slots = _
    rw [tokenCallGas, if_pos hselector, if_neg (not_lt.mpr hamount)]
  refine (h.call hn hkey hmemory hfuel ha hK hdata ?_ ?_ ?_).weaken ?_
  · rw [hgas]
    omega
  · rw [hgas]
    omega
  · rw [hcall]
  rintro submitted s' ⟨hsigned, -, L', hready, hcontract, hslots⟩
  rw [hcall] at hslots
  exact ⟨hsigned, L', hready, hcontract, hslots⟩

/-- The slots that the script is to leave: the deployer holds what it did not send. -/
def SlotMap.scenario (deployer recipient : Int) : SlotMap :=
  (SlotMap.empty.set deployer initialSupply).move deployer recipient transferAmount

theorem get_scenario {deployer recipient : Int} (h : recipient ≠ deployer) (k : Int) :
    (SlotMap.scenario deployer recipient).get k =
      if k = recipient then 1000 else if k = deployer then 999000 else 0 := by
  simp only [SlotMap.scenario, SlotMap.move, SlotMap.set, SlotMap.empty, if_neg h, if_true]
  split
  · rfl
  · split <;> rfl

/-- What the script leaves behind. -/
structure Moved (deployer recipient : PrivateKey env) (time : Int)
    (end_ : Bytes × Block × Block) (s : TxState) : Prop where
  address : computeContractAddress env (privateKeyToAddress deployer) 0 = .ok end_.1
  code : (s.world.getAccount end_.1).code = tokenRuntimeBytecode
  slots : ∀ k, s.world.getStorage end_.1 k =
    if k = intFromBytes (privateKeyToAddress recipient) then 1000
    else if k = intFromBytes (privateKeyToAddress deployer) then 999000 else 0
  mined : ∃ initCode balanceOfCalldata transferCalldata root,
    buildInitCode tokenRuntimeBytecode = .ok initCode ∧
    encodeBalanceOf env (privateKeyToAddress deployer) = .ok balanceOfCalldata ∧
    encodeTransfer env (privateKeyToAddress recipient) transferAmount = .ok transferCalldata ∧
    s.world.stateRootPlaceholder env = .ok root ∧ Mined deployer end_.2.1 end_.2.2
      [scenarioTransaction 0 scenarioGasLimit [] 0 initCode,
        scenarioTransaction 1 scenarioGasLimit end_.1 0 balanceOfCalldata,
        scenarioTransaction 2 scenarioGasLimit end_.1 0 transferCalldata] root time

/-- Different addresses: every assertion holds. -/
theorem total_tokenScenario (s : TxState) (htime : 0 ≤ time) (hmemory : 256 < env.bufferLimit)
    (hfuel : 100002 ≤ fuel) (hselectors : TokenSelectors env)
    (hdistinct : privateKeyToAddress recipient ≠ privateKeyToAddress deployer) :
    Total (tokenScenario env fuel deployer recipient time) s (Moved deployer recipient time) := by
  have h0 := getD_allocate_nonneg (privateKeyToAddress deployer) (privateKeyToAddress recipient)
  obtain ⟨genesisRoot, hgenesis⟩ := exists_genesisRoot env h0
  obtain ⟨initCode, hinit, hlength⟩ := exists_initCode token
  obtain ⟨a, ha⟩ := computeContractAddress_of_nonneg env le_rfl (privateKeyToAddress deployer)
  have hne : a ≠ [] := by
    rintro rfl
    cases length_of_computeContractAddress ha
  have hkeys : intFromBytes (privateKeyToAddress recipient) ≠
      intFromBytes (privateKeyToAddress deployer) := by
    intro h
    exact hdistinct (intFromBytes_injective
      (recipient.length_address.trans deployer.length_address.symm) h)
  refine total_startFrom_bind (total_get_bind ?_)
  refine total_raising_bind hgenesis (total_raising_bind hinit ?_)
  have hready := ready_genesis s h0 (getD_allocate_sender hdistinct)
  refine Total.bind (hready.deploy (by omega) rfl hmemory (by omega) hinit ha hlength) ?_
  rintro deployed s₁ ⟨hdeployed, L₁, hready₁, hcontract₁, hslots₁⟩
  refine total_raising_bind ha (total_get_bind (total_assertThat_bind ?_ ?_))
  · rw [(hready₁.shows a).code, hcontract₁]
    decide
  have hissued := hready₁.issue a (k := intFromBytes (privateKeyToAddress deployer))
    (by decide : initialSupply = initialSupply % 2 ^ 256)
  have hslots : (L₁.store a ((L₁ a).slots.set (intFromBytes (privateKeyToAddress deployer))
      initialSupply) a).slots =
      SlotMap.empty.set (intFromBytes (privateKeyToAddress deployer)) initialSupply := by
    rw [hslots₁]
    exact if_pos rfl
  have hsupply : (SlotMap.empty.set (intFromBytes (privateKeyToAddress deployer))
      initialSupply).get (intFromBytes (privateKeyToAddress deployer)) = initialSupply :=
    if_pos rfl
  refine total_modify_bind (Total.bind (hissued.balanceOf (by omega) rfl hmemory hfuel hne
    hcontract₁ hselectors deployer.length_address) ?_)
  rintro checked s₂ ⟨⟨balanceOfCalldata, hbalanceOf, hread⟩, hchecked, L₂, hready₂, hcontract₂,
    hslots₂⟩
  rw [hslots] at hchecked hslots₂
  rw [hsupply] at hchecked
  refine total_assertThat_bind (by rw [hchecked]; decide) ?_
  have hword : Word transferAmount := ⟨by decide, by decide⟩
  obtain ⟨data, hdata, hselector, hto, hamount⟩ : ∃ data, encodeTransfer env
      (privateKeyToAddress recipient) transferAmount = .ok data ∧ data.take 4 = _ ∧ _ ∧ _ :=
    encodeTransfer_words recipient.length_address hword
  refine total_raising_bind hdata (Total.bind (hready₂.transfer (by omega) rfl hmemory hfuel hne
    hcontract₂ hselectors ?_ hselector ?_) ?_)
  · rw [length_of_encodeTransfer hdata]
    omega
  · rw [hamount, hslots₂, hsupply]
    decide
  rintro transferred s₃ ⟨hsent, L₃, hready₃, hcontract₃, hslots₃⟩
  rw [hslots₂, hto, hamount] at hslots₃
  refine Total.bind (hready₃.balanceOf (by omega) rfl hmemory hfuel hne hcontract₃ hselectors
    deployer.length_address) ?_
  rintro deployerFinal s₄ ⟨-, hdeployer, L₄, hready₄, hcontract₄, hslots₄⟩
  refine Total.bind (hready₄.balanceOf (by omega) rfl hmemory hfuel hne hcontract₄ hselectors
    recipient.length_address) ?_
  rintro recipientFinal s₅ ⟨-, hrecipient, L₅, hready₅, hcontract₅, hslots₅⟩
  rw [hslots₃] at hdeployer hslots₄
  rw [hslots₄] at hrecipient hslots₅
  obtain ⟨root, hroot⟩ := hready₅.exists_stateRoot env
  obtain ⟨block, hash, hcreate, hblock, hmined⟩ :=
    exists_mined (.cons hdeployed (.cons hread (.cons hsent .nil))) genesisRoot root htime
  rw [← SlotMap.scenario] at hdeployer hrecipient hslots₅
  rw [get_scenario hkeys] at hdeployer hrecipient
  rw [if_neg hkeys.symm, if_pos rfl] at hdeployer
  rw [if_pos rfl] at hrecipient
  refine total_get_bind (total_raising_bind hroot (total_raising_bind hcreate ?_))
  refine total_raising_bind hblock (total_assertThat_bind ?_ (total_assertThat_bind ?_
    (total_assertThat_bind ?_ (total_pure ⟨ha, ?_, ?_, initCode, balanceOfCalldata, data, root,
      hinit, hbalanceOf, hdata, hroot, hmined⟩))))
  · rw [hdeployer]
    decide
  · rw [hrecipient]
    decide
  · rw [hdeployer, hrecipient]
    decide
  · rw [(hready₅.shows a).code, hcontract₅]
    rfl
  · intro k
    rw [WorldState.getStorage, (hready₅.shows a).slots k, hslots₅, get_scenario hkeys]

/-- One address: its allocation is overwritten, and the deployment is not paid for. -/
theorem fails_tokenScenario (s : TxState)
    (heq : privateKeyToAddress recipient = privateKeyToAddress deployer) :
    Fails (tokenScenario env fuel deployer recipient time) s
      (.raised (.transactionError (.insufficientBalance 100000 0))) := by
  obtain ⟨genesisRoot, hgenesis⟩ := exists_genesisRoot env
    (getD_allocate_nonneg (privateKeyToAddress deployer) (privateKeyToAddress recipient))
  obtain ⟨initCode, hinit, -⟩ := exists_initCode token
  refine fails_startFrom_bind (fails_get_bind ?_)
  refine fails_raising_bind hgenesis (fails_raising_bind hinit (Fails.bind ?_))
  have hnonneg : (scenarioTransaction 0 scenarioGasLimit [] 0 initCode).NonNegative :=
    ⟨le_rfl, (by decide : 0 ≤ scenarioGasPrice), (by decide : 0 ≤ scenarioGasLimit), le_rfl⟩
  obtain ⟨signed, hsign⟩ := exists_signTransaction deployer hnonneg
  have hzero : (WorldState.createGenesisState (allocate (privateKeyToAddress deployer)
      (privateKeyToAddress recipient))).getBalance (privateKeyToAddress deployer) = 0 := by
    rw [getBalance_genesis, ← heq]
    exact getD_allocate_recipient _ _
  have hrefused : validateTransaction env signed (WorldState.createGenesisState (allocate
      (privateKeyToAddress deployer) (privateKeyToAddress recipient))) scenarioBlockGasLimit =
      _ := (signed_of_signTransaction hsign).insufficient (shows_genesis _ _).nonce
    (hzero ▸ (by decide : (0 : Int) < 0 + scenarioGasLimit * scenarioGasPrice))
  rw [hzero] at hrefused
  exact fails_submit hsign hrefused

/-- For any two keys with different addresses every assertion holds, and the supply is all that is
held. A recipient that is the deployer overwrites its allocation and cannot deploy. -/
theorem token_scenario (env : Env) (fuel : Nat) (deployer recipient : PrivateKey env) (time : Int)
    (s : TxState) (htime : 0 ≤ time) (hmemory : 256 < env.bufferLimit) (hfuel : 100002 ≤ fuel)
    (hselectors : TokenSelectors env) :
    (privateKeyToAddress recipient ≠ privateKeyToAddress deployer →
      Total (tokenScenario env fuel deployer recipient time) s (Moved deployer recipient time)) ∧
    (privateKeyToAddress recipient = privateKeyToAddress deployer →
      Fails (tokenScenario env fuel deployer recipient time) s
        (.raised (.transactionError (.insufficientBalance 100000 0)))) :=
  ⟨total_tokenScenario s htime hmemory hfuel hselectors, fails_tokenScenario s⟩

section Sample

def tokenDeployHash : Bytes := BigEndian.toBytes 32
  0xcdc3047374421978692e3bb6daab9cb85c3fa1467ab6f8cce03ed7a8b9d051ef

def tokenBalanceHash : Bytes := BigEndian.toBytes 32
  0x2f473bb81a1a52e858e16a0942f6a52adfc5c40ae63a2432b2dcb974f9a0b8eb

def tokenTransferHash : Bytes := BigEndian.toBytes 32
  0xa23b7320f6e5ddb5371ff729d92162d1c1c59d8e59840294ad30f12941f13af3

def tokenDeployerHash : Bytes := BigEndian.toBytes 32
  0x297d63c3aebad5c71dd83af59cabc87ecc6b5fb769d36494bd608517fa73a968

def tokenRecipientHash : Bytes := BigEndian.toBytes 32
  0xa635b3db42ee83b698a6c349f01922898da50a70447eb8fc36a14c9909770a23

def tokenRootHash : Bytes := BigEndian.toBytes 32
  0xa0d5970d383c5cc2c999505b003bdfc1892bdb8eb5bed680d39ee4aeee199fbd

def tokenBlockHash : Bytes := BigEndian.toBytes 32
  0x5682b9d9ef05512840c105b2e1e4e19fa266cc7607456fe5106bd400f41e8163

def tokenSignatures : SignatureTable where
  entries := [(tokenDeployHash, ⟨1,
      27463718138912884139213173694573459605267499452040945394528998950506887636419,
      34487996674896570829564471314771179493264540921572722028411128996077804913715⟩),
    (tokenBalanceHash, ⟨1,
      14019754511566314004227404967776360078616240948039203101109041271198576035751,
      54801971902795354367472685253511195142976050722303996573622832007889425595781⟩),
    (tokenTransferHash, ⟨1,
      107490488380424752910597166980829630985043126929142947015786770539174924948297,
      44074290728359201657119331944998584246425907291830510389455732618286494450017⟩),
    (tokenDeployerHash, ⟨1,
      95319250740734288050622298478252944999550827112492807163532754945002943692518,
      30674646720761410998249053100551270867643539969022269363338993534264721225716⟩),
    (tokenRecipientHash, ⟨1,
      18276299685422863477040890815642830718953315230615850268230656220760964293111,
      15335999410901073256160944859374971142879089127433561652635013551203750295275⟩)]
  valid := by decide

def balanceOfData (address : Bytes) : Bytes :=
  balanceOfSelectorBytes ++ List.replicate 12 0 ++ address

def tokenCallEncoding (nonce data : Bytes) : Bytes :=
  signedEncoding nonce [0x01, 0x86, 0xa0] (deployCreationHash.drop 12) [] data

def tokenScenarioEnv : Env := .ofKeys
  (genesisHashes ++
    [("transfer(address,uint256)".toUTF8.data.toList, BigEndian.toBytes 32
        0xa9059cbb2ab09eb219583f4a59a5d0623ade346d962bcd4e46b11da047c9049b),
      ("balanceOf(address)".toUTF8.data.toList, BigEndian.toBytes 32
        0x70a08231b98ef4ca268c9cc3f6b4590e4bfec28280db06bb5d45e689f2a360be),
      (signedEncoding [] [0x01, 0x86, 0xa0] [] [] (initHeader 112 ++ tokenRuntimeBytecode),
        tokenDeployHash),
      (rlpEncode (.list [.bytes sampleSender, .bytes []]), deployCreationHash),
      (tokenCallEncoding [1] (balanceOfData sampleSender), tokenBalanceHash),
      (tokenCallEncoding [2] (transferSelectorBytes ++ List.replicate 12 0 ++ sampleRecipient ++
        BigEndian.toBytes 32 1000), tokenTransferHash),
      (tokenCallEncoding [3] (balanceOfData sampleSender), tokenDeployerHash),
      (tokenCallEncoding [4] (balanceOfData sampleRecipient), tokenRecipientHash),
      (accountEncoding sampleRecipient [] [] [] ++
        accountEncoding sampleSender [5] (BigEndian.toBytes 8 999999999999880772) [] ++
        accountEncoding (deployCreationHash.drop 12) [] [] tokenRuntimeBytecode, tokenRootHash),
      (headerEncoding genesisBlockHash [1] [1] tokenRootHash, tokenBlockHash)])
  tokenSignatures (by decide +kernel)

theorem token_scenario_sample : ∃ blocks s',
    tokenScenario tokenScenarioEnv 100002 senderKey recipientKey 1 blankState =
      .ok (deployCreationHash.drop 12, blocks) s' ∧
    s'.world.getStorage (deployCreationHash.drop 12) (intFromBytes sampleSender) = 999000 ∧
    s'.world.getStorage (deployCreationHash.drop 12) (intFromBytes sampleRecipient) = 1000 := by
  obtain ⟨⟨a, blocks⟩, s', hrun, hend⟩ := (token_scenario tokenScenarioEnv 100002 senderKey
    recipientKey 1 blankState zero_le_one (by decide) le_rfl
    ⟨by decide +kernel, by decide +kernel⟩).1 (by decide : sampleRecipient ≠ sampleSender)
  obtain rfl : deployCreationHash.drop 12 = a :=
    Except.ok.inj ((by decide +kernel : computeContractAddress tokenScenarioEnv sampleSender 0 =
      .ok (deployCreationHash.drop 12)).symm.trans hend.address)
  exact ⟨blocks, s', hrun, (hend.slots _).trans (by decide +kernel),
    (hend.slots _).trans (by decide +kernel)⟩

end Sample

end Ethereum
