import Ethereum.Scenarios.Program

/-! The second scenario (`scenarios/02_counter.py`): a counter is deployed, incremented and read. -/
namespace Ethereum

open Stateful

def encodeIncrement (env : Env) : Bytes := computeSelector env "increment()"

def encodeGetCount (env : Env) : Bytes := computeSelector env "getCount()"

/-- `main` without its output: the contract address, the genesis block and the block on it. -/
def counterScenario (env : Env) (fuel : Nat) (deployer : PrivateKey env) (time : Int) :
    ScenarioM (Bytes × Block × Block) := do
  let deployerAddr := privateKeyToAddress deployer
  startFrom (Dict.empty.set deployerAddr oneEth)
  let genesisStateRoot ← raising ((← get).world.stateRootPlaceholder env)
  let genesisBlock := createGenesisBlock genesisStateRoot 0
  let initCode ← raising (buildInitCode counterRuntimeBytecode)
  let deployed ← submit env fuel deployer "Deployment failed"
    (scenarioTransaction 0 scenarioGasLimit [] 0 initCode)
  let contractAddr ← raising (computeContractAddress env deployerAddr 0)
  let contractCode := ((← get).world.getAccount contractAddr).code
  assertThat (contractCode == counterRuntimeBytecode)
    (s!"Deployed code mismatch: expected {counterRuntimeBytecode.length} bytes, " ++
      s!"got {contractCode.length} bytes")
  let incremented ← submit env fuel deployer "increment() call failed"
    (scenarioTransaction 1 scenarioGasLimit contractAddr 0 (encodeIncrement env))
  let counted ← submit env fuel deployer "getCount() call failed"
    (scenarioTransaction 2 scenarioGasLimit contractAddr 0 (encodeGetCount env))
  let count := intFromBytes (counted.2.returnData.take 32)
  let stateRoot ← raising ((← get).world.stateRootPlaceholder env)
  let block1 ← raising (createBlock env genesisBlock [deployed.1, incremented.1, counted.1]
    stateRoot time)
  let _ ← raising (blockHash env block1)
  assertThat (count == 1) s!"Expected count=1 after one increment(), got {count}"
  return (contractAddr, genesisBlock, block1)

variable {env : Env} {fuel : Nat} {deployer : PrivateKey env} {time : Int}

/-- What the script leaves behind. -/
structure Counted (deployer : PrivateKey env) (time : Int) (end_ : Bytes × Block × Block)
    (s : TxState) : Prop where
  address : computeContractAddress env (privateKeyToAddress deployer) 0 = .ok end_.1
  code : (s.world.getAccount end_.1).code = counterRuntimeBytecode
  count : s.world.getStorage end_.1 0 = 1
  mined : ∃ initCode root, buildInitCode counterRuntimeBytecode = .ok initCode ∧
    s.world.stateRootPlaceholder env = .ok root ∧ Mined deployer end_.2.1 end_.2.2
      [scenarioTransaction 0 scenarioGasLimit [] 0 initCode,
        scenarioTransaction 1 scenarioGasLimit end_.1 0 (encodeIncrement env),
        scenarioTransaction 2 scenarioGasLimit end_.1 0 (encodeGetCount env)] root time

/-- For any key every assertion holds, whatever code, slots or balance a collision of addresses
might have left at the address of the contract. -/
theorem counter_scenario (env : Env) (fuel : Nat) (deployer : PrivateKey env) (time : Int)
    (s : TxState) (htime : 0 ≤ time) (hmemory : 256 < env.bufferLimit) (hfuel : 100002 ≤ fuel)
    (hincrement : computeSelector env "increment()" = incrementSelectorBytes)
    (hgetCount : computeSelector env "getCount()" = getCountSelectorBytes) :
    Total (counterScenario env fuel deployer time) s (Counted deployer time) := by
  have halloc : ∀ a, 0 ≤ (Dict.empty.set (privateKeyToAddress deployer) oneEth).getD a 0 := by
    intro a
    rw [Dict.getD_set]
    split
    · decide
    · exact le_rfl
  obtain ⟨genesisRoot, hgenesis⟩ := exists_genesisRoot env halloc
  obtain ⟨initCode, hinit, hlength⟩ := exists_initCode counter
  obtain ⟨a, ha⟩ := computeContractAddress_of_nonneg env le_rfl (privateKeyToAddress deployer)
  have hne : a ≠ [] := by
    rintro rfl
    cases length_of_computeContractAddress ha
  refine total_startFrom_bind (total_get_bind ?_)
  refine total_raising_bind hgenesis (total_raising_bind hinit ?_)
  have hready := ready_genesis s halloc (by rw [Dict.getD_set, if_pos rfl])
  refine Total.bind (hready.deploy (by omega) rfl hmemory (by omega) hinit ha hlength) ?_
  rintro deployed s₁ ⟨hdeployed, L₁, hready₁, hcontract₁, hslots₁⟩
  refine total_raising_bind ha (total_get_bind (total_assertThat_bind ?_ ?_))
  · rw [(hready₁.shows a).code, hcontract₁]
    decide
  have hzero : (L₁ a).slots.get 0 = 0 := by rw [hslots₁]; rfl
  have hincremented : ∀ caller, counter.call caller (encodeIncrement env) (L₁ a).slots =
      ⟨true, [], (L₁ a).slots.set 0 ((L₁ a).slots.get 0 + 1)⟩ := by
    intro caller
    rw [encodeIncrement, hincrement]
    rfl
  have hincrementGas : ∀ caller, counter.gas caller (encodeIncrement env) (L₁ a).slots = 5151 := by
    intro caller
    rw [encodeIncrement, hincrement]
    rfl
  have hselector := length_computeSelector env
  refine Total.bind (hready₁.call (by omega) rfl hmemory hfuel hne hcontract₁ ?_ ?_ ?_ ?_) ?_
  · rw [encodeIncrement, hselector]
    omega
  · rw [hincrementGas]
    omega
  · rw [hincrementGas]
    omega
  · rw [hincremented]
  rintro incremented s₂ ⟨hsigned, -, L₂, hready₂, hcontract₂, hslots₂⟩
  have hone : (L₂ a).slots.get 0 = 1 := by
    rw [hslots₂, hincremented, hzero]
    rfl
  have hcounted : ∀ caller, counter.call caller (encodeGetCount env) (L₂ a).slots =
      ⟨true, BigEndian.toBytes 32 ((L₂ a).slots.get 0).toNat, (L₂ a).slots⟩ := by
    intro caller
    rw [encodeGetCount, hgetCount]
    rfl
  have hcountGas : ∀ caller, counter.gas caller (encodeGetCount env) (L₂ a).slots = 176 := by
    intro caller
    rw [encodeGetCount, hgetCount]
    rfl
  refine Total.bind (hready₂.call (by omega) rfl hmemory hfuel hne hcontract₂ ?_ ?_ ?_ ?_) ?_
  · rw [encodeGetCount, hselector]
    omega
  · rw [hcountGas]
    omega
  · rw [hcountGas]
    omega
  · rw [hcounted]
  rintro counted s₃ ⟨hsigned', hreturned, L₃, hready₃, hcontract₃, hslots₃⟩
  obtain ⟨root, hroot⟩ := hready₃.exists_stateRoot env
  obtain ⟨block, hash, hcreate, hblock, hmined⟩ :=
    exists_mined (.cons hdeployed (.cons hsigned (.cons hsigned' .nil))) genesisRoot root htime
  refine total_get_bind (total_raising_bind hroot (total_raising_bind hcreate ?_))
  refine total_raising_bind hblock (total_assertThat_bind ?_ (total_pure ?_))
  · rw [hreturned, hcounted, hone]
    have hdecoded : (intFromBytes (List.take 32 (BigEndian.toBytes 32 (Int.toNat 1))) == 1) =
        true := by decide
    exact hdecoded
  · refine ⟨ha, ?_, ?_, initCode, root, hinit, hroot, hmined⟩
    · rw [(hready₃.shows a).code, hcontract₃]
      rfl
    · rw [WorldState.getStorage, (hready₃.shows a).slots 0, hslots₃, hcounted]
      exact hone

section Sample

def counterGenesisRoot : Bytes := BigEndian.toBytes 32
  0x63da25bd441e09e8a04d901a93664e335ae13a21e3125d56e2debb127675bd2c

def counterGenesisHash : Bytes := BigEndian.toBytes 32
  0x6d2c29281b054c33852bfb854309d7d24c2cef5c67b0f71bba0047183e809eae

def counterDeployHash : Bytes := BigEndian.toBytes 32
  0xf70d4f5ffac49af882fb82b6e711b2f2e18389781b7f3ad34ede80795eabf99a

def counterIncrementHash : Bytes := BigEndian.toBytes 32
  0xb36ffef71951ea6e8109a2508711a047da566e4bb66da62c43d37f6870ddd835

def counterGetCountHash : Bytes := BigEndian.toBytes 32
  0x625173b800167c4c349a96c1b918424e46114983580ce8afcea2a31d67894074

def counterRootHash : Bytes := BigEndian.toBytes 32
  0x97baca4f9172c21b48a7e72a3ccff5762bb33a39c427d43633c708f3122a701e

def counterBlockHash : Bytes := BigEndian.toBytes 32
  0x0366879e4cddee55bed9f10c3267df64e9b53896b48ac8fbb5ee1d01a6399426

def counterSignatures : SignatureTable where
  entries := [(counterDeployHash, ⟨1,
      48110425926734616429894339207830048048098731138941785537917902462862737696374,
      27610463859709353268456631183455170939140872863788251217709997189451110261557⟩),
    (counterIncrementHash, ⟨0,
      60830405591042924389078591436626902423184547317390704291375371642141746840371,
      4134194006493322735368646501777481896722754701413376499559226807830254545934⟩),
    (counterGetCountHash, ⟨0,
      9961473929558339228704852535461909576684336103850262761978705379673156636977,
      19012553676665266413617752522989586055551721556501956289828285145780518779210⟩)]
  valid := by decide

def counterScenarioEnv : Env := .ofKeys
  [("increment()".toUTF8.data.toList, BigEndian.toBytes 32
      0xd09de08ab1a974aadf0a76e6f99a2ec20e431f22bbc101a6c3f718e53646ed8d),
    ("getCount()".toUTF8.data.toList, BigEndian.toBytes 32
      0xa87d942c9d2541a6b500dde7ac433dcb6b805640345fd60ed7d8a2d9df2dc58b),
    (accountEncoding sampleSender [] (BigEndian.toBytes 8 (10 ^ 18)) [], counterGenesisRoot),
    (headerEncoding (List.replicate 32 0) [] [] counterGenesisRoot, counterGenesisHash),
    (signedEncoding [] [0x01, 0x86, 0xa0] [] [] (initHeader 88 ++ counterRuntimeBytecode),
      counterDeployHash),
    (rlpEncode (.list [.bytes sampleSender, .bytes []]), deployCreationHash),
    (signedEncoding [1] [0x01, 0x86, 0xa0] (deployCreationHash.drop 12) [] incrementSelectorBytes,
      counterIncrementHash),
    (signedEncoding [2] [0x01, 0x86, 0xa0] (deployCreationHash.drop 12) [] getCountSelectorBytes,
      counterGetCountHash),
    (accountEncoding sampleSender [3] (BigEndian.toBytes 8 999999999999930431) [] ++
      accountEncoding (deployCreationHash.drop 12) [] [] counterRuntimeBytecode, counterRootHash),
    (headerEncoding counterGenesisHash [1] [1] counterRootHash, counterBlockHash)]
  counterSignatures (by decide +kernel)

theorem counter_scenario_sample : ∃ blocks s',
    counterScenario counterScenarioEnv 100002 senderKey 1 blankState =
      .ok (deployCreationHash.drop 12, blocks) s' ∧
    s'.world.getStorage (deployCreationHash.drop 12) 0 = 1 := by
  obtain ⟨⟨a, blocks⟩, s', hrun, hend⟩ := counter_scenario counterScenarioEnv 100002 senderKey 1
    blankState zero_le_one (by decide) le_rfl (by decide +kernel) (by decide +kernel)
  obtain rfl : deployCreationHash.drop 12 = a :=
    Except.ok.inj ((by decide +kernel : computeContractAddress counterScenarioEnv sampleSender 0 =
      .ok (deployCreationHash.drop 12)).symm.trans hend.address)
  exact ⟨blocks, s', hrun, hend.count⟩

end Sample

end Ethereum
