import Ethereum.Chain.Blockchain
import Ethereum.Contracts.Ledger
import Ethereum.Core.Signing
import Ethereum.State.Genesis
import Ethereum.State.StateRoot

/-! What the scenario scripts have in common: how they stop, what they call, and the ledger that
is behind them at each step. -/
namespace Ethereum

open Stateful

/-- How a script stops before its end. -/
inductive ScenarioError
  | raised (e : PyException)
  | runtimeError (message : String)
  | assertionError (message : String)
  | outOfFuel
  deriving DecidableEq

/-- A script with its `world_state`. -/
abbrev ScenarioM := EStateM ScenarioError TxState

def scenarioGasPrice : Int := 1
def scenarioBlockGasLimit : Int := 1000000
def oneEth : Int := 10 ^ 18

/-- `GAS_LIMIT_DEPLOY` and `GAS_LIMIT_CALL` -/
def scenarioGasLimit : Int := 100000

/-- A transaction at the gas price of the scripts. -/
def scenarioTransaction (nonce gas : Int) («to» : Bytes) (value : Int) (data : Bytes) :
    Transaction where
  nonce := nonce
  gasPrice := scenarioGasPrice
  gas := gas
  «to» := «to»
  value := value
  data := data

section Calls

variable {α : Type}

/-- A call that may raise and leaves the world state alone. -/
def raising : Except PyException α → ScenarioM α
  | .ok a => pure a
  | .error e => throw (.raised e)

/-- `world_state = create_genesis_state(...)` -/
def startFrom (alloc : Dict Bytes Int) : ScenarioM Unit :=
  modify fun s => { s with world := WorldState.createGenesisState alloc }

/-- `assert c, message` -/
def assertThat (c : Bool) (message : String) : ScenarioM Unit :=
  if !c then throw (.assertionError message) else pure ()

/-- `apply_transaction(tx, world_state, BLOCK_GAS_LIMIT)` -/
def applying (env : Env) (fuel : Nat) (tx : Transaction) : ScenarioM TransactionResult := fun s =>
  match applyTransaction env fuel tx scenarioBlockGasLimit s with
  | .ok result s => .ok result s
  | .error (.raised e) s => .error (.raised e) s
  | .error .outOfFuel s => .error .outOfFuel s

/-- `if not result.success: raise RuntimeError(...)` -/
def confirm (failure : String) (result : TransactionResult) : ScenarioM Unit :=
  if !result.success then
    throw (.runtimeError (failure ++ ": " ++ result.error.getD "None"))
  else pure ()

/-- Sign a transaction, apply it and confirm its success. -/
def submit (env : Env) (fuel : Nat) (key : PrivateKey env) (failure : String) (tx : Transaction) :
    ScenarioM (Transaction × TransactionResult) := do
  let signed ← raising (signTransaction tx key)
  let result ← applying env fuel signed
  confirm failure result
  return (signed, result)

/-- `decode_uint256` -/
def decodeUint256 (data : Bytes) : Int := intFromBytes (data.take 32)

end Calls

theorem decodeUint256_toBytes {v : Int} (h : Word v) :
    decodeUint256 (BigEndian.toBytes 32 v.toNat) = v := by
  rw [decodeUint256, List.take_of_length_le (BigEndian.length_toBytes _ _).le]
  exact intFromBytes_toBytes h

section Steps

variable {env : Env} {fuel : Nat} {α β : Type} {s : TxState} {Q : β → TxState → Prop}

theorem total_raising_bind {x : Except PyException α} {a : α} {f : α → ScenarioM β}
    (hx : x = .ok a) (h : Total (f a) s Q) : Total (raising x >>= f) s Q := by
  rw [hx]
  exact h

theorem total_assertThat_bind {c : Bool} {message : String} {f : Unit → ScenarioM β}
    (hc : c = true) (h : Total (f ()) s Q) : Total (assertThat c message >>= f) s Q := by
  rw [hc]
  exact h

theorem total_startFrom_bind {alloc : Dict Bytes Int} {f : Unit → ScenarioM β}
    (h : Total (f ()) { s with world := WorldState.createGenesisState alloc } Q) :
    Total (startFrom alloc >>= f) s Q := h

theorem fails_raising_bind {x : Except PyException α} {a : α} {f : α → ScenarioM β}
    {e : ScenarioError} (hx : x = .ok a) (h : Fails (f a) s e) : Fails (raising x >>= f) s e := by
  rw [hx]
  exact h

theorem fails_startFrom_bind {alloc : Dict Bytes Int} {f : Unit → ScenarioM β}
    {e : ScenarioError}
    (h : Fails (f ()) { s with world := WorldState.createGenesisState alloc } e) :
    Fails (startFrom alloc >>= f) s e := h

/-- A transaction that is not accepted stops the script. -/
theorem fails_submit {key : PrivateKey env} {failure : String} {tx signed : Transaction}
    {e : TransactionError} (hsigned : signTransaction tx key = .ok signed)
    (hvalidate : validateTransaction env signed s.world scenarioBlockGasLimit = .error e) :
    Fails (submit env fuel key failure tx) s (.raised (.transactionError e)) := by
  refine fails_raising_bind hsigned (Fails.bind ⟨s, ?_⟩)
  rw [applying, applyTransaction_of_invalid fuel hvalidate]

/-- A signed transaction whose result is known is confirmed, and goes back to the script. -/
theorem total_submit {key : PrivateKey env} {failure : String} {tx signed : Transaction}
    {result : TransactionResult} {s' : TxState}
    {P : Transaction × TransactionResult → TxState → Prop}
    (hsigned : signTransaction tx key = .ok signed)
    (happly : applyTransaction env fuel signed scenarioBlockGasLimit s = .ok result s')
    (hsuccess : result.success = true) (h : P (signed, result) s') :
    Total (submit env fuel key failure tx) s fun r s' =>
      signTransaction tx key = .ok r.1 ∧ P r s' := by
  have happlying : applying env fuel signed s = .ok result s' := by
    rw [applying, happly]
  have hconfirm : confirm failure result s' = .ok () s' := by
    rw [confirm, hsuccess]
    rfl
  refine ⟨(signed, result), s', ?_, hsigned, h⟩
  rw [submit, hsigned]
  exact (bind_of_ok rfl).trans ((bind_of_ok happlying).trans ((bind_of_ok hconfirm).trans rfl))

end Steps

section Mining

variable {env : Env} {key : PrivateKey env} {txs signed : List Transaction}

/-- Transactions as the holder of a key signs them, in order. -/
abbrev SignedBy (key : PrivateKey env) (txs signed : List Transaction) : Prop :=
  List.Forall₂ (fun tx signed => signTransaction tx key = .ok signed) txs signed

theorem SignedBy.recovered (h : SignedBy key txs signed) :
    ∀ tx ∈ signed, recoverSender env tx = .ok (privateKeyToAddress key) := by
  induction h with
  | nil => exact fun tx htx => absurd htx List.not_mem_nil
  | cons h _ ih => exact List.forall_mem_cons.mpr ⟨(signed_of_signTransaction h).recovered, ih⟩

/-- The block of a script holds its transactions, signed, and stands on its genesis block: a chain
of the two accepts it. -/
structure Mined (key : PrivateKey env) (genesis block : Block) (txs : List Transaction)
    (stateRoot : Bytes) (timestamp : Int) : Prop where
  header : ∃ hash, blockHash env genesis = .ok hash ∧
    block.header = { parentHash := hash, number := 1, timestamp, stateRoot }
  signed : SignedBy key txs block.transactions
  recovered : ∀ tx ∈ block.transactions, recoverSender env tx = .ok (privateKeyToAddress key)
  appended : ∃ chain hash chain', Blockchain.init env genesis = .ok chain ∧
    Blockchain.appendBlock env block chain = .ok hash chain' ∧
    chain'.validateChain env = .ok true

theorem exists_mined (hsigned : SignedBy key txs signed) (root stateRoot : Bytes)
    {timestamp : Int} (h0 : 0 ≤ timestamp) :
    ∃ block hash, createBlock env (createGenesisBlock root) signed stateRoot timestamp =
        .ok block ∧ blockHash env block = .ok hash ∧
      Mined key (createGenesisBlock root) block txs stateRoot timestamp := by
  obtain ⟨parentHash, hparent⟩ : ∃ hash, blockHash env (createGenesisBlock root) = .ok hash :=
    Blockchain.blockHash_of_nonneg env le_rfl le_rfl
  have hblock : createBlock env (createGenesisBlock root) signed stateRoot timestamp = .ok
      { header := { parentHash, number := 1, timestamp, stateRoot }, transactions := signed } := by
    rw [createBlock, hparent]
    rfl
  obtain ⟨hash, hhash⟩ : ∃ hash, blockHash env
      { header := { parentHash, number := 1, timestamp, stateRoot }, transactions := signed } =
        .ok hash :=
    Blockchain.blockHash_of_nonneg env zero_le_one h0
  have hinit : Blockchain.init env (createGenesisBlock root) =
      .ok { blocks := [createGenesisBlock root], blockHashes := [parentHash] } := by
    rw [Blockchain.init, hparent]
    rfl
  have happend : Blockchain.appendBlock env
      { header := { parentHash, number := 1, timestamp, stateRoot }, transactions := signed }
      { blocks := [createGenesisBlock root], blockHashes := [parentHash] } = _ :=
    Blockchain.appendBlock_of_valid rfl rfl rfl hhash
  have hreached := Blockchain.Reached.attempt (.genesis hinit)
    { header := { parentHash, number := 1, timestamp, stateRoot }, transactions := signed }
  rw [happend] at hreached
  exact ⟨_, hash, hblock, hhash, ⟨parentHash, hparent, rfl⟩, hsigned, hsigned.recovered,
    ⟨_, hash, _, hinit, happend, hreached.wellLinked.validateChain_eq⟩⟩

end Mining

section Ready

/-- Before its transaction number `n` the sender has spent at most 100000 wei for each before. -/
structure Ready (L : Ledger) (s : TxState) (sender : Bytes) (n : Nat) : Prop where
  shows : L.Shows s.world
  nonce : (L sender).nonce = n
  funds : oneEth - 100000 * n ≤ (L sender).balance
  nonneg : ∀ a, 0 ≤ (L a).nonce ∧ 0 ≤ (L a).balance

/-- The genesis state as a ledger. -/
def Ledger.genesis (alloc : Dict Bytes Int) : Ledger := fun a => { balance := alloc.getD a 0 }

theorem shows_genesis (alloc : Dict Bytes Int) :
    (Ledger.genesis alloc).Shows (WorldState.createGenesisState alloc) := by
  intro a
  rw [WorldState.getAccount_createGenesisState]
  exact ⟨rfl, rfl, rfl, fun _ => rfl⟩

/-- The allocation of a script with two accounts. -/
def allocate (sender recipient : Bytes) : Dict Bytes Int :=
  (Dict.empty.set sender oneEth).set recipient 0

theorem getD_allocate (sender recipient a : Bytes) : (allocate sender recipient).getD a 0 =
    if a = recipient then 0 else if a = sender then oneEth else 0 := by
  rw [allocate, Dict.getD_set, Dict.getD_set]
  rfl

theorem getD_allocate_recipient (sender recipient : Bytes) :
    (allocate sender recipient).getD recipient 0 = 0 := by
  rw [getD_allocate, if_pos rfl]

theorem getD_allocate_sender {sender recipient : Bytes} (h : recipient ≠ sender) :
    (allocate sender recipient).getD sender 0 = oneEth := by
  rw [getD_allocate, if_neg h.symm, if_pos rfl]

theorem getD_allocate_nonneg (sender recipient a : Bytes) :
    0 ≤ (allocate sender recipient).getD a 0 := by
  rw [getD_allocate]
  split
  · exact le_rfl
  · split <;> decide

theorem getBalance_genesis (alloc : Dict Bytes Int) (a : Bytes) :
    (WorldState.createGenesisState alloc).getBalance a = alloc.getD a 0 := by
  rw [WorldState.getBalance, WorldState.getAccount_createGenesisState]
  rfl

theorem exists_genesisRoot (env : Env) {alloc : Dict Bytes Int} (h : ∀ a, 0 ≤ alloc.getD a 0) :
    ∃ root, (WorldState.createGenesisState alloc).stateRootPlaceholder env = .ok root := by
  apply WorldState.stateRootPlaceholder_of_nonneg
  intro a
  rw [WorldState.getAccount_createGenesisState]
  exact ⟨le_rfl, h a⟩

theorem exists_genesisHash (env : Env) (root : Bytes) :
    ∃ hash, blockHash env (createGenesisBlock root) = .ok hash :=
  Blockchain.blockHash_of_nonneg env le_rfl le_rfl

variable {L : Ledger} {env : Env} {fuel n : Nat} {s : TxState} {sender a data : Bytes}
  {K : Contract} {failure : String}

theorem ready_genesis (s : TxState) {alloc : Dict Bytes Int} (h : ∀ a, 0 ≤ alloc.getD a 0)
    (hsender : alloc.getD sender 0 = oneEth) : Ready (.genesis alloc)
      { s with world := WorldState.createGenesisState alloc } sender 0 := by
  refine ⟨shows_genesis alloc, rfl, ?_, fun a => ⟨le_rfl, h a⟩⟩
  simp [Ledger.genesis, hsender]

theorem Ready.exists_stateRoot (h : Ready L s sender n) (env : Env) :
    ∃ root, s.world.stateRootPlaceholder env = .ok root := by
  apply WorldState.stateRootPlaceholder_of_nonneg
  intro b
  rw [(h.shows b).nonce, (h.shows b).balance]
  exact h.nonneg b

/-- A transaction without value, as long as it is one of the first. -/
theorem Ready.settle (h : Ready L s sender n) (hn : n < 10) {tx : Transaction} {used : Int}
    {s' : TxState} {recipient : Bytes} (h0 : 0 ≤ used) (hused : used ≤ 100000)
    (hprice : tx.gasPrice = 1) {L' : Ledger} (hshows : L'.Shows s'.world)
    (hnonce : ∀ b, (L' b).nonce = (L.settle tx sender recipient 0 used b).nonce)
    (hbalance : ∀ b, (L' b).balance = (L.settle tx sender recipient 0 used b).balance) :
    Ready L' s' sender (n + 1) := by
  have hfunds := h.funds
  simp only [Ledger.settle, ite_self, zero_add, zero_sub, hprice, mul_one] at hnonce hbalance
  refine ⟨hshows, ?_, ?_, fun b => ?_⟩
  · rw [hnonce, if_pos rfl, h.nonce, Nat.cast_succ]
  · rw [hbalance, if_pos rfl, Nat.cast_succ]
    omega
  · obtain ⟨hn0, hb0⟩ := h.nonneg b
    rw [hnonce, hbalance]
    by_cases hb : b = sender
    · subst hb
      rw [if_pos rfl, if_pos rfl]
      unfold oneEth at hfunds
      omega
    · rw [if_neg hb, if_neg hb]
      omega

/-- A signed transaction with the fields of `tx` that is accepted. -/
structure Offered (key : PrivateKey env) (tx signed : Transaction) (w : WorldState)
    (sender : Bytes) : Prop where
  sign : signTransaction tx key = .ok signed
  valid : Valid env signed w scenarioBlockGasLimit sender
  fields : ∃ v r s, signed = { tx with v, r, s }

theorem Offered.executionGas {key : PrivateKey env} {tx signed : Transaction} {w : WorldState}
    (h : Offered key tx signed w sender) : signed.executionGas = tx.executionGas := by
  obtain ⟨v, r, t, rfl⟩ := h.fields
  rfl

theorem Ready.accepted (h : Ready L s sender n) (hn : n < 10) {key : PrivateKey env}
    (hkey : privateKeyToAddress key = sender) (a : Bytes) (hlength : data.length ≤ 267) :
    ∃ signed, Offered key (scenarioTransaction n 100000 a 0 data) signed s.world sender := by
  have hnonneg : (scenarioTransaction n 100000 a 0 data).NonNegative := by
    refine ⟨Int.natCast_nonneg n, ?_, ?_, le_rfl⟩
    · exact zero_le_one
    · exact Int.natCast_nonneg 100000
  obtain ⟨signed, hsign⟩ := exists_signTransaction key hnonneg
  refine ⟨signed, hsign, validateTransaction_eq_ok_iff.mp ?_, exists_signature hsign⟩
  rw [(signed_of_signTransaction hsign).acceptable_iff]
  have hintrinsic := calculateIntrinsicGas_le data
  have hfunds := h.funds
  refine ⟨hkey.symm, (h.shows sender).nonce.trans h.nonce, ?_, ?_, ?_⟩
  · rw [WorldState.getBalance, (h.shows sender).balance]
    unfold oneEth at hfunds
    simp only [scenarioTransaction, scenarioGasPrice]
    omega
  · simp only [scenarioTransaction, scenarioBlockGasLimit]
    omega
  · simp only [scenarioTransaction]
    omega

/-- The gas that is left for the frame of such a transaction. -/
theorem executionGas_bounds (n a data) (hlength : data.length ≤ 267) :
    74728 ≤ (scenarioTransaction n 100000 a 0 data).executionGas ∧
      (scenarioTransaction n 100000 a 0 data).executionGas ≤ 79000 := by
  have hlow := le_calculateIntrinsicGas data
  have hhigh := calculateIntrinsicGas_le data
  simp only [Transaction.executionGas, scenarioTransaction]
  omega

/-- A call that the gas covers and that the contract accepts. -/
theorem Ready.call (h : Ready L s sender n) (hn : n < 10) {key : PrivateKey env}
    (hkey : privateKeyToAddress key = sender) (hmemory : 256 < env.bufferLimit)
    (hfuel : 100002 ≤ fuel) (ha : a ≠ []) (hK : (L a).contract = some K)
    (hlength : data.length ≤ 267) (h0 : 0 ≤ K.gas sender data (L a).slots)
    (hgas : K.gas sender data (L a).slots ≤ 70000)
    (hsuccess : (K.call sender data (L a).slots).success = true) :
    Total (submit env fuel key failure (scenarioTransaction n 100000 a 0 data)) s fun r s' =>
      signTransaction (scenarioTransaction n 100000 a 0 data) key = .ok r.1 ∧
      r.2.returnData = (K.call sender data (L a).slots).returnData ∧
      ∃ L', Ready L' s' sender (n + 1) ∧ (L' a).contract = some K ∧
        (L' a).slots = (K.call sender data (L a).slots).slots := by
  obtain ⟨signed, hoffered⟩ := h.accepted hn hkey a hlength
  have hbounds := executionGas_bounds n a data hlength
  rw [← hoffered.executionGas] at hbounds
  obtain ⟨hsign, hvalid, v, r, t, hfields⟩ := hoffered
  obtain ⟨rfl, rfl, hvalue, hprice, hlimit⟩ : signed.to = a ∧ signed.data = data ∧
      signed.value = 0 ∧ signed.gasPrice = 1 ∧ signed.gas = 100000 := by
    rw [hfields]
    exact ⟨rfl, rfl, rfl, rfl, rfl⟩
  obtain ⟨s', happly, hshows⟩ := call_refines fuel h.shows hvalid ha hK (by omega) (by omega)
  have hintrinsic := le_calculateIntrinsicGas signed.data
  unfold Transaction.executionGas at hbounds
  rw [Ledger.message_of_success hK (by unfold Transaction.executionGas; omega) hsuccess, hvalue]
    at happly hshows
  refine total_submit hsign happly rfl ⟨rfl, _, h.settle hn ?_ ?_ hprice hshows (fun _ => rfl)
    (fun _ => rfl), hK, if_pos rfl⟩
  · omega
  · omega

/-- A deployment, at the address that is computed for it. -/
theorem Ready.deploy (h : Ready L s sender n) (hn : n < 10) {key : PrivateKey env}
    (hkey : privateKeyToAddress key = sender) (hmemory : 256 < env.bufferLimit)
    (hfuel : 8 ≤ fuel) (hinit : buildInitCode K.code = .ok data)
    (ha : computeContractAddress env sender n = .ok a) (hlength : data.length ≤ 267) :
    Total (submit env fuel key failure (scenarioTransaction n 100000 [] 0 data)) s fun r s' =>
      signTransaction (scenarioTransaction n 100000 [] 0 data) key = .ok r.1 ∧
      ∃ L', Ready L' s' sender (n + 1) ∧ (L' a).contract = some K ∧
        (L' a).slots = (L a).slots := by
  obtain ⟨signed, hoffered⟩ := h.accepted hn hkey [] hlength
  have hbounds := executionGas_bounds n [] data hlength
  rw [← hoffered.executionGas] at hbounds
  obtain ⟨hsign, hvalid, v, r, t, hfields⟩ := hoffered
  obtain ⟨hto, rfl, hvalue, hprice, hlimit, hnonce⟩ : signed.to = [] ∧ signed.data = data ∧
      signed.value = 0 ∧ signed.gasPrice = 1 ∧ signed.gas = 100000 ∧ signed.nonce = n := by
    rw [hfields]
    exact ⟨rfl, rfl, rfl, rfl, rfl, rfl⟩
  rw [← hnonce] at ha
  obtain ⟨s', happly, hshows⟩ := creation_refines fuel h.shows hvalid hto ha
    (Catalog.contractOf_single hinit) hmemory hfuel
  have hintrinsic := le_calculateIntrinsicGas signed.data
  unfold Transaction.executionGas at hbounds
  rw [Ledger.creation_of_success (Catalog.contractOf_single hinit)
    (by unfold Transaction.executionGas; rw [totalCost_headerOps]; omega), hvalue] at happly hshows
  refine total_submit hsign happly rfl ⟨_, h.settle hn ?_ ?_ hprice hshows (fun _ => rfl)
    (fun _ => rfl), if_pos rfl, rfl⟩
  · rw [totalCost_headerOps]
    omega
  · rw [totalCost_headerOps]
    omega

end Ready

section Sample

def signedEncoding (nonce gas «to» value data : Bytes) : Bytes :=
  rlpEncode (.list [.bytes nonce, .bytes [1], .bytes gas, .bytes «to», .bytes value, .bytes data])

def accountEncoding (a nonce balance code : Bytes) : Bytes :=
  rlpEncode (.list [.bytes a, .bytes nonce, .bytes balance, .bytes code])

def headerEncoding (parentHash number timestamp stateRoot : Bytes) : Bytes :=
  rlpEncode (.list [.bytes parentHash, .bytes number, .bytes timestamp, .bytes stateRoot])

def genesisRootHash : Bytes := BigEndian.toBytes 32
  0x9402bc7d4fa64e5f48fd2241dea4151a766c2f20271366c91a2b611b78dec5c8

def genesisBlockHash : Bytes := BigEndian.toBytes 32
  0x60896775c01dbc599023f112c38e1e1a1af78ab918af7821a2c99a097762b8eb

/-- The genesis state of the two keys and its block. -/
def genesisHashes : List (Bytes × Bytes) :=
  [(accountEncoding sampleRecipient [] [] [] ++
      accountEncoding sampleSender [] (BigEndian.toBytes 8 (10 ^ 18)) [], genesisRootHash),
    (headerEncoding (List.replicate 32 0) [] [] genesisRootHash, genesisBlockHash)]

/-- A state to start the scripts from. -/
def blankState : TxState where
  world := .createGenesisState .empty

end Sample

end Ethereum
