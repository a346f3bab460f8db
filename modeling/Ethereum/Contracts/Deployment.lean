import Ethereum.Contracts.Abi
import Ethereum.Core.TopFrame
import Ethereum.Evm.Atomicity
import Ethereum.Evm.Costs

/-! Deploying a contract with minimal init code (`scenarios/02_counter.py`). -/
namespace Ethereum

open Stateful

def buildInitCode (runtimeBytecode : Bytes) : Except PyException Bytes := do
  let runtimeLen : Int := runtimeBytecode.length
  let runtimeOffset : Int := 12
  let initCode ← bytesOfInts
    [0x60, runtimeLen, 0x60, runtimeOffset, 0x60, 0x00, 0x39, 0x60, runtimeLen, 0x60, 0x00, 0xf3]
  return initCode ++ runtimeBytecode

/-- The instructions in front of the runtime bytecode. -/
def initHeader (runtimeLen : UInt8) : Bytes :=
  [0x60, runtimeLen, 0x60, 12, 0x60, 0x00, 0x39, 0x60, runtimeLen, 0x60, 0x00, 0xf3]

def headerOps : List Opcode := [.push 1, .push 1, .push 1, .codecopy, .push 1, .push 1, .return]

theorem totalCost_headerOps : totalCost headerOps = 18 := by decide

theorem bytesOfInts_toNat (l : Bytes) : bytesOfInts (l.map fun b => (b.toNat : Int)) = .ok l := by
  induction l with
  | nil => rfl
  | cons b l ih =>
    have hrange : 0 ≤ (b.toNat : Int) ∧ (b.toNat : Int) < 256 := by
      have := b.toNat_lt
      omega
    unfold bytesOfInts at ih ⊢
    rw [List.map_cons, List.mapM_cons, if_pos hrange, ih]
    simp [bind, Except.bind, pure, Except.pure]

/-- A runtime of at most 255 bytes has init code. -/
theorem buildInitCode_of_le {r : Bytes} (hr : r.length ≤ 255) :
    ∃ n : UInt8, n.toNat = r.length ∧ buildInitCode r = .ok (initHeader n ++ r) := by
  obtain ⟨n, hn⟩ : ∃ n : UInt8, n.toNat = r.length := by
    refine ⟨UInt8.ofNat r.length, ?_⟩
    rw [UInt8.toNat_ofNat']
    omega
  have hheader : bytesOfInts [0x60, (r.length : Int), 0x60, 12, 0x60, 0x00, 0x39, 0x60, r.length,
      0x60, 0x00, 0xf3] = .ok (initHeader n) := by
    rw [← hn]
    exact bytesOfInts_toNat (initHeader n)
  refine ⟨n, hn, ?_⟩
  rw [buildInitCode, hheader]
  rfl

theorem intFromBytes_window_one {data : Bytes} {i : Nat} {b : UInt8} (h : data[i]? = some b) :
    intFromBytes (window data i 1) = b.toNat := by
  simp [window, h, intFromBytes, BigEndian.fromBytes]

variable {env : Env} {r : Bytes} {n : UInt8}

/-- The header copies the bytes after it to the memory, whatever they are, and returns them. -/
theorem costs_initCode (F : Setting) (hmemory : 256 < env.bufferLimit)
    (hn : n.toNat = r.length) (storage : Dict Int Int) :
    F.Costs env (initHeader n ++ r) 0 [] .empty storage headerOps
      fun reverted returnData storage' =>
        reverted = false ∧ returnData = r ∧ storage' = storage := by
  have hpush : ∀ {pc}, (initHeader n ++ r)[pc]? = some 0x60 →
      Setting.Fetches (initHeader n ++ r) pc (.push 1) := by
    intro pc h
    exact ⟨⟨0x60, h, by decide⟩, by decide⟩
  have hlen : ∀ {i}, (initHeader n ++ r)[i]? = some n →
      intFromBytes (window (initHeader n ++ r) i 1) = r.length := by
    intro i h
    rw [intFromBytes_window_one h, hn]
  have hlt : r.length < 256 := hn ▸ n.toNat_lt
  have hfits : env.Copies .empty 0 r.length := by
    unfold Env.Copies wordsFor
    omega
  have hruntime : window (initHeader n ++ r) 12 r.length = r := by
    have h := window_middle (initHeader n) r []
    rwa [List.append_nil] at h
  refine Setting.costs_push 1 r.length ?_ (hpush rfl) (hlen rfl)
  refine Setting.costs_push 1 12 ?_ (hpush rfl) (intFromBytes_window_one (b := 12) rfl)
  refine Setting.costs_push 1 0 ?_ (hpush rfl) (intFromBytes_window_one (b := 0) rfl)
  refine Setting.costs_codecopy 0 12 r.length hfits ?_ ⟨⟨0x39, rfl, by decide⟩, by decide⟩
  intro memory hlength hcopied
  have hle : 0 + r.length ≤ memory.data.length := by
    by_cases hzero : r.length = 0
    · omega
    · exact hlength hzero
  have hread : Memory.readRange env (0 : Nat) r.length memory = .ok r memory := by
    have hwritten := hcopied.written
    rw [hruntime] at hwritten
    rw [readRange_of_le env hle, hwritten]
  refine Setting.costs_push 1 r.length ?_ (hpush rfl) (hlen rfl)
  refine Setting.costs_push 1 0 ?_ (hpush rfl) (intFromBytes_window_one (b := 0) rfl)
  exact Setting.costs_return hread ⟨rfl, rfl, rfl⟩ ⟨⟨0xf3, rfl, by decide⟩, by decide⟩

section Transactions

/-- The log of a creation that has run `ops` in its frame. -/
def creationLog (tx : Transaction) (sender a : Bytes) (ops : List Opcode) (ending : Ending) :
    List Event :=
  .enter .creation ((creationFrame tx a).context tx sender tx.executionGas) ::
    ops.map (.executed a) ++ [.leave .creation ending]

/-- The contract is there with the value it was paid, and only the header has run. -/
structure Deployed (tx : Transaction) (sender a r : Bytes) (s s' : TxState)
    (result : TransactionResult) : Prop where
  success : result.success = true
  contractAddress : result.contractAddress = some a
  code : (s'.world.getAccount a).code = r
  balance : a ≠ sender → s'.world.getBalance a = s.world.getBalance a + tx.value
  log : s'.log = s.log ++ creationLog tx sender a headerOps .success

/-- No code is stored, and nothing behind the header has run. -/
structure NotDeployed (tx : Transaction) (sender a : Bytes) (s s' : TxState)
    (result : TransactionResult) : Prop where
  success : result.success = false
  contractAddress : result.contractAddress = none
  code : ∀ b, (s'.world.getAccount b).code = (s.world.getAccount b).code
  log : ∃ ops, ops <+: headerOps ∧ s'.log = s.log ++ creationLog tx sender a ops .outOfGas

variable {fuel : Nat} {tx : Transaction} {sender a : Bytes} {blockGasLimit : Int} {s : TxState}
  {w w' : WorldState}

theorem append_creationLog (log : List Event) (ops : List Opcode) (ending : Ending) :
    log ++ [.enter .creation ((creationFrame tx a).context tx sender tx.executionGas)] ++
        ops.map (.executed a) ++ [.leave .creation ending] =
      log ++ creationLog tx sender a ops ending := by
  simp [creationLog]

/-- The account at the new address after a creation that has returned `r`. -/
theorem getAccount_created (hv : 0 ≤ tx.value) (hw : ∀ b, w.getAccount b =
      (s.world.bill tx sender).getAccount b)
    (hpay : payValue w sender a tx.value = .ok w') (remaining : Int) :
    ((((creationFrame tx a).commit r .empty w').refund tx sender remaining).getAccount a).code = r ∧
      (a ≠ sender → (((creationFrame tx a).commit r .empty w').refund tx sender
        remaining).getBalance a = s.world.getBalance a + tx.value) := by
  have hcommit : (creationFrame tx a).commit r .empty w' = w'.setCode a r := rfl
  rw [hcommit]
  constructor
  · rw [field_refund Account.code (fun _ _ => rfl), WorldState.setCode]
    simp
  · intro hne
    have hpaid := getBalance_payValue_of_ne hne hv hpay
    rw [WorldState.getBalance, getAccount_refund_of_ne hne]
    rw [← WorldState.getBalance, getBalance_setCode, hpaid, WorldState.getBalance, hw,
      getAccount_bill_of_ne hne]
    rfl

theorem deployed_or_not (hmemory : 256 < env.bufferLimit) (hfuel : 8 ≤ fuel)
    (hn : n.toNat = r.length) (hdata : tx.data = initHeader n ++ r) (hto : tx.to = [])
    (hvalid : Valid env tx s.world blockGasLimit sender)
    (ha : computeContractAddress env sender tx.nonce = .ok a) :
    ∃ result s', applyTransaction env fuel tx blockGasLimit s = .ok result s' ∧
      (18 ≤ tx.executionGas → Deployed tx sender a r s s' result) ∧
      (tx.executionGas < 18 → NotDeployed tx sender a s s' result) := by
  have ht : Opens env tx sender (s.world.bill tx sender) (creationFrame tx a) _ :=
    .creation hto ha
  obtain ⟨w', hpay⟩ := hvalid.payValue_opens ht
  let F : Setting := ⟨(creationFrame tx a).context tx sender tx.executionGas, some w'⟩
  have hstart : (creationFrame tx a).start tx sender tx.executionGas w' s.log =
      F.state (initHeader n ++ r) 0 [] .empty .empty tx.executionGas
        (s.log ++ [.enter .creation F.context]) := by
    rw [← hdata]
    rfl
  have hcharged := costs_initCode F hmemory hn .empty fuel tx.executionGas
    (s.log ++ [.enter .creation F.context]) hfuel
  rw [← hstart] at hcharged
  generalize hc : runLoop env fuel _ = c at hcharged
  cases hcharged with
  | @paid evm hpaid hremaining hworld hlog hQ =>
    obtain ⟨hreverted, hreturn, hstorage⟩ := hQ
    rw [totalCost_headerOps] at hpaid
    refine ⟨_, _, applyTransaction_of_success hvalid ht hpay hc hreverted, fun _ => ?_,
      fun hlt => absurd hpaid (not_le.mpr hlt)⟩
    rw [hreturn, hstorage, hworld, Option.getD_some]
    obtain ⟨hcode, hbalance⟩ := getAccount_created (r := r) hvalid.nonNegative.value
      ht.getAccount_eq hpay evm.gasRemaining
    refine ⟨rfl, rfl, hcode, hbalance, ?_⟩
    dsimp only
    rw [hlog]
    exact append_creationLog s.log headerOps .success
  | unpaid ops hunpaid hops hlog =>
    rw [totalCost_headerOps] at hunpaid
    refine ⟨_, _, applyTransaction_of_none hvalid ht hpay (runFrame_of_outOfGas hc),
      fun hle => absurd hunpaid (not_lt.mpr hle), fun _ => ?_⟩
    refine ⟨rfl, rfl, field_bill Account.code (fun _ _ _ => rfl), ops, hops, ?_⟩
    dsimp only
    rw [hlog]
    exact append_creationLog s.log ops .outOfGas

/-- A creation with the init code of `r` deploys `r` at the derived address if its gas covers 18
more than the intrinsic gas. With less it fails and stores no code anywhere. In both cases nothing
of `r` has run. -/
theorem deployment_round_trip (env : Env) (hmemory : 256 < env.bufferLimit) (r : Bytes)
    (hr : r.length ≤ 255) :
    ∃ initCode, buildInitCode r = .ok initCode ∧
      ∀ (fuel : Nat) (tx : Transaction) (blockGasLimit : Int) (s : TxState) (sender : Bytes),
        8 ≤ fuel → tx.data = initCode → tx.to = [] →
        validateTransaction env tx s.world blockGasLimit = .ok sender →
        ∃ a result s', computeContractAddress env sender tx.nonce = .ok a ∧
          applyTransaction env fuel tx blockGasLimit s = .ok result s' ∧
          (calculateIntrinsicGas tx.data + 18 ≤ tx.gas → Deployed tx sender a r s s' result) ∧
          (tx.gas < calculateIntrinsicGas tx.data + 18 → NotDeployed tx sender a s s' result) := by
  obtain ⟨n, hn, hbuild⟩ := buildInitCode_of_le hr
  refine ⟨_, hbuild, ?_⟩
  intro fuel tx blockGasLimit s sender hfuel hdata hto hvalidate
  have hvalid := validateTransaction_eq_ok_iff.mp hvalidate
  obtain ⟨a, ha⟩ := computeContractAddress_of_nonneg env hvalid.nonNegative.nonce sender
  obtain ⟨result, s', happly, hdeployed, hfailed⟩ :=
    deployed_or_not hmemory hfuel hn hdata hto hvalid ha
  have hgas : tx.executionGas = tx.gas - calculateIntrinsicGas tx.data := rfl
  refine ⟨a, result, s', ha, happly, fun hle => ?_, fun hlt => ?_⟩
  · apply hdeployed
    omega
  · apply hfailed
    omega

end Transactions

section Sample

/-- A deployment of a `JUMPDEST` and half a `PUSH1`, with all the gas it needs and no more. -/
def runtimeTransaction : Transaction where
  nonce := 0
  gasPrice := 1
  gas := 21218
  «to» := []
  value := 5
  data := [0x60, 2, 0x60, 12, 0x60, 0, 0x39, 0x60, 2, 0x60, 0, 0xf3, 0x5b, 0x60]
  v := 27
  r := 43300033216973036088651272772747378094079555116596168329588471486926070996785
  s := 27044160337208771589290677510967826268443411097653809490254835764293340909871

def runtimeTransactionHash : Bytes :=
  [0x3c, 0xbb, 0x3f, 0xa2, 0x88, 0xe8, 0x01, 0xcd, 0xd3, 0xbd, 0x76, 0x63, 0xb0, 0x5d, 0xfb, 0xc8,
    0x1f, 0x17, 0xea, 0xa7, 0x9d, 0x32, 0x40, 0x22, 0x53, 0xba, 0x6d, 0x81, 0x75, 0x6d, 0x8f, 0x51]

def runtimeEnv : Env := .ofTables
  [(rlpEncode (.list [.bytes [], .bytes [1], .bytes [0x52, 0xe2], .bytes [], .bytes [5],
      .bytes runtimeTransaction.data]), runtimeTransactionHash),
    (rlpEncode (.list [.bytes sampleSender, .bytes []]), deployCreationHash)]
  [((0, runtimeTransaction.r, runtimeTransaction.s, runtimeTransactionHash), sampleSender)]
  (by decide) (by decide)

theorem deployment_round_trip_sample : ∃ result s',
    applyTransaction runtimeEnv 8 runtimeTransaction 100000 { world := sampleWorld [] [] } =
      .ok result s' ∧
    (s'.world.getAccount (deployCreationHash.drop 12)).code = [0x5b, 0x60] ∧
    s'.world.getBalance (deployCreationHash.drop 12) = 5 := by
  obtain ⟨initCode, hbuild, hround⟩ := deployment_round_trip runtimeEnv (by decide) [0x5b, 0x60]
    (by decide)
  obtain ⟨a, result, s', ha, happly, hdeployed, -⟩ := hround 8 runtimeTransaction 100000
    { world := sampleWorld [] [] } sampleSender le_rfl (Except.ok.inj hbuild) rfl
    (by decide +kernel)
  obtain rfl : deployCreationHash.drop 12 = a := Except.ok.inj ha
  have h := hdeployed (by decide)
  refine ⟨result, s', happly, h.code, (h.balance (by decide)).trans ?_⟩
  decide

end Sample

end Ethereum
