import Ethereum.Contracts.Counter
import Ethereum.Core.PlainTransfer
import Ethereum.Core.Replay
import Ethereum.Core.Storage
import Ethereum.Core.TopFrame
import Ethereum.Core.Transition

/-! The counter contract over runs of transactions: rollback, write-back and what is returned. -/
namespace Ethereum

open Stateful Sequencing

/-- A successful `increment()`. -/
def Submission.increments (x : Submission) : Bool :=
  match x.result with
  | none => false
  | some result => result.success && x.tx.data.take 4 == incrementSelectorBytes

/-- What one transaction does to a counter at `C`, and what it returns if it is accepted. -/
structure CounterStep (C : Bytes) (s : TxState) (x : Submission) (s' : TxState) : Prop where
  code : (s'.world.getAccount C).code = (s.world.getAccount C).code
  count : s'.world.getStorage C 0 =
    if x.increments then (s.world.getStorage C 0 + 1) % 2 ^ 256 else s.world.getStorage C 0
  other : ∀ k, k ≠ 0 → s'.world.getStorage C k = s.world.getStorage C k
  counted : ∀ result, x.result = some result → x.tx.data.take 4 = getCountSelectorBytes →
    result.success = true →
      result.returnData = BigEndian.toBytes 32 (s.world.getStorage C 0).toNat ∧
        s'.world.getStorage = s.world.getStorage
  unknown : ∀ result, x.result = some result → x.tx.data.take 4 ≠ incrementSelectorBytes →
    x.tx.data.take 4 ≠ getCountSelectorBytes → result.success = false

variable {env : Env} {fuel : Nat} {tx : Transaction} {sender C : Bytes} {blockGasLimit : Int}
  {s s' : TxState} {result : TransactionResult} {x : Submission}

/-- A transaction that fails is billed and leaves code and storage alone. -/
theorem counterStep_of_failed (hsuccess : result.success = false)
    (hworld : s'.world = s.world.bill tx sender) :
    CounterStep C s ⟨tx, blockGasLimit, some result⟩ s' := by
  have hcode : (s'.world.getAccount C).code = (s.world.getAccount C).code := by
    rw [hworld]
    exact field_bill Account.code (fun _ _ _ => rfl) C
  have hstorage : s'.world.getStorage = s.world.getStorage := by rw [hworld, getStorage_bill]
  have hincrements : (⟨tx, blockGasLimit, some result⟩ : Submission).increments = false := by
    simp [Submission.increments, hsuccess]
  refine ⟨hcode, ?_, fun k _ => by rw [hstorage], ?_, ?_⟩
  · rw [hstorage, hincrements, if_neg Bool.false_ne_true]
  · rintro _ ⟨⟩ - h
    rw [hsuccess] at h
    cases h
  · rintro _ ⟨⟩ - -
    exact hsuccess

/-- A transaction that succeeds writes back what the bytecode has left in the storage. -/
theorem counterStep_of_success {w : WorldState} {gas : Int} {storage storage' : Dict Int Int}
    (hsuccess : result.success = true)
    (hcall : CounterCall tx.data storage false result.returnData storage')
    (hcode : (w.getAccount C).code = (s.world.getAccount C).code)
    (hw : w.getStorage = s.world.getStorage)
    (hstorage : storage = (s.world.getAccount C).storage)
    (hworld : s'.world = (w.persistStorage C storage').refund tx sender gas) :
    CounterStep C s ⟨tx, blockGasLimit, some result⟩ s' := by
  have hcode' : (s'.world.getAccount C).code = (s.world.getAccount C).code := by
    rw [hworld, field_refund Account.code (fun _ _ => rfl),
      WorldState.field_persistStorage Account.code (fun _ _ => rfl), hcode]
  have hslots : s'.world.getStorage = Function.update s.world.getStorage C fun k =>
      (storage'.get? k).getD (s.world.getStorage C k) := by
    rw [hworld, getStorage_refund, getStorage_persistStorage, hw]
  have hself : ∀ k, (storage.get? k).getD (s.world.getStorage C k) = s.world.getStorage C k := by
    intro k
    rw [hstorage, WorldState.getStorage, Dict.getD]
    cases (s.world.getAccount C).storage.get? k <;> rfl
  generalize hdata : result.returnData = returnData at hcall
  cases hcall with
  | incremented hselector =>
    have hslot : ∀ k, s'.world.getStorage C k =
        if k = 0 then (1 + storage.getD 0 0) % modValue else s.world.getStorage C k := by
      intro k
      rw [hslots, Function.update_self, Dict.get?_set]
      split
      · rfl
      · exact hself k
    have hincrements : (⟨tx, blockGasLimit, some result⟩ : Submission).increments = true := by
      simp [Submission.increments, hsuccess, hselector]
    refine ⟨hcode', ?_, fun k hk => ?_, ?_, fun _ _ h => absurd hselector h⟩
    · rw [hslot, if_pos rfl, if_pos hincrements, hstorage, add_comm]
      rfl
    · rw [hslot, if_neg hk]
    · intro _ _ h
      exact absurd (hselector.symm.trans h) (by decide)
  | counted hselector =>
    have hsame : s'.world.getStorage = s.world.getStorage := by
      rw [hslots, funext hself, Function.update_eq_self]
    have hincrements : ¬ (⟨tx, blockGasLimit, some result⟩ : Submission).increments = true := by
      dsimp only [Submission.increments]
      rw [hselector, Bool.and_eq_true]
      exact fun h => absurd h.2 (by decide)
    refine ⟨hcode', ?_, fun k _ => by rw [hsame], ?_, fun _ _ _ h => absurd hselector h⟩
    · rw [hsame, if_neg hincrements]
    · rintro _ ⟨⟩ - -
      rw [hdata, hstorage]
      exact ⟨rfl, hsame⟩

theorem counter_frame {context : ExecutionContext} {storage : Dict Int Int} {w : WorldState}
    {log : List Event} {evm : EVM} (hword : Word (storage.getD 0 0))
    (h : Run env (EVM.init counterRuntimeBytecode context storage (some w) log) (.ok () evm)) :
    evm.worldState = some w ∧
      CounterCall context.data storage evm.reverted evm.returnData evm.storage := by
  have hends := wp_counter (F := ⟨context, some w⟩) env hword context.gas log _ h
  exact ⟨hends.world, hends.ok evm rfl⟩

theorem counterStep_of_applyTransaction (hC : C ≠ [])
    (hcode : (s.world.getAccount C).code = counterRuntimeBytecode)
    (hword : Word (s.world.getStorage C 0)) (hto : tx.to = C)
    (h : applyTransaction env fuel tx blockGasLimit s = .ok result s') :
    CounterStep C s ⟨tx, blockGasLimit, some result⟩ s' := by
  subst hto
  obtain ⟨sender, hvalid⟩ := (transition_of_applyTransaction h).valid
  obtain ⟨w', hpay⟩ := hvalid.payValue_bill tx.to
  have hbilled : ((s.world.bill tx sender).getAccount tx.to).code = counterRuntimeBytecode :=
    (field_bill Account.code (fun _ _ _ => rfl) tx.to).trans hcode
  have hstorage : ((s.world.bill tx sender).getAccount tx.to).storage =
      (s.world.getAccount tx.to).storage := field_bill Account.storage (fun _ _ _ => rfl) tx.to
  have ht : Opens env tx sender (s.world.bill tx sender) (messageFrame tx _) _ :=
    .message hC (by rw [hbilled]; decide)
  have hrun := run_runLoop env fuel ((messageFrame tx (s.world.bill tx sender)).start tx sender
    tx.executionGas w' s.log)
  cases hc : runLoop env fuel ((messageFrame tx (s.world.bill tx sender)).start tx sender
      tx.executionGas w' s.log) with
  | error e evm =>
    obtain ⟨hsuccess, -, hworld⟩ := billed_of_error hvalid ht hpay hc h
    exact counterStep_of_failed hsuccess hworld
  | ok u evm =>
    rw [hc] at hrun
    obtain ⟨hworld, hcall⟩ : evm.worldState = some w' ∧
        CounterCall tx.data (s.world.getAccount tx.to).storage evm.reverted evm.returnData
          evm.storage := by
      unfold TopFrame.start messageFrame at hrun
      dsimp only at hrun
      rw [hbilled, hstorage] at hrun
      exact counter_frame hword hrun
    cases hreverted : evm.reverted with
    | true =>
      rw [applyTransaction_of_reverted hvalid ht hpay hc hreverted] at h
      cases h
      exact counterStep_of_failed rfl rfl
    | false =>
      rw [applyTransaction_of_success hvalid ht hpay hc hreverted] at h
      cases h
      rw [hreverted] at hcall
      have hcode' : (w'.getAccount tx.to).code = (s.world.getAccount tx.to).code :=
        (field_payValue Account.code (fun _ _ => rfl) hpay tx.to).trans (hbilled.trans hcode.symm)
      have hslots : w'.getStorage = s.world.getStorage :=
        (getStorage_payValue hpay).trans (getStorage_bill sender)
      have hfinal : ((messageFrame tx (s.world.bill tx sender)).commit evm.returnData evm.storage
          (evm.worldState.getD w')).refund tx sender evm.gasRemaining =
          (w'.persistStorage tx.to evm.storage).refund tx sender evm.gasRemaining := by
        rw [hworld]
        rfl
      exact counterStep_of_success rfl hcall hcode' hslots rfl hfinal

/-- The step of a run: one transaction to the counter, unless it is rejected. -/
theorem counterStep_of_submit (hC : C ≠ [])
    (hcode : (s.world.getAccount C).code = counterRuntimeBytecode)
    (hword : Word (s.world.getStorage C 0)) (hto : x.accepted = true → x.tx.to = C)
    (h : Submit env s x s') : CounterStep C s x s' := by
  cases h with
  | accepted h => exact counterStep_of_applyTransaction hC hcode hword (hto rfl) h
  | rejected h =>
    obtain rfl := state_of_rejected h
    exact ⟨rfl, rfl, fun _ _ => rfl, nofun, nofun⟩

section Runs

variable {submissions : List Submission}

/-- What a run of transactions to the counter comes to. -/
theorem counter_run (hC : C ≠ []) (h : History (Submit env) s submissions s')
    (hcode : (s.world.getAccount C).code = counterRuntimeBytecode)
    (hword : Word (s.world.getStorage C 0))
    (hto : ∀ x ∈ submissions, x.accepted = true → x.tx.to = C) :
    (s'.world.getAccount C).code = counterRuntimeBytecode ∧
      s'.world.getStorage C 0 =
        (s.world.getStorage C 0 + submissions.countP Submission.increments) % 2 ^ 256 ∧
      ∀ k, k ≠ 0 → s'.world.getStorage C k = s.world.getStorage C k := by
  induction h with
  | nil =>
    refine ⟨hcode, ?_, fun _ _ => rfl⟩
    rw [List.countP_nil, Nat.cast_zero, add_zero, Int.emod_eq_of_lt hword.nonneg hword.lt]
  | @cons s t u x l hs _ ih =>
    have hstep := counterStep_of_submit hC hcode hword (hto x List.mem_cons_self) hs
    have hwordt : Word (t.world.getStorage C 0) := by
      rw [hstep.count]
      exact word_ite (word_emod _) hword
    obtain ⟨hcodeu, hcount, hother⟩ := ih (hstep.code.trans hcode) hwordt
      fun y hy => hto y (List.mem_cons_of_mem _ hy)
    refine ⟨hcodeu, ?_, fun k hk => (hother k hk).trans (hstep.other k hk)⟩
    rw [hcount, hstep.count, List.countP_cons]
    cases x.increments with
    | false => rfl
    | true =>
      simp only [if_true, Nat.cast_add, Nat.cast_one]
      omega

/-- Slot 0 counts the successful increments modulo `2 ^ 256`, no other slot changes, `getCount`
returns slot 0 and changes nothing, and calls of anything else fail. -/
theorem counter_over_runs (env : Env) (C : Bytes) (v : Int) (s s' : TxState)
    (submissions : List Submission) (hC : C ≠ [])
    (hcode : (s.world.getAccount C).code = counterRuntimeBytecode)
    (hslot : s.world.getStorage C 0 = v) (hnonneg : 0 ≤ v) (hlt : v < 2 ^ 256)
    (hto : ∀ x ∈ submissions, x.accepted = true → x.tx.to = C)
    (h : History (Submit env) s submissions s') :
    s'.world.getStorage C 0 = (v + submissions.countP Submission.increments) % 2 ^ 256 ∧
      (∀ k, k ≠ 0 → s'.world.getStorage C k = s.world.getStorage C k) ∧
      ∀ earlier x later t t' result, submissions = earlier ++ x :: later →
        History (Submit env) s earlier t → Submit env t x t' → x.result = some result →
        (x.tx.data.take 4 = getCountSelectorBytes → result.success = true →
          result.returnData = BigEndian.toBytes 32 (t.world.getStorage C 0).toNat ∧
            t'.world.getStorage = t.world.getStorage) ∧
        (x.tx.data.take 4 ≠ incrementSelectorBytes → x.tx.data.take 4 ≠ getCountSelectorBytes →
          result.success = false) := by
  subst hslot
  obtain ⟨-, hcount, hother⟩ := counter_run hC h hcode ⟨hnonneg, hlt⟩ hto
  refine ⟨hcount, hother, fun earlier x later t t' result hsplit hearlier hx hresult => ?_⟩
  rw [hsplit] at hto
  obtain ⟨hcodet, hcountt, -⟩ := counter_run hC hearlier hcode ⟨hnonneg, hlt⟩
    fun y hy => hto y (List.mem_append_left _ hy)
  have hwordt : Word (t.world.getStorage C 0) := by
    rw [hcountt]
    exact word_emod _
  have hstep := counterStep_of_submit hC hcodet hwordt
    (hto x (List.mem_append_right _ List.mem_cons_self)) hx
  exact ⟨hstep.counted result hresult, hstep.unknown result hresult⟩

section Sample

def incrementTransaction : Transaction where
  nonce := 0
  gasPrice := 1
  gas := 100000
  «to» := sampleContract
  value := 0
  data := incrementSelectorBytes
  v := 27
  r := 104453426533537156251248995763183411610064937476451534477062187472746908072024
  s := 1006508563923569519508601258694383354369096059380533167084666935874200881109

def incrementTransactionHash : Bytes :=
  [0x8a, 0x73, 0x4b, 0x37, 0x6c, 0xa3, 0x1b, 0xd8, 0x3c, 0x5b, 0x00, 0xbb, 0x4b, 0xc0, 0x92, 0x8d,
    0x0e, 0xfd, 0x2d, 0x7c, 0xd0, 0xec, 0x14, 0xa9, 0x7f, 0x7b, 0x7d, 0x5a, 0x51, 0xe8, 0x3a, 0x67]

def getCountTransaction : Transaction where
  nonce := 1
  gasPrice := 1
  gas := 100000
  «to» := sampleContract
  value := 0
  data := getCountSelectorBytes
  v := 28
  r := 34677873944174985390444101417493039101496119771292773614035610481219964182407
  s := 23092345873223001806887264411826761386681066029424237632736640003813096601327

def getCountTransactionHash : Bytes :=
  [0x42, 0xc5, 0x3b, 0x66, 0xfa, 0xbb, 0x64, 0x2c, 0xe0, 0x04, 0xbe, 0xb6, 0xfc, 0x36, 0x1a, 0x3d,
    0xc2, 0x4c, 0x40, 0xaf, 0x7c, 0xc3, 0x85, 0xf6, 0xd3, 0xf4, 0xc2, 0x49, 0x9c, 0x11, 0x04, 0xdc]

def counterEnv : Env := .ofTables
  [(rlpEncode (.list [.bytes [], .bytes [1], .bytes [0x01, 0x86, 0xa0], .bytes sampleContract,
      .bytes [], .bytes incrementSelectorBytes]), incrementTransactionHash),
    (rlpEncode (.list [.bytes [1], .bytes [1], .bytes [0x01, 0x86, 0xa0], .bytes sampleContract,
      .bytes [], .bytes getCountSelectorBytes]), getCountTransactionHash)]
  [((0, incrementTransaction.r, incrementTransaction.s, incrementTransactionHash), sampleSender),
    ((1, getCountTransaction.r, getCountTransaction.s, getCountTransactionHash), sampleSender)]
  (by decide) (by decide)

/-- The sample contract is the counter and stands at 41. -/
def counterState : TxState where
  world := (sampleWorld counterRuntimeBytecode []).setStorage sampleContract 0 41

/-- An increment, and the count that is returned after it. -/
theorem counter_over_runs_sample : ∃ result result' s',
    History (Submit counterEnv) counterState
      [⟨incrementTransaction, 100000, some result⟩, ⟨getCountTransaction, 100000, some result'⟩]
      s' ∧
    s'.world.getStorage sampleContract 0 = 42 ∧
    result'.returnData = BigEndian.toBytes 32 42 := by
  obtain ⟨⟨result, result'⟩, s', hrun, hp⟩ := exists_of_returns
    (p := fun (results : TransactionResult × TransactionResult) (_ : TxState) =>
      results.1.success && results.2.success)
    (r := (do
      let result ← applyTransaction counterEnv 100 incrementTransaction 100000
      let result' ← applyTransaction counterEnv 100 getCountTransaction 100000
      return (result, result') : TxM _) counterState)
    (by decide +kernel)
  obtain ⟨hsuccess, hsuccess'⟩ : result.success = true ∧ result'.success = true :=
    Bool.and_eq_true_iff.mp hp
  obtain ⟨_, t, hfirst, hrest⟩ := ok_of_bind_apply hrun
  obtain ⟨_, t', hsecond, hpure⟩ := ok_of_bind_apply hrest
  cases hpure
  have hincrement := History.single (Submit.accepted hfirst)
  have hhistory := hincrement.append (.single (Submit.accepted hsecond))
  have hcounts : Submission.increments ⟨incrementTransaction, 100000, some result⟩ = true ∧
      Submission.increments ⟨getCountTransaction, 100000, some result'⟩ = false := by
    simp only [Submission.increments, hsuccess, hsuccess']
    exact ⟨rfl, rfl⟩
  have hone := counter_over_runs counterEnv sampleContract 41 counterState t _ (by decide)
    (by decide +kernel) (by decide +kernel) (by decide) (by decide)
    (by simp [incrementTransaction]) hincrement
  have htwo := counter_over_runs counterEnv sampleContract 41 counterState s' _ (by decide)
    (by decide +kernel) (by decide +kernel) (by decide) (by decide)
    (by simp [incrementTransaction, getCountTransaction]) hhistory
  have hcount : t.world.getStorage sampleContract 0 = 42 := by
    rw [hone.1]
    simp [hcounts.1]
  obtain ⟨hdata, -⟩ :=
    (htwo.2.2 _ _ [] t s' _ rfl hincrement (.accepted hsecond) rfl).1 rfl hsuccess'
  refine ⟨result, result', s', hhistory, ?_, ?_⟩
  · rw [htwo.1]
    simp [hcounts.1, hcounts.2]
  · rw [hdata, hcount]
    rfl

end Sample

end Runs

end Ethereum
