import Ethereum.Core.PlainTransfer
import Ethereum.Core.TopFrame
import Ethereum.Core.WordLedger
import Ethereum.Core.Words
import Ethereum.Evm.WordFrames

/-! The state transition refines the ledger of words, over any list of transactions. -/
namespace Ethereum

open Stateful Relational WordMachine

namespace WordLedger

variable {env : Env} {fuel : Nat} {tx : Transaction} {sender : Bytes} {blockGasLimit : Int}
  {s : TxState} {w w' : WorldState} {v v' : WordWorld}

/-- What is returned or raised, without the text of an error. -/
inductive Reports : Except Abort TransactionResult → Except TransactionError WordVerdict → Prop
  | rejected {e} : Reports (.error (.raised (.transactionError e))) (.error e)
  | accepted {result : TransactionResult} {verdict : WordVerdict}
      (hsuccess : result.success = verdict.success)
      (hreturnData : result.returnData = verdict.returnData)
      (hused : result.gasUsed = verdict.gasUsed)
      (hremaining : result.gasRemaining = verdict.gasRemaining)
      (herror : result.error.isSome = !verdict.success)
      (hcontract : result.contractAddress = verdict.contractAddress) :
      Reports (.ok result) (.ok verdict)

theorem raised_of_reports {e : Abort} {x : Except TransactionError WordVerdict}
    (h : Reports (.error e) x) : ∃ e', e = .raised (.transactionError e') := by
  cases h with
  | @rejected e' => exact ⟨e', rfl⟩

section Worlds

theorem validateTransaction_eq (h : ShowsWorld w v) :
    validateTransaction env tx w blockGasLimit = WordLedger.validate env tx v blockGasLimit := by
  unfold validateTransaction WordLedger.validate
  cases recoverSender env tx with
  | error reason => rfl
  | ok sender =>
    dsimp only
    rw [(h sender).nonce, (h sender).balance]

theorem upfront_natCast (h : Valid env tx w blockGasLimit sender) :
    tx.gas * tx.gasPrice = (tx.gas.toNat * tx.gasPrice.toNat : Nat) := by
  have hgas := Int.toNat_of_nonneg h.nonNegative.gas
  have hprice := Int.toNat_of_nonneg h.nonNegative.gasPrice
  rw [Int.natCast_mul, hgas, hprice]

theorem shows_bill (h : ShowsWorld w v) (hvalid : Valid env tx w blockGasLimit sender) :
    ShowsWorld (w.bill tx sender) (WordLedger.bill tx sender v) := by
  have hupfront := hvalid.upfront_le
  have hbalance : w.getBalance sender = (v sender).balance := (h sender).balance
  rw [upfront_natCast hvalid, hbalance] at hupfront
  rw [WorldState.bill, upfront_natCast hvalid]
  exact (h.debit (Int.ofNat_le.mp hupfront)).bump sender

theorem shows_refund (h : ShowsWorld w v) (hprice : 0 ≤ tx.gasPrice) (gasRemaining : Nat) :
    ShowsWorld (w.refund tx sender gasRemaining)
      (v.credit sender (gasRemaining * tx.gasPrice.toNat)) := by
  have hrefund : (gasRemaining : Int) * tx.gasPrice =
      (gasRemaining * tx.gasPrice.toNat : Nat) := by
    rw [Int.natCast_mul, Int.toNat_of_nonneg hprice]
  rw [WorldState.refund, hrefund]
  split
  · exact h.credit sender _
  · next hzero =>
    have hnone : gasRemaining * tx.gasPrice.toNat = 0 := by omega
    rw [hnone, ShowsWorld.credit_zero]
    exact h

end Worlds

section Frames

variable {t : TopFrame} {start : EVM}

theorem address_of_opens (ht : Opens env tx sender w t w') (hnonce : 0 ≤ tx.nonce) :
    t.address = (input env tx sender v).address := by
  cases ht with
  | message hto hcode => exact (if_neg hto).symm
  | creation hto ha =>
    have hnat : tx.nonce = (tx.nonce.toNat : Nat) := (Int.toNat_of_nonneg hnonce).symm
    rw [hnat, computeContractAddress_natCast] at ha
    cases ha
    exact (if_pos hto).symm

theorem code_of_opens (ht : Opens env tx sender w t w') (h : ShowsWorld w v) :
    t.code = (input env tx sender v).code := by
  cases ht with
  | message hto hcode => exact (h tx.to).code.trans (if_neg hto).symm
  | creation hto ha => exact (if_pos hto).symm

theorem data_of_opens (ht : Opens env tx sender w t w') :
    t.data = (input env tx sender v).data := by
  cases ht with
  | message hto hcode => exact (if_neg hto).symm
  | creation hto ha => exact (if_pos hto).symm

theorem cells_of_opens (ht : Opens env tx sender w t w') (h : ShowsWorld w v) :
    ShowsCells t.storage (cells tx v) := by
  cases ht with
  | message hto hcode =>
    rw [cells, if_neg hto]
    exact (h tx.to).cells
  | creation hto ha =>
    rw [cells, if_pos hto]
    exact showsCells_empty

/-- A transaction starts its frame where the machine starts. -/
theorem shows_opened (ht : Opens env tx sender w t w') (h : ShowsWorld w v)
    (hnonce : 0 ≤ tx.nonce) {paid : WorldState} {paid' : WordWorld} (hpaid : ShowsWorld paid paid')
    {log : List Event} (hr : (t.start tx sender tx.executionGas paid log).InRange) :
    Shows env (input env tx sender v) (t.start tx sender tx.executionGas paid log)
      { cells := cells tx v, world := some paid', gas := (input env tx sender v).gas } := by
  have hcode := code_of_opens ht h
  have hdata := data_of_opens ht (v := v)
  have haddress := address_of_opens ht hnonce (v := v)
  have hgas : tx.executionGas = (tx.executionGas.toNat : Nat) :=
    (Int.toNat_of_nonneg hr.gas.nonneg).symm
  have hvalue : tx.value = _ := stands_word hr.value
  have hlt : tx.executionGas < 2 ^ 256 := hr.gas.lt
  have hfits : Fits (input env tx sender v) :=
    ⟨hcode ▸ hr.code, hdata ▸ hr.data, haddress ▸ hr.address, hr.caller,
      show tx.executionGas.toNat < 2 ^ 256 by omega⟩
  refine shows_init hfits hcode ?_ (cells_of_opens ht h) (.some hpaid)
  rw [TopFrame.context, ← haddress, ← hdata]
  exact congrArg₂ (fun value gas => (⟨sender, t.address, value, t.data, gas⟩ : ExecutionContext))
    hvalue hgas

end Frames

section Transactions

/-- A call of `apply_transaction` and what the ledger makes of it. -/
structure Answered (r : EStateM.Result Abort TxState TransactionResult) (a : WordAnswer) :
    Prop where
  reports : Reports (answer r) a.1
  world : ShowsWorld (final r).world a.2

/-- The sender is billed for all gas, and nothing else happens. -/
theorem answered_failed (h : ShowsWorld w v) (hgas : 0 ≤ tx.gas) {s' : TxState}
    (hworld : s'.world = w) (returnData : Bytes) (text : String) :
    Answered (.ok ⟨false, returnData, tx.gas, 0, some text, none⟩ s') (failed tx v returnData) where
  reports := .accepted rfl rfl (Int.toNat_of_nonneg hgas).symm rfl rfl rfl
  world := by
    subst hworld
    exact h

theorem answered_succeeded (h : ShowsWorld w v) (hgas : 0 ≤ tx.gas) (hprice : 0 ≤ tx.gasPrice)
    {gasRemaining : Nat} (hle : gasRemaining ≤ tx.gas.toNat) {s' : TxState}
    (hworld : s'.world = w.refund tx sender gasRemaining) (returnData : Bytes)
    (contractAddress : Option Bytes) :
    Answered (.ok ⟨true, returnData, tx.gas - gasRemaining, gasRemaining, none, contractAddress⟩ s')
      (succeeded tx sender v gasRemaining returnData contractAddress) where
  reports := by
    refine .accepted rfl rfl ?_ rfl rfl rfl
    change tx.gas - gasRemaining = (tx.gas.toNat - gasRemaining : Nat)
    omega
  world := by
    rw [final_ok, hworld]
    exact shows_refund h hprice gasRemaining

theorem answered_plain (h : ShowsWorld s.world v)
    (hvalid : Valid env tx s.world blockGasLimit sender)
    (hplain : tx.to ≠ [] ∧ (bill tx sender v tx.to).code = []) :
    Answered (applyTransaction env fuel tx blockGasLimit s)
      (execute env tx sender fuel (bill tx sender v)) := by
  have hbill := shows_bill h hvalid
  have hfrugal := hvalid.nonNegative
  have hvalue : tx.value = tx.value.toNat := (Int.toNat_of_nonneg hfrugal.value).symm
  rw [execute, if_pos hplain]
  obtain ⟨w', hpay⟩ := hvalid.payValue_bill tx.to
  rw [hvalue] at hpay
  cases hbill.pay sender tx.to tx.value.toNat with
  | refused hw hv => cases hpay.symm.trans hw
  | paid hw hv hpaid =>
    rw [← hvalue] at hw
    have hexec : executeTransaction env fuel tx sender tx.executionGas
        { s with world := s.world.bill tx sender } = _ :=
      executeTransaction_of_plain ⟨hplain.1, (hbill tx.to).code.trans hplain.2⟩ hw
    have hleft : tx.executionGas = (tx.executionGas.toNat : Nat) :=
      (Int.toNat_of_nonneg hvalid.executionGas_nonneg).symm
    have hle : tx.executionGas.toNat ≤ tx.gas.toNat := Int.toNat_le_toNat tx.executionGas_le
    rw [applyTransaction_of_ok hvalid hexec, settleTransaction_success rfl, hv]
    dsimp only
    rw [hleft]
    exact answered_succeeded hpaid hfrugal.gas hfrugal.gasPrice hle rfl [] none

theorem shows_commit {t : TopFrame} {w₀ w₁ : WorldState}
    (ht : Opens env tx sender w₀ t w₁) (h : ShowsWorld w v)
    {evm : EVM} {m : WordMachine} (hcells : ShowsCells evm.storage m.cells)
    (hshort : Short m.returnData) :
    ShowsWorld (t.commit m.returnData evm.storage w) (commit tx v t.address m) := by
  cases ht with
  | message hto hcode =>
    rw [TopFrame.commit, commit, if_neg hto, if_neg (by simp [messageFrame])]
    exact h.persist tx.to hcells
  | @creation c hto ha =>
    have hkind : (creationFrame tx c).kind = .creation := rfl
    rw [TopFrame.commit, commit, if_pos hto, if_pos hkind]
    exact (h.deploy _ hshort).persist _ hcells

theorem exists_opens (env : Env) (sender : Bytes) (hnonce : 0 ≤ tx.nonce)
    (h : tx.to ≠ [] → (w.getAccount tx.to).code ≠ []) : ∃ t w₁, Opens env tx sender w t w₁ := by
  by_cases hto : tx.to = []
  · have haddress : computeContractAddress env sender tx.nonce.toNat = .ok _ :=
      computeContractAddress_natCast sender tx.nonce.toNat
    rw [Int.toNat_of_nonneg hnonce] at haddress
    exact ⟨_, _, .creation hto haddress⟩
  · exact ⟨_, _, .message hto (h hto)⟩

theorem finish_of_reverted {m : WordMachine} (a : Bytes) (h : m.reverted = true) :
    finish tx sender v a (.ok () m) = failed tx v m.returnData := if_pos h

theorem finish_of_success {m : WordMachine} (a : Bytes) (h : m.reverted = false) :
    finish tx sender v a (.ok () m) = succeeded tx sender (commit tx (m.world.getD v) a m) m.gas
      m.returnData (if tx.to = [] then some a else none) :=
  if_neg (by simp [h])

theorem kind_of_opens {t : TopFrame} (ht : Opens env tx sender w t w') :
    t.kind = .creation ↔ tx.to = [] := by
  cases ht with
  | message hto hcode => simp [messageFrame, hto]
  | creation hto ha => simp [creationFrame, hto]

section Ends

variable {t : TopFrame} {w₁ w₂ : WorldState} {I : Input} {evm : EVM} {m : WordMachine}
  (hvalid : Valid env tx s.world blockGasLimit sender)
  (ht : Opens env tx sender (s.world.bill tx sender) t w₁)
  (hpay : payValue w₁ sender t.address tx.value = .ok w₂)
  (h : ShowsWorld (s.world.bill tx sender) v)

include hvalid ht hpay h

theorem answered_returned
    (hc : runLoop env fuel (t.start tx sender tx.executionGas w₂ s.log) = .ok () evm)
    (hend : Shows env I evm m) (hgas : m.gas ≤ tx.gas.toNat) :
    Answered (applyTransaction env fuel tx blockGasLimit s)
      (finish tx sender v t.address (.ok () m)) := by
  have hfrugal := hvalid.nonNegative
  cases hreverted : m.reverted with
  | true =>
    rw [applyTransaction_of_reverted hvalid ht hpay hc (hend.reverted.trans hreverted),
      finish_of_reverted _ hreverted, hend.returnData]
    exact answered_failed h hfrugal.gas rfl _ _
  | false =>
    rw [applyTransaction_of_success hvalid ht hpay hc (hend.reverted.trans hreverted),
      finish_of_success _ hreverted, hend.returnData, hend.gas]
    -- a frame that was given a world state has one at its end
    have hrun := run_runLoop env fuel (t.start tx sender tx.executionGas w₂ s.log)
    rw [hc] at hrun
    obtain ⟨w₃, hw₃, -⟩ := (run_progress hrun).world (entered_start t s.log) w₂ rfl
    rw [final_ok] at hw₃
    have hworld := hend.world
    rw [hw₃] at hworld ⊢
    generalize m.world = o at hworld ⊢
    cases hworld with
    | some hworld =>
      have hcommit := shows_commit ht hworld hend.cells hend.answer_short
      simp only [kind_of_opens ht]
      exact answered_succeeded hcommit hfrugal.gas hfrugal.gasPrice hgas rfl _ _

theorem answered_raised {e : Abort} (f : Fault)
    (hc : runLoop env fuel (t.start tx sender tx.executionGas w₂ s.log) = .error e evm)
    (hraised : e.IsRaised) :
    Answered (applyTransaction env fuel tx blockGasLimit s)
      (finish tx sender v t.address (.error f m)) := by
  have hgas := hvalid.nonNegative.gas
  rcases outOfGas_or_other e with ⟨needed, remaining, rfl⟩ | hother
  · rw [applyTransaction_of_none hvalid ht hpay (runFrame_of_outOfGas hc)]
    exact answered_failed h hgas rfl [] _
  · cases e with
    | outOfFuel => exact absurd rfl hraised
    | raised e =>
      rw [applyTransaction_of_exception hvalid ht hpay hc hother]
      exact answered_failed h hgas rfl [] _

end Ends

theorem answered_frame (hs : s.Sound) (h : ShowsWorld s.world v)
    (hvalid : Valid env tx s.world blockGasLimit sender) (htx : tx.Bounded)
    (hfuel : tx.gas.toNat + 2 ≤ fuel)
    (hplain : ¬ (tx.to ≠ [] ∧ (bill tx sender v tx.to).code = [])) :
    Answered (applyTransaction env fuel tx blockGasLimit s)
      (execute env tx sender fuel (bill tx sender v)) := by
  have hbill := shows_bill h hvalid
  have hfrugal := hvalid.nonNegative
  have hvalue : tx.value = tx.value.toNat := (Int.toNat_of_nonneg hfrugal.value).symm
  have hcontract : tx.to ≠ [] → ((s.world.bill tx sender).getAccount tx.to).code ≠ [] :=
    fun hto hcode => hplain ⟨hto, (hbill tx.to).code.symm.trans hcode⟩
  obtain ⟨t, w₁, ht⟩ := exists_opens env sender hfrugal.nonce hcontract
  have hopened : ShowsWorld w₁ (bill tx sender v) := fun a => ht.getAccount_eq a ▸ hbill a
  have haddress := address_of_opens ht hfrugal.nonce (v := bill tx sender v)
  obtain ⟨w', hpay⟩ := hvalid.payValue_opens ht
  rw [hvalue] at hpay
  rw [execute, if_neg hplain]
  dsimp only
  rw [← haddress]
  cases hopened.pay sender t.address tx.value.toNat with
  | refused hw hv => cases hpay.symm.trans hw
  | @paid w₂ v₂ hw hv hpaid =>
    rw [← hvalue] at hw
    rw [hv]
    dsimp only
    have hstart := (Starts.intro hvalid ht hw).sound hs htx
    have hshown := shows_opened ht hbill hfrugal.nonce hpaid hstart.metered.inRange
    have hagree := simulates_runLoop (input env tx sender (bill tx sender v)) fuel _ _ hshown
    have hexecution := tx.executionGas_le
    have hends : Ends (runLoop env fuel (t.start tx sender tx.executionGas w₂ s.log)) :=
      runLoop_ends fuel _ hstart.metered.inRange
        (show tx.executionGas.toNat + 2 ≤ fuel by omega)
    generalize hc : runLoop env fuel (t.start tx sender tx.executionGas w₂ s.log) = c,
      WordMachine.run env (input env tx sender (bill tx sender v)) fuel _ = c' at hagree hends ⊢
    cases hagree with
    | ok _ hend =>
      exact answered_returned hvalid ht hw hbill hc hend
        (hend.gas_le.trans (Int.toNat_le_toNat hexecution))
    | error he hend => exact answered_raised hvalid ht hw hbill _ hc (hends _ _ rfl)

end Transactions

section Runs

theorem answered_apply (hs : s.Sound) (h : ShowsWorld s.world v) (hlimit : blockGasLimit < 2 ^ 256)
    (hdata : Short tx.data) (hfuel : tx.gas.toNat + 2 ≤ fuel) :
    Answered (applyTransaction env fuel tx blockGasLimit s)
      (apply env fuel v (tx, blockGasLimit)) := by
  have hchecks : validateTransaction env tx s.world blockGasLimit = _ := validateTransaction_eq h
  rw [apply, ← hchecks]
  cases hv : validateTransaction env tx s.world blockGasLimit with
  | error e =>
    rw [applyTransaction_of_invalid fuel hv]
    exact ⟨.rejected, h⟩
  | ok sender =>
    have hvalid := validateTransaction_eq_ok_iff.mp hv
    by_cases hplain : tx.to ≠ [] ∧ (bill tx sender v tx.to).code = []
    · exact answered_plain h hvalid hplain
    · exact answered_frame hs h hvalid ⟨hvalid.blockGasLimit.trans_lt hlimit, hdata⟩ hfuel hplain

/-- A sound state, and the ledger that it shows. -/
structure SoundShows (s : TxState) (v : WordWorld) : Prop where
  sound : s.Sound
  world : ShowsWorld s.world v

/-- A transaction that fits in memory, under a block gas limit that fits in a word. -/
def Allowed (fuel : Nat) (entry : Transaction × Int) : Prop :=
  entry.2 < 2 ^ 256 ∧ Short entry.1.data ∧ entry.1.gas.toNat + 2 ≤ fuel

theorem sound_applyEntry (hs : s.Sound) (h : ShowsWorld s.world v) {entry : Transaction × Int}
    (hallowed : Allowed fuel entry) : (applyEntry env fuel s entry).2.Sound := by
  obtain ⟨hlimit, hdata, hfuel⟩ := hallowed
  have hanswered : Answered (applyTransaction env fuel entry.1 entry.2 s)
      (apply env fuel v entry) := answered_apply hs h hlimit hdata hfuel
  have hreports := hanswered.reports
  unfold applyEntry
  cases hr : applyTransaction env fuel entry.1 entry.2 s with
  | ok result s' =>
    obtain ⟨sender, hvalid⟩ := (transition_of_applyTransaction hr).valid
    exact sound_of_applyTransaction hs ⟨hvalid.blockGasLimit.trans_lt hlimit, hdata⟩ hr
  | error e s' =>
    rw [hr] at hreports
    obtain ⟨e', rfl⟩ := raised_of_reports hreports
    exact (applyTransaction_of_raised hr).1 ▸ hs

/-- One transaction, in the code and on the ledger. -/
theorem agrees_apply (env : Env) (fuel : Nat) :
    Machine.Agrees (applyEntry env fuel) (apply env fuel) Reports SoundShows (Allowed fuel) := by
  intro s v entry hs hallowed
  obtain ⟨hlimit, hdata, hfuel⟩ := hallowed
  have hanswered : Answered (applyTransaction env fuel entry.1 entry.2 s)
      (apply env fuel v entry) := answered_apply hs.sound hs.world hlimit hdata hfuel
  exact ⟨hanswered.reports, sound_applyEntry hs.sound hs.world ⟨hlimit, hdata, hfuel⟩,
    hanswered.world⟩

theorem shows_genesis {alloc : Dict Bytes Int} (h0 : ∀ e ∈ alloc.entries, 0 ≤ e.2) :
    ShowsWorld (WorldState.createGenesisState alloc) (genesis alloc) := by
  intro a
  have hbalance : 0 ≤ alloc.getD a 0 := by
    unfold Dict.getD
    cases ha : alloc.get? a with
    | none => exact le_rfl
    | some balance => exact h0 _ (Dict.mem_of_get? ha)
  rw [WorldState.getAccount_createGenesisState]
  exact ⟨rfl, (Int.toNat_of_nonneg hbalance).symm, rfl, short_nil, showsCells_empty⟩

/-- From any genesis, over any list of transactions, the state transition answers what the
ledger of words answers and ends in a world state that shows the ledger. -/
theorem state_transition_refines_word_ledger (env : Env) (fuel : Nat) (alloc : Dict Bytes Int)
    (h0 : ∀ e ∈ alloc.entries, 0 ≤ e.2) (htotal : alloc.total id < 2 ^ 256)
    (txs : List (Transaction × Int)) (hallowed : ∀ entry ∈ txs, Allowed fuel entry) :
    List.Forall₂ Reports
        (applyAll env fuel txs { world := WorldState.createGenesisState alloc }).1
        (Machine.run (apply env fuel) txs (genesis alloc)).1 ∧
      ShowsWorld (applyAll env fuel txs { world := WorldState.createGenesisState alloc }).2.world
        (Machine.run (apply env fuel) txs (genesis alloc)).2 := by
  have hstart : SoundShows { world := WorldState.createGenesisState alloc } (genesis alloc) :=
    ⟨sound_genesis h0 htotal, shows_genesis h0⟩
  obtain ⟨hanswers, hend⟩ := (agrees_apply env fuel).run hstart hallowed
  exact ⟨hanswers, hend.world⟩

/-- A creation from genesis, whose init code writes to the storage of the new contract. -/
theorem state_transition_refines_word_ledger_deploy :
    (applyAll deployEnv 100002 [(deployTransaction, 100000)]
      { world := WorldState.createGenesisState sampleAlloc }).2.world.getStorage
        (deployCreationHash.drop 12) 0 = 42 := by
  have hallowed : ∀ entry ∈ [(deployTransaction, (100000 : Int))], Allowed 100002 entry := by
    intro entry hentry
    obtain rfl := List.mem_singleton.mp hentry
    exact ⟨by decide, by simp [Short, deployTransaction], by decide⟩
  have h := (state_transition_refines_word_ledger deployEnv 100002 sampleAlloc (by decide)
    (by decide +kernel) [(deployTransaction, 100000)] hallowed).2
  have hcell := (h (deployCreationHash.drop 12)).cells.stands 0
  have hstored : ((Machine.run (apply deployEnv 100002) [(deployTransaction, 100000)]
      (genesis sampleAlloc)).2 (deployCreationHash.drop 12)).cells 0 = some 42 := by
    decide +kernel
  rw [hstored] at hcell
  exact hcell

end Runs

end WordLedger

end Ethereum
