import Ethereum.Core.PlainTransfer
import Ethereum.Core.Words
import Ethereum.Evm.Keys

/-! Under which keys transactions add accounts. Addresses that the code computes have 20 bytes.
The recipient of a payment is the one key that it takes as it is. -/
namespace Ethereum

open Stateful Sequencing WorldState

variable {env : Env} {fuel : Nat} {tx : Transaction} {sender : Bytes} {gas blockGasLimit : Int}
  {s s' : TxState} {w w' : WorldState} {result : TransactionResult} {S : Bytes → Prop}
  {P : WorldState → Prop}

section Creation

theorem keeps_log_modifyWorld (f : WorldState → WorldState) :
    Keeps TxState.log (modifyWorld f) :=
  keeps_modify fun _ => rfl

theorem keeps_log_sendValue (sender recipient : Bytes) (value : Int) :
    Keeps TxState.log (sendValue sender recipient value) := by
  refine keeps_get.bind fun s => ?_
  split
  · exact keeps_throw _
  · exact keeps_log_modifyWorld _

theorem keeps_log_finishCreate (a : Bytes) (o : Option (ExecutionResult × EVM)) :
    Keeps TxState.log (finishCreate gas a o) := by
  unfold finishCreate
  split
  · exact keeps_pure _
  · next result evm =>
    by_cases h : result.success = true
    · simp only [h, if_true]
      exact (keeps_log_modifyWorld _).bind fun _ => (keeps_log_modifyWorld _).bind fun _ =>
        keeps_pure _
    · simp only [h]
      exact keeps_pure _

/-- A frame that has run is in the log. -/
theorem log_lt_of_runFrame (t : TopFrame) {o : Option (ExecutionResult × EVM)}
    (h : runFrame env fuel t.kind t.code (t.context tx sender gas) t.storage s = .ok o s') :
    s.log.length < s'.log.length := by
  have hend := frame_end env fuel tx sender gas s t s.world
  have hprefix := (run_progress (run_runLoop env fuel (t.start tx sender gas s.world s.log))).log
  have hle := ((List.prefix_append s.log _).trans hprefix).length_le
  change FrameEnd t.kind gas s _
    (runFrame env fuel t.kind t.code (t.context tx sender gas) t.storage s) at hend
  rw [h] at hend
  cases hend with
  | returned hc _ _ _ hlog =>
    rw [hc, final_ok] at hle
    rw [hlog, List.length_append, List.length_singleton]
    omega
  | outOfGas hlog =>
    rw [hlog, List.length_append, List.length_singleton]
    omega

/-- A creation that comes to a result has run a frame. -/
theorem log_lt_of_creation {x : ExecutionResult} (hto : tx.to = [])
    (h : executeTransaction env fuel tx sender gas s = .ok x s') :
    s.log.length < s'.log.length := by
  rw [executeTransaction, bind_of_ok (get_apply _), if_pos hto] at h
  obtain ⟨a, s₁, ha, h₁⟩ := ok_of_bind_apply h
  obtain ⟨_, s₂, hmodify, h₂⟩ := ok_of_bind_apply h₁
  obtain ⟨_, s₃, hsend, h₃⟩ := ok_of_bind_apply h₂
  obtain ⟨o, s₄, hframe, hfinish⟩ := ok_of_bind_apply h₃
  have hlog₁ : s₁ = s := (ok_of_attempt ha).2
  have hlog₂ : s₂.log = s₁.log := (keeps_log_modifyWorld _).of_ok hmodify
  have hlog₃ : s₃.log = s₂.log := (keeps_log_sendValue _ _ _).of_ok hsend
  have hlog₄ : s'.log = s₄.log := (keeps_log_finishCreate a o).of_ok hfinish
  have hlt := log_lt_of_runFrame (creationFrame tx a) hframe
  rw [hlog₃, hlog₂, hlog₁] at hlt
  rw [hlog₄]
  exact hlt

theorem recipient_of_transferred
    (h : applyTransaction env fuel tx blockGasLimit s = .ok result s')
    (hsuccess : result.success = true) (hlog : s'.log = s.log) : tx.to ≠ [] := by
  intro hto
  have happlied := applyTransaction_applied env fuel tx blockGasLimit s
  rw [h] at happlied
  cases happlied with
  | failed _ _ _ _ _ hfailed =>
    rw [hsuccess] at hfailed
    cases hfailed
  | succeeded _ hexec _ hsame =>
    have hlt := log_lt_of_creation hto hexec
    rw [← hsame, hlog] at hlt
    exact absurd hlt (lt_irrefl _)

end Creation

section Transactions

theorem WorldState.Closed.bill (hP : Closed S P) (hsender : S sender) (hw : P w) :
    P (w.bill tx sender) :=
  hP.incrementNonce hsender (hP _ _ _ hsender hw)

theorem WorldState.Closed.refund (hP : Closed S P) (hsender : S sender) (hw : P w)
    (gasRemaining : Int) : P (w.refund tx sender gasRemaining) := by
  unfold WorldState.refund
  split
  · exact hP.addBalance hsender hw _
  · exact hw

theorem WorldState.Closed.topCommit (hP : Closed S P) {t : TopFrame} (ha : S t.address)
    (hw : P w) (returnData : Bytes) (storage : Dict Int Int) :
    P (t.commit returnData storage w) := by
  unfold TopFrame.commit
  split
  · exact hP.persistStorage ha (hP.setCode ha hw returnData) storage
  · exact hP.persistStorage ha hw storage

variable (hS : ∀ a : Bytes, a.length = 20 → S a) (hP : Closed S P)
include hS hP

/-- The frame of a transaction, from its start to any end. -/
theorem holds_topFrame {t : TopFrame} {c : LoopResult} (ha : S t.address) (hw : P w)
    (hrun : Run env (t.start tx sender gas w s.log) c) : (final c).Holds S P := by
  have hstart : (t.start tx sender gas w s.log).Holds S P := by
    refine ⟨ha, fun w' hw' => ?_⟩
    cases hw'
    exact hw
  exact (frameInvariant_closed hS hP env).run (fun _ => trivial) hrun .refl hstart

/-- An accepted transaction modifies addresses of 20 bytes, and its recipient if that is paid
or has code. -/
theorem closed_applyTransaction (hcode : (s.world.getAccount tx.to).code ≠ [] → S tx.to)
    (hvalue : tx.to ≠ [] → 0 < tx.value → S tx.to)
    (h : applyTransaction env fuel tx blockGasLimit s = .ok result s') (hw : P s.world) :
    P s'.world := by
  cases transition_of_applyTransaction h with
  | failed hvalid hworld =>
    rw [hworld]
    exact hP.bill (hS _ hvalid.length_sender) hw
  | transferred hvalid hpay hworld hlog hsuccess =>
    have hsender := hS _ hvalid.length_sender
    have hto := recipient_of_transferred h hsuccess hlog
    rw [hworld]
    exact hP.refund hsender (hP.payValue hsender (hvalue hto) (hP.bill hsender hw) hpay) _
  | @executed sender t w₁ w₂ evm hvalid ht hpay hrun hworld =>
    have hsender := hS _ hvalid.length_sender
    have hbill : P (s.world.bill tx sender) := hP.bill hsender hw
    obtain ⟨ha, hw₁⟩ : S t.address ∧ P w₁ := by
      cases ht with
      | message _ hcode' =>
        rw [field_bill Account.code fun _ _ _ => rfl] at hcode'
        exact ⟨hcode hcode', hbill⟩
      | creation _ haddress =>
        have ha := hS _ (length_of_computeContractAddress haddress)
        exact ⟨ha, hP.addBalance ha hbill 0⟩
    have hw₂ := hP.payValue hsender (fun _ => ha) hw₁ hpay
    have hend := holds_topFrame hS hP ha hw₂ hrun
    have hlast : P (evm.worldState.getD w₂) := by
      cases hsome : evm.worldState with
      | none => exact hw₂
      | some w₃ => exact hend.2 w₃ hsome
    rw [hworld]
    exact hP.refund hsender (hP.topCommit ha hlast _ _) _

end Transactions

section Runs

variable {x : Submission} {submissions : List Submission}

/-- The recipient of a transaction is missing or an address, or it is not paid. -/
def Transaction.Fits (tx : Transaction) : Prop :=
  tx.to = [] ∨ tx.to.length = 20 ∨ tx.value = 0

theorem extends_applyTransaction (hS : ∀ a : Bytes, a.length = 20 → S a)
    (hcode : (s.world.getAccount tx.to).code ≠ [] → S tx.to)
    (hvalue : tx.to ≠ [] → 0 < tx.value → S tx.to)
    (h : applyTransaction env fuel tx blockGasLimit s = .ok result s') :
    Extends S s.world s'.world :=
  closed_applyTransaction hS (closed_extends s.world) hcode hvalue h (.refl s.world)

theorem addressed_of_fits (h : applyTransaction env fuel tx blockGasLimit s = .ok result s')
    (hfits : tx.Fits) (hs : s.world.Addressed) : s'.world.Addressed := by
  refine Extends.addressed (extends_applyTransaction (fun _ ha => ha) ?_ ?_ h) hs
  · intro hcode
    exact hs _ (mem_keys_of_code hcode)
  · intro hto hvalue
    rcases hfits with hnil | hlength | hzero
    · exact absurd hnil hto
    · exact hlength
    · omega

/-- The recipient of a positive payment has an account afterwards. -/
theorem recipient_mem_keys (h : applyTransaction env fuel tx blockGasLimit s = .ok result s')
    (hplain : Plain s.world tx) (hvalue : tx.value ≠ 0) : tx.to ∈ s'.world.keys := by
  have hP : Closed (fun _ => True) fun w => tx.to ∈ w.keys :=
    fun _ _ _ _ hw => mem_keys_modifyAccount.mpr (.inr hw)
  have htransition := transition_of_applyTransaction h
  obtain ⟨sender, hvalid⟩ := htransition.valid
  obtain ⟨w', hplainRun, -⟩ := applyTransaction_of_plain fuel hvalid hplain
  rw [h] at hplainRun
  cases hplainRun
  cases htransition with
  | failed _ _ _ hsuccess => cases hsuccess
  | @transferred sender w _ hpay hworld =>
    rw [hworld]
    refine hP.refund trivial ?_ _
    have hpositive : 0 < tx.value := lt_of_le_of_ne hvalid.nonNegative.value (Ne.symm hvalue)
    rw [payValue, if_pos hpositive] at hpay
    rcases transfer_eq_ok_iff.mp hpay with ⟨hzero, -⟩ | ⟨-, -, rfl⟩
    · exact absurd hzero hvalue
    · exact mem_keys_modifyAccount.mpr (.inl rfl)
  | executed _ ht =>
    cases ht with
    | message _ hcode =>
      rw [field_bill Account.code fun _ _ _ => rfl] at hcode
      exact absurd hplain.code hcode
    | creation hto _ => exact absurd hto hplain.recipient

theorem fits_of_addressed (h : applyTransaction env fuel tx blockGasLimit s = .ok result s')
    (hs : s.world.Addressed) (hs' : s'.world.Addressed) : tx.Fits := by
  by_contra hfits
  obtain ⟨hto, hlength, hvalue⟩ : tx.to ≠ [] ∧ tx.to.length ≠ 20 ∧ tx.value ≠ 0 := by
    simpa [Transaction.Fits] using hfits
  have hcode : (s.world.getAccount tx.to).code = [] := by
    by_contra hcode
    exact hlength (hs _ (mem_keys_of_code hcode))
  exact hlength (hs' _ (recipient_mem_keys h ⟨hto, hcode⟩ hvalue))

/-- One call of `apply_transaction`. Keys never go away, so a stray one stays. -/
theorem addressed_iff_of_submit (h : Submit env s x s') :
    s'.world.Addressed ↔
      s.world.Addressed ∧ (x.accepted = true → x.tx.Fits) := by
  cases h with
  | accepted h =>
    have hsubset : s.world.keys ⊆ s'.world.keys :=
      (extends_applyTransaction (S := fun _ => True) (fun _ _ => trivial) (fun _ => trivial)
        (fun _ _ => trivial) h).subset
    constructor
    · intro hs'
      have hs := hs'.of_subset hsubset
      exact ⟨hs, fun _ => fits_of_addressed h hs hs'⟩
    · rintro ⟨hs, hfits⟩
      exact addressed_of_fits h (hfits rfl) hs
  | rejected h =>
    rw [state_of_rejected h]
    simp

theorem addressed_iff_of_history (h : History (Submit env) s submissions s') :
    s'.world.Addressed ↔
      s.world.Addressed ∧ ∀ x ∈ submissions, x.accepted = true → x.tx.Fits := by
  induction h with
  | nil => simp
  | cons hstep _ ih => rw [ih, addressed_iff_of_submit hstep, List.forall_mem_cons, and_assoc]

/-- From a genesis state with addresses as keys, every key is an address as long as, and only as
long as, no accepted transaction pays a recipient of another length. -/
theorem keys_are_addresses_iff (env : Env) (alloc : Dict Bytes Int) (submissions : List Submission)
    (s : TxState) (halloc : ∀ e ∈ alloc.entries, e.1.length = 20)
    (h : History (Submit env) { world := createGenesisState alloc } submissions s) :
    (∀ a ∈ s.world.keys, a.length = 20) ↔ ∀ x ∈ submissions, x.accepted = true → x.tx.Fits :=
  (addressed_iff_of_history h).trans
    (and_iff_right (addressed_createGenesisState halloc))

/-- The payment of the sample transaction, to an account that is new. -/
theorem keys_are_addresses_iff_sample : ∃ result s,
    History (Submit sampleEnv) { world := createGenesisState sampleAlloc }
      [⟨sampleTransaction, 100000, some result⟩] s ∧
    ((∀ a ∈ s.world.keys, a.length = 20) ↔
      ∀ x ∈ [(⟨sampleTransaction, 100000, some result⟩ : Submission)],
        x.accepted = true → x.tx.Fits) := by
  obtain ⟨result, s, h, -⟩ := exists_of_returns (p := fun _ _ => true)
    (r := applyTransaction sampleEnv 100 sampleTransaction 100000
      { world := createGenesisState sampleAlloc }) (by decide +kernel)
  have hhistory : History (Submit sampleEnv) { world := createGenesisState sampleAlloc }
      [⟨sampleTransaction, 100000, some result⟩] s := .single (.accepted h)
  exact ⟨result, s, hhistory,
    keys_are_addresses_iff sampleEnv sampleAlloc _ s (by decide) hhistory⟩

/-- A payment of 1 wei to three bytes. -/
def strayTransaction : Transaction where
  nonce := 0
  gasPrice := 1
  gas := 21000
  «to» := [0xaa, 0xbb, 0xcc]
  value := 1
  data := []
  v := 28
  r := 79709777876484254686746603286997359139000025019687654375796995601391731873872
  s := 34161765484893693671740861447989031557872232767636137710952574279387785534302

def strayTransactionHash : Bytes :=
  [0x28, 0xbd, 0xd0, 0xb9, 0xfb, 0x3c, 0xfe, 0x21, 0x22, 0x87, 0x9b, 0xab, 0xb8, 0x8f, 0x7f, 0x60,
    0xd2, 0xcd, 0xa5, 0x40, 0x79, 0x04, 0x52, 0x32, 0x7d, 0xa0, 0x53, 0x6f, 0x8d, 0x63, 0x0b, 0xd8]

def strayEnv : Env := .ofTables
  [(rlpEncode (.list [.bytes [], .bytes [1], .bytes [0x52, 0x08], .bytes [0xaa, 0xbb, 0xcc],
      .bytes [1], .bytes []]), strayTransactionHash)]
  [((1, strayTransaction.r, strayTransaction.s, strayTransactionHash), sampleSender)]
  (by decide) (by decide)

/-- The payment is accepted, and the wei is at a key that is no address. -/
theorem stray_key : ∃ result s, (∀ e ∈ sampleAlloc.entries, e.1.length = 20) ∧
    History (Submit strayEnv) { world := createGenesisState sampleAlloc }
      [⟨strayTransaction, 100000, some result⟩] s ∧
    s.world.getBalance [0xaa, 0xbb, 0xcc] = 1 ∧ ¬ ∀ a ∈ s.world.keys, a.length = 20 := by
  obtain ⟨result, s, h, hs⟩ := exists_of_returns
    (p := fun _ (s : TxState) => decide ([0xaa, 0xbb, 0xcc] ∈ s.world.keys ∧
      s.world.getBalance [0xaa, 0xbb, 0xcc] = 1))
    (r := applyTransaction strayEnv 100 strayTransaction 100000
      { world := createGenesisState sampleAlloc }) (by decide +kernel)
  obtain ⟨hkey, hbalance⟩ := of_decide_eq_true hs
  refine ⟨result, s, by decide, .single (.accepted h), hbalance, fun haddressed => ?_⟩
  have hlength := haddressed _ hkey
  cases hlength

end Runs

end Ethereum
