import Ethereum.Core.Apply
import Ethereum.Evm.Divergence
import Ethereum.Evm.Metering

/-! Failure of a transaction is atomic, and a transaction of 256-bit words always ends. -/
namespace Ethereum

open Stateful

variable {env : Env} {fuel : Nat} {tx : Transaction} {sender : Bytes} {blockGasLimit : Int}
  {s s' : TxState} {w w' : WorldState}

theorem bill_eq_setAccount : w.bill tx sender = w.setAccount sender { w.getAccount sender with
    nonce := (w.getAccount sender).nonce + 1
    balance := (w.getAccount sender).balance - tx.gas * tx.gasPrice } := by
  rw [WorldState.bill, WorldState.incrementNonce, WorldState.modifyAccount_modifyAccount]
  rfl

section Range

/-- The fields of a transaction are words, an address and a string that fits in memory. -/
structure Transaction.InRange (tx : Transaction) : Prop where
  gas : tx.gas < 2 ^ 256
  value : tx.value < 2 ^ 256
  «to» : tx.to.length ≤ 32
  data : Short tx.data

theorem inRange_bill (h : w.InRange) : (w.bill tx sender).InRange :=
  h.congr (field_bill Account.code fun _ _ _ => rfl) (field_bill Account.storage fun _ _ _ => rfl)

theorem inRange_touch (h : w.InRange) (a : Bytes) : (w.addBalance a 0).InRange :=
  h.congr (fun _ => by rw [getAccount_touch]) fun _ => by rw [getAccount_touch]

theorem Valid.word_executionGas (h : Valid env tx w blockGasLimit sender)
    (hgas : tx.gas < 2 ^ 256) :
    Word tx.executionGas := by
  have h1 := h.intrinsicGas
  have h2 := le_calculateIntrinsicGas tx.data
  unfold Transaction.executionGas
  constructor <;> omega

/-- The frame of a valid transaction starts in range. -/
theorem inRange_start {t : TopFrame} (hvalid : Valid env tx s.world blockGasLimit sender)
    (htx : tx.InRange) (hw : s.world.InRange) (hlog : Funded s.log)
    (ht : Opens env tx sender (s.world.bill tx sender) t w)
    (hpay : payValue w sender t.address tx.value = .ok w') :
    (t.start tx sender tx.executionGas w' s.log).InRange := by
  have hbill : (s.world.bill tx sender).InRange := inRange_bill hw
  have hgas := hvalid.word_executionGas htx.gas
  have hvalue : Word tx.value := ⟨hvalid.nonNegative.value, htx.value⟩
  have hsender : sender.length ≤ 32 := hvalid.length_sender.trans_le (by omega)
  cases ht with
  | message hto hcode =>
    exact inRange_init (hbill.code _) hsender htx.to hvalue htx.data hgas (hbill.storage _)
      (inRange_payValue hbill hpay) hlog
  | creation hto ha =>
    have hlength := length_of_computeContractAddress ha
    exact inRange_init htx.data hsender (hlength.trans_le (by omega)) hvalue short_nil hgas
      wordValued_empty (inRange_payValue (inRange_touch hbill _) hpay) hlog

end Range

theorem applyTransaction_of_raised {e : PyException}
    (h : applyTransaction env fuel tx blockGasLimit s = .error (.raised e) s') :
    s' = s ∧ ∃ reason, e = .transactionError reason ∧
      validateTransaction env tx s.world blockGasLimit = .error reason := by
  cases hv : validateTransaction env tx s.world blockGasLimit with
  | error reason =>
    rw [applyTransaction_of_invalid _ hv] at h
    cases h
    exact ⟨rfl, reason, rfl, rfl⟩
  | ok sender =>
    have hvalid := validateTransaction_eq_ok_iff.mp hv
    have happlied := applyTransaction_applied env fuel tx blockGasLimit s
    rw [h] at happlied
    cases happlied with
    | rejected hinvalid => exact absurd hvalid (hinvalid sender)

theorem applyTransaction_of_failure {result : TransactionResult}
    (h : applyTransaction env fuel tx blockGasLimit s = .ok result s')
    (hresult : result.success = false) :
    ∃ sender, recoverSender env tx = .ok sender ∧ s'.world = s.world.bill tx sender ∧
      result.gasUsed = tx.gas := by
  have happlied := applyTransaction_applied env fuel tx blockGasLimit s
  rw [h] at happlied
  cases happlied with
  | failed hvalid _ _ _ hworld _ hused => exact ⟨_, hvalid.recovered, hworld, hused⟩
  | succeeded _ _ _ _ _ hsuccess =>
    rw [hsuccess] at hresult
    cases hresult

/-- A transaction in range never exhausts a step budget that exceeds its gas by two. -/
theorem applyTransaction_ends (htx : tx.InRange) (hw : s.world.InRange) (hlog : Funded s.log)
    (hfuel : tx.gas.toNat + 2 ≤ fuel) :
    applyTransaction env fuel tx blockGasLimit s ≠ .error .outOfFuel s' := by
  intro h
  have happlied := applyTransaction_applied env fuel tx blockGasLimit s
  rw [h] at happlied
  cases happlied with
  | @unfinished sender _ hvalid hexec =>
    cases executed_of_eq hexec with
    | @failed t w₁ w₂ c _ _ ht hpay hc _ _ hends _ =>
      obtain ⟨evm, he⟩ := hends s' rfl
      have hgas := tx.executionGas_le
      have hle : (t.start tx sender tx.executionGas w₂ s.log).gasRemaining.toNat + 2 ≤ fuel := by
        change tx.executionGas.toNat + 2 ≤ fuel
        omega
      have hstart := inRange_start hvalid htx hw hlog ht hpay
      exact runLoop_ends fuel _ hstart hle _ _ (hc ▸ he) rfl

/-- A transaction is rejected without effect, or fails with its bill as the only effect. One
in range comes to an end. -/
theorem applyTransaction_failure_atomic (env : Env) (tx : Transaction) (blockGasLimit : Int)
    (w : WorldState) :
    (∀ fuel e s', applyTransaction env fuel tx blockGasLimit { world := w } =
        .error (.raised e) s' →
      s' = { world := w } ∧ ∃ reason, e = .transactionError reason ∧
        validateTransaction env tx w blockGasLimit = .error reason) ∧
      (∀ fuel result s',
        applyTransaction env fuel tx blockGasLimit { world := w } = .ok result s' →
        result.success = false →
        ∃ sender, recoverSender env tx = .ok sender ∧ result.gasUsed = tx.gas ∧
          s'.world = w.setAccount sender { w.getAccount sender with
            nonce := (w.getAccount sender).nonce + 1
            balance := (w.getAccount sender).balance - tx.gas * tx.gasPrice }) ∧
      (tx.InRange → w.InRange → ∀ fuel s', tx.gas.toNat + 2 ≤ fuel →
        applyTransaction env fuel tx blockGasLimit { world := w } ≠ .error .outOfFuel s') := by
  refine ⟨fun fuel e s' h => applyTransaction_of_raised h, fun fuel result s' h hresult => ?_,
    fun htx hw fuel s' hfuel =>
      applyTransaction_ends htx hw (fun _ _ h => absurd h (by simp)) hfuel⟩
  obtain ⟨sender, hsender, hworld, hused⟩ := applyTransaction_of_failure h hresult
  exact ⟨sender, hsender, hused, hworld.trans bill_eq_setAccount⟩

/-- A call of `INVALID` ends, fails and costs all its gas; under a lower block gas limit
it is rejected. -/
theorem applyTransaction_failure_atomic_invalid :
    (∀ s', applyTransaction sampleEnv 100002 sampleTransaction 100000
        { world := sampleWorld [0xfe] [] } ≠ .error .outOfFuel s') ∧
      (∃ result s', applyTransaction sampleEnv 100 sampleTransaction 100000
          { world := sampleWorld [0xfe] [] } = .ok result s' ∧
        ∃ sender, recoverSender sampleEnv sampleTransaction = .ok sender ∧
          result.gasUsed = 100000 ∧ s'.world.getAccount sender = { nonce := 1, balance := 900000 }) ∧
      ∃ e s', applyTransaction sampleEnv 100 sampleTransaction 99999
          { world := sampleWorld [0xfe] [] } = .error (.raised e) s' ∧
        s' = { world := sampleWorld [0xfe] [] } := by
  obtain ⟨-, hfailure, hends⟩ :=
    applyTransaction_failure_atomic sampleEnv sampleTransaction 100000 (sampleWorld [0xfe] [])
  obtain ⟨hraised, -, -⟩ :=
    applyTransaction_failure_atomic sampleEnv sampleTransaction 99999 (sampleWorld [0xfe] [])
  refine ⟨fun s' => hends ?_ ?_ _ _ (by decide), ?_, ?_⟩
  · constructor <;> simp [sampleTransaction, sampleContract, Short]
  · apply inRange_of_entries
    intro e he
    simp only [sampleWorld, List.mem_cons, List.not_mem_nil, or_false] at he
    rcases he with rfl | rfl | rfl <;> exact ⟨by simp [Short], wordValued_empty⟩
  · obtain ⟨result, s', h, hfailed⟩ := exists_of_returns (p := fun result _ => !result.success)
      (r := applyTransaction sampleEnv 100 sampleTransaction 100000
        { world := sampleWorld [0xfe] [] }) (by decide +kernel)
    obtain ⟨sender, hsender, hused, hworld⟩ := hfailure _ _ _ h (by simpa using hfailed)
    have hs : recoverSender sampleEnv sampleTransaction = .ok sampleSender := by decide +kernel
    cases hs.symm.trans hsender
    refine ⟨result, s', h, sampleSender, hsender, hused, ?_⟩
    rw [hworld]
    decide +kernel
  · have hinvalid : validateTransaction sampleEnv sampleTransaction (sampleWorld [0xfe] []) 99999 =
        .error (.exceedsBlockGasLimit 100000 99999) := by decide +kernel
    have h := applyTransaction_of_invalid 100 (s := { world := sampleWorld [0xfe] [] }) hinvalid
    exact ⟨_, _, h, (hraised _ _ _ h).1⟩

section Divergence

theorem frame_of_outOfFuel {t : TopFrame} {gas : Int} {evm : EVM}
    (finish : Option (ExecutionResult × EVM) → TxM ExecutionResult)
    (h : execute env fuel (t.start tx sender gas w s.log) = .error .outOfFuel evm) :
    (runFrame env fuel t.kind t.code (t.context tx sender gas) t.storage >>= finish)
      { s with world := w } = .error .outOfFuel
        { world := evm.worldState.getD w, log := evm.log ++ [.leave t.kind .raised] } := by
  refine bind_of_error ?_
  rw [runFrame_eq, h]
  rfl

theorem applyTransaction_of_stuck {evm : EVM}
    (hvalid : Valid env tx s.world blockGasLimit sender) (hto : tx.to ≠ []) (hvalue : tx.value = 0)
    (hw : s.world.bill tx sender = w) (hcode : (w.getAccount tx.to).code ≠ [])
    (h : execute env fuel ((messageFrame tx w).start tx sender tx.executionGas w s.log) =
      .error .outOfFuel evm) :
    ∃ s', applyTransaction env fuel tx blockGasLimit s = .error .outOfFuel s' := by
  have hpay : payValue w sender tx.to tx.value = .ok w := by rw [hvalue]; rfl
  have hframe := frame_of_outOfFuel (t := messageFrame tx w)
    (finishContractCall tx tx.executionGas) h
  have hcall : executeContractCall env fuel tx sender tx.executionGas { s with world := w } =
      (runFrame env fuel (messageFrame tx w).kind (messageFrame tx w).code
        ((messageFrame tx w).context tx sender tx.executionGas) (messageFrame tx w).storage >>=
        finishContractCall tx tx.executionGas) { s with world := w } := by
    rw [executeContractCall, bind_of_ok (get_apply _),
      bind_of_ok (sendValue_of_ok (s := { s with world := w }) hpay)]
    rfl
  have hexec : executeTransaction env fuel tx sender tx.executionGas { s with world := w } =
      executeContractCall env fuel tx sender tx.executionGas { s with world := w } := by
    rw [executeTransaction, bind_of_ok (get_apply _), if_neg hto, if_pos hcode]
  exact ⟨_, by rw [applyTransaction_of_valid hvalid, applyBody_eq hvalid, hw,
    bind_of_error (hexec.trans (hcall.trans hframe))]⟩

/-- With more gas than a word can hold, a valid transaction need not end. -/
theorem applyTransaction_failure_atomic_endless :
    validateTransaction sampleEnv hugeTransaction (sampleWorld spinCode []) hugeTransaction.gas =
        .ok sampleSender ∧
      ∀ fuel, ∃ s', applyTransaction sampleEnv fuel hugeTransaction hugeTransaction.gas
        { world := sampleWorld spinCode [] } = .error .outOfFuel s' := by
  have hvalid : validateTransaction sampleEnv hugeTransaction (sampleWorld spinCode [])
      hugeTransaction.gas = .ok sampleSender := by decide +kernel
  refine ⟨hvalid, fun fuel => ?_⟩
  have hcode : (((sampleWorld spinCode []).bill hugeTransaction sampleSender).getAccount
        sampleContract).code = spinCode := by decide +kernel
  have hstart : Spinning ((messageFrame hugeTransaction
        ((sampleWorld spinCode []).bill hugeTransaction sampleSender)).start hugeTransaction
      sampleSender hugeTransaction.executionGas
      ((sampleWorld spinCode []).bill hugeTransaction sampleSender) []) :=
    ⟨hcode, rfl, rfl, ⟨_, rfl, hcode⟩, rfl, .jumpdest (by decide +kernel)⟩
  obtain ⟨evm, hloop⟩ :=
    runLoop_outOfFuel sampleEnv fuel (fun evm => Spinning.running) spinning_step hstart
  refine applyTransaction_of_stuck (validateTransaction_eq_ok_iff.mp hvalid) (by decide) rfl rfl
    (by rw [show hugeTransaction.to = sampleContract from rfl, hcode]; decide)
    (congrArg (conclude _) hloop)

end Divergence

end Ethereum
