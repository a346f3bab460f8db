import Ethereum.Core.Execution
import Ethereum.Lib.Machine

/-! What `apply_transaction` comes to: a rejection, a charged failure or a charged success. -/
namespace Ethereum

open Stateful

/-- The world state after the sender has paid for all gas and used its nonce. -/
def WorldState.bill (w : WorldState) (tx : Transaction) (sender : Bytes) : WorldState :=
  (w.modifyAccount sender fun a =>
    { a with balance := a.balance - tx.gas * tx.gasPrice }).incrementNonce sender

/-- The refund of unused gas. -/
def WorldState.refund (w : WorldState) (tx : Transaction) (sender : Bytes) (gasRemaining : Int) :
    WorldState :=
  if 0 < gasRemaining * tx.gasPrice then w.addBalance sender (gasRemaining * tx.gasPrice) else w

section Fields

variable {α : Type} (field : Account → α) {w : WorldState} {tx : Transaction} {sender : Bytes}

/-- Only nonce and balance of the sender change. -/
theorem field_bill (hf : ∀ x nonce balance, field { x with nonce, balance } = field x) (a : Bytes) :
    field ((w.bill tx sender).getAccount a) = field (w.getAccount a) := by
  have hpaid : ∀ x balance, field { x with balance } = field x := fun x => hf x x.nonce
  exact (WorldState.field_incrementNonce field (fun x nonce => hf x nonce x.balance) sender a).trans
    (WorldState.field_modifyAccount field (fun x => hpaid x _) sender a)

theorem field_refund (hf : ∀ x balance, field { x with balance } = field x) (gasRemaining : Int)
    (a : Bytes) : field ((w.refund tx sender gasRemaining).getAccount a) =
      field (w.getAccount a) := by
  unfold WorldState.refund
  split
  · exact WorldState.field_addBalance field hf sender _ a
  · rfl

end Fields

section Accounts

variable {tx : Transaction} {sender a : Bytes} {w w' : WorldState}

theorem getAccount_bill_of_ne (h : a ≠ sender) :
    (w.bill tx sender).getAccount a = w.getAccount a := by
  rw [WorldState.bill, WorldState.incrementNonce, WorldState.getAccount_modifyAccount_of_ne h,
    WorldState.getAccount_modifyAccount_of_ne h]

theorem getAccount_bill_self :
    (w.bill tx sender).getAccount sender = { w.getAccount sender with
      balance := (w.getAccount sender).balance - tx.gas * tx.gasPrice
      nonce := (w.getAccount sender).nonce + 1 } := by
  rw [WorldState.bill, WorldState.incrementNonce]
  simp

theorem getBalance_bill (w : WorldState) (tx : Transaction) (sender : Bytes) :
    (w.bill tx sender).getBalance sender = w.getBalance sender - tx.gas * tx.gasPrice := by
  rw [WorldState.getBalance, getAccount_bill_self, WorldState.getBalance]

theorem getAccount_refund_of_ne (h : a ≠ sender) (gasRemaining : Int) :
    (w.refund tx sender gasRemaining).getAccount a = w.getAccount a := by
  unfold WorldState.refund
  split
  · exact WorldState.getAccount_modifyAccount_of_ne h _
  · rfl

/-- Before the value is paid, a transaction at most adds an empty account. -/
theorem Opens.getAccount_eq {env : Env} {t : TopFrame} (h : Opens env tx sender w t w')
    (a : Bytes) : w'.getAccount a = w.getAccount a := by
  cases h with
  | message _ _ => rfl
  | creation _ _ => exact getAccount_touch _

end Accounts

/-- The gas that is left for execution. -/
def Transaction.executionGas (tx : Transaction) : Int := tx.gas - calculateIntrinsicGas tx.data

theorem Transaction.executionGas_le (tx : Transaction) : tx.executionGas ≤ tx.gas := by
  have hintrinsic := le_calculateIntrinsicGas tx.data
  unfold Transaction.executionGas
  omega

inductive Applied (env : Env) (fuel : Nat) (tx : Transaction) (blockGasLimit : Int) (s : TxState) :
    EStateM.Result Abort TxState TransactionResult → Prop
  | rejected {e} (hinvalid : ∀ sender, ¬ Valid env tx s.world blockGasLimit sender) :
      Applied env fuel tx blockGasLimit s (.error (.raised (.transactionError e)) s)
  | unfinished {sender s'} (hvalid : Valid env tx s.world blockGasLimit sender)
      (hexec : executeTransaction env fuel tx sender tx.executionGas
        { s with world := s.world.bill tx sender } = .error .outOfFuel s') :
      Applied env fuel tx blockGasLimit s (.error .outOfFuel s')
  | failed {sender r result s'} (hvalid : Valid env tx s.world blockGasLimit sender)
      (hexec : executeTransaction env fuel tx sender tx.executionGas
        { s with world := s.world.bill tx sender } = r)
      (hfailed : (∃ e s₁, r = .error (.raised e) s₁) ∨
        ∃ x s₁, r = .ok x s₁ ∧ x.success = false)
      (hlog : s'.log = (final r).log) (hworld : s'.world = s.world.bill tx sender)
      (hsuccess : result.success = false) (hused : result.gasUsed = tx.gas)
      (hremaining : result.gasRemaining = 0) :
      Applied env fuel tx blockGasLimit s (.ok result s')
  | succeeded {sender x s₁ result s'} (hvalid : Valid env tx s.world blockGasLimit sender)
      (hexec : executeTransaction env fuel tx sender tx.executionGas
        { s with world := s.world.bill tx sender } = .ok x s₁) (hx : x.success = true)
      (hlog : s'.log = s₁.log) (hworld : s'.world = s₁.world.refund tx sender x.gasRemaining)
      (hsuccess : result.success = true) (hused : result.gasUsed = tx.gas - x.gasRemaining)
      (hremaining : result.gasRemaining = x.gasRemaining) :
      Applied env fuel tx blockGasLimit s (.ok result s')

variable {env : Env} {fuel : Nat} {tx : Transaction} {sender : Bytes} {blockGasLimit : Int}
  {s s₁ : TxState} {w : WorldState}

/-- The validated balance covers the upfront cost alone. -/
theorem Valid.upfront_le (h : Valid env tx w blockGasLimit sender) :
    tx.gas * tx.gasPrice ≤ w.getBalance sender := by
  have hv := h.nonNegative.value
  have hb := h.balance
  unfold WorldState.getBalance
  omega

/-- The value is covered after the gas has been paid. -/
theorem Valid.value_le_bill (h : Valid env tx w blockGasLimit sender) :
    tx.value ≤ (w.bill tx sender).getBalance sender := by
  have hbalance := h.balance
  rw [getBalance_bill, WorldState.getBalance]
  omega

theorem Valid.payValue_bill (h : Valid env tx w blockGasLimit sender) (recipient : Bytes) :
    ∃ w', payValue (w.bill tx sender) sender recipient tx.value = .ok w' :=
  payValue_of_le recipient fun _ => h.value_le_bill

theorem Valid.payValue_opens {t : TopFrame} {w₁ : WorldState}
    (h : Valid env tx w blockGasLimit sender) (ht : Opens env tx sender (w.bill tx sender) t w₁) :
    ∃ w', payValue w₁ sender t.address tx.value = .ok w' := by
  apply payValue_of_le
  intro _
  rw [WorldState.getBalance, ht.getAccount_eq]
  exact h.value_le_bill

theorem deduct_of_le {a : Bytes} {amount : Int} (h : amount ≤ s.world.getBalance a) :
    deduct a amount s = .ok () { s with
      world := s.world.modifyAccount a fun x => { x with balance := x.balance - amount } } := by
  simp only [deduct, bind_apply, get_apply, WorldState.deductBalance_of_le h, modifyWorld,
    modify_apply]

/-- Charging the sender a second time, on the restored snapshot, never fails. -/
theorem rollback_eq (h : Valid env tx w blockGasLimit sender) :
    rollback tx sender w.snapshot s₁ = .ok () { s₁ with world := w.bill tx sender } := by
  rw [rollback, modifyWorld, bind_of_ok (modify_apply _ _)]
  change (deduct sender _ >>= _) { s₁ with world := w } = _
  rw [bind_of_ok (deduct_of_le h.upfront_le), modifyWorld, modify_apply]
  rfl

theorem applyFailed_eq (h : Valid env tx w blockGasLimit sender) (error : String) :
    applyFailed tx sender w.snapshot error s₁ = .ok
      { success := false, returnData := [], gasUsed := tx.gas, gasRemaining := 0,
        error := some error } { s₁ with world := w.bill tx sender } := by
  rw [applyFailed, bind_of_ok (rollback_eq h), pure_apply]

theorem settleTransaction_failure (h : Valid env tx w blockGasLimit sender) {x : ExecutionResult}
    (hx : x.success = false) :
    settleTransaction tx sender w.snapshot x s₁ = .ok
      { success := false, returnData := x.returnData, gasUsed := tx.gas, gasRemaining := 0,
        error := some "execution failed", contractAddress := x.contractAddress }
      { s₁ with world := w.bill tx sender } := by
  simp only [settleTransaction, hx, Bool.not_false, if_true, Bool.false_eq_true, if_false,
    zero_mul, lt_irrefl]
  rw [bind_of_ok (rollback_eq h), pure_apply]

theorem settleTransaction_success {snapshot : Dict Bytes Account} {x : ExecutionResult}
    (hx : x.success = true) :
    settleTransaction tx sender snapshot x s₁ = .ok
      { success := true, returnData := x.returnData, gasUsed := tx.gas - x.gasRemaining,
        gasRemaining := x.gasRemaining, error := none, contractAddress := x.contractAddress }
      { s₁ with world := s₁.world.refund tx sender x.gasRemaining } := by
  simp only [settleTransaction, hx, Bool.not_true, Bool.false_eq_true, if_false, if_true,
    WorldState.refund]
  split
  · rw [modifyWorld, bind_of_ok (modify_apply _ _), pure_apply]
  · rw [pure_apply]

theorem applyBody_eq (h : Valid env tx s.world blockGasLimit sender) :
    applyBody env fuel tx sender s.world.snapshot s =
      (executeTransaction env fuel tx sender tx.executionGas >>=
        settleTransaction tx sender s.world.snapshot)
        { s with world := s.world.bill tx sender } := by
  rw [applyBody, bind_of_ok (deduct_of_le h.upfront_le), modifyWorld,
    bind_of_ok (modify_apply _ _)]
  rfl

theorem applyTransaction_of_invalid (fuel : Nat) {e : TransactionError}
    (h : validateTransaction env tx s.world blockGasLimit = .error e) :
    applyTransaction env fuel tx blockGasLimit s = .error (.raised (.transactionError e)) s := by
  simp only [applyTransaction, bind_apply, get_apply, h, throw_apply]

theorem applyTransaction_of_valid (h : Valid env tx s.world blockGasLimit sender) :
    applyTransaction env fuel tx blockGasLimit s =
      match applyBody env fuel tx sender s.world.snapshot s with
      | .error (.raised e) s₁ => applyFailed tx sender s.world.snapshot (failureText e) s₁
      | result => result := by
  have hv := validateTransaction_eq_ok_iff.mpr h
  unfold applyTransaction
  rw [bind_of_ok (get_apply _)]
  generalize validateTransaction env tx s.world blockGasLimit = r at hv ⊢
  subst hv
  rfl

theorem applyTransaction_applied (env : Env) (fuel : Nat) (tx : Transaction) (blockGasLimit : Int)
    (s : TxState) :
    Applied env fuel tx blockGasLimit s (applyTransaction env fuel tx blockGasLimit s) := by
  cases hv : validateTransaction env tx s.world blockGasLimit with
  | error e =>
    rw [applyTransaction_of_invalid _ hv]
    apply Applied.rejected
    intro sender hvalid
    rw [validateTransaction_eq_ok_iff.mpr hvalid] at hv
    cases hv
  | ok sender =>
    have hvalid := validateTransaction_eq_ok_iff.mp hv
    rw [applyTransaction_of_valid hvalid, applyBody_eq hvalid]
    cases hexec : executeTransaction env fuel tx sender tx.executionGas
        { s with world := s.world.bill tx sender } with
    | error e s₁ =>
      rw [bind_of_error hexec]
      cases e with
      | outOfFuel => exact .unfinished hvalid hexec
      | raised e =>
        dsimp only
        rw [applyFailed_eq hvalid]
        exact .failed hvalid hexec (.inl ⟨e, s₁, rfl⟩) rfl rfl rfl rfl rfl
    | ok x s₁ =>
      rw [bind_of_ok hexec]
      cases hx : x.success with
      | false =>
        rw [settleTransaction_failure hvalid hx]
        exact .failed hvalid hexec (.inr ⟨x, s₁, rfl, hx⟩) rfl rfl rfl rfl rfl
      | true =>
        rw [settleTransaction_success hx]
        exact .succeeded hvalid hexec hx rfl rfl rfl rfl rfl

/-- What a call of `apply_transaction` returns or raises. -/
def answer : EStateM.Result Abort TxState TransactionResult → Except Abort TransactionResult
  | .ok result _ => .ok result
  | .error e _ => .error e

/-- A call of `apply_transaction` with a block gas limit. -/
def applyEntry (env : Env) (fuel : Nat) (s : TxState) (entry : Transaction × Int) :
    Except Abort TransactionResult × TxState :=
  let r := applyTransaction env fuel entry.1 entry.2 s
  (answer r, final r)

/-- One call of `apply_transaction` after the other. -/
def applyAll (env : Env) (fuel : Nat) (txs : List (Transaction × Int)) (s : TxState) :
    List (Except Abort TransactionResult) × TxState :=
  Machine.run (applyEntry env fuel) txs s

end Ethereum
