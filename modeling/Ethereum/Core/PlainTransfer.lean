import Ethereum.Core.Apply
import Ethereum.Lib.Posting
import Mathlib.Algebra.Group.Prod

/-! Payments to accounts without code, as amounts posted to the accounts of the world state. -/
namespace Ethereum

open Stateful Posting

/-- Nonce steps and ether, added to an account. -/
instance : AddAction (Int × Int) Account where
  vadd p account :=
    { account with nonce := account.nonce + p.1, balance := account.balance + p.2 }
  zero_vadd := by
    intro account
    change { account with nonce := account.nonce + 0, balance := account.balance + 0 } = account
    rw [add_zero, add_zero]
  add_vadd := by
    rintro ⟨n, b⟩ ⟨n', b'⟩ account
    change { account with
      nonce := account.nonce + (n + n'), balance := account.balance + (b + b') } = { account with
      nonce := account.nonce + n' + n, balance := account.balance + b' + b }
    congr 1 <;> ring

/-- An amount of ether, without a nonce step. -/
def ether (amount : Int) : Int × Int := (0, amount)

def nonceStep : Int × Int := (1, 0)

@[simp] theorem ether_zero : ether 0 = 0 := rfl

theorem vadd_account (n b : Int) (account : Account) :
    (n, b) +ᵥ account =
      { account with nonce := account.nonce + n, balance := account.balance + b } := rfl

namespace WorldState

variable {w w' : WorldState} {a sender recipient : Bytes} {value : Int}

theorem get?_modifyAccount {f : Account → Account} {p : Int × Int} (hf : ∀ x, f x = p +ᵥ x) :
    (w.modifyAccount a f).accounts.get? = post emptyAccount w.accounts.get? (a, p) := by
  funext b
  rw [modifyAccount, setAccount, Dict.get?_set, post, hf]
  by_cases h : b = a
  · subst h
    rw [if_pos rfl, Function.update_self]
    rfl
  · rw [if_neg h, Function.update_of_ne h]

theorem get?_addBalance (amount : Int) :
    (w.addBalance a amount).accounts.get? =
      post emptyAccount w.accounts.get? (a, ether amount) := by
  apply get?_modifyAccount
  intro x
  rw [ether, vadd_account, add_zero]

theorem get?_debit (amount : Int) :
    (w.modifyAccount a fun x => { x with balance := x.balance - amount }).accounts.get? =
      post emptyAccount w.accounts.get? (a, ether (-amount)) := by
  apply get?_modifyAccount
  intro x
  rw [ether, vadd_account, add_zero, ← sub_eq_add_neg]

theorem get?_incrementNonce :
    (w.incrementNonce a).accounts.get? = post emptyAccount w.accounts.get? (a, nonceStep) := by
  apply get?_modifyAccount
  intro x
  rw [nonceStep, vadd_account, add_zero]

end WorldState

/-- What the four steps of a payment post: the gas, the nonce, the value and the refund. -/
def Transaction.postings (tx : Transaction) (sender : Bytes) : List (Bytes × Int × Int) :=
  [(sender, ether (-(tx.gas * tx.gasPrice))), (sender, nonceStep)] ++
    (if 0 < tx.value then [(sender, ether (-tx.value)), (tx.to, ether tx.value)] else []) ++
    if 0 < tx.executionGas * tx.gasPrice then [(sender, ether (tx.executionGas * tx.gasPrice))]
    else []

section Postings

variable {w w' : WorldState} {tx : Transaction} {sender : Bytes}

theorem get?_bill : (w.bill tx sender).accounts.get? = postAll emptyAccount w.accounts.get?
    [(sender, ether (-(tx.gas * tx.gasPrice))), (sender, nonceStep)] := by
  rw [WorldState.bill, WorldState.get?_incrementNonce, WorldState.get?_debit]
  rfl

theorem get?_payValue {recipient : Bytes} {value : Int}
    (h : payValue w sender recipient value = .ok w') :
    w'.accounts.get? = postAll emptyAccount w.accounts.get?
      (if 0 < value then [(sender, ether (-value)), (recipient, ether value)] else []) := by
  unfold payValue at h
  by_cases hv : 0 < value
  · rw [if_pos hv] at h ⊢
    rcases WorldState.transfer_eq_ok_iff.mp h with ⟨h0, -⟩ | ⟨-, -, rfl⟩
    · omega
    · rw [WorldState.get?_addBalance, WorldState.get?_debit]
      rfl
  · rw [if_neg hv] at h ⊢
    cases h
    rfl

theorem get?_refund {gasRemaining : Int} :
    (w.refund tx sender gasRemaining).accounts.get? = postAll emptyAccount w.accounts.get?
      (if 0 < gasRemaining * tx.gasPrice then [(sender, ether (gasRemaining * tx.gasPrice))]
      else []) := by
  unfold WorldState.refund
  split
  · exact WorldState.get?_addBalance _
  · rfl

end Postings

section Transfer

variable {env : Env} {fuel : Nat} {tx : Transaction} {sender : Bytes} {blockGasLimit : Int}
  {s : TxState} {w : WorldState}

/-- The recipient is there and is no contract. -/
structure Plain (w : WorldState) (tx : Transaction) : Prop where
  recipient : tx.to ≠ []
  code : (w.getAccount tx.to).code = []

/-- What `apply_transaction` returns for a payment. -/
def Transaction.transferResult (tx : Transaction) : TransactionResult where
  success := true
  returnData := []
  gasUsed := calculateIntrinsicGas tx.data
  gasRemaining := tx.executionGas

theorem executeTransaction_of_plain (hplain : Plain s.world tx) {gas : Int} {w' : WorldState}
    (hpay : payValue s.world sender tx.to tx.value = .ok w') :
    executeTransaction env fuel tx sender gas s = .ok
      { success := true, returnData := [], gasUsed := 0, gasRemaining := gas }
      { s with world := w' } := by
  rw [executeTransaction, bind_of_ok (get_apply _), if_neg hplain.recipient,
    if_neg (not_not.mpr hplain.code), executeValueTransfer, sendValue, bind_assoc,
    bind_of_ok (get_apply _)]
  simp only [hpay, modifyWorld]
  rw [bind_of_ok (modify_apply _ _), pure_apply]

/-- A validated payment goes through, and what it comes to are its postings. -/
theorem applyTransaction_of_plain (fuel : Nat) (h : Valid env tx s.world blockGasLimit sender)
    (hplain : Plain s.world tx) :
    ∃ w', applyTransaction env fuel tx blockGasLimit s = .ok tx.transferResult
        { s with world := w' } ∧
      w'.accounts.get? = postAll emptyAccount s.world.accounts.get? (tx.postings sender) := by
  obtain ⟨w', hpay⟩ := h.payValue_bill tx.to
  have hplain' : Plain (s.world.bill tx sender) tx := by
    refine ⟨hplain.recipient, ?_⟩
    rw [field_bill Account.code (fun _ _ _ => rfl)]
    exact hplain.code
  have hexec : executeTransaction env fuel tx sender tx.executionGas
      { s with world := s.world.bill tx sender } = _ := executeTransaction_of_plain hplain' hpay
  refine ⟨w'.refund tx sender tx.executionGas, ?_, ?_⟩
  · rw [applyTransaction_of_valid h, applyBody_eq h, bind_of_ok hexec,
      settleTransaction_success rfl]
    have hused : tx.gas - tx.executionGas = calculateIntrinsicGas tx.data := by
      unfold Transaction.executionGas
      omega
    simp only [hused]
    rfl
  · rw [get?_refund, get?_payValue hpay, get?_bill, ← postAll_append, ← postAll_append]
    rfl

/-- Postings of an amount that is made only where it is positive. -/
theorem sum_postings_of_pos {l : List (Bytes × Int × Int)} {amount : Int} {f : Bytes × Int × Int →
    Int × Int} (h0 : 0 ≤ amount) (hl : amount = 0 → (l.map f).sum = 0) :
    ((if 0 < amount then l else []).map f).sum = (l.map f).sum := by
  by_cases h : 0 < amount
  · rw [if_pos h]
  · rw [if_neg h, hl (by omega)]
    rfl

/-- What is posted to an account in all. -/
theorem sum_postings (h : Valid env tx w blockGasLimit sender) (a : Bytes) :
    ((tx.postings sender).map fun p => if p.1 = a then p.2 else 0).sum =
      (if a = sender then 1 else 0, (if a = tx.to then tx.value else 0) -
        if a = sender then tx.value + calculateIntrinsicGas tx.data * tx.gasPrice else 0) := by
  have hgas : 0 ≤ tx.executionGas := sub_nonneg.mpr h.intrinsicGas
  have hrefund := Int.mul_nonneg hgas h.nonNegative.gasPrice
  have hsplit : tx.gas * tx.gasPrice =
      tx.executionGas * tx.gasPrice + calculateIntrinsicGas tx.data * tx.gasPrice := by
    unfold Transaction.executionGas
    ring
  unfold Transaction.postings
  rw [List.map_append, List.map_append, List.sum_append, List.sum_append,
    sum_postings_of_pos h.nonNegative.value, sum_postings_of_pos hrefund, hsplit]
  rotate_left
  · intro h0
    simp [h0]
  · intro h0
    simp [h0]
  rcases eq_or_ne a sender with rfl | hs <;> rcases eq_or_ne a tx.to with ht | ht
  all_goals
    ext <;> simp_all [ether, nonceStep, eq_comm]
    try ring

/-- Every account after a payment. -/
theorem getAccount_of_postings {w' : WorldState} (h : Valid env tx w blockGasLimit sender)
    (hw : w'.accounts.get? = postAll emptyAccount w.accounts.get? (tx.postings sender))
    (a : Bytes) : w'.getAccount a = { w.getAccount a with
      nonce := (w.getAccount a).nonce + if a = sender then 1 else 0
      balance := (w.getAccount a).balance + ((if a = tx.to then tx.value else 0) -
        if a = sender then tx.value + calculateIntrinsicGas tx.data * tx.gasPrice else 0) } := by
  have hget : w'.getAccount a =
      (postAll emptyAccount w.accounts.get? (tx.postings sender) a).getD emptyAccount :=
    congrArg (fun f : Bytes → Option Account => (f a).getD emptyAccount) hw
  rw [hget, getD_postAll, sum_postings h]
  rfl

theorem keys_postings {p : Bytes × Int × Int} (h : p ∈ tx.postings sender) :
    p.1 = sender ∨ p.1 = tx.to := by
  unfold Transaction.postings at h
  simp only [List.mem_append, List.mem_cons, List.not_mem_nil, or_false] at h
  rcases h with ((rfl | rfl) | h) | h
  · exact .inl rfl
  · exact .inl rfl
  · split at h
    · simp only [List.mem_cons, List.not_mem_nil, or_false] at h
      rcases h with rfl | rfl
      · exact .inl rfl
      · exact .inr rfl
    · cases h
  · split at h
    · rw [List.mem_singleton] at h
      exact .inl (congrArg Prod.fst h)
    · cases h

/-- Every validated payment succeeds for its intrinsic gas. The sender pays the value and the
gas, the recipient is paid the value, also where the two are one, and nothing else changes. -/
theorem plain_transfer_succeeds (env : Env) (fuel : Nat) (tx : Transaction) (blockGasLimit : Int)
    (w : WorldState) (sender : Bytes)
    (hvalid : validateTransaction env tx w blockGasLimit = .ok sender) (hto : tx.to ≠ [])
    (hcode : (w.getAccount tx.to).code = []) :
    ∃ result s', applyTransaction env fuel tx blockGasLimit { world := w } = .ok result s' ∧
      result.success = true ∧ result.gasUsed = calculateIntrinsicGas tx.data ∧
      (∀ a, s'.world.getAccount a = { w.getAccount a with
        nonce := (w.getAccount a).nonce + if a = sender then 1 else 0
        balance := (w.getAccount a).balance + ((if a = tx.to then tx.value else 0) -
          if a = sender then tx.value + result.gasUsed * tx.gasPrice else 0) }) ∧
      ∀ a, a ≠ sender → a ≠ tx.to → s'.world.accounts.get? a = w.accounts.get? a := by
  have h := validateTransaction_eq_ok_iff.mp hvalid
  obtain ⟨w', happly, hw⟩ :=
    applyTransaction_of_plain fuel (s := { world := w }) h ⟨hto, hcode⟩
  refine ⟨_, _, happly, rfl, rfl, getAccount_of_postings h hw, ?_⟩
  intro a hsender hrecipient
  refine (congrFun hw a).trans (postAll_of_notMem ?_)
  intro hmem
  obtain ⟨p, hp, rfl⟩ := List.mem_map.mp hmem
  rcases keys_postings hp with h | h
  · exact hsender h
  · exact hrecipient h

/-- One wei is sent for 21000 wei of gas. -/
theorem plain_transfer_succeeds_sample : ∃ result s',
    applyTransaction sampleEnv 0 sampleTransaction 100000 { world := sampleWorld [] [] } =
        .ok result s' ∧
      s'.world.getBalance sampleSender = 1000000 - 21001 := by
  obtain ⟨result, s', h, -, hused, haccount, -⟩ := plain_transfer_succeeds sampleEnv 0
    sampleTransaction 100000 (sampleWorld [] []) sampleSender (by decide +kernel)
    (by decide +kernel) (by decide +kernel)
  refine ⟨result, s', h, ?_⟩
  rw [WorldState.getBalance, haccount sampleSender, hused]
  decide +kernel

end Transfer

end Ethereum
