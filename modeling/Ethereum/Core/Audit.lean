import Ethereum.Core.Conservation
import Ethereum.Core.Replay
import Mathlib.Algebra.Group.Prod

/-! What transactions return accounts for the ether that has gone, and for what an account
has lost whose code does not run. -/
namespace Ethereum

open Stateful Sequencing

namespace Submission

/-- The price of the gas that was used. -/
def fee (x : Submission) : Int :=
  match x.result with
  | none => 0
  | some result => result.gasUsed * x.tx.gasPrice

/-- The nonces that an account has used up with the transaction, and what it has authorised
to be taken from it: the fee and, if the transaction succeeded, the value. -/
def debit (env : Env) (a : Bytes) (x : Submission) : Int × Int :=
  match x.result with
  | none => 0
  | some result =>
    if recoverSender env x.tx = .ok a then (1, (if result.success then x.tx.value else 0) + x.fee)
    else 0

end Submission

variable {env : Env} {fuel : Nat} {tx : Transaction} {a : Bytes} {blockGasLimit : Int}
  {s s' : TxState} {x : Submission} {submissions : List Submission}
  {result : TransactionResult}

theorem solvent_of_submit (h : Submit env s x s') (hs : s.world.Solvent) :
    s'.world.Solvent ∧ s'.world.totalBalance = s.world.totalBalance - x.fee := by
  cases h with
  | accepted h =>
    obtain ⟨htotal, hsolvent⟩ := (accepted_of_applyTransaction h).conserves hs
    exact ⟨hsolvent, htotal⟩
  | rejected h =>
    obtain rfl := state_of_rejected h
    exact ⟨hs, (Int.sub_zero _).symm⟩

/-- An account whose code does not run has spent what it has authorised, or nothing. -/
theorem spent_of_accepted (h : Accepted env tx blockGasLimit s s' result)
    (ha : a ∉ entered s'.log) :
    Spent s.world s'.world a ((⟨tx, blockGasLimit, some result⟩ : Submission).debit env a).1
      ((⟨tx, blockGasLimit, some result⟩ : Submission).debit env a).2 := by
  have hdebit {sender : Bytes} (hvalid : Valid env tx s.world blockGasLimit sender)
      (hspent : a = sender → Spent s.world s'.world sender 1
        ((if result.success then tx.value else 0) + result.gasUsed * tx.gasPrice))
      (hother : a ≠ sender → Untouched s.world s'.world a) :
      Spent s.world s'.world a ((⟨tx, blockGasLimit, some result⟩ : Submission).debit env a).1
        ((⟨tx, blockGasLimit, some result⟩ : Submission).debit env a).2 := by
    unfold Submission.debit
    dsimp only
    rw [hvalid.recovered]
    by_cases hsender : a = sender
    · subst hsender
      rw [if_pos rfl]
      exact hspent rfl
    · rw [if_neg fun he => hsender (Except.ok.inj he).symm]
      exact (hother hsender).spent
  cases h with
  | failed hvalid hworld hsuccess hused =>
    refine hdebit hvalid (fun _ => ?_) fun hne => ?_
    · rw [hworld, hsuccess, hused]
      simpa using spent_bill
    · rw [hworld]
      exact untouched_of_getAccount_eq (getAccount_bill_of_ne hne)
  | completed hvalid hcompleted hsuccess hused =>
    refine hdebit hvalid (fun he => ?_) fun hne => untouched_completed hcompleted hne ha
    subst he
    rw [hsuccess, hused, if_pos rfl]
    exact spent_completed hcompleted hvalid.nonNegative ha

theorem spent_of_submit (h : Submit env s x s') (ha : a ∉ entered s'.log) :
    Spent s.world s'.world a (x.debit env a).1 (x.debit env a).2 := by
  cases h with
  | accepted h => exact spent_of_accepted (accepted_of_applyTransaction h) ha
  | rejected h =>
    obtain rfl := state_of_rejected h
    exact (Untouched.refl _ _).spent

theorem spent_of_history (h : History (Submit env) s submissions s')
    (ha : a ∉ entered s'.log) : Spent s.world s'.world a
      (submissions.map (Submission.debit env a)).sum.1
      (submissions.map (Submission.debit env a)).sum.2 := by
  refine (idle_of_history h ha).of_amounts
    (R := fun (m : Int × Int) s t => Spent s.world t.world a m.1 m.2) ?_ ?_ ?_
  · exact fun s => (Untouched.refl _ _).spent
  · exact fun h h' => h.trans h'
  · exact fun h => spent_of_submit h.1 h.2

theorem ledger_of_history (hs : s.world.Solvent) (h : History (Submit env) s submissions s') :
    s'.world.Solvent ∧
      s'.world.totalBalance = s.world.totalBalance - (submissions.map Submission.fee).sum := by
  have hledger := h.of_amounts (R := fun fee s s' => s.world.Solvent → s'.world.Solvent ∧
    s'.world.totalBalance = s.world.totalBalance - fee) (fun s hs => ⟨hs, (Int.sub_zero _).symm⟩)
    ?_ fun h => solvent_of_submit h
  · exact hledger hs
  · intro m n s t u h h' hs
    obtain ⟨ht, htotal⟩ := h hs
    obtain ⟨hu, htotal'⟩ := h' ht
    exact ⟨hu, by omega⟩

/-- After any transactions, accepted or rejected, the ether that is missing is what they have paid
for gas. An account whose code has not run has its nonce moved on by its own accepted
transactions and has lost no more than the fees and values of these. -/
theorem history_audit (env : Env) (s s' : TxState) (submissions : List Submission)
    (hs : s.world.Solvent) (h : History (Submit env) s submissions s') :
    s'.world.Solvent ∧
      s'.world.totalBalance = s.world.totalBalance - (submissions.map Submission.fee).sum ∧
      ∀ a, a ∉ entered s'.log → Spent s.world s'.world a
        (submissions.map (Submission.debit env a)).sum.1
        (submissions.map (Submission.debit env a)).sum.2 := by
  obtain ⟨hsolvent, htotal⟩ := ledger_of_history hs h
  exact ⟨hsolvent, htotal, fun a ha => spent_of_history h ha⟩

/-- A call of one contract by another, and the same transaction once more, which is rejected. -/
theorem history_audit_replayed : ∃ result s',
    History (Submit sampleEnv) sampleState
      [⟨sampleTransaction, 100000, some result⟩, ⟨sampleTransaction, 100000, none⟩] s' ∧
    s'.world.totalBalance = sampleState.world.totalBalance - (result.gasUsed * 1 + (0 + 0)) := by
  obtain ⟨result, s', h, hp⟩ := exists_of_returns
    (p := fun _ s => validateTransaction sampleEnv sampleTransaction s.world 100000 =
      .error (.invalidNonce 1 0))
    (r := applyTransaction sampleEnv 100 sampleTransaction 100000 sampleState) (by decide +kernel)
  have hreplay := applyTransaction_of_invalid 100 (of_decide_eq_true hp)
  have hhistory := History.cons (Submit.accepted h) (.cons (Submit.rejected hreplay) .nil)
  have hsolvent : sampleState.world.Solvent := solvent_of_entries (by decide)
  exact ⟨result, s', hhistory, (history_audit _ _ _ _ hsolvent hhistory).2.1⟩

end Ethereum
