import Ethereum.Core.Authorization
import Ethereum.Lib.Sequencing

/-! Replay protection over whole histories of transactions. -/
namespace Ethereum

open Stateful Sequencing

/-- What `apply_transaction` was called with, and its result unless it has raised. -/
structure Submission where
  tx : Transaction
  blockGasLimit : Int
  result : Option TransactionResult

/-- One call of `apply_transaction` that ends. The log goes on from call to call. -/
inductive Submit (env : Env) : TxState → Submission → TxState → Prop
  | accepted {fuel tx blockGasLimit s s' result}
      (h : applyTransaction env fuel tx blockGasLimit s = .ok result s') :
      Submit env s ⟨tx, blockGasLimit, some result⟩ s'
  | rejected {fuel tx blockGasLimit s s' e}
      (h : applyTransaction env fuel tx blockGasLimit s = .error (.raised e) s') :
      Submit env s ⟨tx, blockGasLimit, none⟩ s'

namespace Submission

/-- Only transactions that pass validation have a result. -/
def accepted (x : Submission) : Bool := x.result.isSome

/-- The nonce that a submission has used up for an account, if it was accepted from it. -/
def usedNonce (env : Env) (x : Submission) (a : Bytes) : Option Int :=
  if x.accepted = true ∧ recoverSender env x.tx = .ok a then some x.tx.nonce else none

end Submission

def TxState.nonceOf (s : TxState) (a : Bytes) : Int := (s.world.getAccount a).nonce

variable {env : Env} {fuel : Nat} {tx : Transaction} {sender a : Bytes} {blockGasLimit n : Int}
  {s s' : TxState} {result : TransactionResult} {x : Submission} {submissions : List Submission}

@[simp] theorem accepted_some :
    (⟨tx, blockGasLimit, some result⟩ : Submission).accepted = true := rfl

@[simp] theorem accepted_none : (⟨tx, blockGasLimit, none⟩ : Submission).accepted = false := rfl

theorem usedNonce_eq_some :
    x.usedNonce env a = some n ↔
      x.accepted = true ∧ recoverSender env x.tx = .ok a ∧ x.tx.nonce = n := by
  unfold Submission.usedNonce
  split
  · next h => simp [h]
  · next h =>
    constructor
    · intro h'
      cases h'
    · rintro ⟨h1, h2, -⟩
      exact absurd ⟨h1, h2⟩ h

theorem nonce_le_bill (w : WorldState) (a : Bytes) :
    (w.getAccount a).nonce ≤ ((w.bill tx sender).getAccount a).nonce := by
  by_cases h : a = sender
  · subst h
    rw [getAccount_bill_self]
    exact Int.le_add_one le_rfl
  · rw [getAccount_bill_of_ne h]

theorem Completed.nonce_le {w w' : WorldState} {log : List Event} {gasRemaining : Int}
    (h : Completed tx sender log gasRemaining w w') (a : Bytes) :
    ((w.bill tx sender).getAccount a).nonce ≤ (w'.getAccount a).nonce := by
  obtain ⟨htouch, hpay, hmoves, hgas, rfl⟩ := h
  have hpaid := (Moves.pay (S := fun _ => True) trivial hpay).nonce_le a
  exact (((htouch.nonce_le a).trans hpaid).trans (hmoves.nonce_le a)).trans
    untouched_refund.nonce.ge

/-- An accepted transaction had its sender's nonce and leaves a larger one. -/
theorem nonce_of_accepted (h : Accepted env tx blockGasLimit s s' result) :
    ∃ sender, recoverSender env tx = .ok sender ∧ s.nonceOf sender = tx.nonce ∧
      ∀ a, ((s.world.bill tx sender).getAccount a).nonce ≤ s'.nonceOf a := by
  cases h with
  | @failed sender hvalid hworld _ _ =>
    exact ⟨sender, hvalid.recovered, hvalid.nonce, fun a => by rw [TxState.nonceOf, hworld]⟩
  | @completed sender hvalid hcompleted _ _ =>
    exact ⟨sender, hvalid.recovered, hvalid.nonce, hcompleted.nonce_le⟩

theorem state_of_rejected {e : PyException}
    (h : applyTransaction env fuel tx blockGasLimit s = .error (.raised e) s') : s' = s := by
  have happlied := applyTransaction_applied env fuel tx blockGasLimit s
  rw [h] at happlied
  cases happlied
  rfl

/-- Nonces number the accepted transactions of each sender. -/
theorem numbered_submit :
    Numbered (Submit env) TxState.nonceOf (Submission.usedNonce env) where
  mono := by
    intro s x s' h a
    cases h with
    | accepted h =>
      obtain ⟨sender, -, -, hle⟩ := nonce_of_accepted (accepted_of_applyTransaction h)
      exact (nonce_le_bill s.world a).trans (hle a)
    | rejected h => rw [state_of_rejected h]
  eq := by
    intro s x s' a n h hn
    cases h with
    | accepted h =>
      obtain ⟨sender, hsender, hnonce, -⟩ := nonce_of_accepted (accepted_of_applyTransaction h)
      obtain ⟨-, ha, rfl⟩ := usedNonce_eq_some.mp hn
      cases hsender.symm.trans ha
      exact hnonce.symm
    | rejected h => exact absurd (usedNonce_eq_some.mp hn).1 Bool.false_ne_true
  lt := by
    intro s x s' a n h hn
    cases h with
    | accepted h =>
      obtain ⟨sender, hsender, hnonce, hle⟩ := nonce_of_accepted (accepted_of_applyTransaction h)
      obtain ⟨-, ha, rfl⟩ := usedNonce_eq_some.mp hn
      cases hsender.symm.trans ha
      have hself := hle a
      rw [getAccount_bill_self] at hself
      unfold TxState.nonceOf at *
      dsimp only at hself ⊢
      omega
    | rejected h => exact absurd (usedNonce_eq_some.mp hn).1 Bool.false_ne_true

theorem log_prefix_submit (h : Submit env s x s') : s.log <+: s'.log := by
  cases h with
  | accepted h => exact log_prefix_of_applyTransaction h
  | rejected h =>
    obtain rfl := state_of_rejected h
    exact List.prefix_rfl

/-- The nonce of an account whose code does not run. -/
theorem nonce_of_accepted_idle (h : Accepted env tx blockGasLimit s s' result)
    (ha : a ∉ entered s'.log) :
    s'.nonceOf a = s.nonceOf a + if recoverSender env tx = .ok a then 1 else 0 := by
  unfold TxState.nonceOf
  cases h with
  | @failed sender hvalid hworld _ _ =>
    rw [hvalid.recovered, hworld]
    by_cases he : a = sender
    · rw [he, getAccount_bill_self, if_pos rfl]
    · have hne : ¬ (Except.ok sender : Except String Bytes) = .ok a := by simpa [eq_comm] using he
      rw [getAccount_bill_of_ne he, if_neg hne, add_zero]
  | @completed sender hvalid hcompleted _ _ =>
    rw [hvalid.recovered]
    by_cases he : a = sender
    · subst he
      rw [(spent_completed hcompleted hvalid.nonNegative ha).nonce, if_pos rfl]
    · have hne : ¬ (Except.ok sender : Except String Bytes) = .ok a := by simpa [eq_comm] using he
      rw [(untouched_completed hcompleted he ha).nonce, if_neg hne, add_zero]

/-- A submission moves the nonce of an account whose code does not run when it uses it. -/
theorem nonce_of_submit_idle (h : Submit env s x s') (ha : a ∉ entered s'.log) :
    s'.nonceOf a = s.nonceOf a + if (x.usedNonce env a).isSome then 1 else 0 := by
  cases h with
  | accepted h =>
    rw [nonce_of_accepted_idle (accepted_of_applyTransaction h) ha]
    congr 1
    simp [Submission.usedNonce]
  | rejected h => simp [state_of_rejected h, Submission.usedNonce]

/-- The code of an account that has not run at the end has not run after any step. -/
theorem idle_of_history (h : History (Submit env) s submissions s') (ha : a ∉ entered s'.log) :
    History (fun s x t => Submit env s x t ∧ a ∉ entered t.log) s submissions s' := by
  have hback : ∀ {s : TxState} {x : Submission} {t : TxState}, Submit env s x t →
      a ∉ entered t.log → a ∉ entered s.log :=
    fun hs ht hmem => ht (entered_mono (log_prefix_submit hs) hmem)
  exact (h.restrict hback ha).2

/-- No nonce of a sender is ever accepted twice, nonces never fall, and those accepted
from an account whose code never runs are consecutive. -/
theorem replay_protection (env : Env) (w : WorldState) (s : TxState)
    (submissions : List Submission) (h : History (Submit env) { world := w } submissions s) :
    (submissions.Pairwise fun x y =>
        ∀ a n, x.usedNonce env a = some n → y.usedNonce env a ≠ some n) ∧
      (∀ tx blockGasLimit a, Valid env tx s.world blockGasLimit a →
        ∀ x ∈ submissions, x.usedNonce env a ≠ some tx.nonce) ∧
      (∀ a, (w.getAccount a).nonce ≤ (s.world.getAccount a).nonce) ∧
      ∀ a, a ∉ entered s.log →
        submissions.filterMap (·.usedNonce env a) =
          (List.range (submissions.filterMap (·.usedNonce env a)).length).map
            fun i : Nat => (w.getAccount a).nonce + (i : Int) := by
  refine ⟨h.pairwise_number numbered_submit, ?_, h.counter_le numbered_submit, ?_⟩
  · intro tx blockGasLimit a hvalid x hx hn
    have hlt := (h.number_bounds numbered_submit hx hn).2
    have := hvalid.nonce
    unfold TxState.nonceOf at hlt
    omega
  · intro a ha
    have hidle := idle_of_history h ha
    refine hidle.consecutive TxState.nonceOf ?_ ?_
    · intro t x t' n ⟨hs, ht⟩ hn
      refine ⟨numbered_submit.eq hs hn, ?_⟩
      rw [nonce_of_submit_idle hs ht, hn, Option.isSome_some, if_pos rfl]
    · intro t x t' ⟨hs, ht⟩ hn
      rw [nonce_of_submit_idle hs ht, hn, Option.isSome_none, if_neg Bool.false_ne_true,
        add_zero]

/-- A transaction that was accepted and then rejected is never accepted again. -/
theorem replay_protection_twice : ∃ result s,
    History (Submit sampleEnv) sampleState
      [⟨sampleTransaction, 100000, some result⟩, ⟨sampleTransaction, 100000, none⟩] s ∧
    ∀ later t, History (Submit sampleEnv) s later t →
      ∀ y ∈ later, y.tx = sampleTransaction → y.accepted = false := by
  obtain ⟨result, s, h, hp⟩ := exists_of_returns
    (p := fun _ s => validateTransaction sampleEnv sampleTransaction s.world 100000 =
      .error (.invalidNonce 1 0))
    (r := applyTransaction sampleEnv 100 sampleTransaction 100000 sampleState) (by decide +kernel)
  have hreplay := applyTransaction_of_invalid 100 (of_decide_eq_true hp)
  have hhistory := History.cons (Submit.accepted h) (.cons (Submit.rejected hreplay) .nil)
  have hsender : recoverSender sampleEnv sampleTransaction = .ok sampleSender := by decide +kernel
  refine ⟨result, s, hhistory, fun later t hlater y hy htx => ?_⟩
  have hpairwise := (replay_protection _ _ _ _ (hhistory.append hlater)).1
  have hunused := (List.pairwise_append.mp hpairwise).2.2 _ List.mem_cons_self y hy sampleSender
    sampleTransaction.nonce (usedNonce_eq_some.mpr ⟨rfl, hsender, rfl⟩)
  by_contra haccepted
  refine hunused (usedNonce_eq_some.mpr ⟨?_, htx ▸ hsender, htx ▸ rfl⟩)
  simpa using haccepted

end Ethereum
