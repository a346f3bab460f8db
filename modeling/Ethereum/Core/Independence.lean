import Ethereum.Core.PlainTransfer

/-! Payments of different senders do not depend on the order in which they are applied. -/
namespace Ethereum

open Stateful Posting

variable {env : Env} {fuel : Nat} {tx tx' : Transaction} {blockGasLimit : Int} {w w' : WorldState}
  {s : TxState} {txs : List Transaction}

/-- A payment that would go through. -/
structure Payable (env : Env) (blockGasLimit : Int) (w : WorldState) (tx : Transaction) : Prop where
  valid : ∃ sender, Valid env tx w blockGasLimit sender
  plain : Plain w tx

/-- The postings of a payment from the signer of its fields. -/
def Transaction.signedPostings (env : Env) (tx : Transaction) : List (Bytes × Int × Int) :=
  match recoverSender env tx with
  | .error _ => []
  | .ok sender => tx.postings sender

theorem Payable.apply (h : Payable env blockGasLimit s.world tx) (fuel : Nat) :
    ∃ w', applyTransaction env fuel tx blockGasLimit s = .ok tx.transferResult
        { s with world := w' } ∧
      w'.accounts.get? =
        postAll emptyAccount s.world.accounts.get? (tx.signedPostings env) := by
  obtain ⟨sender, hvalid⟩ := h.valid
  obtain ⟨w', happly, hw⟩ := applyTransaction_of_plain fuel hvalid h.plain
  refine ⟨w', happly, hw.trans ?_⟩
  rw [Transaction.signedPostings, hvalid.recovered]

/-- A payment of another sender leaves a payment possible: it only adds to the balance that the
second one spends, and writes no code. -/
theorem Payable.after (h : Payable env blockGasLimit w tx) (h' : Payable env blockGasLimit w tx')
    (hw : w'.accounts.get? = postAll emptyAccount w.accounts.get? (tx.signedPostings env))
    (hne : recoverSender env tx' ≠ recoverSender env tx) : Payable env blockGasLimit w' tx' := by
  obtain ⟨sender, hvalid⟩ := h.valid
  obtain ⟨sender', hvalid'⟩ := h'.valid
  rw [hvalid.recovered, hvalid'.recovered] at hne
  have hsender : sender' ≠ sender := fun he => hne (congrArg _ he)
  rw [Transaction.signedPostings, hvalid.recovered] at hw
  have haccount := getAccount_of_postings hvalid hw
  constructor
  · refine ⟨sender', hvalid'.recovered, ?_, ?_, hvalid'.blockGasLimit, hvalid'.intrinsicGas⟩
    · rw [haccount, if_neg hsender, add_zero]
      exact hvalid'.nonce
    · have hbalance := hvalid'.balance
      have hvalue := hvalid.nonNegative.value
      rw [haccount, if_neg hsender]
      dsimp only
      split <;> omega
  · refine ⟨h'.plain.recipient, ?_⟩
    rw [haccount]
    exact h'.plain.code

/-- Payments of different senders that could each be applied now can be applied one by one. -/
theorem mapM_applyTransaction (fuel : Nat)
    (hpayable : ∀ tx ∈ txs, Payable env blockGasLimit s.world tx)
    (hsenders : (txs.map (recoverSender env)).Nodup) :
    ∃ w', txs.mapM (fun tx => applyTransaction env fuel tx blockGasLimit) s =
        .ok (txs.map Transaction.transferResult) { s with world := w' } ∧
      w'.accounts.get? = postAll emptyAccount s.world.accounts.get?
        (txs.flatMap (Transaction.signedPostings env)) := by
  induction txs generalizing s with
  | nil => exact ⟨s.world, rfl, rfl⟩
  | cons tx txs ih =>
    rw [List.map_cons, List.nodup_cons] at hsenders
    have hfirst := hpayable tx List.mem_cons_self
    obtain ⟨w₁, happly, hw₁⟩ := hfirst.apply fuel
    have hrest : ∀ tx' ∈ txs, Payable env blockGasLimit w₁ tx' := by
      intro tx' hmem
      apply hfirst.after (hpayable tx' (List.mem_cons_of_mem _ hmem)) hw₁
      intro he
      exact hsenders.1 (he ▸ List.mem_map_of_mem hmem)
    obtain ⟨w', hrun, hw'⟩ := ih (s := { s with world := w₁ }) hrest hsenders.2
    refine ⟨w', ?_, ?_⟩
    · rw [List.mapM_cons, bind_of_ok happly, bind_of_ok hrun, pure_apply, List.map_cons]
    · rw [hw', hw₁, List.flatMap_cons, postAll_append]

/-- Payments of different senders, each valid at the start, can be applied in any order. Each
has one result and all orders end in one map of accounts. -/
theorem independent_transfers_commute (env : Env) (blockGasLimit : Int) (w : WorldState)
    (txs : List Transaction) (hto : ∀ tx ∈ txs, tx.to ≠ [])
    (hcode : ∀ tx ∈ txs, (w.getAccount tx.to).code = [])
    (hvalid : ∀ tx ∈ txs, ∃ sender, validateTransaction env tx w blockGasLimit = .ok sender)
    (hsenders : (txs.map (recoverSender env)).Nodup) :
    ∃ (resultOf : Transaction → TransactionResult) (accounts : Bytes → Option Account),
      ∀ (fuel : Nat) (txs' : List Transaction), txs'.Perm txs → ∃ s',
        txs'.mapM (fun tx => applyTransaction env fuel tx blockGasLimit) { world := w } =
          .ok (txs'.map resultOf) s' ∧
        ∀ a, s'.world.accounts.get? a = accounts a := by
  refine ⟨Transaction.transferResult, postAll emptyAccount w.accounts.get?
    (txs.flatMap (Transaction.signedPostings env)), fun fuel txs' hperm => ?_⟩
  have hpayable : ∀ tx ∈ txs', Payable env blockGasLimit w tx := by
    intro tx hmem
    have hmem := hperm.mem_iff.mp hmem
    obtain ⟨sender, hsender⟩ := hvalid tx hmem
    exact ⟨⟨sender, validateTransaction_eq_ok_iff.mp hsender⟩, hto tx hmem, hcode tx hmem⟩
  obtain ⟨w', hrun, hw'⟩ := mapM_applyTransaction fuel (s := { world := w }) hpayable
    ((hperm.map _).nodup_iff.mpr hsenders)
  refine ⟨_, hrun, fun a => ?_⟩
  rw [hw', postAll_perm (hperm.flatMap_right _)]

/-- The recipient of the sample transaction pays 4 wei to its sender. -/
def returnTransaction : Transaction where
  nonce := 0
  gasPrice := 0
  gas := 21000
  «to» := sampleSender
  value := 4
  data := []
  v := 28
  r := 109816035912270624091684910798944263344368218361680768183340194296539323995371
  s := 19729747570864904003836241515193409106340048428130846765628707134767100087221

def returnTransactionHash : Bytes :=
  [0x87, 0x9d, 0x66, 0x43, 0xd4, 0x35, 0x8a, 0xc3, 0x11, 0x8b, 0x71, 0x66, 0x55, 0x5d, 0x9e, 0x6d,
    0x8e, 0x2e, 0x6b, 0x6c, 0x33, 0xbc, 0x2d, 0x58, 0xe9, 0xf9, 0x16, 0xb5, 0x22, 0xd0, 0x49, 0x37]

def exchangeEnv : Env := .ofTables
  [(rlpEncode (.list [.bytes [], .bytes [1], .bytes [0x01, 0x86, 0xa0], .bytes sampleContract,
      .bytes [1], .bytes []]), sampleTransactionHash),
    (rlpEncode (.list [.bytes [], .bytes [], .bytes [0x52, 0x08], .bytes sampleSender,
      .bytes [4], .bytes []]), returnTransactionHash)]
  [((0, sampleTransaction.r, sampleTransaction.s, sampleTransactionHash), sampleSender),
    ((1, returnTransaction.r, returnTransaction.s, returnTransactionHash), sampleContract)]
  (by decide) (by decide)

/-- Two accounts pay each other, one way round and the other. -/
theorem independent_transfers_commute_exchange : ∃ results results' s s',
    [sampleTransaction, returnTransaction].mapM (applyTransaction exchangeEnv 0 · 100000)
        { world := sampleWorld [] [] } = .ok results s ∧
      [returnTransaction, sampleTransaction].mapM (applyTransaction exchangeEnv 0 · 100000)
        { world := sampleWorld [] [] } = .ok results' s' ∧
      results' = results.reverse ∧ ∀ a, s'.world.accounts.get? a = s.world.accounts.get? a := by
  have hvalid : ∀ tx ∈ [sampleTransaction, returnTransaction], ∃ sender,
      validateTransaction exchangeEnv tx (sampleWorld [] []) 100000 = .ok sender := by
    intro tx hmem
    simp only [List.mem_cons, List.not_mem_nil, or_false] at hmem
    rcases hmem with rfl | rfl
    · exact ⟨sampleSender, by decide +kernel⟩
    · exact ⟨sampleContract, by decide +kernel⟩
  obtain ⟨resultOf, accounts, h⟩ := independent_transfers_commute exchangeEnv 100000
    (sampleWorld [] []) [sampleTransaction, returnTransaction] (by decide +kernel)
    (by decide +kernel) hvalid (by decide +kernel)
  obtain ⟨s, hrun, hs⟩ := h 0 _ (List.Perm.refl _)
  obtain ⟨s', hrun', hs'⟩ := h 0 [returnTransaction, sampleTransaction] (List.Perm.swap _ _ _)
  refine ⟨_, _, s, s', hrun, hrun', rfl, ?_⟩
  intro a
  rw [hs, hs']

end Ethereum
