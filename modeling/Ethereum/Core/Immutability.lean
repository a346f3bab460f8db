import Ethereum.Core.Replay
import Ethereum.Core.Words
import Ethereum.Evm.Creation

/-! Contract addresses are used once, and the code at them stays. -/
namespace Ethereum

open Stateful Allocation Sequencing

/-- The pairs of creator and nonce from which a transaction that is accepted, or a frame of
it, computes the address of a contract whose init code it runs. -/
inductive Evaluates (env : Env) (tx : Transaction) (blockGasLimit : Int) (s : TxState) :
    Bytes → Int → Prop
  | transaction {sender} (hvalid : Valid env tx s.world blockGasLimit sender) (hto : tx.to = []) :
      Evaluates env tx blockGasLimit s sender tx.nonce
  | opcode {start evm q evm₁ w} (hstart : Starts env tx blockGasLimit s start)
      (hs : Reaches env start evm) (hrun : evm.running = true)
      (hb : begin env evm = .ok (some (.create q)) evm₁) (hw : evm.worldState = some w) :
      Evaluates env tx blockGasLimit s evm.context.address
        (w.getAccount evm.context.address).nonce

/-- A creation stores its result as code: the world state before, and where. -/
inductive Stores (env : Env) (tx : Transaction) (blockGasLimit : Int) (s : TxState) :
    WorldState → Bytes → Prop
  | transaction {sender t w w' evm w''} (hvalid : Valid env tx s.world blockGasLimit sender)
      (ht : Opens env tx sender (s.world.bill tx sender) t w) (hkind : t.kind = .creation)
      (hpay : payValue w sender t.address tx.value = .ok w')
      (hrun : Run env (t.start tx sender tx.executionGas w' s.log) (.ok () evm))
      (hsuccess : evm.reverted = false) (hw : evm.worldState = some w'') :
      Stores env tx blockGasLimit s w'' t.address
  | opcode {start w a} (hstart : Starts env tx blockGasLimit s start)
      (h : StoresCode env start w a) : Stores env tx blockGasLimit s w a

variable {env : Env} {P : Bytes → Int → Prop} {fuel : Nat} {tx : Transaction}
  {sender a : Bytes} {blockGasLimit : Int} {s s' : TxState} {result : TransactionResult}
  {t : TopFrame} {w w' w'' : WorldState} {start : EVM} {c : LoopResult}

theorem slots_bill (w : WorldState) :
    (w.bill tx sender).slots.cell = w.slots.cell ∧
      (w.bill tx sender).slots.counter sender = w.slots.counter sender + 1 ∧
      ∀ a, w.slots.counter a ≤ (w.bill tx sender).slots.counter a := by
  refine ⟨funext (field_bill Account.code fun _ _ _ => rfl), ?_, fun a => nonce_le_bill w a⟩
  change ((w.bill tx sender).getAccount sender).nonce = (w.getAccount sender).nonce + 1
  rw [getAccount_bill_self]

theorem slots_refund (w : WorldState) (gasRemaining : Int) :
    (w.refund tx sender gasRemaining).slots = w.slots :=
  slots_congr (field_refund Account.nonce (fun _ _ => rfl) gasRemaining)
    (field_refund Account.code (fun _ _ => rfl) gasRemaining)

theorem Opens.slots (h : Opens env tx sender w t w') : w'.slots = w.slots :=
  slots_congr (fun a => congrArg Account.nonce (h.getAccount_eq a))
    (fun a => congrArg Account.code (h.getAccount_eq a))

theorem Starts.createsIn (h : Starts env tx blockGasLimit s start)
    (hP : ∀ creator nonce, Evaluates env tx blockGasLimit s creator nonce → P creator nonce) :
    CreatesIn env P start :=
  fun _ _ _ _ hs hrun hb hw => hP _ _ (.opcode h hs hrun hb hw)

/-- Until the frame of a transaction starts only the nonce of the sender moves. -/
theorem slots_of_opens (ht : Opens env tx sender (s.world.bill tx sender) t w)
    (hpay : payValue w sender t.address tx.value = .ok w') :
    w'.slots = (s.world.bill tx sender).slots :=
  (slots_payValue hpay).trans ht.slots

theorem grows_bill (w : WorldState) :
    Grows (Named env P) [] w.slots (w.bill tx sender).slots :=
  grows_of_cell (slots_bill w).2.2 (slots_bill w).1

section Transactions

variable (hinj : Injective (Named env P))
  (hP : ∀ creator nonce, Evaluates env tx blockGasLimit s creator nonce → P creator nonce)
  (hfresh : Fresh (Named env P) [] s.world.slots)
include hinj hP hfresh

/-- The frame of a transaction, from its start to any end. -/
theorem grows_topFrame (hvalid : Valid env tx s.world blockGasLimit sender)
    (ht : Opens env tx sender (s.world.bill tx sender) t w)
    (hpay : payValue w sender t.address tx.value = .ok w')
    (hrun : Run env (t.start tx sender tx.executionGas w' s.log) c) :
    ∃ w'', (final c).worldState = some w'' ∧
      Grows (Named env P) [] (s.world.bill tx sender).slots w''.slots := by
  have hcreates := (Starts.intro hvalid ht hpay).createsIn hP
  have hslots := slots_of_opens ht hpay
  obtain ⟨w'', hw'', hgrows⟩ := grown_run hinj hcreates hrun .refl w' rfl
    (hslots ▸ (grows_bill s.world).fresh hfresh)
  exact ⟨w'', hw'', hslots ▸ hgrows⟩

/-- When a creation by a transaction comes to an end nobody else has stored code there. -/
theorem fill_topFrame (hvalid : Valid env tx s.world blockGasLimit sender)
    (ht : Opens env tx sender (s.world.bill tx sender) t w) (hkind : t.kind = .creation)
    (hpay : payValue w sender t.address tx.value = .ok w')
    (hrun : Run env (t.start tx sender tx.executionGas w' s.log) c)
    (hw : (final c).worldState = some w'') :
    (w''.getAccount t.address).code = [] ∧ ∀ code storage, Grows (Named env P) [] s.world.slots
      ((w''.setCode t.address code).persistStorage t.address storage).slots := by
  obtain ⟨w₂, hw₂, hgrows⟩ := grows_topFrame hinj hP hfresh hvalid ht hpay hrun
  cases hw.symm.trans hw₂
  have hname : Named env P sender (s.world.slots.counter sender) t.address := by
    cases ht with
    | message hto hcode => cases hkind
    | creation hto ha =>
      rw [show s.world.slots.counter sender = tx.nonce from hvalid.nonce]
      exact ⟨hP _ _ (.transaction hvalid hto), ha⟩
  have hbumped : (s.world.bill tx sender).slots.counter sender = s.world.slots.counter sender + 1 :=
    (slots_bill s.world).2.1
  obtain ⟨hempty, hfill⟩ := Grows.fill hinj hfresh hname (slots_bill s.world).2.2
    (slots_bill s.world).1 (by omega) hgrows
  refine ⟨hempty, fun code storage => ?_⟩
  rw [slots_persistStorage]
  exact hfill _ (slots_setCode w'' _ _).1 (slots_setCode w'' _ _).2

theorem grows_of_transition (h : Transition env tx blockGasLimit s s' result) :
    Grows (Named env P) [] s.world.slots s'.world.slots := by
  cases h with
  | failed hvalid hworld =>
    rw [hworld]
    exact grows_bill s.world
  | transferred hvalid hpay hworld =>
    rw [hworld, slots_refund, slots_payValue hpay]
    exact grows_bill s.world
  | @executed sender t w w' evm hvalid ht hpay hrun hworld =>
    obtain ⟨w'', hw'', hgrows⟩ := grows_topFrame hinj hP hfresh hvalid ht hpay hrun
    rw [final_ok] at hw''
    rw [hworld, slots_refund, hw'', Option.getD_some, TopFrame.commit]
    split
    · next hkind => exact (fill_topFrame hinj hP hfresh hvalid ht hkind hpay hrun hw'').2 _ _
    · rw [slots_persistStorage]
      exact (grows_bill s.world).trans hgrows

theorem vacant_of_stores (h : Stores env tx blockGasLimit s w a) : (w.getAccount a).code = [] := by
  cases h with
  | transaction hvalid ht hkind hpay hrun _ hw =>
    exact (fill_topFrame hinj hP hfresh hvalid ht hkind hpay hrun hw).1
  | opcode hstart h =>
    have hcreates := hstart.createsIn hP
    cases hstart with
    | intro hvalid ht hpay =>
      have hslots := slots_of_opens ht hpay
      exact vacant_of_storesCode hinj hcreates h rfl
        (hslots ▸ (grows_bill s.world).fresh hfresh)

end Transactions

/-- Calls of a contract that starts no frames store no code. -/
theorem not_stores_of_leaf (hto : tx.to ≠ []) (hleaf : Leaf (s.world.getAccount tx.to).code) :
    ¬ Stores env tx blockGasLimit s w a := by
  intro h
  cases h with
  | transaction hvalid ht hkind =>
    cases ht with
    | message _ _ => cases hkind
    | creation hempty _ => exact hto hempty
  | opcode hstart h =>
    cases hstart with
    | @intro sender t w w' hvalid ht hpay =>
      cases ht with
      | creation hempty _ => exact hto hempty
      | message _ _ =>
        have hcode : ((s.world.bill tx sender).getAccount tx.to).code =
            (s.world.getAccount tx.to).code := congrFun (slots_bill s.world).1 tx.to
        cases h with
        | intro hs hrun hb hc =>
          rw [← hcode] at hleaf
          exact absurd (begin_of_leaf (hs.leaf hleaf) hrun hb) (by simp)

section Runs

variable {s₀ : TxState} {submissions earlier later : List Submission} {x : Submission}

/-- The state in which a submission of a run is made. -/
def MadeIn (env : Env) (s₀ : TxState) (submissions : List Submission) (x : Submission)
    (s : TxState) : Prop :=
  ∃ earlier later, submissions = earlier ++ x :: later ∧ History (Submit env) s₀ earlier s

/-- What every submission of a run keeps holds from any of its states to any later one. -/
theorem of_submissions {R : TxState → TxState → Prop} (hrefl : ∀ s, R s s)
    (htrans : ∀ {s s' s''}, R s s' → R s' s'' → R s s'')
    (hstep : ∀ {x s s'}, MadeIn env s₀ submissions x s → Submit env s x s' → R s s')
    (hearlier : History (Submit env) s₀ earlier s) (h : History (Submit env) s later s')
    (hall : earlier ++ later <+: submissions) : R s s' := by
  induction h generalizing earlier with
  | nil => exact hrefl _
  | @cons s t u x rest hs h ih =>
    obtain ⟨tail, htail⟩ := hall
    have hmade : MadeIn env s₀ submissions x s := by
      refine ⟨earlier, rest ++ tail, ?_, hearlier⟩
      rw [← htail, List.append_assoc, List.cons_append]
    have hrest : (earlier ++ [x]) ++ rest <+: submissions := by
      refine ⟨tail, ?_⟩
      rw [← htail]
      simp
    exact htrans (hstep hmade hs) (ih (hearlier.append (.single hs)) hrest)

/-- The pairs from which addresses are computed during a run. -/
def EvaluatedIn (env : Env) (s₀ : TxState) (submissions : List Submission) (creator : Bytes)
    (nonce : Int) : Prop :=
  ∃ x s blockGasLimit, MadeIn env s₀ submissions x s ∧ x.accepted = true ∧
    Evaluates env x.tx blockGasLimit s creator nonce

/-- Distinct pairs that are evaluated during a run have distinct addresses. -/
def DistinctAddresses (env : Env) (s₀ : TxState) (submissions : List Submission) : Prop :=
  ∀ creator nonce creator' nonce' a,
    EvaluatedIn env s₀ submissions creator nonce → EvaluatedIn env s₀ submissions creator' nonce' →
    computeContractAddress env creator nonce = .ok a →
    computeContractAddress env creator' nonce' = .ok a → creator = creator' ∧ nonce = nonce'

theorem DistinctAddresses.injective (h : DistinctAddresses env s₀ submissions) :
    Injective (Named env (EvaluatedIn env s₀ submissions)) :=
  fun _ _ _ _ _ ⟨h₁, ha⟩ ⟨h₂, ha'⟩ => h _ _ _ _ _ h₁ h₂ ha ha'

theorem fresh_genesis (alloc : Dict Bytes Int) :
    Fresh (Named env P) [] (WorldState.createGenesisState alloc).slots := by
  intro a ha
  refine absurd ?_ ha
  change ((WorldState.createGenesisState alloc).getAccount a).code = []
  rw [WorldState.getAccount_createGenesisState]
  rfl

theorem grows_of_submit (hinj : Injective (Named env P)) (h : Submit env s x s')
    (hP : x.accepted = true → ∀ blockGasLimit creator nonce,
      Evaluates env x.tx blockGasLimit s creator nonce → P creator nonce)
    (hfresh : Fresh (Named env P) [] s.world.slots) :
    Grows (Named env P) [] s.world.slots s'.world.slots := by
  cases h with
  | accepted h =>
    exact grows_of_transition hinj (hP rfl _) hfresh (transition_of_applyTransaction h)
  | rejected h => exact (state_of_rejected h) ▸ .refl _

/-- Nonces and code grow from every state of a run to every later one. -/
theorem grows_of_history (hdistinct : DistinctAddresses env s₀ submissions)
    (hearlier : History (Submit env) s₀ earlier s) (h : History (Submit env) s later s')
    (hall : earlier ++ later <+: submissions)
    (hfresh : Fresh (Named env (EvaluatedIn env s₀ submissions)) [] s.world.slots) :
    Grows (Named env (EvaluatedIn env s₀ submissions)) [] s.world.slots s'.world.slots := by
  have hgrows := of_submissions (R := fun s s' =>
    Fresh (Named env (EvaluatedIn env s₀ submissions)) [] s.world.slots →
      Grows (Named env (EvaluatedIn env s₀ submissions)) [] s.world.slots s'.world.slots)
    (fun s _ => .refl _) (fun h h' hfresh => (h hfresh).trans (h' ((h hfresh).fresh hfresh)))
    ?_ hearlier h hall
  · exact hgrows hfresh
  · intro x s s' hmade hs
    exact grows_of_submit hdistinct.injective hs
      fun haccepted limit _ _ he => ⟨x, s, limit, hmade, haccepted, he⟩

/-- In a run from genesis, if distinct pairs have distinct addresses, then code is never
stored over other code, and code stays what it is. -/
theorem contract_code_is_immutable (env : Env) (alloc : Dict Bytes Int)
    (earlier later : List Submission) (s s' : TxState)
    (hearlier : History (Submit env) { world := WorldState.createGenesisState alloc } earlier s)
    (hlater : History (Submit env) s later s')
    (hdistinct : DistinctAddresses env { world := WorldState.createGenesisState alloc }
      (earlier ++ later)) :
    (∀ x sx blockGasLimit w a,
      MadeIn env { world := WorldState.createGenesisState alloc } (earlier ++ later) x sx →
      x.accepted = true → Stores env x.tx blockGasLimit sx w a → (w.getAccount a).code = []) ∧
    ∀ a, (s.world.getAccount a).code ≠ [] →
      (s'.world.getAccount a).code = (s.world.getAccount a).code := by
  generalize hs₀ : ({ world := WorldState.createGenesisState alloc } : TxState) = s₀ at *
  have hgenesis : Fresh (Named env (EvaluatedIn env s₀ (earlier ++ later))) [] s₀.world.slots :=
    hs₀ ▸ fresh_genesis alloc
  refine ⟨fun x sx limit w a hmade haccepted hstores => ?_, fun a ha => ?_⟩
  · obtain ⟨before, after, heq, hbefore⟩ := id hmade
    have hfresh := (grows_of_history hdistinct .nil hbefore ⟨x :: after, heq.symm⟩
      hgenesis).fresh hgenesis
    exact vacant_of_stores hdistinct.injective
      (fun _ _ he => ⟨x, sx, limit, hmade, haccepted, he⟩) hfresh hstores
  · have hfresh := (grows_of_history hdistinct .nil hearlier (List.prefix_append _ _)
      hgenesis).fresh hgenesis
    exact (grows_of_history hdistinct hearlier hlater List.prefix_rfl hfresh).cell_eq ha

/-- The only address of a run that submits one creation over and over again. -/
theorem evaluated_deploy {creator : Bytes} {nonce : Int} {submissions : List Submission}
    (hdeploy : ∀ x ∈ submissions, x.tx = deployTransaction)
    (h : EvaluatedIn deployEnv { world := WorldState.createGenesisState sampleAlloc }
      submissions creator nonce) :
    creator = sampleSender ∧ nonce = 0 := by
  obtain ⟨x, s, limit, ⟨earlier, later, heq, hearlier⟩, haccepted, he⟩ := h
  rw [hdeploy x (by simp [heq])] at he
  cases he with
  | transaction hvalid hto =>
    have hsender : recoverSender deployEnv deployTransaction = .ok sampleSender := by
      decide +kernel
    cases hsender.symm.trans hvalid.recovered
    exact ⟨rfl, rfl⟩
  | opcode hstart hs hrun hb hw =>
    cases hstart with
    | intro hvalid ht hpay =>
      cases ht with
      | message hto hcode => exact absurd rfl hto
      | creation hto ha =>
        have hleaf : Leaf deployTransaction.data := by decide +kernel
        exact absurd (begin_of_leaf (hs.leaf hleaf) hrun hb) (by simp)

/-- The second submission comes too late, and the contract is what it was. -/
theorem contract_code_is_immutable_deploy : ∃ result s s',
    History (Submit deployEnv) { world := WorldState.createGenesisState sampleAlloc }
      [⟨deployTransaction, 100000, some result⟩] s ∧
    History (Submit deployEnv) s [⟨deployTransaction, 100000, none⟩] s' ∧
    (s.world.getAccount (deployCreationHash.drop 12)).code = [0xfe] ∧
    (s'.world.getAccount (deployCreationHash.drop 12)).code = [0xfe] := by
  obtain ⟨result, s, h, hp⟩ := exists_of_returns
    (p := fun (_ : TransactionResult) (s : TxState) =>
      decide (validateTransaction deployEnv deployTransaction s.world 100000 =
        .error (.invalidNonce 1 0) ∧
      (s.world.getAccount (deployCreationHash.drop 12)).code = [0xfe]))
    (r := applyTransaction deployEnv 100 deployTransaction 100000
      { world := WorldState.createGenesisState sampleAlloc }) (by decide +kernel)
  obtain ⟨hinvalid, hcode⟩ := of_decide_eq_true hp
  have hreplay := applyTransaction_of_invalid 100 hinvalid
  have hfirst := History.single (Submit.accepted h)
  have hsecond := History.single (Submit.rejected hreplay)
  have hdistinct : DistinctAddresses deployEnv
      { world := WorldState.createGenesisState sampleAlloc }
      ([⟨deployTransaction, 100000, some result⟩] ++ [⟨deployTransaction, 100000, none⟩]) := by
    intro _ _ _ _ _ h₁ h₂ _ _
    obtain ⟨rfl, rfl⟩ := evaluated_deploy (by simp) h₁
    obtain ⟨rfl, rfl⟩ := evaluated_deploy (by simp) h₂
    exact ⟨rfl, rfl⟩
  have hsame := (contract_code_is_immutable deployEnv sampleAlloc _ _ _ _ hfirst hsecond
    hdistinct).2 (deployCreationHash.drop 12) (by rw [hcode]; exact List.cons_ne_nil _ _)
  exact ⟨result, s, s, hfirst, hsecond, hcode, hsame.trans hcode⟩

end Runs

end Ethereum
