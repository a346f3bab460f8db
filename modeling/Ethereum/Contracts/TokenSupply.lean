import Ethereum.Contracts.Token
import Ethereum.Core.Immutability

/-! The token contract within the system: its supply through transactions, nested calls and
rollbacks. -/
namespace Ethereum

open Stateful Sequencing

/-- Balances that are not negative and add up to a supply below 2^256. -/
structure Supply (storage : Dict Int Int) (supply : Int) : Prop where
  nonneg : ∀ k v, storage.get? k = some v → 0 ≤ v
  total : storage.total id = supply
  lt : supply < 2 ^ 256

section Transfers

variable {storage storage' : Dict Int Int} {supply c a amount k : Int}

theorem Supply.balance_nonneg (h : Supply storage supply) (k : Int) : 0 ≤ storage.getD k 0 := by
  unfold Dict.getD
  cases hk : storage.get? k with
  | none => exact le_rfl
  | some v => exact h.nonneg k v hk

theorem Supply.balance_le (h : Supply storage supply) (k : Int) : storage.getD k 0 ≤ supply := by
  rw [← h.total]
  unfold Dict.getD
  cases hk : storage.get? k with
  | none => exact Dict.total_nonneg h.nonneg
  | some v => exact Dict.le_total (f := id) h.nonneg hk

theorem Supply.word (h : Supply storage supply) (k : Int) : Word (storage.getD k 0) :=
  ⟨h.balance_nonneg k, (h.balance_le k).trans_lt h.lt⟩

theorem total_set_balance (storage : Dict Int Int) (k v : Int) :
    (storage.set k v).total id = storage.total id - storage.getD k 0 + v := by
  rw [Dict.total_set, Dict.getD]
  cases storage.get? k <;> rfl

theorem Supply.congr (h : Supply storage supply) (hs : ∀ k, storage'.get? k = storage.get? k) :
    Supply storage' supply where
  nonneg k v hk := h.nonneg k v (hs k ▸ hk)
  total := (Dict.total_congr hs id).trans h.total
  lt := h.lt

theorem Supply.set (h : Supply storage supply) {v : Int} (hv : 0 ≤ v)
    (hlt : supply - storage.getD k 0 + v < 2 ^ 256) :
    Supply (storage.set k v) (supply - storage.getD k 0 + v) where
  nonneg := Dict.forall_set (P := fun _ u => 0 ≤ u) h.nonneg hv
  total := by rw [total_set_balance, h.total]
  lt := hlt

/-- A transfer that the sender can pay keeps the supply, and only the sender has less. -/
theorem Supply.moveTokens (h : Supply storage supply) (h0 : 0 ≤ amount)
    (hle : amount ≤ storage.getD c 0) :
    Supply (moveTokens storage c a amount) supply ∧
      ∀ k, k ≠ c → storage.getD k 0 ≤ (Ethereum.moveTokens storage c a amount).getD k 0 := by
  have hc := h.balance_le c
  have hlt := h.lt
  have hdebit : (storage.getD c 0 - amount) % modValue = storage.getD c 0 - amount :=
    Int.emod_eq_of_lt (by omega) (by unfold modValue; omega)
  have hdebited : Supply (storage.set c (storage.getD c 0 - amount)) (supply - amount) := by
    have hset := h.set (k := c) (v := storage.getD c 0 - amount) (by omega) (by omega)
    rwa [show supply - storage.getD c 0 + (storage.getD c 0 - amount) = supply - amount by omega]
      at hset
  have hbalance := hdebited.balance_nonneg a
  have hbound := hdebited.balance_le a
  unfold Ethereum.moveTokens
  simp only [hdebit]
  generalize hd : storage.set c (storage.getD c 0 - amount) = debited at *
  have hcredit : (debited.getD a 0 + amount) % modValue = debited.getD a 0 + amount :=
    Int.emod_eq_of_lt (by omega) (by unfold modValue; omega)
  rw [hcredit]
  refine ⟨?_, fun k hk => ?_⟩
  · have hset := hdebited.set (k := a) (v := debited.getD a 0 + amount) (by omega) (by omega)
    rwa [show supply - amount - debited.getD a 0 + (debited.getD a 0 + amount) = supply by omega]
      at hset
  · have hother : debited.getD k 0 = storage.getD k 0 := by
      rw [← hd, Dict.getD_set, if_neg hk]
    rw [Dict.getD_set]
    split
    · next hka =>
      rw [← hka, hother]
      omega
    · exact hother.ge

/-- A call keeps the supply, and only the caller can have less. -/
theorem TokenCall.conserves {context : ExecutionContext} {reverted : Bool} {returnData : Bytes}
    (hcall : TokenCall context storage reverted returnData storage') (h : Supply storage supply) :
    Supply storage' supply ∧
      ∀ k, k ≠ intFromBytes context.caller → storage.getD k 0 ≤ storage'.getD k 0 := by
  cases hcall with
  | transferred _ hle => exact h.moveTokens (word_wordAt _ _).nonneg hle
  | insufficient _ _ => exact ⟨h, fun _ _ => le_rfl⟩
  | balance _ _ => exact ⟨h, fun _ _ => le_rfl⟩
  | unknown _ _ => exact ⟨h, fun _ _ => le_rfl⟩

/-- No key is lost in a call. -/
theorem TokenCall.keys {context : ExecutionContext} {reverted : Bool} {returnData : Bytes}
    (hcall : TokenCall context storage reverted returnData storage') (hk : storage'.get? k = none) :
    storage.get? k = none := by
  cases hcall with
  | transferred _ _ =>
    simp only [moveTokens, Dict.get?_set] at hk
    split at hk
    · cases hk
    · split at hk
      · cases hk
      · exact hk
  | insufficient _ _ => exact hk
  | balance _ _ => exact hk
  | unknown _ _ => exact hk

end Transfers

section Worlds

/-- The contract is at `T` and has this supply. -/
structure Issued (T : Bytes) (supply : Int) (w : WorldState) : Prop where
  code : (w.getAccount T).code = tokenRuntimeBytecode
  supply : Supply (w.getAccount T).storage supply

/-- A transaction or another contract calls `T` from the address with this number. -/
def CalledBy (T : Bytes) (k : Int) (events : List Event) : Prop :=
  ∃ kind context, Event.enter kind context ∈ events ∧ (kind = .message ∨ kind = .call) ∧
    context.address = T ∧ intFromBytes context.caller = k

/-- The supply stays, and only callers of `T` have less than before. -/
structure Circulates (T : Bytes) (supply : Int) (events : List Event) (w w' : WorldState) :
    Prop where
  issued : Issued T supply w'
  decrease : ∀ k, (w'.getAccount T).storage.getD k 0 < (w.getAccount T).storage.getD k 0 →
    CalledBy T k events

variable {T : Bytes} {supply : Int} {events events' : List Event} {w w' w'' : WorldState}

theorem CalledBy.mono {k : Int} (h : CalledBy T k events) (he : events ⊆ events') :
    CalledBy T k events' := by
  obtain ⟨kind, context, hmem, hrest⟩ := h
  exact ⟨kind, context, he hmem, hrest⟩

theorem Circulates.mono (h : Circulates T supply events w w') (he : events ⊆ events') :
    Circulates T supply events' w w' :=
  ⟨h.issued, fun k hk => (h.decrease k hk).mono he⟩

theorem Circulates.trans (h : Circulates T supply events w w')
    (h' : Circulates T supply events w' w'') : Circulates T supply events w w'' := by
  refine ⟨h'.issued, fun k hk => ?_⟩
  rcases lt_or_ge ((w''.getAccount T).storage.getD k 0) ((w'.getAccount T).storage.getD k 0) with
    hlt | hge
  · exact h'.decrease k hlt
  · exact h.decrease k (hge.trans_lt hk)

theorem Circulates.append (h : Circulates T supply events w w')
    (h' : Circulates T supply events' w' w'') : Circulates T supply (events ++ events') w w'' :=
  (h.mono (List.subset_append_left _ _)).trans (h'.mono (List.subset_append_right _ _))

/-- Code and storage of an account are what they were. -/
def SameContract (T : Bytes) (w w' : WorldState) : Prop :=
  (w'.getAccount T).code = (w.getAccount T).code ∧
    (w'.getAccount T).storage = (w.getAccount T).storage

theorem SameContract.trans (h : SameContract T w w') (h' : SameContract T w' w'') :
    SameContract T w w'' :=
  ⟨h'.1.trans h.1, h'.2.trans h.2⟩

theorem sameContract_of_eq (h : w'.getAccount T = w.getAccount T) : SameContract T w w' :=
  ⟨congrArg Account.code h, congrArg Account.storage h⟩

theorem sameContract_payValue {sender recipient : Bytes} {value : Int}
    (h : payValue w sender recipient value = .ok w') : SameContract T w w' :=
  ⟨field_payValue Account.code (fun _ _ => rfl) h T,
    field_payValue Account.storage (fun _ _ => rfl) h T⟩

theorem sameContract_reserve (w : WorldState) (creator c : Bytes) :
    SameContract T w (w.reserve creator c) :=
  ⟨field_reserve Account.code (fun _ _ => rfl) creator c T,
    field_reserve Account.storage (fun _ _ => rfl) creator c T⟩

theorem Issued.same (h : Issued T supply w) (hs : SameContract T w w') : Issued T supply w' :=
  ⟨hs.1.trans h.code, hs.2.symm ▸ h.supply⟩

theorem Issued.circulates (h : Issued T supply w) (hs : SameContract T w w') :
    Circulates T supply events w w' :=
  ⟨h.same hs, fun k hk => absurd hk (by rw [hs.2]; exact lt_irrefl _)⟩

/-- The storage of a call that has ended is written back. -/
theorem Issued.persist (h : Issued T supply w) {context : ExecutionContext} {reverted : Bool}
    {returnData : Bytes} {storage : Dict Int Int}
    (hcall : TokenCall context (w.getAccount T).storage reverted returnData storage)
    (hcaller : CalledBy T (intFromBytes context.caller) events) :
    Circulates T supply events w (w.persistStorage T storage) := by
  have hget := Dict.get?_update_of_subset fun k => hcall.keys (k := k)
  obtain ⟨hsupply, hothers⟩ := hcall.conserves h.supply
  have haccount : (w.persistStorage T storage).getAccount T =
      { w.getAccount T with storage := (w.getAccount T).storage.update storage } :=
    (WorldState.getAccount_persistStorage T storage).trans (if_pos rfl)
  refine ⟨⟨?_, ?_⟩, fun k hk => ?_⟩
  · rw [haccount]
    exact h.code
  · rw [haccount]
    exact hsupply.congr hget
  · by_cases hc : k = intFromBytes context.caller
    · exact hc ▸ hcaller
    · rw [haccount, Dict.getD, hget k] at hk
      exact absurd hk (not_lt.mpr (hothers k hc))

theorem sameContract_persistStorage {a : Bytes} (ha : T ≠ a) (storage : Dict Int Int) :
    SameContract T w (w.persistStorage a storage) :=
  sameContract_of_eq ((WorldState.getAccount_persistStorage a storage).trans (if_neg ha))

theorem sameContract_setCode {a : Bytes} (ha : T ≠ a) (code : Bytes) :
    SameContract T w (w.setCode a code) :=
  sameContract_of_eq (WorldState.getAccount_modifyAccount_of_ne ha _)

end Worlds

section Frames

variable {T : Bytes} {supply : Int} {env : Env} {evm evm' evm₁ start : EVM} {p : Pending}
  {c : LoopResult} {w : WorldState}

/-- A frame of the contract leaves the world state alone and ends as `TokenCall` says. -/
theorem token_frame {context : ExecutionContext} {storage : Dict Int Int} {log : List Event}
    (hword : ∀ k, Word (storage.getD k 0))
    (h : Run env (EVM.init tokenRuntimeBytecode context storage (some w) log) c) :
    (final c).worldState = some w ∧ ∀ evm, c = .ok () evm →
      TokenCall context storage evm.reverted evm.returnData evm.storage := by
  have hends := wp_token (F := ⟨context, some w⟩) env hword context.gas log c h
  exact ⟨hends.world, hends.ok⟩

/-- The log goes on, and in the world state the tokens circulate. -/
def Circulated (T : Bytes) (supply : Int) (evm evm' : EVM) : Prop :=
  ∃ events, evm'.log = evm.log ++ events ∧ ∀ w, evm.worldState = some w → Issued T supply w →
    ∃ w', evm'.worldState = some w' ∧ Circulates T supply events w w'

theorem Circulated.refl (evm : EVM) : Circulated T supply evm evm :=
  ⟨[], (List.append_nil _).symm, fun w hw h => ⟨w, hw, h.circulates ⟨rfl, rfl⟩⟩⟩

theorem Circulated.trans {evm'' : EVM} (h : Circulated T supply evm evm')
    (h' : Circulated T supply evm' evm'') : Circulated T supply evm evm'' := by
  obtain ⟨events, hlog, hworld⟩ := h
  obtain ⟨events', hlog', hworld'⟩ := h'
  refine ⟨events ++ events', by rw [hlog', hlog, List.append_assoc], fun w hw hissued => ?_⟩
  obtain ⟨w', hw', hcirc⟩ := hworld w hw hissued
  obtain ⟨w'', hw'', hcirc'⟩ := hworld' w' hw' hcirc.issued
  exact ⟨w'', hw'', hcirc.append hcirc'⟩

/-- The first half of an iteration leaves code and storage of all accounts alone. -/
theorem sameContract_begin (T : Bytes) (env : Env) (hrun : evm.running = true)
    (hw : evm.worldState = some w) :
    ∃ w', (final (begin env evm)).worldState = some w' ∧ SameContract T w w' := by
  have hrel := world_begin env hrun (R := SameContract T) (fun _ => ⟨rfl, rfl⟩) .trans
    sameContract_payValue fun w c => sameContract_reserve w _ c
  rw [hw] at hrel
  exact exists_of_rel hrel

theorem circulated_begin (T : Bytes) (supply : Int) (env : Env) (hrun : evm.running = true) :
    Circulated T supply evm (final (begin env evm)) := by
  obtain ⟨events, hlog⟩ := (progress_begin env hrun).log
  refine ⟨events, hlog.symm, fun w hw hissued => ?_⟩
  obtain ⟨w', hw', hsame⟩ := sameContract_begin T env hrun hw
  exact ⟨w', hw', hissued.circulates hsame⟩

/-- A commit at another address. -/
theorem sameContract_commit (ha : T ≠ p.address) (returnData : Bytes) (storage : Dict Int Int) :
    SameContract T w (p.commit returnData storage w) := by
  cases p with
  | call q => exact sameContract_persistStorage ha _
  | create q => exact (sameContract_setCode ha _).trans (sameContract_persistStorage ha _)

/-- A call of the contract that has ended, with the storage that its parent writes back. -/
theorem circulates_call {child : EVM} {context : ExecutionContext} {w₀ : WorldState}
    {log events : List Event}
    (hc : Run env (EVM.init (w₀.getAccount T).code context (w₀.getAccount T).storage (some w) log)
      (.ok () child))
    (hissued : Issued T supply w₀) (hsame : SameContract T w₀ w)
    (hcaller : CalledBy T (intFromBytes context.caller) events) :
    child.worldState = some w ∧
      Circulates T supply events w₀ (w.persistStorage T child.storage) := by
  rw [hissued.code] at hc
  obtain ⟨hworld, hcall⟩ := token_frame hissued.supply.word hc
  have hended := hcall child rfl
  rw [← hsame.2] at hended
  exact ⟨hworld, (hissued.circulates hsame).trans ((hissued.same hsame).persist hended hcaller)⟩

/-- The commit of a child frame, when no creation at `T` succeeds. -/
theorem circulates_commit {opcode : Opcode} {code data : Bytes} {value gas : Int}
    {w₁ w₂ : WorldState} {events : List Event} {child : EVM} (hno : ∀ w, ¬ StoresCode env start w T)
    (hs : Reaches env start evm) (hrun : evm.running = true)
    (hb : begin env evm = .ok (some p) evm₁)
    (hof : ChildOf (evm.charge opcode) p code value data gas w w₁)
    (hc : Run env p.child (.ok () child)) (hsuccess : child.reverted = false)
    (hw : child.worldState = some w₂) (hissued : Issued T supply w) (hsame : SameContract T w w₁)
    (hcaller : ∀ q, p = .call q →
      CalledBy q.targetAddress (intFromBytes evm.context.address) events)
    (hsofar : Circulates T supply events w w₂) :
    Circulates T supply events w (p.commit child.returnData child.storage w₂) := by
  by_cases ha : p.address = T
  · subst ha
    cases p with
    | call q =>
      obtain ⟨rfl, -, -⟩ := hof.call q rfl
      rw [hof.child] at hc
      obtain ⟨hleft, hcall⟩ := circulates_call hc hissued hsame (hcaller q rfl)
      cases hleft.symm.trans hw
      exact hcall
    | create q => exact absurd (StoresCode.intro hs hrun hb hc hsuccess hw) (hno w₂)
  · exact hsofar.trans (hsofar.issued.circulates (sameContract_commit (Ne.symm ha) _ _))

/-- What a parent takes over from a child frame, when no creation at `T` succeeds. -/
theorem circulates_merge (hno : ∀ w, ¬ StoresCode env start w T) (hs : Reaches env start evm)
    (hrun : evm.running = true) (hb : begin env evm = .ok (some p) evm₁)
    (hc : Run env p.child c) (hchild : Circulated T supply p.child (final c)) :
    ∃ events, (final c).log = evm.log ++ events ∧ ∀ w, evm.worldState = some w →
      Issued T supply w →
      ∃ w', p.merge (conclude p.gas c) = some w' ∧ Circulates T supply events w w' := by
  obtain ⟨opcode, code, value, data, gas, w₀, w₁, hof, hshell, -⟩ := childOf_of_begin hrun hb
  obtain ⟨events, hlog, hworld⟩ := hchild
  generalize hctx : ({ caller := evm.context.address, address := p.address, value, data, gas } :
    ExecutionContext) = context at *
  have hstart : p.child = EVM.init code context (p.initialStorage w₀) (some w₁)
      ((evm.charge opcode).log ++ [.enter p.kind context]) := hctx ▸ hof.child
  have hlast : (final c).log = evm.log ++
      ([.executed evm.context.address opcode, .enter p.kind context] ++ events) := by
    rw [hlog, hstart]
    simp [EVM.init, EVM.charge]
  refine ⟨_, hlast, fun w hw hissued => ?_⟩
  cases hof.world.symm.trans hw
  have hsame : SameContract T w₀ w₁ := by
    obtain ⟨w', hw', hsame⟩ := sameContract_begin T env hrun hw
    rw [hb] at hw'
    cases hw'.symm.trans (congrArg Shell.worldState hshell)
    exact hsame
  obtain ⟨w₂, hw₂, hcirc⟩ := hworld w₁ (congrArg EVM.worldState hstart) (hissued.same hsame)
  have hsofar : Circulates T supply
      ([.executed evm.context.address opcode, .enter p.kind context] ++ events) w₀ w₂ :=
    (hissued.circulates hsame).trans (hcirc.mono (List.subset_append_right _ _))
  rcases merge_conclude p c with hmerge | ⟨child, rfl, hmerge⟩
  · exact ⟨w₂, hmerge.trans hw₂, hsofar⟩
  · rw [final_ok] at hw₂
    by_cases hreverted : child.reverted = true
    · exact ⟨w₂, (merge_of_reverted p hreverted).trans hw₂, hsofar⟩
    · have hsuccess : child.reverted = false := by simpa using hreverted
      rw [hmerge, hw₂]
      refine ⟨_, rfl, ?_⟩
      apply circulates_commit hno hs hrun hb hof hc hsuccess hw₂ hissued hsame _ hsofar
      rintro q rfl
      exact ⟨.call, context, by simp [Pending.kind], .inr rfl, by rw [← hctx]; rfl, by rw [← hctx]⟩

/-- An iteration with a child frame. -/
theorem circulated_settle (hno : ∀ w, ¬ StoresCode env start w T) (hs : Reaches env start evm)
    (hrun : evm.running = true) (hb : begin env evm = .ok (some p) evm₁)
    (hc : Run env p.child c) (hchild : Circulated T supply p.child (final c)) :
    Circulated T supply evm (final (settle env p (conclude p.gas c) evm₁)) := by
  obtain ⟨events, hlog, hworld⟩ := circulates_merge hno hs hrun hb hc hchild
  have hsettled := settle_settled env p (conclude p.gas c) evm₁
  refine ⟨events ++ [.leave p.kind (endingOf (conclude p.gas c))], ?_, fun w hw hissued => ?_⟩
  · rw [hsettled.log, (final_conclude p.gas c).2.1, hlog, List.append_assoc]
  · obtain ⟨w', hw', hcirc⟩ := hworld w hw hissued
    exact ⟨w', hsettled.worldState.trans hw', hcirc.mono (List.subset_append_left _ _)⟩

/-- Whatever a frame and its children do, tokens circulate. -/
theorem circulated_run (hno : ∀ w, ¬ StoresCode env start w T) (h : Run env start c) :
    Circulated T supply start (final c) :=
  h.of_iterations .refl .refl .trans (fun _ hrun => circulated_begin T supply env hrun)
    fun hs hrun hb hc => circulated_settle hno hs hrun hb hc

end Frames

section Transactions

variable {T sender : Bytes} {supply : Int} {env : Env} {tx : Transaction} {blockGasLimit : Int}
  {s s' : TxState} {result : TransactionResult} {t : TopFrame} {w w' : WorldState}

theorem sameContract_bill (w : WorldState) : SameContract T w (w.bill tx sender) :=
  ⟨field_bill Account.code (fun _ _ _ => rfl) T, field_bill Account.storage (fun _ _ _ => rfl) T⟩

theorem sameContract_refund (w : WorldState) (gasRemaining : Int) :
    SameContract T w (w.refund tx sender gasRemaining) :=
  ⟨field_refund Account.code (fun _ _ => rfl) gasRemaining T,
    field_refund Account.storage (fun _ _ => rfl) gasRemaining T⟩

theorem Opens.sameContract (h : Opens env tx sender w t w') : SameContract T w w' :=
  sameContract_of_eq (h.getAccount_eq T)

theorem sameContract_topCommit (ha : T ≠ t.address) (returnData : Bytes) (storage : Dict Int Int) :
    SameContract T w (t.commit returnData storage w) := by
  unfold TopFrame.commit
  split
  · exact (sameContract_setCode ha _).trans (sameContract_persistStorage ha _)
  · exact sameContract_persistStorage ha _

/-- The frame of a transaction that succeeds, with its commit. -/
theorem circulates_topFrame {evm : EVM} (hno : ∀ w, ¬ Stores env tx blockGasLimit s w T)
    (hvalid : Valid env tx s.world blockGasLimit sender)
    (ht : Opens env tx sender (s.world.bill tx sender) t w)
    (hpay : payValue w sender t.address tx.value = .ok w')
    (hrun : Run env (t.start tx sender tx.executionGas w' s.log) (.ok () evm))
    (hreverted : evm.reverted = false) (hissued : Issued T supply s.world) :
    ∃ events, evm.log = s.log ++ events ∧ Circulates T supply events s.world
      (t.commit evm.returnData evm.storage (evm.worldState.getD w')) := by
  have hbill : SameContract T s.world (s.world.bill tx sender) := sameContract_bill _
  have hopened := (ht.sameContract (T := T)).trans (sameContract_payValue hpay)
  have hinner : ∀ w, ¬ StoresCode env (t.start tx sender tx.executionGas w' s.log) w T :=
    fun w h => hno w (.opcode (.intro hvalid ht hpay) h)
  have hcirculated : Circulated T supply _ _ := circulated_run hinner hrun
  obtain ⟨events, hlog, hworld⟩ := hcirculated
  obtain ⟨w₂, hw₂, hcirc⟩ := hworld w' rfl ((hissued.same hbill).same hopened)
  rw [final_ok] at hlog hw₂
  refine ⟨[.enter t.kind (t.context tx sender tx.executionGas)] ++ events, ?_, ?_⟩
  · rw [hlog, TopFrame.start]
    simp [EVM.init]
  · rw [hw₂, Option.getD_some]
    have hsofar := (hissued.circulates hbill).trans (((hissued.same hbill).circulates hopened).trans
      (hcirc.mono (List.subset_append_right
        [.enter t.kind (t.context tx sender tx.executionGas)] _)))
    by_cases ha : t.address = T
    · subst ha
      cases ht with
      | message hto hcode =>
        have hcaller : CalledBy tx.to (intFromBytes sender) ([.enter .message
            ((messageFrame tx (s.world.bill tx sender)).context tx sender tx.executionGas)] ++
              events) :=
          ⟨.message, _, List.mem_cons_self, .inl rfl, rfl, rfl⟩
        obtain ⟨hleft, hcall⟩ := circulates_call hrun (hissued.same hbill) hopened hcaller
        cases hleft.symm.trans hw₂
        exact (hissued.circulates hbill).trans hcall
      | creation hto ha =>
        exact absurd (Stores.transaction hvalid (.creation hto ha) rfl hpay hrun hreverted hw₂)
          (hno w₂)
    · exact hsofar.trans (hsofar.issued.circulates (sameContract_topCommit (Ne.symm ha) _ _))

theorem circulates_of_transition (hno : ∀ w, ¬ Stores env tx blockGasLimit s w T)
    (h : Transition env tx blockGasLimit s s' result) (hlog : s.log <+: s'.log)
    (hissued : Issued T supply s.world) :
    ∃ events, s'.log = s.log ++ events ∧ Circulates T supply events s.world s'.world := by
  cases h with
  | failed hvalid hworld =>
    obtain ⟨events, hevents⟩ := hlog
    refine ⟨events, hevents.symm, ?_⟩
    rw [hworld]
    exact hissued.circulates (sameContract_bill _)
  | transferred hvalid hpay hworld =>
    obtain ⟨events, hevents⟩ := hlog
    refine ⟨events, hevents.symm, ?_⟩
    rw [hworld]
    exact hissued.circulates (((sameContract_bill _).trans (sameContract_payValue hpay)).trans
      (sameContract_refund _ _))
  | @executed sender t w w' evm hvalid ht hpay hrun hworld hend _ _ _ hreverted =>
    obtain ⟨events, hevents, hcirc⟩ :=
      circulates_topFrame hno hvalid ht hpay hrun hreverted hissued
    refine ⟨events ++ [.leave t.kind .success], ?_, ?_⟩
    · rw [hend, hevents, List.append_assoc]
    · rw [hworld]
      exact (hcirc.mono (List.subset_append_left _ _)).trans
        (hcirc.issued.circulates (sameContract_refund _ _))

end Transactions

section Runs

variable {T : Bytes} {supply : Int} {env : Env} {s₀ s s' : TxState}
  {submissions earlier later : List Submission} {x : Submission}

/-- No creation of a run stores code at `T`. -/
def NeverCreated (env : Env) (s₀ : TxState) (submissions : List Submission) (T : Bytes) : Prop :=
  ∀ x s blockGasLimit w, MadeIn env s₀ submissions x s → x.accepted = true →
    ¬ Stores env x.tx blockGasLimit s w T

theorem circulates_of_submit (h : Submit env s x s')
    (hno : x.accepted = true → ∀ blockGasLimit w, ¬ Stores env x.tx blockGasLimit s w T)
    (hissued : Issued T supply s.world) :
    ∃ events, s'.log = s.log ++ events ∧ Circulates T supply events s.world s'.world := by
  cases h with
  | accepted h =>
    exact circulates_of_transition (hno rfl _) (transition_of_applyTransaction h)
      (log_prefix_of_applyTransaction h) hissued
  | rejected h =>
    rw [state_of_rejected h]
    exact ⟨[], (List.append_nil _).symm, hissued.circulates ⟨rfl, rfl⟩⟩

/-- From every state of a run to every later one tokens circulate. -/
theorem circulates_of_history (hno : NeverCreated env s₀ submissions T)
    (hearlier : History (Submit env) s₀ earlier s) (h : History (Submit env) s later s')
    (hall : earlier ++ later <+: submissions) (hissued : Issued T supply s.world) :
    ∃ events, s'.log = s.log ++ events ∧ Circulates T supply events s.world s'.world := by
  have hcirculates := of_submissions (R := fun s s' => Issued T supply s.world →
    ∃ events, s'.log = s.log ++ events ∧ Circulates T supply events s.world s'.world)
    (fun s hissued => ⟨[], (List.append_nil _).symm, hissued.circulates ⟨rfl, rfl⟩⟩) ?_ ?_
    hearlier h hall
  · exact hcirculates hissued
  · intro s s' s'' h h' hissued
    obtain ⟨events, hlog, hcirc⟩ := h hissued
    obtain ⟨events', hlog', hcirc'⟩ := h' hcirc.issued
    exact ⟨events ++ events', by rw [hlog', hlog, List.append_assoc], hcirc.append hcirc'⟩
  · intro x s s' hmade hs
    exact circulates_of_submit hs fun haccepted limit w => hno x s limit w hmade haccepted

/-- Whatever transactions are submitted, the balances of a token contract at `T` add up to
what they were, and between any two states of the run only callers of `T` have less. -/
theorem token_supply_is_conserved (env : Env) (T : Bytes) (s₀ s s' : TxState)
    (earlier later : List Submission)
    (hcode : (s₀.world.getAccount T).code = tokenRuntimeBytecode)
    (hword : ∀ k v, (s₀.world.getAccount T).storage.get? k = some v → Word v)
    (htotal : (s₀.world.getAccount T).storage.total id < 2 ^ 256)
    (hearlier : History (Submit env) s₀ earlier s) (hlater : History (Submit env) s later s')
    (hno : NeverCreated env s₀ (earlier ++ later) T) :
    (s'.world.getAccount T).storage.total id = (s₀.world.getAccount T).storage.total id ∧
      ∃ events, s'.log = s.log ++ events ∧
        ∀ k, s'.world.getStorage T k < s.world.getStorage T k → CalledBy T k events := by
  have hissued : Issued T _ s₀.world := ⟨hcode, fun k v hk => (hword k v hk).nonneg, rfl, htotal⟩
  obtain ⟨_, -, hfirst⟩ :=
    circulates_of_history hno .nil hearlier (List.prefix_append _ _) hissued
  obtain ⟨events, hlog, hsecond⟩ :=
    circulates_of_history hno hearlier hlater List.prefix_rfl hfirst.issued
  exact ⟨hsecond.issued.supply.total, events, hlog, hsecond.decrease⟩

/-- A call of `transfer` for 250 tokens. -/
def transferTransaction : Transaction where
  nonce := 0
  gasPrice := 1
  gas := 100000
  «to» := sampleContract
  value := 0
  data := [0xa9, 0x05, 0x9c, 0xbb] ++ List.replicate 12 0 ++ sampleCallee ++
    List.replicate 31 0 ++ [0xfa]
  v := 27
  r := 39137109005879791286513452859506921287139571052424226943707720955451874980406
  s := 29477164409583752945290191842327273467434538933762101864636434937245131336377

def transferTransactionHash : Bytes :=
  [0x49, 0xd9, 0x46, 0xcb, 0xe4, 0x50, 0x03, 0x98, 0x20, 0x8c, 0xe1, 0x26, 0xdd, 0x59, 0x10, 0x51,
    0xed, 0x1c, 0x98, 0x06, 0x64, 0x65, 0xfd, 0x08, 0x98, 0x9e, 0x9d, 0xf5, 0x62, 0xbe, 0x56, 0xbe]

def transferEnv : Env := .ofTables
  [(rlpEncode (.list [.bytes [], .bytes [1], .bytes [0x01, 0x86, 0xa0], .bytes sampleContract,
      .bytes [], .bytes transferTransaction.data]), transferTransactionHash)]
  [((0, transferTransaction.r, transferTransaction.s, transferTransactionHash), sampleSender)]
  (by decide) (by decide)

/-- The sample contract is the token contract, and the sample sender has 1000 tokens. -/
def tokenState : TxState where
  world := (sampleWorld tokenRuntimeBytecode []).setStorage sampleContract
    (intFromBytes sampleSender) 1000

/-- The transfer goes through. -/
theorem token_supply_is_conserved_transfer : ∃ result s,
    History (Submit transferEnv) tokenState [⟨transferTransaction, 100000, some result⟩] s ∧
    s.world.getStorage sampleContract (intFromBytes sampleSender) = 750 ∧
    s.world.getStorage sampleContract (intFromBytes sampleCallee) = 250 ∧
    (s.world.getAccount sampleContract).storage.total id = 1000 := by
  obtain ⟨result, s, h, hp⟩ := exists_of_returns
    (p := fun (_ : TransactionResult) (s : TxState) =>
      decide (s.world.getStorage sampleContract (intFromBytes sampleSender) = 750 ∧
        s.world.getStorage sampleContract (intFromBytes sampleCallee) = 250))
    (r := applyTransaction transferEnv 100 transferTransaction 100000 tokenState)
    (by decide +kernel)
  obtain ⟨hsender, hcallee⟩ := of_decide_eq_true hp
  have hhistory := History.single (Submit.accepted h)
  have hword : ∀ e ∈ (tokenState.world.getAccount sampleContract).storage.entries,
      0 ≤ e.2 ∧ e.2 < 2 ^ 256 := by decide +kernel
  have hno : NeverCreated transferEnv tokenState
      ([] ++ [⟨transferTransaction, 100000, some result⟩]) sampleContract := by
    rintro x s' limit w ⟨earlier, later, heq, hearlier⟩ -
    cases earlier with
    | nil =>
      obtain ⟨rfl, -⟩ : _ = x ∧ _ := List.cons.inj heq
      cases hearlier
      exact not_stores_of_leaf (show transferTransaction.to ≠ [] by decide)
        (show Leaf (tokenState.world.getAccount transferTransaction.to).code by decide +kernel)
    | cons y earlier => simp at heq
  have htotal := (token_supply_is_conserved transferEnv sampleContract tokenState _ _ _ _
    (by decide +kernel) (fun k v hk => ⟨(hword _ (Dict.mem_of_get? hk)).1,
      (hword _ (Dict.mem_of_get? hk)).2⟩) (by decide +kernel) .nil hhistory hno).1
  exact ⟨result, s, hhistory, hsender, hcallee, htotal.trans (by decide +kernel)⟩

end Runs

end Ethereum
