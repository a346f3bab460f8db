import Ethereum.Evm.Authority
import Ethereum.Lib.CopyStore

/-! The machine refines the store of copies: a frame has a copy of the storage of its
contract, which its parent writes to the world state when the frame succeeds. -/
namespace Ethereum

open Stateful Sequencing CopyStore

/-- What an event does with contract storage. -/
def Event.storageOp : Event → Option (Journal.Op Bytes Int Int)
  | .enter kind context => some (.enter (kind = .creation ∨ kind = .create) context.address)
  | .leave _ ending => some (.leave (ending = .success))
  | .executed _ _ => none
  | .sload address key value => some (.load address key value)
  | .sstore address key value => some (.store address key value)

def storageOps (log : List Event) : List (Journal.Op Bytes Int Int) :=
  log.filterMap Event.storageOp

/-- The storage of all contracts; without a world state nothing is stored. -/
def storageOf : Option WorldState → Bytes → Int → Int
  | none => fun _ _ => 0
  | some w => w.getStorage

def EVM.copied (evm : EVM) : Copied Bytes Int Int where
  owner := evm.context.address
  copy := evm.storage.get?

/-- The store of a frame that runs above others. -/
def EVM.copyStore (evm : EVM) (snapshot : Bytes → Int → Int)
    (below : List (Copied Bytes Int Int)) : CopyStore Bytes Int Int where
  maps := storageOf evm.worldState
  snapshot := snapshot
  frames := evm.copied :: below

/-- The events logged between two states of a frame are a history of the store. -/
def Follows (evm evm' : EVM) : Prop :=
  ∃ events, evm'.log = evm.log ++ events ∧
    ∀ snapshot below, History (Step 0) (evm.copyStore snapshot below) (storageOps events)
      (evm'.copyStore snapshot below)

theorem storageOps_append (log log' : List Event) :
    storageOps (log ++ log') = storageOps log ++ storageOps log' :=
  List.filterMap_append

section World

variable {w w' : WorldState} {a sender recipient : Bytes}

theorem getStorage_of_account (h : ∀ b, (w'.getAccount b).storage = (w.getAccount b).storage) :
    w'.getStorage = w.getStorage := by
  funext b key
  rw [WorldState.getStorage, h b]
  rfl

theorem getStorage_modifyAccount {f : Account → Account}
    (h : ∀ account, (f account).storage = account.storage) :
    (w.modifyAccount a f).getStorage = w.getStorage := by
  apply getStorage_of_account
  exact WorldState.field_modifyAccount Account.storage h a

theorem getStorage_addBalance (amount : Int) : (w.addBalance a amount).getStorage = w.getStorage :=
  getStorage_modifyAccount fun _ => rfl

theorem getStorage_setCode (code : Bytes) : (w.setCode a code).getStorage = w.getStorage :=
  getStorage_modifyAccount fun _ => rfl

theorem getStorage_incrementNonce : (w.incrementNonce a).getStorage = w.getStorage :=
  getStorage_modifyAccount fun _ => rfl

theorem getStorage_payValue {value : Int} (h : payValue w sender recipient value = .ok w') :
    w'.getStorage = w.getStorage := by
  apply getStorage_of_account
  exact field_payValue Account.storage (fun _ _ => rfl) h

theorem getStorage_reserve (creator contractAddress : Bytes) :
    (w.reserve creator contractAddress).getStorage = w.getStorage :=
  (getStorage_addBalance 0).trans getStorage_incrementNonce

theorem getStorage_base (p : Pending) (creator : Bytes) :
    (p.base creator w).getStorage = w.getStorage := by
  cases p with
  | call q => rfl
  | create q => exact getStorage_reserve _ _

/-- The copy that is written back wins over the storage of its contract only. -/
theorem getStorage_persistStorage (storage : Dict Int Int) :
    (w.persistStorage a storage).getStorage = Function.update w.getStorage a fun key =>
      (storage.get? key).getD (w.getStorage a key) := by
  funext b key
  rw [WorldState.getStorage, WorldState.getAccount_persistStorage]
  by_cases hb : b = a
  · subst hb
    rw [if_pos rfl, Function.update_self, Dict.getD, Dict.get?_update]
    cases storage.get? key <;> rfl
  · rw [if_neg hb, Function.update_of_ne hb]
    rfl

theorem getStorage_commit (p : Pending) (returnData : Bytes) (storage : Dict Int Int) :
    (p.commit returnData storage w).getStorage = Function.update w.getStorage p.address fun key =>
      (storage.get? key).getD (w.getStorage p.address key) := by
  cases p with
  | call q => exact getStorage_persistStorage storage
  | create q =>
    refine (getStorage_persistStorage storage).trans ?_
    rw [getStorage_setCode]
    rfl

end World

variable {env : Env} {evm evm' evm'' : EVM}

theorem Follows.trans (h : Follows evm evm') (h' : Follows evm' evm'') : Follows evm evm'' := by
  obtain ⟨events, hlog, hhist⟩ := h
  obtain ⟨events', hlog', hhist'⟩ := h'
  refine ⟨events ++ events', by rw [hlog', hlog, List.append_assoc], fun snapshot below => ?_⟩
  rw [storageOps_append]
  exact (hhist snapshot below).append (hhist' snapshot below)

theorem copyStore_congr (hcontext : evm'.context = evm.context)
    (hstorage : evm'.storage = evm.storage)
    (hworld : storageOf evm'.worldState = storageOf evm.worldState)
    (snapshot : Bytes → Int → Int) (below : List (Copied Bytes Int Int)) :
    evm'.copyStore snapshot below = evm.copyStore snapshot below := by
  simp only [EVM.copyStore, EVM.copied, hcontext, hstorage, hworld]

theorem follows_of_quiet {events : List Event} (hlog : evm'.log = evm.log ++ events)
    (hops : storageOps events = []) (hcontext : evm'.context = evm.context)
    (hstorage : evm'.storage = evm.storage)
    (hworld : storageOf evm'.worldState = storageOf evm.worldState) : Follows evm evm' := by
  refine ⟨events, hlog, fun snapshot below => ?_⟩
  rw [copyStore_congr hcontext hstorage hworld, hops]
  exact .nil

theorem follows_of_world {w w' : WorldState} (hw : evm.worldState = some w)
    (hs : evm'.shell = { evm.shell with worldState := some w' })
    (h : w'.getStorage = w.getStorage) : Follows evm evm' := by
  refine follows_of_quiet ((congrArg Shell.log hs).trans (List.append_nil _).symm)
    rfl (congrArg Shell.context hs) (congrArg Shell.storage hs) ?_
  rw [hw, show evm'.worldState = some w' from congrArg Shell.worldState hs]
  exact h

theorem follows_of_shell (hs : evm'.shell = evm.shell) : Follows evm evm' :=
  follows_of_quiet ((congrArg Shell.log hs).trans (List.append_nil _).symm) rfl
    (congrArg Shell.context hs) (congrArg Shell.storage hs)
    (congrArg storageOf (congrArg Shell.worldState hs))

theorem follows_localEffect (h : LocalEffect evm evm') : Follows evm evm' := by
  cases h with
  | quiet h => exact follows_of_shell h
  | load key h =>
    refine ⟨_, congrArg Shell.log h, fun snapshot below => ?_⟩
    rw [copyStore_congr (congrArg Shell.context h) (congrArg Shell.storage h)
      (congrArg storageOf (congrArg Shell.worldState h))]
    exact .single .load
  | store key value h =>
    refine ⟨_, congrArg Shell.log h, fun snapshot below => ?_⟩
    have hstorage : evm'.storage.get? = Function.update evm.storage.get? key (some value) := by
      funext j
      rw [show evm'.storage = evm.storage.set key value from congrArg Shell.storage h,
        Dict.get?_set, Function.update_apply]
    have hstore : evm'.copyStore snapshot below = ⟨storageOf evm.worldState, snapshot,
        ⟨evm.context.address, Function.update evm.storage.get? key (some value)⟩ :: below⟩ := by
      rw [EVM.copyStore, EVM.copied, hstorage,
        show evm'.worldState = evm.worldState from congrArg Shell.worldState h,
        show evm'.context = evm.context from congrArg Shell.context h]
    rw [hstore]
    exact .single .store

theorem ChildOf.getStorage_eq {p : Pending} {code data : Bytes} {value gas : Int}
    {w w' : WorldState} (h : ChildOf evm p code value data gas w w') :
    w'.getStorage = w.getStorage :=
  (getStorage_payValue h.paid).trans (getStorage_base p _)

theorem follows_start {r : EStateM.Result Abort EVM (Option Pending)} (h : Start evm r) :
    Follows evm (final r) := by
  cases h with
  | unchanged hr hs => exact follows_of_shell hs
  | paid hr hw hpay hs => exact follows_of_world hw hs (getStorage_payValue hpay)
  | reserved hr hw hs => exact follows_of_world hw hs (getStorage_reserve _ _)
  | child hc hs hstack => exact follows_of_world hc.world hs hc.getStorage_eq

theorem follows_begin (env : Env) (hrun : evm.running = true) :
    Follows evm (final (begin env evm)) := by
  apply final_begin (P := Follows evm) env hrun
  · exact follows_of_shell rfl
  · exact follows_of_quiet rfl rfl rfl rfl rfl
  · intro opcode _ _ _
    have hcharge : Follows evm (evm.charge opcode) := follows_of_quiet rfl rfl rfl rfl rfl
    apply hcharge.trans
    cases beginOp_effect env (evm.charge opcode) opcode with
    | inFrame hr h => exact follows_localEffect h
    | contract hop h => exact follows_start h

/-- A child frame starts with a copy of the storage that its parent sees, or with none. -/
theorem enter_child {p : Pending} (hrun : evm.running = true)
    (h : begin env evm = .ok (some p) evm') :
    ∃ event, p.child.log = evm'.log ++ [event] ∧ ∀ snapshot below,
      History (Step 0) (evm'.copyStore snapshot below) (storageOps [event])
        (p.child.copyStore snapshot (evm'.copied :: below)) := by
  obtain ⟨opcode, code, value, data, gas, w, w', hc, hs, -⟩ := childOf_of_begin hrun h
  have hworld : evm'.worldState = some w' := congrArg Shell.worldState hs
  have hlog : evm'.log = (evm.charge opcode).log := congrArg Shell.log hs
  refine ⟨_, by rw [hc.child, hlog]; rfl, fun snapshot below => ?_⟩
  rw [hc.child, EVM.copyStore, hworld]
  refine .single ?_
  cases p with
  | call q =>
    apply Step.call
    intro key
    rw [storageOf, hc.getStorage_eq]
    rfl
  | create q => exact .create

theorem merge_of_failed {p : Pending} {o : Outcome} (h : endingOf o ≠ .success) :
    p.merge o = (final o).worldState := by
  cases o with
  | error e child => rfl
  | ok result child =>
    cases hsuccess : result.success with
    | true => exact absurd (by rw [endingOf, if_pos hsuccess]) h
    | false => simp [Pending.merge, hsuccess]

theorem merge_of_success {p : Pending} {o : Outcome} {w : WorldState}
    (h : endingOf o = .success) (hw : (final o).worldState = some w) :
    ∃ returnData, p.merge o = some (p.commit returnData (final o).storage w) := by
  cases o with
  | error e child =>
    unfold endingOf at h
    split at h <;> first | cases h | contradiction
  | ok result child =>
    cases hsuccess : result.success with
    | false => rw [endingOf, if_neg (by simp [hsuccess])] at h; cases h
    | true =>
      rw [final_ok] at hw
      refine ⟨result.returnData, ?_⟩
      rw [Pending.merge, if_pos hsuccess, hw]
      rfl

/-- The parent of a child that has ended commits its copy or drops it. -/
theorem leave_child {p : Pending} {o : Outcome} {w : WorldState}
    (hw : (final o).worldState = some w) (snapshot : Bytes → Int → Int)
    (parent : Copied Bytes Int Int) (below : List (Copied Bytes Int Int)) :
    History (Step 0)
      ⟨storageOf (final o).worldState, snapshot,
        ⟨p.address, (final o).storage.get?⟩ :: parent :: below⟩
      (storageOps [.leave p.kind (endingOf o)])
      ⟨storageOf (p.merge o), snapshot, parent :: below⟩ := by
  by_cases hsuccess : endingOf o = .success
  · obtain ⟨returnData, hmerge⟩ := merge_of_success (p := p) hsuccess hw
    rw [hsuccess, hmerge, hw, storageOf, storageOf, getStorage_commit]
    exact .single .commit
  · rw [merge_of_failed hsuccess]
    have hop : storageOps [.leave p.kind (endingOf o)] = [.leave false] := by
      simp [storageOps, Event.storageOp, hsuccess]
    rw [hop]
    exact .single .abort

theorem follows_child {p : Pending} {evm₁ : EVM} {c : LoopResult} (hrun : evm.running = true)
    (hb : begin env evm = .ok (some p) evm₁) (hrunc : Run env p.child c)
    (hc : Follows p.child (final c)) :
    Follows evm₁ (final (settle env p (conclude p.gas c) evm₁)) := by
  obtain ⟨haddr, hmem, -, hworld⟩ := begin_child hrun hb
  obtain ⟨event, hlog, henter⟩ := enter_child hrun hb
  obtain ⟨events, hlogc, hchild⟩ := hc
  obtain ⟨hw, hl, hst⟩ := final_conclude p.gas c
  have hprogress := run_progress hrunc
  have hsettled := settle_settled env p (conclude p.gas c) evm₁
  obtain ⟨w₀, hw₀⟩ : ∃ w₀, p.child.worldState = some w₀ := by
    obtain ⟨opcode, code, value, data, gas, w, w', hcof, -⟩ := childOf_of_begin hrun hb
    exact ⟨w', by rw [hcof.child]; rfl⟩
  obtain ⟨w₁, hw₁, -⟩ := hprogress.world (haddr ▸ hmem) w₀ hw₀
  have hend : ∀ snapshot below, (final c).copyStore snapshot below =
      ⟨storageOf (final (conclude p.gas c)).worldState, snapshot,
        ⟨p.address, (final (conclude p.gas c)).storage.get?⟩ :: below⟩ := by
    intro snapshot below
    rw [EVM.copyStore, EVM.copied, hprogress.context, haddr, hw, hst]
  have hparent : ∀ snapshot below,
      (final (settle env p (conclude p.gas c) evm₁)).copyStore snapshot below =
        ⟨storageOf (p.merge (conclude p.gas c)), snapshot, evm₁.copied :: below⟩ := by
    intro snapshot below
    simp only [EVM.copyStore, EVM.copied, hsettled.worldState, hsettled.context, hsettled.storage]
  refine ⟨[event] ++ (events ++ [.leave p.kind (endingOf (conclude p.gas c))]), ?_,
    fun snapshot below => ?_⟩
  · rw [hsettled.log, hl, hlogc, hlog]
    simp only [List.append_assoc]
  · rw [storageOps_append, storageOps_append, hparent]
    apply (henter snapshot below).append
    apply (hchild snapshot _).append
    rw [hend]
    exact leave_child (hw.trans hw₁) snapshot _ _

/-- The log of a run is a history of the store of copies. -/
theorem run_follows {r : LoopResult} (h : Run env evm r) : Follows evm (final r) :=
  h.of_steps (fun _ => follows_of_shell rfl) Follows.trans (follows_begin env)
    fun hrun hb hrunc hc => follows_child hrun hb hrunc hc

end Ethereum
