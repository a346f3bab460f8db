import Ethereum.Core.Completed
import Ethereum.Evm.Storage

/-! Contract storage as one map shared by all frames of a transaction, which the copies
of the frames stand for as long as none of them gets out of date. -/
namespace Ethereum

open Stateful Sequencing CopyStore Journal

variable {env : Env} {fuel : Nat} {tx : Transaction} {sender : Bytes} {gas blockGasLimit : Int}
  {s s' : TxState} {w w' : WorldState}

theorem getStorage_bill (sender : Bytes) : (w.bill tx sender).getStorage = w.getStorage :=
  getStorage_of_account (field_bill Account.storage fun _ _ _ => rfl)

theorem getStorage_refund (gasRemaining : Int) :
    (w.refund tx sender gasRemaining).getStorage = w.getStorage :=
  getStorage_of_account (field_refund Account.storage (fun _ _ => rfl) gasRemaining)

theorem Opens.getStorage_eq {t : TopFrame} (h : Opens env tx sender w t w') :
    w'.getStorage = w.getStorage :=
  getStorage_of_account fun a => congrArg Account.storage (h.getAccount_eq a)

theorem getStorage_topCommit (t : TopFrame) (returnData : Bytes) (storage : Dict Int Int) :
    (t.commit returnData storage w).getStorage =
      Function.update w.getStorage t.address fun key =>
        (storage.get? key).getD (w.getStorage t.address key) := by
  unfold TopFrame.commit
  split
  · refine (getStorage_persistStorage storage).trans ?_
    rw [getStorage_setCode]
  · exact getStorage_persistStorage storage

/-- The frame of a transaction starts with a copy of its contract's storage, or with none. -/
theorem enter_topFrame {t : TopFrame} {w₁ w₂ : WorldState} (ht : Opens env tx sender w t w₁)
    (hpay : payValue w₁ sender t.address tx.value = .ok w₂) (log : List Event) :
    History (Step 0) ⟨w.getStorage, w.getStorage, []⟩
      (storageOps [.enter t.kind (t.context tx sender gas)])
      ((t.start tx sender gas w₂ log).copyStore w.getStorage []) := by
  have hstorage : w₂.getStorage = w.getStorage :=
    (getStorage_payValue hpay).trans ht.getStorage_eq
  have hmaps : storageOf (t.start tx sender gas w₂ log).worldState = w.getStorage := hstorage
  rw [EVM.copyStore, hmaps]
  refine .single ?_
  cases ht with
  | message hto hcode => exact .call fun key => rfl
  | creation hto ha => exact .create

/-- The frame of a transaction up to its end. -/
theorem history_topFrame {t : TopFrame} {w₁ w₂ : WorldState} {c : LoopResult}
    (ht : Opens env tx sender w t w₁) (hpay : payValue w₁ sender t.address tx.value = .ok w₂)
    (hc : Run env (t.start tx sender gas w₂ []) c) :
    History (Step 0) ⟨w.getStorage, w.getStorage, []⟩ (storageOps (final c).log)
      ⟨storageOf (final c).worldState, w.getStorage, [⟨t.address, (final c).storage.get?⟩]⟩ := by
  obtain ⟨events, hlog, hhistory⟩ := run_follows hc
  have hend : (final c).copyStore w.getStorage [] =
      ⟨storageOf (final c).worldState, w.getStorage, [⟨t.address, (final c).storage.get?⟩]⟩ := by
    rw [EVM.copyStore, EVM.copied, (run_progress hc).context]
    rfl
  rw [hlog, storageOps_append, ← hend]
  exact (enter_topFrame ht hpay []).append (hhistory w.getStorage [])

/-- The log of the execution step is a history of the store of copies. It ends with the
storage of the world state if the step succeeds, and otherwise where it started. -/
theorem history_executed {r : EStateM.Result Abort TxState ExecutionResult}
    (h : Executed env fuel tx sender gas s r) (hs : s.log = []) :
    ∃ store, History (Step 0) ⟨s.world.getStorage, s.world.getStorage, []⟩
        (storageOps (final r).log) store ∧
      (∀ x s', r = .ok x s' → x.success = true →
        store = ⟨s'.world.getStorage, s'.world.getStorage, []⟩) ∧
      ((∀ x s', r = .ok x s' → x.success = false) →
        store = ⟨s.world.getStorage, s.world.getStorage, []⟩) := by
  cases h with
  | refused hl =>
    rw [final_error, hl, hs]
    exact ⟨_, .nil, fun _ _ h => absurd h (by simp), fun _ => rfl⟩
  | transferred hl hpay _ _ =>
    rw [final_ok, hl, hs]
    refine ⟨_, .nil, fun x s' h _ => ?_, fun _ => rfl⟩
    cases h
    rw [getStorage_payValue hpay]
  | @succeeded t _ w' c evm result s₁ ht hpay hc hok hl hworld hsuccess _ =>
    rw [hs] at hc
    have hrun := run_runLoop env fuel (t.start tx sender gas w' [])
    rw [← hc, hok] at hrun
    have hhistory := history_topFrame ht hpay hrun
    obtain ⟨w₁, hw₁, -⟩ := (run_progress hrun).world (entered_start t []) w' rfl
    rw [final_ok] at hw₁
    rw [hw₁, Option.getD_some] at hworld
    rw [final_ok, hw₁] at hhistory
    rw [final_ok, hl, storageOps_append]
    refine ⟨_, hhistory.append (.single .finish), fun x s' h _ => ?_, fun h => ?_⟩
    · cases h
      rw [hworld, getStorage_topCommit]
      rfl
    · rw [h result s₁ rfl] at hsuccess
      cases hsuccess
  | @failed t _ w' c ending _ ht hpay hc hl hfailed _ hending =>
    rw [hs] at hc
    have hrun := run_runLoop env fuel (t.start tx sender gas w' [])
    rw [← hc] at hrun
    have hhistory := history_topFrame ht hpay hrun
    have hop : storageOps [.leave t.kind ending] = [.leave false] := by
      simp [storageOps, Event.storageOp, hending]
    rw [hl, storageOps_append, hop]
    refine ⟨_, hhistory.append (.single .rollback), fun x s' h hx => ?_, fun _ => rfl⟩
    rw [hfailed x s' h] at hx
    cases hx

/-- The log of a transaction is a history of the store of copies, which ends with the storage
of the world state. -/
theorem history_applyTransaction {r : EStateM.Result Abort TxState TransactionResult}
    (h : Applied env fuel tx blockGasLimit { world := w } r) :
    ∃ store, History (Step 0) ⟨w.getStorage, w.getStorage, []⟩ (storageOps (final r).log) store ∧
      ∀ result s', r = .ok result s' →
        store = ⟨s'.world.getStorage, s'.world.getStorage, []⟩ := by
  have hexecuted := fun sender => history_executed (s := { world := w.bill tx sender })
    (executeTransaction_executed env fuel tx sender tx.executionGas _) rfl
  simp only [getStorage_bill] at hexecuted
  cases h with
  | rejected _ => exact ⟨_, .nil, fun _ _ h => absurd h (by simp)⟩
  | @unfinished sender s' _ hexec =>
    obtain ⟨store, hhistory, -⟩ := hexecuted sender
    rw [hexec] at hhistory
    exact ⟨store, hhistory, fun _ _ h => absurd h (by simp)⟩
  | @failed sender r result s' _ hexec hfailed hl hworld _ _ _ =>
    obtain ⟨store, hhistory, -, hrestored⟩ := hexecuted sender
    rw [hexec] at hhistory hrestored
    rw [← hl] at hhistory
    refine ⟨store, hhistory, fun result' s'' h => ?_⟩
    cases h
    rw [hworld, getStorage_bill]
    apply hrestored
    intro x s₁ hr
    rcases hfailed with ⟨e, s₂, he⟩ | ⟨y, s₂, hy, hfail⟩
    · rw [he] at hr
      cases hr
    · rw [hy] at hr
      cases hr
      exact hfail
  | @succeeded sender x s₁ result s' _ hexec hx hl hworld _ _ _ =>
    obtain ⟨store, hhistory, hfinal, -⟩ := hexecuted sender
    rw [hexec] at hhistory
    rw [final_ok, ← hl] at hhistory
    refine ⟨store, hhistory, fun result' s'' h => ?_⟩
    cases h
    rw [hfinal x s₁ hexec hx, hworld, getStorage_refund]

/-- In a transaction in which no copy gets out of date, every `SLOAD` pushes the latest
write to its slot that was not undone, and these writes are in the storage at the end. -/
theorem storage_is_shared {r : EStateM.Result Abort TxState TransactionResult}
    (h : applyTransaction env fuel tx blockGasLimit { world := w } = r)
    (hd : Disciplined 0 (start w.getStorage) (storageOps (final r).log)) :
    (∀ l₁ a k v l₂, storageOps (final r).log = l₁ ++ .load a k v :: l₂ →
      v = lastWrite w.getStorage l₁ a k) ∧
    ∀ result s', r = .ok result s' → ∀ a k,
      s'.world.getStorage a k = lastWrite w.getStorage (storageOps s'.log) a k := by
  obtain ⟨store, hhistory, hfinal⟩ :=
    history_applyTransaction (h ▸ applyTransaction_applied _ _ _ _ _)
  obtain ⟨hserved, hcoherent⟩ := served_of_disciplined hhistory (coherent_start _) hd
  refine ⟨served_iff.mp hserved, fun result s' hr a k => ?_⟩
  have hview := hcoherent.view
  rw [hfinal result s' hr, current_run, hr, final_ok] at hview
  exact congrFun (congrFun hview a) k

/-- Bytecode that calls its own contract without value, then stores 7 in slot 0. Without
value it loads slot 0. -/
def reentrantReadCode : Bytes :=
  [0x34, 0x60, 9, 0x57, 0x60, 0, 0x54, 0x50, 0x00, 0x5b, 0x60, 0, 0x60, 0, 0x60, 0, 0x60, 0, 0x60,
    0, 0x30, 0x5a, 0xf1, 0x60, 7, 0x60, 0, 0x55, 0x00]

/-- Bytecode that calls the sample callee, which stores 7 in its slot 0, and then fails. -/
def failingCallerCode : Bytes := callCode sampleCallee 0 [0xfe]

theorem storage_is_shared_reentrantRead :
    (∃ result s', applyTransaction sampleEnv 100 sampleTransaction 100000
        { world := sampleWorld reentrantReadCode [] } = .ok result s' ∧
      s'.world.getStorage sampleContract 0 = 7 ∧
      ∀ a k, s'.world.getStorage a k =
        lastWrite (sampleWorld reentrantReadCode []).getStorage (storageOps s'.log) a k) ∧
    ∃ result s', applyTransaction sampleEnv 100 sampleTransaction 100000
        { world := sampleWorld failingCallerCode sevenCode } = .ok result s' ∧
      .store sampleCallee 0 7 ∈ storageOps s'.log ∧
      ∀ a k, s'.world.getStorage a k =
        lastWrite (sampleWorld failingCallerCode sevenCode).getStorage
          (storageOps s'.log) a k := by
  constructor
  · obtain ⟨result, s', h, hp⟩ := exists_of_returns
      (p := fun (_ : TransactionResult) (s : TxState) =>
        decide (s.world.getStorage sampleContract 0 = 7) &&
        decide (storageOps s.log = [.enter false sampleContract, .enter false sampleContract,
          .load sampleContract 0 0, .leave true, .store sampleContract 0 7, .leave true]))
      (r := applyTransaction sampleEnv 100 sampleTransaction 100000
        { world := sampleWorld reentrantReadCode [] }) (by decide +kernel)
    simp only [Bool.and_eq_true, decide_eq_true_eq] at hp
    obtain ⟨hseven, hops⟩ := hp
    refine ⟨result, s', h, hseven, (storage_is_shared h ?_).2 result s' rfl⟩
    rw [final_ok, hops]
    simp [Disciplined, Along, Allowed, start, step]
  · obtain ⟨result, s', h, hp⟩ := exists_of_returns
      (p := fun (_ : TransactionResult) (s : TxState) =>
        decide (storageOps s.log = [.enter false sampleContract, .enter false sampleCallee,
          .store sampleCallee 0 7, .leave true, .leave false]))
      (r := applyTransaction sampleEnv 100 sampleTransaction 100000
        { world := sampleWorld failingCallerCode sevenCode }) (by decide +kernel)
    have hops := of_decide_eq_true hp
    refine ⟨result, s', h, by simp [hops], (storage_is_shared h ?_).2 result s' rfl⟩
    rw [final_ok, hops]
    have hne : sampleCallee ≠ sampleContract := by decide
    simp [Disciplined, Along, Allowed, start, step, hne, hne.symm]

/-- Bytecode that calls its own contract without value, then loads slot 0. Without value
it stores 7 there. -/
def reentrantWriteCode : Bytes :=
  [0x34, 0x60, 10, 0x57, 0x60, 7, 0x60, 0, 0x55, 0x00, 0x5b, 0x60, 0, 0x60, 0, 0x60, 0, 0x60, 0,
    0x60, 0, 0x30, 0x5a, 0xf1, 0x60, 0, 0x54, 0x00]

/-- The waiting frame loads 0 from its copy after the inner one has stored 7. -/
theorem storage_is_shared_not_reentrantWrite : ∃ result s',
    applyTransaction sampleEnv 100 sampleTransaction 100000
      { world := sampleWorld reentrantWriteCode [] } = .ok result s' ∧
    ¬ ∀ l₁ a k v l₂, storageOps s'.log = l₁ ++ .load a k v :: l₂ →
      v = lastWrite (sampleWorld reentrantWriteCode []).getStorage l₁ a k := by
  obtain ⟨result, s', h, hp⟩ := exists_of_returns
    (p := fun (_ : TransactionResult) (s : TxState) => decide (¬ Along Served
      (start (sampleWorld reentrantWriteCode []).getStorage) (storageOps s.log)))
    (r := applyTransaction sampleEnv 100 sampleTransaction 100000
      { world := sampleWorld reentrantWriteCode [] }) (by decide +kernel)
  exact ⟨result, s', h, fun hserved => of_decide_eq_true hp (served_iff.mpr hserved)⟩

end Ethereum
