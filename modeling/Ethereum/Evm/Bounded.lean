import Ethereum.Evm.Range

/-! Runs stay in range: what a frame in range hands to its children and gets back from
them is in range as well. -/
namespace Ethereum

open Stateful

section Contracts

variable {env : Env}

theorem short_nil : Short [] := by simp [Short]

theorem range_setWorld {w : WorldState} (hw : w.InRange) :
    KeepsRange (setWorld w) fun _ => True := by
  refine maintains_modify fun evm hr => { hr with shared := ⟨?_, hr.shared.log⟩ }
  intro w' h
  cases h
  exact hw

/-- What the second half of a contract opcode relies on. -/
structure Pending.InRange (p : Pending) : Prop where
  child : p.child.InRange
  address : p.address.length ≤ 32
  retOffset : ∀ q, p = .call q → 0 ≤ q.retOffset

theorem funded_enter {log : List Event} (h : Funded log) (kind : FrameKind)
    {context : ExecutionContext} (hgas : 0 ≤ context.gas) :
    Funded (log ++ [.enter kind context]) := by
  intro k c hmem
  rcases List.mem_append.mp hmem with hmem | hmem
  · exact h k c hmem
  · cases List.mem_singleton.mp hmem
    exact hgas

/-- A new frame is in range when what it is given is. -/
theorem inRange_init {code : Bytes} {context : ExecutionContext} {storage : Dict Int Int}
    {w : WorldState} {log : List Event} {kind : FrameKind} (hcode : Short code)
    (hcaller : context.caller.length ≤ 32) (haddress : context.address.length ≤ 32)
    (hvalue : Word context.value) (hdata : Short context.data) (hgas : Word context.gas)
    (hstorage : WordValued storage) (hw : w.InRange) (hlog : Funded log) :
    (EVM.init code context storage (some w) (log ++ [.enter kind context])).InRange where
  stack := fun _ h => absurd h List.not_mem_nil
  memory := short_nil
  storage := hstorage
  gas := hgas
  code := hcode
  returnData := short_nil
  caller := hcaller
  address := haddress
  value := hvalue
  data := hdata
  shared :=
    ⟨fun _ h => by cases h; exact hw, funded_enter hlog kind hgas.nonneg⟩

/-- An opcode that gives up pushes a word and starts no child. -/
theorem range_giveUp {α : Type} {R : α → Prop} {v : Int} (hv : Word v) :
    KeepsRange (do stackPush v; return none : EvmM (Option α)) fun p => ∀ q, p = some q → R q := by
  refine (range_stackPush hv).bind fun _ _ => maintains_pure ?_
  intro _ h
  cases h

theorem range_opCreateStart :
    KeepsRange (opCreateStart env) fun p => ∀ q, p = some q → (Pending.create q).InRange := by
  refine range_stackPop.bind fun value hvalue => range_stackPop.bind fun offset _ =>
    range_stackPop.bind fun size _ => maintains_get.bind fun evm hr => ?_
  cases hw : evm.worldState with
  | none =>
    exact range_giveUp word_zero
  | some w =>
    have hwr := hr.shared.world w hw
    refine (range_liftMemory keepsShort_readRange).bind fun initCode hcode => ?_
    refine (range_attempt fun _ h => length_of_computeContractAddress h).bind fun c hc => ?_
    have hreserve := inRange_reserve hwr evm.context.address c
    refine (range_setWorld hreserve).bind fun _ _ => ?_
    cases hpay : payValue (w.reserve evm.context.address c) evm.context.address c value with
    | error message =>
      rw [WorldState.reserve] at hpay
      simp only [hpay]
      exact range_giveUp word_zero
    | ok w' =>
      have hw' := inRange_payValue hreserve hpay
      rw [WorldState.reserve] at hpay
      simp only [hpay]
      refine (range_setWorld hw').bind fun _ _ => maintains_pure fun q hq => ?_
      cases hq
      refine ⟨?_, ?_, fun _ h => absurd h (by simp)⟩
      · exact inRange_init hcode hr.address (hc.trans_le (by omega)) hvalue short_nil hr.gas
          wordValued_empty hw' hr.shared.log
      · exact hc.trans_le (by omega)

theorem range_readCalldata (argsOffset argsLength : Int) :
    KeepsRange (readCalldata env argsOffset argsLength) Short :=
  Maintains.ite (fun _ => range_liftMemory keepsShort_readRange)
    fun _ => maintains_pure short_nil

theorem range_useGas_back (amount : Int) {k : EvmM (Option PendingCall)} {Q}
    (h : KeepsRange k Q) : KeepsRange (do useGas amount; useGas (-amount); k) Q := by
  intro evm hr
  have he : (do useGas amount; useGas (-amount); k : EvmM (Option PendingCall)) evm = k evm := by
    rw [useGas, useGas, bind_of_ok (modify_apply _ _), bind_of_ok (modify_apply _ _)]
    congr 1
    rw [show evm.gasRemaining - amount - -amount = evm.gasRemaining by omega]
  rw [he]
  exact h evm hr

theorem range_opCallStart :
    KeepsRange (opCallStart env) fun p => ∀ q, p = some q → (Pending.call q).InRange := by
  refine range_stackPop.bind fun gas hgas => range_stackPop.bind fun addrInt _ =>
    range_stackPop.bind fun value hvalue => range_stackPop.bind fun argsOffset _ =>
    range_stackPop.bind fun argsLength _ => range_stackPop.bind fun retOffset hret =>
    range_stackPop.bind fun retLength _ => maintains_get.bind fun evm hr => ?_
  cases hw : evm.worldState with
  | none =>
    exact range_giveUp word_zero
  | some w =>
    have hwr := hr.shared.world w hw
    refine (range_attempt fun _ h => length_of_intToBytes h).bind fun addrBytes haddr => ?_
    refine (range_readCalldata argsOffset argsLength).bind fun inputData hinput => ?_
    have hforwarded : Word (min gas evm.gasRemaining) :=
      word_of_le hr.gas (le_min hgas.nonneg hr.gas.nonneg) (min_le_right _ _)
    have htarget : (List.drop 12 addrBytes).length ≤ 32 := by
      rw [List.length_drop]
      omega
    dsimp only
    cases hpay : payValue w evm.context.address (List.drop 12 addrBytes) value with
    | error message =>
      exact range_giveUp word_zero
    | ok w' =>
      have hw' := inRange_payValue hwr hpay
      refine (range_setWorld hw').bind fun _ _ => Maintains.ite (fun _ => ?_) fun _ => ?_
      · exact range_useGas_back _ (range_giveUp word_one)
      · refine maintains_pure fun q hq => ?_
        cases hq
        refine ⟨?_, htarget, fun _ h => ?_⟩
        · exact inRange_init (hwr.code _) hr.address htarget hvalue hinput hforwarded
            (hwr.storage _) hw' hr.shared.log
        · cases h
          exact hret.nonneg

end Contracts

section Settle

variable {env : Env} {evm evm' : EVM} {p : Pending} {o : Outcome}

/-- The parts of a frame that a child cannot reach. -/
structure EVM.OwnInRange (evm : EVM) : Prop where
  stack : ∀ v ∈ evm.executionStack, Word v
  memory : Short evm.memory.data
  returnData : Short evm.returnData

/-- `E` tells which errors may come out; the exceptions of the code all may. -/
abbrev KeepsOwn {α : Type} (E : Abort → Prop) (x : EvmM α) : Prop :=
  Maintains E EVM.OwnInRange x fun _ => True

section Own

variable {E : Abort → Prop} (hE : ∀ e, E (.raised e))
include hE

theorem own_stackPush {v : Int} (hv : Word v) : KeepsOwn E (stackPush v) := by
  refine maintains_get.bind fun evm _ => Maintains.ite (fun _ => maintains_throw (hE _)) fun _ => ?_
  refine maintains_modify fun evm hr => { hr with stack := fun u hu => ?_ }
  rcases List.mem_cons.mp hu with rfl | hu
  · exact hv
  · exact hr.stack u hu

theorem own_liftMemory {α : Type} {Q : α → Prop} {x : EStateM Abort Memory α}
    (h : KeepsShort x Q) : KeepsOwn E (liftMemory x) := by
  have hE' : ∀ e : Abort, e.IsRaised → E e := by
    intro e he
    cases e with
    | raised e => exact hE e
    | outOfFuel => exact absurd rfl he
  exact ((h.weaken fun _ _ => trivial).weakenError hE').zoom (fun _ hr => hr.memory)
    fun _ _ hr hm => { hr with memory := hm }

theorem own_writeReturnData {env : Env} {retOffset : Int} (h0 : 0 ≤ retOffset) (retLength : Int)
    (returnData : Bytes) :
    KeepsOwn E (writeReturnData env retOffset retLength returnData) := by
  have hattempt : ∀ x : Except PyException Unit, KeepsOwn E (attempt x) := by
    intro x
    cases x with
    | error e => exact maintains_throw (hE e)
    | ok u => exact maintains_pure trivial
  refine Maintains.ite (fun _ => ?_) fun _ => maintains_pure trivial
  refine Maintains.ite (fun _ => ?_) fun _ => own_liftMemory hE (keepsShort_writeRange h0)
  exact (hattempt _).bind fun _ _ => own_liftMemory hE (keepsShort_writeRange h0)

omit hE in
theorem own_joinChild (kind : FrameKind) (ending : Ending) (child : EVM) :
    KeepsOwn E (joinChild kind ending child) :=
  maintains_modify fun _ hr => { hr with }

theorem own_settle (env : Env) {p : Pending} (o : Outcome) (hp : p.InRange)
    (ho : ∀ e child, o = .error e child → E e) : KeepsOwn E (settle env p o) := by
  refine settle_maintains env own_joinChild (fun _ => maintains_modify fun _ hr => { hr with })
    (fun q returnData hq => own_writeReturnData hE (hp.retOffset q hq) _ _)
    (fun _ => maintains_modify fun _ hr => { hr with }) (fun value hvalue => ?_) ho
  rcases hvalue with rfl | rfl | rfl
  · exact own_stackPush hE word_zero
  · exact own_stackPush hE word_one
  · exact own_stackPush hE (word_intFromBytes hp.address)

end Own

/-- A child that leaves what frames share in range, and returns in range if it returns. -/
structure RunInRange (evm : EVM) (r : LoopResult) : Prop where
  shared : SharedInRange (final r).worldState (final r).log
  returned : ∀ evm', r = .ok () evm' → evm'.InRange ∧ evm'.gasRemaining ≤ evm.gasRemaining

theorem inRange_commit {w : WorldState} (hw : w.InRange) (p : Pending) {returnData : Bytes}
    {storage : Dict Int Int} (hdata : Short returnData) (hstorage : WordValued storage) :
    (p.commit returnData storage w).InRange := by
  cases p with
  | call q => exact inRange_persistStorage hw _ hstorage
  | create q => exact inRange_persistStorage (inRange_setCode hw _ hdata) _ hstorage

theorem shared_settle {c : LoopResult} (hc : RunInRange p.child c)
    (hs : Settled evm p (conclude p.gas c) evm') :
    SharedInRange evm'.worldState evm'.log := by
  obtain ⟨hworld, hlog, -⟩ := final_conclude p.gas c
  refine ⟨fun w hw => ?_, ?_⟩
  · rw [hs.worldState] at hw
    cases c with
    | ok u child =>
      obtain ⟨hchild, -⟩ := hc.returned child rfl
      simp only [conclude, Pending.merge] at hw
      split at hw
      · obtain ⟨w₀, hw₀, rfl⟩ := Option.map_eq_some_iff.mp hw
        exact inRange_commit (hc.shared.world w₀ hw₀) p hchild.returnData hchild.storage
      · exact hc.shared.world w hw
    | error e child =>
      have hmerge : p.merge (conclude p.gas (.error e child)) = child.worldState := by
        unfold conclude
        split
        · contradiction
        · next he => cases he; rfl
        · next he => cases he; rfl
      exact hc.shared.world w (hmerge ▸ hw)
  · rw [hs.log, hlog]
    intro kind context hmem
    rcases List.mem_append.mp hmem with hmem | hmem
    · exact hc.shared.log kind context hmem
    · cases List.mem_singleton.mp hmem

/-- What the parent is charged for a child that was in range. -/
theorem charge_nonneg {c : LoopResult} (hc : RunInRange p.child c) (h0 : 0 ≤ p.gas)
    (hcall : ∀ q, p = .call q → q.forwardedGas = p.gas) :
    0 ≤ p.charge (conclude p.gas c) := by
  cases c with
  | ok u child =>
    have hle : child.gasRemaining ≤ p.gas := (hc.returned child rfl).2
    cases p with
    | call q =>
      have := hcall q rfl
      simp only [conclude, Pending.charge]
      split <;> omega
    | create q =>
      simp only [conclude, Pending.charge]
      omega
  | error e child =>
    rw [charge_conclude_error]
    cases p with
    | call q =>
      have := hcall q rfl
      dsimp only
      omega
    | create q => exact le_rfl

/-- A frame stays in range whatever becomes of its child, and gains no gas. -/
theorem inRange_final_settle {c : LoopResult} (hevm : evm.InRange) (hp : p.InRange)
    (hg : ChildGas evm p) (hrun : Run env p.child c) (hc : RunInRange p.child c) :
    (final (settle env p (conclude p.gas c) evm)).InRange ∧
      (final (settle env p (conclude p.gas c) evm)).gasRemaining ≤ evm.gasRemaining := by
  have h0 : 0 ≤ p.gas := hp.child.gas.nonneg
  have hsettled := settle_settled env p (conclude p.gas c) evm
  have hown := (own_settle (E := fun _ => True) (fun _ => trivial) env (conclude p.gas c) hp
    (fun _ _ _ => trivial) evm
    ⟨hevm.stack, hevm.memory, hevm.returnData⟩).invariant
  have hnonneg := charge_nonneg hc h0 hg.call
  have hle := charge_le hg hevm.gas.nonneg hrun fun _ => run_gas_nonneg hrun h0
  have hp' := hg.le
  have hevm0 := hevm.gas.nonneg
  have hgas : 0 ≤ (final (settle env p (conclude p.gas c) evm)).gasRemaining ∧
      (final (settle env p (conclude p.gas c) evm)).gasRemaining ≤ evm.gasRemaining := by
    rcases (settle_paid env p (conclude p.gas c) evm).final with h | h <;> omega
  refine ⟨?_, hgas.2⟩
  exact {
    stack := hown.stack
    memory := hown.memory
    returnData := hown.returnData
    storage := hsettled.storage ▸ hevm.storage
    gas := word_of_le hevm.gas hgas.1 hgas.2
    code := hsettled.code ▸ hevm.code
    caller := hsettled.context ▸ hevm.caller
    address := hsettled.context ▸ hevm.address
    value := hsettled.context ▸ hevm.value
    data := hsettled.context ▸ hevm.data
    shared := shared_settle hc hsettled }

theorem inRange_settle {c : LoopResult} (hevm : evm.InRange) (hp : p.InRange)
    (hg : ChildGas evm p) (hrun : Run env p.child c) (hc : RunInRange p.child c)
    (hs : settle env p (conclude p.gas c) evm = .ok () evm') :
    evm'.InRange ∧ evm'.gasRemaining ≤ evm.gasRemaining := by
  have h := inRange_final_settle hevm hp hg hrun hc
  rwa [hs] at h

end Settle

section Run

variable {env : Env} {evm evm' : EVM} {p : Pending} {r : LoopResult}

theorem inRange_charge {opcode : Opcode} (hr : evm.InRange)
    (hgas : gasCost opcode ≤ evm.gasRemaining) : (evm.charge opcode).InRange := by
  have hcost := gasCost_nonneg opcode
  refine { hr with gas := ?_, shared := ⟨hr.shared.world, ?_⟩ }
  · exact word_of_le hr.gas (by simp only [EVM.charge]; omega) (by simp only [EVM.charge]; omega)
  · intro kind context hmem
    rcases List.mem_append.mp hmem with hmem | hmem
    · exact hr.shared.log kind context hmem
    · cases List.mem_singleton.mp hmem

theorem inRange_invalidated (hr : evm.InRange) : evm.invalidated.InRange := by
  refine { hr with gas := word_zero, shared := ⟨hr.shared.world, ?_⟩ }
  intro kind context hmem
  rcases List.mem_append.mp hmem with hmem | hmem
  · exact hr.shared.log kind context hmem
  · cases List.mem_singleton.mp hmem

theorem range_beginOp (env : Env) {opcode : Opcode} (h : ∀ n, opcode = .push n → n ≤ 32) :
    KeepsRange (beginOp env opcode) fun p => ∀ q, p = some q → q.InRange := by
  by_cases hc : opcode = .create
  · subst hc
    refine range_opCreateStart.bind fun p hp => maintains_pure fun q hq => ?_
    obtain ⟨c, rfl, rfl⟩ := Option.map_eq_some_iff.mp hq
    exact hp c rfl
  · by_cases hl : opcode = .call
    · subst hl
      refine range_opCallStart.bind fun p hp => maintains_pure fun q hq => ?_
      obtain ⟨c, rfl, rfl⟩ := Option.map_eq_some_iff.mp hq
      exact hp c rfl
    · have hb : beginOp env opcode = (do localOp env opcode; return none) := by
        cases opcode <;> first | rfl | contradiction
      rw [hb]
      exact (range_localOp h).bind fun _ _ => maintains_pure fun _ h => absurd h (by simp)

/-- The first half of an iteration stays in range, and so does the child it starts. -/
theorem begin_inRange (env : Env) (hrun : evm.running = true) (hr : evm.InRange) :
    (final (begin env evm)).InRange ∧
      (final (begin env evm)).gasRemaining ≤ evm.gasRemaining ∧
      ∀ p evm', begin env evm = .ok (some p) evm' → p.InRange := by
  cases fetched env hrun with
  | unknown byte h => rw [h]; exact ⟨hr, le_rfl, fun _ _ h => absurd h (by simp)⟩
  | outOfGas opcode hgas h => rw [h]; exact ⟨hr, le_rfl, fun _ _ h => absurd h (by simp)⟩
  | invalid h =>
    rw [h]
    exact ⟨inRange_invalidated hr, hr.gas.nonneg, fun _ _ h => absurd h (by simp)⟩
  | paid opcode hop hgas hbyte h =>
    rw [h]
    obtain ⟨byte, hbyte⟩ := hbyte
    have hpush : ∀ n, opcode = .push n → n ≤ 32 := fun n hn => pushSize_le (hn ▸ hbyte)
    obtain ⟨hfinal, hpending, -⟩ := range_beginOp env hpush _ (inRange_charge hr hgas)
    refine ⟨hfinal, ?_, fun p evm' hp => hpending _ _ hp p rfl⟩
    have hcost := gasCost_nonneg opcode
    rw [gas_beginOp]
    simp only [EVM.charge]
    omega

theorem run_inRange (h : Run env evm r) (hr : evm.InRange) : RunInRange evm r := by
  induction h with
  | cut => exact ⟨hr.shared, fun _ h => absurd h (by simp)⟩
  | halted _ =>
    refine ⟨hr.shared, fun evm' h => ?_⟩
    cases h
    exact ⟨hr, le_rfl⟩
  | raised hrun hb =>
    obtain ⟨h1, -, -⟩ := begin_inRange env hrun hr
    rw [hb] at h1
    exact ⟨h1.shared, fun _ h => absurd h (by simp)⟩
  | step hrun hb _ ih =>
    obtain ⟨h1, hle, -⟩ := begin_inRange env hrun hr
    rw [hb] at h1 hle
    have := ih h1
    exact ⟨this.shared, fun evm' h =>
      ⟨(this.returned evm' h).1, (this.returned evm' h).2.trans hle⟩⟩
  | child hrun hb hc hs _ ihc ih =>
    obtain ⟨h1, hle, hp⟩ := begin_inRange env hrun hr
    rw [hb] at h1 hle
    have hpr := hp _ _ hb
    obtain ⟨h2, hle'⟩ := inRange_settle h1 hpr (childGas_of_begin hrun hb) hc (ihc hpr.child) hs
    have := ih h2
    exact ⟨this.shared, fun evm' h =>
      ⟨(this.returned evm' h).1, ((this.returned evm' h).2.trans hle').trans hle⟩⟩
  | @childRaised evm evm₁ evm' p c e hrun hb hc hs ihc =>
    obtain ⟨h1, -, hp⟩ := begin_inRange env hrun hr
    have hsettled : Settled evm₁ p (conclude p.gas c) evm' := by
      have := settle_settled env p (conclude p.gas c) evm₁
      rwa [hs] at this
    exact ⟨shared_settle (ihc (hp _ _ hb).child) hsettled, fun _ h => absurd h (by simp)⟩

end Run

end Ethereum
