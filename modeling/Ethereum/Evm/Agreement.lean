import Ethereum.Evm.Footprint
import Ethereum.Evm.Script
import Ethereum.Lib.Relational
import Ethereum.State.Agreement

/-! Frames that differ in nothing but the order of their dictionaries, their logs and accounts
that they do not get to run in lockstep, with all the frames they start. -/
namespace Ethereum

open Stateful Relational WorldState

/-- What ties two runs together: the accounts that they may get to, how their world states are
related, and the logs that they have started from. -/
structure Coupling where
  inside : Set Bytes
  worlds : WorldState → WorldState → Prop
  before : List Event
  before' : List Event

namespace Coupling

/-- Both logs have grown by the same entries. -/
def Logs (c : Coupling) (log log' : List Event) : Prop :=
  ∃ new, log = c.before ++ new ∧ log' = c.before' ++ new

/-- No operation on the accounts inside tells the world states apart. -/
abbrev Sound (c : Coupling) : Prop := Congruence c.inside c.worlds

variable {c : Coupling}

theorem Logs.append {log log' : List Event} (h : c.Logs log log') (entries : List Event) :
    c.Logs (log ++ entries) (log' ++ entries) := by
  obtain ⟨new, rfl, rfl⟩ := h
  exact ⟨new ++ entries, List.append_assoc _ _ _, List.append_assoc _ _ _⟩

end Coupling

/-- The same frame with other slots and another log, over another world state. -/
def EVM.over (storage : Dict Int Int) (worldState : Option WorldState) (log : List Event)
    (evm : EVM) : EVM :=
  { evm with storage, worldState, log }

/-- The same frame with the same slots, over world states that belong together. -/
inductive EVM.Like (c : Coupling) (evm : EVM) : EVM → Prop
  | intro {storage : Dict Int Int} {world : Option WorldState} {log : List Event}
      (hstorage : ∀ key, evm.storage.get? key = storage.get? key)
      (hworld : Option.Rel c.worlds evm.worldState world) (hlog : c.Logs evm.log log) :
      EVM.Like c evm (evm.over storage world log)

theorem EVM.like_of_over {c : Coupling} (evm : EVM) {storage : Dict Int Int}
    {world : Option WorldState} {log : List Event}
    (hs : ∀ key, evm.storage.get? key = storage.get? key)
    (hw : Option.Rel c.worlds evm.worldState world) (hl : c.Logs evm.log log) :
    EVM.Like c evm (evm.over storage world log) := .intro hs hw hl

/-- Two handlers that run in lockstep and return the same. -/
abbrev Lockstep {α : Type} (c : Coupling) (x y : EvmM α) : Prop :=
  Related Eq (EVM.Like c) Eq x y

variable {c : Coupling}

theorem payValue_alike (hS : c.Sound) {w w' : WorldState} (h : c.worlds w w')
    {sender recipient : Bytes} (hsender : sender ∈ c.inside) (hrecipient : recipient ∈ c.inside)
    (value : Int) :
    Alike c.worlds (payValue w sender recipient value) (payValue w' sender recipient value) := by
  unfold payValue
  split
  · exact hS.transfer h hsender hrecipient value
  · exact .ok h

section Primitives

variable {α : Type}

theorem like_init (code : Bytes) (context : ExecutionContext) {storage storage' : Dict Int Int}
    {w w' : WorldState} {log log' : List Event}
    (hstorage : ∀ key, storage.get? key = storage'.get? key) (hw : c.worlds w w')
    (hl : c.Logs log log') :
    EVM.Like c (EVM.init code context storage (some w) log)
      (EVM.init code context storage' (some w') log') :=
  .intro hstorage (.some hw) hl

theorem lockstep_pure (a : α) : Lockstep c (pure a) (pure a) := related_pure rfl

theorem lockstep_throw (e : Abort) : Lockstep c (throw e : EvmM α) (throw e) := related_throw rfl

theorem Lockstep.andThen {β γ : Type} {W : β → γ → Prop} {x y : EvmM α} {k : α → EvmM β}
    {l : α → EvmM γ} (hx : Lockstep c x y) (hk : ∀ a, Related Eq (EVM.Like c) W (k a) (l a)) :
    Related Eq (EVM.Like c) W (x >>= k) (y >>= l) :=
  hx.bind fun a _ h => h ▸ hk a

/-- A change of the frame that leaves slots, world state and log alone. -/
theorem lockstep_modify {f : EVM → EVM} (hf : ∀ storage world log evm,
      f (EVM.over storage world log evm) = EVM.over storage world log (f evm)) :
    Lockstep c (modify f) (modify f) := by
  intro evm _ h
  have hsame : f evm = EVM.over evm.storage evm.worldState evm.log (f evm) := hf _ _ _ _
  have hstorage : (f evm).storage = evm.storage := by
    rw [hsame]
    rfl
  have hworld : (f evm).worldState = evm.worldState := by
    rw [hsame]
    rfl
  have hlog : (f evm).log = evm.log := by
    rw [hsame]
    rfl
  cases h with
  | intro hs hw hl =>
    refine .ok rfl ?_
    rw [hf]
    exact .intro (fun key => hstorage ▸ hs key) (hworld ▸ hw) (hlog ▸ hl)

/-- Reading the frame, where what follows does not look at slots, world state or log. -/
theorem lockstep_get {k : EVM → EvmM α}
    (hk : ∀ storage world log evm, k (EVM.over storage world log evm) = k evm)
    (h : ∀ evm, Lockstep c (k evm) (k evm)) : Lockstep c (get >>= k) (get >>= k) := by
  refine related_get_bind fun evm evm' hlike => ?_
  have hrest := h evm evm evm' hlike
  cases hlike with
  | @intro storage world log hs hw hl => rwa [hk storage world log evm]

theorem lockstep_attempt (x : Except PyException α) : Lockstep c (attempt x) (attempt x) := by
  cases x with
  | error e => exact lockstep_throw _
  | ok a => exact lockstep_pure a

/-- A computation outside the frame, which both have in common. -/
theorem related_attempt {β γ : Type} {W : β → γ → Prop} {k : α → EvmM β} {l : α → EvmM γ}
    (x : Except PyException α) (hk : ∀ a, x = .ok a → Related Eq (EVM.Like c) W (k a) (l a)) :
    Related Eq (EVM.Like c) W (attempt x >>= k) (attempt x >>= l) := by
  cases x with
  | error e => exact fun _ _ h => .error rfl h
  | ok a => exact hk a rfl

theorem lockstep_liftMemory (x : EStateM Abort Memory α) :
    Lockstep c (liftMemory x) (liftMemory x) := by
  refine related_zoom x ?_ ?_
  · intro evm evm' h
    cases h with
    | intro hs hw hl => rfl
  · intro memory evm evm' h
    cases h with
    | intro hs hw hl => exact .intro hs hw hl

theorem lockstep_stackPop : Lockstep c stackPop stackPop := by
  refine lockstep_get (fun _ _ _ _ => rfl) fun evm => ?_
  split
  · exact lockstep_throw _
  · exact (lockstep_modify fun _ _ _ _ => rfl).andThen fun _ => lockstep_pure _

theorem lockstep_stackPush (value : Int) : Lockstep c (stackPush value) (stackPush value) := by
  refine lockstep_get (fun _ _ _ _ => rfl) fun evm => ?_
  exact Related.ite Iff.rfl (lockstep_throw _)
    (lockstep_modify fun _ _ _ _ => rfl)

theorem lockstep_stackPeek (depth : Nat) : Lockstep c (stackPeek depth) (stackPeek depth) := by
  refine lockstep_get (fun _ _ _ _ => rfl) fun evm => ?_
  split
  · exact lockstep_throw _
  · exact lockstep_pure _

theorem lockstep_useGas (amount : Int) : Lockstep c (useGas amount) (useGas amount) :=
  lockstep_modify fun _ _ _ _ => rfl

theorem lockstep_emit (event : Event) : Lockstep c (emit event) (emit event) := by
  intro evm _ h
  cases h with
  | intro hs hw hl =>
    exact .ok rfl
      (EVM.like_of_over { evm with log := evm.log ++ [event] } hs hw (hl.append [event]))

/-- Taking an operand off the stack. -/
theorem agree_pop {β γ : Type} {W : β → γ → Prop} {k : Int → EvmM β} {l : Int → EvmM γ}
    {evm evm' : EVM} (h : EVM.Like c evm evm')
    (hk : ∀ v evm₁ evm₁', evm.executionStack = v :: evm₁.executionStack → evm₁.shell = evm.shell →
      EVM.Like c evm₁ evm₁' → Agree Eq (EVM.Like c) W (k v evm₁) (l v evm₁')) :
    Agree Eq (EVM.Like c) W ((stackPop >>= k) evm) ((stackPop >>= l) evm') := by
  have hstack : evm'.executionStack = evm.executionStack := by
    cases h
    rfl
  cases hcons : evm.executionStack with
  | nil =>
    rw [bind_of_error (stackPop_of_nil hcons), bind_of_error (stackPop_of_nil (hstack.trans hcons))]
    exact .error rfl h
  | cons v rest =>
    rw [bind_of_ok (stackPop_of_cons hcons), bind_of_ok (stackPop_of_cons (hstack.trans hcons))]
    refine hk v _ _ hcons rfl ?_
    cases h with
    | intro hs hw hl => exact EVM.like_of_over { evm with executionStack := rest } hs hw hl

end Primitives

section Handlers

variable (env : Env)

theorem lockstep_binaryOp (f : Int → Int → Int) : Lockstep c (binaryOp f) (binaryOp f) :=
  lockstep_stackPop.andThen fun _ => lockstep_stackPop.andThen fun _ => lockstep_stackPush _

theorem lockstep_pushOf {f : EVM → Int}
    (h : ∀ storage world log evm, f (EVM.over storage world log evm) = f evm) :
    Lockstep c (pushOf f) (pushOf f) :=
  lockstep_get (fun storage world log evm => congrArg stackPush (h storage world log evm))
    fun _ => lockstep_stackPush _

theorem lockstep_copyOp {source : EVM → Bytes}
    (h : ∀ storage world log evm, source (EVM.over storage world log evm) = source evm) :
    Lockstep c (copyOp env source) (copyOp env source) := by
  refine lockstep_stackPop.andThen fun _ => lockstep_stackPop.andThen fun _ =>
    lockstep_stackPop.andThen fun _ => ?_
  refine Related.ite Iff.rfl (lockstep_pure _) (lockstep_get (fun storage world log evm => ?_) ?_)
  · rw [h storage world log evm]
  · exact fun _ => (lockstep_attempt _).andThen fun _ => (lockstep_attempt _).andThen
      fun _ => lockstep_liftMemory _

theorem lockstep_opPush (n : Nat) : Lockstep c (opPush n) (opPush n) :=
  lockstep_get (fun _ _ _ _ => rfl) fun _ => (lockstep_attempt _).andThen fun _ =>
    (lockstep_stackPush _).andThen fun _ => lockstep_modify fun _ _ _ _ => rfl

theorem lockstep_opSwap (depth : Nat) : Lockstep c (opSwap depth) (opSwap depth) := by
  refine lockstep_get (fun _ _ _ _ => rfl) fun _ => ?_
  split
  · exact lockstep_modify fun _ _ _ _ => rfl
  · exact lockstep_throw _

theorem lockstep_jumpTo (destination : Int) :
    Lockstep c (jumpTo destination) (jumpTo destination) := by
  refine lockstep_get (fun _ _ _ _ => rfl) fun _ => ?_
  exact Related.ite Iff.rfl (lockstep_modify fun _ _ _ _ => rfl) (lockstep_throw _)

theorem lockstep_readAndHalt {halt : Bytes → EVM → EVM} (h : ∀ data storage world log evm,
      halt data (EVM.over storage world log evm) = EVM.over storage world log (halt data evm)) :
    Lockstep S
      (do
        let offset ← stackPop
        let size ← stackPop
        let data ← liftMemory (Memory.readRange env offset size)
        modify (halt data))
      (do
        let offset ← stackPop
        let size ← stackPop
        let data ← liftMemory (Memory.readRange env offset size)
        modify (halt data)) :=
  lockstep_stackPop.andThen fun _ => lockstep_stackPop.andThen fun _ =>
    (lockstep_liftMemory _).andThen fun _ => lockstep_modify (h _)

/-- A slot is read by its key, wherever it stands. -/
theorem lockstep_opSload : Lockstep c opSload opSload := by
  refine lockstep_stackPop.andThen fun key => related_get_bind fun evm evm' h => ?_
  have hvalue : evm'.storage.getD key 0 = evm.storage.getD key 0 := by
    cases h with
    | intro hs _ _ => exact congrArg (Option.getD · 0) (hs key).symm
  have haddress : evm'.context = evm.context := by
    cases h
    rfl
  rw [hvalue, haddress]
  exact ((lockstep_emit _).andThen fun _ => lockstep_stackPush _) evm evm' h

theorem lockstep_opSstore : Lockstep c opSstore opSstore := by
  refine lockstep_stackPop.andThen fun key => lockstep_stackPop.andThen fun value => ?_
  refine lockstep_get (fun _ _ _ _ => rfl) fun _ => (lockstep_emit _).andThen fun _ => ?_
  intro evm evm' h
  cases h with
  | @intro storage world log hs hw hl =>
    refine .ok rfl ?_
    have hset : ∀ k, (evm.storage.set key value).get? k = (storage.set key value).get? k := by
      intro k
      rw [Dict.get?_set, Dict.get?_set, hs]
    exact EVM.like_of_over { evm with storage := evm.storage.set key value } hset hw hl

/-- No handler that starts no frame sees a difference. -/
theorem lockstep_localOp (opcode : Opcode) :
    Lockstep c (localOp env opcode) (localOp env opcode) := by
  cases opcode with
  | push n => exact lockstep_opPush n
  | dup n => exact (lockstep_stackPeek _).andThen fun _ => lockstep_stackPush _
  | swap n => exact lockstep_opSwap n
  | stop => exact lockstep_modify fun _ _ _ _ => rfl
  | exp =>
    exact lockstep_stackPop.andThen fun _ => lockstep_stackPop.andThen fun _ =>
      (lockstep_attempt _).andThen fun _ => lockstep_stackPush _
  | iszero | not => exact lockstep_stackPop.andThen fun _ => lockstep_stackPush _
  | sha3 =>
    exact lockstep_stackPop.andThen fun _ => lockstep_stackPop.andThen fun _ =>
      (lockstep_liftMemory _).andThen fun _ => lockstep_stackPush _
  | address | caller | callvalue | calldatasize | codesize | msize | gas =>
    exact lockstep_pushOf fun _ _ _ _ => rfl
  | calldataload =>
    exact lockstep_stackPop.andThen fun _ => lockstep_get (fun _ _ _ _ => rfl) fun _ =>
      (lockstep_attempt _).andThen fun _ => lockstep_stackPush _
  | calldatacopy | codecopy => exact lockstep_copyOp env fun _ _ _ _ => rfl
  | pop => exact lockstep_stackPop.andThen fun _ => lockstep_pure _
  | mload =>
    exact lockstep_stackPop.andThen fun _ => (lockstep_liftMemory _).andThen
      fun _ => lockstep_stackPush _
  | mstore | mstore8 =>
    exact lockstep_stackPop.andThen fun _ => lockstep_stackPop.andThen
      fun _ => lockstep_liftMemory _
  | sload => exact lockstep_opSload
  | sstore => exact lockstep_opSstore
  | jump => exact lockstep_stackPop.andThen fun _ => lockstep_jumpTo _
  | jumpi =>
    exact lockstep_stackPop.andThen fun _ => lockstep_stackPop.andThen fun _ =>
      Related.ite Iff.rfl (lockstep_jumpTo _) (lockstep_pure _)
  | jumpdest => exact lockstep_pure _
  | «return» | revert => exact lockstep_readAndHalt env fun _ _ _ _ _ => rfl
  | create | call | invalid => exact lockstep_get (fun _ _ _ _ => rfl) fun _ => lockstep_throw _
  | add | mul | sub | div | mod | lt | gt | eq | and | or => exact lockstep_binaryOp _

end Handlers

section Frames

variable {env : Env} {evm evm' : EVM} {w w' : WorldState}

/-- The local variables of a frame that waits for a creation. -/
structure PendingCreate.Like (c : Coupling) (p q : PendingCreate) : Prop where
  child : EVM.Like c p.child q.child
  contractAddress : p.contractAddress = q.contractAddress
  inside : p.contractAddress ∈ c.inside

/-- The local variables of a frame that waits for a call. -/
structure PendingCall.Like (c : Coupling) (p q : PendingCall) : Prop where
  child : EVM.Like c p.child q.child
  targetAddress : p.targetAddress = q.targetAddress
  inside : p.targetAddress ∈ c.inside
  forwardedGas : p.forwardedGas = q.forwardedGas
  retOffset : p.retOffset = q.retOffset
  retLength : p.retLength = q.retLength

inductive Pending.Like (c : Coupling) : Pending → Pending → Prop
  | call {p q} (h : PendingCall.Like c p q) : Pending.Like c (.call p) (.call q)
  | create {p q} (h : PendingCreate.Like c p q) : Pending.Like c (.create p) (.create q)

theorem Pending.Like.child {p q : Pending} (h : Pending.Like c p q) :
    EVM.Like c p.child q.child := by
  cases h with
  | call h => exact h.child
  | create h => exact h.child

theorem EVM.Like.context (h : EVM.Like c evm evm') : evm'.context = evm.context := by
  cases h
  rfl

theorem EVM.Like.gasRemaining (h : EVM.Like c evm evm') :
    evm'.gasRemaining = evm.gasRemaining := by
  cases h
  rfl

theorem EVM.Like.log (h : EVM.Like c evm evm') : c.Logs evm.log evm'.log := by
  cases h with
  | intro hs hw hl => exact hl

theorem EVM.Like.world_cases (h : EVM.Like c evm evm') :
    (evm.worldState = none ∧ evm'.worldState = none) ∨
      ∃ w w', evm.worldState = some w ∧ evm'.worldState = some w' ∧ c.worlds w w' := by
  cases h with
  | @intro storage world log hs hw hl =>
    rw [show (EVM.over storage world log evm).worldState = world from rfl]
    generalize evm.worldState = x at hw ⊢
    cases hw with
    | some h => exact .inr ⟨_, _, rfl, rfl, h⟩
    | none => exact .inl ⟨rfl, rfl⟩

theorem related_setWorld (h : c.worlds w w') :
    Related Eq (EVM.Like c) Eq (setWorld w) (setWorld w') := by
  intro evm evm' hlike
  cases hlike with
  | intro hs hw hl =>
    exact .ok rfl (EVM.like_of_over { evm with worldState := some w } hs (.some h) hl)

/-- Pushing a result where no child is started. -/
theorem related_pushNone {α β : Type} {V : α → β → Prop} (value : Int) :
    Related Eq (EVM.Like c) (Option.Rel V)
      (do stackPush value; return none) (do stackPush value; return none) :=
  (lockstep_stackPush value).andThen fun _ => related_pure .none

theorem agree_opCreateStart (hS : c.Sound) (h : EVM.Like c evm evm')
    (hself : evm.context.address ∈ c.inside)
    (htarget : ∀ w a, evm.worldState = some w → computeContractAddress env evm.context.address
      (w.getAccount evm.context.address).nonce = .ok a → a ∈ c.inside) :
    Agree Eq (EVM.Like c) (Option.Rel (PendingCreate.Like c)) (opCreateStart env evm)
      (opCreateStart env evm') := by
  refine agree_pop h fun value evm₁ _ _ hs₁ h₁ => ?_
  refine agree_pop h₁ fun offset evm₂ _ _ hs₂ h₂ => ?_
  refine agree_pop h₂ fun size evm₃ evm₃' _ hs₃ h₃ => ?_
  have hs := hs₃.trans (hs₂.trans hs₁)
  rw [← show evm₃.context = evm.context from congrArg Shell.context hs] at hself htarget
  rw [← show evm₃.worldState = evm.worldState from congrArg Shell.worldState hs] at htarget
  rw [bind_of_ok (get_apply _), bind_of_ok (get_apply _)]
  obtain ⟨hw, hw'⟩ | ⟨w, w', hw, hw', hworld⟩ := h₃.world_cases
  · simp only [hw, hw']
    exact related_pushNone 0 evm₃ evm₃' h₃
  · simp only [hw, hw', h₃.context, h₃.gasRemaining, ← (hS.account hworld _ hself).nonce]
    refine ((lockstep_liftMemory _).andThen fun initCode =>
      related_attempt _ fun contractAddress ha => ?_) evm₃ evm₃' h₃
    have hinside : contractAddress ∈ c.inside := htarget w contractAddress hw ha
    have hreserved := hS.addBalance (hS.incrementNonce hworld hself) hinside 0
    refine Lockstep.andThen (related_setWorld hreserved) fun _ => ?_
    have hpay := payValue_alike hS hreserved hself hinside value
    generalize payValue ((w.incrementNonce _).addBalance _ 0) _ _ _ = r,
      payValue ((w'.incrementNonce _).addBalance _ 0) _ _ _ = r' at hpay
    cases hpay with
    | error message => exact related_pushNone 0
    | ok hpaid =>
      refine Lockstep.andThen (related_setWorld hpaid) fun _ =>
        related_pure (.some ⟨?_, rfl, hinside⟩)
      exact like_init _ _ (fun _ => rfl) hpaid (h₃.log.append _)

theorem agree_opCallStart (hS : c.Sound) (h : EVM.Like c evm evm')
    (hself : evm.context.address ∈ c.inside)
    (htarget : ∀ addrInt addrBytes, evm.executionStack[1]? = some addrInt →
      intToBytes 32 addrInt = .ok addrBytes → addrBytes.drop 12 ∈ c.inside) :
    Agree Eq (EVM.Like c) (Option.Rel (PendingCall.Like c)) (opCallStart env evm)
      (opCallStart env evm') := by
  refine agree_pop h fun gas evm₁ _ hpop₁ hs₁ h₁ => ?_
  refine agree_pop h₁ fun addrInt evm₂ _ hpop₂ hs₂ h₂ => ?_
  refine agree_pop h₂ fun value evm₃ _ _ hs₃ h₃ => ?_
  refine agree_pop h₃ fun argsOffset evm₄ _ _ hs₄ h₄ => ?_
  refine agree_pop h₄ fun argsLength evm₅ _ _ hs₅ h₅ => ?_
  refine agree_pop h₅ fun retOffset evm₆ _ _ hs₆ h₆ => ?_
  refine agree_pop h₆ fun retLength evm₇ evm₇' _ hs₇ h₇ => ?_
  have hs := hs₇.trans (hs₆.trans (hs₅.trans (hs₄.trans (hs₃.trans (hs₂.trans hs₁)))))
  have hsecond : evm.executionStack[1]? = some addrInt := by
    rw [hpop₁, hpop₂]
    rfl
  rw [← show evm₇.context = evm.context from congrArg Shell.context hs] at hself
  rw [bind_of_ok (get_apply _), bind_of_ok (get_apply _)]
  obtain ⟨hw, hw'⟩ | ⟨w, w', hw, hw', hworld⟩ := h₇.world_cases
  · simp only [hw, hw']
    exact related_pushNone 0 evm₇ evm₇' h₇
  · simp only [hw, hw', h₇.context, h₇.gasRemaining]
    refine related_attempt _ (fun addrBytes haddr => ?_) evm₇ evm₇' h₇
    have hinside : addrBytes.drop 12 ∈ c.inside := htarget addrInt addrBytes hsecond haddr
    have haccount : SameAt (addrBytes.drop 12) w w' := hS.account hworld _ hinside
    rw [haccount.code]
    refine Lockstep.andThen (Related.ite Iff.rfl (lockstep_liftMemory _) (lockstep_pure _))
      fun inputData => ?_
    have hpay := payValue_alike hS hworld hself hinside value
    generalize payValue w _ _ _ = r, payValue w' _ _ _ = r' at hpay
    cases hpay with
    | error message => exact related_pushNone 0
    | ok hpaid =>
      refine Lockstep.andThen (related_setWorld hpaid) fun _ => ?_
      refine Related.ite Iff.rfl ?_ (related_pure (.some ⟨?_, rfl, hinside, rfl, rfl, rfl⟩))
      · exact (lockstep_useGas _).andThen fun _ => (lockstep_useGas _).andThen
          fun _ => related_pushNone 1
      · exact like_init _ _ haccount.storage hpaid (h₇.log.append _)

theorem EVM.Like.charge (h : EVM.Like c evm evm') (opcode : Opcode) :
    EVM.Like c (evm.charge opcode) (evm'.charge opcode) := by
  cases h with
  | intro hs hw hl => exact EVM.like_of_over (evm.charge opcode) hs hw (hl.append _)

theorem EVM.Like.invalidated (h : EVM.Like c evm evm') :
    EVM.Like c evm.invalidated evm'.invalidated := by
  cases h with
  | intro hs hw hl => exact EVM.like_of_over evm.invalidated hs hw (hl.append _)

/-- The first half of an iteration, where the accounts that it concerns are inside. -/
theorem agree_begin (hS : c.Sound) (h : EVM.Like c evm evm') (hrun : evm.running = true)
    (hself : evm.context.address ∈ c.inside) (hcontact : ∀ a, evm.contact env = some a →
      a ∈ c.inside) :
    Agree Eq (EVM.Like c) (Option.Rel (Pending.Like c)) (begin env evm) (begin env evm') := by
  have hsame : evm'.code = evm.code ∧ evm'.programCounter = evm.programCounter := by
    cases h
    exact ⟨rfl, rfl⟩
  obtain ⟨hcode, hpc⟩ := hsame
  obtain ⟨byte, hbyte⟩ := byte_of_running hrun
  have hbyte' : evm'.code[evm'.programCounter]? = some byte := by rw [hcode, hpc, hbyte]
  cases hop : Opcode.ofByte byte with
  | none =>
    rw [begin_of_unknown hbyte hop, begin_of_unknown hbyte' hop, hpc]
    exact .error rfl h
  | some opcode =>
    by_cases hinvalid : opcode = .invalid
    · subst hinvalid
      rw [begin_of_invalid hbyte hop, begin_of_invalid hbyte' hop]
      exact .ok .none h.invalidated
    rcases le_or_gt (gasCost opcode) evm.gasRemaining with hgas | hgas
    · rw [begin_of_paid hbyte hop hinvalid hgas,
        begin_of_paid hbyte' hop hinvalid (h.gasRemaining ▸ hgas)]
      have hfetch : evm.code[evm.programCounter]?.bind Opcode.ofByte = some opcode := by
        rw [hbyte, Option.bind_some, hop]
      by_cases hcreate : opcode = .create
      · subst hcreate
        rw [beginOp_create, beginOp_create]
        refine (agree_opCreateStart hS (h.charge .create) hself ?_).mapOk ?_
        · intro w a hw ha
          exact hcontact a (contact_of_create hfetch hw ha)
        · intro p q hpq
          cases hpq with
          | none => exact .none
          | some h => exact .some (.create h)
      by_cases hcall : opcode = .call
      · subst hcall
        rw [beginOp_call, beginOp_call]
        refine (agree_opCallStart hS (h.charge .call) hself ?_).mapOk ?_
        · intro addrInt addrBytes hsecond haddr
          exact hcontact _ (contact_of_call hfetch hsecond haddr)
        · intro p q hpq
          cases hpq with
          | none => exact .none
          | some h => exact .some (.call h)
      rw [beginOp_local hcreate hcall, beginOp_local hcreate hcall]
      exact (lockstep_localOp env opcode _ _ (h.charge opcode)).mapOk fun _ _ _ => .none
    · rw [begin_of_unpaid hbyte hop hinvalid hgas,
        begin_of_unpaid hbyte' hop hinvalid (h.gasRemaining ▸ hgas), h.gasRemaining]
      exact .error rfl h

theorem related_joinChild (kind : FrameKind) (ending : Ending) {child child' : EVM}
    (h : EVM.Like c child child') :
    Lockstep c (joinChild kind ending child) (joinChild kind ending child') := by
  intro evm evm' hlike
  cases h with
  | intro hs hw hl =>
    cases hlike with
    | intro hs' hw' hl' =>
      exact .ok rfl (EVM.like_of_over { evm with
        worldState := child.worldState, log := child.log ++ [.leave kind ending] } hs' hw
        (hl.append _))

/-- A change of the world state alone. -/
theorem related_mapWorld {f g : WorldState → WorldState}
    (h : ∀ w w', c.worlds w w' → c.worlds (f w) (g w')) :
    Lockstep c (modify fun evm => { evm with worldState := evm.worldState.map f })
      (modify fun evm => { evm with worldState := evm.worldState.map g }) := by
  intro evm evm' hlike
  cases hlike with
  | intro hs hw hl =>
    refine .ok rfl (EVM.like_of_over { evm with worldState := evm.worldState.map f } hs ?_ hl)
    dsimp only
    generalize evm.worldState = x at hw ⊢
    cases hw with
    | some hw => exact .some (h _ _ hw)
    | none => exact .none

theorem lockstep_persistStorage (hS : c.Sound) {address : Bytes} (ha : address ∈ c.inside)
    {child child' : EVM} (h : EVM.Like c child child') :
    Lockstep c (persistStorage address child.storage) (persistStorage address child'.storage) := by
  cases h with
  | intro hs _ _ => exact related_mapWorld fun _ _ hw => hS.persist hw address ha hs

theorem lockstep_writeReturnData (retOffset retLength : Int) (returnData : Bytes) :
    Lockstep c (writeReturnData env retOffset retLength returnData)
      (writeReturnData env retOffset retLength returnData) := by
  refine Related.ite Iff.rfl ?_ (lockstep_pure _)
  exact Related.ite Iff.rfl ((lockstep_attempt _).andThen fun _ => lockstep_liftMemory _)
    (lockstep_liftMemory _)

/-- How a parent goes on after a child that has failed: it takes over and is charged. -/
theorem lockstep_failed (kind : FrameKind) (ending : Ending) {child child' : EVM}
    (h : EVM.Like c child child') (amount : Int) :
    Lockstep c
      (do joinChild kind ending child; useGas amount; stackPush 0)
      (do joinChild kind ending child'; useGas amount; stackPush 0) :=
  (related_joinChild kind ending h).andThen fun _ => (lockstep_useGas amount).andThen
    fun _ => lockstep_stackPush 0

theorem lockstep_opCreateFinish (hS : c.Sound) {p q : PendingCreate} (h : p.Like c q)
    {o o' : Outcome} (ho : Agree Eq (EVM.Like c) Eq o o') :
    Lockstep c (opCreateFinish p o) (opCreateFinish q o') := by
  obtain ⟨-, haddress, hinside⟩ := h
  cases ho with
  | @ok result _ child child' hv hlike =>
    subst hv
    rw [opCreateFinish, opCreateFinish, ← haddress]
    refine Related.ite Iff.rfl ?_ (lockstep_failed .create .failure hlike _)
    exact (related_joinChild .create .success hlike).andThen fun _ =>
      (related_mapWorld fun _ _ hw => hS.setCode hw hinside _).andThen fun _ =>
      (lockstep_persistStorage hS hinside hlike).andThen fun _ => (lockstep_useGas _).andThen
      fun _ => lockstep_stackPush _
  | @error e _ child child' he hlike =>
    subst he
    rcases outOfGas_or_other e with ⟨needed, remaining, rfl⟩ | hother
    · exact (related_joinChild .create .outOfGas hlike).andThen fun _ => lockstep_stackPush 0
    · rw [opCreateFinish.eq_3 p e child hother, opCreateFinish.eq_3 q e child' hother]
      exact (related_joinChild .create .raised hlike).andThen fun _ => lockstep_throw _

theorem lockstep_opCallFinish (hS : c.Sound) {p q : PendingCall} (h : p.Like c q)
    {o o' : Outcome} (ho : Agree Eq (EVM.Like c) Eq o o') :
    Lockstep c (opCallFinish env p o) (opCallFinish env q o') := by
  obtain ⟨-, haddress, hinside, hforwarded, hoffset, hlength⟩ := h
  cases ho with
  | @ok result _ child child' hv hlike =>
    subst hv
    rw [opCallFinish, opCallFinish, ← haddress, hforwarded, hoffset, hlength]
    refine Related.ite Iff.rfl ?_ (lockstep_failed .call .failure hlike _)
    exact (related_joinChild .call .success hlike).andThen fun _ =>
      (lockstep_persistStorage hS hinside hlike).andThen fun _ =>
      (lockstep_writeReturnData _ _ _).andThen fun _ => (lockstep_useGas _).andThen
      fun _ => lockstep_stackPush _
  | @error e _ child child' he hlike =>
    subst he
    rcases outOfGas_or_other e with ⟨needed, remaining, rfl⟩ | hother
    · rw [opCallFinish, opCallFinish, hforwarded]
      exact lockstep_failed .call .outOfGas hlike _
    · rw [opCallFinish.eq_3 env p e child hother, opCallFinish.eq_3 env q e child' hother]
      exact (related_joinChild .call .raised hlike).andThen fun _ => lockstep_throw _

theorem agree_conclude {r r' : EStateM.Result Abort EVM Unit} (h : Agree Eq (EVM.Like c) Eq r r')
    {gas gas' : Int} (hgas : gas' = gas) :
    Agree Eq (EVM.Like c) Eq (conclude gas r) (conclude gas' r') := by
  subst hgas
  cases h with
  | ok hv hlike =>
    cases hlike with
    | intro hs hw hl => exact .ok rfl (.intro hs hw hl)
  | @error e _ evm evm' he hlike =>
    subst he
    rcases outOfGas_or_other e with ⟨needed, remaining, rfl⟩ | hother
    · cases hlike with
      | intro hs hw hl =>
        exact .error rfl
          (EVM.like_of_over { evm with reverted := true, gasRemaining := 0 } hs hw hl)
    · rw [conclude.eq_3 gas' e evm hother, conclude.eq_3 gas' e evm' hother]
      exact .error rfl hlike

theorem lockstep_settle (hS : c.Sound) {p q : Pending} (h : p.Like c q) {o o' : Outcome}
    (ho : Agree Eq (EVM.Like c) Eq o o') : Lockstep c (settle env p o) (settle env q o') := by
  cases h with
  | call h => exact lockstep_opCallFinish hS h ho
  | create h => exact lockstep_opCreateFinish hS h ho

/-- The loops of two such frames run in lockstep, at any depth of frames below them, if all the
accounts that the first gets to are inside. -/
theorem agree_runLoop (hS : c.Sound) (fuel : Nat) (h : EVM.Like c evm evm')
    (htouches : ∀ a, evm.Touches env a → a ∈ c.inside) :
    Agree Eq (EVM.Like c) Eq (runLoop env fuel evm) (runLoop env fuel evm') := by
  induction fuel generalizing evm evm' with
  | zero => exact .error rfl h
  | succ fuel ih =>
    have hrunning : evm'.running = evm.running := by
      cases h
      rfl
    rw [runLoop, bind_of_ok (get_apply _), bind_of_ok (get_apply _), hrunning]
    cases hrun : evm.running with
    | false => exact .ok rfl h
    | true =>
      have hiterate : Agree Eq (EVM.Like c) Eq (iterate env (execute env fuel) evm)
          (iterate env (execute env fuel) evm') := by
        rw [iterate_eq]
        have hbegin := agree_begin hS h hrun (htouches _ (.own .refl rfl))
          fun a ha => htouches a (.contact .refl hrun ha)
        refine hbegin.bind fun hb hpending hlike => ?_
        cases hpending with
        | none => exact .ok rfl hlike
        | @some p q hpq =>
          have hchild := ih hpq.child fun a ha => htouches a (ha.of_next (.enter hrun hb))
          exact lockstep_settle hS hpq (agree_conclude hchild hpq.child.gasRemaining) _ _ hlike
      refine hiterate.bind fun hok _ hlike => ?_
      exact ih hlike fun a ha => htouches a (ha.of_next (next_of_iterate hrun hok))

theorem agree_execute (hS : c.Sound) (fuel : Nat) (h : EVM.Like c evm evm')
    (htouches : ∀ a, evm.Touches env a → a ∈ c.inside) :
    Agree Eq (EVM.Like c) Eq (execute env fuel evm) (execute env fuel evm') :=
  agree_conclude (agree_runLoop hS fuel h htouches) h.gasRemaining

end Frames

end Ethereum
