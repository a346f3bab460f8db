import Ethereum.Evm.Step
import Ethereum.State.Moves

/-! What each half of an iteration can do to the parts of a frame that matter outside
its own stack and memory. -/
namespace Ethereum

open Stateful

/-- A frame without its stack, memory and control, which most opcodes change. -/
structure Shell where
  code : Bytes
  storage : Dict Int Int
  gasRemaining : Int
  context : ExecutionContext
  worldState : Option WorldState
  log : List Event

def EVM.shell (evm : EVM) : Shell where
  code := evm.code
  storage := evm.storage
  gasRemaining := evm.gasRemaining
  context := evm.context
  worldState := evm.worldState
  log := evm.log

/-- A view of a frame that its stack and memory are no part of. -/
class Ignores {ρ : Type} (f : EVM → ρ) : Prop where
  stack : ∀ evm stack, f { evm with executionStack := stack } = f evm
  memory : ∀ evm memory, f { evm with memory := memory } = f evm

/-- Where a frame stands in its code. -/
def EVM.control (evm : EVM) : Nat × Bool := (evm.programCounter, evm.stopped)

instance : Ignores EVM.shell := ⟨fun _ _ => rfl, fun _ _ => rfl⟩

instance : Ignores EVM.control := ⟨fun _ _ => rfl, fun _ _ => rfl⟩

section Quiet

variable {ρ : Type} {f : EVM → ρ} (env : Env) [Ignores f]

theorem keeps_stackPop : Keeps f stackPop := by
  refine keeps_get.bind fun evm => ?_
  split
  · exact keeps_throw _
  · exact Keeps.bind (keeps_modify fun evm => Ignores.stack evm _) fun _ => keeps_pure _

theorem keeps_stackPush (value : Int) : Keeps f (stackPush value) := by
  refine keeps_get.bind fun evm => Keeps.ite (keeps_throw _) ?_
  exact keeps_modify fun evm => Ignores.stack evm _

omit [Ignores f] in
theorem keeps_stackPeek (depth : Nat) : Keeps f (stackPeek depth) := by
  refine keeps_get.bind fun evm => ?_
  split
  · exact keeps_throw _
  · exact keeps_pure _

omit [Ignores f] in
theorem keeps_attempt {α : Type} (x : Except PyException α) : Keeps f (attempt x) := by
  cases x with
  | error e => exact keeps_throw _
  | ok a => exact keeps_pure _

theorem keeps_liftMemory {α : Type} (x : EStateM Abort Memory α) : Keeps f (liftMemory x) :=
  keeps_zoom x fun memory evm => Ignores.memory evm memory

theorem keeps_binaryOp (g : Int → Int → Int) : Keeps f (binaryOp g) :=
  keeps_stackPop.bind fun _ => keeps_stackPop.bind fun _ => keeps_stackPush _

theorem keeps_pushOf (g : EVM → Int) : Keeps f (pushOf g) :=
  keeps_get.bind fun _ => keeps_stackPush _

theorem keeps_copyOp (source : EVM → Bytes) : Keeps f (copyOp env source) := by
  refine keeps_stackPop.bind fun _ => keeps_stackPop.bind fun _ => keeps_stackPop.bind fun _ => ?_
  refine Keeps.ite (keeps_pure _) ?_
  exact keeps_get.bind fun _ => (keeps_attempt _).bind fun _ => (keeps_attempt _).bind fun _ =>
    keeps_liftMemory _

theorem keeps_opSwap (depth : Nat) : Keeps f (opSwap depth) := by
  refine keeps_get.bind fun _ => ?_
  split
  · exact keeps_modify fun evm => Ignores.stack evm _
  · exact keeps_throw _

/-- `RETURN` and `REVERT`, up to the flags they set. -/
theorem keeps_readAndHalt {halt : Bytes → EVM → EVM} (h : ∀ data evm, f (halt data evm) = f evm) :
    Keeps f (do
      let offset ← stackPop
      let size ← stackPop
      let data ← liftMemory (Memory.readRange env offset size)
      modify (halt data)) :=
  keeps_stackPop.bind fun _ => keeps_stackPop.bind fun _ => (keeps_liftMemory _).bind fun _ =>
    keeps_modify fun _ => h _ _

/-- The opcodes that can change more of their own frame than its stack and memory. -/
def Opcode.isQuiet : Opcode → Bool
  | .stop | .push _ | .jump | .jumpi | .return | .revert | .sload | .sstore => false
  | _ => true

theorem keeps_quiet {opcode : Opcode} (h : opcode.isQuiet = true) :
    Keeps f (localOp env opcode) := by
  cases opcode with
  | stop | push n | jump | jumpi | «return» | revert | sload | sstore => cases h
  | dup n => exact (keeps_stackPeek _).bind fun _ => keeps_stackPush _
  | swap n => exact keeps_opSwap n
  | exp =>
    exact keeps_stackPop.bind fun _ => keeps_stackPop.bind fun _ => (keeps_attempt _).bind fun _ =>
      keeps_stackPush _
  | iszero | not => exact keeps_stackPop.bind fun _ => keeps_stackPush _
  | sha3 =>
    exact keeps_stackPop.bind fun _ => keeps_stackPop.bind fun _ =>
      (keeps_liftMemory _).bind fun _ => keeps_stackPush _
  | address | caller | callvalue | calldatasize | codesize | msize | gas => exact keeps_pushOf _
  | calldataload =>
    exact keeps_stackPop.bind fun _ => keeps_get.bind fun _ => (keeps_attempt _).bind fun _ =>
      keeps_stackPush _
  | calldatacopy | codecopy => exact keeps_copyOp env _
  | pop => exact keeps_stackPop.bind fun _ => keeps_pure _
  | mload =>
    exact keeps_stackPop.bind fun _ => (keeps_liftMemory _).bind fun _ => keeps_stackPush _
  | mstore | mstore8 =>
    exact keeps_stackPop.bind fun _ => keeps_stackPop.bind fun _ => keeps_liftMemory _
  | jumpdest => exact keeps_pure _
  | create | call | invalid => exact keeps_get.bind fun _ => keeps_throw _
  | add | mul | sub | div | mod | lt | gt | eq | and | or => exact keeps_binaryOp _

theorem shell_jumpTo (destination : Int) : Keeps EVM.shell (jumpTo destination) :=
  keeps_get.bind fun _ => Keeps.ite (keeps_modify fun _ => rfl) (keeps_throw _)

/-- Of the handlers that start no frame, only the two storage opcodes leave the shell. -/
theorem shell_localOp {opcode : Opcode} (hl : opcode ≠ .sload) (hs : opcode ≠ .sstore) :
    Keeps EVM.shell (localOp env opcode) := by
  by_cases hq : opcode.isQuiet = true
  · exact keeps_quiet env hq
  · cases opcode with
    | sload => exact absurd rfl hl
    | sstore => exact absurd rfl hs
    | push n =>
      exact keeps_get.bind fun _ => (keeps_attempt _).bind fun _ =>
        (keeps_stackPush _).bind fun _ => keeps_modify fun _ => rfl
    | stop => exact keeps_modify fun _ => rfl
    | jump => exact keeps_stackPop.bind fun _ => shell_jumpTo _
    | jumpi =>
      exact keeps_stackPop.bind fun _ => keeps_stackPop.bind fun _ =>
        Keeps.ite (shell_jumpTo _) (keeps_pure _)
    | «return» | revert => exact keeps_readAndHalt env fun _ _ => rfl
    | _ => exact absurd rfl hq

end Quiet

section Start

variable {I : EVM → Prop} (env : Env)
  (hpop : Maintains (fun _ => True) I stackPop fun _ => True)
  (hpush : ∀ value, Maintains (fun _ => True) I (stackPush value) fun _ => True)
  (hread : ∀ offset size,
    Maintains (fun _ => True) I (liftMemory (Memory.readRange env offset size)) fun _ => True)
  (hworld : ∀ world, Maintains (fun _ => True) I (setWorld world) fun _ => True)

include hpop hpush hread hworld

/-- `CREATE` up to its child frame: pops, a read of memory, changes of the world state, and a push
if there is no child frame. -/
theorem opCreateStart_maintains :
    Maintains (fun _ => True) I (opCreateStart env) fun _ => True := by
  have hgiveUp : ∀ value, Maintains (fun _ => True) I
      (do stackPush value; return none : EvmM (Option PendingCreate)) fun _ => True :=
    fun value => (hpush value).bind fun _ _ => maintains_pure trivial
  refine hpop.bind fun value _ => hpop.bind fun offset _ => hpop.bind fun size _ =>
    maintains_get.bind fun evm _ => ?_
  split
  · exact hgiveUp 0
  · refine (hread _ _).bind fun initCode _ => (maintains_attempt _).bind fun c _ => ?_
    refine (hworld _).bind fun _ _ => ?_
    dsimp only
    split
    · exact hgiveUp 0
    · exact (hworld _).bind fun _ _ => maintains_pure trivial

/-- `CALL` also charges the gas that it forwards. -/
theorem opCallStart_maintains
    (hgas : ∀ amount, Maintains (fun _ => True) I (useGas amount) fun _ => True) :
    Maintains (fun _ => True) I (opCallStart env) fun _ => True := by
  have hgiveUp : ∀ value, Maintains (fun _ => True) I
      (do stackPush value; return none : EvmM (Option PendingCall)) fun _ => True :=
    fun value => (hpush value).bind fun _ _ => maintains_pure trivial
  refine hpop.bind fun gas _ => hpop.bind fun addrInt _ => hpop.bind fun value _ =>
    hpop.bind fun argsOffset _ => hpop.bind fun argsLength _ => hpop.bind fun retOffset _ =>
    hpop.bind fun retLength _ => maintains_get.bind fun evm _ => ?_
  split
  · exact hgiveUp 0
  · refine (maintains_attempt _).bind fun addrBytes _ => ?_
    refine Maintains.bind (Maintains.ite (fun _ => hread _ _) fun _ => maintains_pure trivial)
      fun inputData _ => ?_
    dsimp only
    split
    · exact hgiveUp 0
    · refine (hworld _).bind fun _ _ => Maintains.ite (fun _ => ?_) fun _ => maintains_pure trivial
      exact (hgas _).bind fun _ _ => (hgas _).bind fun _ _ => hgiveUp 1

end Start

theorem keeps_opCallStart {ρ : Type} {f : EVM → ρ} (env : Env) (hpop : Keeps f stackPop)
    (hpush : ∀ value, Keeps f (stackPush value))
    (hread : ∀ offset size, Keeps f (liftMemory (Memory.readRange env offset size)))
    (hworld : ∀ world, Keeps f (setWorld world)) (hgas : ∀ amount, Keeps f (useGas amount)) :
    Keeps f (opCallStart env) := by
  apply keeps_of_maintains
  intro r
  have hview : ∀ {α : Type} {x : EvmM α}, Keeps f x →
      Maintains (fun _ => True) (fun evm => f evm = r) x fun _ => True :=
    fun hx => hx.maintains fun _ _ hkept h => hkept.trans h
  exact opCallStart_maintains env (hview hpop) (fun v => hview (hpush v))
    (fun o n => hview (hread o n)) (fun w => hview (hworld w)) fun a => hview (hgas a)

/-- What a handler that starts no frame does to the shell. -/
inductive LocalEffect (evm evm' : EVM) : Prop
  | quiet (h : evm'.shell = evm.shell)
  | load (key : Int) (h : evm'.shell = { evm.shell with
      log := evm.log ++ [.sload evm.context.address key (evm.storage.getD key 0)] })
  | store (key value : Int) (h : evm'.shell = { evm.shell with
      log := evm.log ++ [.sstore evm.context.address key value]
      storage := evm.storage.set key value })

variable {env : Env} {evm evm' : EVM}

theorem world_localEffect (h : LocalEffect evm evm') : evm'.worldState = evm.worldState := by
  cases h with
  | quiet h => exact congrArg Shell.worldState h
  | load key h => exact congrArg Shell.worldState h
  | store key value h => exact congrArg Shell.worldState h

theorem opSload_effect : LocalEffect evm (final (opSload evm)) := by
  unfold opSload
  refine bind_cases (P := fun r => LocalEffect evm (final r)) ?_ ?_
  · intro key evm₁ h₁
    have hs : evm₁.shell = evm.shell := keeps_stackPop.of_ok h₁
    have hpush : Keeps EVM.shell (stackPush (evm₁.storage.getD key 0)) := keeps_stackPush _
    refine .load key ?_
    rw [bind_of_ok (get_apply _), emit, bind_of_ok (modify_apply _ _), hpush]
    simp_all [EVM.shell]
  · intro e evm₁ h₁
    exact .quiet (keeps_stackPop.of_error h₁)

theorem opSstore_effect : LocalEffect evm (final (opSstore evm)) := by
  unfold opSstore
  refine bind_cases (P := fun r => LocalEffect evm (final r)) ?_ ?_
  · intro key evm₁ h₁
    have hs₁ : evm₁.shell = evm.shell := keeps_stackPop.of_ok h₁
    refine bind_cases (P := fun r => LocalEffect evm (final r)) ?_ ?_
    · intro value evm₂ h₂
      have hs₂ : evm₂.shell = evm₁.shell := keeps_stackPop.of_ok h₂
      refine .store key value ?_
      rw [bind_of_ok (get_apply _), emit, bind_of_ok (modify_apply _ _), modify_apply]
      simp_all [EVM.shell]
    · intro e evm₂ h₂
      exact .quiet ((keeps_stackPop.of_error h₂).trans hs₁)
  · intro e evm₁ h₁
    exact .quiet (keeps_stackPop.of_error h₁)

theorem localOp_effect (opcode : Opcode) : LocalEffect evm (final (localOp env opcode evm)) := by
  by_cases hl : opcode = .sload
  · subst hl
    exact opSload_effect
  · by_cases hs : opcode = .sstore
    · subst hs
      exact opSstore_effect
    · exact .quiet (shell_localOp env hl hs evm)

/-- No child frame was started. -/
def NoChild (r : EStateM.Result Abort EVM (Option Pending)) : Prop :=
  ∀ p evm, r ≠ .ok (some p) evm

/-- The first two changes that `_op_create` makes. -/
def WorldState.reserve (w : WorldState) (creator contractAddress : Bytes) : WorldState :=
  (w.incrementNonce creator).addBalance contractAddress 0

theorem moves_reserve {S : Bytes → Prop} {w : WorldState} {creator : Bytes} (hS : S creator)
    (contractAddress : Bytes) : Moves S w (w.reserve creator contractAddress) :=
  .tail (.single (.bump hS)) .touch

theorem getAccount_reserve {w : WorldState} (creator contractAddress a : Bytes) :
    (w.reserve creator contractAddress).getAccount a =
      if a = creator then { w.getAccount a with nonce := (w.getAccount a).nonce + 1 }
      else w.getAccount a := by
  rw [WorldState.reserve, getAccount_touch, WorldState.incrementNonce,
    WorldState.getAccount_modifyAccount]
  split
  · next h => rw [h]
  · rfl

theorem field_reserve {α : Type} (field : Account → α) {w : WorldState}
    (hf : ∀ x nonce, field { x with nonce } = field x) (creator contractAddress a : Bytes) :
    field ((w.reserve creator contractAddress).getAccount a) = field (w.getAccount a) := by
  rw [getAccount_reserve]
  split
  · exact hf _ _
  · rfl

/-- A payment changes balances only. -/
theorem getAccount_payValue {w w' : WorldState} {sender recipient : Bytes} {value : Int}
    (h : payValue w sender recipient value = .ok w') (a : Bytes) :
    ∃ balance, w'.getAccount a = { w.getAccount a with balance } := by
  unfold payValue at h
  split at h
  · exact ⟨_, WorldState.getAccount_transfer h a⟩
  · cases h
    exact ⟨_, rfl⟩

theorem field_payValue {α : Type} (field : Account → α) {w w' : WorldState}
    {sender recipient : Bytes} {value : Int} (hf : ∀ x balance, field { x with balance } = field x)
    (h : payValue w sender recipient value = .ok w') (a : Bytes) :
    field (w'.getAccount a) = field (w.getAccount a) := by
  obtain ⟨balance, hb⟩ := getAccount_payValue h a
  rw [hb, hf]

/-- A value that the sender holds is paid. -/
theorem payValue_of_le {w : WorldState} {sender : Bytes} {value : Int} (recipient : Bytes)
    (h : 0 < value → value ≤ w.getBalance sender) :
    ∃ w', payValue w sender recipient value = .ok w' := by
  unfold payValue
  split
  · next h0 => exact ⟨_, WorldState.transfer_eq_ok_iff.mpr (.inr ⟨h0.ne', h h0, rfl⟩)⟩
  · exact ⟨w, rfl⟩

theorem getBalance_payValue_of_ne {w w' : WorldState} {sender recipient : Bytes} {value : Int}
    (hne : recipient ≠ sender) (h0 : 0 ≤ value) (h : payValue w sender recipient value = .ok w') :
    w'.getBalance recipient = w.getBalance recipient + value := by
  unfold payValue at h
  split at h
  · rw [WorldState.getBalance, WorldState.getAccount_transfer h recipient, if_neg hne, if_pos rfl,
      sub_zero, WorldState.getBalance]
  · next hpos =>
    cases h
    omega

namespace Pending

/-- The world state in which the value is paid. -/
def base (p : Pending) (creator : Bytes) (w : WorldState) : WorldState :=
  match p with
  | .call _ => w
  | .create q => w.reserve creator q.contractAddress

/-- The storage that the child frame starts with. -/
def initialStorage (p : Pending) (w : WorldState) : Dict Int Int :=
  match p with
  | .call q => (w.getAccount q.targetAddress).storage
  | .create _ => .empty

/-- The world state when the child frame has succeeded. -/
def commit (p : Pending) (returnData : Bytes) (storage : Dict Int Int) (w : WorldState) :
    WorldState :=
  match p with
  | .call q => w.persistStorage q.targetAddress storage
  | .create q => (w.setCode q.contractAddress returnData).persistStorage q.contractAddress storage

/-- The gas that the child may use up. -/
def gas (p : Pending) : Int := p.child.gasRemaining

end Pending

/-- What the frame that starts as the child of `evm` is given. -/
structure ChildOf (evm : EVM) (p : Pending) (code : Bytes) (value : Int) (data : Bytes) (gas : Int)
    (w w' : WorldState) : Prop where
  world : evm.worldState = some w
  paid : payValue (p.base evm.context.address w) evm.context.address p.address value = .ok w'
  child : p.child = EVM.init code
    { caller := evm.context.address, address := p.address, value, data, gas }
    (p.initialStorage w) (some w')
    (evm.log ++ [.enter p.kind
      { caller := evm.context.address, address := p.address, value, data, gas }])
  gas_le : gas ≤ evm.gasRemaining
  call : ∀ q, p = .call q →
    code = (w.getAccount p.address).code ∧ code ≠ [] ∧ q.forwardedGas = gas
  create : ∀ q, p = .create q → gas = evm.gasRemaining

/-- How `CALL` or `CREATE` can get to its child frame or to its end without one. -/
inductive Start (evm : EVM) : EStateM.Result Abort EVM (Option Pending) → Prop
  | unchanged {r} (hr : NoChild r) (hs : (final r).shell = evm.shell) : Start evm r
  | paid {r w w' recipient value} (hr : NoChild r) (hw : evm.worldState = some w)
      (hpay : payValue w evm.context.address recipient value = .ok w')
      (hs : (final r).shell = { evm.shell with worldState := some w' }) : Start evm r
  | reserved {r w contractAddress} (hr : NoChild r) (hw : evm.worldState = some w)
      (hs : (final r).shell =
        { evm.shell with worldState := some (w.reserve evm.context.address contractAddress) }) :
      Start evm r
  | child {p evm' code value data gas w w'} (hc : ChildOf evm p code value data gas w w')
      (hs : evm'.shell = { evm.shell with worldState := some w' })
      (hstack : evm'.executionStack.length < evm.executionStack.length) :
      Start evm (.ok (some p) evm')

theorem stackPop_eq_ok {v : Int} (h : stackPop evm = .ok v evm') :
    evm.executionStack = v :: evm'.executionStack := by
  cases hstack : evm.executionStack with
  | nil =>
    simp only [stackPop, bind_apply, get_apply, hstack, raiseEvm, throw_apply] at h
    cases h
  | cons value rest =>
    simp only [stackPop, bind_apply, get_apply, hstack, modify_apply, pure_apply] at h
    cases h
    rfl

/-- Peel off the pops at the head of a handler, counting the operands they take. -/
theorem pop_cases {α : Type} {P : EStateM.Result Abort EVM α → Prop} {k : Int → EvmM α}
    {evm₀ : EVM} {n : Nat} (hs : evm₀.shell = evm.shell)
    (hn : evm₀.executionStack.length + n ≤ evm.executionStack.length)
    (herror : ∀ e evm₁, evm₁.shell = evm.shell → P (.error e evm₁))
    (hok : ∀ v evm₁, evm₁.shell = evm.shell →
      evm₁.executionStack.length + (n + 1) ≤ evm.executionStack.length → P (k v evm₁)) :
    P ((stackPop >>= k) evm₀) := by
  refine bind_cases ?_ ?_
  · intro v evm₁ h₁
    refine hok v evm₁ ((keeps_stackPop.of_ok h₁).trans hs) ?_
    rw [stackPop_eq_ok h₁, List.length_cons] at hn
    omega
  · intro e evm₁ h₁
    exact herror e evm₁ ((keeps_stackPop.of_error h₁).trans hs)

/-- Peel off a memory access of a handler. -/
theorem memory_cases {α β : Type} {P : EStateM.Result Abort EVM β → Prop}
    {x : EStateM Abort Memory α} {k : α → EvmM β} {evm₀ : EVM} {n : Nat}
    (hs : evm₀.shell = evm.shell)
    (hn : evm₀.executionStack.length + n ≤ evm.executionStack.length)
    (herror : ∀ e evm₁, evm₁.shell = evm.shell → P (.error e evm₁))
    (hok : ∀ a evm₁, evm₁.shell = evm.shell →
      evm₁.executionStack.length + n ≤ evm.executionStack.length → P (k a evm₁)) :
    P ((liftMemory x >>= k) evm₀) := by
  have hstack : Keeps EVM.executionStack (liftMemory x) := keeps_zoom x fun _ _ => rfl
  refine bind_cases ?_ ?_
  · intro a evm₁ h₁
    refine hok a evm₁ (((keeps_liftMemory x).of_ok h₁).trans hs) ?_
    rwa [hstack.of_ok h₁]
  · intro e evm₁ h₁
    exact herror e evm₁ (((keeps_liftMemory x).of_error h₁).trans hs)

theorem noChild_error {e : Abort} {s : EVM} : NoChild (.error e s) :=
  fun _ _ h => absurd h (by simp)

theorem noChild_none {s : EVM} : NoChild (.ok none s) := fun _ _ h => absurd h (by simp)

/-- Give up without a child frame: push a value and return. -/
theorem push_cases {α : Type} {P : EStateM.Result Abort EVM (Option α) → Prop} (value : Int)
    {evm₀ : EVM} (shell : Shell) (hs : evm₀.shell = shell)
    (herror : ∀ e evm₁, evm₁.shell = shell → P (.error e evm₁))
    (hok : ∀ evm₁, evm₁.shell = shell → P (.ok none evm₁)) :
    P ((do stackPush value; return none : EvmM (Option α)) evm₀) := by
  refine bind_cases ?_ ?_
  · intro _ evm₁ h₁
    exact hok evm₁ (((keeps_stackPush value).of_ok h₁).trans hs)
  · intro e evm₁ h₁
    exact herror e evm₁ (((keeps_stackPush value).of_error h₁).trans hs)

/-- `Start` of a handler that returns its own kind of local variables. -/
def StartAs {α : Type} (f : α → Pending) (evm : EVM) (r : EStateM.Result Abort EVM (Option α)) :
    Prop :=
  Start evm (mapOk (Option.map f) r)

theorem shell_withWorld {s : EVM} (h : s.shell = evm.shell) (w : WorldState) :
    { s with worldState := some w : EVM }.shell = { evm.shell with worldState := some w } :=
  congrArg (fun shell : Shell => { shell with worldState := some w }) h

theorem opCreateStart_start : StartAs Pending.create evm (opCreateStart env evm) := by
  have herror : ∀ e evm₁, evm₁.shell = evm.shell →
      StartAs Pending.create evm (.error e evm₁) :=
    fun e evm₁ h => .unchanged noChild_error h
  refine pop_cases (n := 0) rfl le_rfl herror fun value evm₁ h₁ n₁ => ?_
  refine pop_cases h₁ n₁ herror fun offset evm₂ h₂ n₂ => ?_
  refine pop_cases h₂ n₂ herror fun size evm₃ h₃ n₃ => ?_
  rw [bind_of_ok (get_apply _)]
  cases hw : evm₃.worldState with
  | none => exact push_cases 0 _ h₃ herror fun evm₄ h₄ => .unchanged noChild_none h₄
  | some w =>
    have hworld : evm.worldState = some w := (congrArg Shell.worldState h₃).symm.trans hw
    have hcontext : evm₃.context = evm.context := congrArg Shell.context h₃
    have hgas : evm₃.gasRemaining = evm.gasRemaining := congrArg Shell.gasRemaining h₃
    have hlog : evm₃.log = evm.log := congrArg Shell.log h₃
    refine memory_cases h₃ n₃ herror fun initCode evm₄ h₄ n₄ => ?_
    refine bind_cases ?_ fun e evm₅ h₅ => herror e evm₅ (error_of_attempt h₅ ▸ h₄)
    intro contractAddress evm₅ h₅
    obtain ⟨-, rfl⟩ := ok_of_attempt h₅
    rw [setWorld, bind_of_ok (modify_apply _ _), hcontext]
    cases hpay : payValue (w.reserve evm.context.address contractAddress) evm.context.address
        contractAddress value with
    | error message =>
      rw [WorldState.reserve] at hpay
      simp only [hpay]
      exact push_cases 0 _ (shell_withWorld h₄ _)
        (fun e evm₆ h₆ => .reserved noChild_error hworld h₆)
        (fun evm₆ h₆ => .reserved noChild_none hworld h₆)
    | ok w' =>
      have hpay' := hpay
      rw [WorldState.reserve] at hpay
      simp only [hpay]
      rw [setWorld, bind_of_ok (modify_apply _ _), hgas, hlog]
      refine .child ⟨hworld, hpay', rfl, le_rfl, ?_, ?_⟩
        (shell_withWorld h₄ _) ?_
      · intro q hq
        cases hq
      · intro q hq
        rfl
      · dsimp only
        omega

theorem opCallStart_start : StartAs Pending.call evm (opCallStart env evm) := by
  have herror : ∀ e evm₁, evm₁.shell = evm.shell → StartAs Pending.call evm (.error e evm₁) :=
    fun e evm₁ h => .unchanged noChild_error h
  refine pop_cases (n := 0) rfl le_rfl herror fun gas evm₁ h₁ n₁ => ?_
  refine pop_cases h₁ n₁ herror fun addrInt evm₂ h₂ n₂ => ?_
  refine pop_cases h₂ n₂ herror fun value evm₃ h₃ n₃ => ?_
  refine pop_cases h₃ n₃ herror fun argsOffset evm₄ h₄ n₄ => ?_
  refine pop_cases h₄ n₄ herror fun argsLength evm₅ h₅ n₅ => ?_
  refine pop_cases h₅ n₅ herror fun retOffset evm₆ h₆ n₆ => ?_
  refine pop_cases h₆ n₆ herror fun retLength evm₇ h₇ n₇ => ?_
  rw [bind_of_ok (get_apply _)]
  cases hw : evm₇.worldState with
  | none => exact push_cases 0 _ h₇ herror fun evm₈ h₈ => .unchanged noChild_none h₈
  | some w =>
    have hworld : evm.worldState = some w := (congrArg Shell.worldState h₇).symm.trans hw
    have hcontext : evm₇.context = evm.context := congrArg Shell.context h₇
    have hgas : evm₇.gasRemaining = evm.gasRemaining := congrArg Shell.gasRemaining h₇
    have hlog : evm₇.log = evm.log := congrArg Shell.log h₇
    refine bind_cases ?_ fun e evm₈ h₈ => herror e evm₈ (error_of_attempt h₈ ▸ h₇)
    intro addrBytes evm₈ h₈
    obtain ⟨-, rfl⟩ := ok_of_attempt h₈
    have hshell : Keeps EVM.shell (readCalldata env argsOffset argsLength) :=
      Keeps.ite (keeps_liftMemory _) (keeps_pure _)
    have hstack : Keeps EVM.executionStack (readCalldata env argsOffset argsLength) :=
      Keeps.ite (keeps_zoom _ fun _ _ => rfl) (keeps_pure _)
    refine bind_cases ?_ fun e evm₉ h₉ => herror e evm₉ ((hshell.of_error h₉).trans h₇)
    intro inputData evm₉ h₉
    have hs₉ := (hshell.of_ok h₉).trans h₇
    have hlen := hstack.of_ok h₉
    rw [hcontext]
    set target := List.drop 12 addrBytes with htarget
    cases hpay : payValue w evm.context.address target value with
    | error message =>
      exact push_cases 0 _ hs₉ herror fun evm₈ h₈ => .unchanged noChild_none h₈
    | ok w' =>
      dsimp only
      rw [setWorld, bind_of_ok (modify_apply _ _)]
      by_cases hcode : (w.getAccount target).code = []
      · rw [if_pos hcode, useGas, useGas, bind_of_ok (modify_apply _ _),
          bind_of_ok (modify_apply _ _)]
        refine push_cases 1 { evm.shell with worldState := some w' } ?_
          (fun e evm₁₀ h₁₀ => .paid noChild_error hworld hpay h₁₀)
          (fun evm₁₀ h₁₀ => .paid noChild_none hworld hpay h₁₀)
        rw [← shell_withWorld hs₉ w']
        simp only [EVM.shell, Shell.mk.injEq, true_and, and_true]
        omega
      · rw [if_neg hcode, hgas, hlog]
        refine .child ⟨hworld, hpay, rfl, ?_, ?_, ?_⟩
          (shell_withWorld hs₉ _) ?_
        · exact min_le_right _ _
        · intro q hq
          cases hq
          exact ⟨rfl, hcode, rfl⟩
        · intro q hq
          cases hq
        · dsimp only
          rw [hlen]
          omega

theorem beginOp_create :
    beginOp env .create evm = mapOk (Option.map .create) (opCreateStart env evm) :=
  bind_pure_apply _ _ _

theorem beginOp_call : beginOp env .call evm = mapOk (Option.map .call) (opCallStart env evm) :=
  bind_pure_apply _ _ _

theorem beginOp_local {opcode : Opcode} (hc : opcode ≠ .create) (hl : opcode ≠ .call) :
    beginOp env opcode evm = mapOk (fun _ => none) (localOp env opcode evm) := by
  have h : beginOp env opcode = (do localOp env opcode; return none) := by
    cases opcode <;> first | rfl | contradiction
  rw [h]
  exact bind_pure_apply _ _ _

/-- How a handler ends normally. Only `CREATE` and `CALL` start frames. -/
theorem ok_of_beginOp {opcode : Opcode} {child : Option Pending}
    (h : beginOp env opcode evm = .ok child evm') :
    (opcode = .create ∧ ∃ q, opCreateStart env evm = .ok q evm' ∧ child = q.map .create) ∨
    (opcode = .call ∧ ∃ q, opCallStart env evm = .ok q evm' ∧ child = q.map .call) ∨
    (opcode ≠ .create ∧ opcode ≠ .call ∧ child = none ∧ localOp env opcode evm = .ok () evm') := by
  by_cases hc : opcode = .create
  · subst hc
    exact .inl ⟨rfl, ok_of_mapOk (beginOp_create.symm.trans h)⟩
  · by_cases hl : opcode = .call
    · subst hl
      exact .inr (.inl ⟨rfl, ok_of_mapOk (beginOp_call.symm.trans h)⟩)
    · obtain ⟨_, hlocal, hnone⟩ := ok_of_mapOk ((beginOp_local hc hl).symm.trans h)
      exact .inr (.inr ⟨hc, hl, hnone, hlocal⟩)

/-- What the handler of a paid opcode does before it ends or a child frame runs. -/
inductive OpEffect (evm : EVM) (opcode : Opcode) (r : EStateM.Result Abort EVM (Option Pending)) :
    Prop
  | inFrame (hr : NoChild r) (h : LocalEffect evm (final r))
  | contract (hop : opcode = .call ∨ opcode = .create) (h : Start evm r)

theorem beginOp_effect (env : Env) (evm : EVM) (opcode : Opcode) :
    OpEffect evm opcode (beginOp env opcode evm) := by
  by_cases hc : opcode = .create
  · subst hc
    refine .contract (.inr rfl) ?_
    rw [beginOp_create]
    exact opCreateStart_start
  · by_cases hl : opcode = .call
    · subst hl
      refine .contract (.inl rfl) ?_
      rw [beginOp_call]
      exact opCallStart_start
    · rw [beginOp_local hc hl]
      refine .inFrame ?_ ?_
      · intro p evm' h
        obtain ⟨_, -, hnone⟩ := ok_of_mapOk h
        cases hnone
      · rw [final_mapOk]
        exact localOp_effect opcode

/-- No handler changes the code, the context or the gas of its frame. -/
theorem OpEffect.frame {opcode : Opcode} {r : EStateM.Result Abort EVM (Option Pending)}
    (h : OpEffect evm opcode r) : (final r).code = evm.code ∧ (final r).context = evm.context ∧
      (final r).gasRemaining = evm.gasRemaining := by
  have hframe : ∀ {shell : Shell}, (final r).shell = shell →
      shell.code = evm.code ∧ shell.context = evm.context ∧ shell.gasRemaining = evm.gasRemaining →
      (final r).code = evm.code ∧ (final r).context = evm.context ∧
        (final r).gasRemaining = evm.gasRemaining := by
    rintro _ rfl h
    exact h
  cases h with
  | inFrame hr h =>
    cases h with
    | quiet h => exact hframe h ⟨rfl, rfl, rfl⟩
    | load key h => exact hframe h ⟨rfl, rfl, rfl⟩
    | store key value h => exact hframe h ⟨rfl, rfl, rfl⟩
  | contract hop h =>
    cases h with
    | unchanged hr hs => exact hframe hs ⟨rfl, rfl, rfl⟩
    | paid hr hw hpay hs => exact hframe hs ⟨rfl, rfl, rfl⟩
    | reserved hr hw hs => exact hframe hs ⟨rfl, rfl, rfl⟩
    | child hc hs hstack => exact hframe hs ⟨rfl, rfl, rfl⟩

theorem gas_beginOp (env : Env) (evm : EVM) (opcode : Opcode) :
    (final (beginOp env opcode evm)).gasRemaining = evm.gasRemaining :=
  (beginOp_effect env evm opcode).frame.2.2

/-- The first half of an iteration keeps the code and the context of the frame. -/
theorem frame_begin (env : Env) (hrun : evm.running = true) :
    (final (begin env evm)).code = evm.code ∧ (final (begin env evm)).context = evm.context := by
  refine final_begin (P := fun evm₁ => evm₁.code = evm.code ∧ evm₁.context = evm.context) env hrun
    ⟨rfl, rfl⟩ ⟨rfl, rfl⟩ ?_
  intro opcode _ _ _
  obtain ⟨hcode, hcontext, -⟩ := (beginOp_effect env (evm.charge opcode) opcode).frame
  exact ⟨hcode, hcontext⟩

/-- A started child belongs to the state in which its opcode was paid. -/
theorem childOf_of_begin {p : Pending} (hrun : evm.running = true)
    (h : begin env evm = .ok (some p) evm') :
    ∃ opcode code value data gas w w',
      ChildOf (evm.charge opcode) p code value data gas w w' ∧
      evm'.shell = { (evm.charge opcode).shell with worldState := some w' } ∧
      evm'.executionStack.length < evm.executionStack.length ∧
      gasCost opcode ≤ evm.gasRemaining ∧ (opcode = .call ∨ opcode = .create) := by
  cases fetched env hrun with
  | unknown byte hb => rw [hb] at h; cases h
  | outOfGas opcode hgas hb => rw [hb] at h; cases h
  | invalid hb => rw [hb] at h; cases h
  | paid opcode hop hgas hbyte hb =>
    rw [hb] at h
    have heffect := beginOp_effect env (evm.charge opcode) opcode
    rw [h] at heffect
    cases heffect with
    | inFrame hr _ => exact absurd rfl (hr p evm')
    | contract hop hstart =>
      cases hstart with
      | unchanged hr _ => exact absurd rfl (hr p evm')
      | paid hr _ _ _ => exact absurd rfl (hr p evm')
      | reserved hr _ _ => exact absurd rfl (hr p evm')
      | child hc hs hstack => exact ⟨opcode, _, _, _, _, _, _, hc, hs, hstack, hgas, hop⟩

end Ethereum
