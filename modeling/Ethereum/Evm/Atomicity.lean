import Ethereum.Evm.Authority
import Ethereum.Evm.Callee
import Ethereum.Evm.Range

/-! When a failed inner call is atomic. Nothing is undone when a child frame fails, so what
it has changed by then stays. -/
namespace Ethereum

open Stateful

/-- Every account is as before, up to one nonce of the creator, if there is one. -/
def SameAccounts (creator : Option Bytes) (w w' : WorldState) : Prop :=
  ∀ a, w'.getAccount a = w.getAccount a ∨
    (creator = some a ∧ w'.getAccount a =
      { w.getAccount a with nonce := (w.getAccount a).nonce + 1 })

/-- If the opcode pushes zero, it has left the accounts alone. -/
def FailsAtomically (creator : Option Bytes) (op : EvmM Unit) (evm : EVM) : Prop :=
  ∀ w evm', evm.worldState = some w → op evm = .ok () evm' →
    evm'.executionStack.head? = some 0 →
    ∃ w', evm'.worldState = some w' ∧ SameAccounts creator w w'

/-- The account that `_op_call` takes an operand for. -/
@[irreducible] def calleeAddress (addr : Int) : Bytes := (BigEndian.toBytes 32 addr.toNat).drop 12

theorem drop_toBytes (addr : Int) :
    (BigEndian.toBytes 32 addr.toNat).drop 12 = calleeAddress addr := by
  rw [calleeAddress]

/-- The value is positive and more than the caller has. -/
def Unpayable (w : WorldState) (caller : Bytes) (value : Int) : Prop :=
  0 < value ∧ w.getBalance caller < value

/-- A call of `addr` with `value` fails atomically whatever code is there, in every frame
of the caller. -/
def CallsFailAtomically (env : Env) (w : WorldState) (caller : Bytes) (addr value : Int) : Prop :=
  ∀ fuel code evm gas argsOffset argsLength retOffset retLength rest,
    evm.context.address = caller → evm.worldState = some (w.setCode (calleeAddress addr) code) →
    evm.executionStack =
      gas :: addr :: value :: argsOffset :: argsLength :: retOffset :: retLength :: rest →
    FailsAtomically none (opCall env (execute env fuel)) evm

/-- A creation with `value` fails atomically whatever init code runs, in every frame of
the creator. -/
def CreatesFailAtomically (env : Env) (w : WorldState) (creator : Bytes) (value : Int) : Prop :=
  ∀ fuel evm offset size rest,
    evm.context.address = creator → evm.worldState = some w →
    evm.executionStack = value :: offset :: size :: rest →
    FailsAtomically (some creator) (opCreate env (execute env fuel)) evm

/-- Nonces are counts. -/
def WorldState.Counted (w : WorldState) : Prop := ∀ a, 0 ≤ (w.getAccount a).nonce

variable {env : Env} {fuel : Nat} {evm evm' : EVM} {p : Pending} {w w' : WorldState}
  {caller : Bytes} {addr value : Int}

theorem SameAccounts.refl (creator : Option Bytes) (w : WorldState) : SameAccounts creator w w :=
  fun _ => .inl rfl

section Refused

theorem payValue_of_unpayable (recipient : Bytes) (h : Unpayable w caller value) :
    ∃ message, payValue w caller recipient value = .error message := by
  rw [payValue, if_pos h.1]
  exact WorldState.transfer_of_lt h.1.ne' h.2

theorem payValue_of_payable (recipient : Bytes) (h : ¬ Unpayable w caller value) :
    ∃ w', payValue w caller recipient value = .ok w' :=
  payValue_of_le recipient fun h0 => not_lt.mp fun hlt => h ⟨h0, hlt⟩

theorem getBalance_setCode (a code b : Bytes) :
    (w.setCode a code).getBalance b = w.getBalance b :=
  WorldState.field_setCode Account.balance (fun _ _ => rfl) a code b

theorem unpayable_setCode (a code : Bytes) :
    Unpayable (w.setCode a code) caller value ↔ Unpayable w caller value := by
  unfold Unpayable
  rw [getBalance_setCode]

theorem unpayable_reserve (creator c : Bytes) :
    Unpayable (w.reserve creator c) caller value ↔ Unpayable w caller value := by
  unfold Unpayable WorldState.getBalance
  rw [field_reserve Account.balance fun _ _ => rfl]

theorem ok_of_give_up {α : Type} {v : Int} {r : Option α}
    (h : (do stackPush v; return none : EvmM (Option α)) evm = .ok r evm') :
    r = none ∧ evm'.worldState = evm.worldState := by
  obtain ⟨u, evm₁, hpush, h⟩ := ok_of_bind_apply h
  cases h
  exact ⟨rfl, congrArg Shell.worldState ((keeps_stackPush (f := EVM.shell) v).of_ok hpush)⟩

/-- A call that cannot be paid, or has no word for an address, starts no frame. -/
theorem opCallStart_of_unpayable {gas argsOffset argsLength retOffset retLength : Int}
    {rest : List Int} {r : Option PendingCall}
    (hstack : evm.executionStack =
      gas :: addr :: value :: argsOffset :: argsLength :: retOffset :: retLength :: rest)
    (hw : evm.worldState = some w)
    (h : ¬ Word addr ∨ Unpayable w evm.context.address value)
    (hstart : opCallStart env evm = .ok r evm') :
    r = none ∧ evm'.worldState = some w := by
  rw [opCallStart, bind_of_ok (stackPop_of_cons hstack), bind_of_ok (stackPop_of_cons rfl),
    bind_of_ok (stackPop_of_cons rfl), bind_of_ok (stackPop_of_cons rfl),
    bind_of_ok (stackPop_of_cons rfl), bind_of_ok (stackPop_of_cons rfl),
    bind_of_ok (stackPop_of_cons rfl), bind_of_ok (get_apply _)] at hstart
  simp only [hw] at hstart
  obtain ⟨addrBytes, evm₁, hattempt, hstart⟩ := ok_of_bind_apply hstart
  obtain ⟨hbytes, rfl⟩ := ok_of_attempt hattempt
  have hunpayable := h.resolve_left (not_not_intro (word_of_intToBytes hbytes))
  obtain ⟨inputData, evm₂, hread, hstart⟩ := ok_of_bind_apply hstart
  have hkeeps : Keeps EVM.shell (readCalldata env argsOffset argsLength) :=
    Keeps.ite (keeps_liftMemory _) (keeps_pure _)
  obtain ⟨message, hpay⟩ := payValue_of_unpayable (addrBytes.drop 12) hunpayable
  simp only [hpay] at hstart
  obtain ⟨hr, hworld⟩ := ok_of_give_up hstart
  refine ⟨hr, hworld.trans ?_⟩
  rw [show evm₂.worldState = _ from congrArg Shell.worldState (hkeeps.of_ok hread)]
  rfl

theorem opCreateStart_of_unpayable {offset size : Int} {rest : List Int}
    {r : Option PendingCreate} (hstack : evm.executionStack = value :: offset :: size :: rest)
    (hw : evm.worldState = some w) (h : Unpayable w evm.context.address value)
    (hstart : opCreateStart env evm = .ok r evm') :
    r = none ∧ ∃ c, evm'.worldState = some (w.reserve evm.context.address c) := by
  rw [opCreateStart, bind_of_ok (stackPop_of_cons hstack), bind_of_ok (stackPop_of_cons rfl),
    bind_of_ok (stackPop_of_cons rfl), bind_of_ok (get_apply _)] at hstart
  simp only [hw] at hstart
  obtain ⟨initCode, evm₁, -, hstart⟩ := ok_of_bind_apply hstart
  obtain ⟨c, evm₂, -, hstart⟩ := ok_of_bind_apply hstart
  rw [setWorld, bind_of_ok (modify_apply _ _)] at hstart
  obtain ⟨message, hpay⟩ := payValue_of_unpayable c
    ((unpayable_reserve evm.context.address c).mpr h)
  rw [WorldState.reserve] at hpay
  simp only [hpay] at hstart
  obtain ⟨hr, hworld⟩ := ok_of_give_up hstart
  exact ⟨hr, c, hworld⟩

theorem sameAccounts_reserve (creator c : Bytes) :
    SameAccounts (some creator) w (w.reserve creator c) := by
  intro a
  rw [getAccount_reserve]
  split
  · next h => exact .inr ⟨congrArg some h.symm, rfl⟩
  · exact .inl rfl

theorem callsFailAtomically_of_unpayable (h : ¬ Word addr ∨ Unpayable w caller value) :
    CallsFailAtomically env w caller addr value := by
  rintro fuel code evm gas argsOffset argsLength retOffset retLength rest rfl hw hstack
    w₀ evm' hw₀ hop -
  cases hw.symm.trans hw₀
  obtain ⟨r, evm₁, hstart, hrest⟩ := ok_of_bind_apply hop
  obtain ⟨rfl, hworld⟩ := opCallStart_of_unpayable hstack hw
    (h.imp_right (unpayable_setCode _ _).mpr) hstart
  cases hrest
  exact ⟨_, hworld, .refl _ _⟩

theorem createsFailAtomically_of_unpayable (h : Unpayable w caller value) :
    CreatesFailAtomically env w caller value := by
  rintro fuel evm offset size rest rfl hw hstack w₀ evm' hw₀ hop -
  cases hw.symm.trans hw₀
  obtain ⟨r, evm₁, hstart, hrest⟩ := ok_of_bind_apply hop
  obtain ⟨rfl, c, hworld⟩ := opCreateStart_of_unpayable hstack hw h hstart
  cases hrest
  exact ⟨_, hworld, sameAccounts_reserve _ _⟩

end Refused

section Damage

/-- Code that creates an empty contract and then fails. -/
def nestedCreateCode : Bytes := [0x60, 0, 0x60, 0, 0x60, 0, 0xf0, 0xfe]

/-- The world state after `nestedCreateCode` has failed. -/
def WorldState.afterNestedCreate (w : WorldState) (creator c : Bytes) : WorldState :=
  ((w.reserve creator c).setCode c []).persistStorage c .empty

theorem nonce_afterNestedCreate (creator c : Bytes) :
    ((w.afterNestedCreate creator c).getAccount creator).nonce =
      (w.getAccount creator).nonce + 1 := by
  have hreserve : ((w.reserve creator c).getAccount creator).nonce =
      (w.getAccount creator).nonce + 1 := by
    rw [getAccount_reserve, if_pos rfl]
  rw [WorldState.afterNestedCreate, WorldState.getAccount_persistStorage, WorldState.setCode]
  split
  · next h => subst h; simpa using hreserve
  · next h => rwa [WorldState.getAccount_modifyAccount_of_ne h]

/-- A frame of `nestedCreateCode` in front of its `CREATE`. -/
def atNestedCreate (context : ExecutionContext) (storage : Dict Int Int) (world : WorldState)
    (log : List Event) : EVM :=
  { EVM.init nestedCreateCode context storage (some world) log with
    programCounter := 6
    executionStack := [0, 0, 0]
    gasRemaining := 39991 }

theorem runLoop_pushes (env : Env) (fuel : Nat) (w : WorldState) {context : ExecutionContext}
    (storage : Dict Int Int) (log : List Event) (hgas : context.gas = 40000) :
    ∃ log', runLoop env (fuel + 3) (EVM.init nestedCreateCode context storage (some w) log) =
      runLoop env fuel (atNestedCreate context storage w log') := by
  obtain ⟨caller, address, value, data, gas⟩ := context
  subst hgas
  exact ⟨_, rfl⟩

theorem iterate_nestedCreate {context : ExecutionContext} (storage : Dict Int Int)
    (log : List Event) {c : Bytes}
    (hc : computeContractAddress env context.address (w.getAccount context.address).nonce = .ok c) :
    ∃ log', iterate env (execute env 2) (atNestedCreate context storage w log) = .ok ()
      { atNestedCreate context storage (w.afterNestedCreate context.address c) log' with
        programCounter := 7
        executionStack := [intFromBytes c]
        gasRemaining := 7991 } := by
  have hbyte : (atNestedCreate context storage w log).code[(atNestedCreate context storage w
      log).programCounter]? = some 0xf0 := rfl
  have hstack : ((atNestedCreate context storage w log).charge .create).executionStack =
      0 :: 0 :: 0 :: [] := rfl
  have hread : Memory.readRange env 0 0 .empty = .ok [] .empty := rfl
  have hpay : payValue (w.reserve context.address c) context.address c 0 =
      .ok (w.reserve context.address c) := rfl
  have hstart := opCreateStart_of_payable hstack rfl hread hc hpay
  have hbegin := beginOp_create.trans (congrArg (mapOk (Option.map Pending.create)) hstart)
  have hiterate := iterate_of_paid env (execute env 2) .create hbyte (by decide) (by decide)
    (show (32000 : Int) ≤ 39991 by omega)
  exact ⟨_, hiterate.trans ((dispatch_of_child hbegin).trans rfl)⟩

theorem execute_nestedCreate {context : ExecutionContext} (storage : Dict Int Int)
    (log : List Event) {c : Bytes} (hgas : context.gas = 40000)
    (hc : computeContractAddress env context.address (w.getAccount context.address).nonce = .ok c) :
    ∃ result child, execute env 6 (EVM.init nestedCreateCode context storage (some w) log) =
        .ok result child ∧ result.success = false ∧
      child.worldState = some (w.afterNestedCreate context.address c) := by
  obtain ⟨log₁, hpushes⟩ := runLoop_pushes env 3 w storage log hgas
  obtain ⟨log₂, hcreate⟩ := iterate_nestedCreate storage log₁ hc
  have hrest : ∃ child, runLoop env 2
      { atNestedCreate context storage (w.afterNestedCreate context.address c) log₂ with
        programCounter := 7
        executionStack := [intFromBytes c]
        gasRemaining := 7991 } = .ok () child ∧ child.reverted = true ∧
      child.worldState = some (w.afterNestedCreate context.address c) :=
    ⟨_, rfl, rfl, rfl⟩
  obtain ⟨child, hrest, hreverted, hworld⟩ := hrest
  have hrun : runLoop env 6 (EVM.init nestedCreateCode context storage (some w) log) =
      .ok () child :=
    hpushes.trans ((runLoop_of_ok rfl hcreate).trans hrest)
  refine ⟨_, child, (congrArg (conclude context.gas) hrun).trans rfl, ?_, hworld⟩
  simp [hreverted]

/-- An account nonce that has moved shows, unless it is the creator's and moved by one. -/
theorem not_sameAccounts_of_nonce (creator : Option Bytes) {a : Bytes} {n : Int}
    (h : (w'.getAccount a).nonce = (w.getAccount a).nonce + n) (h1 : 1 ≤ n)
    (h2 : creator = some a → n ≠ 1) : ¬ SameAccounts creator w w' := by
  intro hsame
  rcases hsame a with he | ⟨hc, he⟩
  · rw [he] at h
    omega
  · rw [he] at h
    dsimp only at h
    exact h2 hc (by omega)

theorem computeContractAddress_of_nonneg (env : Env) {nonce : Int} (h : 0 ≤ nonce)
    (creator : Bytes) :
    ∃ c, computeContractAddress env creator nonce = .ok c := by
  obtain ⟨n, rfl⟩ := Int.eq_ofNat_of_zero_le h
  have hbytes : ∃ l, intToRlpBytes n = .ok l := by
    unfold intToRlpBytes intToBytes
    split
    · exact ⟨_, rfl⟩
    · have hlt : (n : Int) < 256 ^ BigEndian.byteLength (n : Int).natAbs := by
        exact_mod_cast BigEndian.lt_pow_byteLength n
      rw [if_neg (not_lt.mpr h), if_neg (not_le.mpr hlt)]
      exact ⟨_, rfl⟩
  obtain ⟨l, hl⟩ := hbytes
  exact ⟨_, by rw [computeContractAddress, hl]⟩

theorem nonce_payValue {sender recipient a : Bytes}
    (h : payValue w sender recipient value = .ok w') :
    (w'.getAccount a).nonce = (w.getAccount a).nonce :=
  field_payValue Account.nonce (fun _ _ => rfl) h a

theorem nonce_setCode (a code b : Bytes) :
    ((w.setCode a code).getAccount b).nonce = (w.getAccount b).nonce :=
  WorldState.field_setCode Account.nonce (fun _ _ => rfl) a code b

/-- A frame of `caller` with 40000 gas. -/
def frameOf (caller : Bytes) (world : WorldState) (stack : List Int) (memory : Bytes) : EVM :=
  { EVM.init [] { caller := [], address := caller, value := 0, data := [], gas := 40000 } .empty
      (some world) [] with
    executionStack := stack
    memory := ⟨memory⟩ }

/-- A child that runs `nestedCreateCode` makes the opcode push zero and changes the nonce
of its own account. -/
theorem op_nestedCreate {opcode : Opcode} {context : ExecutionContext} {storage : Dict Int Int}
    {log : List Event} {a : Bytes} (hbegin : beginOp env opcode evm = .ok (some p) evm')
    (hchild : p.child = EVM.init nestedCreateCode context storage (some w') log)
    (hgas : context.gas = 40000) (ha : context.address = a) (hstack : evm'.executionStack = [])
    (hnonce : 0 ≤ (w'.getAccount a).nonce) :
    ∃ evm'' w'', dispatch env (execute env 6) opcode evm = .ok () evm'' ∧
      evm''.executionStack.head? = some 0 ∧ evm''.worldState = some w'' ∧
      (w''.getAccount a).nonce = (w'.getAccount a).nonce + 1 := by
  subst ha
  obtain ⟨c, hc⟩ := computeContractAddress_of_nonneg env hnonce context.address
  obtain ⟨result, child, hexec, hfailed, hworld⟩ := execute_nestedCreate storage log hgas hc
  have hcaught : Caught (execute env 6 p.child) := by
    rw [hchild, hexec]
    exact .inl (by simp [endingOf, hfailed])
  have hsettle : settle env p (execute env 6 p.child) evm' =
      .ok () (evm'.afterFailure p (execute env 6 p.child)) :=
    settle_of_caught (by rw [hstack]; decide) hcaught
  refine ⟨_, _, (dispatch_of_child hbegin).trans hsettle, rfl, ?_,
    nonce_afterNestedCreate context.address c⟩
  rw [EVM.afterFailure, hchild, hexec]
  exact hworld

/-- The sample frame calls `nestedCreateCode` at the callee's address. -/
theorem beginOp_call_nestedCreate (env : Env) (haddr : Word addr)
    (hpay : payValue (w.setCode (calleeAddress addr) nestedCreateCode) caller
      (calleeAddress addr) value = .ok w') :
    ∃ p evm' storage log, beginOp env .call
        (frameOf caller (w.setCode (calleeAddress addr) nestedCreateCode)
          [40000, addr, value, 0, 0, 0, 0] []) = .ok (some p) evm' ∧
      p.child = EVM.init nestedCreateCode
        { caller, address := calleeAddress addr, value, data := [], gas := 40000 } storage
        (some w') log ∧ evm'.executionStack = [] := by
  have hcode : ((w.setCode (calleeAddress addr) nestedCreateCode).getAccount
      (calleeAddress addr)).code = nestedCreateCode := by
    rw [WorldState.setCode, WorldState.getAccount_modifyAccount_self]
  have hstack : (frameOf caller (w.setCode (calleeAddress addr) nestedCreateCode)
      [40000, addr, value, 0, 0, 0, 0] []).executionStack =
      40000 :: addr :: value :: 0 :: 0 :: 0 :: 0 :: [] := rfl
  have hstart := opCallStart_of_payable env hstack rfl (intToBytes_of_word haddr)
    (drop_toBytes addr) hpay hcode (by decide)
  have hmin : min 40000 (frameOf caller (w.setCode (calleeAddress addr) nestedCreateCode)
      [40000, addr, value, 0, 0, 0, 0] []).gasRemaining = 40000 := min_self 40000
  rw [hmin] at hstart
  exact ⟨_, _, _, _, by rw [beginOp_call, hstart]; rfl, rfl, rfl⟩

theorem not_callsFailAtomically (hw : w.Counted) (haddr : Word addr)
    (h : ¬ Unpayable w caller value) : ¬ CallsFailAtomically env w caller addr value := by
  intro hatomic
  obtain ⟨w', hpay⟩ := payValue_of_payable (calleeAddress addr)
    ((unpayable_setCode (calleeAddress addr) nestedCreateCode).not.mpr h)
  obtain ⟨p, evm', storage, log, hbegin, hchild, hstack⟩ :=
    beginOp_call_nestedCreate env haddr hpay
  have hsame := nonce_payValue (a := calleeAddress addr) hpay
  rw [nonce_setCode] at hsame
  have hcounted : 0 ≤ (w'.getAccount (calleeAddress addr)).nonce := by
    rw [hsame]
    exact hw _
  obtain ⟨evm'', w'', hop, hzero, hw'', hnonce⟩ :=
    op_nestedCreate hbegin hchild rfl rfl hstack hcounted
  obtain ⟨w₃, hw₃, hatomic⟩ := hatomic 6 nestedCreateCode _ 40000 0 0 0 0 [] rfl rfl rfl _ evm''
    rfl hop hzero
  cases hw''.symm.trans hw₃
  refine not_sameAccounts_of_nonce none (a := calleeAddress addr) (n := 1) ?_ le_rfl
    (fun h => absurd h (by simp)) hatomic
  rw [nonce_setCode, ← hsame]
  exact hnonce

theorem beginOp_create_nestedCreate {c : Bytes}
    (hc : computeContractAddress env caller (w.getAccount caller).nonce = .ok c)
    (hpay : payValue (w.reserve caller c) caller c value = .ok w') :
    ∃ p evm' storage log, beginOp env .create
        (frameOf caller w [value, 0, 8] nestedCreateCode) = .ok (some p) evm' ∧
      p.child = EVM.init nestedCreateCode
        { caller, address := c, value, data := [], gas := 40000 } storage (some w') log ∧
      evm'.executionStack = [] := by
  have hstack : (frameOf caller w [value, 0, 8] nestedCreateCode).executionStack =
      value :: 0 :: 8 :: [] := rfl
  have hread : Memory.readRange env 0 8 ⟨nestedCreateCode⟩ =
      .ok nestedCreateCode ⟨nestedCreateCode⟩ := rfl
  have hstart := opCreateStart_of_payable hstack rfl hread hc hpay
  exact ⟨_, _, _, _, by rw [beginOp_create, hstart]; rfl, rfl, rfl⟩

theorem not_createsFailAtomically (hw : w.Counted) (h : ¬ Unpayable w caller value) :
    ¬ CreatesFailAtomically env w caller value := by
  intro hatomic
  obtain ⟨c, hc⟩ := computeContractAddress_of_nonneg env (hw caller) caller
  obtain ⟨w', hpay⟩ := payValue_of_payable c ((unpayable_reserve caller c).not.mpr h)
  obtain ⟨p, evm', storage, log, hbegin, hchild, hstack⟩ := beginOp_create_nestedCreate hc hpay
  have hsame : (w'.getAccount c).nonce =
      (w.getAccount c).nonce + if c = caller then 1 else 0 := by
    rw [nonce_payValue hpay, getAccount_reserve]
    split <;> simp
  have hcounted : 0 ≤ (w'.getAccount c).nonce := by
    have := hw c
    rw [hsame]
    split <;> omega
  obtain ⟨evm'', w'', hop, hzero, hw'', hnonce⟩ :=
    op_nestedCreate hbegin hchild rfl rfl hstack hcounted
  obtain ⟨w₃, hw₃, hatomic⟩ := hatomic 6 _ 0 8 [] rfl rfl rfl _ evm'' rfl hop hzero
  cases hw''.symm.trans hw₃
  refine not_sameAccounts_of_nonce (some caller) (a := c)
    (n := 1 + if c = caller then 1 else 0) ?_ ?_ ?_ hatomic
  · rw [hnonce]
    change (w'.getAccount c).nonce + 1 = _
    omega
  · split <;> omega
  · intro he
    cases he
    simp

end Damage

section Leaf

/-- How many contract opcodes have been executed. -/
def contractOps (log : List Event) : Nat :=
  log.countP fun
    | .executed _ .call | .executed _ .create => true
    | _ => false

theorem contractOps_mono {log log' : List Event} (h : log <+: log') :
    contractOps log ≤ contractOps log' :=
  h.sublist.countP_le

theorem contractOps_charge {opcode : Opcode} (hop : opcode = .call ∨ opcode = .create) :
    contractOps (evm.charge opcode).log = contractOps evm.log + 1 := by
  rcases hop with rfl | rfl <;> simp [contractOps, EVM.charge]

/-- Only contract opcodes change the world state. -/
theorem begin_leaf (env : Env) (hrun : evm.running = true) :
    (final (begin env evm)).worldState = evm.worldState ∨
      contractOps evm.log < contractOps (final (begin env evm)).log := by
  refine final_begin (P := fun evm₁ => evm₁.worldState = evm.worldState ∨
    contractOps evm.log < contractOps evm₁.log) env hrun (.inl rfl) (.inl rfl) ?_
  intro opcode _ _ _
  cases beginOp_effect env (evm.charge opcode) opcode with
  | inFrame _ h => exact .inl ((world_localEffect h).trans rfl)
  | contract hop h =>
    have := contractOps_mono (progress_start h).log
    rw [contractOps_charge hop] at this
    exact .inr this

theorem contractOps_begin_child (hrun : evm.running = true)
    (h : begin env evm = .ok (some p) evm') : contractOps evm.log < contractOps p.child.log := by
  obtain ⟨opcode, _, _, _, _, _, _, hc, -, -, -, hop⟩ := childOf_of_begin hrun h
  have hpre : (evm.charge opcode).log <+: p.child.log := by
    rw [hc.child]
    exact List.prefix_append _ _
  have := contractOps_mono hpre
  rwa [contractOps_charge hop] at this

/-- A run without contract opcodes leaves the world state alone. -/
theorem run_leaf {r : LoopResult} (h : Run env evm r)
    (hleaf : contractOps (final r).log = contractOps evm.log) :
    (final r).worldState = evm.worldState := by
  induction h with
  | cut => rfl
  | halted _ => rfl
  | raised hrun hb =>
    have := begin_leaf env hrun
    rw [hb] at this
    exact this.resolve_right hleaf.not_gt
  | step hrun hb hr ih =>
    have hworld := begin_leaf env hrun
    have hbegin := contractOps_mono (progress_begin env hrun).log
    have hrest := contractOps_mono (run_progress hr).log
    rw [hb, final_ok] at hworld hbegin
    exact (ih (by omega)).trans (hworld.resolve_right (by omega))
  | @child evm evm₁ evm' p c r hrun hb hc hs hr ihc ih =>
    have hlt := contractOps_begin_child hrun hb
    have hchild := contractOps_mono (run_progress hc).log
    have hsettle := contractOps_mono (log_prefix_settle env p c evm₁)
    have hrest := contractOps_mono (run_progress hr).log
    rw [hs, final_ok] at hsettle
    omega
  | @childRaised evm evm₁ evm' p c e hrun hb hc hs ihc =>
    have hlt := contractOps_begin_child hrun hb
    have hchild := contractOps_mono (run_progress hc).log
    have hsettle := contractOps_mono (log_prefix_settle env p c evm₁)
    rw [hs] at hsettle
    simp only [final_error] at hsettle hleaf
    omega

/-- The account whose nonce the opcode may use. -/
def Pending.creator (p : Pending) (address : Bytes) : Option Bytes :=
  match p with
  | .call _ => none
  | .create _ => some address

theorem sameAccounts_base (p : Pending) (a : Bytes) (w : WorldState) :
    SameAccounts (p.creator a) w (p.base a w) := by
  cases p with
  | call q => exact .refl _ _
  | create q => exact sameAccounts_reserve _ _

/-- A payment shows unless it is none or goes to the payer. -/
theorem sameAccounts_payValue_iff {creator : Option Bytes} {w₀ : WorldState} {recipient : Bytes}
    (hbase : SameAccounts creator w₀ w) (h : payValue w caller recipient value = .ok w') :
    SameAccounts creator w₀ w' ↔ value ≤ 0 ∨ recipient = caller := by
  unfold payValue at h
  split at h
  · next h0 =>
    have hw := WorldState.getAccount_transfer h
    constructor
    · intro hsame
      refine .inr (by_contra fun hne => ?_)
      have hbalance := hw recipient
      rw [if_neg hne, if_pos rfl] at hbalance
      have h1 : (w'.getAccount recipient).balance = (w₀.getAccount recipient).balance := by
        rcases hsame recipient with he | ⟨-, he⟩ <;> rw [he]
      have h2 : (w.getAccount recipient).balance = (w₀.getAccount recipient).balance := by
        rcases hbase recipient with he | ⟨-, he⟩ <;> rw [he]
      rw [hbalance] at h1
      dsimp only at h1
      omega
    · intro hself a
      have hr := hself.resolve_left (not_le.mpr h0)
      have ha : w'.getAccount a = w.getAccount a := by
        rw [hw a, hr]
        split <;> simp
      rw [ha]
      exact hbase a
  · next h0 =>
    cases h
    exact ⟨fun _ => .inl (not_lt.mp h0), fun _ => hbase⟩

/-- A failed child that ran no contract opcode itself is atomic exactly when it was given
nothing. -/
theorem failed_leaf_iff (hstack : evm.executionStack.length ≤ maxStackDepth)
    (hrun : evm.running = true) (hbegin : begin env evm = .ok (some p) evm')
    (hcaught : Caught (execute env fuel p.child))
    (hleaf : contractOps (final (execute env fuel p.child)).log = contractOps p.child.log) :
    ∃ w w' evm'', evm.worldState = some w ∧ iterate env (execute env fuel) evm = .ok () evm'' ∧
      evm''.executionStack.head? = some 0 ∧ evm''.worldState = some w' ∧
      (SameAccounts (p.creator evm.context.address) w w' ↔
        p.child.context.value ≤ 0 ∨ p.address = evm.context.address) := by
  obtain ⟨opcode, code, value, data, gas, w, w', hc, -⟩ := childOf_of_begin hrun hbegin
  obtain ⟨hworld, hlog, -⟩ := final_conclude p.child.gasRemaining (runLoop env fuel p.child)
  have hsame : (final (execute env fuel p.child)).worldState = some w' := by
    rw [execute, hlog] at hleaf
    rw [execute, hworld, run_leaf (run_runLoop env fuel p.child) hleaf, hc.child]
    rfl
  refine ⟨w, w', _, hc.world, (continues_of_caught hstack hrun hbegin hcaught).completes, rfl,
    hsame, ?_⟩
  rw [show p.child.context.value = value by rw [hc.child]; rfl]
  exact sameAccounts_payValue_iff (sameAccounts_base p _ w) hc.paid

end Leaf

/-- Failed inner calls are atomic for every callee and every init code exactly when the
opcode starts no child frame. A child that starts no frame itself is undone in full
exactly when it was given no value. -/
theorem failed_inner_calls_atomic_iff (env : Env) (w : WorldState) (hw : w.Counted)
    (caller : Bytes) (addr value : Int) :
    (CallsFailAtomically env w caller addr value ↔ ¬ Word addr ∨ Unpayable w caller value) ∧
      (CreatesFailAtomically env w caller value ↔ Unpayable w caller value) ∧
      ∀ fuel evm evm₁ p, evm.executionStack.length ≤ maxStackDepth → evm.running = true →
        begin env evm = .ok (some p) evm₁ → Caught (execute env fuel p.child) →
        contractOps (final (execute env fuel p.child)).log = contractOps p.child.log →
        ∃ w w' evm', evm.worldState = some w ∧ iterate env (execute env fuel) evm = .ok () evm' ∧
          evm'.executionStack.head? = some 0 ∧ evm'.worldState = some w' ∧
          (SameAccounts (p.creator evm.context.address) w w' ↔
            p.child.context.value ≤ 0 ∨ p.address = evm.context.address) := by
  refine ⟨⟨fun h => ?_, callsFailAtomically_of_unpayable⟩,
    ⟨fun h => ?_, createsFailAtomically_of_unpayable⟩,
    fun fuel evm evm₁ p hstack hrun => failed_leaf_iff hstack hrun⟩
  · by_contra hc
    obtain ⟨haddr, hpay⟩ := not_or.mp hc
    exact not_callsFailAtomically hw (not_not.mp haddr) hpay h
  · by_contra hpay
    exact not_createsFailAtomically hw hpay h

theorem failed_inner_calls_atomic_iff_sample :
    CallsFailAtomically sampleEnv (sampleWorld [] [0xfe]) sampleContract
        (intFromBytes sampleCallee) 11 ∧
      ¬ CallsFailAtomically sampleEnv (sampleWorld [] [0xfe]) sampleContract
        (intFromBytes sampleCallee) 3 ∧
      ∃ w w' evm', (callingFrame 0 [0xfe]).worldState = some w ∧
        iterate sampleEnv (execute sampleEnv 50) (callingFrame 0 [0xfe]) = .ok () evm' ∧
        evm'.worldState = some w' ∧ ∃ creator, SameAccounts creator w w' := by
  have hcounted : (sampleWorld [] [0xfe]).Counted :=
    WorldState.forall_getAccount (P := fun account => 0 ≤ account.nonce) le_rfl (by decide)
  have hiff := failed_inner_calls_atomic_iff sampleEnv (sampleWorld [] [0xfe]) hcounted
    sampleContract (intFromBytes sampleCallee)
  have hword : Word (intFromBytes sampleCallee) := word_intFromBytes (by decide)
  refine ⟨(hiff 11).1.mpr (.inr ⟨by decide, by decide +kernel⟩), ?_, ?_⟩
  · rw [(hiff 3).1, not_or]
    exact ⟨not_not_intro hword, fun h => absurd h.2 (by decide +kernel)⟩
  · obtain ⟨q, evm₁, hbegin, hq⟩ := exists_of_returns
      (p := fun (q : Option Pending) _ => q.elim false fun p =>
        decide (endingOf (execute sampleEnv 50 p.child) = .failure ∧
          contractOps (final (execute sampleEnv 50 p.child)).log = contractOps p.child.log ∧
          p.child.context.value ≤ 0))
      (r := begin sampleEnv (callingFrame 0 [0xfe])) (by decide +kernel)
    cases q with
    | none => cases hq
    | some p =>
      obtain ⟨hfailure, hleaf, hvalue⟩ := of_decide_eq_true hq
      obtain ⟨w, w', evm', hw, hiterate, -, hw', hsame⟩ :=
        (hiff 0).2.2 50 (callingFrame 0 [0xfe]) evm₁ p (by decide) (by decide) hbegin
          (.inl hfailure) hleaf
      exact ⟨w, w', evm', hw, hiterate, hw', _, hsame.mpr (.inl hvalue)⟩

/-- The value that was sent to a failed callee stays there. -/
theorem failed_inner_call_keeps_value : ∃ evm' w',
    iterate sampleEnv (execute sampleEnv 50) (callingFrame 3 [0xfe]) = .ok () evm' ∧
      evm'.executionStack = [0] ∧ evm'.worldState = some w' ∧
      (sampleWorld [] [0xfe]).getBalance sampleCallee = 0 ∧ w'.getBalance sampleCallee = 3 := by
  obtain ⟨u, evm', h, hp⟩ := exists_of_returns
    (p := fun _ (evm : EVM) => evm.executionStack == [0] &&
      evm.worldState.elim false fun w => w.getBalance sampleCallee == 3)
    (r := iterate sampleEnv (execute sampleEnv 50) (callingFrame 3 [0xfe])) (by decide +kernel)
  simp only [Bool.and_eq_true, beq_iff_eq] at hp
  cases hw : evm'.worldState with
  | none => rw [hw] at hp; cases hp.2
  | some w' =>
    rw [hw] at hp
    exact ⟨evm', w', h, hp.1, hw, by decide +kernel, by simpa using hp.2⟩

end Ethereum
