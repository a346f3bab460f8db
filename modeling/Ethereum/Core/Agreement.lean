import Ethereum.Core.Apply
import Ethereum.Evm.Agreement
import Ethereum.Evm.Footprint
import Ethereum.Lib.Machine
import Ethereum.State.Moves

/-! Transactions on world states that hold the same accounts, at least where they get to: the
results are the same, and so is what they leave behind. -/
namespace Ethereum

open Stateful Relational WorldState

section Footprint

/-- The sender, the recipient or the contract to be created, and the accounts of the frames that
the transaction runs from a state. -/
inductive Transaction.Touches (env : Env) (tx : Transaction) (s : TxState) (a : Bytes) : Prop
  | sender (h : recoverSender env tx = .ok a)
  | recipient (hto : tx.to ≠ []) (h : tx.to = a)
  | created {sender : Bytes} (hto : tx.to = []) (hsender : recoverSender env tx = .ok sender)
      (h : computeContractAddress env sender tx.nonce = .ok a)
  | frame {sender : Bytes} {t : TopFrame} {w w' : WorldState}
      (hsender : recoverSender env tx = .ok sender)
      (ht : Opens env tx sender (s.world.bill tx sender) t w)
      (hpay : payValue w sender t.address tx.value = .ok w')
      (h : (t.start tx sender tx.executionGas w' s.log).Touches env a)

/-- What a call of `apply_transaction` gets to. -/
def touched (env : Env) (s : TxState) (entry : Transaction × Int) : Set Bytes :=
  { a | entry.1.Touches env s a }

/-- What calls of `apply_transaction` get to, one after the other. -/
def touchedAll (env : Env) (fuel : Nat) (s : TxState) (txs : List (Transaction × Int)) :
    Set Bytes :=
  Locality.spread (applyEntry env fuel) (touched env) s txs

theorem touchedAll_single (env : Env) (fuel : Nat) (s : TxState) (entry : Transaction × Int) :
    touchedAll env fuel s [entry] = touched env s entry :=
  Set.union_empty _

variable {env : Env} {tx : Transaction} {sender a : Bytes} {s : TxState}

theorem code_bill (w : WorldState) (tx : Transaction) (sender : Bytes) :
    ((w.bill tx sender).getAccount a).code = (w.getAccount a).code :=
  field_bill Account.code (fun _ _ _ => rfl) a

/-- A payment, or a call of bytecode that starts no frames, concerns sender and recipient. -/
theorem touches_of_leafCall (hsender : recoverSender env tx = .ok sender) (hto : tx.to ≠ [])
    (hleaf : Leaf (s.world.getAccount tx.to).code) :
    tx.Touches env s a ↔ a = sender ∨ a = tx.to := by
  constructor
  · rintro (h | ⟨-, rfl⟩ | ⟨hnil, -, -⟩ | ⟨hrecovered, ht, hpay, h⟩)
    · exact .inl (Except.ok.inj (h.symm.trans hsender))
    · exact .inr rfl
    · exact absurd hnil hto
    · cases ht with
      | message _ _ =>
        rw [← code_bill s.world tx sender] at hleaf
        cases hrecovered.symm.trans hsender
        exact .inr ((touches_of_leaf hleaf).mp h).symm
      | creation hnil _ => exact absurd hnil hto
  · rintro (rfl | rfl)
    · exact .sender hsender
    · exact .recipient hto rfl

end Footprint

/-- World states and logs that belong together. -/
structure TxState.Like (c : Coupling) (s s' : TxState) : Prop where
  world : c.worlds s.world s'.world
  log : c.Logs s.log s'.log

/-- Two computations that run in lockstep and return the same. -/
abbrev TxLockstep {α : Type} (c : Coupling) (x y : TxM α) : Prop :=
  Related Eq (TxState.Like c) Eq x y

section Lockstep

variable {c : Coupling} {env : Env} {α : Type} {tx : Transaction} {sender recipient : Bytes}
  {gas : Int} {s s' : TxState}

theorem validateTransaction_congr (hS : c.Sound) {w w' : WorldState} (h : c.worlds w w')
    (hsender : ∀ a, recoverSender env tx = .ok a → a ∈ c.inside) (blockGasLimit : Int) :
    validateTransaction env tx w blockGasLimit = validateTransaction env tx w' blockGasLimit := by
  unfold validateTransaction
  cases hrecover : recoverSender env tx with
  | error reason => rfl
  | ok sender =>
    have haccount : SameAt sender w w' := hS.account h sender (hsender sender hrecover)
    dsimp only
    rw [haccount.nonce, haccount.balance]

theorem TxLockstep.andThen {β γ : Type} {W : β → γ → Prop} {x y : TxM α} {k : α → TxM β}
    {l : α → TxM γ} (hx : TxLockstep c x y) (hk : ∀ a, Related Eq (TxState.Like c) W (k a) (l a)) :
    Related Eq (TxState.Like c) W (x >>= k) (y >>= l) :=
  hx.bind fun a _ h => h ▸ hk a

theorem lockstep_modifyWorld {f g : WorldState → WorldState}
    (h : ∀ w w', c.worlds w w' → c.worlds (f w) (g w')) :
    TxLockstep c (modifyWorld f) (modifyWorld g) :=
  fun s s' hlike => .ok rfl ⟨h s.world s'.world hlike.world, hlike.log⟩

/-- A payment out of an account, which may fail for want of balance. -/
theorem lockstep_pay {pay : WorldState → Except String WorldState}
    (h : ∀ w w', c.worlds w w' → Alike c.worlds (pay w) (pay w')) :
    TxLockstep c
      (do
        let s ← get
        match pay s.world with
        | .error message => throw (.raised (.valueError message))
        | .ok world => modifyWorld fun _ => world)
      (do
        let s ← get
        match pay s.world with
        | .error message => throw (.raised (.valueError message))
        | .ok world => modifyWorld fun _ => world) := by
  refine related_get_bind fun s s' hlike => ?_
  have hpay := h s.world s'.world hlike.world
  generalize pay s.world = r, pay s'.world = r' at hpay
  cases hpay with
  | error message => exact .error rfl hlike
  | ok hpaid => exact lockstep_modifyWorld (fun _ _ _ => hpaid) s s' hlike

theorem lockstep_deduct (hS : c.Sound) (hsender : sender ∈ c.inside) (amount : Int) :
    TxLockstep c (deduct sender amount) (deduct sender amount) :=
  lockstep_pay fun _ _ h => hS.deductBalance h hsender amount

theorem lockstep_sendValue (hS : c.Sound) (hsender : sender ∈ c.inside)
    (hrecipient : recipient ∈ c.inside) (value : Int) :
    TxLockstep c (sendValue sender recipient value) (sendValue sender recipient value) :=
  lockstep_pay fun _ _ h => payValue_alike hS h hsender hrecipient value

theorem ok_of_sendValue {value : Int} {s₁ : TxState}
    (h : sendValue sender recipient value s = .ok () s₁) :
    payValue s.world sender recipient value = .ok s₁.world ∧ s₁.log = s.log := by
  cases hpay : payValue s.world sender recipient value with
  | error message => cases (sendValue_of_error hpay).symm.trans h
  | ok w =>
    cases (sendValue_of_ok hpay).symm.trans h
    exact ⟨rfl, rfl⟩

theorem lockstep_joinFrame (kind : FrameKind) (ending : Ending) {evm evm' : EVM}
    (h : EVM.Like c evm evm') :
    TxLockstep c (joinFrame kind ending evm) (joinFrame kind ending evm') := by
  intro s s' hlike
  cases h with
  | @intro storage world log hs hw hl =>
    refine .ok rfl ⟨?_, hl.append _⟩
    dsimp only [EVM.over]
    generalize evm.worldState = x at hw
    cases hw with
    | some hw => exact hw
    | none => exact hlike.world

/-- What the code around a frame gets from it. -/
abbrev SameEnd (c : Coupling) :
    Option (ExecutionResult × EVM) → Option (ExecutionResult × EVM) → Prop :=
  Option.Rel fun x y => x.1 = y.1 ∧ EVM.Like c x.2 y.2

theorem related_joinOutcome (kind : FrameKind) {o o' : Outcome}
    (ho : Agree Eq (EVM.Like c) Eq o o') :
    Related Eq (TxState.Like c) (SameEnd c) (joinOutcome kind o) (joinOutcome kind o') := by
  cases ho with
  | ok hv hlike =>
    subst hv
    exact (lockstep_joinFrame kind _ hlike).andThen fun _ => related_pure (.some ⟨rfl, hlike⟩)
  | @error e _ evm evm' he hlike =>
    subst he
    rcases outOfGas_or_other e with ⟨needed, remaining, rfl⟩ | hother
    · exact (lockstep_joinFrame kind .outOfGas hlike).andThen fun _ => related_pure .none
    · rw [joinOutcome.eq_3 kind e evm hother, joinOutcome.eq_3 kind e evm' hother]
      exact (lockstep_joinFrame kind .raised hlike).andThen fun _ => related_throw rfl

theorem agree_runFrame (hS : c.Sound) (h : s.Like c s') (fuel : Nat) (kind : FrameKind)
    (code : Bytes) (context : ExecutionContext) {storage storage' : Dict Int Int}
    (hstorage : ∀ key, storage.get? key = storage'.get? key)
    (htouches : ∀ a, (EVM.init code context storage (some s.world)
      (s.log ++ [.enter kind context])).Touches env a → a ∈ c.inside) :
    Agree Eq (TxState.Like c) (SameEnd c) (runFrame env fuel kind code context storage s)
      (runFrame env fuel kind code context storage' s') := by
  rw [runFrame, runFrame, bind_of_ok (get_apply _), bind_of_ok (get_apply _)]
  have hstart := like_init code context hstorage h.world (h.log.append [.enter kind context])
  exact related_joinOutcome kind (agree_execute hS fuel hstart htouches) s s' h

theorem lockstep_finishContractCall (hS : c.Sound) (hto : tx.to ∈ c.inside)
    {o o' : Option (ExecutionResult × EVM)} (h : SameEnd c o o') :
    TxLockstep c (finishContractCall tx gas o) (finishContractCall tx gas o') := by
  cases h with
  | none => exact related_pure rfl
  | @some x y hxy =>
    obtain ⟨result, evm⟩ := x
    obtain ⟨result', evm'⟩ := y
    obtain ⟨rfl, hevm⟩ : result = result' ∧ EVM.Like c evm evm' := hxy
    unfold finishContractCall
    dsimp only
    split
    · cases hevm with
      | intro hs _ _ =>
        exact (lockstep_modifyWorld fun _ _ hw => hS.persist hw tx.to hto hs).andThen
          fun _ => related_pure rfl
    · exact related_pure rfl

theorem lockstep_finishCreate (hS : c.Sound) {a : Bytes} (ha : a ∈ c.inside)
    {o o' : Option (ExecutionResult × EVM)} (h : SameEnd c o o') :
    TxLockstep c (finishCreate gas a o) (finishCreate gas a o') := by
  cases h with
  | none => exact related_pure rfl
  | @some x y hxy =>
    obtain ⟨result, evm⟩ := x
    obtain ⟨result', evm'⟩ := y
    obtain ⟨rfl, hevm⟩ : result = result' ∧ EVM.Like c evm evm' := hxy
    unfold finishCreate
    dsimp only
    split
    · cases hevm with
      | intro hs _ _ =>
        exact (lockstep_modifyWorld fun _ _ hw => hS.setCode hw ha _).andThen fun _ =>
          (lockstep_modifyWorld fun _ _ hw => hS.persist hw a ha hs).andThen
          fun _ => related_pure rfl
    · exact related_pure rfl

/-- The accounts that the frame of a transaction gets to are inside. -/
def FrameInside (env : Env) (tx : Transaction) (sender : Bytes) (gas : Int) (s : TxState)
    (A : Set Bytes) : Prop :=
  ∀ {t w w' a}, Opens env tx sender s.world t w → payValue w sender t.address tx.value = .ok w' →
    (t.start tx sender gas w' s.log).Touches env a → a ∈ A

theorem agree_executeContractCall (hS : c.Sound) (h : s.Like c s') (fuel : Nat)
    (hto : tx.to ≠ []) (hcode : (s.world.getAccount tx.to).code ≠ []) (hsender : sender ∈ c.inside)
    (hinside : tx.to ∈ c.inside) (hframe : FrameInside env tx sender gas s c.inside) :
    Agree Eq (TxState.Like c) Eq (executeContractCall env fuel tx sender gas s)
      (executeContractCall env fuel tx sender gas s') := by
  have haccount : SameAt tx.to s.world s'.world := hS.account h.world tx.to hinside
  rw [executeContractCall, bind_of_ok (get_apply _), bind_of_ok (get_apply _), ← haccount.code]
  have hsend := lockstep_sendValue hS hsender hinside tx.value s s' h
  refine hsend.bind fun hs₁ _ h₁ => ?_
  obtain ⟨hpay, hlog⟩ := ok_of_sendValue hs₁
  refine (agree_runFrame hS h₁ fuel .message _ _ haccount.storage fun a ha => ?_).bind
    fun _ hend h₂ => lockstep_finishContractCall hS hinside hend _ _ h₂
  rw [hlog] at ha
  exact hframe (.message hto hcode) hpay ha

theorem agree_executeCreate (hS : c.Sound) (h : s.Like c s') (fuel : Nat) (hto : tx.to = [])
    (hsender : sender ∈ c.inside)
    (hcreated : ∀ a, computeContractAddress env sender tx.nonce = .ok a → a ∈ c.inside)
    (hframe : FrameInside env tx sender gas s c.inside) :
    Agree Eq (TxState.Like c) Eq (executeCreate env fuel tx sender gas s)
      (executeCreate env fuel tx sender gas s') := by
  unfold executeCreate
  cases ha : computeContractAddress env sender tx.nonce with
  | error e => exact .error rfl h
  | ok a =>
    have hinside := hcreated a ha
    have hlisted : TxState.Like c { s with world := s.world.addBalance a 0 }
        { s' with world := s'.world.addBalance a 0 } :=
      ⟨hS.addBalance h.world hinside 0, h.log⟩
    have hsend := lockstep_sendValue hS hsender hinside tx.value _ _ hlisted
    refine hsend.bind fun hs₁ _ h₁ => ?_
    obtain ⟨hpay, hlog⟩ := ok_of_sendValue hs₁
    refine (agree_runFrame hS h₁ fuel .creation _ _ (fun _ => rfl) fun b hb => ?_).bind
      fun _ hend h₂ => lockstep_finishCreate hS hinside hend _ _ h₂
    rw [hlog] at hb
    exact hframe (.creation hto ha) hpay hb

/-- The execution step, where everything that it gets to is inside. -/
theorem agree_executeTransaction (hS : c.Sound) (h : s.Like c s') (fuel : Nat)
    (hsender : sender ∈ c.inside) (hto : tx.to ≠ [] → tx.to ∈ c.inside)
    (hcreated : tx.to = [] → ∀ a, computeContractAddress env sender tx.nonce = .ok a →
      a ∈ c.inside)
    (hframe : FrameInside env tx sender gas s c.inside) :
    Agree Eq (TxState.Like c) Eq (executeTransaction env fuel tx sender gas s)
      (executeTransaction env fuel tx sender gas s') := by
  rw [executeTransaction, bind_of_ok (get_apply _), bind_of_ok (get_apply _)]
  by_cases hnil : tx.to = []
  · rw [if_pos hnil, if_pos hnil]
    exact agree_executeCreate hS h fuel hnil hsender (hcreated hnil) hframe
  · have hinside := hto hnil
    have haccount : SameAt tx.to s.world s'.world := hS.account h.world tx.to hinside
    rw [if_neg hnil, if_neg hnil, ← haccount.code]
    by_cases hcode : (s.world.getAccount tx.to).code ≠ []
    · rw [if_pos hcode]
      exact agree_executeContractCall hS h fuel hnil hcode hsender hinside hframe
    · rw [if_neg hcode]
      exact ((lockstep_sendValue hS hsender hinside tx.value).andThen fun _ =>
        related_pure rfl) s s' h

theorem lockstep_rollback (hS : c.Sound) (hsender : sender ∈ c.inside) {w w' : WorldState}
    (h : c.worlds w w') :
    TxLockstep c (rollback tx sender w.snapshot) (rollback tx sender w'.snapshot) :=
  (lockstep_modifyWorld fun _ _ _ => h).andThen fun _ =>
    (lockstep_deduct hS hsender _).andThen fun _ =>
    lockstep_modifyWorld fun _ _ hw => hS.incrementNonce hw hsender

theorem lockstep_payRefund (hS : c.Sound) (hsender : sender ∈ c.inside) (gasRefund : Int)
    (result : TransactionResult) :
    TxLockstep c
      (if 0 < gasRefund then do
        modifyWorld fun world => world.addBalance sender gasRefund
        return result
      else return result)
      (if 0 < gasRefund then do
        modifyWorld fun world => world.addBalance sender gasRefund
        return result
      else return result) :=
  Related.ite Iff.rfl
    ((lockstep_modifyWorld fun _ _ hw => hS.addBalance hw hsender gasRefund).andThen
      fun _ => related_pure rfl)
    (related_pure rfl)

theorem lockstep_settleTransaction (hS : c.Sound) (hsender : sender ∈ c.inside)
    {w w' : WorldState} (h : c.worlds w w') (result : ExecutionResult) :
    TxLockstep c (settleTransaction tx sender w.snapshot result)
      (settleTransaction tx sender w'.snapshot result) := by
  unfold settleTransaction
  cases result.success with
  | false =>
    exact (lockstep_rollback hS hsender h).andThen
      fun _ => lockstep_payRefund hS hsender _ _
  | true => exact lockstep_payRefund hS hsender _ _

theorem bill_like (hS : c.Sound) (hsender : sender ∈ c.inside) {w w' : WorldState}
    (h : c.worlds w w') : c.worlds (w.bill tx sender) (w'.bill tx sender) := by
  refine hS.incrementNonce (hS.modify h sender hsender fun x y hxy => ?_) hsender
  exact ⟨⟨hxy.nonce, congrArg (· - tx.gas * tx.gasPrice) hxy.balance, hxy.code⟩, hxy.storage⟩

/-- A transaction cannot tell the two world states apart, whatever it does, if everything that it
gets to is inside. -/
theorem agree_applyTransaction (hS : c.Sound) (h : s.Like c s') (fuel : Nat) (blockGasLimit : Int)
    (htouches : ∀ a, tx.Touches env s a → a ∈ c.inside) :
    Agree Eq (TxState.Like c) Eq (applyTransaction env fuel tx blockGasLimit s)
      (applyTransaction env fuel tx blockGasLimit s') := by
  have hsame := validateTransaction_congr hS h.world (fun a ha => htouches a (.sender ha))
    blockGasLimit
  cases hv : validateTransaction env tx s.world blockGasLimit with
  | error e =>
    rw [applyTransaction_of_invalid fuel hv, applyTransaction_of_invalid fuel (hsame.symm.trans hv)]
    exact .error rfl h
  | ok sender =>
    have hvalid := validateTransaction_eq_ok_iff.mp hv
    have hvalid' := validateTransaction_eq_ok_iff.mp (hsame.symm.trans hv)
    have hsender : sender ∈ c.inside := htouches sender (.sender hvalid.recovered)
    have hbilled : TxState.Like c { s with world := s.world.bill tx sender }
        { s' with world := s'.world.bill tx sender } := ⟨bill_like hS hsender h.world, h.log⟩
    have hframe : FrameInside env tx sender tx.executionGas
        { s with world := s.world.bill tx sender } c.inside :=
      fun ht hpay ha => htouches _ (.frame hvalid.recovered ht hpay ha)
    have hexec := agree_executeTransaction hS hbilled fuel hsender
      (fun hto => htouches _ (.recipient hto rfl))
      (fun hto a ha => htouches a (.created hto hvalid.recovered ha)) hframe
    have hbody : Agree Eq (TxState.Like c) Eq (applyBody env fuel tx sender s.world.snapshot s)
        (applyBody env fuel tx sender s'.world.snapshot s') := by
      rw [applyBody_eq hvalid, applyBody_eq hvalid']
      refine hexec.bind fun _ hresult hs => ?_
      subst hresult
      exact lockstep_settleTransaction hS hsender h.world _ _ _ hs
    rw [applyTransaction_of_valid hvalid, applyTransaction_of_valid hvalid']
    generalize applyBody env fuel tx sender s.world.snapshot s = r,
      applyBody env fuel tx sender s'.world.snapshot s' = r' at hbody
    cases hbody with
    | ok hv hs => exact .ok hv hs
    | @error e _ t t' he hs =>
      subst he
      cases e with
      | outOfFuel => exact .error rfl hs
      | raised e =>
        exact ((lockstep_rollback hS hsender h.world).andThen fun _ => related_pure rfl) t t' hs

end Lockstep

section Runs

variable {c : Coupling} {env : Env} {P : Bytes → WorldState → WorldState → Prop} {s s' : TxState}

theorem answer_eq_of_agree {r r' : EStateM.Result Abort TxState TransactionResult}
    (h : Agree Eq (TxState.Like c) Eq r r') : answer r = answer r' := by
  cases h with
  | ok hv _ => exact congrArg Except.ok hv
  | error he _ => rw [answer, answer, he]

/-- Two runs from `s` and `s'` that may get to the accounts of `A`. -/
def couple (P : Bytes → WorldState → WorldState → Prop) (A : Set Bytes) (s s' : TxState) :
    Coupling where
  inside := A
  worlds := Within P A s.world s'.world
  before := s.log
  before' := s'.log

theorem like_couple (hP : Pointwise P) {A : Set Bytes}
    (h : Locality.SameOn P A s.world s'.world) : s.Like (couple P A s s') s' where
  world := hP.within_refl h
  log := ⟨[], (List.append_nil _).symm, (List.append_nil _).symm⟩

/-- Calls of `apply_transaction` cannot tell the two states apart either, if everything that they
get to is inside. -/
theorem applyAll_like (hS : c.Sound) (fuel : Nat) {txs : List (Transaction × Int)}
    (h : s.Like c s') (htouches : touchedAll env fuel s txs ⊆ c.inside) :
    (applyAll env fuel txs s).1 = (applyAll env fuel txs s').1 ∧
      (applyAll env fuel txs s).2.Like c (applyAll env fuel txs s').2 := by
  induction txs generalizing s s' with
  | nil => exact ⟨rfl, h⟩
  | cons entry txs ih =>
    obtain ⟨hfirst, hrest⟩ := Set.union_subset_iff.mp htouches
    have hstep := agree_applyTransaction hS h fuel entry.2 fun a ha => hfirst ha
    obtain ⟨hanswers, hlast⟩ := ih hstep.final hrest
    exact ⟨congrArg₂ List.cons (answer_eq_of_agree hstep) hanswers, hlast⟩

theorem applyAll_couple (env : Env) (hP : Pointwise P) (fuel : Nat)
    (txs : List (Transaction × Int)) {A : Set Bytes} (hsub : touchedAll env fuel s txs ⊆ A)
    (h : Locality.SameOn P A s.world s'.world) :
    (applyAll env fuel txs s).1 = (applyAll env fuel txs s').1 ∧
      (applyAll env fuel txs s).2.Like (couple P A s s') (applyAll env fuel txs s').2 :=
  applyAll_like (congruence_within hP A s.world s'.world) fuel (like_couple hP h) hsub

/-- Transactions see of the world state only its accounts: neither the order in which accounts and
slots were written nor explicit empty accounts change an answer. Equal maps stay equal maps, so
their state roots stay equal as well. -/
theorem transactions_see_only_accounts (env : Env) (fuel : Nat) (txs : List (Transaction × Int))
    (s s' : TxState) (hworld : s.world.SameAccounts s'.world) (hlog : s.log = s'.log) :
    (applyAll env fuel txs s).1 = (applyAll env fuel txs s').1 ∧
      (applyAll env fuel txs s).2.log = (applyAll env fuel txs s').2.log ∧
      (applyAll env fuel txs s).2.world.SameAccounts (applyAll env fuel txs s').2.world ∧
      (s.world.Same s'.world →
        (applyAll env fuel txs s).2.world.Same (applyAll env fuel txs s').2.world ∧
        (applyAll env fuel txs s).2.world.stateRootPreimage =
          (applyAll env fuel txs s').2.world.stateRootPreimage) := by
  obtain ⟨hanswers, hlike⟩ := applyAll_couple env pointwise_sameAt fuel txs
    (Set.subset_univ _) fun a _ => hworld a
  obtain ⟨new, hnew, hnew'⟩ := hlike.log
  have hlogs : (applyAll env fuel txs s).2.log = (applyAll env fuel txs s').2.log := by
    rw [hnew, hnew']
    exact congrArg (· ++ new) hlog
  refine ⟨hanswers, hlogs, fun a => hlike.world.inside a trivial, fun hsame => ?_⟩
  have hentries := (applyAll_couple env pointwise_sameEntryAt fuel txs
    (Set.subset_univ _) fun a _ => hsame a).2.world.inside
  have hfinal : (applyAll env fuel txs s).2.world.Same (applyAll env fuel txs s').2.world :=
    fun a => hentries a trivial
  exact ⟨hfinal, stateRootPreimage_congr hfinal.sameUpToStorage⟩

/-- An explicit empty account does not show in a call with value. -/
theorem transactions_see_only_accounts_touched :
    (applyAll sampleEnv 100 [(sampleTransaction, 100000)] sampleState).1 =
      (applyAll sampleEnv 100 [(sampleTransaction, 100000)]
        { sampleState with world := sampleState.world.addBalance [] 0 }).1 := by
  have hsame : sampleState.world.SameAccounts (sampleState.world.addBalance [] 0) := by
    intro a
    rw [SameAt, getAccount_touch]
    exact Account.Same.refl _
  exact (transactions_see_only_accounts sampleEnv 100 [(sampleTransaction, 100000)] sampleState
    { sampleState with world := sampleState.world.addBalance [] 0 } hsame rfl).1

end Runs

end Ethereum
