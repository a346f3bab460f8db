import Ethereum.Core.StateTransition
import Ethereum.Evm.Run

/-! What the execution step of a transaction comes to: a refusal, a plain transfer, or
one frame with everything below it. -/
namespace Ethereum

open Stateful

/-- The frame that a transaction starts. -/
structure TopFrame where
  kind : FrameKind
  address : Bytes
  code : Bytes
  storage : Dict Int Int
  data : Bytes

namespace TopFrame

def context (t : TopFrame) (tx : Transaction) (sender : Bytes) (gas : Int) : ExecutionContext where
  caller := sender
  address := t.address
  value := tx.value
  data := t.data
  gas := gas

/-- The state in which the frame starts. -/
def start (t : TopFrame) (tx : Transaction) (sender : Bytes) (gas : Int) (world : WorldState)
    (log : List Event) : EVM :=
  EVM.init t.code (t.context tx sender gas) t.storage (some world)
    (log ++ [.enter t.kind (t.context tx sender gas)])

/-- The world state when the frame has succeeded. -/
def commit (t : TopFrame) (returnData : Bytes) (storage : Dict Int Int) (w : WorldState) :
    WorldState :=
  if t.kind = .creation then (w.setCode t.address returnData).persistStorage t.address storage
  else w.persistStorage t.address storage

end TopFrame

def messageFrame (tx : Transaction) (w : WorldState) : TopFrame where
  kind := .message
  address := tx.to
  code := (w.getAccount tx.to).code
  storage := (w.getAccount tx.to).storage
  data := tx.data

def creationFrame (tx : Transaction) (contractAddress : Bytes) : TopFrame where
  kind := .creation
  address := contractAddress
  code := tx.data
  storage := .empty
  data := []

/-- The frame of a transaction in a world state, and the world state before the value
is paid. -/
inductive Opens (env : Env) (tx : Transaction) (sender : Bytes) (w : WorldState) :
    TopFrame → WorldState → Prop
  | message (hto : tx.to ≠ []) (hcode : (w.getAccount tx.to).code ≠ []) :
      Opens env tx sender w (messageFrame tx w) w
  | creation {a : Bytes} (hto : tx.to = [])
      (ha : computeContractAddress env sender tx.nonce = .ok a) :
      Opens env tx sender w (creationFrame tx a) (w.addBalance a 0)

variable {env : Env} {fuel : Nat} {tx : Transaction} {sender : Bytes} {gas : Int}
  {s s' : TxState}

theorem sendValue_of_ok {recipient : Bytes} {value : Int} {w : WorldState}
    (h : payValue s.world sender recipient value = .ok w) :
    sendValue sender recipient value s = .ok () { s with world := w } := by
  simp only [sendValue, bind_apply, get_apply, h, modifyWorld, modify_apply]

theorem sendValue_of_error {recipient : Bytes} {value : Int} {message : String}
    (h : payValue s.world sender recipient value = .error message) :
    sendValue sender recipient value s = .error (.raised (.valueError message)) s := by
  simp only [sendValue, bind_apply, get_apply, h, throw_apply]

/-- What the caller of a transaction's frame gets from the loop of that frame. -/
inductive FrameEnd (kind : FrameKind) (gas : Int) (s : TxState) (c : LoopResult) :
    EStateM.Result Abort TxState (Option (ExecutionResult × EVM)) → Prop
  | returned {evm result s'} (hc : c = .ok () evm)
      (hdata : result.returnData = evm.returnData)
      (hgas : result.gasRemaining = evm.gasRemaining)
      (hworld : s'.world = evm.worldState.getD s.world)
      (hlog : s'.log = evm.log ++ [.leave kind (if result.success then .success else .failure)])
      (hreverted : result.success = !evm.reverted) :
      FrameEnd kind gas s c (.ok (some (result, evm)) s')
  | outOfGas {s' ending} (hlog : s'.log = (final c).log ++ [.leave kind ending])
      (hending : ending ≠ .success) : FrameEnd kind gas s c (.ok none s')
  | raised {e s' ending} (hlog : s'.log = (final c).log ++ [.leave kind ending])
      (hfuel : e = .outOfFuel → ∃ evm, c = .error .outOfFuel evm) (hending : ending ≠ .success) :
      FrameEnd kind gas s c (.error e s')

theorem joinOutcome_end (kind : FrameKind) (gas : Int) (s : TxState) (c : LoopResult) :
    FrameEnd kind gas s c (joinOutcome kind (conclude gas c) s) := by
  have hlog := (final_conclude gas c).2.1
  generalize ho : conclude gas c = o at hlog ⊢
  unfold joinOutcome
  split
  · next result evm =>
    rw [joinFrame, bind_of_ok (modify_apply _ _)]
    obtain ⟨hc, rfl⟩ := conclude_eq_ok ho
    exact .returned hc rfl rfl rfl rfl rfl
  · next needed remaining evm =>
    rw [joinFrame, bind_of_ok (modify_apply _ _)]
    exact .outOfGas (congrArg (· ++ _) hlog) (by simp)
  · next e evm hne =>
    rw [joinFrame, bind_of_ok (modify_apply _ _)]
    exact .raised (congrArg (· ++ _) hlog) (fun he => ⟨evm, conclude_eq_outOfFuel (he ▸ ho)⟩)
      (by simp)

/-- What the execution step can come to. -/
inductive Executed (env : Env) (fuel : Nat) (tx : Transaction) (sender : Bytes) (gas : Int)
    (s : TxState) : EStateM.Result Abort TxState ExecutionResult → Prop
  | refused {e s'} (hs : s'.log = s.log) : Executed env fuel tx sender gas s (.error (.raised e) s')
  | transferred {result s'} (hs : s'.log = s.log)
      (hpay : payValue s.world sender tx.to tx.value = .ok s'.world)
      (hsuccess : result.success = true) (hgas : result.gasRemaining = gas) :
      Executed env fuel tx sender gas s (.ok result s')
  | succeeded {t w w' c evm result s'} (ht : Opens env tx sender s.world t w)
      (hpay : payValue w sender t.address tx.value = .ok w')
      (hc : c = runLoop env fuel (t.start tx sender gas w' s.log)) (hok : c = .ok () evm)
      (hlog : s'.log = evm.log ++ [.leave t.kind .success])
      (hworld : s'.world = t.commit evm.returnData evm.storage (evm.worldState.getD w'))
      (hsuccess : result.success = true) (hgas : result.gasRemaining = evm.gasRemaining)
      (hreverted : evm.reverted = false) : Executed env fuel tx sender gas s (.ok result s')
  | failed {t w w' c ending r} (ht : Opens env tx sender s.world t w)
      (hpay : payValue w sender t.address tx.value = .ok w')
      (hc : c = runLoop env fuel (t.start tx sender gas w' s.log))
      (hlog : (final r).log = (final c).log ++ [.leave t.kind ending])
      (hfailed : ∀ result s', r = .ok result s' → result.success = false)
      (hfuel : ∀ s', r = .error .outOfFuel s' → ∃ evm, c = .error .outOfFuel evm)
      (hending : ending ≠ .success) : Executed env fuel tx sender gas s r

theorem runFrame_eq (env : Env) (fuel : Nat) (tx : Transaction) (sender : Bytes) (gas : Int)
    (s : TxState) (t : TopFrame) (w : WorldState) :
    runFrame env fuel t.kind t.code (t.context tx sender gas) t.storage { s with world := w } =
      joinOutcome t.kind (execute env fuel (t.start tx sender gas w s.log))
        { s with world := w } := by
  rw [runFrame, bind_of_ok (get_apply _)]
  rfl

theorem frame_end (env : Env) (fuel : Nat) (tx : Transaction) (sender : Bytes) (gas : Int)
    (s : TxState) (t : TopFrame) (w : WorldState) :
    FrameEnd t.kind gas { s with world := w }
      (runLoop env fuel (t.start tx sender gas w s.log))
      (runFrame env fuel t.kind t.code (t.context tx sender gas) t.storage
        { s with world := w }) := by
  rw [runFrame_eq]
  exact joinOutcome_end _ _ _ _

theorem executeValueTransfer_executed :
    Executed env fuel tx sender gas s (executeValueTransfer tx sender gas s) := by
  cases hpay : payValue s.world sender tx.to tx.value with
  | error message =>
    rw [executeValueTransfer, bind_of_error (sendValue_of_error hpay)]
    exact .refused rfl
  | ok w =>
    rw [executeValueTransfer, bind_of_ok (sendValue_of_ok hpay)]
    exact .transferred rfl hpay rfl rfl

/-- What is left to do after the frame of a transaction: commit a success. -/
structure Finishes (t : TopFrame)
    (finish : Option (ExecutionResult × EVM) → TxM ExecutionResult) : Prop where
  outOfGas : ∀ s, ∃ result, finish none s = .ok result s ∧ result.success = false
  success : ∀ result evm s, result.success = true → ∃ result',
    finish (some (result, evm)) s =
      .ok result' { s with world := t.commit result.returnData evm.storage s.world } ∧
    result'.success = true ∧ result'.gasRemaining = result.gasRemaining
  failure : ∀ result evm s, result.success = false → ∃ result',
    finish (some (result, evm)) s = .ok result' s ∧ result'.success = false

theorem finishes_contractCall (gas : Int) (w : WorldState) :
    Finishes (messageFrame tx w) (finishContractCall tx gas) where
  outOfGas s := ⟨_, rfl, rfl⟩
  success result evm s h := by
    refine ⟨result, ?_, h, rfl⟩
    simp only [finishContractCall, h, if_true, modifyWorld, bind_apply, modify_apply, pure_apply]
    rfl
  failure result evm s h := by
    refine ⟨result, ?_, h⟩
    simp [finishContractCall, h, pure_apply]

theorem finishes_create (gas : Int) (a : Bytes) :
    Finishes (creationFrame tx a) (finishCreate gas a) where
  outOfGas s := ⟨_, rfl, rfl⟩
  success result evm s h := by
    refine ⟨{ result with contractAddress := some a }, ?_, h, rfl⟩
    simp only [finishCreate, h, if_true, modifyWorld, bind_apply, modify_apply, pure_apply]
    rfl
  failure result evm s h := by
    refine ⟨{ result with contractAddress := none }, ?_, h⟩
    simp [finishCreate, h, pure_apply]

theorem executed_frame (env : Env) (fuel : Nat) (gas : Int) {t : TopFrame} {w w' : WorldState}
    {finish : Option (ExecutionResult × EVM) → TxM ExecutionResult}
    (ht : Opens env tx sender s.world t w)
    (hpay : payValue w sender t.address tx.value = .ok w') (hfinish : Finishes t finish) :
    Executed env fuel tx sender gas s
      ((runFrame env fuel t.kind t.code (t.context tx sender gas) t.storage >>= finish)
        { s with world := w' }) := by
  have hframe := frame_end env fuel tx sender gas s t w'
  generalize hr : runFrame env fuel t.kind t.code (t.context tx sender gas) t.storage
    { s with world := w' } = r at hframe
  cases hframe with
  | @returned evm result s₁ hc hdata hgas hworld hlog hreverted =>
    rw [bind_of_ok hr]
    cases hsuccess : result.success with
    | false =>
      obtain ⟨result', hfin, hfail⟩ := hfinish.failure result evm s₁ hsuccess
      rw [hfin]
      rw [hsuccess] at hlog
      refine .failed ht hpay rfl (by rw [hc]; exact hlog) ?_ ?_ (by simp)
      · intro result'' s' h
        cases h
        exact hfail
      · intro s' h
        cases h
    | true =>
      obtain ⟨result', hfin, hok, hgas'⟩ := hfinish.success result evm s₁ hsuccess
      rw [hfin]
      rw [hsuccess] at hlog
      refine .succeeded ht hpay rfl hc hlog ?_ hok (hgas'.trans hgas) ?_
      · rw [hdata, hworld]
      · rw [hsuccess] at hreverted
        simpa using hreverted.symm
  | @outOfGas s' ending hlog hending =>
    rw [bind_of_ok hr]
    obtain ⟨result, hfin, hfail⟩ := hfinish.outOfGas s'
    rw [hfin]
    refine .failed ht hpay rfl hlog ?_ ?_ hending
    · intro result' s' h
      cases h
      exact hfail
    · intro s' h
      cases h
  | raised hlog hfuel hending =>
    rw [bind_of_error hr]
    refine .failed ht hpay rfl hlog ?_ ?_ hending
    · intro result s' h
      cases h
    · intro s' h
      cases h
      exact hfuel rfl

theorem executeContractCall_executed (hto : tx.to ≠ [])
    (hcode : (s.world.getAccount tx.to).code ≠ []) :
    Executed env fuel tx sender gas s (executeContractCall env fuel tx sender gas s) := by
  rw [executeContractCall, bind_of_ok (get_apply _)]
  cases hpay : payValue s.world sender tx.to tx.value with
  | error message =>
    rw [bind_of_error (sendValue_of_error hpay)]
    exact .refused rfl
  | ok w =>
    rw [bind_of_ok (sendValue_of_ok hpay)]
    have h := executed_frame env fuel gas (.message hto hcode) hpay
      (finishes_contractCall gas s.world)
    exact h

theorem executeCreate_executed (hto : tx.to = []) :
    Executed env fuel tx sender gas s (executeCreate env fuel tx sender gas s) := by
  rw [executeCreate]
  cases ha : computeContractAddress env sender tx.nonce with
  | error e => exact .refused rfl
  | ok a =>
    rw [bind_of_ok (show attempt (.ok a) s = .ok a s from rfl), modifyWorld,
      bind_of_ok (modify_apply _ _)]
    set s₁ : TxState := { s with world := s.world.addBalance a 0 } with hs₁
    cases hpay : payValue s₁.world sender a tx.value with
    | error message =>
      rw [bind_of_error (sendValue_of_error (s := s₁) hpay)]
      exact .refused rfl
    | ok w =>
      rw [bind_of_ok (sendValue_of_ok (s := s₁) hpay)]
      have h := executed_frame env fuel gas (.creation hto ha) hpay (finishes_create gas a)
      exact h

theorem executeTransaction_executed (env : Env) (fuel : Nat) (tx : Transaction) (sender : Bytes)
    (gas : Int) (s : TxState) :
    Executed env fuel tx sender gas s (executeTransaction env fuel tx sender gas s) := by
  rw [executeTransaction, bind_of_ok (get_apply _)]
  by_cases hto : tx.to = []
  · rw [if_pos hto]
    exact executeCreate_executed hto
  · rw [if_neg hto]
    by_cases hcode : (s.world.getAccount tx.to).code ≠ []
    · rw [if_pos hcode]
      exact executeContractCall_executed hto hcode
    · rw [if_neg hcode]
      exact executeValueTransfer_executed

/-- What the execution step has come to is one of these. -/
theorem executed_of_eq {r : EStateM.Result Abort TxState ExecutionResult}
    (h : executeTransaction env fuel tx sender gas s = r) : Executed env fuel tx sender gas s r :=
  h ▸ executeTransaction_executed env fuel tx sender gas s

end Ethereum
