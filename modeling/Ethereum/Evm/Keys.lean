import Ethereum.Evm.Words
import Ethereum.State.Keys

/-! Under which keys the frames of the machine add accounts. -/
namespace Ethereum

open Stateful WorldState

variable {S : Bytes → Prop} {P : WorldState → Prop} {env : Env} {w w' : WorldState}
  {evm evm' : EVM}

section World

variable (hP : Closed S P)
include hP

theorem WorldState.Closed.payValue {sender recipient : Bytes} {value : Int} (hsender : S sender)
    (hrecipient : 0 < value → S recipient) (hw : P w)
    (h : payValue w sender recipient value = .ok w') : P w' := by
  unfold Ethereum.payValue at h
  split at h
  · next hvalue => exact hP.transfer hsender (hrecipient hvalue) hw h
  · cases h
    exact hw

theorem WorldState.Closed.reserve {creator contractAddress : Bytes} (hcreator : S creator)
    (ha : S contractAddress) (hw : P w) : P (w.reserve creator contractAddress) :=
  hP.addBalance ha (hP.incrementNonce hcreator hw) 0

theorem WorldState.Closed.commit {p : Pending} (ha : S p.address) (hw : P w)
    (returnData : Bytes) (storage : Dict Int Int) : P (p.commit returnData storage w) := by
  cases p with
  | call q => exact hP.persistStorage ha hw storage
  | create q => exact hP.persistStorage ha (hP.setCode ha hw returnData) storage

end World

section Handlers

/-- The frame runs at an account that `S` holds of, and `P` holds of its world state. -/
def EVM.Holds (S : Bytes → Prop) (P : WorldState → Prop) (evm : EVM) : Prop :=
  S evm.context.address ∧ ∀ w, evm.worldState = some w → P w

theorem holds_of_frame (hcontext : evm'.context = evm.context)
    (hworld : evm'.worldState = evm.worldState) (h : evm.Holds S P) : evm'.Holds S P := by
  unfold EVM.Holds
  rw [hcontext, hworld]
  exact h

theorem holds_of_shell (hs : evm'.shell = evm.shell) (h : evm.Holds S P) : evm'.Holds S P :=
  holds_of_frame (congrArg Shell.context hs) (congrArg Shell.worldState hs) h

theorem maintains_of_keeps {α : Type} {x : EvmM α} (hx : Keeps EVM.shell x) :
    Maintains (fun _ => True) (EVM.Holds S P) x fun _ => True :=
  hx.maintains fun _ _ => holds_of_shell

theorem maintains_giveUp {α : Type} (value : Int) : Maintains (fun _ => True) (EVM.Holds S P)
    (do stackPush value; return none : EvmM (Option α)) fun _ => True :=
  (maintains_of_keeps (keeps_stackPush value)).bind fun _ _ => maintains_pure trivial

theorem maintains_setWorld (hw : P w) :
    Maintains (fun _ => True) (EVM.Holds S P) (setWorld w) fun _ => True := by
  apply maintains_modify
  intro evm h
  refine ⟨h.1, fun w' hw' => ?_⟩
  cases hw'
  exact hw

theorem maintains_useGas (amount : Int) :
    Maintains (fun _ => True) (EVM.Holds S P) (useGas amount) fun _ => True :=
  maintains_modify fun _ h => h

theorem holds_of_localEffect (heffect : LocalEffect evm evm') (h : evm.Holds S P) :
    evm'.Holds S P := by
  cases heffect with
  | quiet hs => exact holds_of_shell hs h
  | load key hs =>
    exact holds_of_frame (congrArg Shell.context hs) (congrArg Shell.worldState hs) h
  | store key value hs =>
    exact holds_of_frame (congrArg Shell.context hs) (congrArg Shell.worldState hs) h

variable (hS : ∀ a : Bytes, a.length = 20 → S a) (hP : Closed S P)
include hS hP

/-- `CALL` cuts a recipient of 20 bytes out of its operand. -/
theorem maintains_opCallStart :
    Maintains (fun _ => True) (EVM.Holds S P) (opCallStart env) fun _ => True := by
  have hpop : Maintains (fun _ => True) (EVM.Holds S P) stackPop fun _ => True :=
    maintains_of_keeps keeps_stackPop
  refine hpop.bind fun gas _ => hpop.bind fun addrInt _ => hpop.bind fun value _ =>
    hpop.bind fun argsOffset _ => hpop.bind fun argsLength _ => hpop.bind fun retOffset _ =>
    hpop.bind fun retLength _ => maintains_get.bind fun evm hevm => ?_
  split
  · exact maintains_giveUp 0
  · next world hworld =>
    refine (maintains_attempt _).bind fun addrBytes hbytes => ?_
    have htarget : S (addrBytes.drop 12) := by
      apply hS
      rw [List.length_drop, length_of_intToBytes hbytes]
    have hread : Keeps EVM.shell (readCalldata env argsOffset argsLength) :=
      Keeps.ite (keeps_liftMemory _) (keeps_pure _)
    refine (maintains_of_keeps hread).bind fun inputData _ => ?_
    dsimp only
    split
    · exact maintains_giveUp 0
    · next w' hpay =>
      have hw' : P w' := hP.payValue hevm.1 (fun _ => htarget) (hevm.2 world hworld) hpay
      refine (maintains_setWorld hw').bind fun _ _ => Maintains.ite (fun _ => ?_) fun _ =>
        maintains_pure trivial
      exact (maintains_useGas _).bind fun _ _ => (maintains_useGas _).bind fun _ _ =>
        maintains_giveUp 1

/-- `CREATE` pays an address of 20 bytes that it has computed. -/
theorem maintains_opCreateStart :
    Maintains (fun _ => True) (EVM.Holds S P) (opCreateStart env) fun _ => True := by
  have hpop : Maintains (fun _ => True) (EVM.Holds S P) stackPop fun _ => True :=
    maintains_of_keeps keeps_stackPop
  refine hpop.bind fun value _ => hpop.bind fun offset _ => hpop.bind fun size _ =>
    maintains_get.bind fun evm hevm => ?_
  split
  · exact maintains_giveUp 0
  · next world hworld =>
    refine (maintains_of_keeps (keeps_liftMemory _)).bind fun initCode _ => ?_
    refine (maintains_attempt _).bind fun contractAddress haddress => ?_
    have ha : S contractAddress := hS _ (length_of_computeContractAddress haddress)
    have hreserved : P (world.reserve evm.context.address contractAddress) :=
      hP.reserve hevm.1 ha (hevm.2 world hworld)
    refine (maintains_setWorld hreserved).bind fun _ _ => ?_
    dsimp only
    split
    · exact maintains_giveUp 0
    · next w' hpay =>
      have hw' : P w' := hP.payValue hevm.1 (fun _ => ha) hreserved hpay
      exact (maintains_setWorld hw').bind fun _ _ => maintains_pure trivial

theorem holds_begin (hrun : evm.running = true) (h : evm.Holds S P) :
    (final (begin env evm)).Holds S P := by
  refine final_begin (P := EVM.Holds S P) env hrun h h ?_
  intro opcode _ _ _
  have hcharge : (evm.charge opcode).Holds S P := h
  cases beginOp_effect env (evm.charge opcode) opcode with
  | inFrame hr heffect => exact holds_of_localEffect heffect hcharge
  | contract hcases _ =>
    rcases hcases with rfl | rfl
    · rw [beginOp_call, final_mapOk]
      exact (maintains_opCallStart hS hP _ hcharge).invariant
    · rw [beginOp_create, final_mapOk]
      exact (maintains_opCreateStart hS hP _ hcharge).invariant

/-- What modifications of such accounts keep holds of the ledger through all frames. -/
theorem frameInvariant_closed (env : Env) :
    FrameInvariant env (fun _ => True) (EVM.Holds S P) := by
  apply frameInvariant_world env
  · intro evm evm₁ p hrun hb
    exact hS _ (length_of_target hrun hb)
  · intro evm hrun haddress h
    exact (holds_begin hS hP hrun ⟨haddress, h⟩).2
  · intro p w returnData storage ha hw
    exact hP.commit ha hw returnData storage

end Handlers

end Ethereum
