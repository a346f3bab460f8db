import Ethereum.Evm.Reach
import Ethereum.Evm.Termination

/-! Bytecode that starts no frames ends for any amount of gas. -/
namespace Ethereum

open Stateful

/-- The computation raises exceptions only; it does not use up a step budget. -/
class Raises {σ α : Type} (x : EStateM Abort σ α) : Prop where
  isRaised : ∀ s e t, x s = .error e t → e.IsRaised

section Raises

variable {σ τ α β : Type}

instance (a : α) : Raises (pure a : EStateM Abort σ α) where
  isRaised _ _ _ h := by cases h

instance (e : PyException) : Raises (throw (.raised e) : EStateM Abort σ α) where
  isRaised := by
    rintro _ _ _ ⟨⟩
    exact isRaised_raised e

instance : Raises (get : EStateM Abort σ σ) where
  isRaised _ _ _ h := by cases h

instance (g : σ → σ) : Raises (modify g : EStateM Abort σ PUnit) where
  isRaised _ _ _ h := by cases h

instance (s : σ) : Raises (set s : EStateM Abort σ PUnit) where
  isRaised _ _ _ h := by cases h

instance (x : Except PyException α) : Raises (attempt x : EStateM Abort σ α) where
  isRaised _ _ _ h := isRaised_of_attempt h

instance raises_bind (x : EStateM Abort σ α) (k : α → EStateM Abort σ β) [hx : Raises x]
    [hk : ∀ a, Raises (k a)] : Raises (x >>= k) where
  isRaised := by
    intro s e t h
    rw [bind_apply] at h
    cases hr : x s with
    | ok a s' =>
      rw [hr] at h
      exact (hk a).isRaised s' e t h
    | error e' s' =>
      rw [hr] at h
      cases h
      exact hx.isRaised s e t hr

instance (c : Prop) [Decidable c] (x y : EStateM Abort σ α) [Raises x] [Raises y] :
    Raises (if c then x else y) := by
  split <;> infer_instance

instance (view : σ → τ) (put : τ → σ → σ) (x : EStateM Abort τ α) [hx : Raises x] :
    Raises (zoom view put x) where
  isRaised := by
    intro s e t h
    unfold zoom at h
    cases hr : x (view s) with
    | ok a s' =>
      rw [hr] at h
      cases h
    | error e' s' =>
      rw [hr] at h
      cases h
      exact hx.isRaised (view s) e s' hr

end Raises

section Handlers

variable (env : Env)

instance {α : Type} (e : EVMError) : Raises (raiseEvm e : EvmM α) := by
  unfold raiseEvm
  infer_instance

instance : Raises stackPop := by
  have h : ∀ evm : EVM, Raises (match evm.executionStack with
      | [] => raiseEvm (.stackUnderflow 1 0)
      | value :: rest => do
        modify fun evm : EVM => { evm with executionStack := rest }
        return value) := by
    intro evm
    split <;> infer_instance
  exact raises_bind get _

instance (value : Int) : Raises (stackPush value) := by
  unfold stackPush
  infer_instance

instance (depth : Nat) : Raises (stackPeek depth) := by
  have h : ∀ evm : EVM, Raises (match evm.executionStack[depth]? with
      | none => raiseEvm (.stackUnderflow (depth + 1) evm.executionStack.length)
      | some value => (return value : EvmM Int)) := by
    intro evm
    split <;> infer_instance
  exact raises_bind get _

instance (depth : Nat) : Raises (opSwap depth) := by
  refine @raises_bind _ _ _ get _ _ fun evm => ?_
  split <;> infer_instance

instance (event : Event) : Raises (emit event) := by
  unfold emit
  infer_instance

instance {α : Type} (x : EStateM Abort Memory α) [Raises x] : Raises (liftMemory x) := by
  unfold liftMemory
  infer_instance

instance (offset size : Int) : Raises (Memory.expandTo env offset size) := by
  unfold Memory.expandTo
  infer_instance

instance (offset : Int) : Raises (Memory.load env offset) := by
  unfold Memory.load
  infer_instance

instance (offset value : Int) : Raises (Memory.store env offset value) := by
  unfold Memory.store
  infer_instance

instance (offset value : Int) : Raises (Memory.store8 env offset value) := by
  unfold Memory.store8
  infer_instance

instance (offset size : Int) : Raises (Memory.readRange env offset size) := by
  unfold Memory.readRange
  infer_instance

instance (offset : Int) (data : Bytes) : Raises (Memory.writeRange env offset data) := by
  unfold Memory.writeRange
  infer_instance

instance (f : Int → Int → Int) : Raises (binaryOp f) := by
  unfold binaryOp
  infer_instance

instance (f : EVM → Int) : Raises (pushOf f) := by
  unfold pushOf
  infer_instance

instance (source : EVM → Bytes) : Raises (copyOp env source) := by
  unfold copyOp
  infer_instance

instance (destination : Int) : Raises (jumpTo destination) := by
  unfold jumpTo
  infer_instance

instance (opcode : Opcode) : Raises (localOp env opcode) := by
  cases opcode <;> simp only [localOp, opStop, opAdd, opMul, opSub, opDiv, opMod, opExp, opLt, opGt,
    opEq, opIszero, opAnd, opOr, opNot, opSha3, opAddress, opCaller, opCallvalue, opCalldataload,
    opCalldatasize, opCalldatacopy, opCodesize, opCodecopy, opPop, opPush, opDup, opMload, opMstore,
    opMstore8, opSload, opSstore, opJump, opJumpi, opMsize, opGas, opJumpdest, opReturn,
    opRevert] <;>
    infer_instance

end Handlers

section Ends

variable {env : Env} {evm evm' : EVM}

theorem isRaised_begin_of_leaf (hleaf : Leaf evm.code) (hrun : evm.running = true) {e : Abort}
    (h : begin env evm = .error e evm') : e.IsRaised := by
  obtain ⟨byte, hbyte⟩ := byte_of_running hrun
  obtain ⟨hcall, hcreate⟩ := hleaf byte (List.mem_of_getElem? hbyte)
  cases hop : Opcode.ofByte byte with
  | none =>
    rw [begin_of_unknown hbyte hop] at h
    cases h
    exact isRaised_raised _
  | some opcode =>
    by_cases hinvalid : opcode = .invalid
    · subst hinvalid
      rw [begin_of_invalid hbyte hop] at h
      cases h
    · rcases le_or_gt (gasCost opcode) evm.gasRemaining with hgas | hgas
      · have hlocal : opcode ≠ .create ∧ opcode ≠ .call := by
          constructor <;> rintro rfl <;> contradiction
        rw [begin_of_paid hbyte hop hinvalid hgas, beginOp_local hlocal.1 hlocal.2] at h
        cases hr : localOp env opcode (evm.charge opcode) with
        | ok u s =>
          rw [hr] at h
          cases h
        | error e' s =>
          rw [hr] at h
          cases h
          exact Raises.isRaised _ _ _ hr
      · rw [begin_of_unpaid hbyte hop hinvalid hgas] at h
        cases h
        exact isRaised_raised _

/-- A step budget slightly above the gas is never used up. -/
theorem runLoop_ends_of_leaf (fuel : Nat) (evm : EVM) (hleaf : Leaf evm.code)
    (hfuel : evm.gasRemaining.toNat + 2 ≤ fuel) : Ends (runLoop env fuel evm) := by
  induction fuel generalizing evm with
  | zero => omega
  | succ fuel ih =>
    cases hrun : evm.running with
    | false => exact ends_of_halted fuel hrun
    | true =>
      rw [runLoop_of_running hrun, iterate_eq, bind_apply, bind_apply]
      cases hb : begin env evm with
      | error e evm₁ =>
        intro e' evm' h
        cases h
        exact isRaised_begin_of_leaf hleaf hrun hb
      | ok child evm₁ =>
        obtain rfl := begin_of_leaf hleaf hrun hb
        have hcode : evm₁.code = evm.code := by
          have hframe := (frame_begin env hrun).1
          rwa [hb] at hframe
        exact ends_of_next hrun hb hfuel (ih evm₁ (hcode ▸ hleaf))

end Ends

end Ethereum
