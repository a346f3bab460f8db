import Ethereum.Core.StateTransition
import Ethereum.Evm.Boundaries
import Ethereum.Evm.Script

/-! What becomes of a caller whose callee fails. -/
namespace Ethereum

open Stateful

/-- The two failures that `_op_call` and `_op_create` turn into a zero. -/
def Caught (o : Outcome) : Prop := endingOf o = .failure ∨ endingOf o = .outOfGas

/-- A caller after a failed child has been caught. -/
def EVM.afterFailure (evm : EVM) (p : Pending) (o : Outcome) : EVM :=
  { evm with
    executionStack := 0 :: evm.executionStack
    gasRemaining := evm.gasRemaining - p.charge o
    worldState := (final o).worldState
    log := (final o).log ++ [.leave p.kind (endingOf o)] }

variable {env : Env} {fuel : Nat} {evm evm' : EVM} {p : Pending} {o : Outcome}

theorem settle_of_caught (hstack : evm.executionStack.length < maxStackDepth) (ho : Caught o) :
    settle env p o evm = .ok () (evm.afterFailure p o) := by
  cases o with
  | ok result child =>
    have hfailed : result.success = false := by
      cases h : result.success with
      | false => rfl
      | true => simp [Caught, endingOf, h] at ho
    cases p with
    | call q =>
      simp only [settle, opCallFinish, hfailed, Bool.false_eq_true, if_false]
      rw [joinChild, useGas, bind_of_ok (modify_apply _ _), bind_of_ok (modify_apply _ _)]
      refine (stackPush_of_lt (by exact hstack)).trans ?_
      simp [EVM.afterFailure, Pending.charge, hfailed, endingOf, Pending.kind]
    | create q =>
      simp only [settle, opCreateFinish, hfailed, Bool.false_eq_true, if_false]
      rw [joinChild, useGas, bind_of_ok (modify_apply _ _), bind_of_ok (modify_apply _ _)]
      refine (stackPush_of_lt (by exact hstack)).trans ?_
      simp [EVM.afterFailure, Pending.charge, hfailed, endingOf, Pending.kind]
  | error e child =>
    obtain ⟨needed, remaining, rfl⟩ : ∃ needed remaining,
        e = .raised (.evmError (.outOfGas needed remaining)) := by
      by_contra hne
      have hend := endingOf_raised child fun needed remaining he =>
        hne ⟨needed, remaining, he⟩
      simp [Caught, hend] at ho
    cases p with
    | call q =>
      simp only [settle, opCallFinish]
      rw [joinChild, useGas, bind_of_ok (modify_apply _ _), bind_of_ok (modify_apply _ _)]
      exact stackPush_of_lt (by exact hstack)
    | create q =>
      simp only [settle, opCreateFinish]
      rw [joinChild, bind_of_ok (modify_apply _ _)]
      refine (stackPush_of_lt (by exact hstack)).trans ?_
      simp [EVM.afterFailure, Pending.charge, endingOf, Pending.kind]

/-- Any other exception passes through. -/
theorem settle_of_raised {e : Abort} {child : EVM} (h : endingOf (.error e child) = .raised) :
    ∃ evm', settle env p (.error e child) evm = .error e evm' := by
  have hsettle : settle env p (.error e child) = (do joinChild p.kind .raised child; throw e) := by
    generalize ho : (EStateM.Result.error e child : Outcome) = o at h
    cases p with
    | call q =>
      simp only [settle]
      unfold opCallFinish
      split
      · cases ho
      · cases h
      · cases ho; rfl
    | create q =>
      simp only [settle]
      unfold opCreateFinish
      split
      · cases ho
      · cases h
      · cases ho; rfl
  exact ⟨_, by rw [hsettle, joinChild, bind_of_ok (modify_apply _ _), throw_apply]⟩

/-- The frame ended without success, within the step budget. -/
structure Failed (o : Outcome) : Prop where
  ending : endingOf o ≠ .success
  fuel : ∀ child, o ≠ .error .outOfFuel child

/-- The opcode has pushed zero for its child and the frame goes on behind it. -/
structure Continues (env : Env) (fuel : Nat) (evm evm₁ : EVM) (p : Pending) (evm' : EVM) :
    Prop where
  completes : iterate env (execute env fuel) evm = .ok () evm'
  stack : evm'.executionStack = 0 :: evm₁.executionStack
  programCounter : evm'.programCounter = evm.programCounter + 1
  stopped : evm'.stopped = evm.stopped
  gasRemaining : evm'.gasRemaining = evm₁.gasRemaining - p.charge (execute env fuel p.child)
  resumes : runLoop env (fuel + 1) evm = runLoop env fuel evm'

theorem endingOf_cases {o : Outcome} (h : Failed o) :
    Caught o ∨ endingOf o = .raised := by
  have := h.ending
  unfold Caught
  cases he : endingOf o <;> simp_all

theorem iterate_of_child (h : begin env evm = .ok (some p) evm') (exec : EVM → Outcome) :
    iterate env exec evm = settle env p (exec p.child) evm' := by
  rw [iterate_eq, bind_of_ok h]

theorem continues_of_caught (hstack : evm.executionStack.length ≤ maxStackDepth)
    (hrun : evm.running = true) (hbegin : begin env evm = .ok (some p) evm')
    (ho : Caught (execute env fuel p.child)) :
    Continues env fuel evm evm' p (evm'.afterFailure p (execute env fuel p.child)) := by
  obtain ⟨_, _, _, _, _, _, _, -, -, hlt, -⟩ := childOf_of_begin hrun hbegin
  obtain ⟨hpc, hstopped⟩ := control_of_begin hrun hbegin
  have hcompletes := (iterate_of_child hbegin (execute env fuel)).trans
    (settle_of_caught (hlt.trans_le hstack) ho)
  exact ⟨hcompletes, rfl, hpc, hstopped, rfl, runLoop_of_ok hrun hcompletes⟩

/-- An exception that the opcode does not catch ends the caller's `execute()`. -/
theorem execute_of_raised (hrun : evm.running = true) (hbegin : begin env evm = .ok (some p) evm')
    (h : endingOf (execute env fuel p.child) = .raised) :
    ∃ e child evm'', execute env fuel p.child = .error e child ∧
      iterate env (execute env fuel) evm = .error e evm'' ∧
      execute env (fuel + 1) evm = .error e evm'' := by
  cases ho : execute env fuel p.child with
  | ok result child =>
    rw [ho, endingOf] at h
    split at h <;> cases h
  | error e child =>
    rw [ho] at h
    obtain ⟨evm'', hsettle⟩ : ∃ evm'', settle env p (.error e child) evm' = .error e evm'' :=
      settle_of_raised h
    have hiterate : iterate env (execute env fuel) evm = .error e evm'' := by
      rw [iterate_of_child hbegin, ho, hsettle]
    refine ⟨e, child, evm'', rfl, hiterate, ?_⟩
    rw [execute, runLoop_of_error hrun hiterate, conclude]
    rintro needed remaining rfl
    cases h

/-- A failing child is a zero on the caller's stack exactly when it ends by `REVERT`,
`INVALID` or out of gas. Every other exception ends the caller as well. -/
theorem failing_child_iff (env : Env) (fuel : Nat) (evm evm₁ : EVM) (p : Pending)
    (hstack : evm.executionStack.length ≤ maxStackDepth) (hrun : evm.running = true)
    (hbegin : begin env evm = .ok (some p) evm₁) (hfailed : Failed (execute env fuel p.child)) :
    ((∃ evm', Continues env fuel evm evm₁ p evm') ↔ Caught (execute env fuel p.child)) ∧
      (¬ Caught (execute env fuel p.child) → ∃ e child evm',
        execute env fuel p.child = .error e child ∧ execute env (fuel + 1) evm = .error e evm') := by
  refine ⟨⟨fun ⟨evm', hcontinues⟩ => ?_,
    fun h => ⟨_, continues_of_caught hstack hrun hbegin h⟩⟩,
    fun h => ?_⟩
  · rcases endingOf_cases hfailed with h | h
    · exact h
    · obtain ⟨e, child, evm'', -, hraised, -⟩ := execute_of_raised hrun hbegin h
      rw [hcontinues.completes] at hraised
      cases hraised
  · obtain ⟨e, child, evm', ho, -, hescapes⟩ :=
      execute_of_raised hrun hbegin ((endingOf_cases hfailed).resolve_left h)
    exact ⟨e, child, evm', ho, hescapes⟩

/-- A frame that is about to call the sample callee with 1000 gas. -/
def callingFrame (value : Int) (calleeCode : Bytes) : EVM :=
  { EVM.init [0xf1, 0x00] (sampleContext 50000) .empty (some (sampleWorld [] calleeCode)) [] with
    executionStack := [1000, intFromBytes sampleCallee, value, 0, 0, 0, 0] }

theorem failing_child_iff_invalid : ∃ p evm₁ evm',
    begin sampleEnv (callingFrame 0 [0xfe]) = .ok (some p) evm₁ ∧
      Continues sampleEnv 50 (callingFrame 0 [0xfe]) evm₁ p evm' := by
  obtain ⟨q, evm₁, hbegin, hq⟩ := exists_of_returns
    (p := fun (q : Option Pending) _ => q.elim false fun p =>
      decide (endingOf (execute sampleEnv 50 p.child) = .failure))
    (r := begin sampleEnv (callingFrame 0 [0xfe])) (by decide +kernel)
  cases q with
  | none => cases hq
  | some p =>
    have hfailure := of_decide_eq_true hq
    have hfailed : Failed (execute sampleEnv 50 p.child) := by
      refine ⟨by simp [hfailure], fun child ho => ?_⟩
      rw [ho] at hfailure
      cases hfailure
    obtain ⟨evm', hcontinues⟩ := (failing_child_iff sampleEnv 50 (callingFrame 0 [0xfe]) evm₁ p
      (by decide) (by decide) hbegin hfailed).1.mpr (.inl hfailure)
    exact ⟨p, evm₁, evm', hbegin, hcontinues⟩

/-- A callee that pops from an empty stack takes its caller down. -/
theorem failing_child_escapes : ∃ evm', execute sampleEnv 100
    (EVM.init (callCode sampleCallee 0 [0x00]) (sampleContext 50000) .empty
      (some (sampleWorld [] [0x01])) []) =
    .error (.raised (.evmError (.stackUnderflow 1 0))) evm' :=
  exists_of_errorOf (by decide +kernel)

end Ethereum
