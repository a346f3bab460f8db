import Ethereum.Evm.Settle

/-! Runs of a frame and of all frames below it, without the fuel of the interpreter. -/
namespace Ethereum

open Stateful

abbrev LoopResult := EStateM.Result Abort EVM Unit

/-- The loop of `execute` from a state to its end, child frames included. A run may be
cut at any point, as the interpreter does when its fuel ends. -/
inductive Run (env : Env) : EVM → LoopResult → Prop
  | cut {evm} : Run env evm (.error .outOfFuel evm)
  | halted {evm} (h : evm.running = false) : Run env evm (.ok () evm)
  | raised {evm evm' e} (hrun : evm.running = true) (hb : begin env evm = .error e evm') :
      Run env evm (.error e evm')
  | step {evm evm' r} (hrun : evm.running = true) (hb : begin env evm = .ok none evm')
      (h : Run env evm' r) : Run env evm r
  | child {evm evm₁ evm' p c r} (hrun : evm.running = true)
      (hb : begin env evm = .ok (some p) evm₁) (hc : Run env p.child c)
      (hs : settle env p (conclude p.gas c) evm₁ = .ok () evm') (h : Run env evm' r) :
      Run env evm r
  | childRaised {evm evm₁ evm' p c e} (hrun : evm.running = true)
      (hb : begin env evm = .ok (some p) evm₁) (hc : Run env p.child c)
      (hs : settle env p (conclude p.gas c) evm₁ = .error e evm') :
      Run env evm (.error e evm')

variable {env : Env}

/-- Every result of the interpreter is that of a run. -/
theorem run_runLoop (env : Env) (fuel : Nat) (evm : EVM) :
    Run env evm (runLoop env fuel evm) := by
  induction fuel generalizing evm with
  | zero => exact .cut
  | succ fuel ih =>
    rw [runLoop, bind_of_ok (get_apply _)]
    cases hrun : evm.running with
    | false => exact .halted hrun
    | true =>
      rw [if_pos rfl, iterate_eq, bind_apply, bind_apply]
      cases hb : begin env evm with
      | error e evm' => exact .raised hrun hb
      | ok p evm₁ =>
        cases p with
        | none => exact .step hrun hb (ih evm₁)
        | some p =>
          dsimp only
          cases hs : settle env p (conclude p.gas (runLoop env fuel p.child)) evm₁ with
          | error e evm' =>
            rw [Pending.gas] at hs
            rw [hs]
            exact .childRaised hrun hb (ih p.child) hs
          | ok u evm' =>
            rw [Pending.gas] at hs
            rw [hs]
            exact .child hrun hb (ih p.child) hs (ih evm')

/-- What holds of every half of an iteration and of every child frame, and composes, holds
of every run. -/
theorem Run.of_steps {R : EVM → EVM → Prop} {evm : EVM} {r : LoopResult}
    (hrefl : ∀ evm, R evm evm)
    (htrans : ∀ {evm evm' evm''}, R evm evm' → R evm' evm'' → R evm evm'')
    (hbegin : ∀ {evm}, evm.running = true → R evm (final (begin env evm)))
    (hchild : ∀ {evm evm₁ p c}, evm.running = true → begin env evm = .ok (some p) evm₁ →
      Run env p.child c → R p.child (final c) →
      R evm₁ (final (settle env p (conclude p.gas c) evm₁)))
    (h : Run env evm r) : R evm (final r) := by
  have hstep : ∀ {evm x}, evm.running = true → begin env evm = x → R evm (final x) := by
    intro evm x hrun hb
    subst hb
    exact hbegin hrun
  induction h with
  | cut => exact hrefl _
  | halted _ => exact hrefl _
  | raised hrun hb => exact hstep hrun hb
  | step hrun hb _ ih => exact htrans (hstep hrun hb) ih
  | child hrun hb hc hs _ ihc ih =>
    have hsettle := hchild hrun hb hc ihc
    rw [hs] at hsettle
    exact htrans (htrans (hstep hrun hb) hsettle) ih
  | childRaised hrun hb hc hs ihc =>
    have hsettle := hchild hrun hb hc ihc
    rw [hs] at hsettle
    exact htrans (hstep hrun hb) hsettle

theorem Run.of_error {evm evm' : EVM} {r : LoopResult} {e : Abort} (h : Run env evm r)
    (hrun : evm.running = true) (hb : begin env evm = .error e evm') :
    r = .error .outOfFuel evm ∨ r = .error e evm' := by
  cases h with
  | cut => exact .inl rfl
  | halted hhalted => rw [hhalted] at hrun; cases hrun
  | raised _ hb' => cases hb.symm.trans hb'; exact .inr rfl
  | step _ hb' _ => cases hb.symm.trans hb'
  | child _ hb' _ _ _ => cases hb.symm.trans hb'
  | childRaised _ hb' _ _ => cases hb.symm.trans hb'

theorem Run.of_ok {evm evm' : EVM} {r : LoopResult} (h : Run env evm r)
    (hrun : evm.running = true) (hb : begin env evm = .ok none evm') :
    r = .error .outOfFuel evm ∨ Run env evm' r := by
  cases h with
  | cut => exact .inl rfl
  | halted hhalted => rw [hhalted] at hrun; cases hrun
  | raised _ hb' => cases hb.symm.trans hb'
  | step _ hb' hrest => cases hb.symm.trans hb'; exact .inr hrest
  | child _ hb' _ _ _ => cases hb.symm.trans hb'
  | childRaised _ hb' _ _ => cases hb.symm.trans hb'

theorem Run.of_halted {evm : EVM} {r : LoopResult} (h : Run env evm r)
    (hhalted : evm.running = false) : r = .error .outOfFuel evm ∨ r = .ok () evm := by
  have hnot : ¬ evm.running = true := by simp [hhalted]
  cases h with
  | cut => exact .inl rfl
  | halted _ => exact .inr rfl
  | raised hrun _ => exact absurd hrun hnot
  | step hrun _ _ => exact absurd hrun hnot
  | child hrun _ _ _ _ => exact absurd hrun hnot
  | childRaised hrun _ _ _ => exact absurd hrun hnot

theorem final_conclude (gas : Int) (c : LoopResult) :
    (final (conclude gas c)).worldState = (final c).worldState ∧
      (final (conclude gas c)).log = (final c).log ∧
      (final (conclude gas c)).storage = (final c).storage := by
  unfold conclude
  split <;> exact ⟨rfl, rfl, rfl⟩

/-- A parent continues with the world state of its child, or commits a success on top of it. -/
theorem merge_conclude (p : Pending) (c : LoopResult) :
    p.merge (conclude p.gas c) = (final c).worldState ∨ ∃ child, c = .ok () child ∧
      p.merge (conclude p.gas c) =
        child.worldState.map (p.commit child.returnData child.storage) := by
  cases c with
  | error e child =>
    refine .inl ?_
    unfold conclude
    split
    · contradiction
    · next he => cases he; rfl
    · next he => cases he; rfl
  | ok u child =>
    cases hreverted : child.reverted with
    | true => exact .inl (by simp [conclude, Pending.merge, hreverted])
    | false => exact .inr ⟨child, rfl, by simp [conclude, Pending.merge, hreverted]⟩

theorem merge_of_reverted (p : Pending) {child : EVM} (h : child.reverted = true) :
    p.merge (conclude p.gas (.ok () child)) = child.worldState := by
  simp [conclude, Pending.merge, h]

theorem conclude_eq_ok {gas : Int} {c : LoopResult} {result : ExecutionResult} {evm : EVM}
    (h : conclude gas c = .ok result evm) :
    c = .ok () evm ∧ result =
      { success := !evm.reverted, returnData := evm.returnData,
        gasUsed := gas - evm.gasRemaining, gasRemaining := evm.gasRemaining } := by
  unfold conclude at h
  split at h
  · cases h
    exact ⟨rfl, rfl⟩
  · cases h
  · cases h

theorem conclude_eq_outOfFuel {gas : Int} {c : LoopResult} {evm : EVM}
    (h : conclude gas c = .error .outOfFuel evm) : c = .error .outOfFuel evm := by
  unfold conclude at h
  split at h
  · cases h
  · cases h
  · cases h
    rfl

end Ethereum
