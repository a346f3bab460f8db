import Ethereum.Evm.Bounded
import Ethereum.Evm.Script

/-! Termination. In range, an iteration halts the frame or burns gas, so a step budget
slightly above the gas is never used up. -/
namespace Ethereum

open Stateful

variable {env : Env} {evm evm' : EVM} {p : Pending}

/-- The three free opcodes that have a handler stop the frame. -/
theorem stopped_of_free {opcode : Opcode} {u : Unit} (h0 : gasCost opcode = 0)
    (hop : opcode ≠ .invalid) (h : localOp env opcode evm = .ok u evm') :
    evm'.stopped = true := by
  cases opcode with
  | stop =>
    cases h
    rfl
  | «return» | revert =>
    obtain ⟨offset, evm₁, -, h⟩ := ok_of_bind_apply h
    obtain ⟨size, evm₂, -, h⟩ := ok_of_bind_apply h
    obtain ⟨data, evm₃, -, h⟩ := ok_of_bind_apply h
    cases h
    rfl
  | invalid => exact absurd rfl hop
  | _ => simp [gasCost, gasSload, gasSstore, gasCreate, gasCallBase] at h0

/-- An iteration without a child frame halts or burns gas. -/
theorem begin_burns (hrun : evm.running = true) (h : begin env evm = .ok none evm') :
    evm'.stopped = true ∨ evm'.gasRemaining < evm.gasRemaining := by
  cases fetched env hrun with
  | unknown byte hb => rw [hb] at h; cases h
  | outOfGas opcode hgas hb => rw [hb] at h; cases h
  | invalid hb =>
    rw [hb] at h
    cases h
    exact .inl rfl
  | paid opcode hop hgas hbyte hb =>
    rw [hb] at h
    by_cases h0 : gasCost opcode = 0
    · have hc : opcode ≠ .create := by rintro rfl; simp [gasCost, gasCreate] at h0
      have hl : opcode ≠ .call := by rintro rfl; simp [gasCost, gasCallBase] at h0
      rw [beginOp_local hc hl] at h
      obtain ⟨_, hlocal, -⟩ := ok_of_mapOk h
      exact .inl (stopped_of_free h0 hop hlocal)
    · have hgas' := gas_beginOp env (evm.charge opcode) opcode
      rw [h, final_ok] at hgas'
      have := gasCost_nonneg opcode
      refine .inr ?_
      rw [hgas']
      simp only [EVM.charge]
      omega

/-- Starting a child frame burns gas in the parent, and the child gets no more than is left. -/
theorem begin_child_burns (hrun : evm.running = true) (h : begin env evm = .ok (some p) evm') :
    p.gas ≤ evm'.gasRemaining ∧ evm'.gasRemaining < evm.gasRemaining := by
  refine ⟨(childGas_of_begin hrun h).le, ?_⟩
  obtain ⟨opcode, _, _, _, _, _, _, -, hs, -, -, hop⟩ := childOf_of_begin hrun h
  rw [show evm'.gasRemaining = _ from congrArg Shell.gasRemaining hs]
  change evm.gasRemaining - gasCost opcode < evm.gasRemaining
  rcases hop with rfl | rfl <;> simp only [gasCost, gasCallBase, gasCreate] <;> omega

theorem isRaised_begin (hrun : evm.running = true) (hr : evm.InRange) {e : Abort}
    (h : begin env evm = .error e evm') : e.IsRaised := by
  cases fetched env hrun with
  | unknown byte hb => rw [hb] at h; cases h; exact isRaised_raised _
  | outOfGas opcode hgas hb => rw [hb] at h; cases h; exact isRaised_raised _
  | invalid hb => rw [hb] at h; cases h
  | paid opcode hop hgas hbyte hb =>
    rw [hb] at h
    obtain ⟨byte, hbyte⟩ := hbyte
    have hpush : ∀ n, opcode = .push n → n ≤ 32 := fun n hn => pushSize_le (hn ▸ hbyte)
    exact (range_beginOp env hpush _ (inRange_charge hr hgas)).error _ _ h

/-- The loop ends without running out of steps. -/
def Ends (r : LoopResult) : Prop := ∀ e evm, r = .error e evm → e.IsRaised

theorem isRaised_conclude {c : LoopResult} {gas : Int} {e : Abort} (hc : Ends c)
    (h : conclude gas c = .error e evm) : e.IsRaised := by
  rintro rfl
  exact hc _ _ (conclude_eq_outOfFuel h) rfl

theorem isRaised_settle {c : LoopResult} {e : Abort} (hr : evm.InRange) (hp : p.InRange)
    (hc : Ends c) (h : settle env p (conclude p.gas c) evm = .error e evm') :
    e.IsRaised :=
  (own_settle (E := Abort.IsRaised) isRaised_raised _ _ hp (fun _ _ => isRaised_conclude hc) evm
    ⟨hr.stack, hr.memory, hr.returnData⟩).error _ _ h

theorem ends_of_halted (fuel : Nat) {evm : EVM} (h : evm.running = false) :
    Ends (runLoop env (fuel + 1) evm) := by
  rw [runLoop_of_halted h]
  intro e evm' hend
  cases hend

theorem gas_nonneg_of_begin {child : Option Pending} (hrun : evm.running = true)
    (h : begin env evm = .ok child evm') : 0 ≤ evm'.gasRemaining := by
  obtain ⟨_, opcode, -, -, ⟨-, -, rfl⟩ | ⟨-, hgas, hb⟩⟩ := begin_eq_ok hrun h
  · exact le_rfl
  · have hspent := gas_beginOp env (evm.charge opcode) opcode
    rw [hb, final_ok] at hspent
    rw [hspent]
    exact sub_nonneg_of_le hgas

/-- An iteration without a child frame halts, or leaves less gas than steps. -/
theorem ends_of_next {fuel : Nat} (hrun : evm.running = true) (hb : begin env evm = .ok none evm')
    (hfuel : evm.gasRemaining.toNat + 2 ≤ fuel + 1)
    (ih : evm'.gasRemaining.toNat + 2 ≤ fuel → Ends (runLoop env fuel evm')) :
    Ends (runLoop env fuel evm') := by
  rcases begin_burns hrun hb with hstop | hlt
  · have hhalt : evm'.running = false := by simp [EVM.running, hstop]
    obtain ⟨n, rfl⟩ : ∃ n, fuel = n + 1 := ⟨fuel - 1, by omega⟩
    exact ends_of_halted n hhalt
  · have hpaid := gas_nonneg_of_begin hrun hb
    apply ih
    omega

/-- Every frame in range ends, however much its code loops and nests calls. -/
theorem runLoop_ends (fuel : Nat) (evm : EVM) (hr : evm.InRange)
    (hfuel : evm.gasRemaining.toNat + 2 ≤ fuel) : Ends (runLoop env fuel evm) := by
  induction fuel generalizing evm with
  | zero => omega
  | succ fuel ih =>
    have h0 := hr.gas.nonneg
    cases hrun : evm.running with
    | false => exact ends_of_halted fuel hrun
    | true =>
      rw [runLoop, bind_of_ok (get_apply _), hrun, if_pos rfl, iterate_eq, bind_apply, bind_apply]
      obtain ⟨hr₁, -, hp⟩ := begin_inRange env hrun hr
      cases hb : begin env evm with
      | error e evm₁ =>
        intro e' evm' h
        cases h
        exact isRaised_begin hrun hr hb
      | ok child evm₁ =>
        rw [hb, final_ok] at hr₁
        have h1 := hr₁.gas.nonneg
        cases child with
        | none => exact ends_of_next hrun hb hfuel (ih evm₁ hr₁)
        | some p =>
          obtain ⟨hle, hlt⟩ := begin_child_burns hrun hb
          have hpr := hp p evm₁ hb
          have hgas : p.child.gasRemaining = p.gas := rfl
          have hchild := ih p.child hpr.child (by omega)
          dsimp only
          cases hs : settle env p (conclude p.gas (runLoop env fuel p.child)) evm₁ with
          | error e evm₂ =>
            rw [Pending.gas] at hs
            rw [hs]
            intro e' evm' h
            cases h
            exact isRaised_settle hr₁ hpr hchild hs
          | ok u evm₂ =>
            obtain ⟨hr₂, hle₂⟩ := inRange_settle hr₁ hpr (childGas_of_begin hrun hb)
              (run_runLoop env fuel p.child)
              (run_inRange (run_runLoop env fuel p.child) hpr.child) hs
            rw [Pending.gas] at hs
            rw [hs]
            exact ih evm₂ hr₂ (by omega)

end Ethereum
