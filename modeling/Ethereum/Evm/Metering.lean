import Ethereum.Evm.Divergence
import Ethereum.Evm.Termination

/-! Gas as a budget. Below 2^256 it bounds a frame and everything below it, and runs out. -/
namespace Ethereum

open Stateful Relation

variable {env : Env} {evm evm' start : EVM}

/-- A frame in range that has at most the gas it was started with. -/
structure EVM.Metered (evm : EVM) : Prop where
  inRange : evm.InRange
  le : evm.gasRemaining ≤ evm.context.gas

theorem metered_begin (env : Env) (hrun : evm.running = true) (h : evm.Metered) :
    (final (begin env evm)).Metered := by
  obtain ⟨hr, hle, -⟩ := begin_inRange env hrun h.inRange
  refine ⟨hr, ?_⟩
  rw [(frame_begin env hrun).2]
  exact hle.trans h.le

theorem metered_child {p : Pending} (hrun : evm.running = true) (h : evm.Metered)
    (hb : begin env evm = .ok (some p) evm') : p.child.Metered :=
  ⟨((begin_inRange env hrun h.inRange).2.2 p evm' hb).child, (gas_of_context hrun hb).ge⟩

theorem metered_settle {p : Pending} {c : LoopResult} {evm₁ : EVM} (hrun : evm.running = true)
    (h : evm.Metered) (hb : begin env evm = .ok (some p) evm₁) (hc : Run env p.child c) :
    (final (settle env p (conclude p.gas c) evm₁)).Metered ∧
      (final (settle env p (conclude p.gas c) evm₁)).gasRemaining ≤ evm₁.gasRemaining := by
  have hpending := (begin_inRange env hrun h.inRange).2.2 p evm₁ hb
  have hfirst := metered_begin env hrun h
  rw [hb, final_ok] at hfirst
  obtain ⟨hr, hle⟩ := inRange_final_settle hfirst.inRange hpending (childGas_of_begin hrun hb) hc
    (run_inRange hc hpending.child)
  refine ⟨⟨hr, ?_⟩, hle⟩
  rw [(settle_settled env p (conclude p.gas c) evm₁).context]
  exact hle.trans hfirst.le

theorem metered_next (h : evm.Metered) (hn : Next env evm evm') :
    evm'.Metered ∧ evm'.gasRemaining ≤ evm.gasRemaining := by
  cases hn with
  | step hrun hb =>
    have hfirst := metered_begin env hrun h
    have hle := (begin_inRange env hrun h.inRange).2.1
    rw [hb] at hfirst hle
    exact ⟨hfirst, hle⟩
  | enter hrun hb =>
    obtain ⟨hle, hlt⟩ := begin_child_burns hrun hb
    exact ⟨metered_child hrun h hb, hle.trans hlt.le⟩
  | resume hrun hb hc hs =>
    obtain ⟨hsecond, hle⟩ := metered_settle hrun h hb hc
    rw [hs] at hsecond hle
    exact ⟨hsecond, hle.trans (begin_child_burns hrun hb).2.le⟩

theorem Reaches.metered (h : Reaches env start evm) (h0 : start.Metered) : evm.Metered :=
  h.invariant h0 fun hm hn => (metered_next hm hn).1

theorem Passes.metered (h : Passes env start evm) (h0 : start.Metered) : evm.Metered := by
  cases h with
  | head h => exact h.metered h0
  | begun h hrun => exact metered_begin env hrun (h.metered h0)
  | settled h hrun hb hc => exact (metered_settle hrun (h.metered h0) hb hc).1

/-- With gas below 2^256, every frame of an execution stays between zero and the gas it was
started with, gives its children no more than it has, and never gains gas. -/
theorem gas_bounded (env : Env) (code : Bytes) (context : ExecutionContext)
    (storage : Dict Int Int) (world : Option WorldState)
    (hr : (EVM.init code context storage world []).InRange) :
    (∀ evm, Passes env (EVM.init code context storage world []) evm →
      0 ≤ evm.gasRemaining ∧ evm.gasRemaining ≤ evm.context.gas) ∧
    ∀ evm, Reaches env (EVM.init code context storage world []) evm →
      (∀ evm', Next env evm evm' → evm'.gasRemaining ≤ evm.gasRemaining) ∧
        ∀ p evm₁, evm.running = true → begin env evm = .ok (some p) evm₁ →
          p.child.gasRemaining = p.child.context.gas ∧
            p.child.gasRemaining ≤ evm₁.gasRemaining := by
  have h0 : (EVM.init code context storage world []).Metered := ⟨hr, le_rfl⟩
  refine ⟨fun evm h => ⟨(h.metered h0).inRange.gas.nonneg, (h.metered h0).le⟩,
    fun evm h => ⟨?_, ?_⟩⟩
  · intro evm' hn
    exact (metered_next (h.metered h0) hn).2
  · intro p evm₁ hrun hb
    exact ⟨(gas_of_context hrun hb).symm, (begin_child_burns hrun hb).1⟩

/-- An iteration halts its frame or burns gas, and a child starts below its parent. -/
theorem next_burns (h : evm.Metered) (hn : Next env evm evm') :
    evm'.stopped = true ∨ evm'.gasRemaining < evm.gasRemaining := by
  cases hn with
  | step hrun hb => exact begin_burns hrun hb
  | enter hrun hb =>
    obtain ⟨hle, hlt⟩ := begin_child_burns hrun hb
    exact .inr (hle.trans_lt hlt)
  | resume hrun hb hc hs =>
    have hle := (metered_settle hrun h hb hc).2
    rw [hs] at hle
    exact .inr (hle.trans_lt (begin_child_burns hrun hb).2)

/-- There is no endless sequence of loop heads, through whatever frames. -/
theorem accessible_of_metered (h : evm.Metered) :
    Acc (fun evm' evm => Next env evm evm') evm := by
  have hbound : ∀ n : Nat, ∀ evm : EVM, evm.Metered → evm.gasRemaining < n →
      Acc (fun evm' evm => Next env evm evm') evm := by
    intro n
    induction n with
    | zero =>
      intro evm h hlt
      have := h.inRange.gas.nonneg
      omega
    | succ n ih =>
      intro evm h hlt
      constructor
      intro evm' hn
      have h' := (metered_next h hn).1
      rcases next_burns h hn with hstop | hburn
      · constructor
        intro evm'' hn'
        have hrun : evm'.running = true := by cases hn' <;> assumption
        simp [EVM.running, hstop] at hrun
      · exact ih evm' h' (by omega)
  have h0 := h.inRange.gas.nonneg
  exact hbound (evm.gasRemaining.toNat + 1) evm h (by omega)

/-- With gas below 2^256 every execution ends: an opcode that does not halt its frame
burns gas, and a child starts with less than its parent had. -/
theorem execution_terminates (env : Env) (code : Bytes) (context : ExecutionContext)
    (storage : Dict Int Int) (world : Option WorldState)
    (hr : (EVM.init code context storage world []).InRange) :
    (∀ fuel evm, context.gas.toNat + 2 ≤ fuel →
      execute env fuel (EVM.init code context storage world []) ≠ .error .outOfFuel evm) ∧
    Acc (fun evm' evm => Next env evm evm') (EVM.init code context storage world []) ∧
    ∀ evm, Reaches env (EVM.init code context storage world []) evm →
      (∀ evm', Next env evm evm' → evm'.stopped = true ∨ evm'.gasRemaining < evm.gasRemaining) ∧
        ∀ p evm₁, evm.running = true → begin env evm = .ok (some p) evm₁ →
          p.child.gasRemaining < evm.gasRemaining := by
  have h0 : (EVM.init code context storage world []).Metered := ⟨hr, le_rfl⟩
  refine ⟨fun fuel evm hfuel h => ?_, accessible_of_metered h0, fun evm h => ⟨?_, ?_⟩⟩
  · exact runLoop_ends fuel _ hr hfuel _ _ (conclude_eq_outOfFuel h) rfl
  · intro evm' hn
    exact next_burns (h.metered h0) hn
  · intro p evm₁ hrun hb
    obtain ⟨hle, hlt⟩ := begin_child_burns hrun hb
    exact hle.trans_lt hlt

theorem inRange_sampleStart {code : Bytes} {gas : Int} (hcode : Short code) (hgas : Word gas) :
    (EVM.init code (sampleContext gas) .empty (some (sampleWorld code [])) []).InRange where
  stack := fun _ h => absurd h List.not_mem_nil
  memory := short_nil
  storage := wordValued_empty
  gas := hgas
  code := hcode
  returnData := short_nil
  caller := show sampleSender.length ≤ 32 by decide
  address := show sampleContract.length ≤ 32 by decide
  value := word_zero
  data := short_nil
  shared := by
    refine ⟨fun w h => ?_, fun _ _ h => absurd h List.not_mem_nil⟩
    cases h
    apply inRange_of_entries
    intro e he
    simp only [sampleWorld, List.mem_cons, List.not_mem_nil, or_false] at he
    rcases he with rfl | rfl | rfl
    · exact ⟨short_nil, wordValued_empty⟩
    · exact ⟨hcode, wordValued_empty⟩
    · exact ⟨short_nil, wordValued_empty⟩

/-- A contract that calls itself forever ends with 5000 gas. -/
theorem execution_terminates_spin : Acc (fun evm' evm => Next sampleEnv evm evm')
    (EVM.init spinCode (sampleContext 5000) .empty (some (sampleWorld spinCode [])) []) := by
  have hr := inRange_sampleStart (show Short spinCode by simp [Short, spinCode])
    (show Word 5000 from ⟨by omega, by omega⟩)
  exact (execution_terminates sampleEnv _ _ _ _ hr).2.1

/-- Above 2^256 it need not end. -/
theorem execution_terminates_endless : 0 ≤ (sampleContext spinGas).gas ∧
    ∀ fuel, ∃ evm, execute sampleEnv fuel (EVM.init spinCode (sampleContext spinGas) .empty
      (some (sampleWorld spinCode [])) []) = .error .outOfFuel evm := by
  refine ⟨by decide, fun fuel => ?_⟩
  have hstart : Spinning (EVM.init spinCode (sampleContext spinGas) .empty
      (some (sampleWorld spinCode [])) []) :=
    ⟨rfl, rfl, rfl, ⟨_, rfl, by decide⟩, rfl, .jumpdest rfl⟩
  obtain ⟨evm, hloop⟩ :=
    runLoop_outOfFuel sampleEnv fuel (fun evm => Spinning.running) spinning_step hstart
  exact ⟨evm, congrArg (conclude _) hloop⟩

end Ethereum
