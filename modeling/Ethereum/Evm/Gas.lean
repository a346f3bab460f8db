import Ethereum.Evm.Authority

/-! The gas account of a run: what a frame is left with and what its opcodes cost. -/
namespace Ethereum

open Stateful

variable {env : Env} {evm evm' : EVM}

/-- The sum of the `GAS_COSTS` entries of all executed opcodes. -/
def charged (log : List Event) : Int :=
  (log.map fun
    | .executed _ opcode => gasCost opcode
    | _ => 0).sum

theorem charged_executed (log : List Event) (a : Bytes) (opcode : Opcode) :
    charged (log ++ [.executed a opcode]) = charged log + gasCost opcode := by
  simp [charged]

/-- An event that is not an executed opcode costs nothing. -/
theorem charged_snoc (log : List Event) (event : Event)
    (h : ∀ a opcode, event ≠ .executed a opcode) : charged (log ++ [event]) = charged log := by
  cases event with
  | executed a opcode => exact absurd rfl (h a opcode)
  | _ => simp [charged]

theorem charged_localEffect (h : LocalEffect evm evm') :
    charged evm'.log = charged evm.log ∧ evm'.gasRemaining = evm.gasRemaining := by
  cases h with
  | quiet h =>
    exact ⟨congrArg charged (congrArg Shell.log h), congrArg Shell.gasRemaining h⟩
  | load key h =>
    refine ⟨?_, congrArg Shell.gasRemaining h⟩
    rw [show evm'.log = _ from congrArg Shell.log h]
    exact charged_snoc _ _ fun _ _ h => absurd h (by simp)
  | store key value h =>
    refine ⟨?_, congrArg Shell.gasRemaining h⟩
    rw [show evm'.log = _ from congrArg Shell.log h]
    exact charged_snoc _ _ fun _ _ h => absurd h (by simp)

theorem charged_start {r : EStateM.Result Abort EVM (Option Pending)} (h : Start evm r) :
    (final r).log = evm.log ∧ (final r).gasRemaining = evm.gasRemaining := by
  cases h with
  | unchanged hr hs => exact ⟨congrArg Shell.log hs, congrArg Shell.gasRemaining hs⟩
  | paid hr hw hpay hs => exact ⟨congrArg Shell.log hs, congrArg Shell.gasRemaining hs⟩
  | reserved hr hw hs => exact ⟨congrArg Shell.log hs, congrArg Shell.gasRemaining hs⟩
  | child hc hs hstack => exact ⟨congrArg Shell.log hs, congrArg Shell.gasRemaining hs⟩

/-- The first half of an iteration pays for its own opcode, or has nothing to pay for. -/
theorem begin_gas (env : Env) (hrun : evm.running = true) (h0 : 0 ≤ evm.gasRemaining) :
    0 ≤ (final (begin env evm)).gasRemaining ∧
      charged (final (begin env evm)).log + (final (begin env evm)).gasRemaining ≤
        charged evm.log + evm.gasRemaining := by
  refine final_begin (P := fun evm₁ => 0 ≤ evm₁.gasRemaining ∧
    charged evm₁.log + evm₁.gasRemaining ≤ charged evm.log + evm.gasRemaining) env hrun
    ⟨h0, le_rfl⟩ ⟨le_rfl, ?_⟩ ?_
  · simp only [EVM.invalidated, charged_executed, gasCost]
    omega
  · intro opcode _ hgas _
    have hcharge : charged (evm.charge opcode).log + (evm.charge opcode).gasRemaining =
        charged evm.log + evm.gasRemaining := by
      simp only [EVM.charge, charged_executed]
      omega
    have hnonneg : 0 ≤ (evm.charge opcode).gasRemaining := by
      simp only [EVM.charge]
      omega
    cases beginOp_effect env (evm.charge opcode) opcode with
    | inFrame hr h =>
      obtain ⟨hl, hg⟩ := charged_localEffect h
      rw [hl, hg]
      exact ⟨hnonneg, hcharge.le⟩
    | contract hop h =>
      obtain ⟨hl, hg⟩ := charged_start h
      rw [hl, hg]
      exact ⟨hnonneg, hcharge.le⟩

/-- A frame that starts in debt executes no opcode, except that `INVALID` stops it. -/
theorem run_in_debt (h : Run env evm (.ok () evm')) (hrun : evm.running = true)
    (hgas : evm.gasRemaining < 0) : evm'.reverted = true := by
  cases h with
  | halted h => rw [h] at hrun; cases hrun
  | @step _ evm₁ _ _ hb h =>
    cases fetched env hrun with
    | unknown byte hb' => rw [hb'] at hb; cases hb
    | outOfGas opcode hlt hb' => rw [hb'] at hb; cases hb
    | invalid hb' =>
      rw [hb'] at hb
      cases hb
      cases h with
      | halted _ => rfl
      | step hrun _ _ => cases hrun
      | child hrun _ _ _ _ => cases hrun
    | paid opcode hop hle hbyte hb' =>
      have := gasCost_nonneg opcode
      omega
  | child _ hb _ _ _ =>
    obtain ⟨opcode, -, -, -, -, -, -, -, -, -, hle, -⟩ := childOf_of_begin hrun hb
    have := gasCost_nonneg opcode
    omega

/-- The gas of a child frame at its start, seen from its parent. -/
structure ChildGas (evm : EVM) (p : Pending) : Prop where
  le : p.gas ≤ evm.gasRemaining
  call : ∀ q, p = .call q → q.forwardedGas = p.gas
  running : p.gas < 0 → p.child.running = true
  create : ∀ q, p = .create q → p.gas = evm.gasRemaining
  charged : charged p.child.log = Ethereum.charged evm.log

theorem childGas_of_begin {p : Pending} (hrun : evm.running = true)
    (h : begin env evm = .ok (some p) evm') : ChildGas evm' p := by
  obtain ⟨opcode, code, value, data, gas, w, w', hc, hs, -, hle, -⟩ := childOf_of_begin hrun h
  have hgas : evm'.gasRemaining = evm.gasRemaining - gasCost opcode :=
    congrArg Shell.gasRemaining hs
  have hp : p.gas = gas := by
    rw [Pending.gas, hc.child]
    rfl
  refine ⟨?_, ?_, ?_, ?_, ?_⟩
  · rw [hp, show evm'.gasRemaining = _ from congrArg Shell.gasRemaining hs]
    exact hc.gas_le
  · intro q hq
    rw [hp]
    exact (hc.call q hq).2.2
  · intro hneg
    rw [hc.child]
    cases p with
    | call q =>
      have hcode := (hc.call q rfl).2.1
      simpa [EVM.running, EVM.init, List.length_pos_iff] using hcode
    | create q =>
      have := hc.create q rfl
      simp only [EVM.charge] at this
      omega
  · intro q hq
    rw [hp, show evm'.gasRemaining = _ from congrArg Shell.gasRemaining hs]
    exact hc.create q hq
  · rw [hc.child, show evm'.log = _ from congrArg Shell.log hs]
    exact charged_snoc _ _ fun _ _ h => absurd h (by simp)

/-- A run that returns keeps the gas non-negative. -/
def Afloat (r : LoopResult) : Prop := ∀ evm, r = .ok () evm → 0 ≤ evm.gasRemaining

theorem charge_conclude_error (p : Pending) (e : Abort) (child : EVM) :
    p.charge (conclude p.gas (.error e child)) =
      match p with
      | .call q => q.forwardedGas
      | .create _ => 0 := by
  unfold conclude
  split
  · contradiction
  · rfl
  · next he => cases he; rfl

theorem endingOf_conclude_error (gas : Int) (e : Abort) (child : EVM) :
    endingOf (conclude gas (.error e child)) = .outOfGas ∨
      endingOf (conclude gas (.error e child)) = .raised := by
  unfold conclude
  split
  · contradiction
  · exact .inl rfl
  · next hne he =>
    cases he
    exact .inr (endingOf_raised _ fun needed remaining h => hne needed remaining h)

/-- A parent is never charged more than it had forwarded. -/
theorem charge_le {p : Pending} {c : LoopResult} (hg : ChildGas evm p)
    (h0 : 0 ≤ evm.gasRemaining) (hc : Run env p.child c) (hafloat : 0 ≤ p.gas → Afloat c) :
    p.charge (conclude p.gas c) ≤ p.gas := by
  cases p with
  | call q =>
    have hq := hg.call q rfl
    cases c with
    | error e child =>
      rw [charge_conclude_error]
      exact hq.le
    | ok u child =>
      simp only [conclude, Pending.charge]
      split
      · next hsuccess =>
        rcases le_or_gt 0 (Pending.call q).gas with hnonneg | hneg
        · have := hafloat hnonneg child rfl
          omega
        · have := run_in_debt hc (hg.running hneg) hneg
          simp [this] at hsuccess
      · exact hq.le
  | create q =>
    have hq := hg.create q rfl
    have hnonneg : 0 ≤ (Pending.create q).gas := by omega
    cases c with
    | error e child =>
      rw [charge_conclude_error]
      exact hnonneg
    | ok u child =>
      have := hafloat hnonneg child rfl
      simp only [conclude, Pending.charge]
      omega

theorem run_gas_nonneg {r : LoopResult} (h : Run env evm r) (h0 : 0 ≤ evm.gasRemaining) :
    Afloat r := by
  induction h with
  | cut => exact fun _ h => absurd h (by simp)
  | halted _ =>
    intro evm' h
    cases h
    exact h0
  | raised _ _ => exact fun _ h => absurd h (by simp)
  | step hrun hb _ ih =>
    have := (begin_gas env hrun h0).1
    rw [hb] at this
    exact ih this
  | @child evm evm₁ evm' p c r hrun hb hc hs _ ihc ih =>
    have hg := childGas_of_begin hrun hb
    have h1 := (begin_gas env hrun h0).1
    rw [hb] at h1
    have hle := charge_le hg h1 hc ihc
    have hgas := (settle_gas hs).1
    have := hg.le
    refine ih ?_
    simp only [final_ok] at h1
    omega
  | childRaised _ _ _ _ _ => exact fun _ h => absurd h (by simp)

/-- The steps at which the gas account is kept: no init code has run out of gas, and no
frame was started in debt. -/
structure Accounted (log : List Event) : Prop where
  create : Event.leave .create .outOfGas ∉ log
  enter : ∀ kind context, Event.enter kind context ∈ log → 0 ≤ context.gas

/-- The event does not start a frame in debt. -/
def Event.funded : Event → Bool
  | .enter _ context => 0 ≤ context.gas
  | _ => true

theorem accounted_iff {log : List Event} :
    Accounted log ↔ Event.leave .create .outOfGas ∉ log ∧ ∀ e ∈ log, e.funded = true := by
  refine ⟨fun h => ⟨h.create, fun e he => ?_⟩, fun h => ⟨h.1, fun kind context hmem => ?_⟩⟩
  · cases e with
    | enter kind context => exact decide_eq_true (h.enter kind context he)
    | _ => rfl
  · exact of_decide_eq_true (h.2 _ hmem)

instance (log : List Event) : Decidable (Accounted log) := decidable_of_iff _ accounted_iff.symm

theorem Accounted.mono {log log' : List Event} (h : Accounted log') (hl : log <+: log') :
    Accounted log where
  create hmem := h.create (hl.subset hmem)
  enter kind context hmem := h.enter kind context (hl.subset hmem)

/-- Executed opcodes are paid with the gas that was there at the start. -/
structure Covered (evm : EVM) (r : LoopResult) : Prop where
  returned : ∀ evm', r = .ok () evm' →
    charged evm'.log + evm'.gasRemaining ≤ charged evm.log + evm.gasRemaining
  log : charged (final r).log ≤ charged evm.log + evm.gasRemaining

theorem Covered.of_le {r : LoopResult} (h : Covered evm' r)
    (hle : charged evm'.log + evm'.gasRemaining ≤ charged evm.log + evm.gasRemaining) :
    Covered evm r where
  returned evm'' hr := (h.returned evm'' hr).trans hle
  log := h.log.trans hle

theorem covered_self (h0 : 0 ≤ evm.gasRemaining) : Covered evm (.ok () evm) where
  returned evm' h := by
    cases h
    exact le_rfl
  log := by
    simp only [final_ok]
    omega

theorem covered_error {e : Abort} (h0 : 0 ≤ evm'.gasRemaining)
    (h : charged evm'.log + evm'.gasRemaining ≤ charged evm.log + evm.gasRemaining) :
    Covered evm (.error e evm') where
  returned _ h := absurd h (by simp)
  log := by
    simp only [final_error]
    omega

theorem log_settle (env : Env) (p : Pending) (c : LoopResult) (evm₁ : EVM) :
    charged (final (settle env p (conclude p.gas c) evm₁)).log = charged (final c).log := by
  rw [(settle_settled env _ _ evm₁).log, (final_conclude p.gas c).2.1]
  exact charged_snoc _ _ fun _ _ h => absurd h (by simp)

/-- A parent that continues has been charged for all that its child has executed. -/
theorem charged_child {p : Pending} {c : LoopResult} {evm₁ : EVM} (hg : ChildGas evm₁ p)
    (hc : Covered p.child c) (hafloat : Afloat c)
    (hs : settle env p (conclude p.gas c) evm₁ = .ok () evm')
    (hcreate : Event.leave .create .outOfGas ∉ evm'.log) :
    charged evm'.log + evm'.gasRemaining ≤ charged evm₁.log + evm₁.gasRemaining := by
  have hlog := log_settle env p c evm₁
  rw [hs, final_ok] at hlog
  obtain ⟨hgas, -⟩ := settle_gas hs
  have hchild : p.child.gasRemaining = p.gas := rfl
  have hcovered := hc.log
  rw [hg.charged, hchild] at hcovered
  have hle : charged (final c).log ≤ charged evm₁.log + p.charge (conclude p.gas c) := by
    cases c with
    | ok u child =>
      have hret := hc.returned child rfl
      rw [hg.charged, hchild] at hret
      have h0 := hafloat child rfl
      cases p with
      | call q =>
        have hq := hg.call q rfl
        simp only [conclude, Pending.charge, final_ok]
        split <;> omega
      | create q =>
        simp only [conclude, Pending.charge, final_ok]
        omega
    | error e child =>
      cases p with
      | call q =>
        have hq := hg.call q rfl
        rw [charge_conclude_error]
        dsimp only
        omega
      | create q =>
        -- only `OutOfGas` is caught, and that leaves its mark in the log
        have hend := (endingOf_conclude_error _ e child).resolve_right (settle_gas hs).2
        have hlast := (settle_settled env (.create q)
          (conclude (Pending.create q).gas (.error e child)) evm₁).log
        rw [hs, hend] at hlast
        exact absurd (hlast ▸ List.mem_append_right _ (List.mem_singleton_self _)) hcreate
  omega

theorem enter_mem_of_begin {p : Pending} (hrun : evm.running = true)
    (h : begin env evm = .ok (some p) evm') :
    Event.enter p.kind p.child.context ∈ p.child.log := by
  obtain ⟨opcode, code, value, data, gas, w, w', hc, -, -⟩ := childOf_of_begin hrun h
  rw [hc.child]
  exact List.mem_append_right _ (List.mem_singleton_self _)

theorem gas_of_context {p : Pending} (hrun : evm.running = true)
    (h : begin env evm = .ok (some p) evm') : p.child.context.gas = p.gas := by
  obtain ⟨opcode, code, value, data, gas, w, w', hc, -, -⟩ := childOf_of_begin hrun h
  rw [Pending.gas, hc.child]
  rfl

theorem log_prefix_settle (env : Env) (p : Pending) (c : LoopResult) (evm₁ : EVM) :
    (final c).log <+: (final (settle env p (conclude p.gas c) evm₁)).log := by
  rw [(settle_settled env _ _ evm₁).log, (final_conclude p.gas c).2.1]
  exact List.prefix_append _ _

/-- Where the account is kept, a child frame starts out of debt and covers itself. -/
theorem covered_of_child {p : Pending} {c : LoopResult} (hrun : evm.running = true)
    (hb : begin env evm = .ok (some p) evm') (hc : Run env p.child c)
    (hlog : Accounted (final c).log)
    (ih : 0 ≤ p.gas → Accounted (final c).log → Covered p.child c) :
    Afloat c ∧ Covered p.child c := by
  have hmem := (run_progress hc).log.subset (enter_mem_of_begin hrun hb)
  have h0 : 0 ≤ p.gas := gas_of_context hrun hb ▸ hlog.enter _ _ hmem
  exact ⟨run_gas_nonneg hc h0, ih h0 hlog⟩

theorem run_covered {r : LoopResult} (h : Run env evm r) (h0 : 0 ≤ evm.gasRemaining)
    (hlog : Accounted (final r).log) : Covered evm r := by
  induction h with
  | cut => exact covered_error h0 le_rfl
  | halted _ => exact covered_self h0
  | raised hrun hb =>
    obtain ⟨h1, hle⟩ := begin_gas env hrun h0
    rw [hb] at h1 hle
    exact covered_error h1 hle
  | step hrun hb _ ih =>
    obtain ⟨h1, hle⟩ := begin_gas env hrun h0
    rw [hb] at h1 hle
    exact (ih h1 hlog).of_le hle
  | @child evm evm₁ evm' p c r hrun hb hc hs hr ihc ih =>
    obtain ⟨h1, hle⟩ := begin_gas env hrun h0
    rw [hb, final_ok] at h1 hle
    have hg := childGas_of_begin hrun hb
    have hlog' : Accounted evm'.log := hlog.mono (run_progress hr).log
    have hpre := log_prefix_settle env p c evm₁
    rw [hs, final_ok] at hpre
    obtain ⟨hafloat, hcovered⟩ := covered_of_child hrun hb hc (hlog'.mono hpre) ihc
    have hchild := charged_child hg hcovered hafloat hs hlog'.create
    have h2 : 0 ≤ evm'.gasRemaining := by
      have := charge_le hg h1 hc fun _ => hafloat
      have := (settle_gas hs).1
      have := hg.le
      omega
    exact (ih h2 hlog).of_le (hchild.trans hle)
  | @childRaised evm evm₁ evm' p c e hrun hb hc hs ihc =>
    obtain ⟨h1, hle⟩ := begin_gas env hrun h0
    rw [hb, final_ok] at h1 hle
    have hg := childGas_of_begin hrun hb
    have hpre := log_prefix_settle env p c evm₁
    have hsame := log_settle env p c evm₁
    rw [hs, final_error] at hpre hsame
    obtain ⟨-, hcovered⟩ := covered_of_child hrun hb hc (hlog.mono hpre) ihc
    refine ⟨fun _ h => absurd h (by simp), ?_⟩
    have hclog := hcovered.log
    rw [hg.charged, show p.child.gasRemaining = p.gas from rfl] at hclog
    have := hg.le
    rw [final_error, hsame]
    omega

end Ethereum
