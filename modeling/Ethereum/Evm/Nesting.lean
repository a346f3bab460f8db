import Ethereum.Evm.Metering
import Ethereum.Lib.Brackets

/-! Frames are entered and left like brackets, and gas pays for every frame that is open. -/
namespace Ethereum

open Stateful Brackets

def Event.mark : Event → Mark FrameKind
  | .enter kind _ => .opens kind
  | .leave kind _ => .closes kind
  | _ => .inside

/-- A price that is paid with the opcode that opens the frame. -/
structure Covers (price : FrameKind → Nat) : Prop where
  call : price .call ≤ gasCost .call
  create : price .create ≤ gasCost .create

variable {env : Env} {evm evm' : EVM} {p : Pending} {price : FrameKind → Nat} {budget : Nat}

/-- A log that has grown by entries in which every frame is left again, for a budget. -/
def Framed (price : FrameKind → Nat) (budget : Nat) (log log' : List Event) : Prop :=
  ∃ l, log' = log ++ l ∧ Nested Event.mark price budget l

theorem Framed.refl (log : List Event) : Framed price budget log log :=
  ⟨[], (List.append_nil log).symm, .nil⟩

theorem Framed.trans {log log' log'' : List Event} (h : Framed price budget log log')
    (h' : Framed price budget log' log'') : Framed price budget log log'' := by
  obtain ⟨l, rfl, hl⟩ := h
  obtain ⟨l', rfl, hl'⟩ := h'
  exact ⟨l ++ l', List.append_assoc log l l', hl.append hl'⟩

theorem Framed.mono {log log' : List Event} {budget' : Nat} (h : Framed price budget log log')
    (hle : budget ≤ budget') : Framed price budget' log log' := by
  obtain ⟨l, rfl, hl⟩ := h
  exact ⟨l, rfl, hl.mono hle⟩

theorem Framed.entry {event : Event} (log : List Event) (h : event.mark = .inside) :
    Framed price budget log (log ++ [event]) :=
  ⟨[event], rfl, .inside h⟩

theorem framed_localEffect (h : LocalEffect evm evm') :
    Framed price budget evm.log evm'.log := by
  cases h with
  | quiet h =>
    rw [show evm'.log = _ from congrArg Shell.log h]
    exact .refl _
  | load key h =>
    rw [show evm'.log = _ from congrArg Shell.log h]
    exact .entry _ rfl
  | store key value h =>
    rw [show evm'.log = _ from congrArg Shell.log h]
    exact .entry _ rfl

theorem framed_start {r : EStateM.Result Abort EVM (Option Pending)} (h : Start evm r) :
    Framed price budget evm.log (final r).log := by
  have hlog : (final r).log = evm.log := (charged_start h).1
  rw [hlog]
  exact .refl _

theorem framed_begin (env : Env) (hrun : evm.running = true) :
    Framed price budget evm.log (final (begin env evm)).log := by
  refine final_begin (P := fun evm₁ => Framed price budget evm.log evm₁.log) env hrun (.refl _)
    (.entry _ rfl) ?_
  intro opcode _ _ _
  have hpaid : Framed price budget evm.log (evm.charge opcode).log := .entry _ rfl
  refine hpaid.trans ?_
  cases beginOp_effect env (evm.charge opcode) opcode with
  | inFrame _ h => exact framed_localEffect h
  | contract _ h => exact framed_start h

theorem opcode_of_begin {opcode : Opcode} (h : beginOp env opcode evm = .ok (some p) evm') :
    opcode = .create ∧ p.kind = .create ∨ opcode = .call ∧ p.kind = .call := by
  by_cases hcreate : opcode = .create
  · subst hcreate
    rw [beginOp_create] at h
    obtain ⟨q, -, hq⟩ := ok_of_mapOk h
    obtain ⟨q, -, rfl⟩ := Option.map_eq_some_iff.mp hq.symm
    exact .inl ⟨rfl, rfl⟩
  · by_cases hcall : opcode = .call
    · subst hcall
      rw [beginOp_call] at h
      obtain ⟨q, -, hq⟩ := ok_of_mapOk h
      obtain ⟨q, -, rfl⟩ := Option.map_eq_some_iff.mp hq.symm
      exact .inr ⟨rfl, rfl⟩
    · rw [beginOp_local hcreate hcall] at h
      obtain ⟨-, -, hq⟩ := ok_of_mapOk h
      cases hq

/-- The opcode that starts a child has paid for it, and the child gets no more than is left. -/
theorem price_le_of_begin (hprice : Covers price) (hrun : evm.running = true)
    (h : begin env evm = .ok (some p) evm') : price p.kind + p.gas ≤ evm.gasRemaining := by
  obtain ⟨byte, opcode, -, -, hcase⟩ := begin_eq_ok hrun h
  rcases hcase with ⟨-, hnone, -⟩ | ⟨-, -, hbegin⟩
  · cases hnone
  · have hgas := gas_beginOp env (evm.charge opcode) opcode
    rw [hbegin] at hgas
    have hleft : evm'.gasRemaining = evm.gasRemaining - gasCost opcode := hgas
    have hchild := (childGas_of_begin hrun h).le
    have hkind : price p.kind ≤ gasCost opcode := by
      rcases opcode_of_begin hbegin with ⟨rfl, hp⟩ | ⟨rfl, hp⟩ <;> rw [hp]
      · exact hprice.create
      · exact hprice.call
    omega

theorem framed_child {c : LoopResult} {evm₁ : EVM} (hprice : Covers price)
    (hrun : evm.running = true) (hm : evm.Metered) (hb : begin env evm = .ok (some p) evm₁)
    (hc : Framed price p.gas.toNat p.child.log (final c).log) :
    Framed price evm.gasRemaining.toNat evm.log
      (final (settle env p (conclude p.gas c) evm₁)).log := by
  obtain ⟨opcode, _, _, _, _, _, _, hchild, -⟩ := childOf_of_begin hrun hb
  obtain ⟨l, hl, hnested⟩ := hc
  have h0 : 0 ≤ p.gas := (metered_child hrun hm hb).inRange.gas.nonneg
  have hpaid := price_le_of_begin hprice hrun hb
  have hfirst : Framed price evm.gasRemaining.toNat evm.log (evm.charge opcode).log := .entry _ rfl
  rw [(settle_settled env p (conclude p.gas c) evm₁).log, (final_conclude p.gas c).2.1, hl,
    hchild.child]
  generalize hcontext : ExecutionContext.mk _ _ _ _ _ = context
  generalize endingOf _ = ending
  have hframe : Nested Event.mark price (price p.kind + p.gas.toNat)
      (.enter p.kind context :: (l ++ [.leave p.kind ending])) := hnested.wrap rfl rfl
  refine hfirst.trans ⟨_, ?_, hframe.mono (by omega)⟩
  simp only [EVM.init, List.append_assoc, List.cons_append, List.nil_append]

/-- Whatever a frame runs, frames below it are left in the order in which they were entered, and
those open at any time have been paid for out of its gas. -/
theorem run_framed {r : LoopResult} (hprice : Covers price) (h : Run env evm r)
    (hm : evm.Metered) : Framed price evm.gasRemaining.toNat evm.log (final r).log := by
  induction h with
  | cut => exact .refl _
  | halted h => exact .refl _
  | @raised evm evm' e hrun hb =>
    have hbegin : Framed price evm.gasRemaining.toNat evm.log (final (begin env evm)).log :=
      framed_begin env hrun
    rw [hb] at hbegin
    exact hbegin
  | @step evm evm' r hrun hb h ih =>
    have hbegin : Framed price evm.gasRemaining.toNat evm.log (final (begin env evm)).log :=
      framed_begin env hrun
    rw [hb] at hbegin
    obtain ⟨hm', hle⟩ := metered_next hm (.step hrun hb)
    exact hbegin.trans ((ih hm').mono (Int.toNat_le_toNat hle))
  | child hrun hb hc hs h ihc ih =>
    have hchild := framed_child hprice hrun hm hb (ihc (metered_child hrun hm hb))
    rw [hs] at hchild
    obtain ⟨hm', hle⟩ := metered_next hm (.resume hrun hb hc hs)
    exact hchild.trans ((ih hm').mono (Int.toNat_le_toNat hle))
  | childRaised hrun hb hc hs ihc =>
    have hchild := framed_child hprice hrun hm hb (ihc (metered_child hrun hm hb))
    rw [hs] at hchild
    exact hchild

end Ethereum
