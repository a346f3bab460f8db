import Ethereum.Evm.Run
import Mathlib.Logic.Relation

/-! The loop heads that a frame and all frames below it get to. -/
namespace Ethereum

open Stateful Relation

/-- From one loop head to the next: of the same frame, or of a child that it starts. -/
inductive Next (env : Env) (evm : EVM) : EVM → Prop
  | step {evm'} (hrun : evm.running = true) (hb : begin env evm = .ok none evm') :
      Next env evm evm'
  | enter {p evm₁} (hrun : evm.running = true) (hb : begin env evm = .ok (some p) evm₁) :
      Next env evm p.child
  | resume {p evm₁ c evm'} (hrun : evm.running = true)
      (hb : begin env evm = .ok (some p) evm₁) (hc : Run env p.child c)
      (hs : settle env p (conclude p.gas c) evm₁ = .ok () evm') : Next env evm evm'

abbrev Reaches (env : Env) : EVM → EVM → Prop := ReflTransGen (Next env)

/-- The states of all frames of an execution: at a loop head, at the end of the first half
of an iteration and at the end of the second. -/
inductive Passes (env : Env) (start : EVM) : EVM → Prop
  | head {evm} (h : Reaches env start evm) : Passes env start evm
  | begun {evm} (h : Reaches env start evm) (hrun : evm.running = true) :
      Passes env start (final (begin env evm))
  | settled {evm evm₁ p c} (h : Reaches env start evm) (hrun : evm.running = true)
      (hb : begin env evm = .ok (some p) evm₁) (hc : Run env p.child c) :
      Passes env start (final (settle env p (conclude p.gas c) evm₁))

variable {env : Env} {evm evm' start : EVM}

/-- What every move between loop heads keeps holds at all of them. -/
theorem Reaches.invariant {I : EVM → Prop} (h : Reaches env start evm) (h0 : I start)
    (hnext : ∀ {evm evm'}, I evm → Next env evm evm' → I evm') : I evm := by
  induction h with
  | refl => exact h0
  | tail _ hn ih => exact hnext ih hn

/-- An iteration of the interpreter is a move to the next loop head of its frame. -/
theorem next_of_iterate {fuel : Nat} (hrun : evm.running = true)
    (h : iterate env (execute env fuel) evm = .ok () evm') : Next env evm evm' := by
  rw [iterate_eq] at h
  obtain ⟨child, evm₁, hb, h⟩ := ok_of_bind_apply h
  cases child with
  | none =>
    cases h
    exact .step hrun hb
  | some p => exact .resume hrun hb (run_runLoop env fuel p.child) h

/-- The loop of the interpreter stops at a loop head, if it does not raise. -/
theorem reaches_of_run {r : LoopResult} (h : Run env evm r) (hr : r = .ok () evm') :
    Reaches env evm evm' := by
  induction h with
  | cut => cases hr
  | halted _ =>
    cases hr
    exact .refl
  | raised _ _ => cases hr
  | step hrun hb _ ih => exact (ih hr).head (.step hrun hb)
  | child hrun hb hc hs _ _ ih => exact (ih hr).head (.resume hrun hb hc hs)
  | childRaised _ _ _ _ _ => cases hr

/-- What an iteration comes to, with or without a child frame, holds across a whole run, and
the loop heads are known to be reached. -/
theorem Run.of_iterations {R : EVM → EVM → Prop} {r : LoopResult} (h : Run env evm r)
    (hstart : Reaches env start evm) (hrefl : ∀ evm, R evm evm)
    (htrans : ∀ {evm evm' evm''}, R evm evm' → R evm' evm'' → R evm evm'')
    (hbegin : ∀ {evm}, Reaches env start evm → evm.running = true → R evm (final (begin env evm)))
    (hchild : ∀ {evm evm₁ p c}, Reaches env start evm → evm.running = true →
      begin env evm = .ok (some p) evm₁ → Run env p.child c → R p.child (final c) →
      R evm (final (settle env p (conclude p.gas c) evm₁))) : R evm (final r) := by
  induction h with
  | cut => exact hrefl _
  | halted _ => exact hrefl _
  | raised hrun hb =>
    have hfirst := hbegin hstart hrun
    rwa [hb] at hfirst
  | step hrun hb _ ih =>
    have hfirst := hbegin hstart hrun
    rw [hb] at hfirst
    exact htrans hfirst (ih (hstart.tail (.step hrun hb)))
  | child hrun hb hc hs _ ihc ih =>
    have hiteration := hchild hstart hrun hb hc (ihc (hstart.tail (.enter hrun hb)))
    rw [hs] at hiteration
    exact htrans hiteration (ih (hstart.tail (.resume hrun hb hc hs)))
  | childRaised hrun hb hc hs ihc =>
    have hiteration := hchild hstart hrun hb hc (ihc (hstart.tail (.enter hrun hb)))
    rwa [hs] at hiteration

/-- The same where the second half of an iteration is taken on its own. -/
theorem Run.of_reached {R : EVM → EVM → Prop} {r : LoopResult} (h : Run env evm r)
    (hstart : Reaches env start evm) (hrefl : ∀ evm, R evm evm)
    (htrans : ∀ {evm evm' evm''}, R evm evm' → R evm' evm'' → R evm evm'')
    (hbegin : ∀ {evm}, Reaches env start evm → evm.running = true → R evm (final (begin env evm)))
    (hchild : ∀ {evm evm₁ p c}, Reaches env start evm → evm.running = true →
      begin env evm = .ok (some p) evm₁ → Run env p.child c → R p.child (final c) →
      R evm₁ (final (settle env p (conclude p.gas c) evm₁))) : R evm (final r) := by
  refine h.of_iterations hstart hrefl htrans hbegin fun hs hrun hb hc hrel => ?_
  have hfirst := hbegin hs hrun
  rw [hb] at hfirst
  exact htrans hfirst (hchild hs hrun hb hc hrel)

/-- What both halves of an iteration keep, where `G` holds of the loop head, and what a
child frame takes over from its parent. -/
structure FrameInvariant (env : Env) (G K : EVM → Prop) : Prop where
  first : ∀ {evm}, G evm → evm.running = true → K evm → K (final (begin env evm))
  child : ∀ {evm evm₁ p}, G evm → evm.running = true → begin env evm = .ok (some p) evm₁ →
    K evm₁ → K p.child
  second : ∀ {evm evm₁ p c}, G evm → evm.running = true → begin env evm = .ok (some p) evm₁ →
    Run env p.child c → K evm₁ → K (final c) →
    K (final (settle env p (conclude p.gas c) evm₁))

namespace FrameInvariant

variable {G K : EVM → Prop} (hK : FrameInvariant env G K)
  (hG : ∀ {evm}, Reaches env start evm → G evm)
include hK hG

theorem run {r : LoopResult} (h : Run env evm r) (hs : Reaches env start evm) :
    K evm → K (final r) :=
  h.of_reached (R := fun evm evm' => K evm → K evm') hs (fun _ => id) (fun h h' => h' ∘ h)
    (fun hs hrun => hK.first (hG hs) hrun)
    fun hs hrun hb hc ih h => hK.second (hG hs) hrun hb hc h (ih (hK.child (hG hs) hrun hb h))

theorem begun (h : Reaches env start evm) (hrun : evm.running = true) (hk : K evm)
    {child : Option Pending} (hb : begin env evm = .ok child evm') : K evm' := by
  have hfirst := hK.first (hG h) hrun hk
  rwa [hb] at hfirst

theorem settled {p : Pending} {c : LoopResult} {evm₁ : EVM} (h : Reaches env start evm)
    (hrun : evm.running = true) (hk : K evm) (hb : begin env evm = .ok (some p) evm₁)
    (hc : Run env p.child c) : K (final (settle env p (conclude p.gas c) evm₁)) := by
  have h₁ := hK.begun hG h hrun hk hb
  have hchild := hK.child (hG h) hrun hb h₁
  exact hK.second (hG h) hrun hb hc h₁ (hK.run hG hc (h.tail (.enter hrun hb)) hchild)

theorem reaches (h : Reaches env start evm) (h0 : K start) : K evm := by
  induction h with
  | refl => exact h0
  | tail hs hn ih =>
    cases hn with
    | step hrun hb => exact hK.begun hG hs hrun ih hb
    | enter hrun hb => exact hK.child (hG hs) hrun hb (hK.begun hG hs hrun ih hb)
    | resume hrun hb hc hset =>
      have hsecond := hK.settled hG hs hrun ih hb hc
      rwa [hset] at hsecond

theorem passes (h : Passes env start evm) (h0 : K start) : K evm := by
  cases h with
  | head h => exact hK.reaches hG h h0
  | begun h hrun => exact hK.first (hG h) hrun (hK.reaches hG h h0)
  | settled h hrun hb hc => exact hK.settled hG h hrun (hK.reaches hG h h0) hb hc

end FrameInvariant

section Leaf

/-- Bytecode that starts no frames. -/
def Leaf (code : Bytes) : Prop :=
  ∀ byte ∈ code, Opcode.ofByte byte ≠ some .call ∧ Opcode.ofByte byte ≠ some .create

instance (code : Bytes) : Decidable (Leaf code) :=
  inferInstanceAs (Decidable (∀ byte ∈ code, _ ∧ _))

theorem begin_of_leaf (hleaf : Leaf evm.code) (hrun : evm.running = true) {child : Option Pending}
    (hb : begin env evm = .ok child evm') : child = none := by
  obtain ⟨byte, opcode, hbyte, hop, ⟨-, hnone, -⟩ | ⟨-, -, hb⟩⟩ := begin_eq_ok hrun hb
  · exact hnone
  · obtain ⟨hcall, hcreate⟩ := hleaf byte (List.mem_of_getElem? hbyte)
    rcases ok_of_beginOp hb with ⟨rfl, -⟩ | ⟨rfl, -⟩ | ⟨-, -, hnone, -⟩
    · exact absurd hop hcreate
    · exact absurd hop hcall
    · exact hnone

theorem Reaches.leaf (h : Reaches env start evm) (hleaf : Leaf start.code) : Leaf evm.code := by
  induction h with
  | refl => exact hleaf
  | @tail b c hs hn ih =>
    cases hn with
    | step hrun hb =>
      have hframe : (final (begin env b)).code = b.code := (frame_begin env hrun).1
      rw [hb] at hframe
      exact (show c.code = b.code from hframe) ▸ ih
    | enter hrun hb => exact absurd (begin_of_leaf ih hrun hb) (by simp)
    | resume hrun hb _ _ => exact absurd (begin_of_leaf ih hrun hb) (by simp)

end Leaf

end Ethereum
