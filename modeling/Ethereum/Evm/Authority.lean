import Ethereum.Evm.Run

/-! The machine refines the ledger of moves: whatever code runs, the world state only
changes by moves of accounts that have executed a frame. -/
namespace Ethereum

open Stateful Relation

/-- The addresses of the frames that have been started, in order. -/
def entered (log : List Event) : List Bytes :=
  log.filterMap fun
    | .enter _ context => some context.address
    | _ => none

theorem mem_entered {a : Bytes} {log : List Event} :
    a ∈ entered log ↔ ∃ kind context, Event.enter kind context ∈ log ∧ context.address = a := by
  unfold entered
  rw [List.mem_filterMap]
  constructor
  · rintro ⟨event, hmem, he⟩
    cases event with
    | enter kind context => exact ⟨kind, context, hmem, Option.some.inj he⟩
    | _ => cases he
  · rintro ⟨kind, context, hmem, rfl⟩
    exact ⟨_, hmem, rfl⟩

theorem entered_mono {log log' : List Event} (h : log <+: log') {a : Bytes}
    (ha : a ∈ entered log) : a ∈ entered log' := by
  obtain ⟨kind, context, hmem, he⟩ := mem_entered.mp ha
  exact mem_entered.mpr ⟨kind, context, h.subset hmem, he⟩

/-- The world state moved by the authority of the frames of a log. -/
def Authorized (log : List Event) (w w' : Option WorldState) : Prop :=
  ∀ w₀, w = some w₀ → ∃ w₁, w' = some w₁ ∧ Moves (· ∈ entered log) w₀ w₁

theorem authorized_refl (log : List Event) (w : Option WorldState) : Authorized log w w :=
  fun w₀ hw => ⟨w₀, hw, .refl⟩

theorem Authorized.trans {log log' : List Event} {w w' w'' : Option WorldState}
    (h : Authorized log w w') (h' : Authorized log' w' w'') (hlog : log <+: log') :
    Authorized log' w w'' := by
  intro w₀ hw
  obtain ⟨w₁, hw₁, hm⟩ := h w₀ hw
  obtain ⟨w₂, hw₂, hm'⟩ := h' w₁ hw₁
  exact ⟨w₂, hw₂, (hm.mono fun _ => entered_mono hlog).trans hm'⟩

theorem authorized_some {log : List Event} {w w' : WorldState}
    (h : Moves (· ∈ entered log) w w') : Authorized log (some w) (some w') := by
  intro w₀ hw
  cases hw
  exact ⟨w', rfl, h⟩

/-- What a frame does between two states of its own. -/
structure Progress (evm evm' : EVM) : Prop where
  context : evm'.context = evm.context
  log : evm.log <+: evm'.log
  world : evm.context.address ∈ entered evm.log →
    Authorized evm'.log evm.worldState evm'.worldState

theorem Progress.trans {evm evm' evm'' : EVM} (h : Progress evm evm')
    (h' : Progress evm' evm'') : Progress evm evm'' where
  context := h'.context.trans h.context
  log := h.log.trans h'.log
  world ha := (h.world ha).trans (h'.world (h.context ▸ entered_mono h.log ha)) h'.log

variable {env : Env} {evm evm' : EVM}

theorem progress_of_quiet (hcontext : evm'.context = evm.context)
    (hworld : evm'.worldState = evm.worldState) (hlog : evm.log <+: evm'.log) :
    Progress evm evm' :=
  ⟨hcontext, hlog, fun _ => hworld ▸ authorized_refl _ _⟩

theorem progress_of_shell (h : evm'.shell = evm.shell) : Progress evm evm' :=
  progress_of_quiet (congrArg Shell.context h) (congrArg Shell.worldState h)
    ⟨[], (List.append_nil _).trans (congrArg Shell.log h).symm⟩

theorem progress_charge (opcode : Opcode) : Progress evm (evm.charge opcode) :=
  progress_of_quiet rfl rfl (List.prefix_append _ _)

theorem progress_localEffect (h : LocalEffect evm evm') : Progress evm evm' := by
  cases h with
  | quiet h => exact progress_of_shell h
  | load key h =>
    refine progress_of_quiet (congrArg Shell.context h) (congrArg Shell.worldState h) ?_
    rw [show evm'.log = _ from congrArg Shell.log h]
    exact List.prefix_append _ _
  | store key value h =>
    refine progress_of_quiet (congrArg Shell.context h) (congrArg Shell.worldState h) ?_
    rw [show evm'.log = _ from congrArg Shell.log h]
    exact List.prefix_append _ _

/-- A change of the world state by the executing account. -/
theorem progress_of_moves {w w' : WorldState} (hw : evm.worldState = some w)
    (hs : evm'.shell = { evm.shell with worldState := some w' })
    (hm : ∀ S : Bytes → Prop, S evm.context.address → Moves S w w') : Progress evm evm' where
  context := congrArg Shell.context hs
  log := ⟨[], (List.append_nil _).trans (congrArg Shell.log hs).symm⟩
  world ha := by
    rw [hw, show evm'.worldState = some w' from congrArg Shell.worldState hs,
      show evm'.log = evm.log from congrArg Shell.log hs]
    exact authorized_some (hm _ ha)

theorem ChildOf.moves {p : Pending} {code data : Bytes} {value gas : Int} {w w' : WorldState}
    (h : ChildOf evm p code value data gas w w') {S : Bytes → Prop}
    (hS : S evm.context.address) : Moves S w w' := by
  have hpay : Moves S (p.base evm.context.address w) w' := .pay hS h.paid
  cases p with
  | call q => exact hpay
  | create q => exact (moves_reserve hS _).trans hpay

theorem progress_start {r : EStateM.Result Abort EVM (Option Pending)} (h : Start evm r) :
    Progress evm (final r) := by
  cases h with
  | unchanged hr hs => exact progress_of_shell hs
  | paid hr hw hpay hs => exact progress_of_moves hw hs fun S hS => .pay hS hpay
  | reserved hr hw hs => exact progress_of_moves hw hs fun S hS => moves_reserve hS _
  | child hc hs hstack => exact progress_of_moves hc.world hs fun S hS => hc.moves hS

theorem progress_begin (env : Env) (hrun : evm.running = true) :
    Progress evm (final (begin env evm)) := by
  apply final_begin (P := Progress evm) env hrun
  · exact progress_of_shell rfl
  · exact progress_of_quiet rfl rfl (List.prefix_append _ _)
  · intro opcode _ _ _
    apply (progress_charge opcode).trans
    cases beginOp_effect env (evm.charge opcode) opcode with
    | inFrame hr h => exact progress_localEffect h
    | contract hop h => exact progress_start h

/-- A child frame enters its address with the world state that its parent has left. -/
theorem begin_child {p : Pending} (hrun : evm.running = true)
    (h : begin env evm = .ok (some p) evm') :
    p.child.context.address = p.address ∧ p.address ∈ entered p.child.log ∧
      evm'.log <+: p.child.log ∧ p.child.worldState = evm'.worldState := by
  obtain ⟨opcode, code, value, data, gas, w, w', hc, hs, -⟩ := childOf_of_begin hrun h
  rw [hc.child, show evm'.log = _ from congrArg Shell.log hs,
    show evm'.worldState = _ from congrArg Shell.worldState hs]
  refine ⟨rfl, ?_, List.prefix_append _ _, rfl⟩
  exact mem_entered.mpr ⟨p.kind, _, List.mem_append_right _ (List.mem_singleton_self _), rfl⟩

theorem moves_commit {S : Bytes → Prop} (p : Pending) (returnData : Bytes)
    (storage : Dict Int Int) (w : WorldState) (hS : S p.address) :
    Moves S w (p.commit returnData storage w) := by
  cases p with
  | call q => exact .single (.persist hS)
  | create q => exact (ReflTransGen.single (.deploy hS)).trans (.single (.persist hS))

/-- What a child has done to the world state and what its parent writes on top of it. -/
theorem authorized_merge (p : Pending) (o : Outcome) {log : List Event}
    (hp : p.address ∈ entered log) : Authorized log (final o).worldState (p.merge o) := by
  unfold Pending.merge
  split
  · next result child =>
    split
    · intro w₀ hw
      refine ⟨_, congrArg _ hw, moves_commit p _ _ _ hp⟩
    · exact authorized_refl _ _
  · exact authorized_refl _ _

theorem progress_child {p : Pending} {evm₁ : EVM} {c : LoopResult} (hrun : evm.running = true)
    (hb : begin env evm = .ok (some p) evm₁) (hc : Progress p.child (final c)) :
    Progress evm₁ (final (settle env p (conclude p.gas c) evm₁)) := by
  obtain ⟨haddr, hmem, hlog, hworld⟩ := begin_child hrun hb
  obtain ⟨hw, hl, -⟩ := final_conclude p.gas c
  have hsettled := settle_settled env p (conclude p.gas c) evm₁
  have hend : p.child.log <+: (final (conclude p.gas c)).log := by
    rw [hl]
    exact hc.log
  have hlast : (final (conclude p.gas c)).log <+:
      (final (settle env p (conclude p.gas c) evm₁)).log := by
    rw [hsettled.log]
    exact List.prefix_append _ _
  refine ⟨hsettled.context, hlog.trans (hend.trans hlast), fun _ => ?_⟩
  have hchild := hc.world (haddr ▸ hmem)
  rw [hworld, ← hw, ← hl] at hchild
  have hmerge := authorized_merge p (conclude p.gas c) (entered_mono (hend.trans hlast) hmem)
  rw [← hsettled.worldState] at hmerge
  exact hchild.trans hmerge hlast

/-- A run moves the world state by the authority of its frames only. -/
theorem run_progress {r : LoopResult} (h : Run env evm r) : Progress evm (final r) :=
  h.of_steps (fun _ => progress_of_shell rfl) Progress.trans (progress_begin env)
    fun hrun hb _ hc => progress_child hrun hb hc

end Ethereum
