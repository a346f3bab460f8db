import Ethereum.Evm.Words
import Ethereum.Lib.Allocation

/-! Contract addresses as names that are computed from a creator and its nonce, and the code
of accounts as cells. -/
namespace Ethereum

open Stateful Allocation

/-- The nonces and the code of all accounts. -/
def WorldState.slots (w : WorldState) : Slots Bytes Bytes Bytes where
  counter a := (w.getAccount a).nonce
  cell a := (w.getAccount a).code

/-- The addresses of the pairs that `P` holds of. -/
def Named (env : Env) (P : Bytes → Int → Prop) (creator : Bytes) (nonce : Int) (a : Bytes) : Prop :=
  P creator nonce ∧ computeContractAddress env creator nonce = .ok a

variable {env : Env} {P : Bytes → Int → Prop} {w w' : WorldState} {a : Bytes}

section World

theorem slots_congr (hnonce : ∀ a, (w'.getAccount a).nonce = (w.getAccount a).nonce)
    (hcode : ∀ a, (w'.getAccount a).code = (w.getAccount a).code) : w'.slots = w.slots := by
  unfold WorldState.slots
  rw [funext hnonce, funext hcode]

theorem slots_payValue {sender recipient : Bytes} {value : Int}
    (h : payValue w sender recipient value = .ok w') : w'.slots = w.slots :=
  slots_congr (field_payValue Account.nonce (fun _ _ => rfl) h)
    (field_payValue Account.code (fun _ _ => rfl) h)

theorem slots_reserve (w : WorldState) (creator c : Bytes) :
    (w.reserve creator c).slots.cell = w.slots.cell ∧
      (w.reserve creator c).slots.counter creator = w.slots.counter creator + 1 ∧
      ∀ a, w.slots.counter a ≤ (w.reserve creator c).slots.counter a := by
  refine ⟨funext (field_reserve Account.code (fun _ _ => rfl) creator c), ?_, fun a => ?_⟩
  · change ((w.reserve creator c).getAccount creator).nonce = _
    rw [getAccount_reserve, if_pos rfl]
    rfl
  · exact Moves.nonce_le (moves_reserve (S := fun _ => True) trivial c) a

theorem slots_persistStorage (w : WorldState) (a : Bytes) (storage : Dict Int Int) :
    (w.persistStorage a storage).slots = w.slots :=
  slots_congr (WorldState.field_persistStorage Account.nonce (fun _ _ => rfl) a storage)
    (WorldState.field_persistStorage Account.code (fun _ _ => rfl) a storage)

theorem slots_setCode (w : WorldState) (a code : Bytes) :
    (w.setCode a code).slots.counter = w.slots.counter ∧
      ∀ b, b ≠ a → (w.setCode a code).slots.cell b = w.slots.cell b := by
  refine ⟨funext (WorldState.field_setCode Account.nonce (fun _ _ => rfl) a code), fun b hb => ?_⟩
  exact congrArg Account.code (WorldState.getAccount_modifyAccount_of_ne hb _)

end World

/-- A frame leaves a world state in which nonces and code have grown. -/
def Grown (env : Env) (P : Bytes → Int → Prop) (evm evm' : EVM) : Prop :=
  ∀ w, evm.worldState = some w → Fresh (Named env P) [] w.slots →
    ∃ w', evm'.worldState = some w' ∧ Grows (Named env P) [] w.slots w'.slots

/-- The pairs from which the frames that `start` reaches create contracts are in `P`. -/
def CreatesIn (env : Env) (P : Bytes → Int → Prop) (start : EVM) : Prop :=
  ∀ evm q evm₁ w, Reaches env start evm → evm.running = true →
    begin env evm = .ok (some (.create q)) evm₁ → evm.worldState = some w →
    P evm.context.address (w.getAccount evm.context.address).nonce

variable {evm evm' evm₁ start : EVM} {p : Pending} {c : LoopResult}

theorem Grown.trans {evm'' : EVM} (h : Grown env P evm evm') (h' : Grown env P evm' evm'') :
    Grown env P evm evm'' := by
  intro w hw hfresh
  obtain ⟨w', hw', hgrows⟩ := h w hw hfresh
  obtain ⟨w'', hw'', hgrows'⟩ := h' w' hw' (hgrows.fresh hfresh)
  exact ⟨w'', hw'', hgrows.trans hgrows'⟩

/-- In the first half of an iteration nonces can move, code cannot. -/
theorem slots_begin (env : Env) (hrun : evm.running = true) (hw : evm.worldState = some w) :
    ∃ w', (final (begin env evm)).worldState = some w' ∧
      (∀ a, w.slots.counter a ≤ w'.slots.counter a) ∧ w'.slots.cell = w.slots.cell := by
  have hrel := world_begin env hrun (R := fun w w' : WorldState =>
      (∀ a, w.slots.counter a ≤ w'.slots.counter a) ∧ w'.slots.cell = w.slots.cell)
    (fun _ => ⟨fun _ => le_rfl, rfl⟩)
    (fun h h' => ⟨fun a => (h.1 a).trans (h'.1 a), h'.2.trans h.2⟩)
    (fun h => by rw [slots_payValue h]; exact ⟨fun _ => le_rfl, rfl⟩)
    (fun w c => ⟨(slots_reserve w _ c).2.2, (slots_reserve w _ c).1⟩)
  rw [hw] at hrel
  exact exists_of_rel hrel

theorem grown_begin (env : Env) (P : Bytes → Int → Prop) (hrun : evm.running = true) :
    Grown env P evm (final (begin env evm)) := by
  intro w hw _
  obtain ⟨w', hw', hcounter, hcell⟩ := slots_begin env hrun hw
  exact ⟨w', hw', grows_of_cell hcounter hcell⟩

/-- A frame that creates a contract has used up its nonce. -/
theorem counter_of_create {q : PendingCreate} (hrun : evm.running = true)
    (hb : begin env evm = .ok (some (.create q)) evm₁) (hw : evm.worldState = some w)
    (hw' : evm₁.worldState = some w') :
    w'.slots.counter evm.context.address = w.slots.counter evm.context.address + 1 := by
  obtain ⟨opcode, code, value, data, gas, w₀, w₁, hc, hs, -⟩ := childOf_of_begin hrun hb
  cases hw.symm.trans hc.world
  cases hw'.symm.trans (congrArg Shell.worldState hs)
  rw [slots_payValue hc.paid]
  exact (slots_reserve w _ _).2.1

/-- The frame and its child so far: the child has started where the first half has ended. -/
theorem grown_child (hrun : evm.running = true) (hb : begin env evm = .ok (some p) evm₁)
    (hchild : Grown env P p.child (final c)) (hw : evm.worldState = some w)
    (hfresh : Fresh (Named env P) [] w.slots) :
    ∃ w₁ w₂, evm₁.worldState = some w₁ ∧ (final c).worldState = some w₂ ∧
      (∀ a, w.slots.counter a ≤ w₁.slots.counter a) ∧ w₁.slots.cell = w.slots.cell ∧
      Grows (Named env P) [] w₁.slots w₂.slots := by
  obtain ⟨w₁, hw₁, hcounter, hcell⟩ := slots_begin env hrun hw
  rw [hb] at hw₁
  obtain ⟨-, -, -, hworld⟩ := begin_child hrun hb
  obtain ⟨w₂, hw₂, hgrows⟩ :=
    hchild w₁ (hworld.trans hw₁) ((grows_of_cell hcounter hcell).fresh hfresh)
  exact ⟨w₁, w₂, hw₁, hw₂, hcounter, hcell, hgrows⟩

section Frames

variable (hinj : Injective (Named env P)) (hP : CreatesIn env P start)
include hinj hP

/-- When a creation comes to an end nobody else has stored code at its address. -/
theorem fill_create {q : PendingCreate} (hs : Reaches env start evm) (hrun : evm.running = true)
    (hb : begin env evm = .ok (some (.create q)) evm₁) (hchild : Grown env P q.child (final c))
    (hw : evm.worldState = some w) (hfresh : Fresh (Named env P) [] w.slots)
    (hw' : (final c).worldState = some w') :
    (w'.getAccount q.contractAddress).code = [] ∧
      ∀ code storage, Grows (Named env P) [] w.slots
        ((w'.setCode q.contractAddress code).persistStorage q.contractAddress storage).slots := by
  obtain ⟨w₁, w₂, hw₁, hw₂, hcounter, hcell, hgrows⟩ := grown_child hrun hb hchild hw hfresh
  cases hw'.symm.trans hw₂
  obtain ⟨w₀, hw₀, haddress⟩ := (target_of_begin hrun hb).2 q rfl
  cases hw.symm.trans hw₀
  have hname : Named env P evm.context.address (w.slots.counter evm.context.address)
      q.contractAddress := ⟨hP _ _ _ _ hs hrun hb hw, haddress⟩
  have hbumped := counter_of_create hrun hb hw hw₁
  obtain ⟨hempty, hfill⟩ := Grows.fill hinj hfresh hname hcounter hcell (by omega) hgrows
  refine ⟨hempty, fun code storage => ?_⟩
  rw [slots_persistStorage]
  exact hfill _ (slots_setCode w' _ _).1 (slots_setCode w' _ _).2

theorem grown_settle (hs : Reaches env start evm) (hrun : evm.running = true)
    (hb : begin env evm = .ok (some p) evm₁) (hchild : Grown env P p.child (final c)) :
    Grown env P evm (final (settle env p (conclude p.gas c) evm₁)) := by
  intro w hw hfresh
  obtain ⟨w₁, w₂, hw₁, hw₂, hcounter, hcell, hgrows⟩ := grown_child hrun hb hchild hw hfresh
  have hsofar := (grows_of_cell hcounter hcell).trans hgrows
  rw [(settle_settled env p (conclude p.gas c) evm₁).worldState]
  rcases merge_conclude p c with hmerge | ⟨child, rfl, hmerge⟩
  · exact ⟨w₂, hmerge.trans hw₂, hsofar⟩
  · rw [hmerge, show child.worldState = some w₂ from hw₂]
    refine ⟨_, rfl, ?_⟩
    cases p with
    | call q =>
      rw [Pending.commit, slots_persistStorage]
      exact hsofar
    | create q => exact (fill_create hinj hP hs hrun hb hchild hw hfresh hw₂).2 _ _

theorem grown_run {r : LoopResult} (h : Run env evm r) (hs : Reaches env start evm) :
    Grown env P evm (final r) :=
  h.of_iterations hs (fun _ w hw _ => ⟨w, hw, .refl _⟩) .trans
    (fun _ hrun => grown_begin env P hrun) fun hs hrun hb _ => grown_settle hinj hP hs hrun hb

/-- At every loop head that is reached all code has an address from a used nonce. -/
theorem fresh_reaches (h : Reaches env start evm) (hw : start.worldState = some w)
    (hfresh : Fresh (Named env P) [] w.slots) :
    ∃ w', evm.worldState = some w' ∧ Fresh (Named env P) [] w'.slots := by
  induction h with
  | refl => exact ⟨w, hw, hfresh⟩
  | tail hs hn ih =>
    obtain ⟨w₀, hw₀, hfresh₀⟩ := ih
    have hgrown : ∀ {evm₀ evm'}, evm₀.worldState = some w₀ → Grown env P evm₀ evm' →
        ∃ w', evm'.worldState = some w' ∧ Fresh (Named env P) [] w'.slots := by
      intro evm₀ evm' hw hgrown
      obtain ⟨w', hw', hgrows⟩ := hgrown w₀ hw hfresh₀
      exact ⟨w', hw', hgrows.fresh hfresh₀⟩
    cases hn with
    | step hrun hb =>
      have hfirst := grown_begin env P hrun
      rw [hb] at hfirst
      exact hgrown hw₀ hfirst
    | enter hrun hb =>
      have hfirst := grown_begin env P hrun
      rw [hb] at hfirst
      obtain ⟨-, -, -, hworld⟩ := begin_child hrun hb
      rw [hworld]
      exact hgrown hw₀ hfirst
    | resume hrun hb hc hset =>
      have hiteration := grown_settle hinj hP hs hrun hb
        (grown_run hinj hP hc (hs.tail (.enter hrun hb)))
      rw [hset] at hiteration
      exact hgrown hw₀ hiteration

end Frames

/-- A creation below `start` stores its result as code: the world state before, and where. -/
inductive StoresCode (env : Env) (start : EVM) : WorldState → Bytes → Prop
  | intro {evm q evm₁ child w} (hs : Reaches env start evm) (hrun : evm.running = true)
      (hb : begin env evm = .ok (some (.create q)) evm₁) (hc : Run env q.child (.ok () child))
      (hsuccess : child.reverted = false) (hw : child.worldState = some w) :
      StoresCode env start w q.contractAddress

theorem vacant_of_storesCode (hinj : Injective (Named env P)) (hP : CreatesIn env P start)
    (h : StoresCode env start w' a) (hw : start.worldState = some w)
    (hfresh : Fresh (Named env P) [] w.slots) : (w'.getAccount a).code = [] := by
  cases h with
  | intro hs hrun hb hc _ hw' =>
    obtain ⟨w₀, hw₀, hfresh₀⟩ := fresh_reaches hinj hP hs hw hfresh
    have hchild := grown_run hinj hP hc (hs.tail (.enter hrun hb))
    exact (fill_create hinj hP hs hrun hb hchild hw₀ hfresh₀ hw').1

end Ethereum
