import Ethereum.Evm.Metering
import Ethereum.Evm.Targets

/-! The storage and the ledger that a frame in range sees: keys are words as well, and no
ether is made. -/
namespace Ethereum

open Stateful Relation

/-- A storage whose keys are words. -/
def WordKeyed (storage : Dict Int Int) : Prop := ∀ k v, storage.get? k = some v → Word k

theorem wordKeyed_empty : WordKeyed .empty := fun _ _ h => absurd h (by simp)

theorem WordKeyed.set {storage : Dict Int Int} (h : WordKeyed storage) {k : Int} (hk : Word k)
    (v : Int) : WordKeyed (storage.set k v) :=
  Dict.forall_set (P := fun j _ => Word j) h hk

theorem WordKeyed.update {storage other : Dict Int Int} (h : WordKeyed storage)
    (ho : WordKeyed other) : WordKeyed (storage.update other) :=
  Dict.forall_update (P := fun j _ => Word j) h ho

/-- The keys of every account are words. -/
def WorldState.WordKeyed (w : WorldState) : Prop := ∀ a, Ethereum.WordKeyed (w.getAccount a).storage

section World

variable {w w' : WorldState} {a sender recipient : Bytes} {value : Int}

theorem WorldState.WordKeyed.congr (h : w.WordKeyed)
    (hstorage : ∀ a, (w'.getAccount a).storage = (w.getAccount a).storage) : w'.WordKeyed :=
  fun a => hstorage a ▸ h a

theorem wordKeyed_payValue (h : w.WordKeyed) (hpay : payValue w sender recipient value = .ok w') :
    w'.WordKeyed :=
  h.congr (field_payValue Account.storage (fun _ _ => rfl) hpay)

theorem wordKeyed_reserve (h : w.WordKeyed) (creator c : Bytes) :
    (w.reserve creator c).WordKeyed :=
  h.congr (field_reserve Account.storage (fun _ _ => rfl) creator c)

theorem wordKeyed_persistStorage (h : w.WordKeyed) (a : Bytes) {storage : Dict Int Int}
    (hstorage : Ethereum.WordKeyed storage) : (w.persistStorage a storage).WordKeyed := by
  intro b
  rw [WorldState.getAccount_persistStorage]
  split
  · exact (h a).update hstorage
  · exact h b

theorem wordKeyed_setCode (h : w.WordKeyed) (a code : Bytes) : (w.setCode a code).WordKeyed :=
  h.congr (WorldState.field_setCode Account.storage (fun _ _ => rfl) a code)

theorem wordKeyed_commit (h : w.WordKeyed) (p : Pending) (returnData : Bytes)
    {storage : Dict Int Int} (hstorage : Ethereum.WordKeyed storage) :
    (p.commit returnData storage w).WordKeyed := by
  cases p with
  | call q => exact wordKeyed_persistStorage h _ hstorage
  | create q => exact wordKeyed_persistStorage (wordKeyed_setCode h _ _) _ hstorage

end World

/-- The keys that a frame sees, in its copy and in the world state. -/
structure EVM.Keyed (evm : EVM) : Prop where
  storage : WordKeyed evm.storage
  world : ∀ w, evm.worldState = some w → w.WordKeyed

variable {env : Env} {evm evm' start : EVM}

/-- What `Keyed` looks at. -/
def EVM.stores (evm : EVM) : Dict Int Int × Option WorldState := (evm.storage, evm.worldState)

instance : Ignores EVM.stores := ⟨fun _ _ => rfl, fun _ _ => rfl⟩

theorem EVM.Keyed.congr (h : evm.Keyed) (hs : evm'.stores = evm.stores) : evm'.Keyed where
  storage := (show evm'.storage = evm.storage from congrArg Prod.fst hs) ▸ h.storage
  world := (show evm'.worldState = evm.worldState from congrArg Prod.snd hs) ▸ h.world

theorem stores_of_shell {shell : Shell} (hs : evm'.shell = shell) :
    evm'.stores = (shell.storage, shell.worldState) :=
  hs ▸ rfl

theorem stores_localOp {opcode : Opcode} (h : opcode ≠ .sstore) :
    Keeps EVM.stores (localOp env opcode) := by
  by_cases hl : opcode = .sload
  · subst hl
    exact keeps_stackPop.bind fun _ => keeps_get.bind fun _ =>
      Keeps.bind (keeps_modify fun _ => rfl) fun _ => keeps_stackPush _
  · intro evm
    exact stores_of_shell (shell_localOp env hl h evm)

/-- `SSTORE` writes to a key from the stack. -/
theorem keyed_opSstore (hr : evm.InRange) (h : evm.Keyed) : (final (opSstore evm)).Keyed := by
  unfold opSstore
  refine bind_cases (P := fun r => EVM.Keyed (final r)) ?_ ?_
  · intro key evm₁ h₁
    have hkey : Word key := hr.stack key (by simp [stackPop_eq_ok h₁])
    have hk₁ : evm₁.Keyed := h.congr (keeps_stackPop.of_ok h₁)
    refine bind_cases (P := fun r => EVM.Keyed (final r)) ?_ ?_
    · intro value evm₂ h₂
      have hk₂ : evm₂.Keyed := hk₁.congr (keeps_stackPop.of_ok h₂)
      exact ⟨hk₂.storage.set hkey value, hk₂.world⟩
    · intro e evm₂ h₂
      exact hk₁.congr (keeps_stackPop.of_error h₂)
  · intro e evm₁ h₁
    exact h.congr (keeps_stackPop.of_error h₁)

theorem keyed_localOp (hr : evm.InRange) (h : evm.Keyed) (opcode : Opcode) :
    (final (localOp env opcode evm)).Keyed := by
  by_cases hs : opcode = .sstore
  · subst hs
    exact keyed_opSstore hr h
  · exact h.congr (stores_localOp hs evm)

theorem keyed_of_world {w : WorldState} (h : evm.Keyed)
    (hs : evm'.shell = { evm.shell with worldState := some w }) (hw : w.WordKeyed) :
    evm'.Keyed where
  storage := (show evm'.storage = evm.storage from congrArg Shell.storage hs) ▸ h.storage
  world w' h' := by
    rw [show evm'.worldState = some w from congrArg Shell.worldState hs] at h'
    cases h'
    exact hw

theorem ChildOf.wordKeyed {p : Pending} {code data : Bytes} {value gas : Int} {w w' : WorldState}
    (hc : ChildOf evm p code value data gas w w') (h : evm.Keyed) : w'.WordKeyed := by
  have hw := h.world w hc.world
  cases p with
  | call q => exact wordKeyed_payValue hw hc.paid
  | create q => exact wordKeyed_payValue (wordKeyed_reserve hw _ _) hc.paid

theorem keyed_start {r : EStateM.Result Abort EVM (Option Pending)} (h : evm.Keyed)
    (hstart : Start evm r) : (final r).Keyed := by
  cases hstart with
  | unchanged hr hs => exact h.congr (stores_of_shell hs)
  | paid hr hw hpay hs => exact keyed_of_world h hs (wordKeyed_payValue (h.world _ hw) hpay)
  | reserved hr hw hs => exact keyed_of_world h hs (wordKeyed_reserve (h.world _ hw) _ _)
  | child hc hs hstack => exact keyed_of_world h hs (hc.wordKeyed h)

theorem keyed_begin (env : Env) (hrun : evm.running = true) (hr : evm.InRange) (h : evm.Keyed) :
    (final (begin env evm)).Keyed := by
  refine final_begin (P := EVM.Keyed) env hrun h ⟨h.storage, h.world⟩ ?_
  intro opcode _ hgas _
  have hcharge : (evm.charge opcode).Keyed := ⟨h.storage, h.world⟩
  by_cases hc : opcode = .create
  · subst hc
    have hstart : StartAs Pending.create (evm.charge .create)
      (opCreateStart env (evm.charge .create)) := opCreateStart_start
    rw [beginOp_create]
    exact keyed_start hcharge hstart
  · by_cases hl : opcode = .call
    · subst hl
      have hstart : StartAs Pending.call (evm.charge .call)
        (opCallStart env (evm.charge .call)) := opCallStart_start
      rw [beginOp_call]
      exact keyed_start hcharge hstart
    · rw [beginOp_local hc hl, final_mapOk]
      exact keyed_localOp (inRange_charge hr hgas) hcharge opcode

/-- A child frame starts with keys that its parent sees. -/
theorem keyed_child {p : Pending} (hrun : evm.running = true)
    (hb : begin env evm = .ok (some p) evm') (h : evm'.Keyed) : p.child.Keyed := by
  obtain ⟨opcode, code, value, data, gas, w, w', hc, hs, -⟩ := childOf_of_begin hrun hb
  have hw' : w'.WordKeyed := h.world w' (congrArg Shell.worldState hs)
  rw [hc.child]
  refine ⟨?_, fun w₁ hw₁ => ?_⟩
  · cases p with
    | call q =>
      have hkeyed := hw' q.targetAddress
      rwa [field_payValue Account.storage (fun _ _ => rfl) hc.paid] at hkeyed
    | create q => exact wordKeyed_empty
  · cases hw₁
    exact hw'

theorem keyed_settle {p : Pending} {c : LoopResult} (h : evm.Keyed) (hc : (final c).Keyed) :
    (final (settle env p (conclude p.gas c) evm)).Keyed := by
  have hsettled := settle_settled env p (conclude p.gas c) evm
  refine ⟨hsettled.storage ▸ h.storage, fun w hw => ?_⟩
  rw [hsettled.worldState] at hw
  rcases merge_conclude p c with hmerge | ⟨child, rfl, hmerge⟩
  · exact hc.world w (hmerge ▸ hw)
  · obtain ⟨w₀, hw₀, rfl⟩ := Option.map_eq_some_iff.mp (hmerge ▸ hw)
    exact wordKeyed_commit (hc.world w₀ hw₀) p _ hc.storage

/-- Frames in range keep the keys in range. -/
theorem frameInvariant_keyed (env : Env) : FrameInvariant env EVM.InRange EVM.Keyed where
  first hr hrun h := keyed_begin env hrun hr h
  child _ hrun hb h := keyed_child hrun hb h
  second _ _ _ _ h hc := keyed_settle h hc

section Ledger

variable {S : Bytes → Prop} {P : WorldState → Prop}

/-- In the first half of an iteration a frame can pay and use up its nonce. -/
theorem world_begin (env : Env) (hrun : evm.running = true) {R : WorldState → WorldState → Prop}
    (hrefl : ∀ w, R w w) (htrans : ∀ {w w' w''}, R w w' → R w' w'' → R w w'')
    (hpay : ∀ {w w' recipient value},
      payValue w evm.context.address recipient value = .ok w' → R w w')
    (hreserve : ∀ w contractAddress, R w (w.reserve evm.context.address contractAddress)) :
    Option.Rel R evm.worldState (final (begin env evm)).worldState := by
  have hsame : ∀ {o : Option WorldState}, o = evm.worldState → Option.Rel R evm.worldState o := by
    rintro o rfl
    cases evm.worldState with
    | none => exact .none
    | some w => exact .some (hrefl w)
  have hmoved : ∀ {o : Option WorldState} {w w'}, evm.worldState = some w → R w w' →
      o = some w' → Option.Rel R evm.worldState o := by
    intro o w w' hw hr ho
    rw [hw, ho]
    exact .some hr
  refine final_begin (P := fun evm₁ => Option.Rel R evm.worldState evm₁.worldState) env hrun
    (hsame rfl) (hsame rfl) ?_
  intro opcode _ _ _
  have heffect := beginOp_effect env (evm.charge opcode) opcode
  generalize beginOp env opcode (evm.charge opcode) = r at heffect
  cases heffect with
  | inFrame hr h => exact hsame ((world_localEffect h).trans rfl)
  | contract hop h =>
    cases h with
    | unchanged hr hs => exact hsame (congrArg Shell.worldState hs)
    | paid hr hw hp hs => exact hmoved hw (hpay hp) (congrArg Shell.worldState hs)
    | reserved hr hw hs => exact hmoved hw (hreserve _ _) (congrArg Shell.worldState hs)
    | @child p evm' code value data gas w w' hc hs hstack =>
      refine hmoved hc.world (htrans ?_ (hpay hc.paid)) (congrArg Shell.worldState hs)
      cases p with
      | call q => exact hrefl _
      | create q => exact hreserve _ _

theorem exists_of_rel {α β : Type} {R : α → β → Prop} {a : α} {o : Option β}
    (h : Option.Rel R (some a) o) : ∃ b, o = some b ∧ R a b := by
  cases h with
  | some h => exact ⟨_, rfl, h⟩

/-- The first half of an iteration moves the world state in the name of its own account. -/
theorem moves_begin (env : Env) (hrun : evm.running = true) (hS : S evm.context.address)
    {w' : WorldState} (hw' : (final (begin env evm)).worldState = some w') :
    ∃ w, evm.worldState = some w ∧ Moves S w w' := by
  have hrel := world_begin env hrun (R := Moves S) (fun _ => .refl) .trans (.pay hS)
    fun _ c => moves_reserve hS c
  rw [hw'] at hrel
  cases hw : evm.worldState with
  | none => rw [hw] at hrel; cases hrel
  | some w =>
    rw [hw] at hrel
    cases hrel with
    | some hm => exact ⟨w, rfl, hm⟩

/-- What the first half of an iteration and the commits of child frames keep holds of the
ledger, if all frames run at some accounts. -/
theorem frameInvariant_world (env : Env)
    (hS : ∀ {evm evm₁ p}, evm.running = true → begin env evm = .ok (some p) evm₁ → S p.address)
    (hbegin : ∀ {evm}, evm.running = true → S evm.context.address →
      (∀ w, evm.worldState = some w → P w) →
      ∀ w, (final (begin env evm)).worldState = some w → P w)
    (hcommit : ∀ {p : Pending} {w} returnData storage, S p.address → P w →
      P (p.commit returnData storage w)) :
    FrameInvariant env (fun _ => True) fun evm =>
      S evm.context.address ∧ ∀ w, evm.worldState = some w → P w where
  first _ hrun h := by
    rw [(frame_begin env hrun).2]
    exact ⟨h.1, hbegin hrun h.1 h.2⟩
  child _ hrun hb h := by
    obtain ⟨haddress, -, -, hworld⟩ := begin_child hrun hb
    rw [haddress, hworld]
    exact ⟨hS hrun hb, h.2⟩
  second := by
    intro evm evm₁ p c _ hrun hb hc h hchild
    have hsettled := settle_settled env p (conclude p.gas c) evm₁
    rw [hsettled.context, hsettled.worldState]
    refine ⟨h.1, fun w hw => ?_⟩
    rcases merge_conclude p c with hmerge | ⟨child, rfl, hmerge⟩
    · exact hchild.2 w (hmerge ▸ hw)
    · obtain ⟨w₀, hw₀, rfl⟩ := Option.map_eq_some_iff.mp (hmerge ▸ hw)
      exact hcommit _ _ (hS hrun hb) (hchild.2 w₀ hw₀)

/-- What the moves of some accounts keep holds of the ledger, if all frames run at these. -/
theorem frameInvariant_moves (env : Env)
    (hS : ∀ {evm evm₁ p}, evm.running = true → begin env evm = .ok (some p) evm₁ → S p.address)
    (hP : ∀ {w w'}, Moves S w w' → P w → P w') :
    FrameInvariant env (fun _ => True) fun evm =>
      S evm.context.address ∧ ∀ w, evm.worldState = some w → P w := by
  apply frameInvariant_world env hS
  · intro evm hrun haddress h w' hw'
    obtain ⟨w, hw, hm⟩ := moves_begin env hrun haddress hw'
    exact hP hm (h w hw)
  · intro p w returnData storage ha hw
    exact hP (moves_commit p returnData storage w ha) hw

/-- Accounts with code have the addresses of contracts. -/
def WorldState.Located (w : WorldState) : Prop :=
  ∀ a, (w.getAccount a).code ≠ [] → a.length = 20

theorem Move.located {w w' : WorldState} (h : Move (fun a => a.length = 20) w w')
    (hw : w.Located) : w'.Located := by
  intro a
  by_cases ha : a.length = 20
  · exact fun _ => ha
  · rw [(h.untouched ha).code]
    exact hw a

theorem Moves.located {w w' : WorldState} (h : Moves (fun a => a.length = 20) w w')
    (hw : w.Located) : w'.Located := by
  induction h with
  | refl => exact hw
  | tail _ hm ih => exact hm.located ih

/-- A ledger without debt and with less than 2^256 ether. -/
structure WorldState.Capped (w : WorldState) : Prop where
  solvent : w.Solvent
  total : w.totalBalance < 2 ^ 256

theorem WorldState.Capped.moves {w w' : WorldState} (hm : Moves S w w') (h : w.Capped) :
    w'.Capped :=
  ⟨hm.solvent h.solvent, hm.totalBalance ▸ h.total⟩

theorem WorldState.balance_le_total {w : WorldState} (h : w.Solvent) (a : Bytes) :
    w.getBalance a ≤ w.totalBalance := by
  have hentries : ∀ b account, w.accounts.get? b = some account → 0 ≤ account.balance := by
    intro b account hb
    have hsolvent := h b
    rwa [WorldState.getBalance, WorldState.getAccount, Dict.getD, hb] at hsolvent
  unfold WorldState.getBalance WorldState.getAccount Dict.getD WorldState.totalBalance
  cases ha : w.accounts.get? a with
  | none => exact Dict.total_nonneg hentries
  | some account => exact Dict.le_total hentries ha

/-- No account of a capped ledger holds more than a word can tell. -/
theorem WorldState.Capped.word {w : WorldState} (h : w.Capped) (a : Bytes) :
    Word (w.getBalance a) :=
  ⟨h.solvent a, (balance_le_total h.solvent a).trans_lt h.total⟩

end Ledger

end Ethereum
