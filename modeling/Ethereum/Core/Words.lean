import Ethereum.Core.Conservation
import Ethereum.Core.Failure
import Ethereum.Core.Replay
import Ethereum.Core.Transition
import Ethereum.Evm.Words
import Ethereum.State.Genesis

/-! Every machine word is a word of 256 bits, over whole runs from a genesis state. The ledger
bounds the values that transactions send, and these bound the words of the machine. -/
namespace Ethereum

open Stateful Sequencing

/-- What code and storage of a world state have to satisfy. -/
structure WorldState.WellFormed (w : WorldState) : Prop where
  inRange : w.InRange
  keyed : w.WordKeyed
  located : w.Located

structure TxState.Sound (s : TxState) : Prop where
  world : s.world.WellFormed
  capped : s.world.Capped
  log : Funded s.log

/-- Everything that holds of a frame at any time. -/
structure EVM.Sound (evm : EVM) : Prop where
  metered : evm.Metered
  keyed : evm.Keyed
  address : evm.context.address.length = 20
  located : ∀ w, evm.worldState = some w → w.Located
  capped : ∀ w, evm.worldState = some w → w.Capped

/-- The bounds on an accepted transaction that the code leaves to its caller. -/
structure Transaction.Bounded (tx : Transaction) : Prop where
  gas : tx.gas < 2 ^ 256
  data : Short tx.data

variable {env : Env} {fuel : Nat} {tx : Transaction} {sender : Bytes} {blockGasLimit : Int}
  {s s' : TxState} {result : TransactionResult} {w w' : WorldState} {start evm : EVM}

section World

theorem WorldState.WellFormed.congr (h : w.WellFormed)
    (hcode : ∀ a, (w'.getAccount a).code = (w.getAccount a).code)
    (hstorage : ∀ a, (w'.getAccount a).storage = (w.getAccount a).storage) : w'.WellFormed where
  inRange := h.inRange.congr hcode hstorage
  keyed := h.keyed.congr hstorage
  located a ha := h.located a (hcode a ▸ ha)

theorem wellFormed_bill (h : w.WellFormed) : (w.bill tx sender).WellFormed :=
  h.congr (field_bill Account.code fun _ _ _ => rfl) (field_bill Account.storage fun _ _ _ => rfl)

theorem wellFormed_touch (h : w.WellFormed) (a : Bytes) : (w.addBalance a 0).WellFormed :=
  h.congr (WorldState.field_addBalance Account.code (fun _ _ => rfl) a 0)
    (WorldState.field_addBalance Account.storage (fun _ _ => rfl) a 0)

theorem wellFormed_refund (h : w.WellFormed) (gasRemaining : Int) :
    (w.refund tx sender gasRemaining).WellFormed :=
  h.congr (field_refund Account.code (fun _ _ => rfl) gasRemaining)
    (field_refund Account.storage (fun _ _ => rfl) gasRemaining)

theorem wellFormed_payValue {recipient : Bytes} {value : Int} (h : w.WellFormed)
    (hpay : payValue w sender recipient value = .ok w') : w'.WellFormed :=
  h.congr (field_payValue Account.code (fun _ _ => rfl) hpay)
    (field_payValue Account.storage (fun _ _ => rfl) hpay)

theorem wellFormed_topCommit {t : TopFrame} {returnData : Bytes} {storage : Dict Int Int}
    (h : w.WellFormed) (ht : t.address.length = 20) (hdata : Short returnData)
    (hstorage : WordValued storage) (hkeys : WordKeyed storage) :
    (t.commit returnData storage w).WellFormed where
  inRange := by
    unfold TopFrame.commit
    split
    · exact inRange_persistStorage (inRange_setCode h.inRange _ hdata) _ hstorage
    · exact inRange_persistStorage h.inRange _ hstorage
  keyed := by
    unfold TopFrame.commit
    split
    · exact wordKeyed_persistStorage (wordKeyed_setCode h.keyed _ _) _ hkeys
    · exact wordKeyed_persistStorage h.keyed _ hkeys
  located := (moves_topCommit (S := fun a => a.length = 20) t returnData storage w ht).located
    h.located

theorem capped_of_le (h : w.Capped) (hs : w'.Solvent) (hle : w'.totalBalance ≤ w.totalBalance) :
    w'.Capped :=
  ⟨hs, hle.trans_lt h.total⟩

end World

section Frame

theorem EVM.Sound.passes (h : start.Sound) (hp : Passes env start evm) : evm.Sound := by
  have hG : ∀ {evm}, Reaches env start evm → evm.InRange :=
    fun hs => (hs.metered h.metered).inRange
  have hlocated := (frameInvariant_moves env (S := fun a => a.length = 20)
    (P := WorldState.Located) length_of_target Moves.located).passes (fun _ => trivial) hp
    ⟨h.address, h.located⟩
  have hcapped := (frameInvariant_moves env (S := fun _ => True) (P := WorldState.Capped)
    (fun _ _ => trivial) WorldState.Capped.moves).passes (fun _ => trivial) hp ⟨trivial, h.capped⟩
  exact {
    metered := hp.metered h.metered
    keyed := (frameInvariant_keyed env).passes hG hp h.keyed
    address := hlocated.1
    located := hlocated.2
    capped := hcapped.2 }

/-- The frame of a transaction in a sound state starts sound. -/
theorem Starts.sound (h : Starts env tx blockGasLimit s start) (hs : s.Sound)
    (htx : tx.Bounded) : start.Sound := by
  cases h with
  | @intro sender t w w' hvalid ht hpay =>
    have hgas : 0 ≤ tx.gas * tx.gasPrice :=
      Int.mul_nonneg hvalid.nonNegative.gas hvalid.nonNegative.gasPrice
    have hbalance : tx.value + tx.gas * tx.gasPrice ≤ s.world.getBalance sender := hvalid.balance
    have hvalue : tx.value < 2 ^ 256 := by
      have := (hs.capped.word sender).lt
      omega
    have hbill : (s.world.bill tx sender).WellFormed := wellFormed_bill hs.world
    have hcapped : (s.world.bill tx sender).Capped :=
      capped_of_le hs.capped (solvent_bill hs.capped.solvent hvalid.upfront_le)
        (by rw [totalBalance_bill]; omega)
    have hwell : w'.WellFormed := by
      cases ht with
      | message hto hcode => exact wellFormed_payValue hbill hpay
      | creation hto ha => exact wellFormed_payValue (wellFormed_touch hbill _) hpay
    have hpaid : w'.Capped := by
      have hmoves := (Moves.mono (T := fun _ => True) (fun _ h => h.elim) ht.touch).trans
        (Moves.pay (S := fun _ => True) trivial hpay)
      exact hcapped.moves hmoves
    have haddress : t.address.length = 20 := by
      cases ht with
      | message hto hcode => exact hbill.located _ hcode
      | creation hto ha => exact length_of_computeContractAddress ha
    have hto : tx.to.length ≤ 32 := by
      cases ht with
      | message hto hcode => exact haddress.trans_le (by omega)
      | creation hto ha => simp [hto]
    have hrange := inRange_start hvalid ⟨htx.gas, hvalue, hto, htx.data⟩ hs.world.inRange hs.log
      ht hpay
    refine ⟨⟨hrange, le_rfl⟩, ⟨?_, ?_⟩, haddress, ?_, ?_⟩
    · cases ht with
      | message hto hcode => exact hbill.keyed _
      | creation hto ha => exact wordKeyed_empty
    · intro w₁ hw₁
      cases hw₁
      exact hwell.keyed
    · intro w₁ hw₁
      cases hw₁
      exact hwell.located
    · intro w₁ hw₁
      cases hw₁
      exact hpaid

end Frame

section Runs

theorem funded_leave {log : List Event} (h : Funded log) (kind : FrameKind) (ending : Ending) :
    Funded (log ++ [.leave kind ending]) := by
  intro k context hmem
  rcases List.mem_append.mp hmem with hmem | hmem
  · exact h k context hmem
  · cases List.mem_singleton.mp hmem

theorem funded_logOf {log : List Event} (h : LogOf env tx blockGasLimit s log) (hs : s.Sound)
    (htx : tx.Bounded) : Funded log := by
  cases h with
  | same => exact hs.log
  | frame hstart hc =>
    exact funded_leave (run_inRange hc (hstart.sound hs htx).metered.inRange).shared.log _ _

/-- The frame of a transaction that has ended. -/
theorem sound_of_run (hstart : start.Sound) (h : Run env start (.ok () evm)) : evm.Sound :=
  hstart.passes (.head (reaches_of_run h rfl))

/-- Where an accepted transaction leaves the gas account. -/
structure GasAccount (tx : Transaction) (result : TransactionResult) : Prop where
  sum : result.gasUsed + result.gasRemaining = tx.gas
  intrinsic : calculateIntrinsicGas tx.data ≤ result.gasUsed
  le : result.gasUsed ≤ tx.gas

theorem gasAccount_of_transition (h : Transition env tx blockGasLimit s s' result) (hs : s.Sound)
    (htx : tx.Bounded) : GasAccount tx result := by
  cases h with
  | failed hvalid _ _ _ hused hremaining =>
    have := hvalid.intrinsicGas
    constructor <;> omega
  | transferred hvalid _ _ _ _ hused hremaining =>
    have := hvalid.intrinsicGas
    unfold Transaction.executionGas at hused hremaining
    constructor <;> omega
  | executed hvalid ht hpay hrun _ _ _ hused hremaining =>
    have hstart := Starts.sound (.intro hvalid ht hpay) hs htx
    have hmetered := (sound_of_run hstart hrun).metered
    have h0 := hmetered.inRange.gas.nonneg
    have hle := hmetered.le
    have hcontext := (run_progress hrun).context
    rw [final_ok] at hcontext
    rw [hcontext] at hle
    change _ ≤ tx.executionGas at hle
    unfold Transaction.executionGas at hle
    have := hvalid.intrinsicGas
    constructor <;> omega

theorem wellFormed_of_transition (h : Transition env tx blockGasLimit s s' result)
    (hs : s.Sound) (htx : tx.Bounded) : s'.world.WellFormed := by
  cases h with
  | failed _ hworld => exact hworld ▸ wellFormed_bill hs.world
  | transferred _ hpay hworld =>
    exact hworld ▸ wellFormed_refund (wellFormed_payValue (wellFormed_bill hs.world) hpay) _
  | @executed sender t w w' evm hvalid ht hpay hrun hworld _ _ _ _ =>
    have hstart := Starts.sound (.intro hvalid ht hpay) hs htx
    have hend := sound_of_run hstart hrun
    have hrange := hend.metered.inRange
    have hmem : t.address ∈ entered (t.start tx sender tx.executionGas w' s.log).log :=
      entered_start t s.log
    obtain ⟨w₁, hw₁, -⟩ := (run_progress hrun).world hmem w' rfl
    rw [final_ok] at hw₁
    have hwell : w₁.WellFormed :=
      ⟨hrange.shared.world w₁ hw₁, hend.keyed.world w₁ hw₁, hend.located w₁ hw₁⟩
    rw [hworld, hw₁, Option.getD_some]
    exact wellFormed_refund (wellFormed_topCommit hwell hstart.address hrange.returnData
      hrange.storage hend.keyed.storage) _

/-- An accepted transaction leads from a sound state to a sound one. -/
theorem sound_of_applyTransaction (hs : s.Sound) (htx : tx.Bounded)
    (h : applyTransaction env fuel tx blockGasLimit s = .ok result s') : s'.Sound := by
  have htransition := transition_of_applyTransaction h
  obtain ⟨htotal, hsolvent⟩ := (accepted_of_applyTransaction h).conserves hs.capped.solvent
  have hgas := gasAccount_of_transition htransition hs htx
  have hprice : 0 ≤ result.gasUsed * tx.gasPrice := by
    have hintrinsic := le_calculateIntrinsicGas tx.data
    have hle := hgas.intrinsic
    obtain ⟨sender, hvalid⟩ := htransition.valid
    exact Int.mul_nonneg (by omega) hvalid.nonNegative.gasPrice
  refine ⟨wellFormed_of_transition htransition hs htx,
    capped_of_le hs.capped hsolvent (by omega), ?_⟩
  cases htransition with
  | failed _ _ hlog => exact funded_logOf hlog hs htx
  | transferred _ _ _ hlog => exact hlog ▸ hs.log
  | executed hvalid ht hpay hrun _ hlog _ _ _ =>
    rw [hlog]
    exact funded_logOf (.frame (.intro hvalid ht hpay) hrun) hs htx

theorem sound_history {submissions : List Submission} (h : History (Submit env) s submissions s')
    (hs : s.Sound) (hbounded : ∀ x ∈ submissions, x.accepted = true → x.tx.Bounded) : s'.Sound := by
  induction h with
  | nil => exact hs
  | cons hstep _ ih =>
    refine ih ?_ fun x hx => hbounded x (List.mem_cons_of_mem _ hx)
    cases hstep with
    | accepted h => exact sound_of_applyTransaction hs (hbounded _ List.mem_cons_self rfl) h
    | rejected h => exact (state_of_rejected h) ▸ hs

theorem sound_genesis {alloc : Dict Bytes Int} (h0 : ∀ e ∈ alloc.entries, 0 ≤ e.2)
    (htotal : alloc.total id < 2 ^ 256) :
    TxState.Sound { world := WorldState.createGenesisState alloc } where
  world := by
    have hempty : ∀ a, ∃ balance,
        (WorldState.createGenesisState alloc).getAccount a = { balance } :=
      fun a => ⟨_, WorldState.getAccount_createGenesisState alloc a⟩
    refine ⟨⟨fun a => ?_, fun a => ?_⟩, fun a => ?_, fun a => ?_⟩ <;>
      obtain ⟨balance, ha⟩ := hempty a <;> rw [ha]
    · exact short_nil
    · exact wordValued_empty
    · exact wordKeyed_empty
    · exact fun h => absurd rfl h
  capped := ⟨WorldState.solvent_createGenesisState h0,
    (WorldState.totalBalance_createGenesisState alloc).trans_lt htotal⟩
  log := fun _ _ h => absurd h List.not_mem_nil

end Runs

section Gas

variable {alloc : Dict Bytes Int} {submissions : List Submission}

/-- Gas stays within bounds, through every nesting of frames and over whole runs, as long as
the gas of frames and of transactions fits in 256 bits. -/
theorem gas_within_bounds (env : Env) :
    (∀ code context storage world, (EVM.init code context storage world []).InRange →
      (∀ evm, Passes env (EVM.init code context storage world []) evm →
        0 ≤ evm.gasRemaining ∧ evm.gasRemaining ≤ evm.context.gas) ∧
      ∀ evm, Reaches env (EVM.init code context storage world []) evm →
        (∀ evm', Next env evm evm' → evm'.gasRemaining ≤ evm.gasRemaining) ∧
          ∀ p evm₁, evm.running = true → begin env evm = .ok (some p) evm₁ →
            p.child.gasRemaining = p.child.context.gas ∧
              p.child.gasRemaining ≤ evm₁.gasRemaining) ∧
    ∀ alloc submissions s, (∀ e ∈ alloc.entries, 0 ≤ e.2) → alloc.total id < 2 ^ 256 →
      History (Submit env) { world := WorldState.createGenesisState alloc } submissions s →
      (∀ x ∈ submissions, x.accepted = true → x.tx.Bounded) →
      ∀ fuel tx blockGasLimit result s', tx.Bounded →
        applyTransaction env fuel tx blockGasLimit s = .ok result s' →
        result.gasUsed + result.gasRemaining = tx.gas ∧
          calculateIntrinsicGas tx.data ≤ result.gasUsed ∧ result.gasUsed ≤ tx.gas ∧
          tx.gas ≤ blockGasLimit := by
  refine ⟨fun code context storage world hr => gas_bounded env code context storage world hr, ?_⟩
  intro alloc submissions s h0 htotal hhistory hbounded fuel tx blockGasLimit result s' htx h
  have hs := sound_history hhistory (sound_genesis h0 htotal) hbounded
  have htransition := transition_of_applyTransaction h
  obtain ⟨hsum, hintrinsic, hle⟩ := gasAccount_of_transition htransition hs htx
  obtain ⟨sender, hvalid⟩ := htransition.valid
  exact ⟨hsum, hintrinsic, hle, hvalid.blockGasLimit⟩

/-- One rich account. -/
def sampleAlloc : Dict Bytes Int := Dict.empty.set sampleSender 1000000

theorem bounded_deployTransaction : deployTransaction.Bounded := by
  constructor <;> simp [deployTransaction, Short]

/-- A contract that calls itself until the gas is used up, and a creation from genesis. -/
theorem gas_within_bounds_samples :
    (∀ evm, Passes sampleEnv
      (EVM.init spinCode (sampleContext 5000) .empty (some (sampleWorld spinCode [])) []) evm →
      0 ≤ evm.gasRemaining) ∧
    ∃ result s', applyTransaction deployEnv 100 deployTransaction 100000
      { world := WorldState.createGenesisState sampleAlloc } = .ok result s' ∧
      result.gasUsed + result.gasRemaining = 100000 := by
  have hr := inRange_sampleStart (show Short spinCode by simp [Short, spinCode])
    (show Word 5000 from ⟨by omega, by omega⟩)
  refine ⟨fun evm h => (((gas_within_bounds sampleEnv).1 _ _ _ _ hr).1 evm h).1, ?_⟩
  obtain ⟨result, s', h, -⟩ := exists_of_returns (p := fun result _ => result.success)
    (r := applyTransaction deployEnv 100 deployTransaction 100000
      { world := WorldState.createGenesisState sampleAlloc }) (by decide +kernel)
  have hgas := (gas_within_bounds deployEnv).2 sampleAlloc [] _ (by decide) (by decide +kernel) .nil
    (fun _ hx => absurd hx List.not_mem_nil) _ _ _ _ _ bounded_deployTransaction h
  exact ⟨result, s', h, hgas.1⟩

/-- Bytecode that calls its own contract once, with the complement of its gas. -/
def gainCode : Bytes := [0x34, 0x34, 0x34, 0x34, 0x34, 0x30, 0x5a, 0x19, 0xf1, 0x00]

/-- Above 2^256 the complement is negative, and the failed call pays the caller. -/
theorem gas_within_bounds_gain : ∃ result evm,
    execute sampleEnv 20 (EVM.init gainCode (sampleContext (2 * 2 ^ 256)) .empty
      (some (sampleWorld gainCode [])) []) = .ok result evm ∧
    (sampleContext (2 * 2 ^ 256)).gas < evm.gasRemaining := by
  obtain ⟨result, evm, h, hgain⟩ := exists_of_returns
    (p := fun _ evm => decide ((sampleContext (2 * 2 ^ 256)).gas < evm.gasRemaining))
    (r := execute sampleEnv 20 (EVM.init gainCode (sampleContext (2 * 2 ^ 256)) .empty
      (some (sampleWorld gainCode [])) [])) (by decide +kernel)
  exact ⟨result, evm, h, of_decide_eq_true hgain⟩

end Gas

section Words

/-- The block gas limit fits in 256 bits, and the data in memory. -/
structure Submission.Within (x : Submission) : Prop where
  blockGasLimit : x.blockGasLimit < 2 ^ 256
  data : Short x.tx.data

theorem gas_le_of_submit {x : Submission} (h : Submit env s x s') (hx : x.accepted = true) :
    x.tx.gas ≤ x.blockGasLimit := by
  cases h with
  | accepted h =>
    obtain ⟨sender, hvalid⟩ := (transition_of_applyTransaction h).valid
    exact hvalid.blockGasLimit
  | rejected h => cases hx

theorem bounded_of_history {submissions : List Submission}
    (h : History (Submit env) s submissions s')
    (hwithin : ∀ x ∈ submissions, x.accepted = true → x.Within) :
    ∀ x ∈ submissions, x.accepted = true → x.tx.Bounded := by
  have hgas := h.forall_labels (P := fun x => x.accepted = true → x.tx.gas ≤ x.blockGasLimit)
    gas_le_of_submit
  intro x hx haccepted
  obtain ⟨hlimit, hdata⟩ := hwithin x hx haccepted
  exact ⟨(hgas x hx haccepted).trans_lt hlimit, hdata⟩

/-- Keys and values of a storage are words. -/
def WordStorage (storage : Dict Int Int) : Prop :=
  ∀ k v, storage.get? k = some v → Word k ∧ Word v

/-- Balances, and keys and values of all storages, are words. -/
structure WorldState.InWords (w : WorldState) : Prop where
  balance : ∀ a, Word (w.getBalance a)
  storage : ∀ a, WordStorage (w.getAccount a).storage

theorem TxState.Sound.inWords (h : s.Sound) : s.world.InWords where
  balance := h.capped.word
  storage a k v hk := ⟨h.world.keyed a k v hk, h.world.inRange.storage a k v hk⟩

theorem EVM.Sound.inWords (h : evm.Sound) (hw : evm.worldState = some w) : w.InWords where
  balance := (h.capped w hw).word
  storage a k v hk := ⟨h.keyed.world w hw a k v hk,
    (h.metered.inRange.shared.world w hw).storage a k v hk⟩

/-- In a run from genesis under block gas limits below 2^256 every balance is a word, and in
every frame so are the stack and all storages. -/
theorem words_everywhere (env : Env) (alloc : Dict Bytes Int) (submissions : List Submission)
    (s : TxState) (h0 : ∀ e ∈ alloc.entries, 0 ≤ e.2) (htotal : alloc.total id < 2 ^ 256)
    (h : History (Submit env) { world := WorldState.createGenesisState alloc } submissions s)
    (hwithin : ∀ x ∈ submissions, x.accepted = true → x.Within) :
    s.world.InWords ∧
      ∀ tx blockGasLimit start evm, blockGasLimit < 2 ^ 256 → Short tx.data →
        Starts env tx blockGasLimit s start → Passes env start evm →
        (∀ v ∈ evm.executionStack, Word v ∧ ∃ b, intToBytes 32 v = .ok b) ∧
          WordStorage evm.storage ∧ ∀ w, evm.worldState = some w → w.InWords := by
  have hs := sound_history h (sound_genesis h0 htotal) (bounded_of_history h hwithin)
  refine ⟨hs.inWords, fun tx blockGasLimit start evm hlimit hdata hstart hp => ?_⟩
  have hbounded : tx.Bounded := by
    refine ⟨?_, hdata⟩
    cases hstart with
    | intro hvalid ht hpay => exact hvalid.blockGasLimit.trans_lt hlimit
  have hsound := (hstart.sound hs hbounded).passes hp
  have hrange := hsound.metered.inRange
  refine ⟨fun v hv => ?_, fun k v hk => ?_, fun w hw => hsound.inWords hw⟩
  · exact ⟨hrange.stack v hv, _, intToBytes_of_word (hrange.stack v hv)⟩
  · exact ⟨hsound.keyed.storage k v hk, hrange.storage k v hk⟩

/-- After a creation that writes to its storage. -/
theorem words_everywhere_deploy : ∃ result s,
    History (Submit deployEnv) { world := WorldState.createGenesisState sampleAlloc }
      [⟨deployTransaction, 100000, some result⟩] s ∧
    s.world.getStorage (deployCreationHash.drop 12) 0 = 42 ∧ s.world.InWords := by
  obtain ⟨result, s', h, hp⟩ := exists_of_returns
    (p := fun (_ : TransactionResult) (s : TxState) =>
      decide (s.world.getStorage (deployCreationHash.drop 12) 0 = 42))
    (r := applyTransaction deployEnv 100 deployTransaction 100000
      { world := WorldState.createGenesisState sampleAlloc }) (by decide +kernel)
  have hhistory := History.single (Submit.accepted h)
  have hwithin : (⟨deployTransaction, 100000, some result⟩ : Submission).Within :=
    ⟨show (100000 : Int) < 2 ^ 256 by omega, bounded_deployTransaction.data⟩
  exact ⟨result, s', hhistory, of_decide_eq_true hp,
    (words_everywhere deployEnv sampleAlloc _ _ (by decide) (by decide +kernel) hhistory
      (by simpa using hwithin)).1⟩

end Words

end Ethereum
