import Ethereum.Core.Words
import Ethereum.Evm.Nesting

/-! How deep the frames of a transaction nest. -/
namespace Ethereum

open Stateful Sequencing Brackets

/-- What the opcode costs that opens a frame. No opcode opens the frame of a transaction. -/
def FrameKind.price : FrameKind → Nat
  | .message | .creation => 0
  | .call => (gasCost .call).toNat
  | .create => (gasCost .create).toNat

/-- The price of a frame that an opcode opens, and a bound on that of the frame above all. -/
structure CoversAll (price : FrameKind → Nat) (top : Nat) : Prop extends Covers price where
  message : price .message ≤ top
  creation : price .creation ≤ top

theorem coversAll_price : CoversAll FrameKind.price 0 where
  call := by decide
  create := by decide
  message := le_rfl
  creation := le_rfl

/-- Every frame at the price of the cheaper opcode bounds their number. -/
theorem coversAll_call : CoversAll (fun _ => 100) 100 where
  call := by decide
  create := by decide
  message := le_rfl
  creation := le_rfl

variable {env : Env} {fuel : Nat} {tx : Transaction} {sender : Bytes} {blockGasLimit : Int}
  {s s' : TxState} {price : FrameKind → Nat} {top : Nat}

theorem Opens.price_le {t : TopFrame} {w w' : WorldState} (h : Opens env tx sender w t w')
    (hprice : CoversAll price top) : price t.kind ≤ top := by
  cases h with
  | message _ _ => exact hprice.message
  | creation _ _ => exact hprice.creation

/-- The frame of a transaction, with everything below it. -/
theorem framed_top {t : TopFrame} {w : WorldState} {c : LoopResult} {ending : Ending}
    (hprice : Covers price) (htop : price t.kind ≤ top)
    (hm : (t.start tx sender tx.executionGas w s.log).Metered)
    (hc : c = runLoop env fuel (t.start tx sender tx.executionGas w s.log)) :
    Framed price (top + tx.executionGas.toNat) s.log ((final c).log ++ [.leave t.kind ending]) := by
  have hrun := run_runLoop env fuel (t.start tx sender tx.executionGas w s.log)
  rw [← hc] at hrun
  obtain ⟨l, hl, hnested⟩ := run_framed hprice hrun hm
  have hframe : Nested Event.mark price (price t.kind + tx.executionGas.toNat)
      (.enter t.kind (t.context tx sender tx.executionGas) :: (l ++ [.leave t.kind ending])) :=
    hnested.wrap rfl rfl
  refine ⟨_, ?_, hframe.mono (Nat.add_le_add_right htop _)⟩
  rw [hl]
  simp only [TopFrame.start, EVM.init, List.append_assoc, List.cons_append, List.nil_append]

theorem framed_executed {r : EStateM.Result Abort TxState ExecutionResult}
    (hprice : CoversAll price top) (hs : s.Sound) (htx : tx.Bounded)
    (hvalid : Valid env tx s.world blockGasLimit sender)
    (h : Executed env fuel tx sender tx.executionGas
      { s with world := s.world.bill tx sender } r) :
    Framed price (top + tx.executionGas.toNat) s.log (final r).log := by
  cases h with
  | refused hlog => exact hlog ▸ .refl _
  | transferred hlog => exact hlog ▸ .refl _
  | @succeeded t w w' c evm _ _ ht hpay hc hok hlog =>
    have hstart := Starts.sound (.intro hvalid ht hpay) hs htx
    rw [final_ok, hlog]
    have hend : evm = final c := by rw [hok, final_ok]
    rw [hend]
    exact framed_top hprice.toCovers (ht.price_le hprice) hstart.metered hc
  | failed ht hpay hc hlog =>
    have hstart := Starts.sound (.intro hvalid ht hpay) hs htx
    rw [hlog]
    exact framed_top hprice.toCovers (ht.price_le hprice) hstart.metered hc

theorem framed_applyTransaction (hprice : CoversAll price top) (hs : s.Sound)
    (htx : tx.Bounded) :
    Framed price (top + tx.executionGas.toNat) s.log
      (final (applyTransaction env fuel tx blockGasLimit s)).log := by
  have happlied := applyTransaction_applied env fuel tx blockGasLimit s
  generalize applyTransaction env fuel tx blockGasLimit s = r at happlied
  cases happlied with
  | rejected => exact .refl _
  | unfinished hvalid hexec =>
    exact framed_executed hprice hs htx hvalid (executed_of_eq hexec)
  | failed hvalid hexec _ hlog =>
    rw [final_ok, hlog]
    exact framed_executed hprice hs htx hvalid (executed_of_eq hexec)
  | succeeded hvalid hexec _ hlog =>
    rw [final_ok, hlog]
    exact framed_executed hprice hs htx hvalid (executed_of_eq hexec)

/-- After any history, every frame that a transaction enters is left again, innermost first. Those
open at any time have been paid for out of its gas, so their number is bounded by it too. -/
theorem frames_nest_within_gas (env : Env) (alloc : Dict Bytes Int) (submissions : List Submission)
    (s : TxState) (h0 : ∀ e ∈ alloc.entries, 0 ≤ e.2) (htotal : alloc.total id < 2 ^ 256)
    (hhistory : History (Submit env) { world := WorldState.createGenesisState alloc } submissions s)
    (hbounded : ∀ x ∈ submissions, x.accepted = true → x.tx.Bounded)
    (fuel : Nat) (tx : Transaction) (blockGasLimit : Int) (htx : tx.Bounded) :
    ∃ l, (final (applyTransaction env fuel tx blockGasLimit s)).log = s.log ++ l ∧
      scan Event.mark [] l = some [] ∧
      ∀ l₁, l₁ <+: l → ∃ ks, scan Event.mark [] l₁ = some ks ∧
        (ks.map FrameKind.price).sum ≤ tx.executionGas.toNat ∧
        100 * ks.length ≤ 100 + tx.executionGas.toNat := by
  have hs := sound_history hhistory (sound_genesis h0 htotal) hbounded
  have hpriced : Framed FrameKind.price (0 + tx.executionGas.toNat) s.log
      (final (applyTransaction env fuel tx blockGasLimit s)).log :=
    framed_applyTransaction coversAll_price hs htx
  have hcounted : Framed (fun _ => 100) (100 + tx.executionGas.toNat) s.log
      (final (applyTransaction env fuel tx blockGasLimit s)).log :=
    framed_applyTransaction coversAll_call hs htx
  obtain ⟨l, hl, hnested⟩ := hpriced
  obtain ⟨l', hl', hnested'⟩ := hcounted
  obtain rfl : l = l' := List.append_cancel_left (hl.symm.trans hl')
  refine ⟨l, hl, hnested.closed, fun l₁ hprefix => ?_⟩
  obtain ⟨ks, hscan, hpaid⟩ := hnested.paid l₁ hprefix
  obtain ⟨ks', hscan', hnumber⟩ := hnested'.paid l₁ hprefix
  cases hscan.symm.trans hscan'
  rw [Nat.zero_add] at hpaid
  rw [List.map_const', List.sum_replicate_nat, Nat.mul_comm] at hnumber
  exact ⟨ks, hscan, hpaid, hnumber⟩

section Sample

/-- A second creation, the init code of which creates a contract with `CREATE`. -/
def nestTransaction : Transaction where
  nonce := 1
  gasPrice := 1
  gas := 100000
  «to» := []
  value := 0
  data := [0x60, 0, 0x60, 0, 0x60, 0, 0xf0, 0x00]
  v := 27
  r := 98457284531322793319881466793889859974321057422667795711699205550653781165951
  s := 56316110049337130993277702278680821495324275873906384586635297426339751409436

def nestTransactionHash : Bytes :=
  [0xa3, 0xaf, 0x20, 0x50, 0x3b, 0xdd, 0x3c, 0x43, 0xca, 0xe0, 0x07, 0xc7, 0xcc, 0x0d, 0xea, 0x88,
    0xc5, 0xda, 0xb5, 0x00, 0xe9, 0xb9, 0xae, 0x51, 0xcf, 0x90, 0x20, 0x39, 0x0f, 0x40, 0x3d, 0x19]

/-- The outer contract is at the last 20 bytes. -/
def nestCreationHash : Bytes :=
  [0xe5, 0xc1, 0x21, 0xc3, 0x00, 0xb4, 0xda, 0x3b, 0xd2, 0xd1, 0xa0, 0xae, 0x29, 0x46, 0x25, 0x9e,
    0x03, 0x34, 0xf3, 0x3a, 0x06, 0x41, 0x06, 0x30, 0x24, 0x15, 0xad, 0x33, 0x91, 0xbe, 0xd3, 0x84]

/-- The inner contract is at the last 20 bytes. -/
def nestedCreationHash : Bytes :=
  [0x91, 0x4e, 0x02, 0x57, 0xee, 0xbb, 0x99, 0x73, 0xcd, 0xe4, 0xc0, 0x66, 0x09, 0xbe, 0x2d, 0x25,
    0x24, 0x77, 0x7d, 0xdb, 0xd0, 0x74, 0x8f, 0x1a, 0xd5, 0x9c, 0x36, 0xbd, 0xea, 0xae, 0x2a, 0xbb]

def nestEnv : Env := .ofTables
  [(rlpEncode (.list [.bytes [], .bytes [1], .bytes [0x01, 0x86, 0xa0], .bytes [], .bytes [],
      .bytes deployTransaction.data]), deployTransactionHash),
    (rlpEncode (.list [.bytes [1], .bytes [1], .bytes [0x01, 0x86, 0xa0], .bytes [], .bytes [],
      .bytes nestTransaction.data]), nestTransactionHash),
    (rlpEncode (.list [.bytes sampleSender, .bytes []]), deployCreationHash),
    (rlpEncode (.list [.bytes sampleSender, .bytes [1]]), nestCreationHash),
    (rlpEncode (.list [.bytes (nestCreationHash.drop 12), .bytes []]), nestedCreationHash)]
  [((1, deployTransaction.r, deployTransaction.s, deployTransactionHash), sampleSender),
    ((0, nestTransaction.r, nestTransaction.s, nestTransactionHash), sampleSender)]
  (by decide) (by decide)

/-- After a creation from genesis, a creation within a creation. -/
theorem frames_nest_within_gas_sample : ∃ result s l,
    History (Submit nestEnv) { world := WorldState.createGenesisState sampleAlloc }
      [⟨deployTransaction, 100000, some result⟩] s ∧
    (final (applyTransaction nestEnv 100 nestTransaction 100000 s)).log = s.log ++ l ∧
    scan Event.mark [] l = some [] ∧
    (∀ l₁, l₁ <+: l → ∃ ks, scan Event.mark [] l₁ = some ks ∧
      100 * ks.length ≤ 100 + nestTransaction.executionGas.toNat) ∧
    ∃ l₁, l₁ <+: l ∧ scan Event.mark [] l₁ = some [.create, .creation] := by
  obtain ⟨⟨result, s⟩, s', hrun, hp⟩ := exists_of_returns
    (p := fun (x : TransactionResult × TxState) (s' : TxState) =>
      decide (scan Event.mark [] ((s'.log.drop x.2.log.length).take 6) = some [.create, .creation]))
    (r := (do
      let result ← applyTransaction nestEnv 100 deployTransaction 100000
      let s ← get
      let _ ← applyTransaction nestEnv 100 nestTransaction 100000
      return (result, s) : TxM _) { world := WorldState.createGenesisState sampleAlloc })
    (by decide +kernel)
  obtain ⟨_, _, hfirst, hrest⟩ := ok_of_bind_apply hrun
  obtain ⟨_, _, hget, hrest⟩ := ok_of_bind_apply hrest
  cases hget
  obtain ⟨_, _, hsecond, hpure⟩ := ok_of_bind_apply hrest
  cases hpure
  have hhistory := History.single (Submit.accepted hfirst)
  have hnest : nestTransaction.Bounded := by
    constructor <;> simp [nestTransaction, Short]
  obtain ⟨l, hl, hclosed, hopen⟩ := frames_nest_within_gas nestEnv sampleAlloc _ s (by decide)
    (by decide +kernel) hhistory (by simpa using bounded_deployTransaction) 100 nestTransaction
    100000 hnest
  refine ⟨result, s, l, hhistory, hl, hclosed, fun l₁ hprefix => ?_, ?_⟩
  · obtain ⟨ks, hscan, -, hnumber⟩ := hopen l₁ hprefix
    exact ⟨ks, hscan, hnumber⟩
  · rw [hsecond, final_ok] at hl
    have hinner := of_decide_eq_true hp
    rw [hl, List.drop_left] at hinner
    exact ⟨_, List.take_prefix _ _, hinner⟩

end Sample

end Ethereum
