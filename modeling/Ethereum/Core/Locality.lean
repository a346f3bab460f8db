import Ethereum.Core.Agreement

/-! Transactions depend on and change the accounts that they get to and no others, so queues of
transactions that get to different accounts can be interleaved in any way. -/
namespace Ethereum

open Stateful Locality WorldState

variable {env : Env} {fuel : Nat} {P : Bytes → WorldState → WorldState → Prop} {s s' : TxState}

section Sample

/-- The second call of the sample contract. -/
def secondTransaction : Transaction where
  nonce := 1
  gasPrice := 1
  gas := 100000
  «to» := sampleContract
  value := 1
  data := []
  v := 28
  r := 82648034489154107872422424265813703854249582381487902727629326802110557706386
  s := 33617640611071933548508891695479449830197439104622265926010661345825307955383

def laneRecipient : Bytes :=
  [0x1e, 0xff, 0x47, 0xbc, 0x3a, 0x10, 0xa4, 0x5d, 0x4b, 0x23, 0x0b, 0x5d, 0x10, 0xe3, 0x77, 0x51,
    0xfe, 0x6a, 0xa7, 0x18]

/-- A payment between two other accounts. -/
def laneTransaction : Transaction where
  nonce := 0
  gasPrice := 1
  gas := 100000
  «to» := laneRecipient
  value := 1
  data := []
  v := 28
  r := 60169509629458999304960279535514153186753764360912895811911400084083614902894
  s := 24726834309052337932321690605695978998602103816141569530165079498491685682778

def secondTransactionHash : Bytes :=
  [0x07, 0x71, 0x8b, 0xbc, 0x26, 0x44, 0x4b, 0x50, 0x29, 0xe2, 0x60, 0xe6, 0xce, 0xd3, 0xa9, 0x72,
    0x8d, 0x5d, 0x45, 0x94, 0x68, 0x25, 0x46, 0x8e, 0xe9, 0x07, 0xcd, 0x77, 0xf9, 0xae, 0xcb, 0x10]

def laneTransactionHash : Bytes :=
  [0x07, 0xe0, 0x09, 0x6d, 0xd7, 0xf5, 0x7f, 0x74, 0xef, 0xec, 0x5a, 0xaa, 0x47, 0x5d, 0xfc, 0x37,
    0xba, 0x70, 0x90, 0xda, 0x44, 0x0a, 0x07, 0xf8, 0x64, 0xb8, 0xde, 0x89, 0x2f, 0x90, 0x52, 0x25]

/-- The signers of the two queues. -/
def laneEnv : Env := .ofTables
  [(rlpEncode (.list [.bytes [], .bytes [1], .bytes [0x01, 0x86, 0xa0], .bytes sampleContract,
      .bytes [1], .bytes []]), sampleTransactionHash),
    (rlpEncode (.list [.bytes [1], .bytes [1], .bytes [0x01, 0x86, 0xa0], .bytes sampleContract,
      .bytes [1], .bytes []]), secondTransactionHash),
    (rlpEncode (.list [.bytes [], .bytes [1], .bytes [0x01, 0x86, 0xa0], .bytes laneRecipient,
      .bytes [1], .bytes []]), laneTransactionHash)]
  [((0, sampleTransaction.r, sampleTransaction.s, sampleTransactionHash), sampleSender),
    ((1, secondTransaction.r, secondTransaction.s, secondTransactionHash), sampleSender),
    ((1, laneTransaction.r, laneTransaction.s, laneTransactionHash), sampleCallee)]
  (by decide) (by decide)

/-- Two senders and a contract that stores 7. -/
def laneState : TxState where
  world := ⟨⟨[(sampleSender, { balance := 1000000 }), (sampleCallee, { balance := 1000000 }),
    (sampleContract, { code := [0x60, 7, 0x60, 0, 0x55, 0x00] })],
    show [sampleSender, sampleCallee, sampleContract].Nodup by decide⟩⟩

def lanes : List (Bool × Transaction × Int) :=
  [(false, sampleTransaction, 100000), (true, laneTransaction, 100000),
    (false, secondTransaction, 100000)]

def otherLanes : List (Bool × Transaction × Int) :=
  [(true, laneTransaction, 100000), (false, sampleTransaction, 100000),
    (false, secondTransaction, 100000)]

theorem touchedAll_calls : touchedAll laneEnv 100 laneState (queue false lanes) ⊆
    {sampleSender, sampleContract} := by
  have hfirst : touched laneEnv laneState (sampleTransaction, 100000) ⊆
      {sampleSender, sampleContract} := fun a ha =>
    (touches_of_leafCall (by decide +kernel) (by decide) (by decide +kernel)).mp ha
  have hsecond : touched laneEnv
      (applyEntry laneEnv 100 laneState (sampleTransaction, 100000)).2
      (secondTransaction, 100000) ⊆ {sampleSender, sampleContract} := fun a ha =>
    (touches_of_leafCall (by decide +kernel) (by decide) (by decide +kernel)).mp ha
  exact Set.union_subset hfirst (Set.union_subset hsecond (Set.empty_subset _))

theorem touchedAll_payments : touchedAll laneEnv 100 laneState (queue true lanes) ⊆
    {sampleCallee, laneRecipient} := by
  have hfirst : touched laneEnv laneState (laneTransaction, 100000) ⊆
      {sampleCallee, laneRecipient} := fun a ha =>
    (touches_of_leafCall (by decide +kernel) (by decide) (by decide +kernel)).mp ha
  exact Set.union_subset hfirst (Set.empty_subset _)

end Sample

/-- A history depends on the accounts that it gets to and changes no others: from another state
with the same accounts there it gives the same answers, runs the same frames and leaves the same
accounts there, and everything else stays as it was in either state. -/
theorem transactions_are_local (env : Env) (fuel : Nat) (txs : List (Transaction × Int))
    (s s' : TxState) (h : SameOn SameAt (touchedAll env fuel s txs) s.world s'.world) :
    (applyAll env fuel txs s).1 = (applyAll env fuel txs s').1 ∧
      (∃ entries, (applyAll env fuel txs s).2.log = s.log ++ entries ∧
        (applyAll env fuel txs s').2.log = s'.log ++ entries) ∧
      SameOn SameAt (touchedAll env fuel s txs) (applyAll env fuel txs s).2.world
        (applyAll env fuel txs s').2.world ∧
      SameOn SameAt (touchedAll env fuel s txs)ᶜ s.world (applyAll env fuel txs s).2.world ∧
      SameOn SameAt (touchedAll env fuel s txs)ᶜ s'.world
        (applyAll env fuel txs s').2.world := by
  obtain ⟨hanswers, hlike⟩ := applyAll_couple env pointwise_sameAt fuel txs subset_rfl h
  exact ⟨hanswers, hlike.log, hlike.world.inside, hlike.world.left, hlike.world.right⟩

/-- Calls of a contract, with a payment to someone else before them or not. -/
theorem transactions_are_local_calls :
    (applyAll laneEnv 100 (queue false lanes) laneState).1 =
      (applyAll laneEnv 100 (queue false lanes)
        { laneState with world := laneState.world.addBalance laneRecipient 5 }).1 := by
  refine (transactions_are_local laneEnv 100 (queue false lanes) laneState
    { laneState with world := laneState.world.addBalance laneRecipient 5 } fun a ha => ?_).1
  have hne : a ≠ laneRecipient := by
    rcases touchedAll_calls ha with rfl | rfl <;> decide
  exact pointwise_sameAt.modify_other hne

theorem local_applyEntry (env : Env) (fuel : Nat) (hP : Pointwise P) :
    Local (applyEntry env fuel) (fun a (s s' : TxState) => P a s.world s'.world)
      (touched env) where
  equivalence a :=
    { refl := fun s => (hP.equivalence a).refl s.world
      symm := fun h => (hP.equivalence a).symm h
      trans := fun h h' => (hP.equivalence a).trans h h' }
  answer {s t entry} h := by
    have hsub := (touchedAll_single env fuel s entry).subset
    exact (List.cons.inj (applyAll_couple env hP fuel [entry] hsub h).1).1.symm
  inside {s t entry} h := by
    have hsub := (touchedAll_single env fuel s entry).subset
    exact (applyAll_couple env hP fuel [entry] hsub h).2.world.inside
  outside {s t entry} h := by
    have hsub := (touchedAll_single env fuel s entry).subset
    exact (applyAll_couple env hP fuel [entry] hsub h).2.world.right

section Interleaving

variable {θ : Type} [DecidableEq θ]

/-- Queues of transactions of which no two get to a common account, each run alone, can be
interleaved in any way: every queue gets the answers that it would get alone, its accounts end as
they would then, and the final world states of all interleavings are the same map, with the same
state root. -/
theorem queues_can_be_interleaved (env : Env) (fuel : Nat) (s : TxState)
    (l l' : List (θ × Transaction × Int))
    (hapart : ∀ a b, a ≠ b → ∀ address ∈ touchedAll env fuel s (queue a l),
      address ∉ touchedAll env fuel s (queue b l))
    (hqueues : ∀ a, queue a l = queue a l') :
    (∀ a, queue a ((l.map Prod.fst).zip (applyAll env fuel (l.map Prod.snd) s).1) =
        (applyAll env fuel (queue a l) s).1) ∧
      (∀ a, SameOn SameEntryAt (touchedAll env fuel s (queue a l))
        (applyAll env fuel (queue a l) s).2.world
        (applyAll env fuel (l.map Prod.snd) s).2.world) ∧
      (applyAll env fuel (l.map Prod.snd) s).2.world.Same
        (applyAll env fuel (l'.map Prod.snd) s).2.world ∧
      (applyAll env fuel (l.map Prod.snd) s).2.world.stateRootPreimage =
        (applyAll env fuel (l'.map Prod.snd) s).2.world.stateRootPreimage := by
  have hlocal := local_applyEntry env fuel pointwise_sameEntryAt
  have hqueuesApart : Apart (applyEntry env fuel) (touched env) s l := hapart
  have hseparate := hqueuesApart.separate hlocal
  have hsame : (applyAll env fuel (l.map Prod.snd) s).2.world.Same
      (applyAll env fuel (l'.map Prod.snd) s).2.world := by
    intro a
    have hfinal := hlocal.interleave hqueuesApart hqueues a
    rwa [run_tagged, run_tagged] at hfinal
  refine ⟨fun a => ?_, fun a => ?_, hsame, stateRootPreimage_congr hsame.sameUpToStorage⟩
  · have hanswers := hseparate.answers hlocal a
    rwa [run_tagged] at hanswers
  · have hfinal := hseparate.final hlocal a
    rwa [run_tagged] at hfinal

/-- Two calls and a payment in between, or before both. -/
theorem queues_can_be_interleaved_calls :
    (applyAll laneEnv 100 (lanes.map Prod.snd) laneState).2.world.Same
      (applyAll laneEnv 100 (otherLanes.map Prod.snd) laneState).2.world := by
  have hapart : ∀ address ∈ touchedAll laneEnv 100 laneState (queue false lanes),
      address ∉ touchedAll laneEnv 100 laneState (queue true lanes) := by
    intro address hcalls hpayments
    rcases touchedAll_calls hcalls with rfl | rfl <;>
      rcases touchedAll_payments hpayments with h | h <;> revert h <;> decide
  refine (queues_can_be_interleaved laneEnv 100 laneState lanes otherLanes ?_ ?_).2.2.1
  · intro a b hab
    cases a <;> cases b
    · exact absurd rfl hab
    · exact hapart
    · exact fun address hpayments hcalls => hapart address hcalls hpayments
    · exact absurd rfl hab
  · intro a
    cases a <;> rfl

end Interleaving

end Ethereum
