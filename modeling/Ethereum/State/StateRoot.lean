import Ethereum.Encoding.Injective
import Ethereum.State.WorldState
import Mathlib.Data.List.Sort

/-! The hash of a world state (`state_root_placeholder` in `state/world_state.py`) and
what it commits to. -/
namespace Ethereum

/-- The list that stands for one account. -/
def accountItem (address : Bytes) (account : Account) : Except PyException Rlp := do
  let nonce ← intToRlpBytes account.nonce
  let balance ← intToRlpBytes account.balance
  return .list [.bytes address, .bytes nonce, .bytes balance, .bytes account.code]

namespace WorldState

/-- `sorted(self._accounts.keys())` -/
def sortedAddresses (w : WorldState) : List Bytes :=
  (w.accounts.entries.map Prod.fst).insertionSort (· ≤ ·)

/-- The bytes that `state_root_placeholder` hashes. -/
def stateRootPreimage (w : WorldState) : Except PyException Bytes :=
  if w.accounts.entries = [] then .ok []
  else do
    let items ← w.sortedAddresses.mapM fun address => accountItem address (w.getAccount address)
    return encodeItems items

def stateRootPlaceholder (env : Env) (w : WorldState) : Except PyException Bytes := do
  let preimage ← w.stateRootPreimage
  return env.keccak256 preimage

end WorldState

/-- The fields of an account that its item holds. -/
structure Account.SameItem (x y : Account) : Prop where
  nonce : x.nonce = y.nonce
  balance : x.balance = y.balance
  code : x.code = y.code

/-- Equal accounts, wherever their slots stand in the dictionary. -/
structure Account.Same (x y : Account) : Prop extends Account.SameItem x y where
  storage : ∀ key, x.storage.get? key = y.storage.get? key

namespace WorldState

/-- The same map from addresses to accounts. -/
def Same (w w' : WorldState) : Prop :=
  ∀ a, Option.Rel Account.Same (w.accounts.get? a) (w'.accounts.get? a)

/-- The same map from addresses to nonce, balance and code. -/
def SameUpToStorage (w w' : WorldState) : Prop :=
  ∀ a, Option.Rel Account.SameItem (w.accounts.get? a) (w'.accounts.get? a)

variable {w w' : WorldState} {a a' : Bytes} {b : Bytes}

theorem Same.sameUpToStorage (h : w.Same w') : w.SameUpToStorage w' := by
  intro a
  have ha := h a
  generalize w.accounts.get? a = x, w'.accounts.get? a = y at ha ⊢
  cases ha with
  | some ha => exact .some ha.toSameItem
  | none => exact .none

theorem accountItem_injective {x y : Account} {item : Rlp} (hx : accountItem a x = .ok item)
    (hy : accountItem a' y = .ok item) : a = a' ∧ x.SameItem y := by
  obtain ⟨nonce, hn, hx⟩ := ok_of_bind hx
  obtain ⟨balance, hb, hx⟩ := ok_of_bind hx
  obtain ⟨nonce', hn', hy⟩ := ok_of_bind hy
  obtain ⟨balance', hb', hy⟩ := ok_of_bind hy
  cases hx
  injection hy with hy
  simp only [Rlp.list.injEq, List.cons.injEq, Rlp.bytes.injEq, and_true] at hy
  obtain ⟨rfl, rfl, rfl, hcode⟩ := hy
  exact ⟨rfl, eq_of_intToRlpBytes hn hn', eq_of_intToRlpBytes hb hb', hcode.symm⟩

theorem accountItem_congr {x y : Account} (h : x.SameItem y) :
    accountItem a x = accountItem a y := by
  unfold accountItem
  rw [h.nonce, h.balance, h.code]

theorem mem_sortedAddresses :
    a ∈ w.sortedAddresses ↔ ∃ account, w.accounts.get? a = some account := by
  unfold sortedAddresses
  rw [List.mem_insertionSort, Dict.mem_keys_iff]

/-- The empty state is no special case of the encoding. -/
theorem stateRootPreimage_eq (w : WorldState) :
    w.stateRootPreimage = do
      let items ← w.sortedAddresses.mapM fun address => accountItem address (w.getAccount address)
      return encodeItems items := by
  unfold stateRootPreimage
  split
  · next h =>
    unfold sortedAddresses
    rw [h]
    rfl
  · rfl

theorem sortedAddresses_congr (h : w.SameUpToStorage w') :
    w.sortedAddresses = w'.sortedAddresses := by
  have hkeys : (w.accounts.entries.map Prod.fst).Perm (w'.accounts.entries.map Prod.fst) := by
    rw [List.perm_ext_iff_of_nodup w.accounts.nodup w'.accounts.nodup]
    intro a
    rw [Dict.mem_keys_iff, Dict.mem_keys_iff]
    have ha := h a
    generalize w.accounts.get? a = x, w'.accounts.get? a = y at ha ⊢
    cases ha <;> simp
  have hsorted := (List.perm_insertionSort (· ≤ ·) (w.accounts.entries.map Prod.fst)).trans
    (hkeys.trans (List.perm_insertionSort (· ≤ ·) _).symm)
  exact hsorted.eq_of_pairwise' (List.pairwise_insertionSort _ _) (List.pairwise_insertionSort _ _)

theorem stateRootPreimage_congr (h : w.SameUpToStorage w') :
    w.stateRootPreimage = w'.stateRootPreimage := by
  have hitem : ∀ a, accountItem a (w.getAccount a) = accountItem a (w'.getAccount a) := by
    intro a
    unfold getAccount Dict.getD
    have ha := h a
    generalize w.accounts.get? a = x, w'.accounts.get? a = y at ha ⊢
    cases ha with
    | some ha => exact accountItem_congr ha
    | none => rfl
  rw [stateRootPreimage_eq, stateRootPreimage_eq, sortedAddresses_congr h]
  simp only [hitem]

theorem stateRootPreimage_items (h : w.stateRootPreimage = .ok b) :
    ∃ items, b = encodeItems items ∧ List.Forall₂
      (fun address item => accountItem address (w.getAccount address) = .ok item)
      w.sortedAddresses items := by
  rw [stateRootPreimage_eq] at h
  obtain ⟨items, hitems, h⟩ := ok_of_bind h
  cases h
  exact ⟨items, rfl, forall₂_of_mapM hitems⟩

/-- A state whose numbers are not negative has a root. -/
theorem stateRootPlaceholder_of_nonneg (env : Env)
    (h : ∀ a, 0 ≤ (w.getAccount a).nonce ∧ 0 ≤ (w.getAccount a).balance) :
    ∃ root, w.stateRootPlaceholder env = .ok root := by
  obtain ⟨preimage, hpreimage⟩ : ∃ preimage, w.stateRootPreimage = .ok preimage := by
    unfold stateRootPreimage
    split
    · exact ⟨_, rfl⟩
    · obtain ⟨items, hitems⟩ := exists_mapM (f := fun a => accountItem a (w.getAccount a))
        (l := w.sortedAddresses) fun a _ => by
          obtain ⟨nonce, hn⟩ := intToRlpBytes_of_nonneg (h a).1
          obtain ⟨balance, hb⟩ := intToRlpBytes_of_nonneg (h a).2
          rw [accountItem, hn, hb]
          exact ⟨_, rfl⟩
      rw [hitems]
      exact ⟨_, rfl⟩
  rw [stateRootPlaceholder, hpreimage]
  exact ⟨_, rfl⟩

/-- Two lists with the same items are lists of the same accounts. -/
theorem forall₂_sameItem {l l' : List Bytes} {items : List Rlp}
    (h : List.Forall₂ (fun a item => accountItem a (w.getAccount a) = .ok item) l items)
    (h' : List.Forall₂ (fun a item => accountItem a (w'.getAccount a) = .ok item) l' items) :
    l = l' ∧ ∀ a ∈ l, (w.getAccount a).SameItem (w'.getAccount a) := by
  induction h generalizing l' with
  | nil =>
    cases h'
    exact ⟨rfl, fun _ hmem => absurd hmem List.not_mem_nil⟩
  | cons hitem _ ih =>
    cases h' with
    | cons hitem' hrest =>
      obtain ⟨rfl, hsame⟩ := accountItem_injective hitem hitem'
      obtain ⟨rfl, hall⟩ := ih hrest
      refine ⟨rfl, fun a hmem => ?_⟩
      rcases List.mem_cons.mp hmem with rfl | hmem
      · exact hsame
      · exact hall a hmem

/-- The hashed bytes determine the addresses and every field but the storage. -/
theorem sameUpToStorage_of_preimage (hlen : b.length < 2 ^ 64) (h : w.stateRootPreimage = .ok b)
    (h' : w'.stateRootPreimage = .ok b) : w.SameUpToStorage w' := by
  obtain ⟨items, hb, hall⟩ := stateRootPreimage_items h
  obtain ⟨items', hb', hall'⟩ := stateRootPreimage_items h'
  obtain rfl := eq_of_encodeItems (hb ▸ hlen) (hb.symm.trans hb')
  obtain ⟨hsorted, hsame⟩ := forall₂_sameItem hall hall'
  intro a
  have hmem := mem_sortedAddresses (w := w) (a := a)
  have hmem' := mem_sortedAddresses (w := w') (a := a)
  have ha := hsame a
  rw [← hsorted, hmem] at hmem'
  rw [hmem] at ha
  unfold getAccount Dict.getD at ha
  generalize w.accounts.get? a = x, w'.accounts.get? a = y at hmem' ha ⊢
  rcases x with _ | x <;> rcases y with _ | y
  · exact .none
  · simp at hmem'
  · simp at hmem'
  · exact .some (ha ⟨x, rfl⟩)

/-- The root commits to the whole state exactly where two states do not differ in their
storage alone. -/
theorem stateRoot_commits_iff (w w' : WorldState) (b b' : Bytes) (hlen : b.length < 2 ^ 64)
    (hb : w.stateRootPreimage = .ok b) (hb' : w'.stateRootPreimage = .ok b') :
    (b = b' ↔ w.Same w') ↔ (w.SameUpToStorage w' → w.Same w') := by
  have hitems : b = b' ↔ w.SameUpToStorage w' := by
    constructor
    · rintro rfl
      exact sameUpToStorage_of_preimage hlen hb hb'
    · intro h
      rw [stateRootPreimage_congr h, hb'] at hb
      injection hb with hb
      exact hb.symm
  rw [hitems]
  exact ⟨fun h => h.mp, fun h => ⟨h, Same.sameUpToStorage⟩⟩

section Sample

def sampleRootAddress : Bytes := List.replicate 20 0xaa

def sampleSlotAccount (value : Int) : Account where
  balance := 5
  code := [0x00]
  storage := Dict.empty.set 0 value

/-- A contract with one used slot, on an account of the genesis state. -/
def sampleSlotState (value : Int) : WorldState :=
  ((createGenesisState (Dict.empty.set sampleRootAddress 5)).setCode sampleRootAddress
    [0x00]).setStorage sampleRootAddress 0 value

/-- Two contracts that differ in one slot have one root. -/
theorem stateRoot_commits_not_storage : ∃ b, b.length < 2 ^ 64 ∧
    (sampleSlotState 1).stateRootPreimage = .ok b ∧
    (sampleSlotState 2).stateRootPreimage = .ok b ∧
    ¬ (sampleSlotState 1).Same (sampleSlotState 2) := by
  refine ⟨0xd8 :: 0x94 :: sampleRootAddress ++ [0x80, 5, 0x00], by decide, by decide +kernel,
    by decide +kernel, fun h => ?_⟩
  have ha := h sampleRootAddress
  rw [show (sampleSlotState 1).accounts.get? sampleRootAddress = some (sampleSlotAccount 1) by
      decide +kernel,
    show (sampleSlotState 2).accounts.get? sampleRootAddress = some (sampleSlotAccount 2) by
      decide +kernel] at ha
  cases ha with
  | some ha => exact absurd (ha.storage 0) (by decide)

/-- A payment to one of the two contracts is seen. -/
theorem stateRoot_commits_iff_payment : ∃ b b',
    (sampleSlotState 1).stateRootPreimage = .ok b ∧
    ((sampleSlotState 2).addBalance sampleRootAddress 1).stateRootPreimage = .ok b' ∧
    (b = b' ↔ (sampleSlotState 1).Same ((sampleSlotState 2).addBalance sampleRootAddress 1)) := by
  have hb : (sampleSlotState 1).stateRootPreimage =
      .ok (0xd8 :: 0x94 :: sampleRootAddress ++ [0x80, 5, 0x00]) := by decide +kernel
  have hb' : ((sampleSlotState 2).addBalance sampleRootAddress 1).stateRootPreimage =
      .ok (0xd8 :: 0x94 :: sampleRootAddress ++ [0x80, 6, 0x00]) := by decide +kernel
  refine ⟨_, _, hb, hb', (stateRoot_commits_iff _ _ _ _ (by decide) hb hb').mpr fun h => ?_⟩
  have ha := h sampleRootAddress
  rw [show (sampleSlotState 1).accounts.get? sampleRootAddress = some (sampleSlotAccount 1) by
      decide +kernel,
    show ((sampleSlotState 2).addBalance sampleRootAddress 1).accounts.get? sampleRootAddress =
      some { sampleSlotAccount 2 with balance := 6 } by decide +kernel] at ha
  cases ha with
  | some ha => exact absurd ha.balance (by decide)

end Sample

end WorldState

end Ethereum
