import Ethereum.Chain.Block
import Ethereum.Encoding.Injective
import Ethereum.Lib.HashLinked

/-! The chain of blocks (`chain/blockchain.py`). -/
namespace Ethereum

open Stateful HashLinked

structure Blockchain where
  blocks : List Block
  blockHashes : List Bytes
  deriving DecidableEq

abbrev ChainM := EStateM Abort Blockchain

/-- `l[-1]` -/
def lastItem {α : Type} (l : List α) : Except PyException α :=
  match l.getLast? with
  | none => .error (.indexError "list index out of range")
  | some a => .ok a

/-- `data.hex()` -/
def hex (data : Bytes) : String := String.join (data.map fun byte => formatHex 2 byte.toNat)

namespace Blockchain

/-- `Blockchain(genesis)` -/
def init (env : Env) (genesis : Block) : Except PyException Blockchain := do
  let hash ← blockHash env genesis
  return { blocks := [genesis], blockHashes := [hash] }

def latest (chain : Blockchain) : Except PyException Block := lastItem chain.blocks

def height (chain : Blockchain) : Except PyException Int := do
  let latest ← chain.latest
  return latest.header.number

def appendBlock (env : Env) (block : Block) : ChainM Bytes := do
  let chain ← get
  let expectedParentHash ← attempt (lastItem chain.blockHashes)
  if block.header.parentHash ≠ expectedParentHash then
    throw (.raised (.valueError (s!"Invalid parent hash: expected {hex expectedParentHash}, " ++
      s!"got {hex block.header.parentHash}")))
  else
    let height ← attempt chain.height
    let expectedNumber := height + 1
    if block.header.number ≠ expectedNumber then
      throw (.raised (.valueError
        s!"Invalid block number: expected {expectedNumber}, got {block.header.number}"))
    else
      let newHash ← attempt (blockHash env block)
      modify fun chain => { chain with blocks := chain.blocks ++ [block] }
      modify fun chain => { chain with blockHashes := chain.blockHashes ++ [newHash] }
      return newHash

def getBlockByNumber (chain : Blockchain) (number : Int) : Except PyException Block :=
  let outOfRange : PyException :=
    .indexError s!"Block number {number} out of range (0-{(chain.blocks.length : Int) - 1})"
  if number < 0 ∨ chain.blocks.length ≤ number then .error outOfRange
  else match chain.blocks[number.toNat]? with
    | none => .error (.indexError "list index out of range")
    | some block => .ok block

/-- The loop of `validate_chain` over adjacent blocks. -/
def validateLinks (env : Env) : List Block → Except PyException Bool
  | parent :: block :: rest => do
    let expectedParent ← blockHash env parent
    if block.header.parentHash ≠ expectedParent then return false
    else validateLinks env (block :: rest)
  | _ => return true

def validateChain (env : Env) (chain : Blockchain) : Except PyException Bool :=
  validateLinks env chain.blocks

variable {env : Env} {chain chain' : Blockchain} {block latest : Block} {hash : Bytes}

theorem lastItem_eq_ok_iff {α : Type} {l : List α} {a : α} :
    lastItem l = .ok a ↔ l.getLast? = some a := by
  unfold lastItem
  cases l.getLast? <;> simp

/-- How an append ends. It changes the chain only by one block and its hash. -/
inductive Appended (env : Env) (chain : Blockchain) (block : Block) :
    EStateM.Result Abort Blockchain Bytes → Prop
  | rejected {e} : Appended env chain block (.error (.raised e) chain)
  | appended {latest : Block} {hash : Bytes}
      (hparent : chain.blockHashes.getLast? = some block.header.parentHash)
      (hlatest : chain.blocks.getLast? = some latest)
      (hnumber : block.header.number = latest.header.number + 1)
      (hhash : blockHash env block = .ok hash) :
      Appended env chain block (.ok hash
        { blocks := chain.blocks ++ [block], blockHashes := chain.blockHashes ++ [hash] })

theorem appendBlock_of_valid (hparent : chain.blockHashes.getLast? = some block.header.parentHash)
    (hlatest : chain.blocks.getLast? = some latest)
    (hnumber : block.header.number = latest.header.number + 1)
    (hhash : blockHash env block = .ok hash) :
    appendBlock env block chain = .ok hash
      { blocks := chain.blocks ++ [block], blockHashes := chain.blockHashes ++ [hash] } := by
  have hheight : chain.height = .ok latest.header.number := by
    rw [height, Blockchain.latest, lastItem_eq_ok_iff.mpr hlatest]
    rfl
  simp only [appendBlock, bind_apply, get_apply, lastItem_eq_ok_iff.mpr hparent, hheight, attempt,
    pure_apply, ne_eq, not_true_eq_false, if_false, hnumber, hhash, modify_apply]

theorem appendBlock_appended (env : Env) (chain : Blockchain) (block : Block) :
    Appended env chain block (appendBlock env block chain) := by
  unfold appendBlock
  rw [bind_of_ok (get_apply _)]
  have hraised : ∀ {α : Type} {x : Except PyException α} {e : Abort} {t : Blockchain},
      attempt x chain = .error e t → Appended env chain block (.error e t) := by
    intro α x e t h
    cases x with
    | error e' =>
      cases h
      exact .rejected
    | ok a => cases h
  refine bind_cases ?_ fun e t h => hraised h
  intro expectedParentHash t h
  obtain ⟨hparent, rfl⟩ := ok_of_attempt h
  dsimp only
  split
  · exact .rejected
  · next hp =>
    obtain rfl := not_not.mp hp
    refine bind_cases ?_ fun e t h => hraised h
    intro height t' h
    obtain ⟨hheight, rfl⟩ := ok_of_attempt h
    obtain ⟨latest, hlatest, hn⟩ := ok_of_bind hheight
    cases hn
    split
    · exact .rejected
    · next hnumber =>
      refine bind_cases ?_ fun e t h => hraised h
      intro hash t'' h
      obtain ⟨hhash, rfl⟩ := ok_of_attempt h
      exact .appended (lastItem_eq_ok_iff.mp hparent) (lastItem_eq_ok_iff.mp hlatest)
        (not_not.mp hnumber) hhash

/-- Blocks, positions and cached hashes agree. -/
structure WellLinked (env : Env) (chain : Blockchain) : Prop where
  nonempty : chain.blocks ≠ []
  linked : Linked (fun block => (blockHash env block).toOption) (·.header.parentHash)
    (·.header.number) chain.blocks chain.blockHashes

/-- What append attempts make of a chain that starts with a genesis block. -/
inductive Reached (env : Env) : Blockchain → Prop
  | genesis {stateRoot : Bytes} {timestamp : Int} {chain : Blockchain}
      (h : init env (createGenesisBlock stateRoot timestamp) = .ok chain) : Reached env chain
  | attempt {chain : Blockchain} (h : Reached env chain) (block : Block) :
      Reached env (final (appendBlock env block chain))

theorem toOption_eq_some_iff {ε α : Type} {x : Except ε α} {a : α} :
    x.toOption = some a ↔ x = .ok a := by
  cases x <;> simp [Except.toOption]

theorem wellLinked_init {stateRoot : Bytes} {timestamp : Int}
    (h : init env (createGenesisBlock stateRoot timestamp) = .ok chain) : WellLinked env chain := by
  obtain ⟨hash, hhash, h⟩ := ok_of_bind h
  cases h
  exact ⟨by simp, linked_single (toOption_eq_some_iff.mpr hhash) rfl⟩

theorem WellLinked.appended (h : WellLinked env chain) {r : EStateM.Result Abort Blockchain Bytes}
    (hr : Appended env chain block r) : WellLinked env (final r) := by
  cases hr with
  | rejected => exact h
  | appended hparent hlatest hnumber hhash =>
    refine ⟨by simp, h.linked.append (toOption_eq_some_iff.mpr hhash) hparent ?_⟩
    rw [hnumber, h.linked.number_last hlatest]

theorem Reached.wellLinked (h : Reached env chain) : WellLinked env chain := by
  induction h with
  | genesis h => exact wellLinked_init h
  | attempt _ block ih => exact ih.appended (appendBlock_appended env _ block)

theorem WellLinked.hash_of_getElem (h : WellLinked env chain) {i : Nat}
    (hi : chain.blocks[i]? = some block) :
    ∃ hash, chain.blockHashes[i]? = some hash ∧ blockHash env block = .ok hash := by
  obtain ⟨hash, hget, hhash⟩ := h.linked.hash_getElem hi
  exact ⟨hash, hget, toOption_eq_some_iff.mp hhash⟩

theorem WellLinked.exists_latest (h : WellLinked env chain) :
    ∃ latest hash, chain.blocks.getLast? = some latest ∧
      chain.blockHashes.getLast? = some hash ∧ blockHash env latest = .ok hash := by
  obtain ⟨latest, hlatest⟩ : ∃ latest, chain.blocks.getLast? = some latest :=
    ⟨_, List.getLast?_eq_some_getLast h.nonempty⟩
  obtain ⟨hash, hget, hhash⟩ := h.hash_of_getElem (List.getLast?_eq_getElem? ▸ hlatest)
  rw [h.linked.length_eq, ← List.getLast?_eq_getElem?] at hget
  exact ⟨latest, hash, hlatest, hget, hhash⟩

theorem validateLinks_eq_true {blocks : List Block}
    (h : ∀ i parent block, blocks[i]? = some parent → blocks[i + 1]? = some block →
      blockHash env parent = .ok block.header.parentHash) :
    validateLinks env blocks = .ok true := by
  induction blocks with
  | nil => rfl
  | cons parent rest ih =>
    cases rest with
    | nil => rfl
    | cons block rest =>
      have hrest := ih fun i parent block hp hb => h (i + 1) parent block hp hb
      rw [validateLinks, h 0 parent block rfl rfl]
      exact (if_neg (not_not.mpr rfl)).trans hrest

theorem WellLinked.validateChain_eq (h : WellLinked env chain) :
    chain.validateChain env = .ok true := by
  refine validateLinks_eq_true fun i parent block hp hb => ?_
  obtain ⟨hash, hget, hhash⟩ := h.hash_of_getElem hp
  rw [hhash, h.linked.parent i block hash hb hget]

/-- Lookups by number find exactly the blocks up to the height. -/
theorem WellLinked.getBlockByNumber_cases (h : WellLinked env chain)
    (hlatest : chain.blocks.getLast? = some latest) (n : Int) :
    (0 ≤ n ∧ n ≤ latest.header.number → ∃ block, chain.getBlockByNumber n = .ok block ∧
        block.header.number = n) ∧
      (¬ (0 ≤ n ∧ n ≤ latest.header.number) →
        ∃ message, chain.getBlockByNumber n = .error (.indexError message)) := by
  have hlast := h.linked.number_last hlatest
  unfold getBlockByNumber
  dsimp only
  constructor
  · intro hn
    obtain ⟨block, hget, -, hnumber⟩ := (h.linked.exists_number_iff hlatest n).mp hn
    rw [if_neg (by omega), hget]
    exact ⟨block, rfl, hnumber⟩
  · intro hn
    rw [if_pos (by omega)]
    exact ⟨_, rfl⟩

theorem blockHash_of_nonneg (env : Env) (hn : 0 ≤ block.header.number)
    (ht : 0 ≤ block.header.timestamp) : ∃ hash, blockHash env block = .ok hash := by
  obtain ⟨number, hn⟩ := intToRlpBytes_of_nonneg hn
  obtain ⟨timestamp, ht⟩ := intToRlpBytes_of_nonneg ht
  rw [blockHash, headerPreimage, hn, ht]
  exact ⟨_, rfl⟩

/-- A block made on top of the latest one is accepted. -/
theorem WellLinked.append_created (h : WellLinked env chain) (transactions : List Transaction)
    (stateRoot : Bytes) {timestamp : Int} (ht : 0 ≤ timestamp) :
    ∃ latest block hash, chain.latest = .ok latest ∧
      createBlock env latest transactions stateRoot timestamp = .ok block ∧
      blockHash env block = .ok hash ∧ appendBlock env block chain = .ok hash
        { blocks := chain.blocks ++ [block], blockHashes := chain.blockHashes ++ [hash] } := by
  obtain ⟨latest, parentHash, hlatest, hparent, hhash⟩ := h.exists_latest
  have hlast := h.linked.number_last hlatest
  have hpos : 0 < chain.blocks.length := List.length_pos_iff.mpr h.nonempty
  obtain ⟨block, hblock, hheader⟩ : ∃ block,
      createBlock env latest transactions stateRoot timestamp = .ok block ∧ block.header =
        { parentHash, number := latest.header.number + 1, timestamp, stateRoot } := by
    rw [createBlock, hhash]
    exact ⟨_, rfl, rfl⟩
  obtain ⟨hash, hnew⟩ : ∃ hash, blockHash env block = .ok hash :=
    blockHash_of_nonneg env (by rw [hheader]; dsimp only; omega) (by rw [hheader]; exact ht)
  exact ⟨latest, block, hash, lastItem_eq_ok_iff.mpr hlatest, hblock, hnew,
    appendBlock_of_valid (by rw [hheader]; exact hparent) hlatest (by rw [hheader]) hnew⟩

/-- Whatever blocks are offered, chain and hash list, positions and numbers agree, and the
chain goes on. -/
theorem chain_invariant (env : Env) (chain : Blockchain) (h : Reached env chain) :
    chain.blocks.length = chain.blockHashes.length ∧
      (∀ (i : Nat) block, chain.blocks[i]? = some block → block.header.number = i ∧
        ∃ hash, blockHash env block = .ok hash ∧ chain.blockHashes[i]? = some hash ∧
          ∀ next, chain.blocks[i + 1]? = some next → next.header.parentHash = hash) ∧
      (∃ height, chain.height = .ok height ∧ ∀ n : Int,
        (0 ≤ n ∧ n ≤ height → ∃ block, chain.getBlockByNumber n = .ok block ∧
          block.header.number = n) ∧
        (¬ (0 ≤ n ∧ n ≤ height) → ∃ message,
          chain.getBlockByNumber n = .error (.indexError message))) ∧
      chain.validateChain env = .ok true ∧
      (∀ block e chain', appendBlock env block chain = .error e chain' → chain' = chain) ∧
      ∀ transactions stateRoot timestamp, 0 ≤ timestamp → ∃ latest block hash,
        chain.latest = .ok latest ∧
        createBlock env latest transactions stateRoot timestamp = .ok block ∧
        blockHash env block = .ok hash ∧ appendBlock env block chain = .ok hash
          { blocks := chain.blocks ++ [block], blockHashes := chain.blockHashes ++ [hash] } := by
  have hw := h.wellLinked
  obtain ⟨latest, -, hlatest, -, -⟩ := hw.exists_latest
  refine ⟨hw.linked.length_eq, ?_,
    ⟨latest.header.number, ?_, hw.getBlockByNumber_cases hlatest⟩, hw.validateChain_eq, ?_,
    fun transactions stateRoot _ => hw.append_created transactions stateRoot⟩
  · intro i block hi
    obtain ⟨hash, hget, hhash⟩ := hw.hash_of_getElem hi
    exact ⟨hw.linked.number i block hi, hash, hhash, hget,
      fun next hnext => hw.linked.parent i next hash hnext hget⟩
  · rw [height, Blockchain.latest, lastItem_eq_ok_iff.mpr hlatest]
    rfl
  · intro block e chain' he
    have happended := appendBlock_appended env chain block
    rw [he] at happended
    cases happended
    rfl

section Sample

/-- The root of a state without accounts, and the hashes of two headers over it. -/
def emptyRoot : Bytes := [
  0xc5, 0xd2, 0x46, 0x01, 0x86, 0xf7, 0x23, 0x3c, 0x92, 0x7e, 0x7d, 0xb2, 0xdc, 0xc7, 0x03, 0xc0,
  0xe5, 0x00, 0xb6, 0x53, 0xca, 0x82, 0x27, 0x3b, 0x7b, 0xfa, 0xd8, 0x04, 0x5d, 0x85, 0xa4, 0x70]

def sampleGenesisHash : Bytes := [
  0xba, 0xdc, 0xbe, 0xc0, 0x3f, 0xa5, 0xe2, 0x05, 0x6d, 0xc1, 0x19, 0xe0, 0xd3, 0x70, 0xc1, 0xc9,
  0x71, 0x5e, 0x52, 0xb3, 0xed, 0x51, 0x60, 0x86, 0xb2, 0x69, 0x42, 0x94, 0x8c, 0x7f, 0x90, 0x72]

def sampleNextHash : Bytes := [
  0xa8, 0xd8, 0xa3, 0x45, 0x70, 0x6c, 0x57, 0xef, 0xd6, 0xb6, 0x99, 0x01, 0xbb, 0x03, 0x85, 0xc4,
  0x65, 0x1f, 0x2d, 0x01, 0xf9, 0x6b, 0x4e, 0x24, 0x67, 0xe6, 0x84, 0x06, 0xff, 0x82, 0x22, 0xa1]

def genesisPreimage : Bytes :=
  rlpEncode (.list [.bytes genesisParentHash, .bytes [], .bytes [], .bytes emptyRoot])

def nextPreimage : Bytes :=
  rlpEncode (.list [.bytes sampleGenesisHash, .bytes [1], .bytes [12], .bytes emptyRoot])

def chainEnv : Env :=
  .ofTables [(genesisPreimage, sampleGenesisHash), (nextPreimage, sampleNextHash)] []
    (by decide) (by decide)

def nextHeader : Header where
  parentHash := sampleGenesisHash
  number := 1
  timestamp := 12
  stateRoot := emptyRoot

/-- Two blocks. The transactions of the second are not part of what is hashed. -/
def sampleChain (transactions : List Transaction) : Blockchain where
  blocks := [createGenesisBlock emptyRoot, { header := nextHeader, transactions }]
  blockHashes := [sampleGenesisHash, sampleNextHash]

/-- The genesis block is not accepted again, and then the next block is. -/
theorem chain_invariant_sample : ∃ chain e,
    init chainEnv (createGenesisBlock emptyRoot) = .ok chain ∧
    appendBlock chainEnv (createGenesisBlock emptyRoot) chain = .error e chain ∧
    appendBlock chainEnv { header := nextHeader } chain = .ok sampleNextHash (sampleChain []) ∧
    (sampleChain []).height = .ok 1 ∧ (sampleChain []).validateChain chainEnv = .ok true := by
  obtain ⟨chain, hinit, hchain⟩ : ∃ chain,
      init chainEnv (createGenesisBlock emptyRoot) = .ok chain ∧
      chain = { blocks := [createGenesisBlock emptyRoot], blockHashes := [sampleGenesisHash] } :=
    ⟨_, by decide +kernel, rfl⟩
  have hgenesis : Reached chainEnv chain := .genesis hinit
  obtain ⟨e, refused, hrefused⟩ : ∃ e refused,
      appendBlock chainEnv (createGenesisBlock emptyRoot) chain = .error e refused := by
    have herror : (errorOf (appendBlock chainEnv (createGenesisBlock emptyRoot) chain)).isSome := by
      rw [hchain]
      decide +kernel
    obtain ⟨e, he⟩ := Option.isSome_iff_exists.mp herror
    exact ⟨e, exists_of_errorOf he⟩
  have hsame := (chain_invariant chainEnv chain hgenesis).2.2.2.2.1 _ _ _ hrefused
  rw [hsame] at hrefused
  have happended : appendBlock chainEnv { header := nextHeader } chain =
      .ok sampleNextHash (sampleChain []) := by
    rw [hchain]
    exact appendBlock_of_valid rfl rfl rfl (by decide +kernel)
  have hreached : Reached chainEnv (sampleChain []) := by
    have hboth := (hgenesis.attempt (createGenesisBlock emptyRoot)).attempt { header := nextHeader }
    rwa [hrefused, final_error, happended, final_ok] at hboth
  exact ⟨chain, e, hinit, hrefused, happended, rfl,
    (chain_invariant chainEnv _ hreached).2.2.2.1⟩

end Sample

end Blockchain

end Ethereum
