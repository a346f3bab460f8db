import Ethereum.Chain.Commitment
import Ethereum.Core.Signing

/-! What `validate_chain` makes of a chain whose blocks have been tampered with. -/
namespace Ethereum

open Stateful HashLinked

theorem HashesApart.mono {env : Env} {blocks blocks' : List Block} (h : HashesApart env blocks)
    (hsub : ∀ block ∈ blocks', block ∈ blocks) : HashesApart env blocks' where
  short block hb := h.short block (hsub block hb)
  injective block hb block' hb' := h.injective block (hsub block hb) block' (hsub block' hb')

namespace Blockchain

variable {env : Env} {chain : Blockchain} {block block' : Block}

/-- Blocks that have hashes are checked without an exception. -/
theorem validateLinks_returns {blocks : List Block}
    (h : ∀ b ∈ blocks, ∃ hash, blockHash env b = .ok hash) :
    ∃ valid, validateLinks env blocks = .ok valid := by
  induction blocks with
  | nil => exact ⟨true, rfl⟩
  | cons parent rest ih =>
    cases rest with
    | nil => exact ⟨true, rfl⟩
    | cons b rest =>
      obtain ⟨hash, hhash⟩ := h parent List.mem_cons_self
      obtain ⟨valid, hvalid⟩ := ih fun c hc => h c (List.mem_cons_of_mem parent hc)
      rw [validateLinks, hhash]
      by_cases hparent : b.header.parentHash = hash
      · exact ⟨valid, (if_neg (not_not.mpr hparent)).trans hvalid⟩
      · exact ⟨false, if_pos hparent⟩

theorem WellLinked.exists_hash (h : WellLinked env chain) (hb : block ∈ chain.blocks) :
    ∃ hash, blockHash env block = .ok hash := by
  obtain ⟨i, hi⟩ := List.getElem?_of_mem hb
  obtain ⟨hash, -, hhash⟩ := h.hash_of_getElem hi
  exact ⟨hash, hhash⟩

theorem WellLinked.chained (h : WellLinked env chain) :
    Chained (fun block => (blockHash env block).toOption) (·.header.parentHash) chain.blocks :=
  h.linked.chained

/-- The first block of a chain is its genesis block. -/
theorem Reached.first (h : Reached env chain) :
    ∃ stateRoot timestamp, chain.blocks[0]? = some (createGenesisBlock stateRoot timestamp) := by
  induction h with
  | @genesis stateRoot timestamp _ h =>
    obtain ⟨hash, -, h⟩ := ok_of_bind h
    cases h
    exact ⟨stateRoot, timestamp, rfl⟩
  | @attempt chain _ block ih =>
    obtain ⟨stateRoot, timestamp, hfirst⟩ := ih
    refine ⟨stateRoot, timestamp, ?_⟩
    have happended := appendBlock_appended env chain block
    generalize appendBlock env block chain = r at happended
    cases happended with
    | rejected => exact hfirst
    | appended _ _ _ _ =>
      exact (List.getElem?_append_left (List.getElem?_eq_some_iff.mp hfirst).1).trans hfirst

/-- The genesis block of the sample chain with a later timestamp. -/
def laterGenesis : Block := createGenesisBlock emptyRoot 1

def laterGenesisHash : Bytes := [
  0x32, 0x64, 0x05, 0xf7, 0xda, 0x7d, 0x77, 0xb9, 0x3c, 0x40, 0xbc, 0x4c, 0x90, 0xfa, 0x02, 0xc8,
  0x2f, 0x65, 0x19, 0x53, 0x39, 0x55, 0xcf, 0xcc, 0xb0, 0x00, 0x62, 0x6a, 0x4c, 0xf3, 0x82, 0x9a]

def laterGenesisPreimage : Bytes :=
  rlpEncode (.list [.bytes genesisParentHash, .bytes [], .bytes [1], .bytes emptyRoot])

def preimages : List Bytes := [genesisPreimage, nextPreimage, laterGenesisPreimage]

def tamperEnv : Env :=
  .ofTables [(genesisPreimage, sampleGenesisHash), (nextPreimage, sampleNextHash),
    (laterGenesisPreimage, laterGenesisHash)] [] (by decide) length_of_noSigner

theorem hashesApart_tampered :
    HashesApart tamperEnv (laterGenesis :: (sampleChain []).blocks) := by
  have hpreimage : ∀ block ∈ laterGenesis :: (sampleChain []).blocks,
      headerPreimage block.header ∈ preimages.map Except.ok := by
    decide +kernel
  have hmem : ∀ block ∈ laterGenesis :: (sampleChain []).blocks, ∀ b,
      headerPreimage block.header = .ok b → b ∈ preimages := by
    intro block hb b hpre
    obtain ⟨c, hc, hpre'⟩ := List.mem_map.mp (hpreimage block hb)
    cases hpre'.trans hpre
    exact hc
  have hshort : ∀ b ∈ preimages, b.length < 2 ^ 64 := by decide +kernel
  have hinjective : ∀ b ∈ preimages, ∀ b' ∈ preimages,
      tamperEnv.keccak256 b = tamperEnv.keccak256 b' → b = b' := by
    decide +kernel
  constructor
  · intro block hb b hpre
    exact hshort b (hmem block hb b hpre)
  · intro block hb block' hb' b b' hpre hpre'
    exact hinjective b (hmem block hb b hpre) b' (hmem block' hb' b' hpre')

/-- The two blocks of the sample chain are what an append makes of its genesis. -/
theorem sampleChain_reached : Reached tamperEnv (sampleChain []) := by
  have hinit : init tamperEnv (createGenesisBlock emptyRoot) =
      .ok { blocks := [createGenesisBlock emptyRoot], blockHashes := [sampleGenesisHash] } := by
    decide +kernel
  have hfinal : sampleChain [] = final (appendBlock tamperEnv
      { header := nextHeader, transactions := [] }
      { blocks := [createGenesisBlock emptyRoot], blockHashes := [sampleGenesisHash] }) := by
    decide +kernel
  rw [hfinal]
  exact .attempt (.genesis hinit) _

/-- One block of a chain is replaced. The check returns, and it fails exactly where the header of a
block before the last one has changed, or the parent hash of a block after the first. Transactions
can be replaced unseen, and so can the rest of the last header. -/
theorem replaced_block_is_detected (env : Env) (chain : Blockchain) (h : Reached env chain)
    (i : Nat) (block block' : Block) (hi : chain.blocks[i]? = some block)
    (hnumber : 0 ≤ block'.header.number) (htimestamp : 0 ≤ block'.header.timestamp)
    (hapart : HashesApart env [block, block']) :
    ∃ valid, { chain with blocks := chain.blocks.set i block' }.validateChain env = .ok valid ∧
      (valid = true ↔ (i + 1 < chain.blocks.length → block'.header = block.header) ∧
        (i ≠ 0 → block'.header.parentHash = block.header.parentHash)) := by
  obtain ⟨hash', hhash'⟩ := blockHash_of_nonneg env hnumber htimestamp
  obtain ⟨hash, hhash⟩ := h.wellLinked.exists_hash (List.mem_of_getElem? hi)
  obtain ⟨valid, hvalid⟩ : ∃ valid, validateLinks env (chain.blocks.set i block') = .ok valid := by
    refine validateLinks_returns fun b hb => ?_
    rcases List.mem_or_eq_of_mem_set hb with hb | rfl
    · exact h.wellLinked.exists_hash hb
    · exact ⟨hash', hhash'⟩
  have hheader : (blockHash env block').toOption = (blockHash env block).toOption ↔
      block'.header = block.header := by
    constructor
    · intro hsame
      rw [hhash, hhash'] at hsame
      have hmem : block ∈ [block, block'] := List.mem_cons_self
      have hmem' : block' ∈ [block, block'] := List.mem_cons_of_mem _ List.mem_cons_self
      exact hapart.header_eq hmem' hmem hhash' (Option.some.inj hsame ▸ hhash)
    · intro hsame
      rw [blockHash, blockHash, hsame]
  refine ⟨valid, hvalid, ?_⟩
  have hset : Chained _ _ (chain.blocks.set i block') ↔ _ := h.wellLinked.chained.set_iff hi
  rw [hheader, ← validateLinks_eq_true_iff, hvalid] at hset
  rw [← hset]
  exact ⟨fun hv => congrArg Except.ok hv, Except.ok.inj⟩

/-- A later timestamp in the genesis header shows, as a block follows it. -/
theorem replaced_block_is_detected_sample :
    { sampleChain [] with blocks := (sampleChain []).blocks.set 0 laterGenesis }.validateChain
      tamperEnv = .ok false := by
  have hapart : HashesApart tamperEnv [createGenesisBlock emptyRoot, laterGenesis] :=
    hashesApart_tampered.mono (by decide +kernel)
  obtain ⟨valid, hvalid, hiff⟩ := replaced_block_is_detected tamperEnv (sampleChain [])
    sampleChain_reached 0 (createGenesisBlock emptyRoot) laterGenesis rfl le_rfl Int.one_nonneg
    hapart
  have hchanged : laterGenesis.header ≠ (createGenesisBlock emptyRoot).header := by
    decide +kernel
  cases valid with
  | false => exact hvalid
  | true => exact absurd ((hiff.mp rfl).1 Nat.one_lt_two) hchanged

/-- Blocks of a chain put in another order, left out or repeated: the check accepts exactly the
stretches of the chain. -/
theorem rearranged_blocks_are_detected (env : Env) (chain : Blockchain) (h : Reached env chain)
    (blocks : List Block) (hmem : ∀ block ∈ blocks, block ∈ chain.blocks)
    (hapart : HashesApart env chain.blocks)
    (hzero : ∀ block ∈ chain.blocks, blockHash env block ≠ .ok genesisParentHash) :
    ∃ valid, { chain with blocks }.validateChain env = .ok valid ∧
      (valid = true ↔ ∃ i, blocks = (chain.blocks.drop i).take blocks.length) := by
  obtain ⟨valid, hvalid⟩ : ∃ valid, validateLinks env blocks = .ok valid :=
    validateLinks_returns fun b hb => h.wellLinked.exists_hash (hmem b hb)
  obtain ⟨stateRoot, timestamp, hgenesis⟩ := h.first
  have hstretch := h.wellLinked.linked.chained_iff_stretch (l := blocks) ?_ ?_ hmem
  · refine ⟨valid, hvalid, ?_⟩
    rw [← validateLinks_eq_true_iff, hvalid] at hstretch
    rw [← hstretch]
    exact ⟨fun hv => congrArg Except.ok hv, Except.ok.inj⟩
  · intro a ha a' ha' hash hhash hhash'
    exact congrArg Header.number (hapart.header_eq ha ha' (toOption_eq_some_iff.mp hhash)
      (toOption_eq_some_iff.mp hhash'))
  · intro a ha first hfirst hhash
    rw [hgenesis] at hfirst
    cases hfirst
    exact hzero a ha (toOption_eq_some_iff.mp hhash)

/-- The two blocks the other way around. -/
theorem rearranged_blocks_are_detected_sample :
    { sampleChain [] with blocks := (sampleChain []).blocks.reverse }.validateChain tamperEnv =
      .ok false := by
  have hapart : HashesApart tamperEnv (sampleChain []).blocks :=
    hashesApart_tampered.mono fun _ hb => List.mem_cons_of_mem _ hb
  obtain ⟨valid, hvalid, hiff⟩ := rearranged_blocks_are_detected tamperEnv (sampleChain [])
    sampleChain_reached (sampleChain []).blocks.reverse (fun _ hb => List.mem_reverse.mp hb) hapart
    (by decide +kernel)
  cases valid with
  | false => exact hvalid
  | true =>
    obtain ⟨i, hi⟩ := hiff.mp rfl
    match i with
    | 0 => exact absurd hi (by decide +kernel)
    | 1 => exact absurd hi (by decide +kernel)
    | i + 2 => exact absurd (congrArg List.length hi) (by simp [sampleChain])

end Blockchain

end Ethereum
