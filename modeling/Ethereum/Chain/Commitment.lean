import Ethereum.Chain.Blockchain
import Ethereum.Core.Preimages

/-! The hash of the latest block commits to every header of the chain. -/
namespace Ethereum

open HashLinked

/-- What is hashed for these blocks are byte strings that Python can hold, and the hash tells
them apart. -/
structure HashesApart (env : Env) (blocks : List Block) : Prop where
  short : ∀ block ∈ blocks, ∀ b, headerPreimage block.header = .ok b → b.length < 2 ^ 64
  injective : ∀ block ∈ blocks, ∀ block' ∈ blocks, ∀ b b', headerPreimage block.header = .ok b →
    headerPreimage block'.header = .ok b' → env.keccak256 b = env.keccak256 b' → b = b'

theorem HashesApart.header_eq {env : Env} {blocks : List Block} (h : HashesApart env blocks)
    {block block' : Block} {hash : Bytes} (hb : block ∈ blocks) (hb' : block' ∈ blocks)
    (hhash : blockHash env block = .ok hash) (hhash' : blockHash env block' = .ok hash) :
    block.header = block'.header := by
  obtain ⟨b, hpre, hk⟩ := ok_of_bind hhash
  obtain ⟨b', hpre', hk'⟩ := ok_of_bind hhash'
  have hsame : env.keccak256 b = env.keccak256 b' :=
    (Except.ok.inj hk).trans (Except.ok.inj hk').symm
  obtain rfl := h.injective block hb block' hb' b b' hpre hpre' hsame
  exact headerPreimage_injective (h.short block hb b hpre) hpre hpre'

namespace Blockchain

variable {env : Env} {chain chain' : Blockchain} {latest latest' : Block} {hash : Bytes}

theorem validateLinks_eq_true_iff {blocks : List Block} :
    validateLinks env blocks = .ok true ↔
      Chained (fun block => (blockHash env block).toOption) (·.header.parentHash) blocks := by
  induction blocks with
  | nil => exact ⟨fun _ => List.IsChain.nil, fun _ => rfl⟩
  | cons parent rest ih =>
    cases rest with
    | nil => exact ⟨fun _ => List.IsChain.singleton _, fun _ => rfl⟩
    | cons block rest =>
      constructor
      · intro h
        obtain ⟨expected, hhash, h⟩ := ok_of_bind h
        split at h
        · cases h
        · next hparent =>
          obtain rfl := not_not.mp hparent
          exact List.isChain_cons_cons.mpr ⟨toOption_eq_some_iff.mpr hhash, ih.mp h⟩
      · intro h
        obtain ⟨hhash, hrest⟩ := List.isChain_cons_cons.mp h
        rw [validateLinks, toOption_eq_some_iff.mp hhash]
        exact (if_neg (not_not.mpr rfl)).trans (ih.mpr hrest)

theorem headers_eq_of_valid (hapart : HashesApart env (chain.blocks ++ chain'.blocks))
    (hlatest : chain.latest = .ok latest) (hlatest' : chain'.latest = .ok latest')
    (hhash : blockHash env latest = .ok hash) (hhash' : blockHash env latest' = .ok hash)
    (hvalid : chain.validateChain env = .ok true) (hvalid' : chain'.validateChain env = .ok true)
    (hlength : chain.blocks.length = chain'.blocks.length) :
    chain.blocks.map (·.header) = chain'.blocks.map (·.header) := by
  refine (validateLinks_eq_true_iff.mp hvalid).map_eq (validateLinks_eq_true_iff.mp hvalid')
    hlength ?_ ?_ (lastItem_eq_ok_iff.mp hlatest) (lastItem_eq_ok_iff.mp hlatest')
    (toOption_eq_some_iff.mpr hhash) (toOption_eq_some_iff.mpr hhash')
  · intro block hb block' hb' b h h'
    exact hapart.header_eq (List.mem_append_left _ hb) (List.mem_append_right _ hb')
      (toOption_eq_some_iff.mp h) (toOption_eq_some_iff.mp h')
  · intro block block' h
    exact congrArg Header.parentHash h

/-- In a chain grown from a genesis block the latest header tells the length. -/
theorem Reached.length_eq (h : Reached env chain) (h' : Reached env chain')
    (hlatest : chain.latest = .ok latest) (hlatest' : chain'.latest = .ok latest')
    (hheader : latest.header = latest'.header) : chain.blocks.length = chain'.blocks.length := by
  have hlast := h.wellLinked.linked.number_last (lastItem_eq_ok_iff.mp hlatest)
  have hlast' := h'.wellLinked.linked.number_last (lastItem_eq_ok_iff.mp hlatest')
  rw [hheader] at hlast
  omega

/-- Two valid chains of one length whose latest blocks have one hash have the same headers.
The length need not be known of chains grown from genesis blocks. -/
theorem head_commits_to_headers (env : Env) (chain chain' : Blockchain) (latest latest' : Block)
    (hash : Bytes) (hapart : HashesApart env (chain.blocks ++ chain'.blocks))
    (hlatest : chain.latest = .ok latest) (hlatest' : chain'.latest = .ok latest')
    (hhash : blockHash env latest = .ok hash) (hhash' : blockHash env latest' = .ok hash) :
    (chain.blocks.length = chain'.blocks.length → chain.validateChain env = .ok true →
        chain'.validateChain env = .ok true →
        chain.blocks.map (·.header) = chain'.blocks.map (·.header)) ∧
      (Reached env chain → Reached env chain' →
        chain.blocks.map (·.header) = chain'.blocks.map (·.header)) := by
  constructor
  · intro hlength hvalid hvalid'
    exact headers_eq_of_valid hapart hlatest hlatest' hhash hhash' hvalid hvalid' hlength
  · intro h h'
    have hmem := List.mem_of_getLast? (lastItem_eq_ok_iff.mp hlatest)
    have hmem' := List.mem_of_getLast? (lastItem_eq_ok_iff.mp hlatest')
    have hheader := hapart.header_eq (List.mem_append_left _ hmem)
      (List.mem_append_right _ hmem') hhash hhash'
    exact headers_eq_of_valid hapart hlatest hlatest' hhash hhash' h.wellLinked.validateChain_eq
      h'.wellLinked.validateChain_eq (h.length_eq h' hlatest hlatest' hheader)

theorem hashesApart_sample (transactions transactions' : List Transaction) :
    HashesApart chainEnv
      ((sampleChain transactions).blocks ++ (sampleChain transactions').blocks) := by
  have hgenesis : headerPreimage (createGenesisBlock emptyRoot).header = .ok genesisPreimage := by
    decide +kernel
  have hnext : headerPreimage nextHeader = .ok nextPreimage := by decide +kernel
  have hpreimage : ∀ block ∈ (sampleChain transactions).blocks ++
      (sampleChain transactions').blocks,
      headerPreimage block.header = .ok genesisPreimage ∨
        headerPreimage block.header = .ok nextPreimage := by
    intro block hb
    have hcases := List.mem_append.mp hb
    simp only [sampleChain, List.mem_cons, List.not_mem_nil, or_false] at hcases
    rcases hcases with (rfl | rfl) | rfl | rfl
    · exact .inl hgenesis
    · exact .inr hnext
    · exact .inl hgenesis
    · exact .inr hnext
  constructor
  · intro block hb b hpre
    rcases hpreimage block hb with h | h <;> rw [h] at hpre <;> cases hpre <;> decide
  · intro block hb block' hb' b b' hpre hpre' hsame
    rcases hpreimage block hb with h | h <;> rcases hpreimage block' hb' with h' | h' <;>
      rw [h] at hpre <;> rw [h'] at hpre' <;> cases hpre <;> cases hpre'
    · rfl
    · exact absurd hsame (by decide +kernel)
    · exact absurd hsame (by decide +kernel)
    · rfl

/-- A chain into which a transaction was slipped still has the headers of the true one. -/
theorem head_commits_to_headers_sample :
    (sampleChain [sampleTransaction]).blocks.map (·.header) =
      (sampleChain []).blocks.map (·.header) :=
  (head_commits_to_headers chainEnv (sampleChain [sampleTransaction]) (sampleChain []) _ _
    sampleNextHash (hashesApart_sample _ _) rfl rfl (by decide +kernel) (by decide +kernel)).1 rfl
    (by decide +kernel) (by decide +kernel)

end Blockchain

end Ethereum
