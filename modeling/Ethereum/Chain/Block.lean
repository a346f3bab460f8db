import Ethereum.Core.Transaction

/-! Blocks (`chain/block.py`). -/
namespace Ethereum

/-- `GENESIS_PARENT_HASH` -/
def genesisParentHash : Bytes := List.replicate 32 0

structure Header where
  parentHash : Bytes
  number : Int
  timestamp : Int
  stateRoot : Bytes
  deriving DecidableEq

structure Block where
  header : Header
  transactions : List Transaction := []
  deriving DecidableEq

/-- `rlp_encode(header_fields)`, which `block_hash` hashes. -/
def headerPreimage (header : Header) : Except PyException Bytes := do
  let number ← intToRlpBytes header.number
  let timestamp ← intToRlpBytes header.timestamp
  let headerFields : List Rlp :=
    [.bytes header.parentHash, .bytes number, .bytes timestamp, .bytes header.stateRoot]
  return rlpEncode (.list headerFields)

def blockHash (env : Env) (block : Block) : Except PyException Bytes := do
  let preimage ← headerPreimage block.header
  return env.keccak256 preimage

def createGenesisBlock (stateRoot : Bytes) (timestamp : Int := 0) : Block where
  header := { parentHash := genesisParentHash, number := 0, timestamp, stateRoot }
  transactions := []

def createBlock (env : Env) (parent : Block) (transactions : List Transaction)
    (stateRoot : Bytes) (timestamp : Int) : Except PyException Block := do
  let parentHash ← blockHash env parent
  let header : Header :=
    { parentHash, number := parent.header.number + 1, timestamp, stateRoot }
  return { header, transactions }

end Ethereum
