import Ethereum.Python

/-! The byte-addressable memory of a frame (`evm/memory.py`). -/
namespace Ethereum

structure Memory where
  data : Bytes
  deriving DecidableEq

namespace Memory

variable (env : Env)

def empty : Memory := ⟨[]⟩

def size (memory : Memory) : Int := memory.data.length

def expandTo (offset size : Int) : EStateM Abort Memory Unit := do
  let memory ← get
  let needed := offset + size
  if size = 0 ∨ needed ≤ memory.size then pure ()
  else
    let newSize := (needed + 31) / 32 * 32
    attempt (env.allocate (newSize - memory.size) newSize)
    set (Memory.mk (memory.data ++ List.replicate (newSize - memory.size).toNat 0))

def load (offset : Int) : EStateM Abort Memory Int := do
  expandTo env offset 32
  let memory ← get
  return intFromBytes (slice memory.data offset (offset + 32))

def store (offset value : Int) : EStateM Abort Memory Unit := do
  expandTo env offset 32
  let bytes ← attempt (intToBytes 32 value)
  modify fun memory => ⟨setSlice memory.data offset (offset + 32) bytes⟩

def store8 (offset value : Int) : EStateM Abort Memory Unit := do
  expandTo env offset 1
  let memory ← get
  let data ← attempt (setIndex memory.data offset (UInt8.ofNat (value % 256).toNat))
  set (Memory.mk data)

def readRange (offset size : Int) : EStateM Abort Memory Bytes := do
  if size = 0 then pure []
  else
    expandTo env offset size
    let memory ← get
    return slice memory.data offset (offset + size)

def writeRange (offset : Int) (data : Bytes) : EStateM Abort Memory Unit := do
  if data.length = 0 then pure ()
  else
    expandTo env offset data.length
    modify fun memory => ⟨setSlice memory.data offset (offset + data.length) data⟩

end Memory

end Ethereum
