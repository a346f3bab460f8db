import Ethereum.Contracts.Abi

/-! The counter contract (`contracts/counter.py`): what its runtime bytecode does with a call. -/
namespace Ethereum

open Setting

/-- `COUNTER_RUNTIME_BYTECODE` -/
def counterRuntimeBytecode : Bytes := [
  -- dispatcher
  0x7f, 0x00, 0x00, 0x00, 0x01, 0x00, 0x00, 0x00, 0x00, 0x00, 0x00, 0x00, 0x00, 0x00, 0x00, 0x00,
  0x00, 0x00, 0x00, 0x00, 0x00, 0x00, 0x00, 0x00, 0x00, 0x00, 0x00, 0x00, 0x00, 0x00, 0x00, 0x00,
  0x00, 0x60, 0x00, 0x35, 0x04, 0x80, 0x63, 0xd0, 0x9d, 0xe0, 0x8a, 0x14, 0x60, 0x3f, 0x57, 0x80,
  0x63, 0xa8, 0x7d, 0x94, 0x2c, 0x14, 0x60, 0x4b, 0x57, 0x50, 0x60, 0x00, 0x60, 0x00, 0xfd,
  -- increment()
  0x5b, 0x50, 0x60, 0x00, 0x54, 0x60, 0x01, 0x01, 0x60, 0x00, 0x55, 0x00,
  -- getCount()
  0x5b, 0x50, 0x60, 0x00, 0x54, 0x60, 0x00, 0x52, 0x60, 0x20, 0x60, 0x00, 0xf3]

def incrementSelector : Int := 0xd09de08a
def getCountSelector : Int := 0xa87d942c

def incrementSelectorBytes : Bytes := [0xd0, 0x9d, 0xe0, 0x8a]
def getCountSelectorBytes : Bytes := [0xa8, 0x7d, 0x94, 0x2c]

/-- How a call of the contract ends. -/
inductive CounterCall (data : Bytes) (storage : Dict Int Int) : Post
  | incremented (hselector : data.take 4 = incrementSelectorBytes) :
      CounterCall data storage false [] (storage.set 0 ((1 + storage.getD 0 0) % modValue))
  | counted (hselector : data.take 4 = getCountSelectorBytes) :
      CounterCall data storage false (BigEndian.toBytes 32 (storage.getD 0 0).toNat) storage
  | unknown (hincrement : data.take 4 ≠ incrementSelectorBytes)
      (hgetCount : data.take 4 ≠ getCountSelectorBytes) : CounterCall data storage true [] storage

theorem selectorOf_eq_increment (data : Bytes) :
    selectorOf data = incrementSelector ↔ data.take 4 = incrementSelectorBytes :=
  selectorOf_eq_iff data incrementSelectorBytes rfl (by decide)

theorem selectorOf_eq_getCount (data : Bytes) :
    selectorOf data = getCountSelector ↔ data.take 4 = getCountSelectorBytes :=
  selectorOf_eq_iff data getCountSelectorBytes rfl (by decide)

variable {F : Setting} {env : Env} {memory : Memory} {storage : Dict Int Int} {Q : Post}

section Blocks

theorem wp_counter_reject {selector : Int} (h : Q true [] storage) :
    F.Wp env counterRuntimeBytecode 57 [selector] memory storage Q := by
  refine wp_pop ?_
  exact wp_revert_empty h

theorem wp_increment {selector : Int}
    (h : Q false [] (storage.set 0 ((1 + storage.getD 0 0) % modValue))) :
    F.Wp env counterRuntimeBytecode 63 [selector] memory storage Q := by
  refine wp_jumpdest ?_
  refine wp_pop ?_
  refine wp_push 1 0 ?_
  refine wp_sload ?_
  refine wp_push 1 1 ?_
  refine wp_add ?_
  refine wp_push 1 0 ?_
  refine wp_sstore ?_
  exact wp_stop h

theorem wp_getCount {selector : Int} {returnData : Bytes}
    (hdata : intToBytes 32 (storage.getD 0 0) = .ok returnData) (h : Q false returnData storage) :
    F.Wp env counterRuntimeBytecode 75 [selector] .empty storage Q := by
  refine wp_jumpdest ?_
  refine wp_pop ?_
  refine wp_push 1 0 ?_
  refine wp_sload ?_
  exact wp_return_word hdata h

end Blocks

/-- Every call of the contract ends as `CounterCall` says, unless it starves. -/
theorem wp_counter (env : Env) (hword : Word (storage.getD 0 0)) :
    F.Wp env counterRuntimeBytecode 0 [] .empty storage (CounterCall F.context.data storage) := by
  refine wp_selector ?_
  refine wp_dispatch incrementSelector 63 (fun hincrement => ?_) fun hincrement => ?_
  · exact wp_increment (.incremented ((selectorOf_eq_increment _).mp hincrement))
  · refine wp_dispatch getCountSelector 75 (fun hgetCount => ?_) fun hgetCount => ?_
    · exact wp_getCount (intToBytes_of_word hword)
        (.counted ((selectorOf_eq_getCount _).mp hgetCount))
    · exact wp_counter_reject (.unknown (mt (selectorOf_eq_increment _).mpr hincrement)
        (mt (selectorOf_eq_getCount _).mpr hgetCount))

end Ethereum
