import Ethereum.Contracts.Abi
import Ethereum.Evm.Reach

/-! The token contract (`contracts/token.py`): what its runtime bytecode does with a call. -/
namespace Ethereum

open Setting

/-- `TOKEN_RUNTIME_BYTECODE` -/
def tokenRuntimeBytecode : Bytes := [
  -- dispatcher
  0x7f, 0x00, 0x00, 0x00, 0x01, 0x00, 0x00, 0x00, 0x00, 0x00, 0x00, 0x00, 0x00, 0x00, 0x00, 0x00,
  0x00, 0x00, 0x00, 0x00, 0x00, 0x00, 0x00, 0x00, 0x00, 0x00, 0x00, 0x00, 0x00, 0x00, 0x00, 0x00,
  0x00, 0x60, 0x00, 0x35, 0x04, 0x80, 0x63, 0xa9, 0x05, 0x9c, 0xbb, 0x14, 0x60, 0x3f, 0x57, 0x80,
  0x63, 0x70, 0xa0, 0x82, 0x31, 0x14, 0x60, 0x62, 0x57, 0x50, 0x60, 0x00, 0x60, 0x00, 0xfd,
  -- transfer(address,uint256)
  0x5b, 0x50, 0x60, 0x04, 0x35, 0x60, 0x24, 0x35, 0x33, 0x80, 0x54, 0x82, 0x81, 0x10, 0x60, 0x5c,
  0x57, 0x82, 0x90, 0x03, 0x90, 0x55, 0x81, 0x54, 0x01, 0x81, 0x55, 0x50, 0x00,
  -- insufficient balance
  0x5b, 0x60, 0x00, 0x60, 0x00, 0xfd,
  -- balanceOf(address)
  0x5b, 0x50, 0x60, 0x04, 0x35, 0x54, 0x60, 0x00, 0x52, 0x60, 0x20, 0x60, 0x00, 0xf3]

def transferSelector : Int := 0xa9059cbb
def balanceOfSelector : Int := 0x70a08231

/-- The two `SSTORE`s of a transfer. -/
def moveTokens (storage : Dict Int Int) (sender recipient amount : Int) : Dict Int Int :=
  let debited := storage.set sender ((storage.getD sender 0 - amount) % modValue)
  debited.set recipient ((debited.getD recipient 0 + amount) % modValue)

/-- How a call of the contract ends. -/
inductive TokenCall (context : ExecutionContext) (storage : Dict Int Int) : Post
  | transferred (hselector : selectorOf context.data = transferSelector)
      (h : wordAt context.data 36 ≤ storage.getD (intFromBytes context.caller) 0) :
      TokenCall context storage false []
        (moveTokens storage (intFromBytes context.caller) (wordAt context.data 4)
          (wordAt context.data 36))
  | insufficient (hselector : selectorOf context.data = transferSelector)
      (h : storage.getD (intFromBytes context.caller) 0 < wordAt context.data 36) :
      TokenCall context storage true [] storage
  | balance {returnData} (hselector : selectorOf context.data = balanceOfSelector)
      (h : intToBytes 32 (storage.getD (wordAt context.data 4) 0) = .ok returnData) :
      TokenCall context storage false returnData storage
  | unknown (htransfer : selectorOf context.data ≠ transferSelector)
      (hbalance : selectorOf context.data ≠ balanceOfSelector) :
      TokenCall context storage true [] storage

variable {F : Setting} {env : Env} {memory : Memory} {storage : Dict Int Int} {Q : Post}

section Blocks

theorem wp_reject {selector : Int} (h : Q true [] storage) :
    F.Wp env tokenRuntimeBytecode 57 [selector] memory storage Q := by
  refine wp_pop ?_
  exact wp_revert_empty h

theorem wp_insufficient (h : Q true [] storage) {balance sender amount recipient : Int} :
    F.Wp env tokenRuntimeBytecode 92 [balance, sender, amount, recipient] memory storage Q := by
  refine wp_jumpdest ?_
  exact wp_revert_empty h

theorem wp_move {sender amount recipient : Int}
    (h : Q false [] (moveTokens storage sender recipient amount)) :
    F.Wp env tokenRuntimeBytecode 80 [storage.getD sender 0, sender, amount, recipient] memory
      storage Q := by
  refine wp_dup 3 ?_
  refine wp_swap_one ?_
  refine wp_sub ?_
  refine wp_swap_one ?_
  refine wp_sstore ?_
  refine wp_dup 2 ?_
  refine wp_sload ?_
  refine wp_add ?_
  refine wp_dup 2 ?_
  refine wp_sstore ?_
  refine wp_pop ?_
  exact wp_stop h

/-- The handler of `transfer`, with the caller's balance and the two words of the calldata. -/
theorem wp_transfer {selector : Int}
    (hless : storage.getD (intFromBytes F.context.caller) 0 < wordAt F.context.data 36 →
      Q true [] storage)
    (hmove : ¬ storage.getD (intFromBytes F.context.caller) 0 < wordAt F.context.data 36 →
      Q false [] (moveTokens storage (intFromBytes F.context.caller) (wordAt F.context.data 4)
        (wordAt F.context.data 36))) :
    F.Wp env tokenRuntimeBytecode 63 [selector] memory storage Q := by
  refine wp_jumpdest ?_
  refine wp_pop ?_
  refine wp_push 1 4 ?_
  refine wp_calldataload 4 rfl ?_
  refine wp_push 1 36 ?_
  refine wp_calldataload 36 rfl ?_
  refine wp_caller ?_
  refine wp_dup 1 ?_
  refine wp_sload ?_
  refine wp_dup 3 ?_
  refine wp_dup 2 ?_
  refine wp_lt ?_
  refine wp_push 1 92 ?_
  refine wp_jumpi 92 rfl (fun h => ?_) fun h => ?_
  · exact wp_insufficient (hless h)
  · exact wp_move (hmove h)

theorem wp_balanceOf {selector : Int} {returnData : Bytes}
    (hdata : intToBytes 32 (storage.getD (wordAt F.context.data 4) 0) = .ok returnData)
    (h : Q false returnData storage) :
    F.Wp env tokenRuntimeBytecode 98 [selector] .empty storage Q := by
  refine wp_jumpdest ?_
  refine wp_pop ?_
  refine wp_push 1 4 ?_
  refine wp_calldataload 4 rfl ?_
  refine wp_sload ?_
  exact wp_return_word hdata h

end Blocks

/-- Every call of the contract ends as `TokenCall` says, unless it starves. -/
theorem wp_token (env : Env) (hword : ∀ k, Word (storage.getD k 0)) :
    F.Wp env tokenRuntimeBytecode 0 [] .empty storage (TokenCall F.context storage) := by
  refine wp_selector ?_
  refine wp_dispatch transferSelector 63 (fun htransfer => ?_) fun htransfer => ?_
  · exact wp_transfer (.insufficient htransfer) fun h => .transferred htransfer (not_lt.mp h)
  · refine wp_dispatch balanceOfSelector 98 (fun hbalance => ?_) fun hbalance => ?_
    · have hdata := intToBytes_of_word (hword (wordAt F.context.data 4))
      exact wp_balanceOf hdata (.balance hbalance hdata)
    · exact wp_reject (.unknown htransfer hbalance)

end Ethereum
