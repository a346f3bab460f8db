import Ethereum.Contracts.Token
import Ethereum.Core.TxValidator
import Ethereum.Evm.Leaf

/-! What the token contract is for, and that its bytecode does it for all calldata. -/
namespace Ethereum

open Stateful

def transferSelectorBytes : Bytes := [0xa9, 0x05, 0x9c, 0xbb]
def balanceOfSelectorBytes : Bytes := [0x70, 0xa0, 0x82, 0x31]

def encodeTransfer (env : Env) (toAddress : Bytes) (amount : Int) : Except PyException Bytes := do
  let selector := computeSelector env "transfer(address,uint256)"
  return encodeCall selector [← encodeAddress toAddress, ← encodeUint256 amount]

def encodeBalanceOf (env : Env) (address : Bytes) : Except PyException Bytes := do
  let selector := computeSelector env "balanceOf(address)"
  return encodeCall selector [← encodeAddress address]

/-- What the Keccak library makes of the two signatures of the token. -/
structure TokenSelectors (env : Env) : Prop where
  transfer : computeSelector env "transfer(address,uint256)" = transferSelectorBytes
  balanceOf : computeSelector env "balanceOf(address)" = balanceOfSelectorBytes

/-- What a call of the contract is to do: success, return data and the storage afterwards. -/
def tokenSpec (caller data : Bytes) (storage : Dict Int Int) : Bool × Bytes × Dict Int Int :=
  let sender := intFromBytes caller
  let account := wordAt data 4
  let amount := wordAt data 36
  if data.take 4 = transferSelectorBytes then
    if storage.getD sender 0 < amount then (false, [], storage)
    else
      let debited := storage.set sender (storage.getD sender 0 - amount)
      (true, [], debited.set account ((debited.getD account 0 + amount) % 2 ^ 256))
  else if data.take 4 = balanceOfSelectorBytes then
    (true, BigEndian.toBytes 32 (storage.getD account 0).toNat, storage)
  else (false, [], storage)

section Selectors

variable (data : Bytes)

theorem selectorOf_eq_transfer :
    selectorOf data = transferSelector ↔ data.take 4 = transferSelectorBytes :=
  selectorOf_eq_iff data transferSelectorBytes rfl (by decide)

theorem selectorOf_eq_balanceOf :
    selectorOf data = balanceOfSelector ↔ data.take 4 = balanceOfSelectorBytes :=
  selectorOf_eq_iff data balanceOfSelectorBytes rfl (by decide)

end Selectors

section Encoders

variable {env : Env} {address : Bytes} {amount : Int}

/-- A padded address in front of the other arguments. -/
theorem wordAt_encodeCall_address {selector : Bytes} (hselector : selector.length = 4)
    (haddress : address.length = 20) (args : List Bytes) :
    wordAt (encodeCall selector ((List.replicate 12 0 ++ address) :: args)) 4 =
      intFromBytes address := by
  have haddr : (List.replicate 12 (0 : UInt8) ++ address).length = 32 := by simp [haddress]
  refine (wordAt_encodeCall [] hselector (by simp) haddr args).trans ?_
  exact intFromBytes_zeros_append 12 address

theorem encodeTransfer_words (haddress : address.length = 20) (hamount : Word amount) :
    ∃ data, encodeTransfer env address amount = .ok data ∧
      data.take 4 = computeSelector env "transfer(address,uint256)" ∧
      wordAt data 4 = intFromBytes address ∧ wordAt data 36 = amount := by
  have hselector := length_computeSelector env "transfer(address,uint256)"
  have haddr : (List.replicate 12 (0 : UInt8) ++ address).length = 32 := by simp [haddress]
  have hamt : (BigEndian.toBytes 32 amount.toNat).length = 32 := BigEndian.length_toBytes _ _
  refine ⟨encodeCall (computeSelector env "transfer(address,uint256)")
    [List.replicate 12 0 ++ address, BigEndian.toBytes 32 amount.toNat], ?_, ?_, ?_, ?_⟩
  · rw [encodeTransfer, encodeAddress_of_length haddress, encodeUint256_of_word hamount]
    rfl
  · rw [encodeCall, List.take_left' hselector]
  · exact wordAt_encodeCall_address hselector haddress _
  · refine (wordAt_encodeCall [_] hselector (by simpa using haddr) hamt []).trans ?_
    exact intFromBytes_toBytes hamount

theorem encodeBalanceOf_words (haddress : address.length = 20) :
    ∃ data, encodeBalanceOf env address = .ok data ∧
      data.take 4 = computeSelector env "balanceOf(address)" ∧
      wordAt data 4 = intFromBytes address := by
  have hselector := length_computeSelector env "balanceOf(address)"
  refine ⟨encodeCall (computeSelector env "balanceOf(address)") [List.replicate 12 0 ++ address],
    ?_, ?_, ?_⟩
  · rw [encodeBalanceOf, encodeAddress_of_length haddress]
    rfl
  · rw [encodeCall, List.take_left' hselector]
  · exact wordAt_encodeCall_address hselector haddress _

end Encoders

section Execution

variable {env : Env} {context : ExecutionContext} {storage : Dict Int Int}

theorem leaf_tokenRuntimeBytecode : Leaf tokenRuntimeBytecode := by decide +kernel

/-- A debit of what the sender has does not wrap. -/
theorem moveTokens_of_le {sender account amount : Int} (hsender : Word (storage.getD sender 0))
    (hamount : 0 ≤ amount) (hle : amount ≤ storage.getD sender 0) :
    moveTokens storage sender account amount =
      let debited := storage.set sender (storage.getD sender 0 - amount)
      debited.set account ((debited.getD account 0 + amount) % 2 ^ 256) := by
  have hmod : (storage.getD sender 0 - amount) % modValue = storage.getD sender 0 - amount := by
    apply Int.emod_eq_of_lt (sub_nonneg_of_le hle)
    have := hsender.lt
    simp only [modValue]
    omega
  simp only [moveTokens, hmod]
  rfl

/-- Every end of the bytecode is the one that the specification asks for. -/
theorem tokenSpec_of_call {reverted : Bool} {returnData : Bytes} {storage' : Dict Int Int}
    (hword : ∀ k, Word (storage.getD k 0))
    (h : TokenCall context storage reverted returnData storage') :
    (!reverted, returnData, storage') = tokenSpec context.caller context.data storage := by
  cases h with
  | transferred hselector hle =>
    have hbytes := (selectorOf_eq_transfer _).mp hselector
    rw [moveTokens_of_le (hword _) (word_wordAt _ _).nonneg hle]
    simp only [tokenSpec, hbytes, if_pos, if_neg (not_lt.mpr hle), Bool.not_false]
  | insufficient hselector hlt =>
    have hbytes := (selectorOf_eq_transfer _).mp hselector
    simp only [tokenSpec, hbytes, if_pos, if_pos hlt, Bool.not_true]
  | balance hselector hdata =>
    have hbytes := (selectorOf_eq_balanceOf _).mp hselector
    have hne : balanceOfSelectorBytes ≠ transferSelectorBytes := by decide
    rw [intToBytes_of_word (hword _)] at hdata
    obtain rfl := Except.ok.inj hdata
    simp only [tokenSpec, hbytes, if_pos, if_neg hne, Bool.not_false]
  | unknown htransfer hbalance =>
    rw [Ne, selectorOf_eq_transfer] at htransfer
    rw [Ne, selectorOf_eq_balanceOf] at hbalance
    simp only [tokenSpec, if_neg htransfer, if_neg hbalance, Bool.not_true]

theorem token_run_ends {world : Option WorldState} {log : List Event} {c : LoopResult}
    (hmemory : 32 < env.bufferLimit) (hword : ∀ k, Word (storage.getD k 0))
    (hrun : Run env (EVM.init tokenRuntimeBytecode context storage world log) c) (hends : Ends c) :
    (∃ needed remaining evm, conclude context.gas c =
        .error (.raised (.evmError (.outOfGas needed remaining))) evm) ∨
      ∃ result evm, conclude context.gas c = .ok result evm ∧ evm.worldState = world ∧
        (result.success, result.returnData, evm.storage) =
          tokenSpec context.caller context.data storage := by
  have hwp := wp_token (F := ⟨context, world⟩) env hword context.gas log c hrun
  cases c with
  | ok u evm => exact .inr ⟨_, evm, rfl, hwp.world, tokenSpec_of_call hword (hwp.ok evm rfl)⟩
  | error e evm =>
    left
    cases hwp.error e evm rfl with
    | fuel => exact absurd rfl (hends _ evm rfl)
    | gas => exact ⟨_, _, _, rfl⟩
    | memory hlimit => omega

/-- A call of the contract runs out of gas or does what `tokenSpec` says, and leaves the world
state alone. An address and an amount that are encoded are the words it reads. -/
theorem token_bytecode_meets_spec (env : Env) (fuel : Nat) (context : ExecutionContext)
    (storage : Dict Int Int) (world : Option WorldState) (log : List Event)
    (hmemory : 32 < env.bufferLimit) (hword : ∀ k, Word (storage.getD k 0))
    (hfuel : context.gas.toNat + 2 ≤ fuel) :
    ((∃ needed remaining evm,
        execute env fuel (EVM.init tokenRuntimeBytecode context storage world log) =
          .error (.raised (.evmError (.outOfGas needed remaining))) evm) ∨
      ∃ result evm,
        execute env fuel (EVM.init tokenRuntimeBytecode context storage world log) =
          .ok result evm ∧ evm.worldState = world ∧
        (result.success, result.returnData, evm.storage) =
          tokenSpec context.caller context.data storage) ∧
    ∀ address amount, address.length = 20 → 0 ≤ amount → amount < 2 ^ 256 →
      (∃ data, encodeTransfer env address amount = .ok data ∧
        data.take 4 = computeSelector env "transfer(address,uint256)" ∧
        wordAt data 4 = intFromBytes address ∧ wordAt data 36 = amount) ∧
      ∃ data, encodeBalanceOf env address = .ok data ∧
        data.take 4 = computeSelector env "balanceOf(address)" ∧
        wordAt data 4 = intFromBytes address := by
  refine ⟨?_, fun address amount haddress hnonneg hlt => ⟨?_, ?_⟩⟩
  · exact token_run_ends hmemory hword (run_runLoop env fuel _)
      (runLoop_ends_of_leaf fuel _ leaf_tokenRuntimeBytecode hfuel)
  · exact encodeTransfer_words haddress ⟨hnonneg, hlt⟩
  · exact encodeBalanceOf_words haddress

/-- A balance of 1000 tokens is asked for. -/
def balanceContext : ExecutionContext where
  caller := sampleCallee
  address := sampleContract
  value := 0
  data := balanceOfSelectorBytes ++ List.replicate 12 0 ++ sampleSender
  gas := 1000

/-- The balance is returned. -/
theorem token_bytecode_meets_spec_balance : ∃ result evm,
    execute sampleEnv 1002 (EVM.init tokenRuntimeBytecode balanceContext
      (.set .empty (intFromBytes sampleSender) 1000) none []) = .ok result evm ∧
    result.success = true ∧ result.returnData = BigEndian.toBytes 32 1000 := by
  have hstorage : ∀ k, Word ((Dict.set .empty (intFromBytes sampleSender) 1000).getD k 0) := by
    intro k
    rw [Dict.getD_set]
    split
    · exact ⟨by decide, by decide⟩
    · exact word_zero
  rcases (token_bytecode_meets_spec sampleEnv 1002 balanceContext _ none []
    (by decide +kernel) hstorage (by decide)).1 with
    ⟨needed, remaining, evm, h⟩ | ⟨result, evm, h, -, hspec⟩
  · have hreturns : returns (fun _ _ => true) (execute sampleEnv 1002 (EVM.init
        tokenRuntimeBytecode balanceContext (.set .empty (intFromBytes sampleSender) 1000) none
        [])) = true := by decide +kernel
    rw [h] at hreturns
    cases hreturns
  · have hspec' : _ = (true, BigEndian.toBytes 32 1000, _) := hspec.trans rfl
    exact ⟨result, evm, h, congrArg (·.1) hspec', congrArg (·.2.1) hspec'⟩

end Execution

end Ethereum
