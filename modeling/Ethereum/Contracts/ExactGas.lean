import Ethereum.Contracts.Counter
import Ethereum.Contracts.TokenSpec
import Ethereum.Evm.Spending

/-! The exact gas of every call of the counter and of the token (`contracts/counter.py`,
`contracts/token.py`): below it a call runs out of gas, from it on it does what it is for. -/
namespace Ethereum

open Stateful Setting

variable {F : Setting} {env : Env} {code : Bytes} {pc : Nat} {memory : Memory}
  {storage : Dict Int Int} {Q : Post} {ops : List Opcode}

section Blocks

def selectorOps : List Opcode := [.push 32, .push 1, .calldataload, .div]

def dispatchOps : List Opcode := [.dup 1, .push 4, .eq, .push 1, .jumpi]

def revertOps : List Opcode := [.push 1, .push 1, .revert]

def returnOps : List Opcode := [.push 1, .mstore, .push 1, .push 1, .return]

theorem takes_selector
    (h : F.Takes env code 37 [selectorOf F.context.data] memory storage (totalCost ops) Q)
    (h₁ : Fetches code 0 (.push 32) := by decide)
    (v₁ : intFromBytes (window code 1 32) = 2 ^ 224 := by decide +kernel)
    (h₂ : Fetches code 33 (.push 1) := by decide)
    (v₂ : intFromBytes (window code 34 1) = 0 := by decide)
    (h₃ : Fetches code 35 .calldataload := by decide) (h₄ : Fetches code 36 .div := by decide) :
    F.Takes env code 0 [] memory storage (totalCost (selectorOps ++ ops)) Q := by
  have hdiv : (if (2 : Int) ^ 224 ≠ 0 then (wordAt F.context.data 0).fdiv (2 ^ 224) else 0) =
      selectorOf F.context.data := if_pos (by norm_num)
  refine .cons (leads_push 32 (2 ^ 224) h₁ v₁) ?_
  refine .cons (leads_push 1 0 h₂ v₂) ?_
  refine .cons (leads_calldataload 0 rfl h₃) ?_
  exact .cons (leads_binary rfl hdiv h₄) h

/-- An entry of a dispatcher that is taken. -/
theorem takes_handler {found : Int} (selector : Int) (handler : Nat) (hfound : found = selector)
    (h : F.Takes env code handler [found] memory storage (totalCost ops) Q)
    (h₁ : Fetches code pc (.dup 1) := by decide)
    (h₂ : Fetches code (pc + 1) (.push 4) := by decide)
    (v₂ : intFromBytes (window code (pc + 2) 4) = selector := by decide)
    (h₃ : Fetches code (pc + 6) .eq := by decide)
    (h₄ : Fetches code (pc + 7) (.push 1) := by decide)
    (v₄ : intFromBytes (window code (pc + 8) 1) = handler := by decide)
    (h₅ : Fetches code (pc + 9) .jumpi := by decide)
    (hdest : handler ∈ findJumpdests code := by decide) :
    F.Takes env code pc [found] memory storage (totalCost (dispatchOps ++ ops)) Q := by
  refine .cons (leads_dup 1 h₁) ?_
  refine .cons (leads_push 4 selector h₂ v₂) ?_
  refine .cons (leads_binary rfl (if_pos hfound.symm) h₃) ?_
  refine .cons (leads_push 1 handler h₄ v₄) ?_
  exact .cons (leads_jumpi handler rfl h₅ hdest) h

/-- An entry of a dispatcher that is passed over. -/
theorem takes_pass {found : Int} (selector : Int) (handler : Nat) (hfound : found ≠ selector)
    (h : F.Takes env code (pc + 10) [found] memory storage (totalCost ops) Q)
    (h₁ : Fetches code pc (.dup 1) := by decide)
    (h₂ : Fetches code (pc + 1) (.push 4) := by decide)
    (v₂ : intFromBytes (window code (pc + 2) 4) = selector := by decide)
    (h₃ : Fetches code (pc + 6) .eq := by decide)
    (h₄ : Fetches code (pc + 7) (.push 1) := by decide)
    (v₄ : intFromBytes (window code (pc + 8) 1) = handler := by decide)
    (h₅ : Fetches code (pc + 9) .jumpi := by decide) :
    F.Takes env code pc [found] memory storage (totalCost (dispatchOps ++ ops)) Q := by
  refine .cons (leads_dup 1 h₁) ?_
  refine .cons (leads_push 4 selector h₂ v₂) ?_
  refine .cons (leads_binary rfl (if_neg hfound.symm) h₃) ?_
  refine .cons (leads_push 1 handler h₄ v₄) ?_
  exact .cons (leads_jumpi_on h₅) h

theorem takes_revert {stack : List Int} (h : Q true [] storage)
    (h₁ : Fetches code pc (.push 1) := by decide)
    (v₁ : intFromBytes (window code (pc + 1) 1) = 0 := by decide)
    (h₂ : Fetches code (pc + 2) (.push 1) := by decide)
    (v₂ : intFromBytes (window code (pc + 3) 1) = 0 := by decide)
    (h₃ : Fetches code (pc + 4) .revert := by decide)
    (hs : stack.length + 1 < maxStackDepth := by simp [maxStackDepth]) :
    F.Takes env code pc stack memory storage (totalCost revertOps) Q := by
  refine .cons (leads_push 1 0 h₁ v₁ (by omega)) ?_
  refine .cons (leads_push 1 0 h₂ v₂ hs) ?_
  exact .last (halts_revert rfl h h₃)

theorem takes_return_word {v : Int} {rest : List Int} {returnData : Bytes}
    (hmemory : 32 < env.bufferLimit) (hdata : intToBytes 32 v = .ok returnData)
    (h : Q false returnData storage)
    (h₁ : Fetches code pc (.push 1) := by decide)
    (v₁ : intFromBytes (window code (pc + 1) 1) = 0 := by decide)
    (h₂ : Fetches code (pc + 2) .mstore := by decide)
    (h₃ : Fetches code (pc + 3) (.push 1) := by decide)
    (v₃ : intFromBytes (window code (pc + 4) 1) = 32 := by decide)
    (h₄ : Fetches code (pc + 5) (.push 1) := by decide)
    (v₄ : intFromBytes (window code (pc + 6) 1) = 0 := by decide)
    (h₅ : Fetches code (pc + 7) .return := by decide)
    (hs : rest.length + 1 < maxStackDepth := by simp [maxStackDepth]) :
    F.Takes env code pc (v :: rest) .empty storage (totalCost returnOps) Q := by
  have hstore : Memory.store env 0 v .empty = .ok () ⟨returnData⟩ := by
    rcases store_first_word env hdata with hstore | ⟨hlimit, -⟩
    · exact hstore
    · omega
  refine .cons (leads_push 1 0 h₁ v₁ hs) ?_
  refine .cons (leads_mstore hstore h₂) ?_
  refine .cons (leads_push 1 32 h₃ v₃ (by omega)) ?_
  refine .cons (leads_push 1 0 h₄ v₄ hs) ?_
  exact .last (halts_return (readRange_word env (length_of_intToBytes hdata)) h h₅)

end Blocks

/-- The outcome that a specification asks for, at the end of a frame. -/
def Post.exactly (spec : Bool × Bytes × Dict Int Int) : Post :=
  fun reverted returnData storage => (!reverted, returnData, storage) = spec

section Counter

/-- What a call of the counter is to do: success, return data and the storage afterwards. -/
def counterSpec (data : Bytes) (storage : Dict Int Int) : Bool × Bytes × Dict Int Int :=
  let count := storage.getD 0 0
  if data.take 4 = incrementSelectorBytes then (true, [], storage.set 0 ((count + 1) % 2 ^ 256))
  else if data.take 4 = getCountSelectorBytes then
    (true, BigEndian.toBytes 32 count.toNat, storage)
  else (false, [], storage)

/-- The gas that a call of the counter takes. -/
def counterGas (data : Bytes) : Int :=
  if data.take 4 = incrementSelectorBytes then 5151
  else if data.take 4 = getCountSelectorBytes then 176
  else 66

def incrementOps : List Opcode :=
  [.jumpdest, .pop, .push 1, .sload, .push 1, .add, .push 1, .sstore, .stop]

def getCountOps : List Opcode := [.jumpdest, .pop, .push 1, .sload] ++ returnOps

theorem takes_increment {selector : Int}
    (h : Q false [] (storage.set 0 ((storage.getD 0 0 + 1) % 2 ^ 256))) :
    F.Takes env counterRuntimeBytecode 63 [selector] memory storage (totalCost incrementOps) Q := by
  have hadd : ((1 : Int) + storage.getD 0 0) % modValue = (storage.getD 0 0 + 1) % 2 ^ 256 := by
    rw [add_comm]
    rfl
  refine .cons leads_jumpdest ?_
  refine .cons leads_pop ?_
  refine .cons (leads_push 1 0) ?_
  refine .cons leads_sload ?_
  refine .cons (leads_push 1 1) ?_
  refine .cons (leads_binary rfl hadd) ?_
  refine .cons (leads_push 1 0) ?_
  refine .cons leads_sstore ?_
  exact .last (halts_stop h)

theorem takes_getCount {selector : Int} {returnData : Bytes} (hmemory : 32 < env.bufferLimit)
    (hdata : intToBytes 32 (storage.getD 0 0) = .ok returnData) (h : Q false returnData storage) :
    F.Takes env counterRuntimeBytecode 75 [selector] .empty storage (totalCost getCountOps) Q := by
  refine .cons leads_jumpdest ?_
  refine .cons leads_pop ?_
  refine .cons (leads_push 1 0) ?_
  refine .cons leads_sload ?_
  exact takes_return_word hmemory hdata h

/-- The whole counter, on every path. -/
theorem takes_counter (F : Setting) (hmemory : 32 < env.bufferLimit)
    (hword : Word (storage.getD 0 0)) :
    F.Takes env counterRuntimeBytecode 0 [] .empty storage (counterGas F.context.data)
      (Post.exactly (counterSpec F.context.data storage)) := by
  by_cases hincrement : F.context.data.take 4 = incrementSelectorBytes
  · have hspec : counterSpec F.context.data storage =
        (true, [], storage.set 0 ((storage.getD 0 0 + 1) % 2 ^ 256)) := if_pos hincrement
    have hgas : counterGas F.context.data =
        totalCost (selectorOps ++ (dispatchOps ++ incrementOps)) := if_pos hincrement
    rw [hspec, hgas]
    refine takes_selector (takes_handler incrementSelector 63 ?_ (takes_increment rfl))
    exact (selectorOf_eq_increment _).mpr hincrement
  by_cases hgetCount : F.context.data.take 4 = getCountSelectorBytes
  · have hspec : counterSpec F.context.data storage =
        (true, BigEndian.toBytes 32 (storage.getD 0 0).toNat, storage) :=
      (if_neg hincrement).trans (if_pos hgetCount)
    have hgas : counterGas F.context.data =
        totalCost (selectorOps ++ (dispatchOps ++ (dispatchOps ++ getCountOps))) :=
      (if_neg hincrement).trans (if_pos hgetCount)
    rw [hspec, hgas]
    refine takes_selector (takes_pass incrementSelector 63 ?_ (takes_handler getCountSelector 75 ?_
      (takes_getCount hmemory (intToBytes_of_word hword) rfl)))
    · exact mt (selectorOf_eq_increment _).mp hincrement
    · exact (selectorOf_eq_getCount _).mpr hgetCount
  · have hspec : counterSpec F.context.data storage = (false, [], storage) :=
      (if_neg hincrement).trans (if_neg hgetCount)
    have hgas : counterGas F.context.data =
        totalCost (selectorOps ++ (dispatchOps ++ (dispatchOps ++ (.pop :: revertOps)))) :=
      (if_neg hincrement).trans (if_neg hgetCount)
    rw [hspec, hgas]
    refine takes_selector (takes_pass incrementSelector 63 ?_ (takes_pass getCountSelector 75 ?_
      (.cons leads_pop (takes_revert rfl))))
    · exact mt (selectorOf_eq_increment _).mp hincrement
    · exact mt (selectorOf_eq_getCount _).mp hgetCount

end Counter

section Token

/-- The gas that a call of the token takes. -/
def tokenGas (caller data : Bytes) (storage : Dict Int Int) : Int :=
  if data.take 4 = transferSelectorBytes then
    if storage.getD (intFromBytes caller) 0 < wordAt data 36 then 185 else 10301
  else if data.take 4 = balanceOfSelectorBytes then 179
  else 66

/-- The handler of `transfer` up to its comparison. -/
def compareOps : List Opcode :=
  [.jumpdest, .pop, .push 1, .calldataload, .push 1, .calldataload, .caller, .dup 1, .sload,
    .dup 3, .dup 2, .lt, .push 1, .jumpi]

def moveOps : List Opcode :=
  [.dup 3, .swap 1, .sub, .swap 1, .sstore, .dup 2, .sload, .add, .dup 2, .sstore, .pop, .stop]

def balanceOfOps : List Opcode := [.jumpdest, .pop, .push 1, .calldataload, .sload] ++ returnOps

theorem takes_move {sender amount recipient : Int}
    (h : Q false [] (moveTokens storage sender recipient amount)) :
    F.Takes env tokenRuntimeBytecode 80 [storage.getD sender 0, sender, amount, recipient] memory
      storage (totalCost moveOps) Q := by
  refine .cons (leads_dup 3) ?_
  refine .cons leads_swap_one ?_
  refine .cons (leads_binary rfl rfl) ?_
  refine .cons leads_swap_one ?_
  refine .cons leads_sstore ?_
  refine .cons (leads_dup 2) ?_
  refine .cons leads_sload ?_
  refine .cons (leads_binary rfl rfl) ?_
  refine .cons (leads_dup 2) ?_
  refine .cons leads_sstore ?_
  refine .cons leads_pop ?_
  exact .last (halts_stop h)

/-- The handler of `transfer`, where the comparison of its two operands has the result `less`. -/
theorem takes_compare {selector less : Int} {pc : Nat}
    (hless : (if storage.getD (intFromBytes F.context.caller) 0 < wordAt F.context.data 36 then 1
      else 0 : Int) = less)
    (hjump : F.Leads env tokenRuntimeBytecode .jumpi 79
      [92, less, storage.getD (intFromBytes F.context.caller) 0, intFromBytes F.context.caller,
        wordAt F.context.data 36, wordAt F.context.data 4] memory storage pc
      [storage.getD (intFromBytes F.context.caller) 0, intFromBytes F.context.caller,
        wordAt F.context.data 36, wordAt F.context.data 4] memory storage)
    (h : F.Takes env tokenRuntimeBytecode pc
      [storage.getD (intFromBytes F.context.caller) 0, intFromBytes F.context.caller,
        wordAt F.context.data 36, wordAt F.context.data 4] memory storage (totalCost ops) Q) :
    F.Takes env tokenRuntimeBytecode 63 [selector] memory storage
      (totalCost (compareOps ++ ops)) Q := by
  refine .cons leads_jumpdest ?_
  refine .cons leads_pop ?_
  refine .cons (leads_push 1 4) ?_
  refine .cons (leads_calldataload 4) ?_
  refine .cons (leads_push 1 36) ?_
  refine .cons (leads_calldataload 36) ?_
  refine .cons leads_caller ?_
  refine .cons (leads_dup 1) ?_
  refine .cons leads_sload ?_
  refine .cons (leads_dup 3) ?_
  refine .cons (leads_dup 2) ?_
  refine .cons (leads_binary rfl hless) ?_
  refine .cons (leads_push 1 92) ?_
  exact .cons hjump h

theorem takes_balanceOf {selector : Int} {returnData : Bytes} (hmemory : 32 < env.bufferLimit)
    (hdata : intToBytes 32 (storage.getD (wordAt F.context.data 4) 0) = .ok returnData)
    (h : Q false returnData storage) :
    F.Takes env tokenRuntimeBytecode 98 [selector] .empty storage (totalCost balanceOfOps) Q := by
  refine .cons leads_jumpdest ?_
  refine .cons leads_pop ?_
  refine .cons (leads_push 1 4) ?_
  refine .cons (leads_calldataload 4) ?_
  refine .cons leads_sload ?_
  exact takes_return_word hmemory hdata h

/-- `transfer` where the caller holds less than the amount. -/
theorem takes_insufficient {selector : Int}
    (hless : storage.getD (intFromBytes F.context.caller) 0 < wordAt F.context.data 36)
    (h : Q true [] storage) :
    F.Takes env tokenRuntimeBytecode 63 [selector] memory storage
      (totalCost (compareOps ++ (.jumpdest :: revertOps))) Q := by
  refine takes_compare (if_pos hless) (leads_jumpi 92) ?_
  refine .cons leads_jumpdest ?_
  exact takes_revert h

/-- `transfer` where the caller holds the amount. -/
theorem takes_transfer {selector : Int}
    (hless : ¬ storage.getD (intFromBytes F.context.caller) 0 < wordAt F.context.data 36)
    (h : Q false [] (moveTokens storage (intFromBytes F.context.caller)
      (wordAt F.context.data 4) (wordAt F.context.data 36))) :
    F.Takes env tokenRuntimeBytecode 63 [selector] memory storage
      (totalCost (compareOps ++ moveOps)) Q :=
  takes_compare (if_neg hless) leads_jumpi_on (takes_move h)

/-- The whole token, on every path. -/
theorem takes_token (F : Setting) (hmemory : 32 < env.bufferLimit)
    (hword : ∀ k, Word (storage.getD k 0)) :
    F.Takes env tokenRuntimeBytecode 0 [] .empty storage
      (tokenGas F.context.caller F.context.data storage)
      (Post.exactly (tokenSpec F.context.caller F.context.data storage)) := by
  by_cases htransfer : F.context.data.take 4 = transferSelectorBytes
  · have hselector := (selectorOf_eq_transfer F.context.data).mpr htransfer
    by_cases hless : storage.getD (intFromBytes F.context.caller) 0 < wordAt F.context.data 36
    · have hgas : tokenGas F.context.caller F.context.data storage =
          totalCost (selectorOps ++ (dispatchOps ++ (compareOps ++ (.jumpdest :: revertOps)))) :=
        (if_pos htransfer).trans (if_pos hless)
      rw [hgas]
      refine takes_selector (takes_handler transferSelector 63 hselector
        (takes_insufficient hless ?_))
      exact tokenSpec_of_call hword (.insufficient hselector hless)
    · have hgas : tokenGas F.context.caller F.context.data storage =
          totalCost (selectorOps ++ (dispatchOps ++ (compareOps ++ moveOps))) :=
        (if_pos htransfer).trans (if_neg hless)
      rw [hgas]
      refine takes_selector (takes_handler transferSelector 63 hselector (takes_transfer hless ?_))
      exact tokenSpec_of_call hword (.transferred hselector (not_lt.mp hless))
  have hne := mt (selectorOf_eq_transfer F.context.data).mp htransfer
  by_cases hbalance : F.context.data.take 4 = balanceOfSelectorBytes
  · have hselector := (selectorOf_eq_balanceOf F.context.data).mpr hbalance
    have hdata := intToBytes_of_word (hword (wordAt F.context.data 4))
    have hgas : tokenGas F.context.caller F.context.data storage =
        totalCost (selectorOps ++ (dispatchOps ++ (dispatchOps ++ balanceOfOps))) :=
      (if_neg htransfer).trans (if_pos hbalance)
    rw [hgas]
    refine takes_selector (takes_pass transferSelector 63 hne (takes_handler balanceOfSelector 98
      hselector (takes_balanceOf hmemory hdata ?_)))
    exact tokenSpec_of_call hword (.balance hselector hdata)
  · have hne' := mt (selectorOf_eq_balanceOf F.context.data).mp hbalance
    have hgas : tokenGas F.context.caller F.context.data storage =
        totalCost (selectorOps ++ (dispatchOps ++ (dispatchOps ++ (.pop :: revertOps)))) :=
      (if_neg htransfer).trans (if_neg hbalance)
    rw [hgas]
    refine takes_selector (takes_pass transferSelector 63 hne (takes_pass balanceOfSelector 98 hne'
      (.cons leads_pop (takes_revert ?_))))
    exact tokenSpec_of_call hword (.unknown hne hne')

end Token

theorem leaf_counterRuntimeBytecode : Leaf counterRuntimeBytecode := by decide +kernel

section Execution

variable {context : ExecutionContext} {world : Option WorldState} {log : List Event}
  {spec : Bool × Bytes × Dict Int Int} {cost : Int} {fuel : Nat}

/-- `execute` of a frame that takes `cost` gas and has enough fuel. -/
structure ExactGas (env : Env) (fuel : Nat) (evm : EVM) (cost : Int)
    (spec : Bool × Bytes × Dict Int Int) : Prop where
  outOfGas : evm.gasRemaining < cost → ∃ needed remaining evm',
    execute env fuel evm = .error (.raised (.evmError (.outOfGas needed remaining))) evm'
  returned : cost ≤ evm.gasRemaining → ∃ result evm', execute env fuel evm = .ok result evm' ∧
    result.gasUsed = cost ∧ result.gasRemaining = evm.gasRemaining - cost ∧
    evm'.worldState = evm.worldState ∧ (result.success, result.returnData, evm'.storage) = spec

theorem exactGas_of_takes (hleaf : Leaf code) (hfuel : context.gas.toNat + 2 ≤ fuel)
    (h : Setting.Takes ⟨context, world⟩ env code 0 [] .empty storage cost (Post.exactly spec)) :
    ExactGas env fuel (EVM.init code context storage world log) cost spec := by
  have hends : Ends (runLoop env fuel (EVM.init code context storage world log)) :=
    runLoop_ends_of_leaf fuel _ hleaf hfuel
  have hspent := h.run context.gas log _ (run_runLoop env fuel _)
  have hstart : Setting.state ⟨context, world⟩ code 0 [] .empty storage context.gas log =
      EVM.init code context storage world log := rfl
  rw [hstart] at hspent
  have hexec : execute env fuel (EVM.init code context storage world log) =
    conclude context.gas (runLoop env fuel (EVM.init code context storage world log)) := rfl
  generalize runLoop env fuel (EVM.init code context storage world log) = c at hends hspent hexec
  have hgas : (EVM.init code context storage world log).gasRemaining = context.gas := rfl
  constructor
  · intro hlt
    cases hspent with
    | cut => exact absurd rfl (hends _ _ rfl)
    | paid hpaid => omega
    | unpaid _ => exact ⟨_, _, _, hexec⟩
  · intro hle
    cases hspent with
    | cut => exact absurd rfl (hends _ _ rfl)
    | paid _ hremaining hworld hQ =>
      exact ⟨_, _, hexec, by dsimp only; omega, hremaining, hworld, hQ⟩
    | unpaid hunpaid => omega

/-- A call of the token with `tokenGas` or more does what `tokenSpec` says and uses just that. With
less it runs out of gas. -/
theorem token_gas_is_exact (env : Env) (fuel : Nat) (context : ExecutionContext)
    (storage : Dict Int Int) (world : Option WorldState) (log : List Event)
    (hmemory : 32 < env.bufferLimit) (hword : ∀ k, Word (storage.getD k 0))
    (hfuel : context.gas.toNat + 2 ≤ fuel) :
    ExactGas env fuel (EVM.init tokenRuntimeBytecode context storage world log)
      (tokenGas context.caller context.data storage)
      (tokenSpec context.caller context.data storage) :=
  exactGas_of_takes leaf_tokenRuntimeBytecode hfuel (takes_token ⟨context, world⟩ hmemory hword)

/-- A balance is asked for with 821 gas more than that takes. -/
theorem token_gas_is_exact_balance : ∃ result evm,
    execute sampleEnv 1002 (EVM.init tokenRuntimeBytecode balanceContext
      (.set .empty (intFromBytes sampleSender) 1000) none []) = .ok result evm ∧
    result.gasUsed = 179 ∧ result.returnData = BigEndian.toBytes 32 1000 := by
  have hword : ∀ k, Word ((Dict.set .empty (intFromBytes sampleSender) 1000).getD k 0) := by
    intro k
    rw [Dict.getD_set]
    split
    · exact ⟨by decide, by decide⟩
    · exact word_zero
  have hexact := token_gas_is_exact sampleEnv 1002 balanceContext
    (.set .empty (intFromBytes sampleSender) 1000) none [] (by decide +kernel) hword (by decide)
  obtain ⟨result, evm, h, hused, -, -, hspec⟩ := hexact.returned (by decide +kernel)
  have hcall : _ = (true, BigEndian.toBytes 32 1000, _) := hspec.trans rfl
  exact ⟨result, evm, h, hused.trans (by decide +kernel), congrArg (·.2.1) hcall⟩

/-- The same of the counter, whose slot 0 alone has to be a word. -/
theorem counter_gas_is_exact (env : Env) (fuel : Nat) (context : ExecutionContext)
    (storage : Dict Int Int) (world : Option WorldState) (log : List Event)
    (hmemory : 32 < env.bufferLimit) (hword : Word (storage.getD 0 0))
    (hfuel : context.gas.toNat + 2 ≤ fuel) :
    ExactGas env fuel (EVM.init counterRuntimeBytecode context storage world log)
      (counterGas context.data) (counterSpec context.data storage) :=
  exactGas_of_takes leaf_counterRuntimeBytecode hfuel
    (takes_counter ⟨context, world⟩ hmemory hword)

/-- An increment that can pay for all but its last unit of gas. -/
def incrementContext : ExecutionContext where
  caller := sampleSender
  address := sampleContract
  value := 0
  data := incrementSelectorBytes
  gas := 5150

theorem counter_gas_is_exact_short : ∃ needed remaining evm,
    execute sampleEnv 5152 (EVM.init counterRuntimeBytecode incrementContext .empty none []) =
      .error (.raised (.evmError (.outOfGas needed remaining))) evm :=
  (counter_gas_is_exact sampleEnv 5152 incrementContext .empty none [] (by decide +kernel)
    word_zero (by decide)).outOfGas (by decide +kernel)

end Execution

end Ethereum
