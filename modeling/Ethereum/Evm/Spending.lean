import Ethereum.Evm.Costs

/-! The exact gas of known bytecode that starts no frames, on every path through its jumps: with
less a frame runs out of gas, with that much or more it ends and has used just that. -/
namespace Ethereum

open Stateful

namespace Setting

/-- How a run ends that needs `cost` gas; its fuel may end first. -/
inductive Spent (F : Setting) (Q : Post) (cost gas : Int) : LoopResult → Prop
  | cut {evm} : Spent F Q cost gas (.error .outOfFuel evm)
  | paid {evm} (hpaid : cost ≤ gas) (hremaining : evm.gasRemaining = gas - cost)
      (hworld : evm.worldState = F.world) (hQ : Q evm.reverted evm.returnData evm.storage) :
      Spent F Q cost gas (.ok () evm)
  | unpaid {needed remaining evm} (hunpaid : gas < cost) :
      Spent F Q cost gas (.error (.raised (.evmError (.outOfGas needed remaining))) evm)

/-- Every run from this loop head takes `cost` gas, and ends as `Q` says where it is paid. -/
structure Takes (F : Setting) (env : Env) (code : Bytes) (pc : Nat) (stack : List Int)
    (memory : Memory) (storage : Dict Int Int) (cost : Int) (Q : Post) : Prop where
  nonneg : 0 ≤ cost
  run : ∀ gas log r, Run env (F.state code pc stack memory storage gas log) r → F.Spent Q cost gas r

/-- An opcode that leads from one loop head to another. -/
structure Leads (F : Setting) (env : Env) (code : Bytes) (opcode : Opcode) (pc : Nat)
    (stack : List Int) (memory : Memory) (storage : Dict Int Int) (pc' : Nat) (stack' : List Int)
    (memory' : Memory) (storage' : Dict Int Int) : Prop where
  fetches : Fetches code pc opcode
  handled : ∀ gas log, ∃ log',
    localOp env opcode (F.state code (pc + 1) stack memory storage gas log) =
      .ok () (F.state code pc' stack' memory' storage' gas log')

/-- An opcode that ends the frame without touching its gas. -/
structure Halts (F : Setting) (env : Env) (code : Bytes) (opcode : Opcode) (pc : Nat)
    (stack : List Int) (memory : Memory) (storage : Dict Int Int) (Q : Post) : Prop where
  fetches : Fetches code pc opcode
  handled : ∀ gas log, ∃ evm,
    localOp env opcode (F.state code (pc + 1) stack memory storage gas log) = .ok () evm ∧
      evm.stopped = true ∧ evm.gasRemaining = gas ∧ evm.worldState = F.world ∧
      Q evm.reverted evm.returnData evm.storage

variable {F : Setting} {env : Env} {code : Bytes} {pc pc' : Nat} {stack stack' rest : List Int}
  {memory memory' : Memory} {storage storage' : Dict Int Int} {opcode : Opcode} {Q : Post}
  {cost : Int} {a b v : Int}

/-- A run that cannot pay for its next opcode is cut or out of gas. -/
theorem spent_of_lt {gas : Int} {log : List Event} {r : LoopResult} (hop : Fetches code pc opcode)
    (hcost : 0 ≤ cost) (hgas : gas < gasCost opcode)
    (hr : Run env (F.state code pc stack memory storage gas log) r) :
    F.Spent Q (gasCost opcode + cost) gas r := by
  rcases hr.of_error (hop.running gas log) (hop.begin_of_lt log hgas) with rfl | rfl
  · exact .cut
  · apply Spent.unpaid
    omega

theorem Takes.step (hnext : F.Takes env code pc' stack' memory' storage' cost Q)
    (h : F.Leads env code opcode pc stack memory storage pc' stack' memory' storage') :
    F.Takes env code pc stack memory storage (gasCost opcode + cost) Q := by
  have hcost := hnext.nonneg
  have hop := gasCost_nonneg opcode
  refine ⟨by omega, fun gas log r hr => ?_⟩
  rcases lt_or_ge gas (gasCost opcode) with hgas | hgas
  · exact spent_of_lt h.fetches hcost hgas hr
  · obtain ⟨log', hlocal⟩ := h.handled (gas - gasCost opcode)
      (log ++ [.executed F.context.address opcode])
    have hb : begin env (F.state code pc stack memory storage gas log) = .ok none
        (F.state code pc' stack' memory' storage' (gas - gasCost opcode) log') := by
      rw [h.fetches.begin_of_le log hgas, hlocal]
      rfl
    rcases hr.of_ok (h.fetches.running gas log) hb with rfl | hrest
    · exact .cut
    · cases hnext.run _ _ _ hrest with
      | cut => exact .cut
      | paid hpaid hremaining hworld hQ => exact .paid (by omega) (by omega) hworld hQ
      | unpaid hunpaid => exact .unpaid (by omega)

/-- `Takes.step` for a list of opcodes. -/
theorem Takes.cons {ops : List Opcode}
    (h : F.Leads env code opcode pc stack memory storage pc' stack' memory' storage')
    (hnext : F.Takes env code pc' stack' memory' storage' (totalCost ops) Q) :
    F.Takes env code pc stack memory storage (totalCost (opcode :: ops)) Q := by
  rw [totalCost_cons]
  exact hnext.step h

theorem Takes.last (h : F.Halts env code opcode pc stack memory storage Q) :
    F.Takes env code pc stack memory storage (totalCost [opcode]) Q := by
  have hop := gasCost_nonneg opcode
  have hcost : totalCost [opcode] = gasCost opcode + 0 := totalCost_cons opcode []
  rw [hcost]
  refine ⟨by omega, fun gas log r hr => ?_⟩
  rcases lt_or_ge gas (gasCost opcode) with hgas | hgas
  · exact spent_of_lt h.fetches le_rfl hgas hr
  · obtain ⟨evm, hlocal, hstopped, hremaining, hworld, hQ⟩ := h.handled (gas - gasCost opcode)
      (log ++ [.executed F.context.address opcode])
    have hb : begin env (F.state code pc stack memory storage gas log) = .ok none evm := by
      rw [h.fetches.begin_of_le log hgas, hlocal]
      rfl
    rcases hr.of_ok (h.fetches.running gas log) hb with rfl | hrest
    · exact .cut
    · rcases hrest.of_halted (by simp [EVM.running, hstopped]) with rfl | rfl
      · exact .cut
      · exact .paid (by omega) (by omega) hworld hQ

theorem Takes.weaken {Q' : Post} (h : F.Takes env code pc stack memory storage cost Q)
    (hQ : ∀ reverted returnData storage', Q reverted returnData storage' →
      Q' reverted returnData storage') : F.Takes env code pc stack memory storage cost Q' := by
  refine ⟨h.nonneg, fun gas log r hr => ?_⟩
  cases h.run gas log r hr with
  | cut => exact .cut
  | paid hpaid hremaining hworld hq => exact .paid hpaid hremaining hworld (hQ _ _ _ hq)
  | unpaid hunpaid => exact .unpaid hunpaid

/-- What runs `ops` and nothing else has spent their costs. -/
theorem Charged.spent {ops : List Opcode} {gas : Int} {log : List Event} {r : LoopResult}
    (h : F.Charged Q ops gas log r) : F.Spent Q (totalCost ops) gas r := by
  cases h with
  | paid hpaid hremaining hworld _ hQ => exact .paid hpaid hremaining hworld hQ
  | unpaid _ hunpaid _ _ => exact .unpaid hunpaid

section Opcodes

theorem leads_push (n : Nat) (v : Int) (hop : Fetches code pc (.push n) := by decide)
    (hv : intFromBytes (window code (pc + 1) n) = v := by decide)
    (hs : stack.length < maxStackDepth := by simp [maxStackDepth]) :
    F.Leads env code (.push n) pc stack memory storage (pc + 1 + n) (v :: stack) memory
      storage := by
  subst hv
  refine ⟨hop, fun gas log => ⟨log, ?_⟩⟩
  have hpush : opPush n (F.state code (pc + 1) stack memory storage gas log) = _ :=
    opPush_of_lt n hs
  exact hpush

theorem leads_dup (n : Nat) (hop : Fetches code pc (.dup n) := by decide)
    (hv : stack[n - 1]? = some v := by rfl)
    (hs : stack.length < maxStackDepth := by simp [maxStackDepth]) :
    F.Leads env code (.dup n) pc stack memory storage (pc + 1) (v :: stack) memory storage := by
  refine ⟨hop, fun gas log => ⟨log, ?_⟩⟩
  have hpeek : stackPeek (n - 1) (F.state code (pc + 1) stack memory storage gas log) =
      .ok v (F.state code (pc + 1) stack memory storage gas log) := by
    rw [stackPeek, bind_of_ok (get_apply _), show
      (F.state code (pc + 1) stack memory storage gas log).executionStack = stack from rfl, hv]
    rfl
  exact (bind_of_ok hpeek).trans (push_state hs)

theorem leads_swap_one (hop : Fetches code pc (.swap 1) := by decide) :
    F.Leads env code (.swap 1) pc (a :: b :: rest) memory storage (pc + 1) (b :: a :: rest) memory
      storage :=
  ⟨hop, fun _ log => ⟨log, rfl⟩⟩

theorem leads_pop (hop : Fetches code pc .pop := by decide) :
    F.Leads env code .pop pc (v :: rest) memory storage (pc + 1) rest memory storage :=
  ⟨hop, fun _ log => ⟨log, rfl⟩⟩

theorem leads_jumpdest (hop : Fetches code pc .jumpdest := by decide) :
    F.Leads env code .jumpdest pc stack memory storage (pc + 1) stack memory storage :=
  ⟨hop, fun _ log => ⟨log, rfl⟩⟩

theorem leads_binary {f : Int → Int → Int} (hf : localOp env opcode = binaryOp f)
    (hv : f a b = v) (hop : Fetches code pc opcode := by decide)
    (hs : rest.length < maxStackDepth := by simp [maxStackDepth]) :
    F.Leads env code opcode pc (a :: b :: rest) memory storage (pc + 1) (v :: rest) memory
      storage := by
  subst hv
  refine ⟨hop, fun gas log => ⟨log, ?_⟩⟩
  rw [hf, binaryOp, bind_of_ok pop_state, bind_of_ok pop_state, push_state hs]

theorem leads_caller (hop : Fetches code pc .caller := by decide)
    (hs : stack.length < maxStackDepth := by simp [maxStackDepth]) :
    F.Leads env code .caller pc stack memory storage (pc + 1)
      (intFromBytes F.context.caller :: stack) memory storage :=
  ⟨hop, fun _ log => ⟨log, (bind_of_ok (get_apply _)).trans (push_state hs)⟩⟩

theorem leads_calldataload (offset : Nat) (hv : v = offset := by rfl)
    (hop : Fetches code pc .calldataload := by decide)
    (hs : rest.length < maxStackDepth := by simp [maxStackDepth]) :
    F.Leads env code .calldataload pc (v :: rest) memory storage (pc + 1)
      (wordAt F.context.data offset :: rest) memory storage := by
  subst hv
  refine ⟨hop, fun gas log => ⟨log, ?_⟩⟩
  have hload : opCalldataload
      (F.state code (pc + 1) ((offset : Int) :: rest) memory storage gas log) = _ :=
    opCalldataload_of_cons rfl hs
  exact hload

theorem leads_sload (hop : Fetches code pc .sload := by decide)
    (hs : rest.length < maxStackDepth := by simp [maxStackDepth]) :
    F.Leads env code .sload pc (a :: rest) memory storage (pc + 1)
      (storage.getD a 0 :: rest) memory storage := by
  refine ⟨hop, fun gas log =>
    ⟨log ++ [.sload F.context.address a (storage.getD a 0)], ?_⟩⟩
  refine (bind_of_ok pop_state).trans ((bind_of_ok (get_apply _)).trans ?_)
  exact (bind_of_ok (modify_apply _ _)).trans (push_state hs)

theorem leads_sstore (hop : Fetches code pc .sstore := by decide) :
    F.Leads env code .sstore pc (a :: v :: rest) memory storage (pc + 1) rest memory
      (storage.set a v) :=
  ⟨hop, fun _ log => ⟨log ++ [.sstore F.context.address a v], rfl⟩⟩

theorem leads_jumpi (destination : Nat) (hb : b = destination := by rfl)
    (hop : Fetches code pc .jumpi := by decide)
    (hdest : destination ∈ findJumpdests code := by decide) :
    F.Leads env code .jumpi pc (b :: 1 :: rest) memory storage destination rest memory storage := by
  subst hb
  refine ⟨hop, fun gas log => ⟨log, ?_⟩⟩
  rw [localOp, opJumpi, bind_of_ok pop_state, bind_of_ok pop_state, if_pos one_ne_zero, jumpTo,
    bind_of_ok (get_apply _), if_pos ⟨Int.natCast_nonneg _, hdest⟩]
  rfl

theorem leads_jumpi_on (hop : Fetches code pc .jumpi := by decide) :
    F.Leads env code .jumpi pc (b :: 0 :: rest) memory storage (pc + 1) rest memory storage := by
  refine ⟨hop, fun gas log => ⟨log, ?_⟩⟩
  rw [localOp, opJumpi, bind_of_ok pop_state, bind_of_ok pop_state, if_neg (not_not.mpr rfl)]
  rfl

theorem leads_mstore (hstore : Memory.store env a v memory = .ok () memory')
    (hop : Fetches code pc .mstore := by decide) :
    F.Leads env code .mstore pc (a :: v :: rest) memory storage (pc + 1) rest memory' storage := by
  refine ⟨hop, fun gas log => ⟨log, ?_⟩⟩
  rw [localOp, opMstore, bind_of_ok pop_state, bind_of_ok pop_state, liftMemory_state hstore]

theorem halts_stop (h : Q false [] storage) (hop : Fetches code pc .stop := by decide) :
    F.Halts env code .stop pc stack memory storage Q :=
  ⟨hop, fun _ _ => ⟨_, rfl, rfl, rfl, rfl, h⟩⟩

theorem halts_return {data : Bytes} (hread : Memory.readRange env a b memory = .ok data memory')
    (h : Q false data storage) (hop : Fetches code pc .return := by decide) :
    F.Halts env code .return pc (a :: b :: rest) memory storage Q :=
  ⟨hop, fun _ _ => ⟨_, opReturn_of_cons rfl hread, rfl, rfl, rfl, h⟩⟩

theorem halts_revert {data : Bytes} (hread : Memory.readRange env a b memory = .ok data memory')
    (h : Q true data storage) (hop : Fetches code pc .revert := by decide) :
    F.Halts env code .revert pc (a :: b :: rest) memory storage Q := by
  refine ⟨hop, fun gas log => ?_⟩
  rw [localOp, opRevert, bind_of_ok pop_state, bind_of_ok pop_state,
    bind_of_ok (liftMemory_state hread)]
  exact ⟨_, rfl, rfl, rfl, rfl, h⟩

end Opcodes

end Setting

end Ethereum
