import Ethereum.Evm.Windows

/-! What bytecode without jumps costs: it runs to its end, or out of gas on the way. -/
namespace Ethereum

open Stateful

/-- The gas for one run of each opcode. -/
def totalCost (ops : List Opcode) : Int := (ops.map gasCost).sum

theorem totalCost_cons (opcode : Opcode) (ops : List Opcode) :
    totalCost (opcode :: ops) = gasCost opcode + totalCost ops := by simp [totalCost]

theorem totalCost_nonneg (ops : List Opcode) : 0 ≤ totalCost ops := by
  induction ops with
  | nil => exact le_rfl
  | cons opcode ops ih =>
    have hcost := gasCost_nonneg opcode
    rw [totalCost_cons]
    omega

namespace Setting

/-- How a frame ends that has to run `ops`: it has paid for all of them, or for the first ones. -/
inductive Charged (F : Setting) (Q : Post) (ops : List Opcode) (gas : Int) (log : List Event) :
    LoopResult → Prop
  | paid {evm} (hpaid : totalCost ops ≤ gas) (hremaining : evm.gasRemaining = gas - totalCost ops)
      (hworld : evm.worldState = F.world)
      (hlog : evm.log = log ++ ops.map (.executed F.context.address))
      (hQ : Q evm.reverted evm.returnData evm.storage) : Charged F Q ops gas log (.ok () evm)
  | unpaid {needed remaining evm} (run : List Opcode) (hunpaid : gas < totalCost ops)
      (hrun : run <+: ops)
      (hlog : evm.log = log ++ run.map (.executed F.context.address)) :
      Charged F Q ops gas log (.error (.raised (.evmError (.outOfGas needed remaining))) evm)

/-- From this loop head on the frame runs `ops`, and ends as `Q` says if the gas is enough. -/
def Costs (F : Setting) (env : Env) (code : Bytes) (pc : Nat) (stack : List Int) (memory : Memory)
    (storage : Dict Int Int) (ops : List Opcode) (Q : Post) : Prop :=
  ∀ fuel gas log, ops.length < fuel →
    F.Charged Q ops gas log (runLoop env fuel (F.state code pc stack memory storage gas log))

variable {F : Setting} {env : Env} {code : Bytes} {pc : Nat} {stack rest : List Int}
  {memory : Memory} {storage : Dict Int Int} {opcode : Opcode} {ops : List Opcode} {Q : Post}

theorem Charged.cons {gas : Int} {log : List Event} {r : LoopResult}
    (h : F.Charged Q ops (gas - gasCost opcode) (log ++ [.executed F.context.address opcode]) r) :
    F.Charged Q (opcode :: ops) gas log r := by
  have hcons := totalCost_cons opcode ops
  cases h with
  | paid hpaid hremaining hworld hlog hQ =>
    refine .paid (by omega) (by omega) hworld ?_ hQ
    rw [hlog, List.append_assoc]
    rfl
  | unpaid run hunpaid hrun hlog =>
    refine .unpaid (opcode :: run) (by omega) ((List.prefix_cons_inj opcode).mpr hrun) ?_
    rw [hlog, List.append_assoc]
    rfl

/-- An opcode: the frame runs out of gas, or it goes on from what the handler comes to. -/
theorem costs_op (hop : Fetches code pc opcode)
    (h : ∀ gas log, 0 ≤ gas → ∃ evm,
      localOp env opcode (F.state code (pc + 1) stack memory storage gas log) = .ok () evm ∧
        ∀ fuel, ops.length < fuel → F.Charged Q ops gas log (runLoop env fuel evm)) :
    F.Costs env code pc stack memory storage (opcode :: ops) Q := by
  intro fuel gas log hfuel
  obtain ⟨fuel, rfl⟩ : ∃ n, fuel = n + 1 := ⟨fuel - 1, by omega⟩
  have hrun : (F.state code pc stack memory storage gas log).running = true := hop.running gas log
  rcases lt_or_ge gas (gasCost opcode) with hgas | hgas
  · have hfail : iterate env (execute env fuel) (F.state code pc stack memory storage gas log) =
        _ := (congrFun (iterate_eq _) _).trans (bind_of_error (hop.begin_of_lt log hgas))
    have hrest := totalCost_nonneg ops
    rw [runLoop_of_error hrun hfail]
    apply Charged.unpaid []
    · rw [totalCost_cons]
      omega
    · exact List.nil_prefix
    · exact (List.append_nil log).symm
  · obtain ⟨evm, hlocal, hrest⟩ := h (gas - gasCost opcode)
      (log ++ [.executed F.context.address opcode]) (by omega)
    have hb : begin env (F.state code pc stack memory storage gas log) = .ok none evm := by
      rw [hop.begin_of_le log hgas, hlocal]
      rfl
    have hstep : iterate env (execute env fuel) (F.state code pc stack memory storage gas log) =
        .ok () evm := (congrFun (iterate_eq _) _).trans (bind_of_ok hb)
    rw [runLoop_of_ok hrun hstep]
    apply Charged.cons
    apply hrest
    rw [List.length_cons] at hfuel
    omega

/-- An opcode after which the frame goes on. -/
theorem costs_next (hop : Fetches code pc opcode)
    (h : ∀ gas log, ∃ pc' stack' memory' storage',
      localOp env opcode (F.state code (pc + 1) stack memory storage gas log) =
          .ok () (F.state code pc' stack' memory' storage' gas log) ∧
        F.Costs env code pc' stack' memory' storage' ops Q) :
    F.Costs env code pc stack memory storage (opcode :: ops) Q := by
  apply costs_op hop
  intro gas log _
  obtain ⟨pc', stack', memory', storage', hlocal, hnext⟩ := h gas log
  exact ⟨_, hlocal, fun fuel hfuel => hnext fuel gas log hfuel⟩

/-- An opcode that ends the frame. -/
theorem costs_halt (hop : Fetches code pc opcode)
    (h : ∀ gas log, ∃ evm,
      localOp env opcode (F.state code (pc + 1) stack memory storage gas log) = .ok () evm ∧
        evm.stopped = true ∧ evm.gasRemaining = gas ∧ evm.worldState = F.world ∧ evm.log = log ∧
        Q evm.reverted evm.returnData evm.storage) :
    F.Costs env code pc stack memory storage [opcode] Q := by
  apply costs_op hop
  intro gas log hgas
  obtain ⟨evm, hlocal, hstopped, hremaining, hworld, hlog, hQ⟩ := h gas log
  refine ⟨evm, hlocal, fun fuel hfuel => ?_⟩
  obtain ⟨fuel, rfl⟩ : ∃ n, fuel = n + 1 := ⟨fuel - 1, by omega⟩
  rw [runLoop_of_halted (by simp [EVM.running, hstopped])]
  exact .paid hgas (hremaining.trans (sub_zero gas).symm) hworld
    (hlog.trans (List.append_nil log).symm) hQ

theorem costs_push (n : Nat) (v : Int)
    (h : F.Costs env code (pc + 1 + n) (v :: stack) memory storage ops Q)
    (hop : Fetches code pc (.push n)) (hv : intFromBytes (window code (pc + 1) n) = v)
    (hs : stack.length < maxStackDepth := by simp [maxStackDepth]) :
    F.Costs env code pc stack memory storage (.push n :: ops) Q := by
  subst hv
  apply costs_next hop
  intro gas log
  have hpush : opPush n (F.state code (pc + 1) stack memory storage gas log) = _ :=
    opPush_of_lt n hs
  exact ⟨_, _, _, _, hpush, h⟩

theorem costs_codecopy (d o n : Nat) (hfits : env.Copies memory d n)
    (h : ∀ memory', (n ≠ 0 → d + n ≤ memory'.data.length) →
      memory.Copied memory' d (window code o n) →
      F.Costs env code (pc + 1) rest memory' storage ops Q)
    (hop : Fetches code pc .codecopy) :
    F.Costs env code pc (d :: o :: n :: rest) memory storage (.codecopy :: ops) Q := by
  apply costs_next hop
  intro gas log
  have hcode : ∀ stack, EVM.code { F.state code (pc + 1) [] memory storage gas log with
      executionStack := stack } = code := fun _ => rfl
  have hfits' : env.Copies (F.state code (pc + 1) [] memory storage gas log).memory d n := hfits
  obtain ⟨memory', hcopy, hlength, hcopied⟩ := copyOp_of_fits o rest hcode hfits'
  exact ⟨_, _, _, _, hcopy, h memory' hlength hcopied⟩

theorem costs_return {a b : Int} {data : Bytes} {memory' : Memory}
    (hread : Memory.readRange env a b memory = .ok data memory') (h : Q false data storage)
    (hop : Fetches code pc .return) :
    F.Costs env code pc (a :: b :: rest) memory storage [.return] Q :=
  costs_halt hop fun _ _ => ⟨_, opReturn_of_cons rfl hread, rfl, rfl, rfl, rfl, h⟩

end Setting

end Ethereum
