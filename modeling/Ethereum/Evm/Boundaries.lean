import Ethereum.Core.StateTransition
import Ethereum.Evm.Reach

/-! Instruction boundaries. The scan for jump destinations and the program counter of every
frame walk over the same positions of the code. -/
namespace Ethereum

open Stateful Relation

/-- The instruction at `p` ends before `q`. -/
def Instruction (code : Bytes) (p q : Nat) : Prop :=
  ∃ byte, code[p]? = some byte ∧ q = p + 1 + pushSize byte

/-- The least set of positions that holds 0 and the end of each instruction that starts in it. -/
def Boundary (code : Bytes) : Nat → Prop := ReflTransGen (Instruction code) 0

variable {code : Bytes} {p q : Nat} {byte : UInt8}

theorem boundary_start : Boundary code 0 := .refl

theorem Boundary.next (h : Boundary code p) (hbyte : code[p]? = some byte) :
    Boundary code (p + 1 + pushSize byte) :=
  h.tail ⟨byte, hbyte, rfl⟩

theorem le_of_instructions (h : ReflTransGen (Instruction code) p q) : p ≤ q := by
  induction h with
  | refl => exact le_rfl
  | tail _ hs ih =>
    obtain ⟨byte, -, rfl⟩ := hs
    omega

/-- A later boundary lies behind the instruction. -/
theorem Boundary.end_le (hp : Boundary code p) (hq : Boundary code q)
    (hbyte : code[p]? = some byte) (hlt : p < q) : p + 1 + pushSize byte ≤ q := by
  have hunique : Relator.RightUnique (Instruction code) := by
    rintro a b c ⟨x, hx, rfl⟩ ⟨y, hy, rfl⟩
    cases hx.symm.trans hy
    rfl
  rcases ReflTransGen.total_of_right_unique hunique hp hq with h | h
  · rcases h.cases_head with rfl | ⟨r, ⟨b, hb, rfl⟩, hr⟩
    · omega
    · cases hbyte.symm.trans hb
      exact le_of_instructions hr
  · have := le_of_instructions h
    omega

/-- The scan from a boundary collects the jump destinations at the boundaries ahead. -/
theorem mem_findJumpdestsFrom {fuel : Nat} (hp : Boundary code p)
    (hfuel : code.length ≤ p + fuel) :
    q ∈ findJumpdestsFrom code fuel p ↔ p ≤ q ∧ Boundary code q ∧ code[q]? = some 0x5b := by
  induction fuel generalizing p with
  | zero =>
    constructor
    · intro h
      cases h
    · rintro ⟨hle, -, hq⟩
      obtain ⟨hlt, -⟩ := List.getElem?_eq_some_iff.mp hq
      omega
  | succ fuel ih =>
    unfold findJumpdestsFrom
    cases hbyte : code[p]? with
    | none =>
      constructor
      · intro h
        cases h
      · rintro ⟨hle, -, hq⟩
        obtain ⟨hlt, -⟩ := List.getElem?_eq_some_iff.mp hq
        have := List.getElem?_eq_none_iff.mp hbyte
        omega
    | some byte =>
      have hlater := ih (p := p + pushSize byte + 1)
        (by simpa only [Nat.add_right_comm] using hp.next hbyte) (by omega)
      have hend : p ≤ q ∧ Boundary code q ∧ code[q]? = some 0x5b ↔ byte = 0x5b ∧ q = p ∨
          p + pushSize byte + 1 ≤ q ∧ Boundary code q ∧ code[q]? = some 0x5b := by
        constructor
        · rintro ⟨hle, hq, hdest⟩
          rcases hle.eq_or_lt with rfl | hlt
          · cases hbyte.symm.trans hdest
            exact .inl ⟨rfl, rfl⟩
          · have := hp.end_le hq hbyte hlt
            exact .inr ⟨by omega, hq, hdest⟩
        · rintro (⟨rfl, rfl⟩ | ⟨hle, hq, hdest⟩)
          · exact ⟨le_rfl, hp, hbyte⟩
          · exact ⟨by omega, hq, hdest⟩
      dsimp only
      rw [hend]
      split
      · next h =>
        rw [List.mem_cons, hlater]
        simp only [h, true_and]
      · next h => simp only [hlater, h, false_and, false_or]

theorem mem_findJumpdests :
    q ∈ findJumpdests code ↔ Boundary code q ∧ code[q]? = some 0x5b := by
  rw [findJumpdests, mem_findJumpdestsFrom boundary_start (by omega)]
  simp

/-- The number of bytes behind an opcode that it takes as data. -/
def Opcode.immediate : Opcode → Nat
  | .push n => n
  | _ => 0

theorem immediate_of_ofByte {opcode : Opcode} (h : Opcode.ofByte byte = some opcode) :
    opcode.immediate = pushSize byte := by
  cases decodes_of_ofByte h with
  | push n hn hbyte =>
    rw [pushSize, if_pos (by omega), Opcode.immediate]
    omega
  | dup n hn hbyte =>
    rw [pushSize, if_neg (by omega)]
    rfl
  | swap n hn hbyte =>
    rw [pushSize, if_neg (by omega)]
    rfl
  | single hbyte hpush _ _ =>
    rw [pushSize, if_neg (by omega)]
    cases opcode with
    | push n => exact absurd rfl (hpush n)
    | _ => rfl

section Control

variable {env : Env} {evm evm' : EVM}

instance : Ignores EVM.programCounter := ⟨fun _ _ => rfl, fun _ _ => rfl⟩

/-- The end of the current instruction, or a jump destination. -/
def Proceeds (evm evm' : EVM) (n : Nat) : Prop :=
  evm'.programCounter = evm.programCounter + n ∨ evm'.programCounter ∈ findJumpdests evm.code

theorem proceeds_jumpTo {destination : Int} {u : Unit}
    (h : jumpTo destination evm = .ok u evm') : evm'.programCounter ∈ findJumpdests evm.code := by
  rw [jumpTo, bind_of_ok (get_apply _)] at h
  split at h
  · next hmem =>
    cases h
    exact hmem.2
  · cases h

theorem proceeds_opPush {n : Nat} {u : Unit} (h : opPush n evm = .ok u evm') :
    Proceeds evm evm' n := by
  rw [opPush, bind_of_ok (get_apply _)] at h
  obtain ⟨bytes, evm₁, h₁, hrest⟩ := ok_of_bind_apply h
  obtain ⟨_, evm₂, h₂, hend⟩ := ok_of_bind_apply hrest
  have hpc₁ := (keeps_attempt (f := EVM.programCounter) _).of_ok h₁
  have hpc₂ := (keeps_stackPush (f := EVM.programCounter) _).of_ok h₂
  rw [modify_apply] at hend
  cases hend
  exact .inl (congrArg (· + n) (hpc₂.trans hpc₁))

theorem code_of_stackPop {v : Int} (h : stackPop evm = .ok v evm') : evm'.code = evm.code :=
  congrArg Shell.code ((keeps_stackPop (f := EVM.shell)).of_ok h)

theorem proceeds_opJump {u : Unit} (h : opJump evm = .ok u evm') : Proceeds evm evm' 0 := by
  obtain ⟨destination, evm₁, h₁, h⟩ := ok_of_bind_apply h
  have hmem := proceeds_jumpTo h
  rw [code_of_stackPop h₁] at hmem
  exact .inr hmem

theorem proceeds_opJumpi {u : Unit} (h : opJumpi evm = .ok u evm') : Proceeds evm evm' 0 := by
  obtain ⟨destination, evm₁, h₁, h⟩ := ok_of_bind_apply h
  obtain ⟨condition, evm₂, h₂, h⟩ := ok_of_bind_apply h
  split at h
  · have hmem := proceeds_jumpTo h
    rw [code_of_stackPop h₂, code_of_stackPop h₁] at hmem
    exact .inr hmem
  · cases h
    have hpc₁ := (keeps_stackPop (f := EVM.programCounter)).of_ok h₁
    have hpc₂ := (keeps_stackPop (f := EVM.programCounter)).of_ok h₂
    exact .inl (hpc₂.trans hpc₁)

theorem keeps_opSload : Keeps EVM.programCounter opSload := by
  refine keeps_stackPop.bind fun key => keeps_get.bind fun evm => ?_
  have hemit : Keeps EVM.programCounter
      (emit (.sload evm.context.address key (evm.storage.getD key 0))) := keeps_modify fun _ => rfl
  exact hemit.bind fun _ => keeps_stackPush _

theorem keeps_opSstore : Keeps EVM.programCounter opSstore := by
  refine keeps_stackPop.bind fun key => keeps_stackPop.bind fun value => ?_
  refine keeps_get.bind fun evm => ?_
  have hemit : Keeps EVM.programCounter (emit (.sstore evm.context.address key value)) :=
    keeps_modify fun _ => rfl
  exact hemit.bind fun _ => keeps_modify fun _ => rfl

/-- A handler that leaves the program counter alone has no bytes behind its opcode. -/
theorem proceeds_of_keeps {x : EvmM Unit} {u : Unit} (hx : Keeps EVM.programCounter x)
    (h : x evm = .ok u evm') : Proceeds evm evm' 0 := .inl (hx.of_ok h)

theorem proceeds_localOp {opcode : Opcode} {u : Unit}
    (h : localOp env opcode evm = .ok u evm') : Proceeds evm evm' opcode.immediate := by
  by_cases hq : opcode.isQuiet = true
  · have hn : opcode.immediate = 0 := by
      cases opcode <;> first | rfl | cases hq
    rw [hn]
    exact proceeds_of_keeps (keeps_quiet env hq) h
  · cases opcode with
    | push n => exact proceeds_opPush h
    | jump => exact proceeds_opJump h
    | jumpi => exact proceeds_opJumpi h
    | stop =>
      cases h
      exact .inl rfl
    | «return» =>
      have hkeeps : Keeps EVM.programCounter (opReturn env) :=
        keeps_readAndHalt env fun _ _ => rfl
      exact proceeds_of_keeps hkeeps h
    | revert =>
      have hkeeps : Keeps EVM.programCounter (opRevert env) :=
        keeps_readAndHalt env fun _ _ => rfl
      exact proceeds_of_keeps hkeeps h
    | sload => exact proceeds_of_keeps keeps_opSload h
    | sstore => exact proceeds_of_keeps keeps_opSstore h
    | _ => exact absurd rfl hq

/-- A step that keeps the control, as a step that maintains its value. -/
theorem maintains_control {α : Type} {x : EvmM α} (hx : Keeps EVM.control x) (r : Nat × Bool) :
    Maintains (fun _ => True) (fun evm => evm.control = r) x fun _ => True :=
  hx.maintains fun _ _ hkept h => hkept.trans h

theorem control_opCreateStart : Keeps EVM.control (opCreateStart env) :=
  keeps_of_maintains fun r => opCreateStart_maintains env (maintains_control keeps_stackPop r)
    (fun _ => maintains_control (keeps_stackPush _) r)
    (fun _ _ => maintains_control (keeps_liftMemory _) r)
    fun _ => maintains_modify fun _ h => h

theorem control_opCallStart : Keeps EVM.control (opCallStart env) :=
  keeps_opCallStart env keeps_stackPop keeps_stackPush (fun _ _ => keeps_liftMemory _)
    (fun _ => keeps_modify fun _ => rfl) fun _ => keeps_modify fun _ => rfl

/-- An opcode that starts a child moves on by one byte and does not stop the frame. -/
theorem control_of_begin {p : Pending} (hrun : evm.running = true)
    (h : begin env evm = .ok (some p) evm') :
    evm'.programCounter = evm.programCounter + 1 ∧ evm'.stopped = evm.stopped := by
  obtain ⟨byte, opcode, -, -, ⟨-, hnone, -⟩ | ⟨-, -, hb⟩⟩ := begin_eq_ok hrun h
  · cases hnone
  · have hcontrol : evm'.control = (evm.programCounter + 1, evm.stopped) := by
      rcases ok_of_beginOp hb with ⟨rfl, q, hstart, -⟩ | ⟨rfl, q, hstart, -⟩ | ⟨-, -, hnone, -⟩
      · exact control_opCreateStart.of_ok hstart
      · exact control_opCallStart.of_ok hstart
      · cases hnone
    exact ⟨congrArg Prod.fst hcontrol, congrArg Prod.snd hcontrol⟩

theorem control_settle (p : Pending) (o : Outcome) : Keeps EVM.control (settle env p o) := by
  apply keeps_of_maintains
  intro r
  have hwrite : ∀ retOffset retLength returnData,
      Keeps EVM.control (writeReturnData env retOffset retLength returnData) :=
    fun _ _ _ => Keeps.ite (Keeps.ite ((keeps_attempt _).bind fun _ => keeps_liftMemory _)
      (keeps_liftMemory _)) (keeps_pure _)
  exact settle_maintains env (fun _ _ _ => maintains_modify fun _ h => h)
    (fun _ => maintains_modify fun _ h => h)
    (fun _ _ _ => maintains_control (hwrite _ _ _) r)
    (fun _ => maintains_modify fun _ h => h)
    (fun _ _ => maintains_control (keeps_stackPush _) r) fun _ _ _ => trivial

end Control

section Frames

variable {env : Env} {evm evm' start : EVM}

/-- The first half of an iteration ends at the next instruction, or at a jump destination. -/
theorem proceeds_begin {child : Option Pending} (hrun : evm.running = true)
    (hpc : Boundary evm.code evm.programCounter) (hb : begin env evm = .ok child evm') :
    Boundary evm.code evm'.programCounter := by
  obtain ⟨byte, opcode, hbyte, hop, ⟨rfl, -, rfl⟩ | ⟨hne, -, hb⟩⟩ := begin_eq_ok hrun hb
  · exact hpc
  · have hnext := hpc.next hbyte
    rw [← immediate_of_ofByte hop] at hnext
    rcases ok_of_beginOp hb with ⟨rfl, q, hstart, -⟩ | ⟨rfl, q, hstart, -⟩ | ⟨-, -, -, hlocal⟩
    · have hcontrol := control_opCreateStart.of_ok hstart
      rwa [show evm'.programCounter = evm.programCounter + 1 from congrArg Prod.fst hcontrol]
    · have hcontrol := control_opCallStart.of_ok hstart
      rwa [show evm'.programCounter = evm.programCounter + 1 from congrArg Prod.fst hcontrol]
    · rcases proceeds_localOp hlocal with hpc' | hjump
      · rwa [hpc']
      · exact (mem_findJumpdests.mp hjump).1

theorem boundary_next (hn : Next env evm evm') (h : Boundary evm.code evm.programCounter) :
    Boundary evm'.code evm'.programCounter := by
  cases hn with
  | step hrun hb =>
    have hcode := (frame_begin env hrun).1
    rw [hb, final_ok] at hcode
    exact hcode ▸ proceeds_begin hrun h hb
  | enter hrun hb =>
    obtain ⟨_, _, _, _, _, _, _, hchild, -⟩ := childOf_of_begin hrun hb
    rw [hchild.child]
    exact boundary_start
  | @resume p evm₁ c _ hrun hb hc hs =>
    have hcode := (frame_begin env hrun).1
    rw [hb, final_ok] at hcode
    have hsettled := settle_settled env p (conclude p.gas c) evm₁
    have hcontrol := (control_settle p (conclude p.gas c)).of_ok hs
    rw [hs, final_ok] at hsettled
    rw [hsettled.code, hcode, show evm'.programCounter = evm₁.programCounter from
      congrArg Prod.fst hcontrol]
    exact proceeds_begin hrun h hb

/-- The jump destinations are the boundaries at which a `JUMPDEST` stands, and no frame of an
execution ever gets off the boundaries of its code into the data of a push. -/
theorem execution_at_boundaries (env : Env) (code : Bytes) (context : ExecutionContext)
    (storage : Dict Int Int) (world : Option WorldState) (log : List Event) :
    (∀ p, p ∈ findJumpdests code ↔ Boundary code p ∧ code[p]? = some 0x5b) ∧
      ∀ evm, Reaches env (EVM.init code context storage world log) evm →
        Boundary evm.code evm.programCounter ∧
          ∀ q byte, Boundary evm.code q → evm.code[q]? = some byte →
            ¬ (q < evm.programCounter ∧ evm.programCounter ≤ q + pushSize byte) := by
  refine ⟨fun p => mem_findJumpdests, fun evm h => ?_⟩
  have hpc : Boundary evm.code evm.programCounter :=
    h.invariant (I := fun evm => Boundary evm.code evm.programCounter) boundary_start
      fun hpc hn => boundary_next hn hpc
  refine ⟨hpc, fun q byte hq hbyte ⟨hlt, hle⟩ => ?_⟩
  have := hq.end_le hpc hbyte hlt
  omega

/-- A jump over data that looks like `JUMPDEST`, to a push that the end of the code cuts off. -/
theorem execution_at_boundaries_truncated : ∃ result evm,
    execute sampleEnv 10
      (EVM.init [0x60, 0x05, 0x56, 0x60, 0x5b, 0x5b, 0x61] (sampleContext 100) .empty none []) =
      .ok result evm ∧
    evm.programCounter = 9 ∧ Boundary evm.code evm.programCounter := by
  obtain ⟨result, evm, h, hpc⟩ := exists_of_returns (p := fun _ evm => evm.programCounter == 9)
    (r := execute sampleEnv 10
      (EVM.init [0x60, 0x05, 0x56, 0x60, 0x5b, 0x5b, 0x61] (sampleContext 100) .empty none []))
    (by decide +kernel)
  have hrun := run_runLoop sampleEnv 10
    (EVM.init [0x60, 0x05, 0x56, 0x60, 0x5b, 0x5b, 0x61] (sampleContext 100) .empty none [])
  have hreaches := reaches_of_run hrun (conclude_eq_ok h).1
  exact ⟨result, evm, h, beq_iff_eq.mp hpc,
    ((execution_at_boundaries _ _ _ _ _ _).2 evm hreaches).1⟩

end Frames

end Ethereum
