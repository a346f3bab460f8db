import Ethereum.Evm.MemoryModel
import Ethereum.Evm.Callee
import Ethereum.Evm.Targets

/-! What a `CALL` leaves in the memory of the caller. -/
namespace Ethereum

open Stateful Padded

/-- The memory of a frame, zero wherever it has not been expanded to. -/
def EVM.bytes (evm : EVM) : Nat → UInt8 := view 0 evm.memory.data

variable {env : Env} {evm evm' child : EVM} {memory memory' : Memory} {o n : Nat} {data : Bytes}

section Memory

/-- An expansion appends zeros. -/
theorem keeps_view_expandTo (env : Env) (offset size : Int) :
    Keeps (fun memory : Memory => view 0 memory.data) (Memory.expandTo env offset size) := by
  intro memory
  rw [Memory.expandTo, bind_of_ok (get_apply _)]
  dsimp only
  split
  · rfl
  · cases hr : attempt (env.allocate ((offset + size + 31) / 32 * 32 - memory.size)
        ((offset + size + 31) / 32 * 32)) memory with
    | ok _ memory₁ =>
      obtain ⟨-, rfl⟩ := ok_of_attempt hr
      rw [bind_of_ok hr]
      exact view_append_replicate _
    | error e memory₁ =>
      rw [bind_of_error hr, error_of_attempt hr]
      rfl

/-- The memory holds the first `m` bytes, or there is a buffer for it to grow so far. -/
def Env.Covers (env : Env) (memory : Memory) (m : Nat) : Prop :=
  m ≤ memory.data.length ∨ wordsFor m < env.bufferLimit

/-- An expansion does not change how far the memory can grow. -/
theorem keeps_covers_expandTo (env : Env) (offset size : Int) :
    Keeps env.Covers (Memory.expandTo env offset size) := by
  intro memory
  rw [Memory.expandTo, bind_of_ok (get_apply _)]
  dsimp only
  split
  · rfl
  · next hneed =>
    cases hr : attempt (env.allocate ((offset + size + 31) / 32 * 32 - memory.size)
        ((offset + size + 31) / 32 * 32)) memory with
    | ok _ memory₁ =>
      obtain ⟨hallocate, rfl⟩ := ok_of_attempt hr
      have hlimit := lt_of_allocate hallocate
      rw [bind_of_ok hr]
      funext m
      refine propext ⟨?_, Or.imp_left fun hm => ?_⟩
      · rintro (hm | hm)
        · change m ≤ (memory₁.data ++ List.replicate _ 0).length at hm
          rw [List.length_append, List.length_replicate] at hm
          unfold Env.Covers wordsFor
          unfold Memory.size at hneed hm
          omega
        · exact .inr hm
      · change m ≤ (memory₁.data ++ List.replicate _ 0).length
        rw [List.length_append]
        omega
    | error e memory₁ =>
      rw [bind_of_error hr, error_of_attempt hr]
      rfl

theorem keeps_readRange {ρ : Type} {g : Memory → ρ}
    (hexpand : ∀ offset size, Keeps g (Memory.expandTo env offset size)) (offset size : Int) :
    Keeps g (Memory.readRange env offset size) :=
  Keeps.ite (keeps_pure _) ((hexpand offset size).bind fun _ =>
    keeps_get.bind fun _ => keeps_pure _)

theorem completes_expandTo_iff :
    Completes (Memory.expandTo env o n) memory ↔ n = 0 ∨ env.Covers memory (o + n) := by
  by_cases hn : n = 0
  · exact iff_of_true ⟨_, _, expandTo_of_le env (.inl hn)⟩ (.inl hn)
  rw [or_iff_right hn]
  rcases Nat.lt_or_ge memory.data.length (o + n) with hlt | hge
  · rw [Env.Covers, or_iff_right (by omega)]
    constructor
    · rintro ⟨a, t, h⟩
      by_contra hfits
      obtain ⟨e, he, -⟩ := expandTo_of_not_fits hn hlt (Nat.not_lt.mp hfits)
      rw [h] at he
      cases he
    · exact fun hfits => ⟨_, _, expandTo_of_fits hn hlt hfits⟩
  · exact iff_of_true ⟨_, _, expandTo_of_le env (.inr hge)⟩ (.inl hge)

theorem completes_writeRange_iff :
    Completes (Memory.writeRange env o data) memory ↔
      data.length = 0 ∨ env.Covers memory (o + data.length) := by
  rw [← completes_expandTo_iff, Memory.writeRange]
  split
  · next hdata => exact iff_of_true (completes_pure _ _) ⟨_, _, expandTo_of_le env (.inl hdata)⟩
  · exact completes_bind_iff fun _ _ _ => completes_modify _ _

theorem length_of_expandTo (h : Memory.expandTo env o n memory = .ok () memory') (hn : n ≠ 0) :
    o + n ≤ memory'.data.length := by
  rcases Nat.lt_or_ge memory.data.length (o + n) with hlt | hge
  · rw [expandTo_of_lt env hn hlt] at h
    obtain ⟨_, memory₁, -, hset⟩ := ok_of_bind_apply h
    cases hset
    rw [List.length_append, List.length_replicate]
    unfold wordsFor
    omega
  · rw [expandTo_of_le env (.inr hge)] at h
    cases h
    exact hge

theorem view_of_writeRange (h : Memory.writeRange env o data memory = .ok () memory') :
    view 0 memory'.data = write (view 0 memory.data) o data := by
  rw [Memory.writeRange] at h
  split at h
  · next hlength =>
    cases h
    rw [List.eq_nil_of_length_eq_zero hlength, write_nil]
  · next hlength =>
    obtain ⟨_, memory₁, hexpand, hmodify⟩ := ok_of_bind_apply h
    have hview := (keeps_view_expandTo env o data.length).of_ok hexpand
    have hbound := length_of_expandTo hexpand hlength
    cases hmodify
    dsimp only at hview ⊢
    rw [setSlice_of_le hbound, view_splice hbound, hview]

end Memory

section Frame

variable {ρ : Type} {g : Memory → ρ}

theorem keeps_memory_stackPop : Keeps (fun evm : EVM => g evm.memory) stackPop := by
  refine keeps_get.bind fun evm => ?_
  split
  · exact keeps_throw _
  · exact Keeps.bind (keeps_modify fun _ => rfl) fun _ => keeps_pure _

theorem keeps_memory_stackPush (value : Int) :
    Keeps (fun evm : EVM => g evm.memory) (stackPush value) :=
  keeps_get.bind fun _ => Keeps.ite (keeps_throw _) (keeps_modify fun _ => rfl)

/-- `CALL` up to its child frame reads the calldata, and writes nothing. -/
theorem keeps_memory_opCallStart
    (hexpand : ∀ offset size, Keeps g (Memory.expandTo env offset size)) :
    Keeps (fun evm : EVM => g evm.memory) (opCallStart env) :=
  keeps_opCallStart env keeps_memory_stackPop keeps_memory_stackPush
    (fun _ _ => (keeps_readRange hexpand _ _).zoom (fun _ => rfl) fun _ _ => rfl)
    (fun _ => keeps_modify fun _ => rfl) fun _ => keeps_modify fun _ => rfl

end Frame

section Copy

/-- The bytes that `CALL` writes after a success: zeros fill up the window. -/
def paddedReturn (retLength : Nat) (returnData : Bytes) : Bytes :=
  if returnData = [] then []
  else returnData.take retLength ++ List.replicate (retLength - returnData.length) 0

theorem bytes_of_liftMemory {x : EStateM Abort Memory Unit}
    (hx : ∀ memory', x evm.memory = .ok () memory' →
      view 0 memory'.data = write evm.bytes o data)
    (h : liftMemory x evm = .ok () evm') : evm'.bytes = write evm.bytes o data := by
  unfold liftMemory zoom at h
  cases hr : x evm.memory with
  | ok a memory =>
    rw [hr] at h
    cases h
    exact hx memory hr
  | error e memory =>
    rw [hr] at h
    cases h

theorem bytes_of_writeReturnData (h : writeReturnData env o n data evm = .ok () evm') :
    evm'.bytes = write evm.bytes o (paddedReturn n data) := by
  have hrange : ∀ d evm', liftMemory (Memory.writeRange env o d) evm = .ok () evm' →
      evm'.bytes = write evm.bytes o d :=
    fun d evm' => bytes_of_liftMemory fun _ => view_of_writeRange
  rw [writeReturnData] at h
  split at h
  · next hcopy =>
    obtain ⟨hn, hdata⟩ := hcopy
    rw [paddedReturn, if_neg hdata]
    rw [Int.toNat_natCast] at h
    dsimp only at h
    split at h
    · next hmissing =>
      obtain ⟨_, evm₁, hallocate, hrange'⟩ := ok_of_bind_apply h
      have hsame : evm₁ = evm := (ok_of_attempt hallocate).2
      subst hsame
      have hcount : ((n : Int) - (data.take n).length).toNat = n - data.length := by
        rw [List.length_take] at hmissing ⊢
        omega
      rw [hcount] at hrange'
      exact hrange _ _ hrange'
    · next hmissing =>
      have hcount : n - data.length = 0 := by
        rw [List.length_take] at hmissing
        omega
      rw [hcount, List.replicate_zero, List.append_nil]
      exact hrange _ _ h
  · next hcopy =>
    cases h
    have hnone : paddedReturn n data = [] := by
      unfold paddedReturn
      split
      · rfl
      · next hdata =>
        have hn : n = 0 := by
          by_contra hn
          exact hcopy ⟨by omega, hdata⟩
        simp [hn]
    rw [hnone, write_nil]

/-- There is a buffer for the window, if zeros have to fill it up, and for the memory to reach
its end. -/
def Env.HoldsWindow (env : Env) (memory : Memory) (retOffset retLength : Nat)
    (returnData : Bytes) : Prop :=
  retLength = 0 ∨ (retLength ≤ returnData.length ∨ retLength < env.bufferLimit) ∧
    env.Covers memory (retOffset + retLength)

theorem completes_writeMemory_iff :
    Completes (liftMemory (Memory.writeRange env o data)) evm ↔
      data.length = 0 ∨ env.Covers evm.memory (o + data.length) :=
  completes_zoom_iff.trans completes_writeRange_iff

theorem completes_writeReturnData_iff :
    Completes (writeReturnData env o n data) evm ↔
      data = [] ∨ env.HoldsWindow evm.memory o n data := by
  rw [writeReturnData]
  split
  · next hcopy =>
    obtain ⟨hn, hdata⟩ := hcopy
    have hn0 : n ≠ 0 := by omega
    rw [or_iff_right hdata, Env.HoldsWindow, or_iff_right hn0, Int.toNat_natCast]
    dsimp only
    rw [List.length_take]
    split
    · next hmissing =>
      have hshort : ¬ n ≤ data.length := by omega
      have hlength : (data.take n ++ List.replicate ((n : Int) - (min n data.length : Nat)).toNat
          0).length = n := by
        rw [List.length_append, List.length_take, List.length_replicate]
        omega
      rw [or_iff_right hshort]
      rcases Nat.lt_or_ge n env.bufferLimit with hlt | hge
      · have hallocate : attempt (env.allocate ((n : Int) - (min n data.length : Nat)) n) evm =
            .ok () evm := by
          rw [allocate_of_lt (by omega) (by omega)]
          rfl
        rw [completes_bind_of_ok hallocate, completes_writeMemory_iff, hlength, or_iff_right hn0,
          and_iff_right hlt]
      · obtain ⟨e, he, -⟩ : ∃ e, env.allocate ((n : Int) - (min n data.length : Nat)) n =
          .error e ∧ e.IsMemory := allocate_of_le (by omega)
        refine iff_of_false ?_ fun h => absurd h.1 (by omega)
        rintro ⟨a, t, h⟩
        obtain ⟨_, _, hallocate, -⟩ := ok_of_bind_apply h
        rw [he] at hallocate
        cases hallocate
    · next hmissing =>
      have hfull : n ≤ data.length := by omega
      rw [completes_writeMemory_iff, List.length_take, min_eq_left hfull, or_iff_right hn0,
        and_iff_right (.inl hfull)]
  · next hcopy =>
    refine iff_of_true (completes_pure _ _) ?_
    by_cases hdata : data = []
    · exact .inl hdata
    · have hn : n = 0 := by
        by_contra hn
        exact hcopy ⟨by omega, hdata⟩
      exact .inr (.inl hn)

theorem keeps_stack_writeReturnData :
    Keeps EVM.executionStack (writeReturnData env o n data) :=
  Keeps.ite (Keeps.ite ((keeps_attempt _).bind fun _ => keeps_zoom _ fun _ _ => rfl)
    (keeps_zoom _ fun _ _ => rfl)) (keeps_pure _)

/-- Nothing but the window stops a `CALL` whose callee has succeeded. -/
theorem completes_success_iff {q : PendingCall} {result : ExecutionResult}
    (hsuccess : result.success = true) (ho : q.retOffset = o) (hn : q.retLength = n)
    (hstack : evm.executionStack.length < maxStackDepth) :
    Completes (settle env (.call q) (.ok result child)) evm ↔
      result.returnData = [] ∨ env.HoldsWindow evm.memory o n result.returnData := by
  simp only [settle, opCallFinish, hsuccess, if_true, ho, hn]
  rw [joinChild, completes_bind_of_ok (modify_apply _ _), persistStorage,
    completes_bind_of_ok (modify_apply _ _), completes_bind_iff]
  · exact completes_writeReturnData_iff
  · intro _ evm₁ hwrite
    have hkept := keeps_stack_writeReturnData.of_ok hwrite
    have hspace : evm₁.executionStack.length < maxStackDepth := hkept ▸ hstack
    rw [useGas, completes_bind_of_ok (modify_apply _ _)]
    exact ⟨_, _, stackPush_of_lt hspace⟩

theorem keeps_bytes_chargeAndPush (amount value : Int) :
    Keeps EVM.bytes (do useGas amount; stackPush value) :=
  Keeps.bind (keeps_modify fun _ => rfl) fun _ =>
    keeps_memory_stackPush (g := fun memory => view 0 memory.data) value

theorem bytes_of_success {q : PendingCall} {result : ExecutionResult}
    (hsuccess : result.success = true) (ho : q.retOffset = o) (hn : q.retLength = n)
    (h : settle env (.call q) (.ok result child) evm = .ok () evm') :
    evm'.bytes = write evm.bytes o (paddedReturn n result.returnData) := by
  simp only [settle, opCallFinish, hsuccess, if_true, ho, hn] at h
  rw [joinChild, bind_of_ok (modify_apply _ _), persistStorage, bind_of_ok (modify_apply _ _)] at h
  obtain ⟨_, evm₁, hwrite, hpush⟩ := ok_of_bind_apply h
  have hbytes := bytes_of_writeReturnData hwrite
  exact ((keeps_bytes_chargeAndPush _ _).of_ok hpush).trans hbytes

/-- Nothing is written for a child that has not succeeded. -/
theorem bytes_of_failure {q : PendingCall} {outcome : Outcome}
    (h : ∀ result child, outcome = .ok result child → result.success = false) :
    Keeps EVM.bytes (settle env (.call q) outcome) := by
  have hjoin : ∀ kind ending child, Keeps EVM.bytes (joinChild kind ending child) :=
    fun _ _ _ => keeps_modify fun _ => rfl
  change Keeps EVM.bytes (opCallFinish env q outcome)
  unfold opCallFinish
  split
  · next result child =>
    rw [h result child rfl]
    exact (hjoin _ _ _).bind fun _ => keeps_bytes_chargeAndPush _ _
  · exact (hjoin _ _ _).bind fun _ => keeps_bytes_chargeAndPush _ _
  · exact (hjoin _ _ _).bind fun _ => keeps_throw _

end Copy

section Window

/-- The next opcode of the frame is `CALL`. -/
structure AtCall (evm : EVM) : Prop where
  running : evm.running = true
  opcode : evm.code[evm.programCounter]? = some 0xf1

variable {f : Nat → UInt8} {result : ExecutionResult} {q : PendingCall}

theorem callStart_of_begin {p : Option Pending} (hat : AtCall evm)
    (h : begin env evm = .ok p evm') :
    ∃ q, opCallStart env (evm.charge .call) = .ok q evm' ∧ p = q.map .call := by
  obtain ⟨byte, opcode, hbyte, hop, hcases⟩ := begin_eq_ok hat.running h
  rw [hat.opcode] at hbyte
  cases hbyte
  have hcall : opcode = .call := (Option.some.inj hop).symm
  subst hcall
  rcases hcases with ⟨hinvalid, -, -⟩ | ⟨-, -, hbegin⟩
  · cases hinvalid
  · rcases ok_of_beginOp hbegin with ⟨hcreate, -⟩ | ⟨-, hstart⟩ | ⟨-, hne, -⟩
    · cases hcreate
    · exact hstart
    · exact absurd rfl hne

theorem memory_of_begin {ρ : Type} {g : Memory → ρ} {p : Option Pending} (hat : AtCall evm)
    (hexpand : ∀ offset size, Keeps g (Memory.expandTo env offset size))
    (h : begin env evm = .ok p evm') : g evm'.memory = g evm.memory := by
  obtain ⟨q, hstart, -⟩ := callStart_of_begin hat h
  have hkept := (keeps_memory_opCallStart hexpand).of_ok hstart
  exact hkept

theorem bytes_of_begin {p : Option Pending} (hat : AtCall evm)
    (h : begin env evm = .ok p evm') : evm'.bytes = evm.bytes :=
  memory_of_begin (g := fun memory => view 0 memory.data) hat (keeps_view_expandTo env) h

/-- The bytes that the callee returned, where they fit into the window. -/
def copyReturn (f : Nat → UInt8) (retOffset retLength : Nat) (returnData : Bytes) :
    Nat → UInt8 :=
  write f retOffset (returnData.take retLength)

/-- After a success, the rest of the window is clear already, and there is memory for the
window. After a `REVERT`, the window holds already what was returned. -/
def ReturnsFit (env : Env) (evm : EVM) (retOffset retLength : Nat) (result : ExecutionResult) :
    Prop :=
  if result.success then
    result.returnData = [] ∨
      (∀ i, retOffset + result.returnData.length ≤ i → i < retOffset + retLength →
        evm.bytes i = 0) ∧
      env.HoldsWindow evm.memory retOffset retLength result.returnData
  else
    read evm.bytes retOffset (result.returnData.take retLength).length =
      result.returnData.take retLength

theorem write_paddedReturn_iff :
    write f o (paddedReturn n data) = copyReturn f o n data ↔
      data = [] ∨ ∀ i, o + data.length ≤ i → i < o + n → f i = 0 := by
  unfold paddedReturn copyReturn
  split
  · next hnil =>
    subst hnil
    rw [List.take_nil]
    exact iff_of_true rfl (.inl rfl)
  · next hdata =>
    rw [write_append_replicate_iff, or_iff_right hdata, List.length_take]
    constructor
    · intro h i hlow hhigh
      apply h i <;> omega
    · intro h i hlow hhigh
      apply h i <;> omega

/-- The `CALL` completes, and leaves exactly the returned bytes in the caller's memory. -/
def CopiesReturn (f : Nat → UInt8) (retOffset retLength : Nat) (returnData : Bytes)
    (r : EStateM.Result Abort EVM Unit) : Prop :=
  ∃ evm', r = .ok () evm' ∧ evm'.bytes = copyReturn f retOffset retLength returnData

theorem copiesReturn_of_success_iff (hsuccess : result.success = true) (ho : q.retOffset = o)
    (hn : q.retLength = n) (hstack : evm.executionStack.length < maxStackDepth) :
    CopiesReturn evm.bytes o n result.returnData (settle env (.call q) (.ok result child) evm) ↔
      ReturnsFit env evm o n result := by
  rw [ReturnsFit, if_pos hsuccess]
  have hcompletes : Completes (settle env (.call q) (.ok result child)) evm ↔
      result.returnData = [] ∨ env.HoldsWindow evm.memory o n result.returnData :=
    completes_success_iff hsuccess ho hn hstack
  constructor
  · rintro ⟨evm', h, hbytes⟩
    rw [bytes_of_success hsuccess ho hn h, write_paddedReturn_iff] at hbytes
    rcases hbytes with hnil | hclear
    · exact .inl hnil
    · exact (hcompletes.mp ⟨_, _, h⟩).imp_right fun hholds => ⟨hclear, hholds⟩
  · intro hfit
    obtain ⟨_, evm', h⟩ := hcompletes.mpr (hfit.imp_right And.right)
    refine ⟨evm', h, ?_⟩
    rw [bytes_of_success hsuccess ho hn h]
    exact write_paddedReturn_iff.mpr (hfit.imp_right And.left)

theorem copiesReturn_of_failure_iff (hfailed : result.success = false)
    (hstack : evm.executionStack.length < maxStackDepth) :
    CopiesReturn evm.bytes o n result.returnData (settle env (.call q) (.ok result child) evm) ↔
      ReturnsFit env evm o n result := by
  have hcaught : Caught (.ok result child) := .inl (by simp [endingOf, hfailed])
  have hkept : evm.bytes = copyReturn evm.bytes o n result.returnData ↔
      ReturnsFit env evm o n result := by
    rw [ReturnsFit, if_neg (by simp [hfailed]), eq_comm]
    exact write_eq_self_iff
  rw [← hkept, CopiesReturn, settle_of_caught hstack hcaught]
  constructor
  · rintro ⟨evm', h, hbytes⟩
    cases h
    exact hbytes
  · exact fun hbytes => ⟨_, rfl, hbytes⟩

theorem copiesReturn_iff (ho : q.retOffset = o) (hn : q.retLength = n)
    (hstack : evm.executionStack.length < maxStackDepth) :
    CopiesReturn evm.bytes o n result.returnData (settle env (.call q) (.ok result child) evm) ↔
      ReturnsFit env evm o n result := by
  cases hsuccess : result.success with
  | true => exact copiesReturn_of_success_iff hsuccess ho hn hstack
  | false => exact copiesReturn_of_failure_iff hsuccess hstack

theorem returnsFit_congr (hbytes : evm'.bytes = evm.bytes)
    (hcovers : env.Covers evm'.memory = env.Covers evm.memory) :
    ReturnsFit env evm' o n result ↔ ReturnsFit env evm o n result := by
  simp only [ReturnsFit, Env.HoldsWindow, hbytes, hcovers]

end Window

/-- A `CALL` leaves exactly the returned bytes in memory when there is memory for the window
and it has no stale bytes for its zeros to clear, or after a `REVERT` no new bytes to miss.
Without a success, and without a callee, it leaves the memory alone. -/
theorem call_copies_return_iff (env : Env) (fuel : Nat) :
    (∀ (evm evm₁ child : EVM) (q : PendingCall) (result : ExecutionResult)
      (gas addrInt value argsOffset argsLength : Int) (retOffset retLength : Nat)
      (rest : List Int), AtCall evm → evm.executionStack.length ≤ maxStackDepth →
      evm.executionStack = gas :: addrInt :: value :: argsOffset :: argsLength ::
        (retOffset : Int) :: (retLength : Int) :: rest →
      begin env evm = .ok (some (.call q)) evm₁ →
      execute env fuel q.child = .ok result child →
      (CopiesReturn evm.bytes retOffset retLength result.returnData
          (iterate env (execute env fuel) evm) ↔
        ReturnsFit env evm retOffset retLength result)) ∧
    (∀ (evm evm₁ : EVM) (q : PendingCall), AtCall evm →
      begin env evm = .ok (some (.call q)) evm₁ →
      (∀ result child, execute env fuel q.child = .ok result child → result.success = false) →
      (final (iterate env (execute env fuel) evm)).bytes = evm.bytes) ∧
    ∀ (evm evm₁ : EVM), AtCall evm → begin env evm = .ok none evm₁ →
      iterate env (execute env fuel) evm = .ok () evm₁ ∧ evm₁.bytes = evm.bytes := by
  refine ⟨?_, ?_, ?_⟩
  · intro evm evm₁ child q result gas addrInt value argsOffset argsLength retOffset retLength
      rest hat hstack hoperands hbegin hexec
    obtain ⟨q', hstart, hq⟩ := callStart_of_begin hat hbegin
    obtain rfl : q' = some q := by
      cases q' with
      | none => cases hq
      | some q' => cases hq; rfl
    obtain ⟨_, _, _, _, _, _, _, hpopped, -, -⟩ := callStart_eq_ok hstart
    have hsame := hoperands.symm.trans hpopped
    simp only [List.cons.injEq] at hsame
    obtain ⟨-, -, -, -, -, ho, hn, -⟩ := hsame
    obtain ⟨_, _, _, _, _, _, _, -, -, hlt, -⟩ := childOf_of_begin hat.running hbegin
    have hbytes := bytes_of_begin hat hbegin
    have hcovers := memory_of_begin hat (keeps_covers_expandTo env) hbegin
    rw [iterate_of_child hbegin, Pending.child, hexec, ← returnsFit_congr hbytes hcovers,
      ← hbytes]
    exact copiesReturn_iff ho.symm hn.symm (hlt.trans_le hstack)
  · intro evm evm₁ q hat hbegin hfailed
    rw [iterate_of_child hbegin, ← bytes_of_begin hat hbegin]
    exact bytes_of_failure hfailed evm₁
  · intro evm evm₁ hat hbegin
    rw [iterate_eq, bind_of_ok hbegin]
    exact ⟨rfl, bytes_of_begin hat hbegin⟩

section Sample

/-- The sample caller, with 32 set bytes that are the window of its `CALL`. -/
def windowFrame (calleeCode : Bytes) : EVM :=
  { callingFrame 0 calleeCode with
    executionStack := [1000, intFromBytes sampleCallee, 0, 0, 0, (0 : Nat), (32 : Nat)]
    memory := ⟨List.replicate 32 0xff⟩ }

/-- A callee that halts with the single byte `0x99`. -/
def oneByteCode (halt : UInt8) : Bytes := [0x60, 0x99, 0x60, 0, 0x53, 0x60, 1, 0x60, 0, halt]

theorem atCall_windowFrame (calleeCode : Bytes) : AtCall (windowFrame calleeCode) := ⟨rfl, rfl⟩

/-- The `CALL` of the sample caller completes, and its callee halts as expected. -/
def CallRuns (calleeCode : Bytes) (evm₁ evm' child : EVM) (q : PendingCall)
    (result : ExecutionResult) : Prop :=
  begin sampleEnv (windowFrame calleeCode) = .ok (some (.call q)) evm₁ ∧
    execute sampleEnv 50 q.child = .ok result child ∧
    iterate sampleEnv (execute sampleEnv 50) (windowFrame calleeCode) = .ok () evm'

theorem exists_callRuns (calleeCode : Bytes) {P : ExecutionResult → Bool} {M : EVM → Bool}
    (hcallee : returns (fun (p : Option Pending) _ => p.elim false fun p =>
      returns (fun result _ => P result) (execute sampleEnv 50 p.child))
        (begin sampleEnv (windowFrame calleeCode)) = true)
    (hcaller : returns (fun _ evm' => M evm')
      (iterate sampleEnv (execute sampleEnv 50) (windowFrame calleeCode)) = true) :
    ∃ evm₁ evm' child q result, CallRuns calleeCode evm₁ evm' child q result ∧
      P result = true ∧ M evm' = true := by
  obtain ⟨p, evm₁, hbegin, hp⟩ := exists_of_returns hcallee
  obtain ⟨_, evm', hiterate, hM⟩ := exists_of_returns hcaller
  obtain ⟨q, -, rfl⟩ := callStart_of_begin (atCall_windowFrame calleeCode) hbegin
  cases q with
  | none => cases hp
  | some q =>
    obtain ⟨result, child, hexec, hP⟩ := exists_of_returns hp
    exact ⟨evm₁, evm', child, q, result, ⟨hbegin, hexec, hiterate⟩, hP, hM⟩

/-- A call after which byte `i` is not what a copy of the returned byte leaves there. -/
theorem exists_miscopied (calleeCode : Bytes) (success : Bool) {i : Nat} {v : UInt8}
    (hne : copyReturn (windowFrame calleeCode).bytes 0 32 [0x99] i ≠ v)
    (hcallee : returns (fun (p : Option Pending) _ => p.elim false fun p =>
      returns (fun result _ => decide (result.success = success ∧ result.returnData = [0x99]))
        (execute sampleEnv 50 p.child)) (begin sampleEnv (windowFrame calleeCode)) = true)
    (hcaller : returns (fun _ evm' => decide (evm'.bytes i = v))
      (iterate sampleEnv (execute sampleEnv 50) (windowFrame calleeCode)) = true) :
    ∃ evm₁ evm' child q result, CallRuns calleeCode evm₁ evm' child q result ∧
      result.success = success ∧ result.returnData = [0x99] ∧
        evm'.bytes ≠ copyReturn (windowFrame calleeCode).bytes 0 32 [0x99] := by
  obtain ⟨evm₁, evm', child, q, result, hruns, hresult, hbyte⟩ :=
    exists_callRuns calleeCode hcallee hcaller
  obtain ⟨hsuccess, hdata⟩ := of_decide_eq_true hresult
  refine ⟨evm₁, evm', child, q, result, hruns, hsuccess, hdata, ?_⟩
  intro h
  have hv := of_decide_eq_true hbyte
  rw [h] at hv
  exact hne hv

/-- A success with one byte clears the other 31 bytes of the window. A `REVERT` with one byte
leaves all 32 as they were. -/
theorem call_clears_window :
    (∃ evm₁ evm' child q result,
      CallRuns (oneByteCode 0xf3) evm₁ evm' child q result ∧ result.success = true ∧
        result.returnData = [0x99] ∧
        evm'.bytes ≠ copyReturn (windowFrame (oneByteCode 0xf3)).bytes 0 32 [0x99]) ∧
    ∃ evm₁ evm' child q result,
      CallRuns (oneByteCode 0xfd) evm₁ evm' child q result ∧ result.success = false ∧
        result.returnData = [0x99] ∧
        evm'.bytes ≠ copyReturn (windowFrame (oneByteCode 0xfd)).bytes 0 32 [0x99] := by
  constructor
  · apply exists_miscopied (oneByteCode 0xf3) true (i := 1) (v := 0)
    · decide
    · decide +kernel
    · decide +kernel
  · apply exists_miscopied (oneByteCode 0xfd) false (i := 0) (v := 0xff)
    · decide
    · decide +kernel
    · decide +kernel

theorem call_copies_return_iff_sample :
    (∃ evm₁ evm' child q result, CallRuns (oneByteCode 0xf3) evm₁ evm' child q result ∧
      (CopiesReturn (windowFrame (oneByteCode 0xf3)).bytes 0 32 result.returnData
          (iterate sampleEnv (execute sampleEnv 50) (windowFrame (oneByteCode 0xf3))) ↔
        ReturnsFit sampleEnv (windowFrame (oneByteCode 0xf3)) 0 32 result)) ∧
    (final (iterate sampleEnv (execute sampleEnv 50) (windowFrame (oneByteCode 0xfd)))).bytes =
      (windowFrame (oneByteCode 0xfd)).bytes ∧
    ∃ evm₁, begin sampleEnv (windowFrame []) = .ok none evm₁ ∧
      evm₁.bytes = (windowFrame []).bytes := by
  refine ⟨?_, ?_, ?_⟩
  · obtain ⟨evm₁, evm', child, q, result, ⟨hbegin, hexec, h⟩, -, -⟩ := exists_callRuns
      (oneByteCode 0xf3) (P := fun _ => true) (M := fun _ => true)
      (by decide +kernel) (by decide +kernel)
    exact ⟨evm₁, evm', child, q, result, ⟨hbegin, hexec, h⟩,
      (call_copies_return_iff sampleEnv 50).1 _ _ _ _ _ _ _ _ _ _ _ _ _
        (atCall_windowFrame _) (by decide) rfl hbegin hexec⟩
  · obtain ⟨evm₁, evm', child, q, result, ⟨hbegin, hexec, -⟩, hP, -⟩ := exists_callRuns
      (oneByteCode 0xfd) (P := fun result => !result.success) (M := fun _ => true)
      (by decide +kernel) (by decide +kernel)
    refine (call_copies_return_iff sampleEnv 50).2.1 _ _ _ (atCall_windowFrame _) hbegin
      fun result' child' hexec' => ?_
    cases hexec.symm.trans hexec'
    simpa using hP
  · obtain ⟨p, evm₁, hbegin, hp⟩ := exists_of_returns
      (p := fun (p : Option Pending) _ => p.isNone) (r := begin sampleEnv (windowFrame []))
      (by decide +kernel)
    obtain rfl : p = none := by simpa using hp
    exact ⟨evm₁, hbegin,
      ((call_copies_return_iff sampleEnv 50).2.2 _ _ (atCall_windowFrame _) hbegin).2⟩

end Sample

end Ethereum
