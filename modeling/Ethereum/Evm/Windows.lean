import Ethereum.Evm.Hoare
import Ethereum.Evm.ReturnData

/-! The opcodes that read calldata or code all read the same bytes, with zeros past the end. -/
namespace Ethereum

open Stateful Padded

variable {env : Env} {evm : EVM} {memory : Memory} {data : Bytes} {source : EVM → Bytes}
  {rest : List Int} {d o n : Nat}

/-- There is a buffer for `size` bytes and, if it has to grow, for the memory to hold them. -/
def Env.Copies (env : Env) (memory : Memory) (dest size : Nat) : Prop :=
  size = 0 ∨ size < env.bufferLimit ∧
    (dest + size ≤ memory.data.length ∨ wordsFor (dest + size) < env.bufferLimit)

/-- The memory after a copy of `bytes` to `dest`. -/
structure Memory.Copied (memory memory' : Memory) (dest : Nat) (bytes : Bytes) : Prop where
  written : slice memory'.data dest (dest + bytes.length) = bytes
  kept : ∀ i, i < dest ∨ dest + bytes.length ≤ i → view 0 memory'.data i = view 0 memory.data i

section Memory

theorem readRange_of_le (env : Env) (h : o + n ≤ memory.data.length) :
    Memory.readRange env o n memory = .ok (slice memory.data o (o + n)) memory := by
  rw [Memory.readRange]
  split
  · next hn =>
    obtain rfl : n = 0 := by exact_mod_cast hn
    rw [slice_of_le h]
    rfl
  · rw [bind_of_ok (expandTo_of_le env (.inr h)), bind_of_ok (get_apply _), pure_apply]

theorem load_of_le (env : Env) (h : o + 32 ≤ memory.data.length) :
    Memory.load env o memory = .ok (intFromBytes (slice memory.data o (o + 32))) memory := by
  have hexpand : Memory.expandTo env o 32 memory = .ok () memory :=
    expandTo_of_le (n := 32) env (.inr h)
  rw [Memory.load, bind_of_ok hexpand, bind_of_ok (get_apply _), pure_apply]

/-- A write for which the memory can grow. -/
theorem writeRange_of_expandTo {memory₁ : Memory} (hdata : data.length ≠ 0)
    (hexpand : Memory.expandTo env d data.length memory = .ok () memory₁) :
    ∃ memory', Memory.writeRange env d data memory = .ok () memory' ∧
      d + data.length ≤ memory'.data.length ∧ memory.Copied memory' d data := by
  have hwrite : Memory.writeRange env d data memory =
      .ok () ⟨setSlice memory₁.data d (d + data.length) data⟩ := by
    rw [Memory.writeRange, if_neg hdata, bind_of_ok hexpand, modify_apply]
  have hview := view_of_writeRange hwrite
  have hlength : d + data.length ≤ (setSlice memory₁.data d (d + data.length) data).length := by
    have hbound := length_of_expandTo hexpand hdata
    rw [setSlice_of_le hbound]
    simp only [List.length_append, List.length_take, List.length_drop]
    omega
  refine ⟨_, hwrite, hlength, ?_, ?_⟩
  · rw [slice_of_le hlength, ← read_view (d := 0) hlength, hview, read_write]
  · rintro i (hi | hi)
    · rw [hview, write_of_lt hi]
    · rw [hview, write_of_le hi]

end Memory

section Copy

theorem attempt_bytearray {σ : Type} (h : n < env.bufferLimit) (s : σ) :
    attempt (env.bytearray n) s = .ok (List.replicate n 0) s := by
  rw [Env.bytearray, if_neg (by omega), allocate_of_lt le_rfl (by exact_mod_cast h)]
  rfl

theorem bytearray_of_le (h : env.bufferLimit ≤ n) :
    ∃ e, env.bytearray n = .error e ∧ e.IsMemory := by
  obtain ⟨e, he, hmemory⟩ : ∃ e, env.allocate n n = .error e ∧ e.IsMemory :=
    allocate_of_le (by exact_mod_cast h)
  refine ⟨e, ?_, hmemory⟩
  rw [Env.bytearray, if_neg (by omega), he]
  rfl

/-- A copy, from its operands on. -/
theorem copyOp_of_operands (env : Env)
    (hsource : ∀ stack, source { evm with executionStack := stack } = data) :
    copyOp env source
        { evm with executionStack := (d : Int) :: (o : Int) :: (n : Int) :: rest } =
      if n = 0 then .ok () { evm with executionStack := rest }
      else (attempt (env.bytearray n) >>= fun _ =>
        liftMemory (Memory.writeRange env d (window data o n)))
          { evm with executionStack := rest } := by
  rw [copyOp, bind_of_ok (stackPop_of_cons rfl), bind_of_ok (stackPop_of_cons rfl),
    bind_of_ok (stackPop_of_cons rfl)]
  by_cases hn : n = 0
  · subst hn
    rfl
  · rw [if_neg (by exact_mod_cast hn), if_neg hn, bind_of_ok (get_apply _), hsource]
    simp only [Int.toNat_natCast, readWindow_eq]
    rfl

theorem copyOp_of_fits (o : Nat) (rest : List Int)
    (hsource : ∀ stack, source { evm with executionStack := stack } = data)
    (h : env.Copies evm.memory d n) : ∃ memory,
      copyOp env source
          { evm with executionStack := (d : Int) :: (o : Int) :: (n : Int) :: rest } =
        .ok () { evm with executionStack := rest, memory } ∧
      (n ≠ 0 → d + n ≤ memory.data.length) ∧ evm.memory.Copied memory d (window data o n) := by
  rw [copyOp_of_operands env hsource]
  by_cases hn : n = 0
  · subst hn
    refine ⟨evm.memory, if_pos rfl, fun h => absurd rfl h, ?_, fun _ _ => rfl⟩
    simp [window, slice]
  · rw [if_neg hn]
    obtain ⟨hbuffer, hfits⟩ := h.resolve_left hn
    have hne : (window data o n).length ≠ 0 := by rwa [length_window]
    obtain ⟨memory₁, hexpand⟩ : ∃ memory₁,
        Memory.expandTo env d (window data o n).length evm.memory = .ok () memory₁ := by
      rw [length_window]
      rcases Nat.lt_or_ge evm.memory.data.length (d + n) with hlt | hge
      · exact ⟨_, expandTo_of_fits hn hlt (hfits.resolve_left (by omega))⟩
      · exact ⟨_, expandTo_of_le env (.inr hge)⟩
    obtain ⟨memory', hwrite, hlength, hcopied⟩ := writeRange_of_expandTo hne hexpand
    rw [length_window] at hlength
    refine ⟨memory', ?_, fun _ => hlength, hcopied⟩
    rw [bind_of_ok (attempt_bytearray hbuffer _)]
    exact liftMemory_of_ok hwrite

theorem copyOp_of_not_fits (o : Nat) (rest : List Int)
    (hsource : ∀ stack, source { evm with executionStack := stack } = data)
    (h : ¬ env.Copies evm.memory d n) : ∃ e,
      copyOp env source
          { evm with executionStack := (d : Int) :: (o : Int) :: (n : Int) :: rest } =
        .error (.raised e) { evm with executionStack := rest } ∧ e.IsMemory := by
  have hn : n ≠ 0 := fun hn => h (.inl hn)
  rw [copyOp_of_operands env hsource, if_neg hn]
  rcases Nat.lt_or_ge n env.bufferLimit with hbuffer | hbuffer
  · have hlt : evm.memory.data.length < d + n := by
      by_contra hge
      exact h (.inr ⟨hbuffer, .inl (by omega)⟩)
    have hlimit : env.bufferLimit ≤ wordsFor (d + n) := by
      by_contra hfits
      exact h (.inr ⟨hbuffer, .inr (by omega)⟩)
    obtain ⟨e, he, hmemory⟩ := expandTo_of_not_fits hn hlt hlimit
    refine ⟨e, ?_, hmemory⟩
    have hne : (window data o n).length ≠ 0 := by rwa [length_window]
    have hwrite : Memory.writeRange env d (window data o n) evm.memory =
        .error (.raised e) evm.memory := by
      rw [Memory.writeRange, if_neg hne, length_window, bind_of_error he]
    rw [bind_of_ok (attempt_bytearray hbuffer _)]
    exact liftMemory_of_error hwrite
  · obtain ⟨e, he, hmemory⟩ := bytearray_of_le hbuffer
    refine ⟨e, ?_, hmemory⟩
    rw [he]
    rfl

end Copy

/-- The opcodes that copy, and what they copy from. -/
inductive CopiesFrom (evm : EVM) : Opcode → Bytes → Prop
  | calldata : CopiesFrom evm .calldatacopy evm.context.data
  | code : CopiesFrom evm .codecopy evm.code

theorem localOp_of_copiesFrom (env : Env) {opcode : Opcode} (h : CopiesFrom evm opcode data) :
    ∃ source, localOp env opcode = copyOp env source ∧
      ∀ stack, source { evm with executionStack := stack } = data := by
  cases h with
  | calldata => exact ⟨_, rfl, fun _ => rfl⟩
  | code => exact ⟨_, rfl, fun _ => rfl⟩

/-- A copy that completes has written its window. -/
theorem copied_of_ok {opcode : Opcode} {evm' : EVM} (h : CopiesFrom evm opcode data)
    (hok : localOp env opcode
      { evm with executionStack := (d : Int) :: (o : Int) :: (n : Int) :: rest } = .ok () evm') :
    (n ≠ 0 → d + n ≤ evm'.memory.data.length) ∧
      evm.memory.Copied evm'.memory d (window data o n) := by
  obtain ⟨source, hop, hsource⟩ := localOp_of_copiesFrom env h
  rw [hop] at hok
  by_cases hfits : env.Copies evm.memory d n
  · obtain ⟨memory, hcopy, hlength, hcopied⟩ := copyOp_of_fits o rest hsource hfits
    rw [hcopy] at hok
    cases hok
    exact ⟨hlength, hcopied⟩
  · obtain ⟨e, hcopy, -⟩ := copyOp_of_not_fits o rest hsource hfits
    rw [hcopy] at hok
    cases hok

/-- A word of the memory that is there already. -/
theorem opMload_of_le (env : Env) (hs : rest.length < maxStackDepth)
    (h : d + 32 ≤ evm.memory.data.length) :
    opMload env { evm with executionStack := (d : Int) :: rest } = .ok () { evm with
      executionStack := intFromBytes (slice evm.memory.data d (d + 32)) :: rest } := by
  have hload : liftMemory (Memory.load env d) { evm with executionStack := rest } = _ :=
    liftMemory_of_ok (load_of_le env h)
  rw [opMload, bind_of_ok (stackPop_of_cons rfl)]
  exact (bind_of_ok hload).trans (stackPush_of_lt hs)

/-- All opcodes that read calldata or code read it with zeros past its end. A copy for which there
are buffers writes its window and changes no other byte, without them it raises and changes no
byte; `CALLDATALOAD` reads the word that a copy writes, and `PUSH` the bytes that a copy from the
code writes. -/
theorem readers_share_zero_extension (env : Env) (evm : EVM) (d o n : Nat) (rest : List Int) :
    (∀ opcode data, CopiesFrom evm opcode data →
      (env.Copies evm.memory d n → ∃ memory,
        localOp env opcode
            { evm with executionStack := (d : Int) :: (o : Int) :: (n : Int) :: rest } =
          .ok () { evm with executionStack := rest, memory } ∧
        evm.memory.Copied memory d (window data o n)) ∧
      (¬ env.Copies evm.memory d n → ∃ e,
        localOp env opcode
            { evm with executionStack := (d : Int) :: (o : Int) :: (n : Int) :: rest } =
          .error (.raised e) { evm with executionStack := rest } ∧ e.IsMemory)) ∧
    (rest.length < maxStackDepth →
      localOp env .calldataload { evm with executionStack := (o : Int) :: rest } = .ok ()
        { evm with executionStack := intFromBytes (window evm.context.data o 32) :: rest } ∧
      ∀ evm₁, localOp env .calldatacopy
          { evm with executionStack := (d : Int) :: (o : Int) :: 32 :: rest } = .ok () evm₁ →
        localOp env .mload { evm₁ with executionStack := (d : Int) :: rest } = .ok ()
          { evm₁ with executionStack := intFromBytes (window evm.context.data o 32) :: rest }) ∧
    (rest.length < maxStackDepth →
      localOp env (.push n) { evm.charge (.push n) with executionStack := rest } = .ok ()
        { evm.charge (.push n) with
          executionStack := intFromBytes (window evm.code (evm.programCounter + 1) n) :: rest
          programCounter := evm.programCounter + 1 + n } ∧
      ∀ evm₁, localOp env .codecopy { evm with executionStack :=
            (d : Int) :: ((evm.programCounter + 1 : Nat) : Int) :: (n : Int) :: rest } =
          .ok () evm₁ →
        slice evm₁.memory.data d (d + n) = window evm.code (evm.programCounter + 1) n) := by
  refine ⟨fun opcode data hop => ?_, fun hs => ⟨?_, fun evm₁ hcopy => ?_⟩,
    fun hs => ⟨?_, fun evm₁ hcopy => ?_⟩⟩
  · obtain ⟨source, hlocal, hsource⟩ := localOp_of_copiesFrom env hop
    rw [hlocal]
    refine ⟨fun hfits => ?_, fun hfits => copyOp_of_not_fits o rest hsource hfits⟩
    obtain ⟨memory, hcopy, -, hcopied⟩ := copyOp_of_fits o rest hsource hfits
    exact ⟨memory, hcopy, hcopied⟩
  · exact opCalldataload_of_cons rfl hs
  · obtain ⟨hlength, hcopied⟩ := copied_of_ok (n := 32) .calldata hcopy
    have hwritten := hcopied.written
    rw [length_window] at hwritten
    have hload : opMload env { evm₁ with executionStack := (d : Int) :: rest } = _ :=
      opMload_of_le env hs (hlength (by norm_num))
    rw [← hwritten]
    exact hload
  · have hpush : opPush n { evm.charge (.push n) with executionStack := rest } = _ :=
      opPush_of_lt n hs
    exact hpush
  · have hwritten := (copied_of_ok .code hcopy).2.written
    rwa [length_window] at hwritten

/-- No buffer reaches to offset `2 ^ 63`, so a copy of one byte to there raises. -/
theorem readers_share_zero_extension_not_huge : ¬ ∀ (env : Env) (evm : EVM) (d o n : Nat)
    (rest : List Int), ∃ memory,
      localOp env .calldatacopy
          { evm with executionStack := (d : Int) :: (o : Int) :: (n : Int) :: rest } =
        .ok () { evm with executionStack := rest, memory } ∧
      evm.memory.Copied memory d (window evm.context.data o n) := by
  intro h
  obtain ⟨env⟩ : Nonempty Env := ⟨.ofTables [] [] (by decide) (by decide)⟩
  obtain ⟨evm, hempty⟩ : ∃ evm : EVM, evm.memory.data = [] := ⟨EVM.init []
    { caller := [], address := [], value := 0, data := [], gas := 0 } .empty none [], rfl⟩
  obtain ⟨memory, hcopy, -⟩ := h env evm (2 ^ 63) 0 1 []
  have hfits : ¬ env.Copies evm.memory (2 ^ 63) 1 := by
    have hlimit := env.bufferLimit_le
    unfold Env.Copies wordsFor
    rw [hempty, List.length_nil]
    omega
  have hcopies : CopiesFrom evm .calldatacopy evm.context.data := .calldata
  obtain ⟨source, hlocal, hsource⟩ := localOp_of_copiesFrom env hcopies
  obtain ⟨e, herror, -⟩ := copyOp_of_not_fits 0 [] hsource hfits
  rw [hlocal] at hcopy
  cases hcopy.symm.trans herror

end Ethereum
