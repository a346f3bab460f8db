import Ethereum.Evm.Memory
import Ethereum.Lib.Padded

/-! The memory of a frame as a map from all offsets to bytes, zero at first. -/
namespace Ethereum

open Stateful Padded

/-- One access. -/
inductive MemoryOp
  | load (offset : Nat)
  | store (offset : Nat) (value : Fin (2 ^ 256))
  | store8 (offset : Nat) (value : Int)
  | readRange (offset size : Nat)
  | writeRange (offset : Nat) (data : Bytes)

inductive MemoryOutput
  | word (value : Int)
  | bytes (data : Bytes)
  | done
  deriving DecidableEq

namespace MemoryOp

def run (env : Env) : MemoryOp → EStateM Abort Memory MemoryOutput
  | .load offset => do
    let value ← Memory.load env offset
    return .word value
  | .store offset value => do
    Memory.store env offset (value : Nat)
    return .done
  | .store8 offset value => do
    Memory.store8 env offset value
    return .done
  | .readRange offset size => do
    let data ← Memory.readRange env offset size
    return .bytes data
  | .writeRange offset data => do
    Memory.writeRange env offset data
    return .done

/-- What the access returns where the bytes are `f`. -/
def output (f : Nat → UInt8) : MemoryOp → MemoryOutput
  | .load offset => .word (BigEndian.fromBytes (read f offset 32))
  | .readRange offset size => .bytes (read f offset size)
  | .store _ _ | .store8 _ _ | .writeRange _ _ => .done

/-- The bytes after the access. -/
def effect (f : Nat → UInt8) : MemoryOp → Nat → UInt8
  | .store offset value => write f offset (BigEndian.toBytes 32 value)
  | .store8 offset value => write f offset [UInt8.ofNat (value % 256).toNat]
  | .writeRange offset data => write f offset data
  | .load _ | .readRange _ _ => f

/-- Where the access ends, or 0 if it is empty. -/
def extent : MemoryOp → Nat
  | .load offset | .store offset _ => offset + 32
  | .store8 offset _ => offset + 1
  | .readRange offset size => if size = 0 then 0 else offset + size
  | .writeRange offset data => if data.length = 0 then 0 else offset + data.length

def outputs (f : Nat → UInt8) : List MemoryOp → List MemoryOutput
  | [] => []
  | op :: ops => op.output f :: outputs (op.effect f) ops

/-- The largest end of an access. -/
def reach (ops : List MemoryOp) : Nat := (ops.map extent).foldr max 0

end MemoryOp

/-- Whole words that hold `m` bytes. -/
def wordsFor (m : Nat) : Nat := 32 * ((m + 31) / 32)

/-- There is a buffer for the first `m` bytes. -/
def Env.Holds (env : Env) (m : Nat) : Prop := m = 0 ∨ wordsFor m < env.bufferLimit

/-- The memory stands for the bytes `f`, of which the first `m` have been accessed. -/
structure Memory.Refines (memory : Memory) (f : Nat → UInt8) (m : Nat) : Prop where
  bytes : view 0 memory.data = f
  length : memory.data.length = wordsFor m

theorem refines_empty : Memory.empty.Refines (fun _ => 0) 0 := ⟨view_nil, rfl⟩

section Slices

variable {l d : Bytes} {o n : Nat}

theorem sliceBound_of_le (h : o ≤ n) : sliceBound n o = o := by simp [sliceBound, h]

theorem slice_of_le (h : o + n ≤ l.length) : slice l o (o + n) = (l.drop o).take n := by
  rw [slice, sliceBound_of_le (by omega), ← Nat.cast_add, sliceBound_of_le h,
    Nat.add_sub_cancel_left]

theorem setSlice_of_le (h : o + n ≤ l.length) :
    setSlice l o (o + n) d = l.take o ++ d ++ l.drop (o + n) := by
  rw [setSlice, sliceBound_of_le (by omega), ← Nat.cast_add, sliceBound_of_le h,
    Nat.max_eq_right (Nat.le_add_right o n)]

theorem setIndex_of_lt {b : UInt8} (h : o < l.length) : setIndex l o b = .ok (l.set o b) := by
  have hnonneg : ¬ (o : Int) < 0 := by omega
  have hbound : ¬ ((o : Int) < 0 ∨ (l.length : Int) ≤ o) := by omega
  simp only [setIndex, if_neg hnonneg, if_neg hbound, Int.toNat_natCast]

end Slices

section Expansion

variable {env : Env} {memory : Memory} {f : Nat → UInt8} {m o n : Nat}

theorem expandTo_of_le (env : Env) (h : n = 0 ∨ o + n ≤ memory.data.length) :
    Memory.expandTo env o n memory = .ok () memory := by
  have hneed : (n : Int) = 0 ∨ (o : Int) + n ≤ memory.size := by
    unfold Memory.size
    omega
  rw [Memory.expandTo, bind_of_ok (get_apply _)]
  simp only [if_pos hneed]
  rfl

/-- An access past the end asks for a buffer of whole words. -/
theorem expandTo_of_lt (env : Env) (hn : n ≠ 0) (h : memory.data.length < o + n) :
    Memory.expandTo env o n memory =
      (attempt (env.allocate (wordsFor (o + n) - memory.data.length) (wordsFor (o + n))) >>=
        fun _ => set (Memory.mk (memory.data ++
          List.replicate (wordsFor (o + n) - memory.data.length) 0))) memory := by
  have hneed : ¬ ((n : Int) = 0 ∨ (o : Int) + n ≤ memory.size) := by
    unfold Memory.size
    omega
  have hwords : ((o : Int) + n + 31) / 32 * 32 = (wordsFor (o + n) : Nat) := by
    unfold wordsFor
    omega
  have hcount : ((wordsFor (o + n) : Nat) - memory.size).toNat =
      wordsFor (o + n) - memory.data.length := by
    unfold Memory.size
    omega
  rw [Memory.expandTo, bind_of_ok (get_apply _)]
  simp only [if_neg hneed, hwords, hcount]
  rfl

theorem allocate_of_lt {count total : Int} (hle : count ≤ total) (h : total < env.bufferLimit) :
    env.allocate count total = .ok () := by
  have hlimit := env.bufferLimit_le
  rw [Env.allocate, if_neg (by omega), if_neg (by omega)]

theorem lt_of_allocate {count total : Int} (h : env.allocate count total = .ok ()) :
    total < env.bufferLimit := by
  unfold Env.allocate at h
  split at h
  · cases h
  · split at h
    · cases h
    · next hlimit => exact Int.not_le.mp hlimit

/-- What Python raises where there is no memory for a buffer. -/
def PyException.IsMemory (e : PyException) : Prop :=
  e = .memoryError ∨ ∃ message, e = .overflowError message

theorem allocate_of_le {count total : Int} (h : env.bufferLimit ≤ total) :
    ∃ e, env.allocate count total = .error e ∧ e.IsMemory := by
  by_cases hcount : 2 ^ 63 ≤ count
  · exact ⟨_, if_pos hcount, .inr ⟨_, rfl⟩⟩
  · exact ⟨_, (if_neg hcount).trans (if_pos h), .inl rfl⟩

/-- An access past the end for which there is a buffer appends zeros up to a whole word. -/
theorem expandTo_of_fits (hn : n ≠ 0) (h : memory.data.length < o + n)
    (hfits : wordsFor (o + n) < env.bufferLimit) :
    Memory.expandTo env o n memory = .ok () ⟨memory.data ++
      List.replicate (wordsFor (o + n) - memory.data.length) 0⟩ := by
  have hattempt : attempt (env.allocate ((wordsFor (o + n) : Nat) - memory.data.length)
      (wordsFor (o + n) : Nat)) memory = .ok () memory := by
    rw [allocate_of_lt (by omega) (by omega)]
    rfl
  exact (expandTo_of_lt env hn h).trans (bind_of_ok hattempt)

/-- Without a buffer it raises, and the memory stays as it is. -/
theorem expandTo_of_not_fits (hn : n ≠ 0) (h : memory.data.length < o + n)
    (hfits : env.bufferLimit ≤ wordsFor (o + n)) :
    ∃ e, Memory.expandTo env o n memory = .error (.raised e) memory ∧ e.IsMemory := by
  obtain ⟨e, he, hmemory⟩ : ∃ e, env.allocate ((wordsFor (o + n) : Nat) - memory.data.length)
      (wordsFor (o + n) : Nat) = .error e ∧ e.IsMemory := allocate_of_le (by omega)
  have hattempt : attempt (env.allocate ((wordsFor (o + n) : Nat) - memory.data.length)
      (wordsFor (o + n) : Nat)) memory = .error (.raised e) memory := by
    rw [he]
    rfl
  exact ⟨e, (expandTo_of_lt env hn h).trans (bind_of_error hattempt), hmemory⟩

theorem Memory.Refines.expandTo (h : memory.Refines f m) (hn : n ≠ 0)
    (hholds : env.Holds (max m (o + n))) :
    ∃ memory', Memory.expandTo env o n memory = .ok () memory' ∧
      memory'.Refines f (max m (o + n)) := by
  have hlength := h.length
  rcases Nat.lt_or_ge memory.data.length (o + n) with hlt | hge
  · -- The buffer grows: the access ends past everything that was accessed before.
    have hmax : max m (o + n) = o + n := by
      unfold wordsFor at hlength
      omega
    rw [hmax] at hholds ⊢
    have hfits : wordsFor (o + n) < env.bufferLimit := hholds.resolve_left (by omega)
    refine ⟨_, expandTo_of_fits hn hlt hfits, ?_, ?_⟩
    · rw [view_append_replicate]
      exact h.bytes
    · rw [List.length_append, List.length_replicate]
      unfold wordsFor
      omega
  · refine ⟨memory, expandTo_of_le env (.inr hge), h.bytes, ?_⟩
    rw [hlength]
    unfold wordsFor at hlength ⊢
    omega

theorem Memory.Refines.expandTo_error (h : memory.Refines f m) (hn : n ≠ 0) (hm : env.Holds m)
    (hholds : ¬ env.Holds (max m (o + n))) :
    ∃ e, Memory.expandTo env o n memory = .error (.raised e) memory ∧ e.IsMemory := by
  have hlength := h.length
  unfold Env.Holds at hm hholds
  have hlt : memory.data.length < o + n := by
    unfold wordsFor at *
    omega
  have hmax : max m (o + n) = o + n := by
    unfold wordsFor at hlength
    omega
  rw [hmax] at hholds
  exact expandTo_of_not_fits hn hlt (by omega)

end Expansion

section Accesses

variable {env : Env} {memory : Memory} {f : Nat → UInt8} {m o n : Nat}

/-- The access is served from whole words, so it lies within them. -/
theorem Memory.Refines.within (h : memory.Refines f (max m (o + n))) :
    o + n ≤ memory.data.length := by
  rw [h.length]
  unfold wordsFor
  omega

theorem Memory.Refines.splice {d : Bytes} (h : memory.Refines f m)
    (hlength : o + d.length ≤ memory.data.length) :
    (Memory.mk (setSlice memory.data o (o + d.length) d)).Refines (write f o d) m := by
  rw [setSlice_of_le hlength]
  constructor
  · rw [view_splice hlength, h.bytes]
  · rw [← h.length]
    simp only [List.length_append, List.length_take, List.length_drop]
    omega

theorem Memory.Refines.load (h : memory.Refines f m) (hholds : env.Holds (max m (o + 32))) :
    ∃ memory', Memory.load env o memory = .ok (BigEndian.fromBytes (read f o 32) : Nat) memory' ∧
      memory'.Refines f (max m (o + 32)) := by
  obtain ⟨memory', hexpand, h'⟩ : ∃ memory', Memory.expandTo env o 32 memory = .ok () memory' ∧
      memory'.Refines f (max m (o + 32)) := h.expandTo (n := 32) (by norm_num) hholds
  have hslice := slice_of_le h'.within
  refine ⟨memory', ?_, h'⟩
  rw [Memory.load, bind_of_ok hexpand, bind_of_ok (get_apply _), pure_apply, ← h'.bytes,
    read_view h'.within]
  exact congrArg (fun l => EStateM.Result.ok (intFromBytes l) memory') hslice

theorem Memory.Refines.readRange (h : memory.Refines f m) (hn : n ≠ 0)
    (hholds : env.Holds (max m (o + n))) :
    ∃ memory', Memory.readRange env o n memory = .ok (read f o n) memory' ∧
      memory'.Refines f (max m (o + n)) := by
  obtain ⟨memory', hexpand, h'⟩ := h.expandTo hn hholds
  refine ⟨memory', ?_, h'⟩
  rw [Memory.readRange, if_neg (by exact_mod_cast hn), bind_of_ok hexpand,
    bind_of_ok (get_apply _), pure_apply, ← h'.bytes, read_view h'.within,
    slice_of_le h'.within]

theorem Memory.Refines.store (h : memory.Refines f m) (v : Fin (2 ^ 256))
    (hholds : env.Holds (max m (o + 32))) :
    ∃ memory', Memory.store env o (v : Nat) memory = .ok () memory' ∧
      memory'.Refines (write f o (BigEndian.toBytes 32 v)) (max m (o + 32)) := by
  obtain ⟨memory', hexpand, h'⟩ : ∃ memory', Memory.expandTo env o 32 memory = .ok () memory' ∧
      memory'.Refines f (max m (o + 32)) := h.expandTo (n := 32) (by norm_num) hholds
  have hlength : (BigEndian.toBytes 32 v).length = 32 := BigEndian.length_toBytes _ _
  have hv : intToBytes 32 (v : Nat) = .ok (BigEndian.toBytes 32 v) := by
    have hlt : ¬ (256 : Int) ^ 32 ≤ (v : Nat) := by
      have := v.isLt
      omega
    rw [intToBytes, if_neg (by omega), if_neg hlt, Int.toNat_natCast]
  have hbytes : attempt (intToBytes 32 (v : Nat)) memory' =
      .ok (BigEndian.toBytes 32 v) memory' := by
    rw [hv]
    rfl
  have hsplice := h'.splice (d := BigEndian.toBytes 32 v) (o := o) (by
    rw [hlength]
    exact h'.within)
  rw [hlength] at hsplice
  refine ⟨_, ?_, hsplice⟩
  rw [Memory.store, bind_of_ok hexpand, bind_of_ok hbytes, modify_apply]
  rfl

theorem Memory.Refines.store8 (h : memory.Refines f m) (v : Int)
    (hholds : env.Holds (max m (o + 1))) :
    ∃ memory', Memory.store8 env o v memory = .ok () memory' ∧
      memory'.Refines (write f o [UInt8.ofNat (v % 256).toNat]) (max m (o + 1)) := by
  obtain ⟨memory', hexpand, h'⟩ : ∃ memory', Memory.expandTo env o 1 memory = .ok () memory' ∧
      memory'.Refines f (max m (o + 1)) := h.expandTo (n := 1) (by norm_num) hholds
  have hset : ∀ s : Memory, attempt (setIndex memory'.data o (UInt8.ofNat (v % 256).toNat)) s =
      .ok (memory'.data.set o (UInt8.ofNat (v % 256).toNat)) s := by
    intro s
    rw [setIndex_of_lt h'.within]
    rfl
  refine ⟨⟨memory'.data.set o (UInt8.ofNat (v % 256).toNat)⟩, ?_, ?_, ?_⟩
  · rw [Memory.store8, bind_of_ok hexpand, bind_of_ok (get_apply _), bind_of_ok (hset _)]
    rfl
  · rw [view_set h'.within, h'.bytes]
  · rw [List.length_set, h'.length]

theorem Memory.Refines.writeRange {d : Bytes} (h : memory.Refines f m) (hd : d.length ≠ 0)
    (hholds : env.Holds (max m (o + d.length))) :
    ∃ memory', Memory.writeRange env o d memory = .ok () memory' ∧
      memory'.Refines (write f o d) (max m (o + d.length)) := by
  obtain ⟨memory', hexpand, h'⟩ := h.expandTo hd hholds
  refine ⟨_, ?_, h'.splice h'.within⟩
  rw [Memory.writeRange, if_neg hd, bind_of_ok hexpand, modify_apply]

end Accesses

theorem Env.Holds.mono {env : Env} {m n : Nat} (h : env.Holds n) (hle : m ≤ n) : env.Holds m := by
  unfold Env.Holds wordsFor at *
  omega

namespace MemoryOp

variable {env : Env} {memory : Memory} {f : Nat → UInt8} {m : Nat} {ops : List MemoryOp}

theorem reach_nil : reach [] = 0 := rfl

theorem reach_cons (op : MemoryOp) (ops : List MemoryOp) :
    reach (op :: ops) = max op.extent (reach ops) := rfl

/-- An access for which there is memory gives what the map gives. -/
theorem run_of_holds (h : memory.Refines f m) (op : MemoryOp)
    (hholds : env.Holds (max m op.extent)) :
    ∃ memory', op.run env memory = .ok (op.output f) memory' ∧
      memory'.Refines (op.effect f) (max m op.extent) := by
  cases op with
  | load offset =>
    obtain ⟨memory', hload, h'⟩ := h.load hholds
    exact ⟨memory', bind_of_ok hload, h'⟩
  | store offset value =>
    obtain ⟨memory', hstore, h'⟩ := h.store value hholds
    exact ⟨memory', bind_of_ok hstore, h'⟩
  | store8 offset value =>
    obtain ⟨memory', hstore, h'⟩ := h.store8 value hholds
    exact ⟨memory', bind_of_ok hstore, h'⟩
  | readRange offset size =>
    by_cases hsize : size = 0
    · subst hsize
      rw [extent, if_pos rfl, Nat.max_zero]
      exact ⟨memory, rfl, h⟩
    · rw [extent, if_neg hsize] at hholds ⊢
      obtain ⟨memory', hread, h'⟩ := h.readRange hsize hholds
      exact ⟨memory', bind_of_ok hread, h'⟩
  | writeRange offset data =>
    by_cases hdata : data.length = 0
    · obtain rfl := List.eq_nil_of_length_eq_zero hdata
      rw [effect, write_nil, extent, if_pos hdata, Nat.max_zero]
      exact ⟨memory, rfl, h⟩
    · rw [extent, if_neg hdata] at hholds ⊢
      obtain ⟨memory', hwrite, h'⟩ := h.writeRange hdata hholds
      exact ⟨memory', bind_of_ok hwrite, h'⟩

/-- An access for which there is none raises and leaves the memory as it is. -/
theorem run_of_not_holds (h : memory.Refines f m) (hm : env.Holds m) (op : MemoryOp)
    (hnot : ¬ env.Holds (max m op.extent)) :
    ∃ e, op.run env memory = .error (.raised e) memory ∧ e.IsMemory := by
  cases op with
  | load offset =>
    obtain ⟨e, he, hmemory⟩ := h.expandTo_error (n := 32) (by norm_num) hm hnot
    exact ⟨e, bind_of_error (bind_of_error he), hmemory⟩
  | store offset value =>
    obtain ⟨e, he, hmemory⟩ := h.expandTo_error (n := 32) (by norm_num) hm hnot
    exact ⟨e, bind_of_error (bind_of_error he), hmemory⟩
  | store8 offset value =>
    obtain ⟨e, he, hmemory⟩ := h.expandTo_error (n := 1) (by norm_num) hm hnot
    exact ⟨e, bind_of_error (bind_of_error he), hmemory⟩
  | readRange offset size =>
    by_cases hsize : size = 0
    · rw [extent, if_pos hsize, Nat.max_zero] at hnot
      exact absurd hm hnot
    · rw [extent, if_neg hsize] at hnot
      obtain ⟨e, he, hmemory⟩ := h.expandTo_error hsize hm hnot
      refine ⟨e, bind_of_error ?_, hmemory⟩
      rw [Memory.readRange, if_neg (by exact_mod_cast hsize), bind_of_error he]
  | writeRange offset data =>
    by_cases hdata : data.length = 0
    · rw [extent, if_pos hdata, Nat.max_zero] at hnot
      exact absurd hm hnot
    · rw [extent, if_neg hdata] at hnot
      obtain ⟨e, he, hmemory⟩ := h.expandTo_error hdata hm hnot
      refine ⟨e, bind_of_error ?_, hmemory⟩
      rw [Memory.writeRange, if_neg hdata, bind_of_error he]

theorem mapM_run_of_holds (h : memory.Refines f m) (hholds : env.Holds (max m (reach ops))) :
    ∃ memory', ops.mapM (run env) memory = .ok (outputs f ops) memory' ∧
      memory'.Refines (ops.foldl effect f) (max m (reach ops)) := by
  induction ops generalizing memory f m with
  | nil =>
    rw [reach_nil, Nat.max_zero]
    exact ⟨memory, rfl, h⟩
  | cons op ops ih =>
    rw [reach_cons, ← Nat.max_assoc] at hholds ⊢
    obtain ⟨memory₁, hop, h₁⟩ := run_of_holds h op (hholds.mono (Nat.le_max_left _ _))
    obtain ⟨memory', hrest, h'⟩ := ih h₁ hholds
    refine ⟨memory', ?_, h'⟩
    rw [List.mapM_cons, bind_of_ok hop, bind_of_ok hrest, pure_apply]
    rfl

/-- Where there is not enough memory the accesses go well up to the first one that needs it. -/
theorem mapM_run_of_not_holds (h : memory.Refines f m) (hm : env.Holds m)
    (hnot : ¬ env.Holds (max m (reach ops))) :
    ∃ done op rest memory' e, ops = done ++ op :: rest ∧ env.Holds (max m (reach done)) ∧
      done.mapM (run env) memory = .ok (outputs f done) memory' ∧
      op.run env memory' = .error (.raised e) memory' ∧
      ops.mapM (run env) memory = .error (.raised e) memory' ∧ e.IsMemory := by
  induction ops generalizing memory f m with
  | nil =>
    rw [reach_nil, Nat.max_zero] at hnot
    exact absurd hm hnot
  | cons op ops ih =>
    by_cases hop : env.Holds (max m op.extent)
    · rw [reach_cons, ← Nat.max_assoc] at hnot
      obtain ⟨memory₁, hfirst, h₁⟩ := run_of_holds h op hop
      obtain ⟨done, last, rest, memory', e, rfl, hdone, hok, herror, hall, hmemory⟩ :=
        ih h₁ hop hnot
      refine ⟨op :: done, last, rest, memory', e, rfl, ?_, ?_, herror, ?_, hmemory⟩
      · rwa [reach_cons, ← Nat.max_assoc]
      · rw [List.mapM_cons, bind_of_ok hfirst, bind_of_ok hok, pure_apply]
        rfl
      · rw [List.mapM_cons, bind_of_ok hfirst, bind_of_error hall]
    · obtain ⟨e, herror, hmemory⟩ := run_of_not_holds h hm op hop
      refine ⟨[], op, ops, memory, e, rfl, ?_, rfl, herror, ?_, hmemory⟩
      · rwa [reach_nil, Nat.max_zero]
      rw [List.mapM_cons, bind_of_error herror]

end MemoryOp

open MemoryOp

/-- Any accesses to a new memory return what a map from all offsets to bytes returns, which is
zero at first, and the memory has the whole words that hold all of them. Beyond what Python can
hold in a buffer an access raises and changes nothing. The size never decreases. -/
theorem memory_refines_byte_map (env : Env) (ops : List MemoryOp) :
    (env.Holds (reach ops) → ∃ memory,
      ops.mapM (MemoryOp.run env) .empty = .ok (outputs (fun _ => 0) ops) memory ∧
      memory.size = 32 * ((reach ops + 31) / 32)) ∧
    (¬ env.Holds (reach ops) → ∃ done op rest memory e, ops = done ++ op :: rest ∧
      env.Holds (reach done) ∧
      done.mapM (MemoryOp.run env) .empty = .ok (outputs (fun _ => 0) done) memory ∧
      op.run env memory = .error (.raised e) memory ∧ e.IsMemory) ∧
    ∀ memory results, ops.mapM (MemoryOp.run env) .empty = .ok results memory →
      ∀ op : MemoryOp, memory.size ≤ (final (op.run env memory)).size := by
  have hempty : env.Holds 0 := .inl rfl
  refine ⟨?_, ?_, ?_⟩
  · intro hholds
    rw [← Nat.zero_max (reach ops)] at hholds
    obtain ⟨memory, hrun, h⟩ := mapM_run_of_holds refines_empty hholds
    refine ⟨memory, hrun, ?_⟩
    have hlength := h.length
    rw [Nat.zero_max] at hlength
    rw [Memory.size, hlength]
    unfold wordsFor
    omega
  · intro hnot
    rw [← Nat.zero_max (reach ops)] at hnot
    obtain ⟨done, op, rest, memory, e, heq, hdone, hok, herror, -, hmemory⟩ :=
      mapM_run_of_not_holds refines_empty hempty hnot
    rw [Nat.zero_max] at hdone
    exact ⟨done, op, rest, memory, e, heq, hdone, hok, herror, hmemory⟩
  · intro memory results hrun op
    by_cases hholds : env.Holds (max 0 (reach ops))
    · obtain ⟨memory', hok, h⟩ := mapM_run_of_holds refines_empty hholds
      cases hok.symm.trans hrun
      by_cases hop : env.Holds (max (max 0 (reach ops)) op.extent)
      · obtain ⟨memory', hok', h'⟩ := run_of_holds h op hop
        rw [hok', final_ok, Memory.size, Memory.size, h.length, h'.length]
        unfold wordsFor
        omega
      · obtain ⟨e, herror, -⟩ := run_of_not_holds h hholds op hop
        rw [herror, final_error]
    · obtain ⟨_, _, _, _, _, -, -, -, -, herror, -⟩ :=
        mapM_run_of_not_holds refines_empty hempty hholds
      cases herror.symm.trans hrun

/-- No buffer reaches to offset `2 ^ 63`, so reading a word there raises. -/
theorem memory_refines_byte_map_not_huge : ¬ ∀ (env : Env) (ops : List MemoryOp), ∃ memory,
    ops.mapM (MemoryOp.run env) .empty = .ok (outputs (fun _ => 0) ops) memory ∧
      memory.size = 32 * ((reach ops + 31) / 32) := by
  intro h
  obtain ⟨env⟩ : Nonempty Env := ⟨.ofTables [] [] (by decide) (by decide)⟩
  obtain ⟨memory, hrun, -⟩ := h env [.load (2 ^ 63)]
  have hnot : ¬ env.Holds (max 0 (reach [.load (2 ^ 63)])) := by
    have hlimit := env.bufferLimit_le
    have hreach : reach [.load (2 ^ 63)] = 2 ^ 63 + 32 := rfl
    rw [hreach]
    unfold Env.Holds wordsFor
    omega
  obtain ⟨_, _, _, _, _, -, -, -, -, herror, -⟩ :=
    mapM_run_of_not_holds refines_empty (.inl rfl) hnot
  cases herror.symm.trans hrun

/-- A word at an unaligned offset, a byte written into it, and what is read across its end. -/
example : outputs (fun _ => 0) [.store 16 0x0102, .store8 46 0x1ff, .readRange 44 6] =
    [.done, .done, .bytes [0, 0, 0xff, 2, 0, 0]] := by
  decide +kernel

end Ethereum
