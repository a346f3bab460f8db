import Ethereum.Evm.Gas

/-! Values in range: when a frame starts with words of 256 bits, every value it handles
stays one, although only four opcodes reduce their result. -/
namespace Ethereum

open Stateful

/-- An integer that fits in 256 bits. -/
structure Word (n : Int) : Prop where
  nonneg : 0 ≤ n
  lt : n < 2 ^ 256

/-- The length of a byte string that the interpreter can hold. -/
def Short (l : Bytes) : Prop := l.length < 2 ^ 63

theorem word_natCast {n : Nat} (h : n < 2 ^ 256) : Word (n : Int) :=
  ⟨Int.natCast_nonneg _, by exact_mod_cast h⟩

theorem word_zero : Word 0 := ⟨le_rfl, by omega⟩

theorem word_one : Word 1 := ⟨by omega, by omega⟩

theorem word_intFromBytes {l : Bytes} (h : l.length ≤ 32) : Word (intFromBytes l) := by
  refine ⟨intFromBytes_nonneg l, ?_⟩
  have := intFromBytes_lt h
  norm_num at this ⊢
  exact this

theorem word_length {l : Bytes} (h : Short l) : Word (l.length : Int) := by
  unfold Short at h
  exact word_natCast (by omega)

theorem word_emod (n : Int) : Word (n % modValue) := by
  unfold modValue
  exact ⟨Int.emod_nonneg _ (by norm_num), Int.emod_lt_of_pos _ (by omega)⟩

theorem word_of_le {n m : Int} (h : Word m) (h0 : 0 ≤ n) (hle : n ≤ m) : Word n :=
  ⟨h0, hle.trans_lt h.lt⟩

theorem word_ite {c : Prop} [Decidable c] {m n : Int} (hm : Word m) (hn : Word n) :
    Word (if c then m else n) := by
  split
  · exact hm
  · exact hn

theorem word_land {m n : Int} (hm : Word m) (hn : Word n) : Word (Int.land m n) := by
  obtain ⟨a, rfl⟩ := Int.eq_ofNat_of_zero_le hm.nonneg
  obtain ⟨b, rfl⟩ := Int.eq_ofNat_of_zero_le hn.nonneg
  have hb : b < 2 ^ 256 := by exact_mod_cast hn.lt
  exact word_natCast (n := a &&& b) (Nat.and_lt_two_pow _ hb)

theorem word_lor {m n : Int} (hm : Word m) (hn : Word n) : Word (Int.lor m n) := by
  obtain ⟨a, rfl⟩ := Int.eq_ofNat_of_zero_le hm.nonneg
  obtain ⟨b, rfl⟩ := Int.eq_ofNat_of_zero_le hn.nonneg
  have ha : a < 2 ^ 256 := by exact_mod_cast hm.lt
  have hb : b < 2 ^ 256 := by exact_mod_cast hn.lt
  exact word_natCast (n := a ||| b) (Nat.or_lt_two_pow ha hb)

theorem word_fdiv {m n : Int} (hm : Word m) (hn : Word n) : Word (m.fdiv n) := by
  rw [Int.fdiv_eq_ediv_of_nonneg _ hn.nonneg]
  exact word_of_le hm (Int.ediv_nonneg hm.nonneg hn.nonneg) (Int.ediv_le_self _ hm.nonneg)

theorem word_fmod {m n : Int} (hm : Word m) (hn : Word n) : Word (m.fmod n) := by
  rw [Int.fmod_eq_emod_of_nonneg _ hn.nonneg]
  rcases hn.nonneg.lt_or_eq with hpos | h0
  · exact word_of_le hn (Int.emod_nonneg _ hpos.ne') (Int.emod_lt_of_pos _ hpos).le
  · rw [← h0, Int.emod_zero]
    exact hm

theorem word_not {n : Int} (h : Word n) : Word (maxUint256 - n) := by
  have := h.nonneg
  have := h.lt
  unfold maxUint256
  constructor <;> omega

theorem word_powMod {base exponent n : Int} (h : powMod base exponent = .ok n) : Word n := by
  unfold powMod at h
  split at h
  · cases h
    exact word_emod _
  · split at h
    · cases h
    · cases h
      exact word_emod _

theorem intToBytes_of_word {n : Int} (h : Word n) :
    intToBytes 32 n = .ok (BigEndian.toBytes 32 n.toNat) := by
  have hlt : n < 256 ^ 32 := h.lt.trans_le (by norm_num)
  rw [intToBytes, if_neg (not_lt.mpr h.nonneg), if_neg (not_le.mpr hlt)]

theorem word_of_intToBytes {n : Int} {l : Bytes} (h : intToBytes 32 n = .ok l) : Word n := by
  unfold intToBytes at h
  split at h
  · cases h
  · next h0 =>
    split at h
    · cases h
    · next hlt => exact ⟨not_lt.mp h0, (not_le.mp hlt).trans_le (by norm_num)⟩

section Memory

variable {env : Env} {memory memory' : Memory} {offset size : Int}

theorem length_slice_le (l : Bytes) (lo hi : Int) : (slice l lo hi).length ≤ l.length := by
  unfold slice
  rw [List.length_take, List.length_drop]
  omega

theorem length_slice_word (l : Bytes) (h : 0 ≤ offset) :
    (slice l offset (offset + 32)).length ≤ 32 := by
  unfold slice sliceBound
  rw [List.length_take]
  split <;> split <;> omega

theorem length_setSlice {l d : Bytes} (h0 : 0 ≤ offset) (hle : offset + d.length ≤ l.length) :
    (setSlice l offset (offset + d.length) d).length = l.length := by
  unfold setSlice sliceBound
  rw [if_neg (not_lt.mpr h0), if_neg (by omega)]
  simp only [List.length_append, List.length_take, List.length_drop]
  omega

theorem length_setIndex {l l' : Bytes} {i : Int} {b : UInt8} (h : setIndex l i b = .ok l') :
    l'.length = l.length := by
  unfold setIndex at h
  dsimp only at h
  generalize (if i < 0 then i + (l.length : Int) else i) = j at h
  split at h
  · cases h
  · cases h
    exact List.length_set

theorem allocate_eq_ok {count total : Int} {u : Unit} (h : env.allocate count total = .ok u) :
    total < 2 ^ 63 := by
  have := env.bufferLimit_le
  unfold Env.allocate at h
  split at h
  · cases h
  · split at h
    · cases h
    · omega

/-- Expanding the memory makes room for the access and keeps the length short. -/
theorem expandTo_cases (env : Env) (offset size : Int) (hm : Short memory.data) :
    Triple Abort.IsRaised (fun memory => Short memory.data) (fun _ => True)
        (Memory.expandTo env offset size memory) ∧
      (∀ u memory', Memory.expandTo env offset size memory = .ok u memory' →
        size ≠ 0 → offset + size ≤ memory'.data.length) := by
  unfold Memory.expandTo
  rw [bind_of_ok (get_apply _)]
  dsimp only
  split
  · next h =>
    refine ⟨triple_ok hm trivial, ?_⟩
    intro u memory' hok hsize
    rw [pure_apply] at hok
    cases hok
    exact h.resolve_left hsize
  · next h =>
    obtain ⟨hsize, hneeded⟩ := not_or.mp h
    set newSize := (offset + size + 31) / 32 * 32 with hnew
    cases ha : env.allocate (newSize - memory.size) newSize with
    | error e =>
      refine ⟨triple_error hm (isRaised_raised e), fun u memory' hok => ?_⟩
      cases hok
    | ok u =>
      have hlt := allocate_eq_ok ha
      have hlen : ((memory.data ++ List.replicate (newSize - memory.size).toNat 0).length : Int) =
          newSize := by
        simp only [List.length_append, List.length_replicate, Memory.size] at hneeded ⊢
        omega
      refine ⟨triple_ok ?_ trivial, ?_⟩
      · change (memory.data ++ List.replicate (newSize - memory.size).toNat 0).length < 2 ^ 63
        omega
      · rintro u memory' hok -
        cases hok
        rw [hlen]
        omega

/-- The memory keeps its length short. -/
abbrev KeepsShort {α : Type} (x : EStateM Abort Memory α) (Q : α → Prop) : Prop :=
  Maintains Abort.IsRaised (fun memory => Short memory.data) x Q

theorem keepsShort_expandTo : KeepsShort (Memory.expandTo env offset size) fun _ => True :=
  fun _ hm => (expandTo_cases _ _ _ hm).1

theorem keepsShort_load (h0 : 0 ≤ offset) : KeepsShort (Memory.load env offset) Word := by
  refine keepsShort_expandTo.bind fun _ _ => maintains_get.bind fun memory hm => ?_
  exact maintains_pure (word_intFromBytes (length_slice_word _ h0))

theorem keepsShort_readRange : KeepsShort (Memory.readRange env offset size) Short := by
  refine Maintains.ite (fun _ => maintains_pure (by simp [Short])) fun _ => ?_
  refine keepsShort_expandTo.bind fun _ _ => maintains_get.bind fun memory hm => ?_
  exact maintains_pure ((length_slice_le _ _ _).trans_lt hm)

/-- A write inside the expanded memory keeps its length. -/
theorem short_write {d : Bytes} (h0 : 0 ≤ offset) (hm : Short memory.data)
    (hle : offset + d.length ≤ memory.data.length) :
    Short (setSlice memory.data offset (offset + d.length) d) := by
  unfold Short
  rwa [length_setSlice h0 hle]

theorem keepsShort_writeRange {d : Bytes} (h0 : 0 ≤ offset) :
    KeepsShort (Memory.writeRange env offset d) fun _ => True := by
  refine Maintains.ite (fun _ => maintains_pure trivial) fun hd => ?_
  intro memory hm
  obtain ⟨hexpand, hroom⟩ := expandTo_cases env offset d.length hm
  rw [bind_apply]
  cases hx : Memory.expandTo env offset d.length memory with
  | error e memory' =>
    rw [hx] at hexpand
    exact triple_error hexpand.invariant (hexpand.error e memory' rfl)
  | ok u memory' =>
    rw [hx] at hexpand
    exact triple_ok (short_write h0 hexpand.invariant (hroom u memory' hx (by exact_mod_cast hd)))
      trivial

theorem keepsShort_store {value : Int} (h0 : 0 ≤ offset) :
    KeepsShort (Memory.store env offset value) fun _ => True := by
  intro memory hm
  obtain ⟨hexpand, hroom⟩ := expandTo_cases env offset 32 hm
  unfold Memory.store
  rw [bind_apply]
  cases hx : Memory.expandTo env offset 32 memory with
  | error e memory' =>
    rw [hx] at hexpand
    exact triple_error hexpand.invariant (hexpand.error e memory' rfl)
  | ok u memory' =>
    rw [hx] at hexpand
    dsimp only
    rw [bind_apply]
    cases hb : attempt (intToBytes 32 value) memory' with
    | error e memory'' =>
      rw [error_of_attempt hb]
      exact triple_error hexpand.invariant (isRaised_of_attempt hb)
    | ok bytes memory'' =>
      obtain ⟨hbytes, rfl⟩ := ok_of_attempt hb
      have hlen := length_of_intToBytes hbytes
      have hwrite := short_write (d := bytes) h0 hexpand.invariant
        (by rw [hlen]; exact hroom u memory'' hx (by omega))
      rw [hlen] at hwrite
      exact triple_ok hwrite trivial

theorem keepsShort_store8 {value : Int} :
    KeepsShort (Memory.store8 env offset value) fun _ => True := by
  refine keepsShort_expandTo.bind fun _ _ => maintains_get.bind fun memory hm => ?_
  cases hd : setIndex memory.data offset (UInt8.ofNat (value % 256).toNat) with
  | error e => exact maintains_throw (isRaised_raised _)
  | ok d =>
    refine maintains_modify (g := fun _ => Memory.mk d) fun _ _ => ?_
    unfold Short
    rwa [length_setIndex hd]

end Memory

section World

/-- A storage whose values are words. -/
def WordValued (storage : Dict Int Int) : Prop := ∀ k v, storage.get? k = some v → Word v

theorem wordValued_empty : WordValued .empty := fun _ _ h => absurd h (by simp)

theorem WordValued.getD {storage : Dict Int Int} (h : WordValued storage) (k : Int) :
    Word (storage.getD k 0) := by
  unfold Dict.getD
  cases hk : storage.get? k with
  | none => exact word_zero
  | some v => exact h k v hk

theorem WordValued.set {storage : Dict Int Int} (h : WordValued storage) {v : Int} (hv : Word v)
    (k : Int) : WordValued (storage.set k v) :=
  Dict.forall_set (P := fun _ u => Word u) h hv

theorem WordValued.update {storage other : Dict Int Int} (h : WordValued storage)
    (ho : WordValued other) : WordValued (storage.update other) :=
  Dict.forall_update (P := fun _ u => Word u) h ho

/-- Code and storage of every account are in range. -/
structure WorldState.InRange (w : WorldState) : Prop where
  code : ∀ a, Short (w.getAccount a).code
  storage : ∀ a, WordValued (w.getAccount a).storage

variable {w w' : WorldState}

theorem inRange_of_entries
    (h : ∀ e ∈ w.accounts.entries, Short e.2.code ∧ WordValued e.2.storage) : w.InRange := by
  have haccount := WorldState.forall_getAccount
    (P := fun account => Short account.code ∧ WordValued account.storage)
    ⟨by simp [Short, emptyAccount], wordValued_empty⟩ h
  exact ⟨fun a => (haccount a).1, fun a => (haccount a).2⟩

theorem WorldState.InRange.congr (h : w.InRange)
    (hcode : ∀ a, (w'.getAccount a).code = (w.getAccount a).code)
    (hstorage : ∀ a, (w'.getAccount a).storage = (w.getAccount a).storage) : w'.InRange :=
  ⟨fun a => hcode a ▸ h.code a, fun a => hstorage a ▸ h.storage a⟩

theorem inRange_payValue {sender recipient : Bytes} {value : Int} (h : w.InRange)
    (hpay : payValue w sender recipient value = .ok w') : w'.InRange :=
  h.congr (field_payValue Account.code (fun _ _ => rfl) hpay)
    (field_payValue Account.storage (fun _ _ => rfl) hpay)

theorem inRange_reserve (h : w.InRange) (creator c : Bytes) : (w.reserve creator c).InRange :=
  h.congr (field_reserve Account.code (fun _ _ => rfl) creator c)
    (field_reserve Account.storage (fun _ _ => rfl) creator c)

theorem inRange_setCode (h : w.InRange) (a : Bytes) {code : Bytes} (hcode : Short code) :
    (w.setCode a code).InRange := by
  unfold WorldState.setCode
  refine ⟨fun b => ?_, fun b => ?_⟩ <;> rw [WorldState.getAccount_modifyAccount] <;> split
  · exact hcode
  · exact h.code b
  · next hb => rw [← hb]; exact h.storage b
  · exact h.storage b

theorem inRange_persistStorage (h : w.InRange) (a : Bytes) {storage : Dict Int Int}
    (hstorage : WordValued storage) : (w.persistStorage a storage).InRange := by
  refine ⟨fun b => ?_, fun b => ?_⟩ <;> rw [WorldState.getAccount_persistStorage] <;> split
  · exact h.code a
  · exact h.code b
  · exact (h.storage a).update hstorage
  · exact h.storage b

end World

/-- Every frame so far was started with gas, or none. -/
def Funded (log : List Event) : Prop :=
  ∀ kind context, Event.enter kind context ∈ log → 0 ≤ context.gas

/-- What frames share is in range. -/
structure SharedInRange (world : Option WorldState) (log : List Event) : Prop where
  world : ∀ w, world = some w → w.InRange
  log : Funded log

/-- Everything a frame can compute with is in range. -/
structure EVM.InRange (evm : EVM) : Prop where
  stack : ∀ v ∈ evm.executionStack, Word v
  memory : Short evm.memory.data
  storage : WordValued evm.storage
  gas : Word evm.gasRemaining
  code : Short evm.code
  returnData : Short evm.returnData
  caller : evm.context.caller.length ≤ 32
  address : evm.context.address.length ≤ 32
  value : Word evm.context.value
  data : Short evm.context.data
  shared : SharedInRange evm.worldState evm.log

/-- A handler that stays in range and returns a value with `Q`. -/
abbrev KeepsRange {α : Type} (x : EvmM α) (Q : α → Prop) : Prop :=
  Maintains Abort.IsRaised EVM.InRange x Q

section Handlers

variable {env : Env} {Q : Int → Prop}

theorem range_attempt {α : Type} {Q : α → Prop} {x : Except PyException α}
    (h : ∀ a, x = .ok a → Q a) : KeepsRange (attempt x) Q := by
  cases x with
  | error e => exact maintains_throw (isRaised_raised _)
  | ok a => exact maintains_pure (h a rfl)

theorem range_liftMemory {α : Type} {Q : α → Prop} {x : EStateM Abort Memory α}
    (h : KeepsShort x Q) : KeepsRange (liftMemory x) Q :=
  h.zoom (fun _ hr => hr.memory) fun _ _ hr hm => { hr with memory := hm }

theorem range_stackPop : KeepsRange stackPop Word := by
  intro evm hr
  cases hs : evm.executionStack with
  | nil =>
    simp only [stackPop, bind_apply, get_apply, hs, raiseEvm, throw_apply]
    exact triple_error hr (isRaised_raised _)
  | cons v rest =>
    have hv := hr.stack
    rw [hs] at hv
    simp only [stackPop, bind_apply, get_apply, hs, modify_apply, pure_apply]
    exact triple_ok { hr with stack := fun u hu => hv u (List.mem_cons_of_mem _ hu) }
      (hv v List.mem_cons_self)

theorem range_stackPush {v : Int} (hv : Word v) : KeepsRange (stackPush v) fun _ => True := by
  refine maintains_get.bind fun evm _ =>
    Maintains.ite (fun _ => maintains_throw (isRaised_raised _)) fun _ => ?_
  refine maintains_modify fun evm hr => { hr with stack := fun u hu => ?_ }
  rcases List.mem_cons.mp hu with rfl | hu
  · exact hv
  · exact hr.stack u hu

theorem range_stackPeek (depth : Nat) : KeepsRange (stackPeek depth) Word := by
  refine maintains_get.bind fun evm hr => ?_
  split
  · exact maintains_throw (isRaised_raised _)
  · next v hv => exact maintains_pure (hr.stack v (List.mem_of_getElem? hv))

theorem range_emit {event : Event} (h : ∀ kind context, event ≠ .enter kind context) :
    KeepsRange (emit event) fun _ => True := by
  refine maintains_modify fun evm hr => { hr with shared := ⟨hr.shared.world, ?_⟩ }
  intro kind context hmem
  rcases List.mem_append.mp hmem with hmem | hmem
  · exact hr.shared.log kind context hmem
  · exact absurd (List.mem_singleton.mp hmem).symm (h kind context)

theorem range_binaryOp {f : Int → Int → Int} (h : ∀ a b, Word a → Word b → Word (f a b)) :
    KeepsRange (binaryOp f) fun _ => True :=
  range_stackPop.bind fun _ ha => range_stackPop.bind fun _ hb => range_stackPush (h _ _ ha hb)

theorem range_pushOf {f : EVM → Int} (h : ∀ evm : EVM, evm.InRange → Word (f evm)) :
    KeepsRange (pushOf f) fun _ => True :=
  maintains_get.bind fun _ hr => range_stackPush (h _ hr)

theorem length_of_readWindow {data l : Bytes} {offset : Int} {size : Nat}
    (h : readWindow data offset size = .ok l) : l.length = size := by
  rw [← (forall₂_of_mapM h).length_eq, List.length_range]

theorem range_copyOp (source : EVM → Bytes) : KeepsRange (copyOp env source) fun _ => True := by
  refine range_stackPop.bind fun dest hdest => range_stackPop.bind fun offset _ =>
    range_stackPop.bind fun size _ => ?_
  refine Maintains.ite (fun _ => maintains_pure trivial) fun _ => ?_
  refine maintains_get.bind fun evm _ => ?_
  refine (range_attempt (Q := fun _ => True) fun _ _ => trivial).bind fun _ _ => ?_
  refine (range_attempt (Q := fun _ => True) fun _ _ => trivial).bind fun data _ => ?_
  exact range_liftMemory (keepsShort_writeRange hdest.nonneg)

theorem range_jumpTo (destination : Int) : KeepsRange (jumpTo destination) fun _ => True := by
  refine maintains_get.bind fun evm _ =>
    Maintains.ite (fun _ => ?_) fun _ => maintains_throw (isRaised_raised _)
  exact maintains_modify fun evm hr => { hr with }

theorem range_opExp : KeepsRange opExp fun _ => True :=
  range_stackPop.bind fun _ _ => range_stackPop.bind fun _ _ =>
    (range_attempt fun _ h => word_powMod h).bind fun _ h => range_stackPush h

theorem range_opSha3 : KeepsRange (opSha3 env) fun _ => True := by
  refine range_stackPop.bind fun _ _ => range_stackPop.bind fun _ _ =>
    (range_liftMemory keepsShort_readRange).bind fun data _ => range_stackPush ?_
  exact word_intFromBytes (env.keccak256_length data).le

theorem range_opCalldataload : KeepsRange opCalldataload fun _ => True :=
  range_stackPop.bind fun _ _ => maintains_get.bind fun _ _ =>
    (range_attempt fun _ h => word_intFromBytes (length_of_readWindow h).le).bind fun _ h =>
      range_stackPush h

theorem range_opPush {n : Nat} (hn : n ≤ 32) : KeepsRange (opPush n) fun _ => True := by
  refine maintains_get.bind fun evm _ => ?_
  refine (range_attempt (Q := fun l => l.length ≤ 32)
    fun _ h => (length_of_readWindow h).trans_le hn).bind fun l hl => ?_
  refine (range_stackPush (word_intFromBytes hl)).bind fun _ _ => ?_
  exact maintains_modify fun evm hr => { hr with }

theorem range_opSwap (depth : Nat) : KeepsRange (opSwap depth) fun _ => True := by
  refine maintains_get.bind fun evm hevm => ?_
  split
  · next top other htop hother =>
    refine maintains_modify fun s hr => { hr with stack := fun v hv => ?_ }
    rcases List.mem_or_eq_of_mem_set hv with hv | rfl
    · rcases List.mem_or_eq_of_mem_set hv with hv | rfl
      · exact hr.stack v hv
      · exact hevm.stack _ (List.mem_of_getElem? hother)
    · exact hevm.stack _ (List.mem_of_getElem? htop)
  · exact maintains_throw (isRaised_raised _)

theorem range_opSload : KeepsRange opSload fun _ => True := by
  refine range_stackPop.bind fun key _ => maintains_get.bind fun evm hr => ?_
  refine (range_emit (by simp)).bind fun _ _ => ?_
  exact range_stackPush (hr.storage.getD key)

theorem range_opSstore : KeepsRange opSstore fun _ => True := by
  refine range_stackPop.bind fun key _ => range_stackPop.bind fun value hvalue =>
    maintains_get.bind fun evm _ => ?_
  refine (range_emit (by simp)).bind fun _ _ => ?_
  exact maintains_modify fun evm hr => { hr with storage := hr.storage.set hvalue key }

theorem range_opJumpi : KeepsRange opJumpi fun _ => True :=
  range_stackPop.bind fun _ _ => range_stackPop.bind fun _ _ =>
    Maintains.ite (fun _ => range_jumpTo _) fun _ => maintains_pure trivial

theorem range_opReturn : KeepsRange (opReturn env) fun _ => True :=
  range_stackPop.bind fun _ _ => range_stackPop.bind fun _ _ =>
    (range_liftMemory keepsShort_readRange).bind fun _ hdata =>
      maintains_modify fun _ hr => { hr with returnData := hdata }

theorem range_opRevert : KeepsRange (opRevert env) fun _ => True :=
  range_stackPop.bind fun _ _ => range_stackPop.bind fun _ _ =>
    (range_liftMemory keepsShort_readRange).bind fun _ hdata =>
      maintains_modify fun _ hr => { hr with returnData := hdata }

/-- A push carries at most 32 bytes. -/
theorem pushSize_le {byte : UInt8} {n : Nat} (h : Opcode.ofByte byte = some (.push n)) :
    n ≤ 32 := by
  cases decodes_of_ofByte h with
  | push n hn hbyte => exact hn
  | single _ hpush _ _ => exact absurd rfl (hpush n)

theorem range_localOp {opcode : Opcode} (h : ∀ n, opcode = .push n → n ≤ 32) :
    KeepsRange (localOp env opcode) fun _ => True := by
  have hbit : ∀ {c : Prop} [Decidable c], Word (if c then 1 else 0) := word_ite word_one word_zero
  cases opcode with
  | push n => exact range_opPush (h n rfl)
  | dup n => exact (range_stackPeek _).bind fun _ h => range_stackPush h
  | swap n => exact range_opSwap n
  | stop => exact maintains_modify fun _ hr => { hr with }
  | exp => exact range_opExp
  | iszero => exact range_stackPop.bind fun _ _ => range_stackPush hbit
  | not => exact range_stackPop.bind fun _ h => range_stackPush (word_not h)
  | sha3 => exact range_opSha3
  | address => exact range_pushOf fun _ hr => word_intFromBytes hr.address
  | caller => exact range_pushOf fun _ hr => word_intFromBytes hr.caller
  | callvalue => exact range_pushOf fun _ hr => hr.value
  | calldatasize => exact range_pushOf fun _ hr => word_length hr.data
  | codesize => exact range_pushOf fun _ hr => word_length hr.code
  | msize => exact range_pushOf fun _ hr => word_length hr.memory
  | gas => exact range_pushOf fun _ hr => hr.gas
  | calldataload => exact range_opCalldataload
  | calldatacopy | codecopy => exact range_copyOp _
  | pop => exact range_stackPop.bind fun _ _ => maintains_pure trivial
  | mload =>
    exact range_stackPop.bind fun _ h =>
      (range_liftMemory (keepsShort_load h.nonneg)).bind fun _ hv => range_stackPush hv
  | mstore =>
    exact range_stackPop.bind fun _ h => range_stackPop.bind fun _ _ =>
      range_liftMemory (keepsShort_store h.nonneg)
  | mstore8 =>
    exact range_stackPop.bind fun _ _ => range_stackPop.bind fun _ _ =>
      range_liftMemory keepsShort_store8
  | sload => exact range_opSload
  | sstore => exact range_opSstore
  | jump => exact range_stackPop.bind fun _ _ => range_jumpTo _
  | jumpi => exact range_opJumpi
  | jumpdest => exact maintains_pure trivial
  | «return» => exact range_opReturn
  | revert => exact range_opRevert
  | create | call | invalid =>
    exact maintains_get.bind fun _ _ => maintains_throw (isRaised_raised _)
  | add | mul | sub => exact range_binaryOp fun _ _ _ _ => word_emod _
  | div => exact range_binaryOp fun _ _ ha hb => word_ite (word_fdiv ha hb) word_zero
  | mod => exact range_binaryOp fun _ _ ha hb => word_ite (word_fmod ha hb) word_zero
  | lt | gt | eq => exact range_binaryOp fun _ _ _ _ => hbit
  | and => exact range_binaryOp fun _ _ => word_land
  | or => exact range_binaryOp fun _ _ => word_lor

end Handlers

end Ethereum
