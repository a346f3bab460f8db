import Ethereum.Evm.Hoare

/-! ABI calldata (`contracts/abi.py`), and the selector and the words that bytecode reads in it. -/
namespace Ethereum

/-- `keccak256(signature)[:4]` -/
def computeSelector (env : Env) (signature : String) : Bytes :=
  (env.keccak256 signature.toUTF8.data.toList).take 4

def encodeUint256 (value : Int) : Except PyException Bytes :=
  if value < 0 then .error (.valueError s!"uint256 cannot be negative, got {value}")
  else if 2 ^ 256 ≤ value then .error (.valueError s!"uint256 overflow: {value} >= 2**256")
  else intToBytes 32 value

/-- `addr.rjust(32, b"\x00")` for an address of 20 bytes -/
def encodeAddress (addr : Bytes) : Except PyException Bytes :=
  if addr.length ≠ 20 then .error (.valueError s!"address must be 20 bytes, got {addr.length}")
  else .ok (addr.leftpad 32 0)

def encodeCall (selector : Bytes) (args : List Bytes) : Bytes := selector ++ args.flatten

/-- The first four bytes of the calldata, as a dispatcher computes them. -/
def selectorOf (data : Bytes) : Int := (wordAt data 0).fdiv (2 ^ 224)

theorem length_computeSelector (env : Env) (signature : String) :
    (computeSelector env signature).length = 4 := by
  rw [computeSelector, List.length_take, env.keccak256_length]
  rfl

theorem intFromBytes_injective {l r : Bytes} (hlength : l.length = r.length)
    (h : intFromBytes l = intFromBytes r) : l = r :=
  BigEndian.fromBytes_injective hlength (Int.ofNat.inj h)

theorem intFromBytes_zeros_append (k : Nat) (l : Bytes) :
    intFromBytes (List.replicate k 0 ++ l) = intFromBytes l :=
  congrArg Int.ofNat (BigEndian.fromBytes_replicate_append k l)

theorem intFromBytes_toBytes {value : Int} (h : Word value) :
    intFromBytes (BigEndian.toBytes 32 value.toNat) = value := by
  obtain ⟨hnonneg, hlt⟩ := h
  rw [intFromBytes, BigEndian.fromBytes_toBytes (by norm_num; omega), Int.toNat_of_nonneg hnonneg]

theorem encodeUint256_of_word {value : Int} (h : Word value) :
    encodeUint256 value = .ok (BigEndian.toBytes 32 value.toNat) := by
  obtain ⟨hnonneg, hlt⟩ := h
  rw [encodeUint256, if_neg (not_lt.mpr hnonneg), if_neg (not_le.mpr hlt)]
  exact intToBytes_of_word ⟨hnonneg, hlt⟩

theorem encodeAddress_of_length {addr : Bytes} (h : addr.length = 20) :
    encodeAddress addr = .ok (List.replicate 12 0 ++ addr) := by
  rw [encodeAddress, if_neg (not_not.mpr h), List.leftpad, h]

section Lengths

variable {b : Bytes}

theorem length_of_encodeUint256 {value : Int} (h : encodeUint256 value = .ok b) :
    b.length = 32 := by
  unfold encodeUint256 at h
  split at h
  · cases h
  · split at h
    · cases h
    · exact length_of_intToBytes h

theorem length_of_encodeAddress {addr : Bytes} (h : encodeAddress addr = .ok b) :
    b.length = 32 := by
  unfold encodeAddress at h
  split at h
  · cases h
  · next haddr =>
    cases h
    rw [List.length_leftpad, not_not.mp haddr]
    rfl

theorem length_encodeCall {selector : Bytes} {args : List Bytes} (hselector : selector.length = 4)
    (hargs : ∀ arg ∈ args, arg.length = 32) :
    (encodeCall selector args).length = 4 + 32 * args.length := by
  rw [encodeCall, List.length_append, hselector, List.length_flatten, List.map_congr_left hargs]
  simp [Nat.mul_comm]

end Lengths

section Windows

variable {data before word after selector : Bytes} {offset m n : Nat}

theorem window_add (data : Bytes) (offset m n : Nat) :
    window data offset (m + n) = window data offset m ++ window data (offset + m) n := by
  simp [window, List.range_add, Function.comp_def, Nat.add_assoc]

theorem window_middle (before word after : Bytes) :
    window (before ++ (word ++ after)) before.length word.length = word := by
  apply List.ext_getElem (by simp)
  intro i hi hi'
  have hright : (before ++ (word ++ after))[before.length + i]? = (word ++ after)[i]? := by
    rw [List.getElem?_append_right (Nat.le_add_right _ _), Nat.add_sub_cancel_left]
  simp [window, hright, List.getElem?_append_left hi', hi']

theorem window_zero (data : Bytes) (size : Nat) :
    window data 0 size = data.take size ++ List.replicate (size - data.length) 0 := by
  apply List.ext_getElem (by simp; omega)
  intro i hi hi'
  rw [length_window] at hi
  rcases lt_or_ge i data.length with hlt | hge
  · simp [window, List.getElem_take, hi, hlt]
  · simp [window, hge]

/-- A zero padded selector whose last byte is not zero is a prefix of the calldata. -/
theorem window_zero_eq_iff (hlast : selector.getLast? ≠ some 0) (hsize : selector.length = n) :
    window data 0 n = selector ↔ data.take n = selector := by
  rcases le_or_gt n data.length with hlen | hlen
  · rw [window_zero, Nat.sub_eq_zero_of_le hlen, List.replicate_zero, List.append_nil]
  · constructor
    · intro h
      refine absurd ?_ hlast
      obtain ⟨k, hk⟩ : ∃ k, n - data.length = k + 1 := ⟨n - data.length - 1, by omega⟩
      rw [← h, window_zero, hk, List.replicate_succ', ← List.append_assoc, List.getLast?_concat]
    · intro h
      have hlength := congrArg List.length h
      rw [List.length_take, hsize] at hlength
      omega

/-- The arguments of a call are read back at their offsets. -/
theorem wordAt_encodeCall (args : List Bytes) (hselector : selector.length = 4)
    (hargs : ∀ arg ∈ args, arg.length = 32) (hword : word.length = 32) (rest : List Bytes) :
    wordAt (encodeCall selector (args ++ word :: rest)) (4 + 32 * args.length) =
      intFromBytes word := by
  have hbefore : (selector ++ args.flatten).length = 4 + 32 * args.length := by
    rw [List.length_append, hselector, List.length_flatten, List.map_congr_left hargs]
    simp [Nat.mul_comm]
  have hmiddle := window_middle (selector ++ args.flatten) word rest.flatten
  rw [hbefore, hword] at hmiddle
  rw [wordAt, encodeCall, List.flatten_append, List.flatten_cons, ← List.append_assoc, hmiddle]

/-- Division by `2 ^ 224` leaves the first four bytes of the word. -/
theorem selectorOf_eq (data : Bytes) : selectorOf data = intFromBytes (window data 0 4) := by
  have hsplit := window_add data 0 4 28
  have hlow := intFromBytes_lt (k := 28) (l := window data (0 + 4) 28) (by simp)
  have hlow' := intFromBytes_nonneg (window data (0 + 4) 28)
  have happend : wordAt data 0 =
      intFromBytes (window data 0 4) * 2 ^ 224 + intFromBytes (window data (0 + 4) 28) := by
    rw [wordAt, hsplit, intFromBytes, BigEndian.fromBytes_append]
    simp [intFromBytes]
  rw [selectorOf, Int.fdiv_eq_ediv_of_nonneg _ (by norm_num), happend]
  omega

/-- The dispatcher compares four bytes, padded with zeros. -/
theorem selectorOf_eq_iff (data selector : Bytes) (hsize : selector.length = 4)
    (hlast : selector.getLast? ≠ some 0) :
    selectorOf data = intFromBytes selector ↔ data.take 4 = selector := by
  rw [selectorOf_eq, ← window_zero_eq_iff hlast hsize]
  constructor
  · intro h
    exact intFromBytes_injective ((length_window data 0 4).trans hsize.symm) h
  · intro h
    rw [h]

end Windows

section Dispatch

variable {F : Setting} {env : Env} {code : Bytes} {pc : Nat} {memory : Memory}
  {storage : Dict Int Int} {Q : Post}

/-- `PUSH32 2^224 PUSH1 0 CALLDATALOAD DIV` -/
theorem Setting.wp_selector
    (h : F.Wp env code 37 [selectorOf F.context.data] memory storage Q)
    (h₁ : Fetches code 0 (.push 32) := by decide)
    (v₁ : intFromBytes (window code 1 32) = 2 ^ 224 := by decide +kernel)
    (h₂ : Fetches code 33 (.push 1) := by decide)
    (v₂ : intFromBytes (window code 34 1) = 0 := by decide)
    (h₃ : Fetches code 35 .calldataload := by decide) (h₄ : Fetches code 36 .div := by decide) :
    F.Wp env code 0 [] memory storage Q := by
  refine wp_push 32 (2 ^ 224) ?_ h₁ v₁
  refine wp_push 1 0 ?_ h₂ v₂
  refine wp_calldataload 0 rfl ?_ h₃
  exact wp_div (by norm_num) h h₄

/-- `DUP1 PUSH4 selector EQ PUSH1 handler JUMPI`: one entry of a dispatcher. -/
theorem Setting.wp_dispatch {found : Int} (selector : Int) (handler : Nat)
    (htaken : found = selector → F.Wp env code handler [found] memory storage Q)
    (hnext : found ≠ selector → F.Wp env code (pc + 10) [found] memory storage Q)
    (h₁ : Fetches code pc (.dup 1) := by decide)
    (h₂ : Fetches code (pc + 1) (.push 4) := by decide)
    (v₂ : intFromBytes (window code (pc + 2) 4) = selector := by decide)
    (h₃ : Fetches code (pc + 6) .eq := by decide)
    (h₄ : Fetches code (pc + 7) (.push 1) := by decide)
    (v₄ : intFromBytes (window code (pc + 8) 1) = handler := by decide)
    (h₅ : Fetches code (pc + 9) .jumpi := by decide)
    (hdest : handler ∈ findJumpdests code := by decide) :
    F.Wp env code pc [found] memory storage Q := by
  refine wp_dup 1 ?_ h₁
  refine wp_push 4 selector ?_ h₂ v₂
  refine wp_eq ?_ h₃
  refine wp_push 1 handler ?_ h₄ v₄
  refine wp_jumpi handler rfl (fun h => ?_) (fun h => ?_) h₅ hdest
  · exact htaken h.symm
  · exact hnext (Ne.symm h)

end Dispatch

end Ethereum
