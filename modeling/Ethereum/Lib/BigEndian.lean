import Mathlib.Data.Nat.Log
import Mathlib.Tactic.Ring
import Mathlib.Data.List.Induction

/-! Natural numbers as big-endian byte strings, at a fixed width and at the least
width that holds the number. -/
namespace BigEndian

/-- `int.from_bytes(l, "big")` -/
def fromBytes (l : List UInt8) : Nat := l.foldl (fun n b => n * 256 + b.toNat) 0

/-- The `k` low bytes of `n`, the most significant one first. -/
def toBytes : Nat → Nat → List UInt8
  | 0, _ => []
  | k + 1, n => toBytes k (n / 256) ++ [UInt8.ofNat (n % 256)]

/-- `n.bit_length()` -/
def bitLength (n : Nat) : Nat := if n = 0 then 0 else n.log2 + 1

/-- The least number of bytes that holds `n`. -/
def byteLength (n : Nat) : Nat := (bitLength n + 7) / 8

@[simp] theorem fromBytes_nil : fromBytes [] = 0 := rfl

theorem fromBytes_concat (l : List UInt8) (b : UInt8) :
    fromBytes (l ++ [b]) = fromBytes l * 256 + b.toNat := by
  simp [fromBytes]

theorem fromBytes_lt (l : List UInt8) : fromBytes l < 256 ^ l.length := by
  induction l using List.reverseRecOn with
  | nil => simp
  | append_singleton l b ih =>
    rw [fromBytes_concat, List.length_append, List.length_singleton, pow_succ]
    have hb := b.toNat_lt
    omega

theorem fromBytes_append (l r : List UInt8) :
    fromBytes (l ++ r) = fromBytes l * 256 ^ r.length + fromBytes r := by
  induction r using List.reverseRecOn with
  | nil => simp
  | append_singleton r b ih =>
    rw [← List.append_assoc, fromBytes_concat, ih, fromBytes_concat, List.length_append,
      List.length_singleton, pow_succ]
    ring

@[simp] theorem length_toBytes (k n : Nat) : (toBytes k n).length = k := by
  induction k generalizing n with
  | zero => rfl
  | succ k ih => simp [toBytes, ih]

/-- The low bytes of a number. -/
theorem drop_toBytes (k j n : Nat) : (toBytes (k + j) n).drop k = toBytes j n := by
  induction j generalizing n with
  | zero => exact List.drop_of_length_le (length_toBytes k n).le
  | succ j ih =>
    rw [← Nat.add_assoc, toBytes, toBytes, List.drop_append_of_le_length, ih]
    rw [length_toBytes]
    exact Nat.le_add_right k j

theorem fromBytes_toBytes {k n : Nat} (h : n < 256 ^ k) : fromBytes (toBytes k n) = n := by
  induction k generalizing n with
  | zero =>
    rw [pow_zero] at h
    have hn : n = 0 := by omega
    simp [toBytes, hn]
  | succ k ih =>
    have hd : n / 256 < 256 ^ k := by
      rw [pow_succ] at h
      exact Nat.div_lt_of_lt_mul (by omega)
    have hb : (UInt8.ofNat (n % 256)).toNat = n % 256 := by
      simp
    rw [toBytes, fromBytes_concat, ih hd, hb]
    omega

theorem toBytes_fromBytes (l : List UInt8) : toBytes l.length (fromBytes l) = l := by
  induction l using List.reverseRecOn with
  | nil => rfl
  | append_singleton l b ih =>
    have hb := b.toNat_lt
    have hd : (fromBytes l * 256 + b.toNat) / 256 = fromBytes l := by omega
    have hm : (fromBytes l * 256 + b.toNat) % 256 = b.toNat := by omega
    rw [List.length_append, List.length_singleton, toBytes, fromBytes_concat, hd, hm, ih]
    simp

theorem fromBytes_injective {l r : List UInt8} (hlength : l.length = r.length)
    (h : fromBytes l = fromBytes r) : l = r := by
  rw [← toBytes_fromBytes l, ← toBytes_fromBytes r, hlength, h]

theorem fromBytes_replicate_append (k : Nat) (l : List UInt8) :
    fromBytes (List.replicate k 0 ++ l) = fromBytes l := by
  induction k with
  | zero => rfl
  | succ k ih => exact ih

theorem byteLength_of_pos {n : Nat} (h : n ≠ 0) : byteLength n = n.log2 / 8 + 1 := by
  simp only [byteLength, bitLength, h, if_false]
  omega

theorem lt_pow_byteLength (n : Nat) : n < 256 ^ byteLength n := by
  by_cases h : n = 0
  · simp [h]
  · have h256 : (256 : Nat) = 2 ^ 8 := by norm_num
    rw [byteLength_of_pos h, h256, ← pow_mul]
    refine (Nat.log2_lt h).mp ?_
    omega

theorem pow_byteLength_le {n : Nat} (h : n ≠ 0) : 256 ^ (byteLength n - 1) ≤ n := by
  have h256 : (256 : Nat) = 2 ^ 8 := by norm_num
  rw [byteLength_of_pos h, h256, ← pow_mul]
  refine (Nat.le_log2 h).mp ?_
  omega

/-- A number lies between two powers of its base exactly at its own byte length. -/
theorem byteLength_eq {n k : Nat} (hlo : 256 ^ k ≤ n) (hhi : n < 256 ^ (k + 1)) :
    byteLength n = k + 1 := by
  have hn : n ≠ 0 := by
    have : 0 < 256 ^ k := Nat.pow_pos (by norm_num)
    omega
  have h1 := lt_pow_byteLength n
  have h2 := pow_byteLength_le hn
  have h3 : k < byteLength n := (Nat.pow_lt_pow_iff_right (by norm_num)).mp (hlo.trans_lt h1)
  have h4 : byteLength n - 1 < k + 1 :=
    (Nat.pow_lt_pow_iff_right (by norm_num)).mp (h2.trans_lt hhi)
  omega

theorem byteLength_le {n k : Nat} (h : n < 256 ^ k) : byteLength n ≤ k := by
  by_cases hn : n = 0
  · subst hn; simp [byteLength, bitLength]
  · have h2 := pow_byteLength_le hn
    have h4 : byteLength n - 1 < k := (Nat.pow_lt_pow_iff_right (by norm_num)).mp (h2.trans_lt h)
    omega

/-- The shortest big-endian form of `n`; zero has no digits. -/
def minimal (n : Nat) : List UInt8 := toBytes (byteLength n) n

@[simp] theorem length_minimal (n : Nat) : (minimal n).length = byteLength n :=
  length_toBytes _ _

@[simp] theorem fromBytes_minimal (n : Nat) : fromBytes (minimal n) = n :=
  fromBytes_toBytes (lt_pow_byteLength n)

theorem minimal_injective : Function.Injective minimal :=
  Function.LeftInverse.injective fromBytes_minimal

theorem le_fromBytes_cons {b : UInt8} (h : b ≠ 0) (l : List UInt8) :
    256 ^ l.length ≤ fromBytes (b :: l) := by
  have hb : 0 < b.toNat := by
    rcases Nat.eq_zero_or_pos b.toNat with hz | hp
    · exact absurd (UInt8.toNat_inj.mp hz) h
    · exact hp
  have hs : fromBytes (b :: l) = b.toNat * 256 ^ l.length + fromBytes l := by
    simpa [fromBytes] using fromBytes_append [b] l
  have : 1 * 256 ^ l.length ≤ b.toNat * 256 ^ l.length := Nat.mul_le_mul_right _ hb
  omega

/-- A byte string without a leading zero is the shortest form of its number. -/
theorem minimal_fromBytes {b : UInt8} (h : b ≠ 0) (l : List UInt8) :
    minimal (fromBytes (b :: l)) = b :: l := by
  have hlen : byteLength (fromBytes (b :: l)) = (b :: l).length :=
    byteLength_eq (le_fromBytes_cons h l) (fromBytes_lt (b :: l))
  rw [minimal, hlen, toBytes_fromBytes]

/-- The shortest form of a positive number has no leading zero. -/
theorem minimal_ne_zero_cons {n : Nat} {l : List UInt8} : minimal n ≠ 0 :: l := by
  intro he
  have hl : fromBytes l = n := by
    have h := fromBytes_minimal n
    rw [he] at h
    simpa [fromBytes] using h
  have hlen : byteLength n = l.length + 1 := by
    simpa using congrArg List.length he
  have hn : n ≠ 0 := by
    rintro rfl
    simp [byteLength, bitLength] at hlen
  have h1 := pow_byteLength_le hn
  have h2 := fromBytes_lt l
  rw [hlen, Nat.add_sub_cancel] at h1
  omega

end BigEndian
