import Ethereum.Evm.Range
import Ethereum.Evm.WordMachine

/-! The interpreter computes on integers what the machine computes on words. -/
namespace Ethereum

namespace WordMachine

/-- The integer of a word. -/
def Stands (v : Int) (w : U256) : Prop := v = w.toNat

theorem stands_ofBytes {data : Bytes} (h : data.length ≤ 32) :
    Stands (intFromBytes data) (.ofBytes data) := by
  have hlt := BigEndian.fromBytes_lt data
  have hle := Nat.pow_le_pow_right (show 0 < 256 by norm_num) h
  rw [Stands, U256.ofBytes, BitVec.toNat_ofNat, Nat.mod_eq_of_lt (by omega)]
  rfl

theorem stands_ofNat {n : Nat} (h : n < 2 ^ 256) : Stands n (.ofNat 256 n) := by
  rw [Stands, BitVec.toNat_ofNat, Nat.mod_eq_of_lt h]

theorem stands_length {data : Bytes} (h : Short data) :
    Stands data.length (.ofNat 256 data.length) := by
  unfold Short at h
  exact stands_ofNat (by omega)

theorem stands_word {v : Int} (h : Word v) : Stands v (.ofNat 256 v.toNat) := by
  have hnonneg := h.nonneg
  have hlt := h.lt
  have hstands := stands_ofNat (n := v.toNat) (by omega)
  rwa [Int.toNat_of_nonneg hnonneg] at hstands

variable (a b : U256)

theorem stands_add : Stands ((a.toNat + b.toNat) % modValue) (a + b) := by
  rw [Stands, BitVec.toNat_add]
  exact_mod_cast rfl

theorem stands_mul : Stands ((a.toNat * b.toNat) % modValue) (a * b) := by
  rw [Stands, BitVec.toNat_mul]
  exact_mod_cast rfl

theorem stands_sub : Stands ((a.toNat - b.toNat) % modValue) (a - b) := by
  have ha := a.isLt
  have hb := b.isLt
  rw [Stands, BitVec.toNat_sub, modValue]
  omega

theorem stands_div :
    Stands (if (b.toNat : Int) ≠ 0 then Int.fdiv a.toNat b.toNat else 0) (a / b) := by
  rw [Stands, BitVec.toNat_udiv, Int.fdiv_eq_ediv_of_nonneg _ (Int.natCast_nonneg _)]
  split
  · exact (Int.natCast_div _ _).symm
  · next h =>
    have hzero : b.toNat = 0 := by omega
    rw [hzero, Nat.div_zero]
    rfl

theorem toNat_eq_zero_iff : (a.toNat : Int) = 0 ↔ a = 0 := by
  rw [← BitVec.toNat_inj]
  exact Int.natCast_eq_zero

theorem stands_mod : Stands (if (b.toNat : Int) ≠ 0 then Int.fmod a.toNat b.toNat else 0)
    (if b = 0 then 0 else a % b) := by
  by_cases h : b = 0
  · rw [if_neg (not_not.mpr ((toNat_eq_zero_iff b).mpr h)), if_pos h]
    rfl
  · rw [if_pos (mt (toNat_eq_zero_iff b).mp h), if_neg h, Stands, BitVec.toNat_umod,
      Int.fmod_eq_emod_of_nonneg _ (Int.natCast_nonneg _)]
    exact (Int.natCast_emod _ _).symm

theorem toNat_pow (n : Nat) : (a ^ n).toNat = a.toNat ^ n % 2 ^ 256 := by
  induction n with
  | zero => rfl
  | succ n ih => rw [BitVec.pow_succ, BitVec.toNat_mul, ih, Nat.mod_mul_mod, pow_succ a.toNat]

theorem stands_exp : ∃ v, powMod a.toNat b.toNat = .ok v ∧ Stands v (a ^ b.toNat) := by
  refine ⟨_, if_pos (Int.natCast_nonneg _), ?_⟩
  rw [Stands, toNat_pow, Int.toNat_natCast, modValue]
  exact_mod_cast rfl

theorem stands_truth {c : Prop} [Decidable c] {d : Bool} (h : c ↔ d = true) :
    Stands (if c then 1 else 0) (truth d) := by
  cases d with
  | true => exact if_pos (h.mpr rfl)
  | false => exact if_neg (mt h.mp Bool.false_ne_true)

theorem stands_lt : Stands (if (a.toNat : Int) < b.toNat then 1 else 0) (truth (a < b)) := by
  apply stands_truth
  rw [decide_eq_true_iff, BitVec.lt_def]
  exact Int.ofNat_lt

theorem stands_eq : Stands (if (a.toNat : Int) = b.toNat then 1 else 0) (truth (a = b)) := by
  apply stands_truth
  rw [decide_eq_true_iff, ← BitVec.toNat_inj]
  exact Int.ofNat_inj

theorem stands_iszero : Stands (if (a.toNat : Int) = 0 then 1 else 0) (truth (a = 0)) := by
  apply stands_truth
  rw [decide_eq_true_iff]
  exact toNat_eq_zero_iff a

theorem stands_and : Stands (Int.land a.toNat b.toNat) (a &&& b) := by
  rw [Stands, BitVec.toNat_and]
  rfl

theorem stands_or : Stands (Int.lor a.toNat b.toNat) (a ||| b) := by
  rw [Stands, BitVec.toNat_or]
  rfl

theorem stands_not : Stands (maxUint256 - a.toNat) (~~~a) := by
  have ha := a.isLt
  rw [Stands, BitVec.toNat_not, maxUint256]
  omega

end WordMachine

end Ethereum
