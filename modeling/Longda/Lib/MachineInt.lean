import Mathlib.Algebra.Group.Int.Defs
import Mathlib.Algebra.Group.Nat.Defs
import Mathlib.Algebra.Order.Group.Int
import Mathlib.Tactic.SplitIfs

/-!
# Signed and unsigned integers

Converting a C `int` to a 64-bit unsigned type keeps a number that is not negative and adds
`2 ^ 64` to one that is. Between types of one width the bits stay as they are. A size converted to
an `int` keeps its low bits (`toInt`), and so itself if it is below `2 ^ 31`.
-/

namespace Lib

/-- The `int` that a size is converted to. -/
def toInt (n : ℕ) : ℤ := (n : ℤ).bmod (2 ^ 32)

theorem toInt_of_lt {n : ℕ} (h : n < 2 ^ 31) : toInt n = n := by
  unfold toInt
  rw [Int.bmod_def]
  split_ifs <;> omega

theorem toInt_lt (n : ℕ) : toInt n < 2 ^ 31 := by
  unfold toInt
  rw [Int.bmod_def]
  split_ifs <;> omega

theorem toNat_toUInt64 (x : Int64) :
    (x.toUInt64.toNat : ℤ) = if 0 ≤ x.toInt then x.toInt else x.toInt + 2 ^ 64 := by
  have hx : x.toInt = x.toBitVec.toInt := rfl
  have hu : x.toUInt64.toNat = x.toBitVec.toNat := rfl
  have := x.toBitVec.isLt
  rw [hx, hu, BitVec.toInt_eq_toNat_cond]
  split_ifs <;> omega

theorem toNat_toUInt64_toInt64 (x : Int32) :
    (x.toInt64.toUInt64.toNat : ℤ) = if 0 ≤ x.toInt then x.toInt else x.toInt + 2 ^ 64 := by
  rw [toNat_toUInt64, Int32.toInt_toInt64]

theorem toUInt32_toUInt64_toInt64 (x : Int32) : x.toInt64.toUInt64.toUInt32 = x.toUInt32 := by
  rw [← UInt32.toNat_inj, UInt64.toNat_toUInt32]
  have h := toNat_toUInt64_toInt64 x
  have hx : x.toUInt32.toNat = x.toBitVec.toNat := rfl
  have hi : x.toInt = x.toBitVec.toInt := rfl
  have := x.toBitVec.isLt
  rw [hi, BitVec.toInt_eq_toNat_cond] at h
  rw [hx]
  split_ifs at h <;> omega

theorem toInt_toInt32 (c : UInt32) : c.toInt32.toInt = (c.toNat : ℤ).bmod (2 ^ 32) := by
  rw [← UInt32.toNat_toBitVec]
  exact BitVec.toInt_eq_toNat_bmod _

theorem toInt_toInt64 (x : UInt64) :
    x.toInt64.toInt = if x.toNat < 2 ^ 63 then (x.toNat : ℤ) else x.toNat - 2 ^ 64 := by
  have hx : x.toInt64.toInt = x.toBitVec.toInt := rfl
  have hu : x.toNat = x.toBitVec.toNat := rfl
  rw [hx, hu, BitVec.toInt_eq_toNat_cond]
  split_ifs <;> omega

/-- A signed number divided as an unsigned one. -/
theorem toInt_unsignedDiv_eq_tdiv_iff (x : Int64) (n : UInt64) :
    (x.toUInt64 / n).toInt64.toInt = x.toInt.tdiv n.toNat ↔
      0 ≤ x.toInt ∨ n.toNat ≤ 1 ∨ 2 ^ 64 + x.toInt < n.toNat := by
  have hu := toNat_toUInt64 x
  have hge : -2 ^ 63 ≤ x.toInt := x.le_toInt
  have hlt : x.toInt < 2 ^ 63 := x.toInt_lt
  rw [toInt_toInt64, UInt64.toNat_div]
  by_cases h0 : 0 ≤ x.toInt
  · rw [if_pos h0] at hu
    have hle := Nat.div_le_self x.toUInt64.toNat n.toNat
    rw [if_pos (by omega), Int.tdiv_eq_ediv_of_nonneg h0, Int.natCast_ediv, hu]
    simp [h0]
  rw [if_neg h0] at hu
  by_cases h1 : n.toNat ≤ 1
  · rcases Nat.le_one_iff_eq_zero_or_eq_one.1 h1 with hn | hn
    · simp [hn]
    · rw [hn, Nat.div_one, if_neg (by omega), hu]
      simp
  -- the unsigned quotient is not negative, and the signed one not positive: both are zero
  have hneg : x.toInt.tdiv n.toNat = -((-x.toInt).toNat / n.toNat : ℕ) := by
    rw [Int.natCast_ediv, Int.toNat_of_nonneg (by omega),
      ← Int.tdiv_eq_ediv_of_nonneg (by omega), Int.neg_tdiv, neg_neg]
  have hhalf : x.toUInt64.toNat / n.toNat < 2 ^ 63 := by
    rw [Nat.div_lt_iff_lt_mul (by omega)]
    omega
  rw [if_pos hhalf, hneg]
  have hz : (x.toUInt64.toNat / n.toNat = 0) ↔ x.toUInt64.toNat < n.toNat :=
    Nat.div_eq_zero_iff_lt (by omega)
  have hz' : ((-x.toInt).toNat / n.toNat = 0) ↔ (-x.toInt).toNat < n.toNat :=
    Nat.div_eq_zero_iff_lt (by omega)
  generalize x.toUInt64.toNat / n.toNat = q at hz ⊢
  generalize (-x.toInt).toNat / n.toNat = r at hz' ⊢
  omega

/-- A count less one, where the count is converted to an `int` first. -/
theorem toInt_toInt32_sub_one (c : UInt32) (h0 : 0 < c.toNat) :
    (c.toInt32 - 1).toInt.toNat = if c.toNat ≤ 2 ^ 31 then c.toNat - 1 else 0 := by
  have hc := c.toNat_lt
  have h : (c.toInt32 - 1).toInt = ((c.toNat : ℤ) - 1).bmod (2 ^ 32) := by
    rw [Int32.toInt_sub]
    have h1 : (1 : Int32).toInt = 1 := rfl
    rw [h1, toInt_toInt32, Int.bmod_def, Int.bmod_def, Int.bmod_def]
    split_ifs <;> omega
  rw [Int.bmod_def] at h
  split_ifs at h ⊢ <;> omega

theorem toNat_toUInt32_of_nonneg {x : Int32} (h : 0 ≤ x.toInt) :
    x.toUInt32.toNat = x.toInt.toNat := by
  have hx : x.toUInt32.toNat = x.toBitVec.toNat := rfl
  have hi : x.toInt = x.toBitVec.toInt := rfl
  have := x.toBitVec.isLt
  rw [hi, BitVec.toInt_eq_toNat_cond] at h ⊢
  rw [hx]
  split_ifs at h ⊢ <;> omega

end Lib
