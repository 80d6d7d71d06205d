import Mathlib.Algebra.Group.Int.Defs
import Mathlib.Algebra.Group.Nat.Defs

/-!
# Arithmetic that may overflow

A `CInt` is an expression of type `int`: the number it stands for, and whether all its steps stay
within 32 bits and divide by something other than zero. It comes to that number if they do, and to
nothing if they do not (`get?`).
-/

namespace Lib

/-- The numbers of 32 bits. -/
def InInt (x : ℤ) : Prop := -2 ^ 31 ≤ x ∧ x < 2 ^ 31

instance (x : ℤ) : Decidable (InInt x) := inferInstanceAs (Decidable (_ ∧ _))

/-- A quotient that is truncated and its remainder. -/
theorem tdiv_add_tmod (a : ℤ) {b : ℤ} (hb : 0 < b) :
    b * a.tdiv b + a.tmod b = a ∧ -b < a.tmod b ∧ a.tmod b < b :=
  ⟨Int.mul_tdiv_add_tmod a b, Int.lt_tmod_of_pos a hb, Int.tmod_lt_of_pos a hb⟩

structure CInt where
  val : ℤ
  fits : Bool

namespace CInt

def of (x : ℤ) : CInt := ⟨x, decide (InInt x)⟩

/-- What the expression comes to. -/
def get? (a : CInt) : Option ℤ := if a.fits then some a.val else none

/-- The expression with an operation as its last step. -/
def apply (op : ℤ → ℤ → ℤ) (a b : CInt) : CInt :=
  ⟨op a.val b.val, a.fits && b.fits && decide (InInt (op a.val b.val))⟩

/-- The same for an operation that divides. -/
def divide (op : ℤ → ℤ → ℤ) (a b : CInt) : CInt :=
  ⟨op a.val b.val, (apply op a b).fits && decide (b.val ≠ 0)⟩

instance : Coe ℤ CInt := ⟨of⟩

instance (n : ℕ) : OfNat CInt n := ⟨of n⟩

instance : Add CInt := ⟨apply (· + ·)⟩

instance : Sub CInt := ⟨apply (· - ·)⟩

instance : Mul CInt := ⟨apply (· * ·)⟩

instance : Div CInt := ⟨divide Int.tdiv⟩

instance : Mod CInt := ⟨divide Int.tmod⟩

variable (a b : CInt) (x : ℤ) (n : ℕ)

@[simp] theorem val_of : (of x).val = x := rfl

@[simp] theorem val_ofNat : (ofNat(n) : CInt).val = ofNat(n) := rfl

@[simp] theorem val_add : (a + b).val = a.val + b.val := rfl

@[simp] theorem val_sub : (a - b).val = a.val - b.val := rfl

@[simp] theorem val_mul : (a * b).val = a.val * b.val := rfl

@[simp] theorem val_div : (a / b).val = a.val.tdiv b.val := rfl

@[simp] theorem val_mod : (a % b).val = a.val.tmod b.val := rfl

theorem fits_apply (op : ℤ → ℤ → ℤ) : (apply op a b).fits = true ↔
    a.fits = true ∧ b.fits = true ∧ InInt (op a.val b.val) := by
  simp [apply, and_assoc]

theorem fits_divide (op : ℤ → ℤ → ℤ) : (divide op a b).fits = true ↔
    a.fits = true ∧ b.fits = true ∧ InInt (op a.val b.val) ∧ b.val ≠ 0 := by
  simp [divide, fits_apply, and_assoc]

@[simp] theorem fits_of : (of x).fits = true ↔ InInt x := decide_eq_true_iff

@[simp] theorem fits_ofNat : (ofNat(n) : CInt).fits = true ↔ InInt ofNat(n) :=
  fits_of _

@[simp] theorem fits_add : (a + b).fits = true ↔
    a.fits = true ∧ b.fits = true ∧ InInt (a.val + b.val) := fits_apply a b _

@[simp] theorem fits_sub : (a - b).fits = true ↔
    a.fits = true ∧ b.fits = true ∧ InInt (a.val - b.val) := fits_apply a b _

@[simp] theorem fits_mul : (a * b).fits = true ↔
    a.fits = true ∧ b.fits = true ∧ InInt (a.val * b.val) := fits_apply a b _

@[simp] theorem fits_div : (a / b).fits = true ↔
    a.fits = true ∧ b.fits = true ∧ InInt (a.val.tdiv b.val) ∧ b.val ≠ 0 := fits_divide a b _

@[simp] theorem fits_mod : (a % b).fits = true ↔
    a.fits = true ∧ b.fits = true ∧ InInt (a.val.tmod b.val) ∧ b.val ≠ 0 := fits_divide a b _

variable {a b x}

theorem get?_eq_some_iff : a.get? = some x ↔ a.fits = true ∧ a.val = x := by
  unfold get?
  by_cases h : a.fits = true <;> simp [h]

theorem of_add_of {y z : ℤ} (hx : InInt x) (hy : InInt y) (hz : InInt z) (h : x + y = z) :
    of x + of y = of z := by
  subst h
  show apply (· + ·) (of x) (of y) = _
  simp [apply, of, hx, hy, hz]

theorem get?_of_fits (h : a.fits = true) : a.get? = some a.val :=
  get?_eq_some_iff.2 ⟨h, rfl⟩

/-- A quotient by a positive number is no greater. -/
theorem inInt_tdiv {b : ℤ} (hx : InInt x) (hpos : 0 < b) : InInt (x.tdiv b) := by
  have hle := Int.natAbs_tdiv_le_natAbs x b
  have hneg : x ≤ 0 → x.tdiv b ≤ 0 := fun h => by
    have := Int.tdiv_nonneg (a := -x) (b := b) (by omega) (by omega)
    rw [Int.neg_tdiv] at this
    omega
  unfold InInt at *
  omega

theorem get?_div_of {b : ℤ} (hx : InInt x) (hb : InInt b) (hpos : 0 < b) :
    (of x / of b).get? = some (x.tdiv b) := by
  refine get?_eq_some_iff.2 ⟨?_, rfl⟩
  simp only [fits_div, fits_of, val_of]
  exact ⟨hx, hb, inInt_tdiv hx hpos, by omega⟩

theorem get?_mod_of {b : ℤ} (hx : InInt x) (hb : InInt b) (hpos : 0 < b) :
    (of x % of b).get? = some (x.tmod b) := by
  have hlt := Int.tmod_lt_of_pos x hpos
  have hgt := Int.lt_tmod_of_pos x hpos
  refine get?_eq_some_iff.2 ⟨?_, rfl⟩
  simp [hx, hb]
  unfold InInt at *
  omega

end CInt

end Lib
