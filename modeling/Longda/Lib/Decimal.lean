import Mathlib.Algebra.Group.Nat.Defs
import Mathlib.Algebra.Order.Group.Nat
import Mathlib.Data.List.Induction
import Mathlib.Data.Nat.Notation
import Mathlib.Tactic.IntervalCases

/-!
# Decimal numbers

`decimal` writes a number and `number` reads the digits of one. Reading undoes writing
(`number_decimal`), and writing undoes reading where there is no zero in front (`decimal_number`).
-/

namespace Lib

def IsDigit (c : UInt8) : Prop := 48 ≤ c.toNat ∧ c.toNat ≤ 57

instance (c : UInt8) : Decidable (IsDigit c) := inferInstanceAs (Decidable (_ ∧ _))

def digit (d : ℕ) : UInt8 := UInt8.ofNat (48 + d)

/-- The digits of a number. -/
def decimal (n : ℕ) : List UInt8 := (Nat.toDigits 10 n).map fun c => UInt8.ofNat c.toNat

/-- The number of the digits. -/
def number (ds : List UInt8) : ℕ := ds.foldl (fun n c => 10 * n + (c.toNat - 48)) 0

theorem toNat_digit {d : ℕ} (h : d < 10) : (digit d).toNat = 48 + d :=
  UInt8.toNat_ofNat_of_lt' (by change _ < 2 ^ 8; omega)

theorem isDigit_digit {d : ℕ} (h : d < 10) : IsDigit (digit d) := by
  unfold IsDigit
  rw [toNat_digit h]
  omega

theorem digit_toNat_sub {c : UInt8} (h : IsDigit c) : digit (c.toNat - 48) = c := by
  obtain ⟨h48, h57⟩ := h
  rw [← UInt8.toNat_inj, toNat_digit (by omega)]
  omega

theorem ofNat_digitChar {d : ℕ} (h : d < 10) : UInt8.ofNat (Nat.digitChar d).toNat = digit d := by
  interval_cases d <;> rfl

theorem decimal_of_lt {n : ℕ} (h : n < 10) : decimal n = [digit n] := by
  rw [decimal, Nat.toDigits_of_lt_base h, List.map_singleton, ofNat_digitChar h]

theorem decimal_of_le {n : ℕ} (h : 10 ≤ n) : decimal n = decimal (n / 10) ++ [digit (n % 10)] := by
  rw [decimal, Nat.toDigits_of_base_le (by omega) h, List.map_append, List.map_singleton,
    ofNat_digitChar (Nat.mod_lt n (by omega))]
  rfl

theorem number_concat (ds : List UInt8) (c : UInt8) :
    number (ds ++ [c]) = 10 * number ds + (c.toNat - 48) := by
  rw [number, List.foldl_append]
  rfl

theorem decimal_ne_nil (n : ℕ) : decimal n ≠ [] := by
  rw [decimal, Ne, List.map_eq_nil_iff]
  exact Nat.toDigits_ne_nil

theorem isDigit_of_mem_decimal {n : ℕ} : ∀ c ∈ decimal n, IsDigit c := by
  induction n using Nat.strong_induction_on with
  | _ n ih =>
    intro c hc
    by_cases h : n < 10
    · rw [decimal_of_lt h, List.mem_singleton] at hc
      exact hc ▸ isDigit_digit h
    · rw [decimal_of_le (by omega), List.mem_append, List.mem_singleton] at hc
      rcases hc with hc | rfl
      · exact ih (n / 10) (by omega) c hc
      · exact isDigit_digit (by omega)

@[simp] theorem number_decimal (n : ℕ) : number (decimal n) = n := by
  induction n using Nat.strong_induction_on with
  | _ n ih =>
    by_cases h : n < 10
    · rw [decimal_of_lt h]
      simp [number, toNat_digit h]
    · rw [decimal_of_le (by omega), number_concat, ih (n / 10) (by omega),
        toNat_digit (by omega)]
      omega

theorem number_lt {ds : List UInt8} (h : ∀ c ∈ ds, IsDigit c) : number ds < 10 ^ ds.length := by
  induction ds using List.reverseRecOn with
  | nil => simp [number]
  | append_singleton ds c ih =>
    have hc := (h c (by simp)).2
    have := ih fun d hd => h d (by simp [hd])
    rw [number_concat, List.length_append, List.length_singleton, pow_succ]
    omega

/-- A number below a power of ten has no more digits. -/
theorem length_decimal_le {k n : ℕ} (hk : 0 < k) (h : n < 10 ^ k) : (decimal n).length ≤ k := by
  induction k generalizing n with
  | zero => omega
  | succ k ih =>
    by_cases hn : n < 10
    · rw [decimal_of_lt hn]
      simp
    · rcases Nat.eq_zero_or_pos k with rfl | hk
      · simp at h
        omega
      · rw [decimal_of_le (by omega), List.length_append, List.length_singleton]
        have := ih hk (n := n / 10) (by rw [pow_succ] at h; omega)
        omega

/-- The digits of a number, with zeros in front where they are too few. -/
def decimalPadded (width n : ℕ) : List UInt8 :=
  List.replicate (width - (decimal n).length) 48 ++ decimal n

@[simp] theorem number_decimalPadded (width n : ℕ) : number (decimalPadded width n) = n := by
  have hzeros : ∀ k, number (List.replicate k 48 ++ decimal n) = number (decimal n) := fun k => by
    induction k with
    | zero => rfl
    | succ k ih => exact ih
  rw [decimalPadded, hzeros, number_decimal]

theorem length_decimalPadded {width n : ℕ} (hwidth : 0 < width) (h : n < 10 ^ width) :
    (decimalPadded width n).length = width := by
  have := length_decimal_le hwidth h
  rw [decimalPadded, List.length_append, List.length_replicate]
  omega

/-- Digits are those of their number, unless there is a zero in front. -/
theorem decimal_number {ds : List UInt8} (hds : ∀ c ∈ ds, IsDigit c) (hne : ds ≠ [])
    (hzero : ds.head? = some 48 → ds.length = 1) : decimal (number ds) = ds := by
  induction ds using List.reverseRecOn with
  | nil => exact absurd rfl hne
  | append_singleton ds c ih =>
    have hc : IsDigit c := hds c (by simp)
    have hc' := hc
    obtain ⟨h48, h57⟩ := hc'
    rw [number_concat]
    rcases ds with _ | ⟨d, ds⟩
    · rw [decimal_of_lt (by simp [number]; omega)]
      simp [number, digit_toNat_sub hc]
    · have hd : d ≠ 48 := by
        rintro rfl
        simpa using hzero rfl
      have hrec := ih (fun c hc => hds c (List.mem_append_left _ hc)) (List.cons_ne_nil d ds)
        (fun h => absurd (Option.some.inj h) hd)
      have hpos : number (d :: ds) ≠ 0 := by
        intro h0
        rw [h0, decimal_of_lt (by omega), List.cons.injEq] at hrec
        exact hd hrec.1.symm
      have hdiv : (10 * number (d :: ds) + (c.toNat - 48)) / 10 = number (d :: ds) := by omega
      have hmod : (10 * number (d :: ds) + (c.toNat - 48)) % 10 = c.toNat - 48 := by omega
      rw [decimal_of_le (by omega), hdiv, hmod, hrec, digit_toNat_sub hc]

end Lib
