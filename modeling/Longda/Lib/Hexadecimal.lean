import Mathlib.Algebra.Group.Nat.Defs
import Mathlib.Algebra.Order.Group.Nat
import Mathlib.Data.List.Induction
import Mathlib.Tactic.IntervalCases

/-!
# Hexadecimal numbers

`hexText` writes a number with digits from `0` to `f`, and `hexPadded` in a field that is filled
with zeros, which `hexDigits` says digit by digit. A number in the field is read back by `hexNumber`
(`hexNumber_hexDigits`), the digits are those of their number (`hexDigits_hexNumber`), and in one
field the smaller number has the text that comes first (`hexPadded_lt`).
-/

namespace Lib

def hexDigit (d : ℕ) : UInt8 := UInt8.ofNat (if d < 10 then 48 + d else 87 + d)

/-- The value of a digit, which may be a capital letter. -/
def hexValue (c : UInt8) : Option ℕ :=
  if 48 ≤ c.toNat ∧ c.toNat ≤ 57 then some (c.toNat - 48)
  else if 97 ≤ c.toNat ∧ c.toNat ≤ 102 then some (c.toNat - 87)
  else if 65 ≤ c.toNat ∧ c.toNat ≤ 70 then some (c.toNat - 55)
  else none

/-- The digits that numbers are written with. -/
def IsHexDigit (c : UInt8) : Prop := 48 ≤ c.toNat ∧ c.toNat ≤ 57 ∨ 97 ≤ c.toNat ∧ c.toNat ≤ 102

instance (c : UInt8) : Decidable (IsHexDigit c) := inferInstanceAs (Decidable (_ ∨ _))

def hexText (n : ℕ) : List UInt8 := (Nat.toDigits 16 n).map fun c => UInt8.ofNat c.toNat

/-- The text in a field filled with zeros. -/
def hexPadded (width n : ℕ) : List UInt8 :=
  List.replicate (width - (hexText n).length) 48 ++ hexText n

/-- The last digits of a number. -/
def hexDigits : ℕ → ℕ → List UInt8
  | 0, _ => []
  | width + 1, n => hexDigits width (n / 16) ++ [hexDigit (n % 16)]

/-- The number of the digits. -/
def hexNumber (ds : List UInt8) : ℕ := ds.foldl (fun n c => 16 * n + (hexValue c).getD 0) 0

variable {width m n d : ℕ}

theorem hexValue_hexDigit (h : d < 16) : hexValue (hexDigit d) = some d := by
  interval_cases d <;> rfl

theorem isHexDigit_hexDigit (h : d < 16) : IsHexDigit (hexDigit d) := by
  interval_cases d <;> decide

theorem hexDigit_lt (h : d < n) (hn : n < 16) : hexDigit d < hexDigit n := by
  interval_cases n <;> interval_cases d <;> decide

theorem hexValue_of_isHexDigit {c : UInt8} (h : IsHexDigit c) :
    ∃ d < 16, hexValue c = some d ∧ hexDigit d = c := by
  have hof : ∀ d, d < 16 → (hexDigit d).toNat = if d < 10 then 48 + d else 87 + d := by
    intro d hd
    exact UInt8.toNat_ofNat_of_lt' (by change _ < 2 ^ 8; split_ifs <;> omega)
  rcases h with ⟨hlo, hhi⟩ | ⟨hlo, hhi⟩
  · refine ⟨c.toNat - 48, by omega, if_pos ⟨hlo, hhi⟩, ?_⟩
    rw [← UInt8.toNat_inj, hof _ (by omega), if_pos (by omega)]
    omega
  · refine ⟨c.toNat - 87, by omega, ?_, ?_⟩
    · rw [hexValue, if_neg (by omega), if_pos ⟨hlo, hhi⟩]
    · rw [← UInt8.toNat_inj, hof _ (by omega), if_neg (by omega)]
      omega

@[simp] theorem length_hexDigits (width n : ℕ) : (hexDigits width n).length = width := by
  induction width generalizing n with
  | zero => rfl
  | succ width ih => rw [hexDigits, List.length_append, ih, List.length_singleton]

theorem isHexDigit_of_mem_hexDigits {c : UInt8} (h : c ∈ hexDigits width n) : IsHexDigit c := by
  induction width generalizing n with
  | zero => cases h
  | succ width ih =>
    rw [hexDigits, List.mem_append, List.mem_singleton] at h
    rcases h with h | rfl
    · exact ih h
    · exact isHexDigit_hexDigit (Nat.mod_lt n (by omega))

theorem hexDigits_zero (width : ℕ) : hexDigits width 0 = List.replicate width 48 := by
  induction width with
  | zero => rfl
  | succ width ih =>
    rw [hexDigits, Nat.zero_div, ih, List.replicate_succ']
    rfl

theorem ofNat_digitChar_hex (h : d < 16) : UInt8.ofNat (Nat.digitChar d).toNat = hexDigit d := by
  interval_cases d <;> rfl

theorem hexText_of_lt (h : n < 16) : hexText n = [hexDigit n] := by
  rw [hexText, Nat.toDigits_of_lt_base h, List.map_singleton, ofNat_digitChar_hex h]

theorem hexText_of_le (h : 16 ≤ n) : hexText n = hexText (n / 16) ++ [hexDigit (n % 16)] := by
  rw [hexText, Nat.toDigits_of_base_le (by omega) h, List.map_append, List.map_singleton,
    ofNat_digitChar_hex (Nat.mod_lt n (by omega))]
  rfl

theorem hexPadded_eq (hwidth : 0 < width) (h : n < 16 ^ width) :
    hexPadded width n = hexDigits width n := by
  induction width generalizing n with
  | zero => omega
  | succ width ih =>
    unfold hexPadded hexDigits
    by_cases hn : n < 16
    · rw [hexText_of_lt hn, Nat.div_eq_of_lt hn, hexDigits_zero, Nat.mod_eq_of_lt hn]
      rfl
    · rcases Nat.eq_zero_or_pos width with rfl | hpos
      · omega
      · rw [← ih hpos (n := n / 16) (by rw [pow_succ] at h; omega), hexPadded,
          hexText_of_le (by omega), List.length_append, List.length_singleton,
          Nat.add_sub_add_right, List.append_assoc]

theorem hexNumber_append_singleton (ds : List UInt8) (c : UInt8) :
    hexNumber (ds ++ [c]) = 16 * hexNumber ds + (hexValue c).getD 0 := by
  rw [hexNumber, List.foldl_append]
  rfl

theorem hexNumber_hexDigits (h : n < 16 ^ width) : hexNumber (hexDigits width n) = n := by
  induction width generalizing n with
  | zero =>
    rw [pow_zero, Nat.lt_one_iff] at h
    rw [h]
    rfl
  | succ width ih =>
    rw [hexDigits, hexNumber_append_singleton, ih (by rw [pow_succ] at h; omega),
      hexValue_hexDigit (Nat.mod_lt n (by omega)), Option.getD_some]
    omega

theorem hexNumber_lt (ds : List UInt8) (h : ∀ c ∈ ds, IsHexDigit c) :
    hexNumber ds < 16 ^ ds.length := by
  induction ds using List.reverseRecOn with
  | nil => exact Nat.one_pos
  | append_singleton ds c ih =>
    obtain ⟨d, hd, hvalue, -⟩ := hexValue_of_isHexDigit (h c (by simp))
    have := ih fun c hc => h c (by simp [hc])
    rw [hexNumber_append_singleton, hvalue, Option.getD_some, List.length_append,
      List.length_singleton, pow_succ]
    omega

theorem hexDigits_hexNumber (ds : List UInt8) (h : ∀ c ∈ ds, IsHexDigit c) :
    hexDigits ds.length (hexNumber ds) = ds := by
  induction ds using List.reverseRecOn with
  | nil => rfl
  | append_singleton ds c ih =>
    obtain ⟨d, hd, hvalue, hdigit⟩ := hexValue_of_isHexDigit (h c (by simp))
    have hdiv : (16 * hexNumber ds + d) / 16 = hexNumber ds := by omega
    have hmod : (16 * hexNumber ds + d) % 16 = d := by omega
    rw [hexNumber_append_singleton, hvalue, Option.getD_some, List.length_append,
      List.length_singleton, hexDigits, hdiv, hmod, ih fun c hc => h c (by simp [hc]), hdigit]

/-! ## The order of the texts -/

theorem append_lt_append {a b : List UInt8} (s t : List UInt8) (hlen : a.length = b.length)
    (h : a < b) : a ++ s < b ++ t := by
  induction a generalizing b with
  | nil =>
    rw [List.length_nil, eq_comm, List.length_eq_zero_iff] at hlen
    exact absurd h (by simp [hlen])
  | cons x a ih =>
    rcases b with _ | ⟨y, b⟩
    · simp at hlen
    · simp only [List.cons_append, List.cons_lt_cons_iff] at h ⊢
      exact h.imp_right fun ⟨hxy, hab⟩ => ⟨hxy, ih (by simpa using hlen) hab⟩

theorem hexDigits_lt (h : m < n) (hn : n < 16 ^ width) : hexDigits width m < hexDigits width n := by
  induction width generalizing m n with
  | zero =>
    rw [pow_zero] at hn
    omega
  | succ width ih =>
    unfold hexDigits
    rw [pow_succ] at hn
    by_cases hdiv : m / 16 = n / 16
    · rw [hdiv]
      exact List.append_left_lt (List.Lex.rel (hexDigit_lt (by omega) (by omega)))
    · exact append_lt_append _ _ (by simp) (ih (by omega) (by omega))

theorem hexPadded_lt (hwidth : 0 < width) (h : m < n) (hn : n < 16 ^ width) :
    hexPadded width m < hexPadded width n := by
  rw [hexPadded_eq hwidth (h.trans hn), hexPadded_eq hwidth hn]
  exact hexDigits_lt h hn

end Lib
