import Longda.Lang.Lstring
import Longda.Lib.Decimal

/-!
# Numbers read and written by the library

`sscanf` for formats of `%d`, with a width or without, and of characters that stand for themselves,
and `<<` for an `int`.
-/

namespace Longda

open Lib

/-- A part of a format. -/
inductive Directive where
  | int (width : Option ℕ)
  | char (c : UInt8)

/-- `%d`: after any blanks a sign and digits, in no more characters than the width. -/
def scanInt (width : Option ℕ) (str : Str) : Option (ℤ × Str) :=
  let str := str.dropWhile isspace
  let field := match width with
    | none => str
    | some width => str.take width
  let sign := if field.head? = some 43 ∨ field.head? = some 45 then 1 else 0
  let digits := (field.drop sign).takeWhile isdigit
  if digits = [] then none
  else some (if field.head? = some 45 then -number digits else number digits,
    str.drop (sign + digits.length))

/-- The numbers that are read. -/
def sscanf : List Directive → Str → List ℤ
  | [], _ => []
  | .int width :: format, str =>
    match scanInt width str with
    | none => []
    | some (n, rest) => n :: sscanf format rest
  | .char _ :: _, [] => []
  | .char c :: format, c' :: rest => if c' = c then sscanf format rest else []

/-- What `<<` writes for a number. -/
def printInt (n : ℤ) : Str := (if n < 0 then [45] else []) ++ decimal n.natAbs

theorem isdigit_iff {c : UInt8} : isdigit c = true ↔ IsDigit c := by
  unfold isdigit IsDigit
  rw [Bool.and_eq_true, decide_eq_true_iff, decide_eq_true_iff]
  rfl

theorem isspace_of_isDigit {c : UInt8} (h : IsDigit c) : isspace c = false := by
  obtain ⟨h48, h57⟩ := h
  rw [← Bool.not_eq_true, isspace, Bool.or_eq_true, Bool.and_eq_true, beq_iff_eq,
    decide_eq_true_iff, decide_eq_true_iff]
  rintro (rfl | ⟨-, h13⟩)
  · exact absurd h48 (by decide)
  · have : c.toNat ≤ 13 := h13
    omega

theorem takeWhile_digits {ds rest : Str} (hds : ∀ c ∈ ds, IsDigit c)
    (hrest : ∀ c ∈ rest.head?, ¬ IsDigit c) : (ds ++ rest).takeWhile isdigit = ds := by
  rw [List.takeWhile_append_of_pos fun c hc => isdigit_iff.2 (hds c hc)]
  rcases rest with _ | ⟨c, rest⟩
  · simp
  · rw [List.takeWhile_cons_of_neg, List.append_nil]
    rw [isdigit_iff]
    exact hrest c rfl

/-- Digits that are as many as the width, or that another character follows, are all read. -/
theorem scanInt_digits {width : ℕ} {ds rest : Str} (hds : ∀ c ∈ ds, IsDigit c) (hne : ds ≠ [])
    (hle : ds.length ≤ width) (hrest : ds.length = width ∨ ∀ c ∈ rest.head?, ¬ IsDigit c) :
    scanInt (some width) (ds ++ rest) = some ((number ds : ℤ), rest) := by
  obtain ⟨d, ds', rfl⟩ := List.exists_cons_of_ne_nil hne
  have hd := hds d (by simp)
  have hblank : (d :: ds' ++ rest).dropWhile isspace = d :: ds' ++ rest :=
    List.dropWhile_cons_of_neg (by simp [isspace_of_isDigit hd])
  have hfield : ∃ rest', (d :: ds' ++ rest).take width = d :: ds' ++ rest' ∧
      ∀ c ∈ rest'.head?, ¬ IsDigit c := by
    refine ⟨rest.take (width - (d :: ds').length), ?_, fun c hc => ?_⟩
    · rw [List.take_append, List.take_of_length_le hle]
    · rcases hrest with heq | hrest
      · simp [heq] at hc
      · refine hrest c ?_
        rw [List.head?_take] at hc
        split_ifs at hc
        · cases hc
        · exact hc
  obtain ⟨rest', hfield, hrest'⟩ := hfield
  have hsign : ∀ c : UInt8, c = 43 ∨ c = 45 → (d :: ds' ++ rest').head? ≠ some c := by
    rintro c hc h
    obtain rfl : d = c := Option.some.inj h
    rcases hc with rfl | rfl <;> exact absurd hd (by decide)
  unfold scanInt
  simp only [hblank, hfield, hsign 43 (.inl rfl), hsign 45 (.inr rfl), or_self, if_false,
    List.drop_zero, takeWhile_digits hds hrest', hne, Nat.zero_add, List.drop_left]

/-- Without a width as many characters are read as there are. -/
theorem scanInt_none (str : Str) : scanInt none str = scanInt (some str.length) str := by
  have htake : (str.dropWhile isspace).take str.length = str.dropWhile isspace :=
    List.take_of_length_le (List.dropWhile_sublist _).length_le
  simp only [scanInt, htake]

theorem printInt_ofNat (n : ℕ) : printInt n = decimal n := rfl

end Longda
