import Mathlib.Algebra.Group.Int.Defs
import Mathlib.Data.List.DropRight
import Mathlib.Data.List.Lex

/-!
# Strings

A string is the list of its bytes. `strip` has the text of both overloads of the source: the one on
`char *` ends at the first NUL, and the one on `std::string`, where the string is blank, runs down
to the byte before it, which is none of the blanks.
-/

namespace Longda

abbrev Str := List UInt8

instance linearOrderUInt8 : LinearOrder UInt8 where
  le_refl := UInt8.le_refl
  le_trans := fun _ _ _ => UInt8.le_trans
  le_antisymm := fun _ _ => UInt8.le_antisymm
  lt_iff_le_not_ge := fun a b => by
    rw [UInt8.not_le]
    exact ⟨fun h => ⟨UInt8.le_of_lt h, h⟩, fun h => h.2⟩
  le_total := UInt8.le_total
  toDecidableLE := inferInstance

/-- The bytes of a text in ASCII. -/
def ascii (text : String) : Str := text.toList.map fun c => UInt8.ofNat c.toNat

/-- `isspace` in the C locale. -/
def isspace (c : UInt8) : Bool := c == 32 || (decide (9 ≤ c) && decide (c ≤ 13))

def isdigit (c : UInt8) : Bool := decide (48 ≤ c) && decide (c ≤ 57)

/-- The bytes before a NUL, where there is none. -/
theorem takeWhile_ne_zero {l : Str} (h0 : (0 : UInt8) ∉ l) : l.takeWhile (· ≠ 0) = l := by
  rw [List.takeWhile_eq_self_iff]
  intro c hc
  have : c ≠ 0 := fun h => h0 (h ▸ hc)
  simpa using this

namespace CLstring

/-- The pieces between the delimiters, without the empty ones. -/
def splitString (str : Str) (delim : UInt8) : List Str := (str.splitOn delim).filter (· ≠ [])

/-- `strToVal` for an `int` in base ten: as many characters as `>>` takes, after the blanks. What is
no number, or none of the type, is 0. -/
def strToVal (str : Str) : Bool × ℤ :=
  let str := str.dropWhile isspace
  let digits :=
    (if str.head? = some 43 ∨ str.head? = some 45 then str.tail else str).takeWhile isdigit
  let number := digits.foldl (fun (n : ℤ) c => 10 * n + (c.toNat - 48)) 0
  let val := if str.head? = some 45 then -number else number
  if digits = [] ∨ val < -2 ^ 31 ∨ 2 ^ 31 ≤ val then (false, 0) else (true, val)

def strip (str : Str) : Str := (str.dropWhile isspace).rdropWhile isspace

theorem mem_of_mem_strip {c : UInt8} {str : Str} (h : c ∈ strip str) : c ∈ str :=
  (List.dropWhile_sublist _).subset ((List.rdropWhile_prefix _ _).subset h)

/-- What is no blank stays. -/
theorem mem_strip {c : UInt8} {str : Str} (h : c ∈ str) (hc : isspace c = false) :
    c ∈ strip str := by
  have hleft : c ∈ str.dropWhile isspace := by
    rw [← List.takeWhile_append_dropWhile (p := isspace) (l := str)] at h
    rcases List.mem_append.1 h with h | h
    · exact absurd (List.mem_takeWhile_imp h) (by rw [hc]; decide)
    · exact h
  unfold strip
  rw [← List.rdropWhile_append_rtakeWhile (p := isspace) (l := str.dropWhile isspace)] at hleft
  rcases List.mem_append.1 hleft with h | h
  · exact h
  · exact absurd (List.mem_rtakeWhile_imp h) (by rw [hc]; decide)

end CLstring

end Longda
