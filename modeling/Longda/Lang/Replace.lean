import Longda.Lang.Lstring
import Longda.Lib.Occurrences

/-!
# Replacing

`CLstring::replace` searches the subject for `old` from a place that moves on behind each
occurrence, and builds the result from what is in between. The subject is not changed meanwhile, so
that nothing in a new string is ever found. The result is the subject with all its occurrences
replaced from the left (`replace_eq`).
-/

namespace Longda

open Lib

namespace CLstring

/-- `substr`, which throws from behind the end on. -/
def substr (str : Str) (place n : ℕ) : Option Str :=
  if place ≤ str.length then some ((str.drop place).take n) else none

/-- The loop, with turns to spare: the last index and the result. -/
def replaceLoop (str old newStr : Str) : ℕ → ℕ → Str → Option (ℕ × Str)
  | 0, _, _ => none
  | turns + 1, lastIndex, result =>
    match firstFrom old str lastIndex with
    | none => some (lastIndex, result)
    | some index => do
      let piece ← substr str lastIndex (index - lastIndex)
      replaceLoop str old newStr turns (index + old.length) (result ++ piece ++ newStr)

def replace (str old newStr : Str) : Option Str :=
  if old = newStr then some str
  else if old = [] then some str
  else if old.length > str.length then some str
  else do
    let (lastIndex, result) ← replaceLoop str old newStr (str.length + 1) 0 []
    let piece ← substr str lastIndex (str.length - lastIndex + 1)
    some (result ++ piece)

variable {str old newStr : Str}

/-- The loop ends where the result wants only what is left of the subject. -/
theorem replaceLoop_eq (hold : old ≠ []) {turns lastIndex : ℕ} (hlast : lastIndex ≤ str.length)
    (hturns : str.length < lastIndex + turns) (result : Str) :
    ∃ last done, replaceLoop str old newStr turns lastIndex result = some (last, done) ∧
      last ≤ str.length ∧
      done ++ str.drop last = result ++ replaceAll old newStr (str.drop lastIndex) := by
  induction turns generalizing lastIndex result with
  | zero => omega
  | succ turns ih =>
    unfold replaceLoop
    rcases hfind : firstFrom old str lastIndex with _ | index
    · refine ⟨lastIndex, result, rfl, hlast, ?_⟩
      rw [replaceAll_of_none]
      intro j
      rw [List.drop_drop]
      exact (firstFrom_eq_none hold).1 hfind _ (Nat.le_add_right _ _)
    · obtain ⟨hindex, hle, hfirst⟩ := (firstFrom_eq_some hold).1 hfind
      have hpos := List.length_pos_iff.2 hold
      have hlen := hindex.length_le
      rw [List.length_drop] at hlen
      obtain ⟨last, done, hloop, hlast', hdone⟩ := ih
        (show index + old.length ≤ str.length by omega) (by omega)
        (result ++ (str.drop lastIndex).take (index - lastIndex) ++ newStr)
      refine ⟨last, done, ?_, hlast', ?_⟩
      · simp only [substr, if_pos hlast, Option.bind_eq_bind, Option.bind_some]
        exact hloop
      · obtain ⟨gap, rfl⟩ : ∃ gap, index = lastIndex + gap := ⟨index - lastIndex, by omega⟩
        have hgap : old <+: (str.drop lastIndex).drop gap := by rwa [List.drop_drop]
        have hbefore : ∀ j < gap, ¬ old <+: (str.drop lastIndex).drop j := by
          intro j hj
          rw [List.drop_drop]
          exact hfirst _ (Nat.le_add_right _ _) (by omega)
        rw [hdone, replaceAll_of_first hold hgap hbefore, List.drop_drop, Nat.add_sub_cancel_left,
          ← Nat.add_assoc]
        simp only [List.append_assoc]

/-- Every occurrence in the subject is replaced, from the left. -/
theorem replace_eq (str : Str) {old : Str} (hold : old ≠ []) (newStr : Str) :
    replace str old newStr = some (replaceAll old newStr str) := by
  unfold replace
  split_ifs with hsame hlong
  · rw [← hsame, replaceAll_self hold]
  · rw [replaceAll_of_none]
    intro j hj
    have hlen := hj.length_le
    rw [List.length_drop] at hlen
    omega
  · obtain ⟨last, done, hloop, hlast, hdone⟩ := @replaceLoop_eq str old newStr hold _ _
      (Nat.zero_le str.length) (show str.length < 0 + (str.length + 1) by omega) []
    have hrest : (str.drop last).take (str.length - last + 1) = str.drop last :=
      List.take_of_length_le (by rw [List.length_drop]; omega)
    rw [hloop, Option.bind_eq_bind, Option.bind_some]
    dsimp only
    rw [substr, if_pos hlast, hrest, Option.bind_eq_bind, Option.bind_some, hdone]
    rfl

/-- Occurrences that overlap, and a new string with the old one in it. -/
theorem replace_eq_overlap : replace (ascii "aaaaa") (ascii "aa") (ascii "baab") =
    some (replaceAll (ascii "aa") (ascii "baab") (ascii "aaaaa")) :=
  replace_eq _ (by decide) _

example : replace (ascii "aaaaa") (ascii "aa") (ascii "baab") = some (ascii "baabbaaba") := by
  decide

end CLstring

end Longda
