import Longda.Lang.Strip
import Longda.Lib.CheckedInt
import Longda.Lib.MachineInt
import Longda.Lib.OrderedMap

/-!
# Splitting

Two overloads of `CLstring::splitString` search a copy of the string that gets shorter with each
piece, and add the pieces to a vector or to a set. The one on `char *` goes through the string once,
puts a NUL in the place of each delimiter, and collects pointers to where the pieces begin. All of
them find the same pieces, and with the empty ones the string is what the delimiter joins again
(`splitters_agree`).
-/

namespace Longda

open Lib

namespace CLstring

def npos : ℕ := 2 ^ 64 - 1

def findFirstOf (str delim : Str) : ℕ := (str.findIdx? (· ∈ delim)).getD npos

/-- `substr` from an `int` on. A place behind the end is an exception. -/
def substrFrom (str : Str) (place : ℤ) : Option Str :=
  if 0 ≤ place ∧ place ≤ str.length then some (str.drop place.toNat) else none

/-- The loop of the overloads that search, with turns to spare. -/
def splitLoop {γ : Type} (insert : γ → Str → γ) (delim : Str) : ℕ → Str → γ → Option γ
  | 0, _, _ => none
  | turns + 1, tmpStr, results =>
    let cutAt := toInt (findFirstOf tmpStr delim)
    if cutAt ≠ toInt npos then do
      let results := if cutAt > 0 then insert results (tmpStr.take cutAt.toNat) else results
      let place ← ((cutAt : CInt) + 1).get?
      let tmpStr ← substrFrom tmpStr place
      splitLoop insert delim turns tmpStr results
    else some (if tmpStr.length > 0 then insert results tmpStr else results)

def splitStringVector (str delim : Str) (results : List Str) : Option (List Str) :=
  splitLoop (fun results piece => results ++ [piece]) delim (str.length + 1) str results

def splitStringSet (str delim : Str) (results : OrderedMap Str Unit) :
    Option (OrderedMap Str Unit) :=
  splitLoop (fun results piece => results.insert piece ()) delim (str.length + 1) str results

/-- The loop of the overload on `char *`, with turns to spare: the string after it, and where the
pieces begin. -/
def cutLoop (dim : UInt8) (keepNull : Bool) :
    ℕ → Str → ℕ → ℕ → List ℕ → Option (Str × List ℕ)
  | 0, _, _, _, _ => none
  | turns + 1, str, p, l, results => do
    let c ← str[p]?
    if c ≠ 0 then
      if c = dim then
        let str ← setCharAt str p 0
        let p := p + 1
        cutLoop dim keepNull turns str p p
          (if p - l > 1 ∨ keepNull then results ++ [l] else results)
      else cutLoop dim keepNull turns str (p + 1) l results
    else some (str, if p - l > 0 ∨ keepNull then results ++ [l] else results)

/-- `splitString(char *, …)`: the pieces that the pointers lead to. -/
def splitStringChars (str : Str) (dim : UInt8) (keepNull : Bool) : Option (List Str) := do
  let (str, results) ← cutLoop dim keepNull (str.length + 1) (str ++ [0]) 0 0 []
  some (results.map fun l => (str.drop l).takeWhile (· ≠ 0))

/-! ## The overloads that search -/

section Search

variable {γ : Type} {front str : Str} {d : UInt8}

theorem findFirstOf_of_notMem (h : d ∉ str) : findFirstOf str [d] = npos := by
  have hnone : str.findIdx? (· ∈ [d]) = none := by
    rw [List.findIdx?_eq_none_iff]
    intro c hc
    simpa using fun heq : c = d => h (heq ▸ hc)
  rw [findFirstOf, hnone]
  rfl

theorem findFirstOf_append (h : d ∉ front) :
    findFirstOf (front ++ d :: str) [d] = front.length := by
  have hfront : front.findIdx? (· ∈ [d]) = none := by
    rw [List.findIdx?_eq_none_iff]
    intro c hc
    simpa using fun heq : c = d => h (heq ▸ hc)
  rw [findFirstOf, List.findIdx?_append, hfront, List.findIdx?_cons]
  simp

theorem splitString_of_notMem (h : d ∉ str) : splitString str d = [str].filter (· ≠ []) := by
  rw [splitString, List.splitOn_eq_singleton h]

theorem splitString_append (h : d ∉ front) : splitString (front ++ d :: str) d =
    [front].filter (· ≠ []) ++ splitString str d := by
  rw [splitString, List.splitOn_append_cons_self_of_not_mem h, ← List.singleton_append,
    List.filter_append]
  rfl

theorem foldl_filter_singleton (insert : γ → Str → γ) (results : γ) (piece : Str) :
    ([piece].filter (· ≠ [])).foldl insert results =
      if piece.length > 0 then insert results piece else results := by
  rcases piece with _ | ⟨c, piece⟩ <;> rfl

/-- What is inserted are the pieces, in their order. -/
theorem splitLoop_eq (insert : γ → Str → γ) {turns : ℕ} (hlen : str.length < 2 ^ 31)
    (hturns : str.length < turns) (results : γ) :
    splitLoop insert [d] turns str results = some ((splitString str d).foldl insert results) := by
  have hnpos : toInt npos = -1 := by decide
  induction turns generalizing str results with
  | zero => omega
  | succ turns ih =>
    unfold splitLoop
    by_cases hd : d ∈ str
    · obtain ⟨front, rest, rfl, hfront⟩ := List.eq_append_cons_of_mem hd
      simp only [List.length_append, List.length_cons] at hlen hturns
      have hplace : (((front.length : ℤ) : CInt) + 1).get? =
          some ((front.length : ℤ) + 1) :=
        CInt.get?_eq_some_iff.2 ⟨by simp [InInt]; omega, by simp⟩
      have hrest : substrFrom (front ++ d :: rest) (front.length + 1) = some rest := by
        have htoNat : ((front.length : ℤ) + 1).toNat = front.length + 1 := by omega
        unfold substrFrom
        rw [if_pos (by simp; omega), htoNat, ← List.drop_drop, List.drop_left]
        rfl
      have hpos : (front.length : ℤ) > 0 ↔ front.length > 0 := by omega
      simp only [findFirstOf_append hfront, toInt_of_lt (show front.length < 2 ^ 31 by omega),
        Int.toNat_natCast, List.take_left, hplace, hrest, hpos, Option.bind_eq_bind,
        Option.bind_some]
      rw [if_pos (by omega), ih (by omega) (by omega), splitString_append hfront,
        List.foldl_append, foldl_filter_singleton]
    · rw [findFirstOf_of_notMem hd, if_neg (by simp), splitString_of_notMem hd,
        foldl_filter_singleton]

theorem splitStringVector_eq (hlen : str.length < 2 ^ 31) (results : List Str) :
    splitStringVector str [d] results = some (results ++ splitString str d) := by
  rw [splitStringVector, splitLoop_eq _ hlen (Nat.lt_succ_self _)]
  congr 1
  induction splitString str d generalizing results with
  | nil => simp
  | cons piece pieces ih =>
    rw [List.foldl_cons, ih, List.append_assoc, List.singleton_append]

theorem find?_foldl_insert (pieces : List Str) (results : OrderedMap Str Unit) (piece : Str) :
    ((pieces.foldl (fun results piece => results.insert piece ()) results).find? piece).isSome ↔
      (results.find? piece).isSome ∨ piece ∈ pieces := by
  induction pieces generalizing results with
  | nil => simp
  | cons p pieces ih =>
    rw [List.foldl_cons, ih, OrderedMap.find?_insert, List.mem_cons]
    split_ifs with h
    · simp [h]
    · simp [h]

theorem splitStringSet_eq (hlen : str.length < 2 ^ 31) (results : OrderedMap Str Unit) :
    ∃ found, splitStringSet str [d] results = some found ∧ ∀ piece,
      (found.find? piece).isSome ↔ (results.find? piece).isSome ∨ piece ∈ splitString str d :=
  ⟨_, splitLoop_eq _ hlen (Nat.lt_succ_self _) results, find?_foldl_insert _ results⟩

end Search

/-! ## The overload that cuts -/

section Cut

variable {keepNull : Bool} {d : UInt8}

/-- The pieces, all of them or those that are not empty. -/
def pieces (keepNull : Bool) (str : Str) (d : UInt8) : List Str :=
  (str.splitOn d).filter fun piece => keepNull || decide (piece ≠ [])

theorem pieces_false (str : Str) (d : UInt8) : pieces false str d = splitString str d := rfl

theorem pieces_true (str : Str) (d : UInt8) : pieces true str d = str.splitOn d := by
  simp [pieces]

/-- The pointer to a piece is kept as the piece is. -/
theorem map_pointer {l : ℕ} {piece : Str} {read : ℕ → Str} (hread : read l = piece) {p : Prop}
    [Decidable p] (hp : p ↔ piece ≠ []) :
    (if p ∨ keepNull = true then [l] else []).map read =
      [piece].filter fun piece => keepNull || decide (piece ≠ []) := by
  by_cases hpiece : piece = []
  · cases keepNull <;> simp [hp, hpiece, hread]
  · simp [hp, hpiece, hread]

theorem append_ite_singleton (results : List ℕ) (p : Prop) [Decidable p] (l : ℕ) :
    (if p then results ++ [l] else results) = results ++ if p then [l] else [] := by
  split_ifs
  · rfl
  · rw [List.append_nil]

theorem getElem?_at (done cur rest : Str) :
    (done ++ (cur ++ rest))[done.length + cur.length]? = rest[0]? := by
  rw [← List.append_assoc, ← List.length_append, List.getElem?_append_right le_rfl, Nat.sub_self]

theorem read_piece {done cur cut : Str} (h0 : (0 : UInt8) ∉ cur) :
    ((done ++ (cur ++ 0 :: cut)).drop done.length).takeWhile (· ≠ 0) = cur := by
  rw [List.drop_left, List.takeWhile_append, takeWhile_ne_zero h0, if_pos rfl]
  simp

/-- Behind what has been cut and a piece that has been begun: the pointers that are collected lead
to the pieces, in the string as it is in the end. -/
theorem cutLoop_eq (done cur : Str) {rest : Str} (h0 : (0 : UInt8) ∉ cur ++ rest) (hcur : d ∉ cur)
    {turns : ℕ} (hturns : rest.length < turns) (results : List ℕ) :
    ∃ cut ls, cutLoop d keepNull turns (done ++ (cur ++ (rest ++ [0]))) (done.length + cur.length)
        done.length results = some (done ++ cut, results ++ ls) ∧
      ls.map (fun l => ((done ++ cut).drop l).takeWhile (· ≠ 0)) =
        pieces keepNull (cur ++ rest) d := by
  induction rest generalizing done cur turns results with
  | nil =>
    obtain ⟨turns, rfl⟩ : ∃ k, turns = k + 1 := ⟨turns - 1, by omega⟩
    rw [List.append_nil] at h0
    have hpos : done.length + cur.length - done.length > 0 ↔ cur ≠ [] := by
      rw [Nat.add_sub_cancel_left]
      exact List.length_pos_iff
    refine ⟨cur ++ [0], if done.length + cur.length - done.length > 0 ∨ keepNull = true then
      [done.length] else [], ?_, ?_⟩
    · rw [cutLoop, getElem?_at, List.nil_append, List.getElem?_cons_zero, Option.bind_eq_bind,
        Option.bind_some, if_neg (by simp), append_ite_singleton]
    · rw [map_pointer (read_piece h0) hpos, List.append_nil, pieces,
        List.splitOn_eq_singleton hcur]
  | cons c rest ih =>
    have hc : c ≠ 0 := by
      rintro rfl
      exact h0 (by simp)
    simp only [List.length_cons] at hturns
    obtain ⟨turns, rfl⟩ : ∃ k, turns = k + 1 := ⟨turns - 1, by omega⟩
    rw [cutLoop, getElem?_at, List.cons_append, List.getElem?_cons_zero, Option.bind_eq_bind,
      Option.bind_some, if_pos hc]
    by_cases hd : c = d
    · subst hd
      have hpos : done.length + cur.length + 1 - done.length > 1 ↔ cur ≠ [] := by
        rw [← List.length_pos_iff]
        omega
      have hset : setCharAt (done ++ (cur ++ c :: (rest ++ [0]))) (done.length + cur.length) 0 =
          some (done ++ cur ++ [0] ++ ([] ++ (rest ++ [0]))) := by
        rw [setCharAt, if_pos (by simp), ← List.append_assoc, ← List.length_append,
          List.set_append_right _ _ le_rfl, Nat.sub_self]
        simp
      have hplace : done.length + cur.length + 1 = (done ++ cur ++ [0]).length := by
        simp [Nat.add_assoc]
      obtain ⟨cut, ls, hloop, hls⟩ := ih (done ++ cur ++ [0]) []
        (fun h => h0 (by simpa using .inr (.inr h))) List.not_mem_nil
        (show rest.length < turns by omega)
        (results ++ if done.length + cur.length + 1 - done.length > 1 ∨ keepNull = true then
          [done.length] else [])
      have hcut : done ++ cur ++ [0] ++ cut = done ++ (cur ++ 0 :: cut) := by simp
      refine ⟨cur ++ 0 :: cut, (if done.length + cur.length + 1 - done.length > 1 ∨
        keepNull = true then [done.length] else []) ++ ls, ?_, ?_⟩
      · rw [hcut, List.append_assoc results, ← hplace, List.length_nil, Nat.add_zero] at hloop
        rw [if_pos rfl, hset, Option.bind_eq_bind, Option.bind_some]
        dsimp only
        rw [append_ite_singleton]
        exact hloop
      · rw [hcut, List.nil_append] at hls
        have hcur0 : (0 : UInt8) ∉ cur := fun h => h0 (List.mem_append_left _ h)
        rw [List.map_append, hls, map_pointer (read_piece hcur0) hpos, pieces, pieces,
          List.splitOn_append_cons_self_of_not_mem hcur, ← List.filter_append,
          List.singleton_append]
    · have hassoc : cur ++ c :: rest = cur ++ [c] ++ rest := by simp
      obtain ⟨cut, ls, hloop, hls⟩ := ih done (cur ++ [c]) (hassoc ▸ h0)
        (by simpa [hcur] using Ne.symm hd) (show rest.length < turns by omega) results
      refine ⟨cut, ls, ?_, hassoc ▸ hls⟩
      rw [if_neg hd, ← hloop, List.length_append, List.length_singleton, ← Nat.add_assoc,
        List.append_assoc cur, List.singleton_append]

theorem splitStringChars_eq {str : Str} (h0 : (0 : UInt8) ∉ str) (d : UInt8) (keepNull : Bool) :
    splitStringChars str d keepNull = some (pieces keepNull str d) := by
  obtain ⟨cut, ls, hloop, hls⟩ := @cutLoop_eq keepNull d [] [] str h0
    List.not_mem_nil _ (Nat.lt_succ_self _) []
  simp only [List.nil_append, List.length_nil, Nat.add_zero] at hloop hls
  rw [splitStringChars, hloop, Option.bind_eq_bind, Option.bind_some]
  exact congrArg some hls

end Cut

/-- The overloads find the same pieces, and the delimiter joins all of them to the string again. -/
theorem splitters_agree (str : Str) (d : UInt8) (h0 : (0 : UInt8) ∉ str)
    (hlen : str.length < 2 ^ 31) (vector : List Str) (set : OrderedMap Str Unit) :
    ∃ found, splitStringChars str d false = some found ∧
      splitStringVector str [d] vector = some (vector ++ found) ∧
      (∃ set', splitStringSet str [d] set = some set' ∧ ∀ piece,
        (set'.find? piece).isSome ↔ (set.find? piece).isSome ∨ piece ∈ found) ∧
      ∃ all, splitStringChars str d true = some all ∧ [d].intercalate all = str := by
  refine ⟨splitString str d, splitStringChars_eq h0 d false, splitStringVector_eq hlen vector,
    splitStringSet_eq hlen set, _, splitStringChars_eq h0 d true, ?_⟩
  rw [pieces_true, List.intercalate_splitOn]

/-- Delimiters on both sides, and two of them together. -/
theorem splitters_agree_empty_pieces :
    ∃ found, splitStringChars (ascii ",a,,b,") 44 false = some found ∧
      splitStringVector (ascii ",a,,b,") [44] [] = some ([] ++ found) ∧
      (∃ set', splitStringSet (ascii ",a,,b,") [44] .empty = some set' ∧ ∀ piece,
        (set'.find? piece).isSome ↔
          ((.empty : OrderedMap Str Unit).find? piece).isSome ∨ piece ∈ found) ∧
      ∃ all, splitStringChars (ascii ",a,,b,") 44 true = some all ∧
        [44].intercalate all = ascii ",a,,b," :=
  splitters_agree _ 44 (by decide) (by decide) [] .empty

end CLstring

end Longda
