import Longda.Lang.Lstring

/-!
# Trimming

The two overloads of `CLstring::strip` look for the first and for the last character that is no
blank. Both stop at the terminator on the way up. On the way down the one on `char *` stops at the
first character and the one on `std::string` where the way up ended, which a string of blanks only
never comes to: there, and in the empty string, it looks at what is before the string
(`strips_iff`).
-/

namespace Longda

namespace CLstring

/-- A character of the string or its terminator; there is none elsewhere. -/
def charAt (str : Str) (place : ℕ) : Option UInt8 := (str ++ [0])[place]?

/-- A character of a buffer overwritten; there is none outside. -/
def setCharAt (buffer : Str) (place : ℕ) (c : UInt8) : Option Str :=
  if place < buffer.length then some (buffer.set place c) else none

/-- `while (isspace(str[head])) ++head`, with turns to spare. -/
def scanOn (str : Str) : ℕ → ℕ → Option ℕ
  | 0, _ => none
  | turns + 1, head => do
    let c ← charAt str head
    if isspace c then scanOn str turns (head + 1) else some head

/-- `while (isspace(str[last]) && last != stop) --last`, from `last + 1`. Before the first character
there is none, for a pointer and for a `size_t` that wraps around. -/
def scanBack (str : Str) (stop : ℕ) : ℕ → Option ℕ
  | 0 => none
  | last + 1 => do
    let c ← charAt str last
    if isspace c ∧ last ≠ stop then scanBack str stop last else some last

/-- `strip(char *)`: the string that is returned, or `none` where it looks elsewhere. -/
def stripChars (str : Str) : Option Str :=
  if str = [] then some []
  else do
    let head ← scanOn str (str.length + 1) 0
    let last ← scanBack str 0 str.length
    let buffer ← setCharAt (str ++ [0]) (last + 1) 0
    some ((buffer.drop head).takeWhile (· ≠ 0))

/-- `strip(std::string &)`. -/
def stripString (str : Str) : Option Str := do
  let head ← scanOn str (str.length + 1) 0
  let tail ← scanBack str head str.length
  some ((str.drop head).take (tail - head + 1))

/-- Both overloads stay in the string and leave it without its blanks in front and behind. -/
structure Strips (str : Str) : Prop where
  chars : (0 : UInt8) ∉ str → stripChars str = some (strip str)
  string : stripString str = some (strip str)
  agree : (0 : UInt8) ∉ str → stripChars str = stripString str

section Scans

variable {front back mid str : Str} {c : UInt8}

theorem charAt_append (front back : Str) (i : ℕ) :
    charAt (front ++ back) (front.length + i) = charAt back i := by
  unfold charAt
  rw [List.append_assoc, List.getElem?_append_right (by omega)]
  congr 1
  omega

theorem charAt_of_lt {i : ℕ} (h : i < str.length) : charAt str i = some str[i] := by
  unfold charAt
  rw [List.getElem?_append_left h, List.getElem?_eq_getElem h]

/-- The way up ends behind the blanks, at a character or at the terminator. -/
theorem scanOn_eq {turns : ℕ} (hfront : ∀ c ∈ front, isspace c = true)
    (hback : ∀ c ∈ back.head?, isspace c = false) {head : ℕ} (hhead : head ≤ front.length)
    (hturns : front.length < head + turns) :
    scanOn (front ++ back) turns head = some front.length := by
  induction turns generalizing head with
  | zero => omega
  | succ turns ih =>
    unfold scanOn
    rcases Nat.lt_or_eq_of_le hhead with hlt | rfl
    · have hc : charAt (front ++ back) head = some front[head] := by
        rw [charAt_of_lt (by simp; omega), List.getElem_append_left hlt]
      rw [hc, Option.bind_eq_bind, Option.bind_some, if_pos (hfront _ (List.getElem_mem hlt))]
      exact ih hlt (by omega)
    · have hc := charAt_append front back 0
      rw [Nat.add_zero] at hc
      rw [hc]
      rcases back with _ | ⟨c, back⟩
      · rfl
      · have := hback c rfl
        simp [charAt, this]

/-- The way down ends at a character that is no blank. -/
theorem scanBack_eq {stop : ℕ} (hc : isspace c = false) (hstop : stop ≤ front.length)
    (hback : ∀ c ∈ back, isspace c = true) :
    scanBack (front ++ c :: back) stop (front ++ c :: back).length = some front.length := by
  suffices h : ∀ k, k ≤ back.length →
      scanBack (front ++ c :: back) stop (front.length + 1 + k) = some front.length by
    have := h back.length le_rfl
    simpa [Nat.add_assoc, Nat.add_comm, Nat.add_left_comm] using this
  intro k
  induction k with
  | zero =>
    intro _
    have hat := charAt_append front (c :: back) 0
    rw [Nat.add_zero] at hat
    rw [Nat.add_zero, scanBack, hat]
    simp [charAt, hc]
  | succ k ih =>
    intro hk
    have hat : charAt (front ++ c :: back) (front.length + 1 + k) = some back[k] := by
      rw [Nat.add_assoc, charAt_append, charAt_of_lt (by simp; omega)]
      simp [Nat.add_comm 1 k]
    rw [← Nat.add_assoc, scanBack, hat, Option.bind_eq_bind, Option.bind_some,
      if_pos ⟨hback _ (List.getElem_mem hk), by omega⟩]
    exact ih (by omega)

/-- Among blanks it goes on down to where it is to stop, or leaves the string. -/
theorem scanBack_blank (hblank : ∀ c ∈ str, isspace c = true) {stop n : ℕ} (hn : n ≤ str.length) :
    scanBack str stop n = if stop < n then some stop else none := by
  induction n with
  | zero => rfl
  | succ last ih =>
    rw [scanBack, charAt_of_lt hn, Option.bind_eq_bind, Option.bind_some]
    by_cases hlast : last = stop
    · rw [if_neg (by simp [hlast]), if_pos (by omega), hlast]
    · rw [if_pos ⟨hblank _ (List.getElem_mem hn), hlast⟩, ih (by omega)]
      exact if_congr (by omega) rfl rfl

end Scans

section Overloads

variable {str : Str}

theorem strip_eq_nil (hblank : ∀ c ∈ str, isspace c = true) : strip str = [] := by
  rw [strip, List.dropWhile_eq_nil_iff.2 hblank]
  rfl

/-- Blanks, what stays, which begins and ends with a character that is no blank, and blanks. -/
theorem exists_of_not_blank (h : ∃ c ∈ str, isspace c = false) :
    ∃ front c mid back, str = front ++ (mid ++ c :: back) ∧ strip str = mid ++ [c] ∧
      (∀ c ∈ front, isspace c = true) ∧ (∀ d ∈ (mid ++ c :: back).head?, isspace d = false) ∧
      isspace c = false ∧ ∀ c ∈ back, isspace c = true := by
  obtain ⟨d, hd, hspace⟩ := h
  have hne : strip str ≠ [] := List.ne_nil_of_mem (mem_strip hd hspace)
  obtain ⟨mid, c, hstrip⟩ := (List.eq_nil_or_concat (strip str)).resolve_left hne
  rw [List.concat_eq_append] at hstrip
  have hsplit : str.dropWhile isspace = mid ++ c :: (str.dropWhile isspace).rtakeWhile isspace := by
    rw [← List.singleton_append, ← List.append_assoc, ← hstrip]
    exact (List.rdropWhile_append_rtakeWhile).symm
  refine ⟨str.takeWhile isspace, c, mid, (str.dropWhile isspace).rtakeWhile isspace, ?_, hstrip,
    fun c hc => List.mem_takeWhile_imp hc, ?_, ?_, fun c hc => List.mem_rtakeWhile_imp hc⟩
  · rw [← hsplit, List.takeWhile_append_dropWhile]
  · rw [← hsplit]
    intro d hd
    have := List.head?_dropWhile_not isspace str
    rw [hd] at this
    exact this
  · have hlast := List.rdropWhile_last_not isspace (str.dropWhile isspace) hne
    have hget : (strip str).getLast hne = c := by
      simp [hstrip]
    rw [← Bool.not_eq_true]
    rwa [← hget]

theorem stripChars_eq (h0 : (0 : UInt8) ∉ str) : stripChars str = some (strip str) := by
  unfold stripChars
  split_ifs with hnil
  · rw [hnil]
    rfl
  by_cases h : ∃ c ∈ str, isspace c = false
  · obtain ⟨front, c, mid, back, rfl, hstrip, hfront, hhead, hc, hback⟩ := exists_of_not_blank h
    have hlast : scanBack (front ++ (mid ++ c :: back)) 0 (front ++ (mid ++ c :: back)).length =
        some (front ++ mid).length := by
      rw [← List.append_assoc]
      exact scanBack_eq hc (Nat.zero_le _) hback
    rw [scanOn_eq hfront hhead (Nat.zero_le _) (by rw [List.length_append]; omega), hlast, hstrip]
    have hcut : setCharAt (front ++ (mid ++ c :: back) ++ [0]) ((front ++ mid).length + 1) 0 =
        some (front ++ (mid ++ [c] ++ 0 :: (back ++ [0]).tail)) := by
      have hassoc : front ++ (mid ++ c :: back) ++ [0] = front ++ mid ++ [c] ++ (back ++ [0]) := by
        simp
      have hlen : (front ++ mid).length + 1 = (front ++ mid ++ [c]).length := by
        simp [Nat.add_assoc]
      rw [setCharAt, hassoc, hlen, if_pos (by simp), List.set_append_right _ _ le_rfl,
        Nat.sub_self]
      cases back <;> simp
    have hkeep : (mid ++ [c]).takeWhile (· ≠ 0) = mid ++ [c] := by
      refine takeWhile_ne_zero fun h => h0 ?_
      simp only [List.mem_append, List.mem_cons, List.not_mem_nil, or_false] at h ⊢
      tauto
    simp only [Option.bind_eq_bind, Option.bind_some, hcut, List.drop_left]
    rw [List.takeWhile_append, hkeep, if_pos rfl]
    simp
  · have hblank : ∀ c ∈ str, isspace c = true := by simpa using h
    have hon := scanOn_eq hblank (show ∀ c ∈ ([] : Str).head?, isspace c = false by simp)
      (Nat.zero_le str.length) (show str.length < 0 + (str.length + 1) by omega)
    rw [List.append_nil] at hon
    rw [hon, scanBack_blank hblank le_rfl, if_pos (List.length_pos_iff.2 hnil), strip_eq_nil hblank]
    have hcut : setCharAt (str ++ [0]) (0 + 1) 0 = some ((str ++ [0]).set (0 + 1) 0) :=
      if_pos (by simp; exact List.length_pos_iff.2 hnil)
    have hdrop : ((str ++ [0]).set (0 + 1) 0).drop str.length = [0] := by
      rw [List.drop_set]
      split_ifs with hlt
      · rw [List.drop_left]
      · rw [List.drop_left]
        obtain ⟨d, hd⟩ := List.length_eq_one_iff.1 (show str.length = 1 by
          have := List.length_pos_iff.2 hnil
          omega)
        simp [hd]
    simp only [Option.bind_eq_bind, Option.bind_some, hcut, hdrop]
    rfl

theorem stripString_eq (h : ∃ c ∈ str, isspace c = false) :
    stripString str = some (strip str) := by
  obtain ⟨front, c, mid, back, rfl, hstrip, hfront, hhead, hc, hback⟩ := exists_of_not_blank h
  have htail : scanBack (front ++ (mid ++ c :: back)) front.length
      (front ++ (mid ++ c :: back)).length = some (front ++ mid).length := by
    rw [← List.append_assoc]
    exact scanBack_eq hc (by simp) hback
  have hlen : (front ++ mid).length - front.length + 1 = (mid ++ [c]).length := by
    simp
  have hmid : mid ++ c :: back = mid ++ [c] ++ back := by simp
  unfold stripString
  rw [scanOn_eq hfront hhead (Nat.zero_le _) (by rw [List.length_append]; omega),
    Option.bind_eq_bind, Option.bind_some, htail, Option.bind_some, hstrip, List.drop_left, hlen,
    hmid, List.take_left]

/-- A string of blanks only is left by the way down. -/
theorem stripString_blank (hblank : ∀ c ∈ str, isspace c = true) : stripString str = none := by
  have hon := scanOn_eq hblank (show ∀ c ∈ ([] : Str).head?, isspace c = false by simp)
      (Nat.zero_le str.length) (show str.length < 0 + (str.length + 1) by omega)
  rw [List.append_nil] at hon
  unfold stripString
  rw [hon, Option.bind_eq_bind, Option.bind_some, scanBack_blank hblank le_rfl,
    if_neg (Nat.lt_irrefl _)]
  rfl

theorem stripString_eq_ite (str : Str) :
    stripString str = if strip str = [] then none else some (strip str) := by
  by_cases h : ∃ c ∈ str, isspace c = false
  · obtain ⟨c, hc, hspace⟩ := h
    rw [stripString_eq ⟨c, hc, hspace⟩, if_neg (List.ne_nil_of_mem (mem_strip hc hspace))]
  · have hblank : ∀ c ∈ str, isspace c = true := by simpa using h
    rw [stripString_blank hblank, if_pos (strip_eq_nil hblank)]

/-- Both overloads trim a string right if and only if not all of it is blank. -/
theorem strips_iff (str : Str) : Strips str ↔ ∃ c ∈ str, isspace c = false := by
  constructor
  · intro h
    by_contra hblank
    have hnone := stripString_blank (show ∀ c ∈ str, isspace c = true by simpa using hblank)
    rw [h.string] at hnone
    cases hnone
  · intro h
    exact ⟨stripChars_eq, stripString_eq h, fun h0 =>
      (stripChars_eq h0).trans (stripString_eq h).symm⟩

/-- The value of a key without one. -/
theorem strips_false : ¬ ∀ str, Strips str := by
  intro h
  exact absurd (h []).string (by decide)

end Overloads

end CLstring

end Longda
