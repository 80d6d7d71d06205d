import Longda.Conf.Ini
import Longda.Lib.Machine

/-!
# The rules of a configuration file

The rules of the format read a file line by line (`IniReading.line`): a blank line or a comment is
nothing, a header turns to its section, and an entry with the tag at its end goes on with the next
one. What the code does with a line (`line_eq`) and with a file all of whose lines fit the buffer
(`load_eq_run`) is told in the same words.
-/

namespace Longda

open Lib

/-! ## The rules -/

/-- What a line is. -/
inductive IniLine where
  /-- Blank, or a comment. -/
  | skip
  | header (name : Str)
  | entry (text : Str)

def IniLine.parse (line : Str) : IniLine :=
  match CLstring.strip line with
  | [] => .skip
  | c :: cs =>
    if c = CIni.CFG_COMMENT_TAG then .skip
    else if c = CIni.CFG_SESSION_START_TAG
        ∧ (c :: cs).getLast (List.cons_ne_nil c cs) = CIni.CFG_SESSION_END_TAG then
      .header cs.dropLast
    else .entry (c :: cs)

/-- What comes before the equals sign of an entry. -/
def keyOf (entry : Str) : Str := CLstring.strip (entry.takeWhile (· ≠ 61))

def valueOf (entry : Str) : Str := CLstring.strip (entry.dropWhile (· ≠ 61)).tail

/-- Neither the key nor the value is blank. -/
def Filled (entry : Str) : Prop := keyOf entry ≠ [] ∧ valueOf entry ≠ []

instance (entry : Str) : Decidable (Filled entry) := inferInstanceAs (Decidable (_ ∧ _))

/-- The sections so far, and the pieces of an entry that goes on with the next line. -/
structure IniReading where
  sections : OrderedMap Str Section
  current : Str
  pieces : List Str := []

namespace IniReading

def start (ini : CIni) : IniReading where
  sections := ini.mSections.insert CIni.DEFAULT_SECTION .empty
  current := CIni.DEFAULT_SECTION

def currentSection (r : IniReading) : Section := (r.sections.find? r.current).getD .empty

/-- An entry is taken in, unless it has no equals sign. The first value of a key stands. -/
def close (r : IniReading) (entry : Str) : Option IniReading :=
  if 61 ∈ entry then
    some { r with
      sections := r.sections.set r.current (r.currentSection.insert (keyOf entry) (valueOf entry))
      pieces := [] }
  else none

/-- A line, unless it cannot be taken in. -/
def line (r : IniReading) (line : Str) : Option IniReading :=
  if CIni.MAX_CFG_LINE_LEN ≤ line.length then none
  else match IniLine.parse line with
    | .skip => some r
    | .header name => some { r with sections := r.sections.insert name .empty, current := name }
    | .entry text =>
      if text.getLast? = some CIni.CFG_CONTINUE_TAG then
        some { r with pieces := r.pieces ++ [text.dropLast] }
      else r.close (r.pieces.flatten ++ text)

/-- The end of the file, where an entry may still be open. -/
def finish (r : IniReading) : Option (OrderedMap Str Section) :=
  if r.pieces = [] then some r.sections else (r.close r.pieces.flatten).map sections

end IniReading

def iniRules : Machine IniReading Str where
  step := IniReading.line

/-! ## What the code does with a line -/

open CIni

theorem insertEntry_eq (sect : Section) (entry : Str) : insertEntry sect entry =
    if 61 ∈ entry then
      if Filled entry then some (some (sect.insert (keyOf entry) (valueOf entry))) else none
    else some none := by
  unfold insertEntry
  split
  · rename_i hd
    rw [if_neg]
    intro h
    have := List.dropWhile_eq_nil_iff.1 hd 61 h
    simp at this
  · rename_i c value hd
    have hc : c = 61 := by
      have := List.head?_dropWhile_not (· ≠ 61) entry
      rw [hd] at this
      simpa using this
    have hmem : c ∈ entry.dropWhile (· ≠ 61) := by rw [hd]; exact List.mem_cons_self
    have hvalueOf : CLstring.strip value = valueOf entry := by rw [valueOf, hd, List.tail_cons]
    rw [if_pos (hc ▸ (List.dropWhile_sublist _).subset hmem), CLstring.stripString_eq_ite,
      CLstring.stripString_eq_ite, hvalueOf, ← keyOf]
    by_cases hkey : keyOf entry = []
    · have hnot : ¬Filled entry := fun h => h.1 hkey
      rw [if_pos hkey, if_neg hnot]
      rfl
    · by_cases hvalue : valueOf entry = []
      · have hnot : ¬Filled entry := fun h => h.2 hvalue
        rw [if_pos hvalue, if_neg hkey, if_neg hnot]
        rfl
      · have hfilled : Filled entry := ⟨hkey, hvalue⟩
        rw [if_neg hvalue, if_neg hkey, if_pos hfilled]
        rfl

/-- The entry taken in. -/
def CIni.Loading.taken (st : Loading) : Loading :=
  { st with
    ini.mSections := st.ini.mSections.set st.currentSession
      ((st.ini.getSection st.currentSession).insert (keyOf st.lineEntry) (valueOf st.lineEntry)) }

theorem loading_insertEntry_eq (st : Loading) : st.insertEntry =
    if 61 ∈ st.lineEntry then if Filled st.lineEntry then some st.taken else none
    else some st := by
  unfold Loading.insertEntry
  rw [insertEntry_eq]
  split_ifs <;> rfl

theorem switchSession_mSections (ini : CIni) (name : Str) :
    (ini.switchSession name).mSections = ini.mSections.insert name .empty := by
  unfold switchSession insertSession OrderedMap.insert
  split_ifs <;> rfl

/-- What the next piece of an entry is put behind. -/
def CIni.Loading.opened (st : Loading) : Str := if st.continueLastLine then st.lineEntry else []

/-- The entry that the line ends is closed. -/
def CIni.Loading.closing (st : Loading) (text : Str) : Loading :=
  { st with continueLastLine := false, lineEntry := st.opened ++ text }

/-- The body of the loop by what the line is, up to a NUL. -/
theorem line_eq_parse (st : Loading) (l : Str) :
    st.line l = match IniLine.parse (l.takeWhile (· ≠ 0)) with
    | .skip => some st
    | .header name => some { st with ini := st.ini.switchSession name, currentSession := name }
    | .entry text =>
      if text.getLast? = some CFG_CONTINUE_TAG then
        some { st with continueLastLine := true, lineEntry := (st.opened ++ text).dropLast ++ [0] }
      else (st.closing text).insertEntry := by
  unfold Loading.line IniLine.parse Loading.closing Loading.opened
  rcases CLstring.strip (l.takeWhile (· ≠ 0)) with _ | ⟨c, cs⟩
  · rfl
  · dsimp only
    split_ifs <;> simp_all [List.getLast?_eq_some_getLast]

theorem line_eq {st : Loading} {l : Str} (h0 : 0 ∉ l) : st.line l = match IniLine.parse l with
    | .skip => some st
    | .header name => some { st with ini := st.ini.switchSession name, currentSession := name }
    | .entry text =>
      if text.getLast? = some CFG_CONTINUE_TAG then
        some { st with continueLastLine := true, lineEntry := (st.opened ++ text).dropLast ++ [0] }
      else (st.closing text).insertEntry := by
  rw [line_eq_parse, takeWhile_ne_zero h0]

/-- A line that fits is read as it is. -/
theorem getline_spec {room : ℕ} {rest l : Str} {ls : List Str} (h : rest.splitOn 10 = l :: ls)
    (hl : l.length ≤ room) : (getline room rest).1 = l
      ∧ match (getline room rest).2 with
        | none => ls = []
        | some rest => rest.splitOn 10 = ls := by
  induction rest generalizing room l with
  | nil =>
    rw [List.splitOn_nil] at h
    simp only [List.cons.injEq] at h
    obtain ⟨rfl, rfl⟩ := h
    cases room <;> exact ⟨rfl, rfl⟩
  | cons c cs ih =>
    rw [List.splitOn_cons_eq_if_modifyHead] at h
    by_cases hc : c = 10
    · rw [if_pos (beq_iff_eq.2 hc), List.cons.injEq] at h
      obtain ⟨rfl, rfl⟩ := h
      cases room <;> exact ⟨by rw [getline, if_pos hc], by rw [getline, if_pos hc]⟩
    · rw [if_neg (by simpa using hc)] at h
      rcases hs : cs.splitOn 10 with _ | ⟨l', ls'⟩
      · exact absurd hs (List.splitOn_ne_nil 10 cs)
      · rw [hs, List.modifyHead_cons, List.cons.injEq] at h
        obtain ⟨rfl, rfl⟩ := h
        cases room with
        | zero => cases hl
        | succ room =>
          obtain ⟨h₁, h₂⟩ := ih hs (Nat.le_of_succ_le_succ hl)
          rw [getline, if_neg hc]
          exact ⟨congrArg _ h₁, h₂⟩

/-- The lines taken one by one. -/
def loadLines : Machine Loading Str where
  step := Loading.line

/-- With all lines of the file fitting the buffer, the loop takes them one by one. -/
theorem loop_eq_run {rest : Str} (h : ∀ l ∈ rest.splitOn 10, l.length < MAX_CFG_LINE_LEN)
    {turns : ℕ} (ht : (rest.splitOn 10).length ≤ turns) (st : Loading) :
    st.loop turns rest = loadLines.run st (rest.splitOn 10) := by
  induction turns generalizing rest st with
  | zero =>
    have := List.splitOn_ne_nil 10 rest
    exact absurd (List.length_eq_zero_iff.1 (Nat.le_zero.1 ht)) this
  | succ turns ih =>
    rcases hs : rest.splitOn 10 with _ | ⟨l, ls⟩
    · exact absurd hs (List.splitOn_ne_nil 10 rest)
    · rw [hs] at h ht
      have hl : l.length ≤ MAX_CFG_LINE_LEN - 1 := Nat.le_pred_of_lt (h l List.mem_cons_self)
      obtain ⟨h₁, h₂⟩ := getline_spec hs hl
      rw [Loading.loop, Machine.run_cons]
      rcases hg : getline (MAX_CFG_LINE_LEN - 1) rest with ⟨l', _ | rest'⟩
      · rw [hg] at h₁ h₂
        dsimp only at h₁ h₂ ⊢
        rw [h₁, h₂]
        exact (Option.bind_fun_some _).symm
      · rw [hg] at h₁ h₂
        dsimp only at h₁ h₂ ⊢
        subst h₁ h₂
        exact congrArg _ (funext fun st' =>
          ih (fun k hk => h k (List.mem_cons_of_mem _ hk)) (Nat.le_of_succ_le_succ ht) st')

theorem length_splitOn_le (rest : Str) : (rest.splitOn 10).length ≤ rest.length + 1 := by
  induction rest with
  | nil => exact Nat.le_refl _
  | cons c cs ih =>
    rw [List.splitOn_cons_eq_if_modifyHead, List.length_cons]
    split_ifs
    · exact Nat.succ_le_succ ih
    · rw [List.length_modifyHead]
      exact Nat.le_succ_of_le ih

theorem load_returns {files : IniFiles} {ini ini' : CIni} {fileName : Str} {rc : ℤ}
    (h : load files ini fileName = some (rc, ini')) : rc = 0 := by
  unfold load at h
  obtain ⟨st, -, hst⟩ := Option.map_eq_some_iff.1 h
  exact (Prod.mk.inj hst).1.symm

/-- With every line fitting the buffer, `load` takes them all. -/
theorem load_eq_run {files : IniFiles} {fileName : Str} {file : FileData} (ini : CIni)
    (hfile : files fileName = some file)
    (hfits : ∀ l ∈ file.data.splitOn 10, l.length < MAX_CFG_LINE_LEN) :
    load files ini fileName =
      (loadLines.run { ini := ini.switchSession DEFAULT_SECTION } (file.data.splitOn 10)).map
        fun st => (0, { st.ini with mFileNames := st.ini.mFileNames.insert fileName () }) := by
  unfold load
  rw [hfile]
  dsimp only
  rw [loop_eq_run hfits (length_splitOn_le file.data)]

end Longda
