import Longda.Lang.Lstring
import Longda.Lib.Decimal
import Longda.Lib.Machine
import Longda.Lib.Slots

/-!
# Log rotation

`RotateBySize` looks for the first of the suffixes `.001` to `.998` that no file has, moves every
file below it up by one from the highest down, and then the log itself to `.001`. The system may
refuse any of the renames, and a refused one ends the rotation. Only the move from `.998` to `.999`
can meet a file, so nothing else is lost, and what stays is in the order it had
(`rotateBySize_keeps`, and `run_keeps` for all that was ever written). A file `.999` that was
overwritten is lost also if a later move is refused (`rotateBySize_loses`).
-/

namespace Longda

open Lib

/-- A call of `rename`, and what was in the file it overwrote. -/
structure Rename where
  old : Str
  new : Str
  done : Bool
  overwritten : Option (List Str)

/-- The files that there are with their lines, and the calls of `rename` so far. -/
structure FileSystem where
  files : Str → Option (List Str)
  renames : List Rename := []

namespace FileSystem

/-- `access(logName, R_OK)` returns 0. -/
def access (fs : FileSystem) (name : Str) : Bool := (fs.files name).isSome

/-- `rename`, where the system refuses the calls of the numbers in `refuses`. -/
def rename (refuses : ℕ → Bool) (fs : FileSystem) (old new : Str) : FileSystem × Bool :=
  match refuses fs.renames.length, fs.files old with
  | false, some lines =>
    ({ files := Function.update (Function.update fs.files old none) new (some lines)
       renames := fs.renames ++ [⟨old, new, true, fs.files new⟩] }, true)
  | _, _ => ({ fs with renames := fs.renames ++ [⟨old, new, false, none⟩] }, false)

/-- Lines at the end of a file, which is made if there is none. -/
def append (fs : FileSystem) (name : Str) (lines : List Str) : FileSystem :=
  { fs with files := Function.update fs.files name (some ((fs.files name).getD [] ++ lines)) }

end FileSystem

def LOG_MAX_LINE : Int32 := 100000

/-- The members that the rotation by size uses. `isOpen` and `good` are those of `mOfs`. -/
structure CLog where
  mLogName : Str
  mLogLine : Int32 := -1
  mLogMaxLine : Int32 := LOG_MAX_LINE
  isOpen : Bool := false
  good : Bool := true
  fs : FileSystem

namespace CLog

/-- `logIndexStr`, for which the buffer has room for three characters. -/
def logIndexStr (logIndex : ℕ) : Str := (decimalPadded 3 logIndex).take 3

/-- The name of the log for 0, and the one with the suffix otherwise. -/
def logName (mLogName : Str) (logIndex : ℕ) : Str :=
  if logIndex = 0 then mLogName else mLogName ++ ascii "." ++ logIndexStr logIndex

/-- The first loop of `RenameOldLogs`. It has `turns` turns left, and ends with `maxLogIndex`. -/
def findLogs (fs : FileSystem) (mLogName : Str) (turns logIndex maxLogIndex : ℕ) : ℕ :=
  match turns with
  | 0 => maxLogIndex
  | turns + 1 =>
    if fs.access (logName mLogName logIndex) then
      findLogs fs mLogName turns (logIndex + 1) logIndex
    else maxLogIndex

/-- The second loop of `RenameOldLogs`. -/
def shiftLogs (refuses : ℕ → Bool) (mLogName : Str) (logIndex : ℕ) (fs : FileSystem) :
    FileSystem × Bool :=
  match logIndex with
  | 0 => (fs, true)
  | logIndex + 1 =>
    match fs.rename refuses (logName mLogName (logIndex + 1)) (logName mLogName (logIndex + 2)) with
    | (fs, true) => shiftLogs refuses mLogName logIndex fs
    | (fs, false) => (fs, false)

def renameOldLogs (refuses : ℕ → Bool) (mLogName : Str) (fs : FileSystem) : FileSystem × Bool :=
  shiftLogs refuses mLogName (findLogs fs mLogName 998 1 0) fs

/-- `mOfs.open` with `app`, which fails on a stream that is open, or where the system does not open
the file. -/
def openLog (opens : Bool) (c : CLog) : CLog :=
  if c.isOpen then { c with good := false }
  else if opens then { c with isOpen := true, good := true, fs := c.fs.append c.mLogName [] }
  else { c with good := false }

def rotateBySize (refuses : ℕ → Bool) (opens : Bool) (c : CLog) : CLog :=
  if c.mLogLine < 0 then { c.openLog opens with mLogLine := 0 }
  else if c.mLogLine < c.mLogMaxLine then c
  else match renameOldLogs refuses c.mLogName c.fs with
    | (fs, false) => { c with fs := fs }
    | (fs, true) =>
      let (fs, _) := fs.rename refuses c.mLogName (logName c.mLogName 1)
      let c := openLog opens { c with isOpen := false, fs := fs }
      { c with mLogLine := if c.good then 0 else c.mLogMaxLine }

/-- What `Output` does behind its level checks. -/
def output (line : Str) (c : CLog) : CLog :=
  { c with
    fs := if c.isOpen && c.good then c.fs.append c.mLogName [line] else c.fs
    good := c.isOpen && c.good
    mLogLine := c.mLogLine + 1 }

/-- What is in the log and in the files with a suffix. -/
def slots (mLogName : Str) (fs : FileSystem) (logIndex : ℕ) : Option (List Str) :=
  if logIndex < 1000 then fs.files (logName mLogName logIndex) else none

def log (c : CLog) (logIndex : ℕ) : Option (List Str) := slots c.mLogName c.fs logIndex

/-- The log and those with a suffix, from the youngest to the oldest. -/
def logs (c : CLog) : List (List Str) := present 1000 c.log

/-- All of `.001` to `.998` are there, and the system does not refuse the next call, which moves
`.998` to `.999`. -/
def DropsOldest (refuses : ℕ → Bool) (mLogName : Str) (fs : FileSystem) : Prop :=
  (∀ j, 1 ≤ j → j ≤ 998 → slots mLogName fs j ≠ none) ∧ refuses fs.renames.length = false

/-- The calls overwrite no log but `.999`, and what was not overwritten stays, in the order it had
and behind what is `fresh`. -/
structure Keeps (refuses : ℕ → Bool) (mLogName : Str) (fs fs' : FileSystem) (calls : List Rename)
    (fresh : List (List Str)) : Prop where
  renames : fs'.renames = fs.renames ++ calls
  overwrites : ∀ r ∈ calls, r.overwritten ≠ none → r.new = logName mLogName 999
  order : present 1000 (slots mLogName fs') ++ calls.filterMap Rename.overwritten =
    fresh ++ present 1000 (slots mLogName fs)
  lost : calls.filterMap Rename.overwritten = [] ∨ DropsOldest refuses mLogName fs ∧
    calls.filterMap Rename.overwritten = (slots mLogName fs 999).toList

/-- The lines of all the logs, from the oldest on. -/
def text (c : CLog) : List Str := c.logs.reverse.flatten

inductive Step where
  | rotate (opens : Bool)
  | output (line : Str)

def step (refuses : ℕ → Bool) (c : CLog) : Step → CLog
  | .rotate opens => c.rotateBySize refuses opens
  | .output line => c.output line

def Step.line? : Step → Option Str
  | .rotate _ => none
  | .output line => some line

end CLog

/-! ## Names and renames -/

section Names

variable {mLogName : Str}

theorem logIndexStr_eq {i : ℕ} (hi : i < 1000) : CLog.logIndexStr i = decimalPadded 3 i := by
  have := length_decimalPadded (show 0 < 3 by omega) (show i < 10 ^ 3 by omega)
  exact List.take_of_length_le (by omega)

theorem logName_inj {i j : ℕ} (hi : i < 1000) (hj : j < 1000)
    (h : CLog.logName mLogName i = CLog.logName mLogName j) : i = j := by
  unfold CLog.logName at h
  split_ifs at h with hi0 hj0 hj0
  · rw [hi0, hj0]
  · simp [ascii] at h
  · simp [ascii] at h
  · have hsuffix := List.append_cancel_left h
    rw [logIndexStr_eq hi, logIndexStr_eq hj] at hsuffix
    rw [← number_decimalPadded 3 i, hsuffix, number_decimalPadded]

theorem logName_zero : CLog.logName mLogName 0 = mLogName := rfl

end Names

section Renames

variable {refuses : ℕ → Bool} {fs fs' : FileSystem} {old new : Str} {done : Bool}

/-- What `rename` does. -/
theorem rename_cases (h : fs.rename refuses old new = (fs', done)) :
    (done = true ∧ refuses fs.renames.length = false ∧
      fs'.files = Function.update (Function.update fs.files old none) new (fs.files old) ∧
      fs'.renames = fs.renames ++ [⟨old, new, true, fs.files new⟩]) ∨
    (done = false ∧ fs'.files = fs.files ∧
      fs'.renames = fs.renames ++ [⟨old, new, false, none⟩]) := by
  unfold FileSystem.rename at h
  split at h
  · next hrefuses hlines =>
    obtain ⟨rfl, rfl⟩ := Prod.mk.inj h
    exact .inl ⟨rfl, hrefuses, by rw [hlines], rfl⟩
  · obtain ⟨rfl, rfl⟩ := Prod.mk.inj h
    exact .inr ⟨rfl, rfl, rfl⟩

/-- A rename to the next suffix moves the file up, or is refused and changes nothing. -/
theorem rename_next_cases {mLogName : Str} {i : ℕ} (hi : i + 1 < 1000)
    (h : fs.rename refuses (CLog.logName mLogName i) (CLog.logName mLogName (i + 1)) =
      (fs', done)) :
    (done = true ∧ refuses fs.renames.length = false ∧
      CLog.slots mLogName fs' = moveUp i (CLog.slots mLogName fs) ∧
      fs'.renames = fs.renames ++ [⟨CLog.logName mLogName i, CLog.logName mLogName (i + 1), true,
        CLog.slots mLogName fs (i + 1)⟩]) ∨
    (done = false ∧ CLog.slots mLogName fs' = CLog.slots mLogName fs ∧
      fs'.renames = fs.renames ++ [⟨CLog.logName mLogName i, CLog.logName mLogName (i + 1), false,
        none⟩]) := by
  obtain ⟨hdone, hrefuses, hfiles, hrenames⟩ | ⟨hdone, hfiles, hrenames⟩ := rename_cases h
  · refine .inl ⟨hdone, hrefuses, funext fun j => ?_, ?_⟩
    · by_cases hj : j < 1000
      · have hname : ∀ k < 1000, (CLog.logName mLogName j = CLog.logName mLogName k ↔ j = k) :=
          fun k hk => ⟨logName_inj hj hk, congrArg _⟩
        simp only [CLog.slots, moveUp, hfiles, Function.update_apply, hname i (by omega),
          hname (i + 1) hi, if_pos hj, if_pos (show i < 1000 by omega)]
      · rw [moveUp_of_ne (by omega) (by omega)]
        simp only [CLog.slots, if_neg hj]
    · rw [hrenames, CLog.slots, if_pos hi]
  · refine .inr ⟨hdone, funext fun j => ?_, hrenames⟩
    simp only [CLog.slots, hfiles]

end Renames

/-! ## The rotation -/

section Rotation

variable {refuses : ℕ → Bool} {mLogName : Str} {fs fs' : FileSystem} {done : Bool}

/-- The first loop ends below a suffix that no file has, or at `.998`. -/
theorem findLogs_eq (mLogName : Str) (fs : FileSystem) (turns : ℕ) {i : ℕ}
    (hturns : turns + i + 1 = 999)
    (hbelow : ∀ j, 1 ≤ j → j ≤ i → CLog.slots mLogName fs j ≠ none) :
    ∃ max, CLog.findLogs fs mLogName turns (i + 1) i = max ∧ max ≤ 998 ∧
      (∀ j, 1 ≤ j → j ≤ max → CLog.slots mLogName fs j ≠ none) ∧
      (max < 998 → CLog.slots mLogName fs (max + 1) = none) := by
  induction turns generalizing i with
  | zero => exact ⟨i, rfl, by omega, hbelow, by omega⟩
  | succ turns ih =>
    have hslot : CLog.slots mLogName fs (i + 1) = fs.files (CLog.logName mLogName (i + 1)) :=
      if_pos (by omega)
    rw [CLog.findLogs]
    split_ifs with haccess
    · refine ih (by omega) fun j hj hji => ?_
      obtain rfl | hlt := Nat.eq_or_lt_of_le hji
      · rw [hslot]
        exact Option.isSome_iff_ne_none.1 haccess
      · exact hbelow j hj (by omega)
    · refine ⟨i, rfl, by omega, hbelow, fun _ => ?_⟩
      rw [hslot]
      exact Option.not_isSome_iff_eq_none.1 haccess

/-- Above a free suffix the second loop overwrites nothing. It leaves `.001` free if no rename is
refused. -/
theorem shiftLogs_cases (i : ℕ) (hi : i + 1 < 1000)
    (hfree : CLog.slots mLogName fs (i + 1) = none)
    (h : CLog.shiftLogs refuses mLogName i fs = (fs', done)) :
    Moved i (CLog.slots mLogName fs) (CLog.slots mLogName fs') ∧
      (done = true → CLog.slots mLogName fs' 1 = none) ∧
      ∃ calls, fs'.renames = fs.renames ++ calls ∧ (∀ r ∈ calls, r.overwritten = none) ∧
        (done = false ↔ ∃ r ∈ calls, r.done = false) := by
  induction i generalizing fs with
  | zero =>
    obtain ⟨rfl, rfl⟩ := Prod.mk.inj h
    exact ⟨.stop 0 _, fun _ => hfree, [], (List.append_nil _).symm, by simp, by simp⟩
  | succ i ih =>
    rw [CLog.shiftLogs] at h
    split at h
    · next fs₁ hr =>
      obtain ⟨-, -, hslots, hrenames⟩ | ⟨hdone, -⟩ := rename_next_cases hi hr
      · obtain ⟨hmoved, hone, calls, hcalls, hover, hfail⟩ := ih (by omega)
          (by rw [hslots, moveUp_self]) h
        rw [hslots] at hmoved
        rw [hrenames, List.append_assoc] at hcalls
        refine ⟨.move hmoved, hone, _, hcalls, ?_, ?_⟩
        · simpa [hfree] using hover
        · simpa using hfail
      · cases hdone
    · next fs₁ hr =>
      obtain ⟨hdone, -⟩ | ⟨-, hslots, hrenames⟩ := rename_next_cases hi hr
      · cases hdone
      · obtain ⟨rfl, rfl⟩ := Prod.mk.inj h
        refine ⟨hslots ▸ .stop _ _, nofun, _, hrenames, by simp, by simp⟩

theorem keeps_refl (refuses : ℕ → Bool) (mLogName : Str) (fs : FileSystem) :
    CLog.Keeps refuses mLogName fs fs [] [] :=
  ⟨(List.append_nil _).symm, by simp, by simp, .inl rfl⟩

/-- More calls that overwrite nothing. -/
theorem CLog.Keeps.append {fs₁ : FileSystem} {calls calls' : List Rename} {fresh : List (List Str)}
    (h : CLog.Keeps refuses mLogName fs fs₁ calls []) (hcalls : fs'.renames = fs₁.renames ++ calls')
    (hover : ∀ r ∈ calls', r.overwritten = none)
    (horder : present 1000 (CLog.slots mLogName fs') =
      fresh ++ present 1000 (CLog.slots mLogName fs₁)) :
    CLog.Keeps refuses mLogName fs fs' (calls ++ calls') fresh := by
  have hlost : (calls ++ calls').filterMap Rename.overwritten =
      calls.filterMap Rename.overwritten := by
    rw [List.filterMap_append, List.filterMap_eq_nil_iff.2 hover, List.append_nil]
  refine ⟨?_, fun r hr hne => ?_, ?_, ?_⟩
  · rw [hcalls, h.renames, List.append_assoc]
  · rcases List.mem_append.1 hr with hr | hr
    · exact h.overwrites r hr hne
    · exact absurd (hover r hr) hne
  · rw [hlost, horder, List.append_assoc, h.order, List.nil_append]
  · rw [hlost]
    exact h.lost

/-- The shift of all the files, the last of which overwrites `.999`. -/
theorem shiftLogs_full
    (hfull : ∀ j, 1 ≤ j → j ≤ 998 → CLog.slots mLogName fs j ≠ none)
    (h : CLog.shiftLogs refuses mLogName 998 fs = (fs', done)) :
    CLog.slots mLogName fs' 0 = CLog.slots mLogName fs 0 ∧
      (done = true → CLog.slots mLogName fs' 1 = none) ∧
      ∃ calls, CLog.Keeps refuses mLogName fs fs' calls [] ∧
        (done = false ↔ ∃ r ∈ calls, r.done = false) := by
  rw [CLog.shiftLogs] at h
  split at h
  · next fs₁ hr =>
    obtain ⟨-, hrefuses, hslots, hrenames⟩ | ⟨hdone, -⟩ := rename_next_cases (by omega) hr
    · obtain ⟨hmoved, hone, calls, hcalls, hover, hfail⟩ :=
        shiftLogs_cases 997 (by omega) (by rw [hslots, moveUp_self]) h
      have hlost : calls.filterMap Rename.overwritten = [] := List.filterMap_eq_nil_iff.2 hover
      have hpresent : present 1000 (CLog.slots mLogName fs') =
          present 999 (CLog.slots mLogName fs) := by
        rw [hmoved.present_eq (by rw [hslots, moveUp_self]) (by omega), hslots, ← moveUp_erase,
          present_moveUp (Function.update_self ..) (by omega), present_succ, Function.update_self,
          Option.toList_none, List.append_nil]
        exact present_congr fun j hj => Function.update_of_ne (by omega) ..
      rw [hrenames, List.append_assoc] at hcalls
      refine ⟨?_, hone, _, ⟨hcalls, ?_, ?_, .inr ⟨⟨hfull, hrefuses⟩, ?_⟩⟩, ?_⟩
      · rw [hmoved.zero_eq, hslots, moveUp_of_ne (by omega) (by omega)]
      · simpa using fun r hr hne => absurd (hover r hr) hne
      · rw [hpresent, List.nil_append, present_succ 999 (CLog.slots mLogName fs),
          List.filterMap_append, hlost]
        rcases CLog.slots mLogName fs 999 <;> simp
      · rw [List.filterMap_append, hlost]
        rcases CLog.slots mLogName fs 999 <;> simp
      · simpa using hfail
    · cases hdone
  · next fs₁ hr =>
    obtain ⟨hdone, -⟩ | ⟨-, hslots, hrenames⟩ := rename_next_cases (by omega) hr
    · cases hdone
    · obtain ⟨rfl, rfl⟩ := Prod.mk.inj h
      refine ⟨congrFun hslots 0, nofun, _, (keeps_refl ..).append hrenames (by simp) ?_, by simp⟩
      rw [hslots, List.nil_append]

/-- The same for all files there may be. -/
theorem renameOldLogs_cases (h : CLog.renameOldLogs refuses mLogName fs = (fs', done)) :
    CLog.slots mLogName fs' 0 = CLog.slots mLogName fs 0 ∧
      (done = true → CLog.slots mLogName fs' 1 = none) ∧
      ∃ calls, CLog.Keeps refuses mLogName fs fs' calls [] ∧
        (done = false ↔ ∃ r ∈ calls, r.done = false) := by
  obtain ⟨max, hmax, hle, hfull, hgap⟩ := findLogs_eq mLogName fs 998
    (i := 0) rfl (by omega)
  rw [CLog.renameOldLogs, hmax] at h
  obtain hlt | rfl := Nat.lt_or_eq_of_le hle
  · obtain ⟨hmoved, hone, calls, hcalls, hover, hfail⟩ :=
      shiftLogs_cases max (by omega) (hgap hlt) h
    refine ⟨hmoved.zero_eq, hone, calls, (keeps_refl ..).append hcalls hover ?_, hfail⟩
    rw [hmoved.present_eq (hgap hlt) (by omega), List.nil_append]
  · exact shiftLogs_full hfull h

theorem slots_append (lines : List Str) : CLog.slots mLogName (fs.append mLogName lines) =
    Function.update (CLog.slots mLogName fs) 0
      (some ((CLog.slots mLogName fs 0).getD [] ++ lines)) := by
  have hzero : CLog.slots mLogName fs 0 = fs.files mLogName := rfl
  funext j
  by_cases hj : j < 1000
  · have hname : CLog.logName mLogName j = mLogName ↔ j = 0 :=
      ⟨fun h => logName_inj hj (by omega) (h.trans logName_zero.symm), fun h => h ▸ rfl⟩
    simp only [CLog.slots, FileSystem.append, Function.update_apply, if_pos hj, hname,
      if_pos (show 0 < 1000 by omega), logName_zero]
  · rw [Function.update_of_ne (by omega)]
    simp only [CLog.slots, if_neg hj]

/-- Lines that are appended to the log stand behind all the others. -/
theorem lines_append (lines : List Str) :
    (present 1000 (CLog.slots mLogName (fs.append mLogName lines))).reverse.flatten =
      (present 1000 (CLog.slots mLogName fs)).reverse.flatten ++ lines := by
  rw [slots_append, present_zero_succ 999, present_zero_succ 999 (CLog.slots mLogName fs),
    Function.update_self]
  simp only [Function.update_of_ne (Nat.succ_ne_zero _), List.reverse_append, List.flatten_append]
  rcases CLog.slots mLogName fs 0 with _ | lines' <;> simp

/-- Opening the log makes a new one if there is none, and changes nothing else. -/
theorem openLog_cases (opens : Bool) (c : CLog) : (c.openLog opens).mLogName = c.mLogName ∧
    (c.openLog opens).fs.renames = c.fs.renames ∧ ∃ fresh, (fresh = [] ∨ fresh = [[]]) ∧
      present 1000 (CLog.slots c.mLogName (c.openLog opens).fs) =
        fresh ++ present 1000 (CLog.slots c.mLogName c.fs) := by
  unfold CLog.openLog
  split_ifs
  · exact ⟨rfl, rfl, [], .inl rfl, (List.nil_append _).symm⟩
  · refine ⟨rfl, rfl, ?_⟩
    dsimp only
    rw [slots_append, present_zero_succ 999, present_zero_succ 999 (CLog.slots c.mLogName c.fs),
      Function.update_self]
    simp only [Function.update_of_ne (Nat.succ_ne_zero _)]
    rcases CLog.slots c.mLogName c.fs 0 with _ | lines
    · exact ⟨[[]], .inr rfl, by simp⟩
    · exact ⟨[], .inl rfl, by simp⟩
  · exact ⟨rfl, rfl, [], .inl rfl, (List.nil_append _).symm⟩

theorem rotateBySize_mLogName (refuses : ℕ → Bool) (opens : Bool) (c : CLog) :
    (c.rotateBySize refuses opens).mLogName = c.mLogName := by
  unfold CLog.rotateBySize
  split_ifs
  · exact (openLog_cases opens c).1
  · rfl
  · split
    · rfl
    · exact (openLog_cases opens _).1

/-- A rotation overwrites no log but the oldest, and keeps the others in their order. The oldest
is lost only if all the others were there and it was overwritten, whether or not one of the later
calls was refused. -/
theorem rotateBySize_keeps (refuses : ℕ → Bool) (opens : Bool) (c : CLog) :
    ∃ calls fresh, (fresh = [] ∨ fresh = [[]]) ∧
      CLog.Keeps refuses c.mLogName c.fs (c.rotateBySize refuses opens).fs calls fresh ∧
      ((∃ r ∈ calls, r.done = false) → ¬ CLog.DropsOldest refuses c.mLogName c.fs →
        (c.rotateBySize refuses opens).logs = fresh ++ c.logs) := by
  suffices h : ∃ calls fresh, (fresh = [] ∨ fresh = [[]]) ∧
      CLog.Keeps refuses c.mLogName c.fs (c.rotateBySize refuses opens).fs calls fresh by
    obtain ⟨calls, fresh, hfresh, hkeeps⟩ := h
    refine ⟨calls, fresh, hfresh, hkeeps, fun _ hdrops => ?_⟩
    have hlost := hkeeps.lost.resolve_right fun h => hdrops h.1
    have horder := hkeeps.order
    rw [hlost, List.append_nil] at horder
    unfold CLog.logs CLog.log
    rw [rotateBySize_mLogName]
    exact horder
  unfold CLog.rotateBySize
  split_ifs
  · obtain ⟨-, hrenames, fresh, hfresh, hlogs⟩ := openLog_cases opens c
    refine ⟨[], fresh, hfresh, (keeps_refl ..).append (hrenames.trans ?_) (by simp) hlogs⟩
    exact (List.append_nil _).symm
  · exact ⟨[], [], .inl rfl, keeps_refl ..⟩
  · rcases hold : CLog.renameOldLogs refuses c.mLogName c.fs with ⟨fs₁, done⟩
    obtain ⟨-, hone, calls, hkeeps, -⟩ := renameOldLogs_cases hold
    cases done with
    | false => exact ⟨calls, [], .inl rfl, hkeeps⟩
    | true =>
      rcases hlast : fs₁.rename refuses c.mLogName (CLog.logName c.mLogName 1) with ⟨fs₂, done₂⟩
      dsimp only
      rw [hlast]
      obtain ⟨-, hrenames, fresh, hfresh, hlogs⟩ :=
        openLog_cases opens { c with isOpen := false, fs := fs₂ }
      obtain ⟨-, -, hslots, hcalls⟩ | ⟨-, hslots, hcalls⟩ :=
        rename_next_cases (i := 0) (by omega) hlast
      · refine ⟨_, fresh, hfresh, hkeeps.append (hrenames.trans hcalls) ?_ (hlogs.trans ?_)⟩
        · exact fun r hr => List.mem_singleton.1 hr ▸ hone rfl
        · rw [hslots, present_moveUp (hone rfl) (by omega)]
      · refine ⟨_, fresh, hfresh, hkeeps.append (hrenames.trans hcalls) ?_ (hlogs.trans ?_)⟩
        · exact fun r hr => List.mem_singleton.1 hr ▸ rfl
        · rw [hslots]

/-- A shift whose first rename is done and whose second is refused. -/
theorem shiftLogs_refused (refuses : ℕ → Bool) (fs : FileSystem) {i : ℕ} {lines : List Str}
    (hfirst : refuses fs.renames.length = false)
    (hsecond : refuses (fs.renames.length + 1) = true)
    (hlines : fs.files (CLog.logName mLogName (i + 2)) = some lines) :
    ∃ fs', CLog.shiftLogs refuses mLogName (i + 2) fs = (fs', false) ∧
      fs'.files = Function.update (Function.update fs.files (CLog.logName mLogName (i + 2)) none)
        (CLog.logName mLogName (i + 3)) (some lines) ∧
      ∃ overwritten, fs'.renames = fs.renames ++ [⟨CLog.logName mLogName (i + 2),
        CLog.logName mLogName (i + 3), true, overwritten⟩, ⟨CLog.logName mLogName (i + 1),
        CLog.logName mLogName (i + 2), false, none⟩] := by
  simp only [CLog.shiftLogs, FileSystem.rename, hfirst, hlines, List.length_append,
    List.length_singleton, hsecond]
  exact ⟨_, rfl, rfl, _, List.append_assoc ..⟩

theorem rotateBySize_of_refused {c : CLog} (hopen : ¬ c.mLogLine < 0)
    (hfull : ¬ c.mLogLine < c.mLogMaxLine)
    (hold : CLog.renameOldLogs refuses c.mLogName c.fs = (fs', false)) (opens : Bool) :
    c.rotateBySize refuses opens = { c with fs := fs' } := by
  rw [CLog.rotateBySize, if_neg hopen, if_neg hfull, hold]

/-- All the suffixes are in use, and the log is full. -/
def fullLogs : CLog where
  mLogName := ascii "log"
  mLogLine := LOG_MAX_LINE
  isOpen := true
  fs := { files := fun name =>
    if name = CLog.logName (ascii "log") 999 then some [ascii "oldest"]
    else if (List.range 999).any fun i => CLog.logName (ascii "log") i = name then
      some [ascii "younger"]
    else none }

theorem fullLogs_files {i : ℕ} (hi : i < 999) :
    fullLogs.fs.files (CLog.logName fullLogs.mLogName i) = some [ascii "younger"] := by
  have hne : CLog.logName (ascii "log") i ≠ CLog.logName (ascii "log") 999 := fun h =>
    absurd (logName_inj (by omega) (by omega) h) (by omega)
  dsimp only [fullLogs]
  rw [if_neg hne]
  exact if_pos (List.any_eq_true.2 ⟨i, List.mem_range.2 hi, decide_eq_true rfl⟩)

/-- A log is lost, and not only moved, when the second of the renames is refused. -/
theorem rotateBySize_loses : ¬ ∀ (refuses : ℕ → Bool) (opens : Bool) (c : CLog) (r : Rename),
    r ∈ (c.rotateBySize refuses opens).fs.renames.drop c.fs.renames.length → r.done = false →
      ∀ lines ∈ c.logs, lines ∈ (c.rotateBySize refuses opens).logs := by
  obtain ⟨max, hmax, hle, -, hgap⟩ := findLogs_eq fullLogs.mLogName fullLogs.fs 998
    (i := 0) rfl (by omega)
  obtain rfl : max = 998 := by
    by_contra hne
    have hfree := hgap (by omega)
    rw [CLog.slots, if_pos (by omega), fullLogs_files (by omega)] at hfree
    cases hfree
  obtain ⟨fs', hshift, hfiles, overwritten, hrenames⟩ := shiftLogs_refused (· == 1) fullLogs.fs
    (i := 996) rfl rfl (fullLogs_files (by omega))
  have hold : CLog.renameOldLogs (· == 1) fullLogs.mLogName fullLogs.fs = (fs', false) := by
    rw [CLog.renameOldLogs, hmax]
    exact hshift
  have hrotate := rotateBySize_of_refused (by decide) (by decide) hold true
  intro hkeeps
  have hmem := hkeeps (· == 1) true fullLogs ⟨CLog.logName (ascii "log") 997,
    CLog.logName (ascii "log") 998, false, none⟩ ?_ rfl [ascii "oldest"]
    (mem_present.2 ⟨999, by omega, rfl⟩)
  · rw [hrotate] at hmem
    obtain ⟨j, hj, hslot⟩ := mem_present.1 hmem
    simp only [CLog.log, CLog.slots, if_pos hj, hfiles, Function.update_apply] at hslot
    split_ifs at hslot with h999 h998
    · exact absurd hslot (by decide)
    · simp only [fullLogs] at hslot h999
      rw [if_neg h999] at hslot
      split_ifs at hslot
      exact absurd hslot (by decide)
  · rw [hrotate]
    change _ ∈ fs'.renames
    rw [hrenames]
    exact .tail _ (.head _)

/-- A step loses no line but those of an overwritten log, and writes what it writes behind the
others. -/
theorem step_keeps (refuses : ℕ → Bool) (c : CLog) (l : CLog.Step) :
    (c.step refuses l).mLogName = c.mLogName ∧
      ∃ calls written, (c.step refuses l).fs.renames = c.fs.renames ++ calls ∧
        (∀ r ∈ calls, r.overwritten ≠ none → r.new = CLog.logName c.mLogName 999) ∧
        (calls.filterMap Rename.overwritten).flatten ++ (c.step refuses l).text =
          c.text ++ written ∧
        written.Sublist l.line?.toList := by
  cases l with
  | rotate opens =>
    have hname := rotateBySize_mLogName refuses opens c
    obtain ⟨calls, fresh, hfresh, hkeeps, -⟩ := rotateBySize_keeps refuses opens c
    refine ⟨hname, calls, [], hkeeps.renames, hkeeps.overwrites, ?_, List.Sublist.refl _⟩
    have hlost : (calls.filterMap Rename.overwritten).reverse =
        calls.filterMap Rename.overwritten := by
      obtain h | ⟨-, h⟩ := hkeeps.lost
      · rw [h, List.reverse_nil]
      · rw [h]
        cases CLog.slots c.mLogName c.fs 999 <;> rfl
    have hfresh : fresh.reverse.flatten = [] := by
      rcases hfresh with rfl | rfl <;> rfl
    have horder := congrArg (fun logs => logs.reverse.flatten) hkeeps.order
    simp only [List.reverse_append, List.flatten_append, hlost, hfresh] at horder
    rw [← hname] at horder
    exact horder.trans (by rw [hname]; rfl)
  | output line =>
    refine ⟨rfl, [], if c.isOpen && c.good then [line] else [], ?_, by simp, ?_, ?_⟩
    · simp only [CLog.step, CLog.output, List.append_nil]
      split_ifs <;> rfl
    · simp only [CLog.step, CLog.output, List.filterMap_nil, List.flatten_nil, List.nil_append]
      split_ifs
      · exact lines_append [line]
      · exact (List.append_nil _).symm
    · split_ifs
      · exact List.Sublist.refl _
      · exact List.nil_sublist _

/-- Along a run the lines stay as they were written, but for those of the overwritten logs. -/
theorem run_keeps (refuses : ℕ → Bool) (steps : List CLog.Step) {c c' : CLog}
    (hrun : (Machine.total (CLog.step refuses)).run c steps = some c') :
    c'.mLogName = c.mLogName ∧
      ∃ calls written, c'.fs.renames = c.fs.renames ++ calls ∧
        (∀ r ∈ calls, r.overwritten ≠ none → r.new = CLog.logName c.mLogName 999) ∧
        (calls.filterMap Rename.overwritten).flatten ++ c'.text = c.text ++ written ∧
        written.Sublist (steps.filterMap CLog.Step.line?) := by
  induction steps generalizing c with
  | nil =>
    obtain rfl := Option.some.inj hrun
    exact ⟨rfl, [], [], by simp, by simp, by simp, List.Sublist.refl _⟩
  | cons l steps ih =>
    obtain ⟨hname, calls, written, hcalls, hover, htext, hwritten⟩ := step_keeps refuses c l
    obtain ⟨hname', calls', written', hcalls', hover', htext', hwritten'⟩ := ih hrun
    refine ⟨hname'.trans hname, calls ++ calls', written ++ written', ?_, ?_, ?_, ?_⟩
    · rw [hcalls', hcalls, List.append_assoc]
    · rw [hname] at hover'
      exact fun r hr => (List.mem_append.1 hr).elim (hover r) (hover' r)
    · rw [List.filterMap_append, List.flatten_append, List.append_assoc, htext',
        ← List.append_assoc, htext, List.append_assoc]
    · rw [show l :: steps = [l] ++ steps from rfl, List.filterMap_append]
      exact (hwritten.append hwritten')

end Rotation

end Longda
