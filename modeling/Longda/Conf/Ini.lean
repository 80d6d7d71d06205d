import Longda.Lang.Strip
import Longda.Lib.OrderedMap

/-!
# Configuration files

`CIni` keeps a map from keys to values for each section. `load` reads a file line by line through a
buffer of `MAX_CFG_LINE_LEN` bytes. A file is what can be read of it, if it can be opened. A key or
a value without a character that is no blank is stripped as `stripString` does it, which is no
result, and then there is none of `load`.
-/

namespace Longda

open Lib

/-- The bytes that come before the end of a file, or before a read fails. -/
structure FileData where
  data : Str
  broken : Bool := false

/-- The files by name; those that are missing cannot be opened. -/
abbrev IniFiles := Str → Option FileData

abbrev Section := OrderedMap Str Str

namespace CIni

def DEFAULT_SECTION : Str := []
def MAX_CFG_LINE_LEN : ℕ := 1024
def CFG_DELIMIT_TAG : UInt8 := 44
def CFG_COMMENT_TAG : UInt8 := 35
def CFG_CONTINUE_TAG : UInt8 := 92
def CFG_SESSION_START_TAG : UInt8 := 91
def CFG_SESSION_END_TAG : UInt8 := 93

end CIni

structure CIni where
  mFileNames : OrderedMap Str Unit := .empty
  mSections : OrderedMap Str Section := .empty

namespace CIni

def insertSession (ini : CIni) (sessionName : Str) : CIni :=
  { ini with mSections := ini.mSections.insert sessionName .empty }

/-- The section that is switched to goes by its name. -/
def switchSession (ini : CIni) (sessionName : Str) : CIni :=
  if (ini.mSections.find? sessionName).isSome then ini else ini.insertSession sessionName

/-- The section, or the empty one. -/
def getSection (ini : CIni) (sect : Str) : Section := (ini.mSections.find? sect).getD .empty

def get (ini : CIni) (key defaultValue sect : Str) : Str :=
  ((ini.getSection sect).find? key).getD defaultValue

/-- `insert`, which leaves a value that is there already. -/
def put (ini : CIni) (key value sect : Str) : CIni :=
  let ini := ini.switchSession sect
  { ini with mSections := ini.mSections.set sect ((ini.getSection sect).insert key value) }

/-- `insertEntry`: the map, or `some none` where it returns -1. There is no result where the key or
the value is stripped outside the string. -/
def insertEntry (sessionMap : Section) (line : Str) : Option (Option Section) :=
  match line.dropWhile (· ≠ 61) with
  | [] => some none
  | _ :: value => do
    let key ← CLstring.stripString (line.takeWhile (· ≠ 61))
    let value ← CLstring.stripString value
    some (some (sessionMap.insert key value))

/-- `ifs.getline` into a buffer with room for `room` bytes and a NUL: the line, and what is left if
the stream is still good. -/
def getline : ℕ → Str → Str × Option Str
  | _, [] => ([], none)
  | room, c :: cs =>
    if c = 10 then ([], some cs)
    else match room with
      | 0 => ([], none)
      | room + 1 => ((getline room cs).1.cons c, (getline room cs).2)

/-- The variables of `load`. -/
structure Loading where
  ini : CIni
  continueLastLine : Bool := false
  currentSession : Str := DEFAULT_SECTION
  lineEntry : Str := []

namespace Loading

/-- `insertEntry(currentSession, lineEntry)`, whose return value is not used. -/
def insertEntry (st : Loading) : Option Loading :=
  (CIni.insertEntry (st.ini.getSection st.currentSession) st.lineEntry).map fun
    | none => st
    | some sessionMap =>
      { st with ini.mSections := st.ini.mSections.set st.currentSession sessionMap }

/-- The body of the loop with a line in the buffer. -/
def line (st : Loading) (line : Str) : Option Loading :=
  match CLstring.strip (line.takeWhile (· ≠ 0)) with
  | [] => some st
  | c :: cs =>
    let last := (c :: cs).getLast (List.cons_ne_nil c cs)
    if c = CFG_COMMENT_TAG then some st
    else if c = CFG_SESSION_START_TAG ∧ last = CFG_SESSION_END_TAG then
      some { st with ini := st.ini.switchSession cs.dropLast, currentSession := cs.dropLast }
    else
      let lineEntry := if st.continueLastLine then st.lineEntry ++ c :: cs else c :: cs
      -- the source means to remove the tag, and leaves a NUL in its place
      if last = CFG_CONTINUE_TAG then
        some { st with continueLastLine := true, lineEntry := lineEntry.dropLast ++ [0] }
      else { st with continueLastLine := false, lineEntry := lineEntry }.insertEntry

/-- The loop, which takes a line each turn. -/
def loop (st : Loading) : ℕ → Str → Option Loading
  | 0, _ => some st
  | turns + 1, rest =>
    match getline (MAX_CFG_LINE_LEN - 1) rest with
    | (line, none) => st.line line
    | (line, some rest) => (st.line line).bind fun st => st.loop turns rest

end Loading

/-- `load`. A stream that is not good after `open` is not read; each turn of the loop but the last
takes a newline, so that the turns are enough. -/
def load (files : IniFiles) (ini : CIni) (fileName : Str) : Option (ℤ × CIni) :=
  let st : Loading := { ini := ini.switchSession DEFAULT_SECTION }
  let st := match files fileName with
    | none => some st
    | some file => st.loop (file.data.length + 1) file.data
  st.map fun st => (0, { st.ini with mFileNames := st.ini.mFileNames.insert fileName () })

end CIni

end Longda
