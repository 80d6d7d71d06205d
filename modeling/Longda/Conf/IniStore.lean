import Longda.Conf.IniRules

/-!
# The store

What is put, and each entry that is loaded, gives a key of a section a value. A `Cursor` goes
through a file as `load` does and tells the values given, whatever is stored. The store keeps the
first value that a key is given, as `insert` does not replace it (`value?_put`, `value?_load`);
what it is documented to tell is the latest. There is no result of a load that gives a blank key or
a blank value (`load_isSome_iff`).
-/

namespace Longda

open Lib

namespace CIni

/-- A section and a key, with the value given. -/
abbrev Assignment := (Str × Str) × Str

/-- Neither the key nor the value is blank. -/
def Assignment.Filled (a : Assignment) : Prop := a.1.2 ≠ [] ∧ a.2 ≠ []

/-- The value under a key of a section. -/
def value? (ini : CIni) (e : Str × Str) : Option Str := (ini.getSection e.1).find? e.2

/-- The variables of `load` but for the object. -/
structure Cursor where
  continueLastLine : Bool := false
  currentSession : Str := DEFAULT_SECTION
  lineEntry : Str := []
  deriving DecidableEq

namespace Cursor

def opened (c : Cursor) : Str := if c.continueLastLine then c.lineEntry else []

/-- What a line does to the variables, and what it gives. -/
def line (c : Cursor) (line : Str) : Cursor × List Assignment :=
  match IniLine.parse (line.takeWhile (· ≠ 0)) with
  | .skip => (c, [])
  | .header name => ({ c with currentSession := name }, [])
  | .entry text =>
    let lineEntry := c.opened ++ text
    if text.getLast? = some CFG_CONTINUE_TAG then
      ({ c with continueLastLine := true, lineEntry := lineEntry.dropLast ++ [0] }, [])
    else
      ({ c with continueLastLine := false, lineEntry },
        if 61 ∈ lineEntry then [((c.currentSession, keyOf lineEntry), valueOf lineEntry)] else [])

/-- What the loop gives. -/
def loop (c : Cursor) : ℕ → Str → List Assignment
  | 0, _ => []
  | turns + 1, rest =>
    match getline (MAX_CFG_LINE_LEN - 1) rest with
    | (line, none) => (c.line line).2
    | (line, some rest) => (c.line line).2 ++ (c.line line).1.loop turns rest

end Cursor

/-- What `load` gives. -/
def loaded (files : IniFiles) (fileName : Str) : List Assignment :=
  match files fileName with
  | none => []
  | some file => Cursor.loop {} (file.data.length + 1) file.data

end CIni

open CIni

/-! ## The first value stands -/

section Values

variable (ini : CIni) (e : Str × Str)

theorem value?_switchSession (name : Str) : (ini.switchSession name).value? e = ini.value? e := by
  unfold value? getSection
  rw [switchSession_mSections, OrderedMap.find?_insert]
  split_ifs with h
  · rw [← h]
    cases ini.mSections.find? e.1 <;> rfl
  · rfl

theorem lookup_singleton (e e' : Str × Str) (v : Str) :
    [(e', v)].lookup e = if e = e' then some v else none := by
  rw [List.lookup_cons]
  split_ifs with h
  · rw [beq_iff_eq.2 h]
  · rw [beq_eq_false_iff_ne.2 h, List.lookup_nil]

theorem value?_insert (sect key value : Str) :
    CIni.value? { ini with
        mSections := ini.mSections.set sect ((ini.getSection sect).insert key value) } e =
      (ini.value? e).or ([((sect, key), value)].lookup e) := by
  obtain ⟨s, k⟩ := e
  unfold value?
  rw [getSection, OrderedMap.find?_set, lookup_singleton]
  by_cases hs : s = sect
  · subst hs
    rw [if_pos rfl, Option.getD_some, OrderedMap.find?_insert]
    by_cases hk : k = key
    · subst hk
      cases h : (ini.getSection s).find? k <;> simp
    · simp [hk]
  · simp [hs, getSection]

theorem value?_put (key value sect : Str) :
    (ini.put key value sect).value? e = (ini.value? e).or ([((sect, key), value)].lookup e) := by
  unfold put
  rw [value?_insert, value?_switchSession]

end Values

def CIni.Loading.cursor (st : Loading) : Cursor where
  continueLastLine := st.continueLastLine
  currentSession := st.currentSession
  lineEntry := st.lineEntry

/-- What the entry that is closed gives. -/
def CIni.Loading.closes (st : Loading) : List Assignment :=
  if 61 ∈ st.lineEntry then
    [((st.currentSession, keyOf st.lineEntry), valueOf st.lineEntry)]
  else []

theorem insertEntry_isSome_iff (st : Loading) :
    st.insertEntry.isSome ↔ ∀ a ∈ st.closes, a.Filled := by
  rw [loading_insertEntry_eq, Loading.closes]
  split_ifs with h61 hfilled
  · rw [List.forall_mem_singleton]
    exact iff_of_true rfl hfilled
  · rw [List.forall_mem_singleton]
    exact iff_of_false (by simp) hfilled
  · simp

theorem cursor_insertEntry {st st' : Loading} (h : st.insertEntry = some st') :
    st'.cursor = st.cursor := by
  rw [loading_insertEntry_eq] at h
  split_ifs at h <;> exact Option.some.inj h ▸ rfl

theorem value?_insertEntry {st st' : Loading} (h : st.insertEntry = some st') (e : Str × Str) :
    st'.ini.value? e = (st.ini.value? e).or (st.closes.lookup e) := by
  rw [loading_insertEntry_eq] at h
  unfold Loading.closes
  split_ifs at h ⊢
  · exact Option.some.inj h ▸ value?_insert ..
  · exact Option.some.inj h ▸ (Option.or_none).symm

/-- There is a result of a line if neither the key nor the value that it gives is blank. -/
theorem line_isSome_iff (st : Loading) (l : Str) :
    (st.line l).isSome ↔ ∀ a ∈ (st.cursor.line l).2, a.Filled := by
  rw [line_eq_parse]
  unfold Cursor.line
  rcases IniLine.parse (l.takeWhile (· ≠ 0)) with _ | name | text
  · simp
  · simp
  · dsimp only
    by_cases hlast : text.getLast? = some CFG_CONTINUE_TAG
    · rw [if_pos hlast, if_pos hlast]
      simp
    · rw [if_neg hlast, if_neg hlast]
      exact insertEntry_isSome_iff (st.closing text)

theorem cursor_line {st st' : Loading} {l : Str} (h : st.line l = some st') :
    st'.cursor = (st.cursor.line l).1 := by
  rw [line_eq_parse] at h
  unfold Cursor.line
  rcases hparse : IniLine.parse (l.takeWhile (· ≠ 0)) with _ | name | text <;> rw [hparse] at h
  · exact Option.some.inj h ▸ rfl
  · exact Option.some.inj h ▸ rfl
  · dsimp only at h ⊢
    by_cases hlast : text.getLast? = some CFG_CONTINUE_TAG
    · rw [if_pos hlast] at h ⊢
      exact Option.some.inj h ▸ rfl
    · rw [if_neg hlast] at h ⊢
      exact cursor_insertEntry h

/-- A line adds what it gives to the values. -/
theorem value?_line {st st' : Loading} {l : Str} (h : st.line l = some st') (e : Str × Str) :
    st'.ini.value? e = (st.ini.value? e).or ((st.cursor.line l).2.lookup e) := by
  rw [line_eq_parse] at h
  unfold Cursor.line
  rcases hparse : IniLine.parse (l.takeWhile (· ≠ 0)) with _ | name | text <;> rw [hparse] at h
  · exact Option.some.inj h ▸ (Option.or_none).symm
  · obtain rfl := Option.some.inj h
    dsimp only
    rw [value?_switchSession]
    exact (Option.or_none).symm
  · dsimp only at h ⊢
    by_cases hlast : text.getLast? = some CFG_CONTINUE_TAG
    · rw [if_pos hlast] at h ⊢
      exact Option.some.inj h ▸ (Option.or_none).symm
    · rw [if_neg hlast] at h ⊢
      exact value?_insertEntry h e

theorem loop_isSome_iff (st : Loading) (turns : ℕ) (rest : Str) :
    (st.loop turns rest).isSome ↔ ∀ a ∈ st.cursor.loop turns rest, a.Filled := by
  induction turns generalizing st rest with
  | zero => simp [Loading.loop, Cursor.loop]
  | succ turns ih =>
    unfold Loading.loop Cursor.loop
    rcases getline (MAX_CFG_LINE_LEN - 1) rest with ⟨l, _ | rest⟩
    · exact line_isSome_iff st l
    · dsimp only
      have hline := line_isSome_iff st l
      rw [List.forall_mem_append, ← hline]
      rcases hst : st.line l with _ | st'
      · simp
      · rw [Option.bind_some, ih, cursor_line hst]
        simp

theorem value?_loop {st st' : Loading} {turns : ℕ} {rest : Str}
    (h : st.loop turns rest = some st') (e : Str × Str) :
    st'.ini.value? e = (st.ini.value? e).or ((st.cursor.loop turns rest).lookup e) := by
  induction turns generalizing st rest with
  | zero => exact Option.some.inj h ▸ (Option.or_none).symm
  | succ turns ih =>
    unfold Loading.loop at h
    unfold Cursor.loop
    rcases hget : getline (MAX_CFG_LINE_LEN - 1) rest with ⟨l, _ | rest⟩
    · rw [hget] at h
      exact value?_line h e
    · rw [hget] at h
      obtain ⟨u, hu, h⟩ := Option.bind_eq_some_iff.1 h
      dsimp only
      rw [ih h, value?_line hu, cursor_line hu, List.lookup_append, Option.or_assoc]

/-- There is a result of `load` exactly if no key and no value that it gives is blank. -/
theorem load_isSome_iff (files : IniFiles) (ini : CIni) (fileName : Str) :
    (load files ini fileName).isSome ↔ ∀ a ∈ loaded files fileName, a.Filled := by
  unfold load loaded
  rw [Option.isSome_map]
  rcases files fileName with _ | file
  · simp
  · exact loop_isSome_iff _ _ _

/-- A load adds what it gives to the values. -/
theorem value?_load {files : IniFiles} {ini ini' : CIni} {fileName : Str} {rc : ℤ}
    (h : load files ini fileName = some (rc, ini')) (e : Str × Str) :
    ini'.value? e = (ini.value? e).or ((loaded files fileName).lookup e) := by
  unfold load at h
  unfold loaded
  obtain ⟨st, hst, heq⟩ := Option.map_eq_some_iff.1 h
  obtain rfl := (Prod.mk.inj heq).2
  rcases hfile : files fileName with _ | file
  · rw [hfile] at hst
    obtain rfl := Option.some.inj hst
    exact (value?_switchSession ini e _).trans (Option.or_none).symm
  · rw [hfile] at hst
    refine (value?_loop hst e).trans ?_
    rw [value?_switchSession]
    rfl

/-! ## The latest value -/

/-- What changes the values. -/
inductive StoreOp where
  | put (key value sect : Str)
  | load (files : IniFiles) (fileName : Str)

namespace StoreOp

def run (ini : CIni) : StoreOp → Option CIni
  | put key value sect => some (ini.put key value sect)
  | load files fileName => (CIni.load files ini fileName).map (·.2)

/-- The values given. -/
def gives : StoreOp → List Assignment
  | put key value sect => [((sect, key), value)]
  | load files fileName => loaded files fileName

/-- No key and no value that is loaded is blank. -/
def Filled : StoreOp → Prop
  | put .. => True
  | load files fileName => ∀ a ∈ loaded files fileName, a.Filled

end StoreOp

/-- An object with the values given so far. -/
abbrev Kept := CIni × List Assignment

/-- Puts and loads, which go on from an object only. -/
def store : Machine Kept StoreOp where
  step s op := (op.run s.1).map fun ini => (ini, s.2 ++ op.gives)

/-- The value told is the latest one given. -/
def Kept.Latest (s : Kept) : Prop :=
  ∀ key defaultValue sect,
    s.1.get key defaultValue sect = (s.2.reverse.lookup (sect, key)).getD defaultValue

/-- The value that a key has already, or else the first one it is given, is the last it is given,
and nothing that is loaded is blank. -/
def Kept.Agrees (s : Kept) (op : StoreOp) : Prop :=
  op.Filled ∧ ∀ e v, op.gives.reverse.lookup e = some v →
    (s.1.value? e).or (op.gives.lookup e) = some v

theorem run_isSome_iff (ini : CIni) (op : StoreOp) : (op.run ini).isSome ↔ op.Filled := by
  rcases op with ⟨key, value, sect⟩ | ⟨files, fileName⟩
  · exact iff_of_true rfl trivial
  · rw [StoreOp.run, Option.isSome_map]
    exact load_isSome_iff files ini fileName

theorem value?_run {ini ini' : CIni} {op : StoreOp} (h : op.run ini = some ini') (e : Str × Str) :
    ini'.value? e = (ini.value? e).or (op.gives.lookup e) := by
  rcases op with ⟨key, value, sect⟩ | ⟨files, fileName⟩
  · obtain rfl := Option.some.inj h
    exact value?_put ini e key value sect
  · obtain ⟨⟨rc, ini'⟩, hload, rfl⟩ := Option.map_eq_some_iff.1 h
    exact value?_load hload e

theorem eq_of_getD {o o' : Option Str} (h : ∀ d, o.getD d = o'.getD d) : o = o' := by
  have hne : ∀ v : Str, v ≠ v ++ [0] := fun v hv => by simpa using congrArg List.length hv
  rcases o with _ | v <;> rcases o' with _ | v'
  · rfl
  · exact absurd (h (v' ++ [0])).symm (hne v')
  · exact absurd (h (v ++ [0])) (hne v)
  · exact congrArg some (h [])

theorem latest_iff (s : Kept) : s.Latest ↔ ∀ e, s.1.value? e = s.2.reverse.lookup e :=
  ⟨fun h e => eq_of_getD fun d => h e.2 d e.1,
    fun h key defaultValue sect => congrArg (·.getD defaultValue) (h (sect, key))⟩

theorem lookup_reverse_eq_none_iff {as : List Assignment} {e : Str × Str} :
    as.reverse.lookup e = none ↔ as.lookup e = none := by
  simp [List.lookup_eq_none_iff]

/-- A step from where the latest values are told leads to such a state exactly if there is nothing
blank to load and the first value stands for the last. -/
theorem latest_step_iff {s : Kept} (h : s.Latest) (op : StoreOp) :
    (∃ t, store.step s op = some t ∧ t.Latest) ↔ s.Agrees op := by
  rw [Kept.Agrees, ← run_isSome_iff s.1 op]
  simp only [store]
  rcases hrun : op.run s.1 with _ | ini
  · simp
  · simp only [Option.map_some, Option.some.injEq, exists_eq_left', Option.isSome_some, true_and]
    rw [latest_iff] at h ⊢
    refine forall_congr' fun e => ?_
    simp only [value?_run hrun, List.reverse_append, List.lookup_append]
    rcases hlast : op.gives.reverse.lookup e with _ | v
    · rw [lookup_reverse_eq_none_iff.1 hlast, h]
      simp
    · simp

/-- A put leaves the values of all other keys. -/
theorem get_put_of_ne (ini : CIni) {key value sect key' sect' : Str} (defaultValue : Str)
    (h : (sect', key') ≠ (sect, key)) :
    (ini.put key value sect).get key' defaultValue sect' = ini.get key' defaultValue sect' := by
  have hv := value?_put ini (sect', key') key value sect
  rw [lookup_singleton, if_neg h, Option.or_none] at hv
  exact congrArg (·.getD defaultValue) hv

/-- Puts and loads have results, the latest values are told all along, and puts leave other keys as
they are, exactly if in every step there is nothing blank to load and the first value stands for the
last. -/
theorem store_law_iff (ops : List StoreOp) :
    ((store.run ({}, []) ops).isSome ∧ store.Throughout Kept.Latest ({}, []) ops ∧
      ∀ (ini : CIni) (key value sect key' defaultValue sect' : Str), (sect', key') ≠ (sect, key) →
        (ini.put key value sect).get key' defaultValue sect' =
          ini.get key' defaultValue sect') ↔
    store.Meets Kept.Agrees ({}, []) ops := by
  have hstart : Kept.Latest ({}, []) := (latest_iff _).2 fun _ => rfl
  rw [and_iff_left fun ini key value sect key' d sect' h => get_put_of_ne ini d h]
  exact store.runs_iff_meets (fun s op h => latest_step_iff h op) ops hstart

/-- The second value put under a key is not told, and there is no result of a load of a key without
a value. -/
theorem store_law_false :
    ¬ store.Throughout Kept.Latest ({}, [])
      [.put (ascii "level") (ascii "1") [], .put (ascii "level") (ascii "2") []] ∧
    store.run ({}, []) [.load (fun _ => some { data := ascii "level=" }) []] = none := by
  refine ⟨fun h => ?_, rfl⟩
  have hlast := ((h.2 _ rfl).2 _ rfl) (ascii "level") [] []
  revert hlast
  decide

end Longda
