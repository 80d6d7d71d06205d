import Longda.Conf.IniRules

/-!
# What `load` makes of a file

`load` reports success whatever happens, reads no further than a line that its buffer cannot take,
strips a blank key or value outside the string, and leaves a NUL where a tag was. So it does what
the rules say where the file can be read, each of its lines fits the buffer and each entry has an
equals sign with more than blanks on both sides, and where an entry over several lines, or one that
the file ends in, is of a key that the section already has.
-/

namespace Longda

open Lib CIni

namespace CIni

/-- `load` stays in its strings. If it reports success, the file was opened and read, each of its
lines was taken in, and the sections are those the rules make of it. -/
def LoadFaithful (files : IniFiles) (ini : CIni) (fileName : Str) : Prop :=
  ∃ rc ini', load files ini fileName = some (rc, ini') ∧ (rc = 0 → ∃ file r sections,
    files fileName = some file ∧ file.broken = false
      ∧ iniRules.run (.start ini) (file.data.splitOn 10) = some r
      ∧ r.finish = some sections ∧ ini'.mSections = sections)

end CIni

namespace IniReading

/-- The section already has the key of the entry. -/
def Has (r : IniReading) (entry : Str) : Prop :=
  (r.currentSection.find? (keyOf entry)).isSome

/-- The line fits the buffer, and if an entry is at its end there, it has an equals sign between a
key and a value that are not blank. If it has several pieces, the key and the equals sign are in the
first, and nothing is to be taken in. -/
def LineMeets (r : IniReading) (line : Str) : Prop :=
  line.length < CIni.MAX_CFG_LINE_LEN
    ∧ ∀ text, IniLine.parse line = .entry text → text.getLast? ≠ some CIni.CFG_CONTINUE_TAG →
      match r.pieces with
      | [] => 61 ∈ text ∧ Filled text
      | piece :: _ => 61 ∈ piece ∧ keyOf piece ≠ [] ∧ r.Has (r.pieces.flatten ++ text)

/-- Nothing is to be taken in at the end of the file. -/
def EndMeets (r : IniReading) : Prop :=
  r.pieces ≠ [] → 61 ∈ r.pieces.flatten ∧ r.Has r.pieces.flatten

end IniReading

/-! ## Entries with a NUL -/

/-- No entry has a NUL in its key or its value. -/
def NulFree (sections : OrderedMap Str Section) : Prop :=
  ∀ name sect, sections.find? name = some sect →
    ∀ k v, sect.find? k = some v → (0 : UInt8) ∉ k ∧ (0 : UInt8) ∉ v

theorem nulFree_insert_empty {sections : OrderedMap Str Section} (h : NulFree sections)
    (name : Str) : NulFree (sections.insert name .empty) := by
  intro n sect hn k v hv
  rw [OrderedMap.find?_insert] at hn
  split_ifs at hn with hname
  · rcases hf : sections.find? name with _ | s
    · rw [hf] at hn
      obtain rfl := Option.some.inj hn
      cases hv
    · rw [hf] at hn
      obtain rfl := Option.some.inj hn
      exact h name _ hf k v hv
  · exact h n sect hn k v hv

theorem nulFree_set_insert {sections : OrderedMap Str Section} (h : NulFree sections) (name : Str)
    {key value : Str} (hk : (0 : UInt8) ∉ key) (hv : (0 : UInt8) ∉ value) :
    NulFree (sections.set name (((sections.find? name).getD .empty).insert key value)) := by
  intro n sect hn k v hfind
  rw [OrderedMap.find?_set] at hn
  split_ifs at hn with hname
  · obtain rfl := Option.some.inj hn
    have hold : ∀ k v, ((sections.find? name).getD .empty).find? k = some v →
        (0 : UInt8) ∉ k ∧ (0 : UInt8) ∉ v := by
      rcases hf : sections.find? name with _ | s
      · intro k v hnone
        cases hnone
      · exact h name s hf
    rw [OrderedMap.find?_insert] at hfind
    split_ifs at hfind with hkey
    · rcases hf : ((sections.find? name).getD .empty).find? key with _ | u
      · rw [hf] at hfind
        obtain rfl := Option.some.inj hfind
        exact ⟨hkey ▸ hk, hv⟩
      · rw [hf] at hfind
        obtain rfl := Option.some.inj hfind
        exact hkey ▸ hold key _ hf
    · exact hold k v hfind
  · exact h n sect hn k v hfind

/-- What is in the first is in the second. -/
def Extends (sections sections' : OrderedMap Str Section) : Prop :=
  ∀ name sect k v, sections.find? name = some sect → sect.find? k = some v →
    ∃ sect', sections'.find? name = some sect' ∧ sect'.find? k = some v

theorem Extends.refl (sections : OrderedMap Str Section) : Extends sections sections :=
  fun _ sect _ _ h hk => ⟨sect, h, hk⟩

theorem Extends.trans {s₁ s₂ s₃ : OrderedMap Str Section} (h : Extends s₁ s₂)
    (h' : Extends s₂ s₃) : Extends s₁ s₃ := by
  intro name sect k v hn hk
  obtain ⟨sect', hn', hk'⟩ := h name sect k v hn hk
  exact h' name sect' k v hn' hk'

theorem NulFree.of_extends {s₁ s₂ : OrderedMap Str Section} (h : Extends s₁ s₂)
    (h₂ : NulFree s₂) : NulFree s₁ := by
  intro name sect hn k v hk
  obtain ⟨sect', hn', hk'⟩ := h name sect k v hn hk
  exact h₂ name sect' hn' k v hk'

theorem extends_insert_empty (sections : OrderedMap Str Section) (name : Str) :
    Extends sections (sections.insert name .empty) := by
  intro n sect k v hn hk
  refine ⟨sect, ?_, hk⟩
  rw [OrderedMap.find?_insert]
  split_ifs with h
  · rw [← h, hn]
    rfl
  · exact hn

theorem extends_set_insert (sections : OrderedMap Str Section) (name key value : Str) :
    Extends sections
      (sections.set name (((sections.find? name).getD .empty).insert key value)) := by
  intro n sect k v hn hk
  rw [OrderedMap.find?_set]
  split_ifs with h
  · subst h
    rw [hn]
    refine ⟨_, rfl, ?_⟩
    show (sect.insert key value).find? k = some v
    rw [OrderedMap.find?_insert]
    split_ifs with hkey
    · rw [← hkey, hk]
      rfl
    · exact hk
  · exact ⟨sect, hn, hk⟩

theorem extends_insertEntry (st : Loading) {st' : Loading} (h : st.insertEntry = some st') :
    Extends st.ini.mSections st'.ini.mSections := by
  rw [loading_insertEntry_eq] at h
  split_ifs at h
  · obtain rfl := Option.some.inj h
    exact extends_set_insert _ _ _ _
  · obtain rfl := Option.some.inj h
    exact .refl _

theorem extends_line {st st' : Loading} {l : Str} (h0 : 0 ∉ l) (h : st.line l = some st') :
    Extends st.ini.mSections st'.ini.mSections := by
  rw [line_eq h0] at h
  split at h
  · obtain rfl := Option.some.inj h
    exact .refl _
  · obtain rfl := Option.some.inj h
    show Extends _ (st.ini.switchSession _).mSections
    rw [switchSession_mSections]
    exact extends_insert_empty _ _
  · split_ifs at h
    · obtain rfl := Option.some.inj h
      exact .refl _
    · exact extends_insertEntry (st.closing _) h

theorem extends_run {st st' : Loading} {ls : List Str} (h0 : ∀ l ∈ ls, 0 ∉ l)
    (h : loadLines.run st ls = some st') : Extends st.ini.mSections st'.ini.mSections := by
  induction ls generalizing st with
  | nil => exact Option.some.inj h ▸ .refl _
  | cons l ls ih =>
    rw [Machine.run_cons, Option.bind_eq_some_iff] at h
    obtain ⟨u, hu, h⟩ := h
    exact (extends_line (h0 l List.mem_cons_self) hu).trans
      (ih (fun k hk => h0 k (List.mem_cons_of_mem l hk)) h)

/-! ## Keys and values -/

theorem keyOf_append {p : Str} (h : 61 ∈ p) (s : Str) : keyOf (p ++ s) = keyOf p := by
  unfold keyOf
  rw [List.takeWhile_append, if_neg]
  intro hlen
  have := List.takeWhile_eq_self_iff.1 ((List.takeWhile_prefix _).eq_of_length hlen) 61 h
  simp at this

theorem dropWhile_append {p : Str} (h : 61 ∈ p) (s : Str) :
    (p ++ s).dropWhile (· ≠ 61) = p.dropWhile (· ≠ 61) ++ s := by
  rw [List.dropWhile_append, if_neg]
  intro hnil
  have := List.dropWhile_eq_nil_iff.1 (List.isEmpty_iff.1 hnil) 61 h
  simp at this

/-- A NUL behind the equals sign is in the value. -/
theorem nul_mem_valueOf {p : Str} (h : 61 ∈ p) (s : Str) : 0 ∈ valueOf (p ++ 0 :: s) := by
  unfold valueOf
  rw [dropWhile_append h]
  refine CLstring.mem_strip ?_ (by decide)
  generalize hd : List.dropWhile _ p = d
  rcases d with _ | ⟨c, cs⟩
  · have := List.dropWhile_eq_nil_iff.1 hd 61 h
    simp at this
  · rw [List.cons_append, List.tail_cons]
    exact List.mem_append_right _ List.mem_cons_self

/-- A NUL before it is in the key. -/
theorem nul_mem_keyOf {p : Str} (h : 61 ∉ p) (s : Str) : 0 ∈ keyOf (p ++ 0 :: s) := by
  unfold keyOf
  refine CLstring.mem_strip ?_ (by decide)
  rw [List.takeWhile_append_of_pos, List.takeWhile_cons_of_pos (by decide)]
  · exact List.mem_append_right _ List.mem_cons_self
  · intro c hc
    have : c ≠ 61 := fun he => h (he ▸ hc)
    simpa using this

theorem nul_not_mem_keyOf {entry : Str} (h : (0 : UInt8) ∉ entry) : (0 : UInt8) ∉ keyOf entry :=
  fun hk => h ((List.takeWhile_sublist _).subset (CLstring.mem_of_mem_strip hk))

theorem nul_not_mem_valueOf {entry : Str} (h : (0 : UInt8) ∉ entry) :
    (0 : UInt8) ∉ valueOf entry := fun hv =>
  h ((List.dropWhile_sublist _).subset (List.mem_of_mem_tail (CLstring.mem_of_mem_strip hv)))

/-! ## The rules and the code, line by line -/

/-- The code has what the rules have, with a NUL behind each piece of an open entry. -/
structure LoadFollows (st : Loading) (r : IniReading) : Prop where
  sections : st.ini.mSections = r.sections
  current : st.currentSession = r.current
  opened : st.opened = r.pieces.flatMap (· ++ [0])
  present : (r.sections.find? r.current).isSome
  pieces : ∀ p ∈ r.pieces, (0 : UInt8) ∉ p

variable {st : Loading} {r r' : IniReading} {l text : Str} {ls : List Str}

theorem nul_not_mem_flatten (hp : ∀ p ∈ r.pieces, (0 : UInt8) ∉ p) (ht : (0 : UInt8) ∉ text) :
    (0 : UInt8) ∉ r.pieces.flatten ++ text := by
  intro hmem
  rcases List.mem_append.1 hmem with hmem | hmem
  · obtain ⟨p, hmem, h0⟩ := List.mem_flatten.1 hmem
    exact hp p hmem h0
  · exact ht hmem

/-- Where the section has the key, nothing is taken in. -/
theorem set_insert_of_has {sections : OrderedMap Str Section} {name key : Str} (value : Str)
    (hs : (sections.find? name).isSome)
    (hk : (((sections.find? name).getD .empty).find? key).isSome) :
    sections.set name (((sections.find? name).getD .empty).insert key value) = sections := by
  obtain ⟨sect, hsect⟩ := Option.isSome_iff_exists.1 hs
  rw [hsect] at hk ⊢
  refine OrderedMap.ext_find? fun n => ?_
  rw [OrderedMap.find?_set]
  split_ifs with hn
  · rw [hn, hsect]
    unfold OrderedMap.insert
    rw [if_pos hk]
    rfl
  · rfl

theorem find?_set_insert {sections : OrderedMap Str Section} {name key : Str} (value : Str)
    (hk : ((sections.find? name).getD .empty).find? key = none) :
    ∃ sect, (sections.set name (((sections.find? name).getD .empty).insert key value)).find? name
      = some sect ∧ sect.find? key = some value := by
  refine ⟨_, by rw [OrderedMap.find?_set, if_pos rfl], ?_⟩
  rw [OrderedMap.find?_insert, if_pos rfl, hk]
  rfl

theorem mem_flatMap_nul (pieces : List Str) :
    61 ∈ pieces.flatMap (· ++ [0]) ++ text ↔ 61 ∈ pieces.flatten ++ text := by
  simp [List.mem_flatMap, List.mem_flatten]

/-- An entry on one line is taken in by both. -/
theorem follows_close_nil (h : LoadFollows st r) (hp : r.pieces = []) (h61 : 61 ∈ text)
    (hfilled : Filled text) : ∃ r' st', r.close (r.pieces.flatten ++ text) = some r' ∧
      (st.closing text).insertEntry = some st' ∧ LoadFollows st' r' := by
  have hopen : st.opened = [] := by rw [h.opened, hp]; rfl
  have hentry : (st.closing text).lineEntry = text := by
    show st.opened ++ text = text
    rw [hopen, List.nil_append]
  unfold IniReading.close
  rw [loading_insertEntry_eq, hentry, hp, List.flatten_nil, List.nil_append, if_pos h61,
    if_pos h61, if_pos hfilled]
  refine ⟨_, _, rfl, rfl, ?_, h.current, rfl, ?_, fun p hp => absurd hp List.not_mem_nil⟩
  · unfold Loading.taken getSection IniReading.currentSection
    rw [hentry]
    dsimp only [Loading.closing]
    rw [h.sections, h.current]
  · dsimp only
    rw [OrderedMap.find?_set, if_pos rfl]
    rfl

section Several

variable {p : Str} {ps : List Str} (h : LoadFollows st r) (hp : r.pieces = p :: ps)

include h hp

theorem opened_append (text : Str) :
    st.opened ++ text = p ++ 0 :: (ps.flatMap (· ++ [0]) ++ text) := by
  rw [h.opened, hp]
  simp

omit h in
theorem flatten_append (text : Str) : r.pieces.flatten ++ text = p ++ (ps.flatten ++ text) := by
  rw [hp, List.flatten_cons, List.append_assoc]

omit hp in
theorem mem_closing (text : Str) :
    61 ∈ (st.closing text).lineEntry ↔ 61 ∈ r.pieces.flatten ++ text := by
  show 61 ∈ st.opened ++ text ↔ _
  rw [h.opened]
  exact mem_flatMap_nul _

/-- With the equals sign in the first piece the NULs are in the value. -/
theorem keyOf_closing (h61 : 61 ∈ p) (text : Str) :
    keyOf (st.closing text).lineEntry = keyOf p
      ∧ keyOf (r.pieces.flatten ++ text) = keyOf p ∧ 0 ∈ valueOf (st.closing text).lineEntry := by
  show keyOf (st.opened ++ text) = _ ∧ _ ∧ 0 ∈ valueOf (st.opened ++ text)
  rw [opened_append h hp, flatten_append hp, keyOf_append h61, keyOf_append h61]
  exact ⟨rfl, rfl, nul_mem_valueOf h61 _⟩

/-- An entry on several lines of a key that is there leaves the section to both. -/
theorem follows_close_cons (h61 : 61 ∈ p) (hne : keyOf p ≠ [])
    (hhas : r.Has (r.pieces.flatten ++ text)) :
    ∃ r' st', r.close (r.pieces.flatten ++ text) = some r' ∧
      (st.closing text).insertEntry = some st' ∧ LoadFollows st' r' := by
  have hmem : 61 ∈ r.pieces.flatten ++ text := by
    rw [flatten_append hp]
    exact List.mem_append_left _ h61
  obtain ⟨hkey, hkey', hnul⟩ := keyOf_closing h hp h61 text
  have hfilled : Filled (st.closing text).lineEntry := ⟨hkey ▸ hne, List.ne_nil_of_mem hnul⟩
  have hsame := fun value => set_insert_of_has value h.present hhas
  unfold IniReading.close
  rw [loading_insertEntry_eq, if_pos hmem, if_pos ((mem_closing h text).2 hmem), if_pos hfilled]
  refine ⟨_, _, rfl, rfl, ?_, h.current, rfl, ?_, fun p hp => absurd hp List.not_mem_nil⟩
  · unfold Loading.taken getSection IniReading.currentSection
    rw [hkey, ← hkey']
    dsimp only [Loading.closing]
    rw [h.sections, h.current, hsame, hsame]
  · dsimp only
    rw [OrderedMap.find?_set, if_pos rfl]
    rfl

/-- Of any other key it leaves a NUL behind. -/
theorem departs_taken (hc : NulFree r.sections)
    (hm : ¬(61 ∈ p ∧ r.Has (r.pieces.flatten ++ text))) :
    ¬NulFree (st.closing text).taken.ini.mSections := by
  unfold Loading.taken getSection
  dsimp only [Loading.closing]
  rw [h.sections, h.current]
  intro hclean
  obtain ⟨sect, hsect⟩ := Option.isSome_iff_exists.1 h.present
  by_cases hfirst : 61 ∈ p
  · obtain ⟨hkey, hkey', hnul⟩ := keyOf_closing h hp hfirst text
    have hnone : r.currentSection.find? (keyOf (st.opened ++ text)) = none := by
      rw [← Option.not_isSome_iff_eq_none, show keyOf (st.opened ++ text) = _ from hkey, ← hkey']
      exact fun hsome => hm ⟨hfirst, hsome⟩
    obtain ⟨s, hs, hv⟩ := find?_set_insert (valueOf (st.opened ++ text)) hnone
    exact (hclean _ s hs _ _ hv).2 hnul
  · have hnul : (0 : UInt8) ∈ keyOf (st.opened ++ text) := by
      rw [opened_append h hp]
      exact nul_mem_keyOf hfirst _
    have hnone : ((r.sections.find? r.current).getD .empty).find? (keyOf (st.opened ++ text))
        = none := by
      rw [hsect]
      rcases hf : sect.find? (keyOf (st.opened ++ text)) with _ | v
      · exact hf
      · exact absurd hnul (hc _ sect hsect _ v hf).1
    obtain ⟨s, hs, hv⟩ := find?_set_insert (valueOf (st.opened ++ text)) hnone
    exact (hclean _ s hs _ _ hv).1 hnul

/-- What the conditions leave out is refused by the rules, strips outside the string, or leaves a
NUL behind. -/
theorem departs_close (hc : NulFree r.sections)
    (hm : ¬(61 ∈ p ∧ keyOf p ≠ [] ∧ r.Has (r.pieces.flatten ++ text))) :
    r.close (r.pieces.flatten ++ text) = none
      ∨ ∀ st', (st.closing text).insertEntry = some st' → ¬NulFree st'.ini.mSections := by
  by_cases hmem : 61 ∈ r.pieces.flatten ++ text
  · refine .inr fun st' hst' => ?_
    rw [loading_insertEntry_eq, if_pos ((mem_closing h text).2 hmem)] at hst'
    split_ifs at hst' with hfilled
    obtain rfl := Option.some.inj hst'
    refine departs_taken h hp hc fun ⟨h61, hhas⟩ => hm ⟨h61, ?_, hhas⟩
    exact (keyOf_closing h hp h61 text).1 ▸ hfilled.1
  · exact .inl (if_neg hmem)

end Several

theorem nul_not_mem_parse (h0 : (0 : UInt8) ∉ l) (hl : IniLine.parse l = .entry text) :
    (0 : UInt8) ∉ text ∧ text ≠ [] := by
  unfold IniLine.parse at hl
  split at hl
  · cases hl
  · rename_i c cs hs
    split_ifs at hl
    simp only [IniLine.entry.injEq] at hl
    subst hl
    rw [← hs]
    exact ⟨fun hmem => h0 (CLstring.mem_of_mem_strip hmem), by rw [hs]; exact List.cons_ne_nil c cs⟩

theorem clean_close (hc : NulFree r.sections) (hp : ∀ p ∈ r.pieces, (0 : UInt8) ∉ p)
    (ht : (0 : UInt8) ∉ text) (hl : r.close (r.pieces.flatten ++ text) = some r') :
    NulFree r'.sections ∧ ∀ p ∈ r'.pieces, (0 : UInt8) ∉ p := by
  unfold IniReading.close at hl
  split_ifs at hl
  obtain rfl := Option.some.inj hl
  have hentry := nul_not_mem_flatten hp ht
  exact ⟨nulFree_set_insert hc _ (nul_not_mem_keyOf hentry) (nul_not_mem_valueOf hentry),
    fun p hp => absurd hp List.not_mem_nil⟩

/-- A line that meets the conditions is the same to both. -/
theorem follows_line (h : LoadFollows st r) (h0 : (0 : UInt8) ∉ l) (hm : r.LineMeets l) :
    ∃ r' st', r.line l = some r' ∧ st.line l = some st' ∧ LoadFollows st' r' := by
  obtain ⟨hlen, hentry⟩ := hm
  unfold IniReading.line
  rw [if_neg (Nat.not_le.2 hlen), line_eq h0]
  rcases hl : IniLine.parse l with _ | name | text
  · exact ⟨r, st, rfl, rfl, h⟩
  · refine ⟨_, _, rfl, rfl, ?_, rfl, h.opened, ?_, h.pieces⟩
    · dsimp only
      rw [switchSession_mSections, h.sections]
    · dsimp only
      rw [OrderedMap.find?_insert, if_pos rfl]
      rfl
  · obtain ⟨htext, hne⟩ := nul_not_mem_parse h0 hl
    dsimp only
    split_ifs with hlast
    · refine ⟨_, _, rfl, rfl, h.sections, h.current, ?_, h.present, fun p hp => ?_⟩
      · show (st.opened ++ text).dropLast ++ [0] = _
        rw [List.dropLast_append_of_ne_nil hne, h.opened, List.flatMap_append, List.append_assoc]
        simp
      · rcases List.mem_append.1 hp with hp | hp
        · exact h.pieces p hp
        · rw [List.mem_singleton.1 hp]
          exact fun hmem => htext (List.dropLast_subset text hmem)
    · have hmeets := hentry text hl hlast
      rcases hp : r.pieces with _ | ⟨p, ps⟩
      · rw [hp] at hmeets
        rw [← hp]
        exact follows_close_nil h hp hmeets.1 hmeets.2
      · rw [hp] at hmeets
        obtain ⟨h61, hkey, hhas⟩ := hmeets
        rw [← hp] at hhas ⊢
        exact follows_close_cons h hp h61 hkey hhas

/-- An entry on one line that the conditions leave out is refused by the rules, or strips outside
the string. -/
theorem departs_close_nil (h : LoadFollows st r) (hp : r.pieces = [])
    (hm : ¬(61 ∈ text ∧ Filled text)) :
    r.close (r.pieces.flatten ++ text) = none ∨ (st.closing text).insertEntry = none := by
  have hopen : st.opened = [] := by rw [h.opened, hp]; rfl
  have hentry : (st.closing text).lineEntry = text := by
    show st.opened ++ text = text
    rw [hopen, List.nil_append]
  unfold IniReading.close
  rw [loading_insertEntry_eq, hentry, hp, List.flatten_nil, List.nil_append]
  by_cases h61 : 61 ∈ text
  · exact .inr ((if_pos h61).trans (if_neg fun hfilled => hm ⟨h61, hfilled⟩))
  · exact .inl (if_neg h61)

/-- Any other line cannot be taken in, or is not the same. -/
theorem departs_line (h : LoadFollows st r) (hc : NulFree r.sections) (h0 : (0 : UInt8) ∉ l)
    (hm : ¬r.LineMeets l) :
    r.line l = none ∨ ∀ st', st.line l = some st' → ¬NulFree st'.ini.mSections := by
  unfold IniReading.line
  split_ifs with hlen
  · exact .inl rfl
  · rw [line_eq h0]
    rcases hl : IniLine.parse l with _ | name | text
    · exact absurd ⟨Nat.not_le.1 hlen, fun text ht => by rw [hl] at ht; cases ht⟩ hm
    · exact absurd ⟨Nat.not_le.1 hlen, fun text ht => by rw [hl] at ht; cases ht⟩ hm
    · dsimp only
      split_ifs with hlast
      · refine absurd ⟨Nat.not_le.1 hlen, fun text' ht hne => ?_⟩ hm
        rw [hl, IniLine.entry.injEq] at ht
        exact absurd (ht ▸ hlast) hne
      · rcases hp : r.pieces with _ | ⟨p, ps⟩
        · rw [← hp]
          have hdeparts := departs_close_nil h hp fun hclose =>
            hm ⟨Nat.not_le.1 hlen, fun text' ht _ => by
              rw [hl, IniLine.entry.injEq] at ht
              subst ht
              rw [hp]
              exact hclose⟩
          refine hdeparts.imp_right fun hnone st' hst' => ?_
          rw [hnone] at hst'
          cases hst'
        · rw [← hp]
          refine departs_close h hp hc fun hclose => hm ⟨Nat.not_le.1 hlen, fun text' ht _ => ?_⟩
          rw [hl, IniLine.entry.injEq] at ht
          subst ht
          rw [hp] at hclose ⊢
          exact hclose

/-! ## The whole file -/

/-- The rules never put a NUL into an entry. -/
theorem clean_line (hc : NulFree r.sections) (hp : ∀ p ∈ r.pieces, (0 : UInt8) ∉ p)
    (h0 : (0 : UInt8) ∉ l) (hl : r.line l = some r') :
    NulFree r'.sections ∧ ∀ p ∈ r'.pieces, (0 : UInt8) ∉ p := by
  unfold IniReading.line at hl
  split_ifs at hl
  rcases hparse : IniLine.parse l with _ | name | text <;> rw [hparse] at hl <;> dsimp only at hl
  · obtain rfl := Option.some.inj hl
    exact ⟨hc, hp⟩
  · obtain rfl := Option.some.inj hl
    exact ⟨nulFree_insert_empty hc _, hp⟩
  · obtain ⟨htext, -⟩ := nul_not_mem_parse h0 hparse
    split_ifs at hl with hlast
    · obtain rfl := Option.some.inj hl
      refine ⟨hc, fun p hmem => ?_⟩
      rcases List.mem_append.1 hmem with hmem | hmem
      · exact hp p hmem
      · rw [List.mem_singleton.1 hmem]
        exact fun h => htext (List.dropLast_subset text h)
    · exact clean_close hc hp htext hl

theorem clean_run (h0 : ∀ l ∈ ls, (0 : UInt8) ∉ l) (hc : NulFree r.sections)
    (hp : ∀ p ∈ r.pieces, (0 : UInt8) ∉ p) (hr : iniRules.run r ls = some r') :
    NulFree r'.sections ∧ ∀ p ∈ r'.pieces, (0 : UInt8) ∉ p := by
  induction ls generalizing r with
  | nil => exact Option.some.inj hr ▸ ⟨hc, hp⟩
  | cons l ls ih =>
    rw [Machine.run_cons, Option.bind_eq_some_iff] at hr
    obtain ⟨u, hu, hr⟩ := hr
    obtain ⟨hc', hp'⟩ := clean_line hc hp (h0 l List.mem_cons_self) hu
    exact ih (fun k hk => h0 k (List.mem_cons_of_mem l hk)) hc' hp' hr

/-- Along lines that meet the conditions the code does what the rules say. -/
theorem follows_run (h : LoadFollows st r) (h0 : ∀ l ∈ ls, (0 : UInt8) ∉ l)
    (hm : iniRules.Meets IniReading.LineMeets r ls) :
    ∃ r' st', iniRules.run r ls = some r' ∧ loadLines.run st ls = some st' ∧
      LoadFollows st' r' := by
  induction ls generalizing st r with
  | nil => exact ⟨r, st, rfl, rfl, h⟩
  | cons l ls ih =>
    obtain ⟨u, v, hu, hv, hfollows⟩ := follows_line h (h0 l List.mem_cons_self) hm.1
    obtain ⟨r', st', hr, hst, hr'⟩ :=
      ih hfollows (fun k hk => h0 k (List.mem_cons_of_mem l hk)) (hm.2 u hu)
    refine ⟨r', st', ?_, ?_, hr'⟩
    · rw [Machine.run_cons]
      exact Option.bind_eq_some_iff.2 ⟨u, hu, hr⟩
    · rw [Machine.run_cons]
      exact Option.bind_eq_some_iff.2 ⟨v, hv, hst⟩

/-- Along other lines it strips outside a string or ends with a NUL, unless the rules refuse a
line. -/
theorem departs_run (h : LoadFollows st r) (hc : NulFree r.sections)
    (h0 : ∀ l ∈ ls, (0 : UInt8) ∉ l) (hm : ¬iniRules.Meets IniReading.LineMeets r ls) :
    iniRules.run r ls = none
      ∨ ∀ st', loadLines.run st ls = some st' → ¬NulFree st'.ini.mSections := by
  induction ls generalizing st r with
  | nil => exact absurd trivial hm
  | cons l ls ih =>
    have hl := h0 l List.mem_cons_self
    have hls := fun k hk => h0 k (List.mem_cons_of_mem l hk)
    rw [Machine.run_cons, Machine.run_cons]
    by_cases hline : r.LineMeets l
    · obtain ⟨u, v, hu, hv, hfollows⟩ := follows_line h hl hline
      have hrest : ¬iniRules.Meets IniReading.LineMeets u ls := fun hmeets =>
        hm ⟨hline, fun t ht => Option.some.inj (hu.symm.trans ht) ▸ hmeets⟩
      rw [show iniRules.step r l = some u from hu, show loadLines.step st l = some v from hv]
      exact ih hfollows (clean_line hc h.pieces hl hu).1 hls hrest
    · rcases departs_line h hc hl hline with hnone | hnul
      · rw [show iniRules.step r l = none from hnone]
        exact .inl rfl
      · refine .inr fun st' hst' hclean => ?_
        obtain ⟨v, hv, hst'⟩ := Option.bind_eq_some_iff.1 hst'
        exact hnul v hv (hclean.of_extends (extends_run hls hst'))

theorem line_eq_none {r : IniReading} {l : Str} (h : MAX_CFG_LINE_LEN ≤ l.length) :
    r.line l = none := if_pos h

/-- The rules take in no line that does not fit the buffer. -/
theorem fits_of_run (hr : iniRules.run r ls = some r') :
    ∀ l ∈ ls, l.length < MAX_CFG_LINE_LEN := by
  induction ls generalizing r with
  | nil => exact fun l hl => absurd hl List.not_mem_nil
  | cons k ls ih =>
    rw [Machine.run_cons, Option.bind_eq_some_iff] at hr
    obtain ⟨u, hu, hr⟩ := hr
    intro l hl
    rcases List.mem_cons.1 hl with rfl | hl
    · by_contra hlen
      rw [show iniRules.step r l = none from line_eq_none (Nat.not_lt.1 hlen)] at hu
      cases hu
    · exact ih hr l hl

/-- At the end of the file the code drops what is open. -/
theorem finish_iff (h : LoadFollows st r) :
    r.finish = some st.ini.mSections ↔ r.EndMeets := by
  unfold IniReading.finish IniReading.EndMeets
  rw [h.sections]
  split_ifs with hp
  · exact iff_of_true rfl fun hne => absurd hp hne
  · rw [forall_prop_of_true hp]
    unfold IniReading.close
    split_ifs with h61
    · rw [Option.map_some, Option.some.injEq, and_iff_right h61]
      constructor
      · intro heq
        by_contra hhas
        have hnone : r.currentSection.find? (keyOf r.pieces.flatten) = none :=
          Option.not_isSome_iff_eq_none.1 hhas
        obtain ⟨s, hs, hv⟩ := find?_set_insert (valueOf r.pieces.flatten) hnone
        have hs' : r.sections.find? r.current = some s := heq ▸ hs
        unfold IniReading.currentSection at hnone
        rw [hs'] at hnone
        exact absurd (hnone.symm.trans hv) (by simp)
      · exact set_insert_of_has _ h.present
    · exact iff_of_false (by simp) fun hc => h61 hc.1

theorem nul_not_mem_splitOn {data : Str} (h : (0 : UInt8) ∉ data) :
    ∀ l ∈ data.splitOn 10, (0 : UInt8) ∉ l := by
  induction data with
  | nil => simp
  | cons c cs ih =>
    rw [List.mem_cons, not_or] at h
    have ih := ih h.2
    rw [List.splitOn_cons_eq_if_modifyHead]
    split_ifs
    · simpa using ih
    · rcases hs : cs.splitOn 10 with _ | ⟨k, ks⟩
      · exact absurd hs (List.splitOn_ne_nil 10 cs)
      · rw [hs] at ih
        intro l hl
        rw [List.modifyHead_cons] at hl
        rcases List.mem_cons.1 hl with rfl | hl
        · exact List.not_mem_cons_of_ne_of_not_mem h.1 (ih k List.mem_cons_self)
        · exact ih l (List.mem_cons_of_mem k hl)

theorem follows_start (ini : CIni) :
    LoadFollows { ini := ini.switchSession DEFAULT_SECTION } (.start ini) where
  sections := switchSession_mSections ini DEFAULT_SECTION
  current := rfl
  opened := rfl
  present := by
    unfold IniReading.start
    rw [OrderedMap.find?_insert, if_pos rfl]
    rfl
  pieces := fun p hp => absurd hp List.not_mem_nil

theorem clean_finish (hc : NulFree r.sections) (hp : ∀ p ∈ r.pieces, (0 : UInt8) ∉ p)
    {sections : OrderedMap Str Section} (h : r.finish = some sections) : NulFree sections := by
  unfold IniReading.finish at h
  split_ifs at h
  · exact Option.some.inj h ▸ hc
  · obtain ⟨r', hr', rfl⟩ := Option.map_eq_some_iff.1 h
    rw [← List.append_nil r.pieces.flatten] at hr'
    exact (clean_close hc hp List.not_mem_nil hr').1

/-- The file can be read, its lines meet the conditions, and so does its end. -/
def CIni.LoadMeets (files : IniFiles) (ini : CIni) (fileName : Str) : Prop :=
  ∃ file, files fileName = some file ∧ file.broken = false
    ∧ iniRules.Meets IniReading.LineMeets (.start ini) (file.data.splitOn 10)
    ∧ ∀ r, iniRules.run (.start ini) (file.data.splitOn 10) = some r → r.EndMeets

/-- What the conditions are enough for, on any object. Where no entry of the object has a NUL,
`load` does what the rules say under them alone. -/
theorem load_faithful_iff (files : IniFiles) (ini : CIni) (fileName : Str)
    (hdata : ∀ file, files fileName = some file → (0 : UInt8) ∉ file.data) :
    (LoadMeets files ini fileName → LoadFaithful files ini fileName)
      ∧ (NulFree ini.mSections →
        (LoadFaithful files ini fileName ↔ LoadMeets files ini fileName)) := by
  have hmeets : LoadMeets files ini fileName → LoadFaithful files ini fileName := by
    rintro ⟨file, hfile, hbroken, hlines, hend⟩
    obtain ⟨r, st, hr, hst, hfollows⟩ := follows_run (follows_start ini)
      (nul_not_mem_splitOn (hdata file hfile)) hlines
    have hload := load_eq_run ini hfile (fits_of_run hr)
    rw [hst, Option.map_some] at hload
    exact ⟨0, _, hload, fun _ =>
      ⟨file, r, _, hfile, hbroken, hr, (finish_iff hfollows).2 (hend r hr), rfl⟩⟩
  refine ⟨hmeets, fun hini => ⟨fun hfaithful => ?_, hmeets⟩⟩
  obtain ⟨rc, ini', hload, hfaithful⟩ := hfaithful
  obtain rfl : rc = 0 := load_returns hload
  obtain ⟨file, r, sections, hfile, hbroken, hr, hfinish, hsections⟩ := hfaithful rfl
  rw [load_eq_run ini hfile (fits_of_run hr)] at hload
  obtain ⟨st, hst, hini'⟩ := Option.map_eq_some_iff.1 hload
  obtain rfl := (Prod.mk.inj hini').2
  have h0 := nul_not_mem_splitOn (hdata file hfile)
  have hclean : NulFree (IniReading.start ini).sections := nulFree_insert_empty hini _
  by_cases hlines : iniRules.Meets IniReading.LineMeets (.start ini) (file.data.splitOn 10)
  · refine ⟨file, hfile, hbroken, hlines, fun r' hr' => ?_⟩
    obtain ⟨r₁, st₁, hr₁, hst₁, hfollows⟩ := follows_run (follows_start ini) h0 hlines
    obtain rfl : r₁ = r := Option.some.inj (hr₁.symm.trans hr)
    obtain rfl : r₁ = r' := Option.some.inj (hr₁.symm.trans hr')
    obtain rfl : st₁ = st := Option.some.inj (hst₁.symm.trans hst)
    exact (finish_iff hfollows).1 (hsections ▸ hfinish)
  · exfalso
    rcases departs_run (follows_start ini) hclean h0 hlines with hnone | hnul
    · rw [hr] at hnone
      cases hnone
    · obtain ⟨hc, hp⟩ := clean_run h0 hclean (fun p hp => absurd hp List.not_mem_nil) hr
      exact hnul st hst (hsections ▸ clean_finish hc hp hfinish)

/-- Of a file with one line, longer than the buffer, `load` takes a part. -/
theorem not_loadFaithful_of_long {l : Str} (h10 : 10 ∉ l) (hl : MAX_CFG_LINE_LEN ≤ l.length)
    (ini : CIni) (fileName : Str) : ¬LoadFaithful (fun _ => some { data := l }) ini fileName := by
  rintro ⟨rc, ini', hload, h⟩
  obtain ⟨file, r, _, hfile, _, hr, _⟩ := h (load_returns hload)
  obtain rfl := Option.some.inj hfile
  dsimp only at hr
  rw [List.splitOn_eq_singleton h10, Machine.run_cons,
    show iniRules.step (.start ini) l = none from line_eq_none hl] at hr
  cases hr

/-- `[b]` and `a=1`. -/
theorem load_faithful_two_lines :
    LoadFaithful (fun _ => some { data := [91, 98, 93, 10, 97, 61, 49] }) {} [] := by
  refine (load_faithful_iff _ _ _ fun file h => ?_).1 ⟨_, rfl, rfl, ?_, fun r hr => ?_⟩
  · obtain rfl := Option.some.inj h
    decide
  · refine ⟨⟨by decide, fun text h => ?_⟩, fun r hr => ⟨⟨by decide, fun text h _ => ?_⟩, ?_⟩⟩
    · cases h
    · obtain rfl := Option.some.inj hr
      obtain rfl := IniLine.entry.inj h
      show 61 ∈ ([97, 61, 49] : Str) ∧ Filled [97, 61, 49]
      decide
    · exact fun _ _ => trivial
  · obtain rfl := Option.some.inj hr
    exact fun h => absurd rfl h

/-- A file that is missing, one whose line cannot be taken in, an entry on two lines, and a key
without a value. -/
theorem not_loadFaithful : ¬LoadFaithful (fun _ => none) {} []
    ∧ ¬LoadFaithful (fun _ => some { data := List.replicate 1024 97 }) {} []
    ∧ ¬LoadFaithful (fun _ => some { data := [97, 61, 92, 10, 49] }) {} []
    ∧ ¬LoadFaithful (fun _ => some { data := [97, 61] }) {} [] := by
  refine ⟨?_, ?_, ?_, ?_⟩
  · rintro ⟨rc, ini', hload, h⟩
    obtain ⟨file, _, _, hfile, _⟩ := h (load_returns hload)
    cases hfile
  · refine not_loadFaithful_of_long (fun h => ?_) ?_ _ _
    · exact absurd (List.eq_of_mem_replicate h) (by decide)
    · rw [List.length_replicate]
      decide
  · rintro ⟨rc, ini', hload, h⟩
    obtain ⟨file, r, sections, hfile, _, hr, hfinish, hsections⟩ := h (load_returns hload)
    obtain rfl := Option.some.inj hfile
    obtain rfl := Option.some.inj hr
    obtain rfl := Option.some.inj hfinish
    obtain rfl := (Prod.mk.inj (Option.some.inj hload)).2
    revert hsections
    decide
  · rintro ⟨rc, ini', hload, -⟩
    cases hload

end Longda
