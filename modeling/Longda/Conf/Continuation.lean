import Longda.Conf.IniStore

/-!
# A line in several pieces

The pieces of an entry over several lines are to be put together without the tags that end them
(`joined`). `load` leaves a NUL for each tag (`withNuls`), so that another key or another value is
given than by the entry on one line. What is stored is the same only where nothing in the files is
blank that must not be, and neither counts, as the section has the key already or is given the same
value later (`continuation_iff`).
-/

namespace Longda

open Lib CIni

/-- What is read of a line: up to a NUL, without the blanks around it. -/
def textOf (line : Str) : Str := CLstring.strip (line.takeWhile (· ≠ 0))

/-- The entry of the pieces, of which all but the last end in a tag. -/
def joined (pieces : List Str) (last : Str) : Str :=
  pieces.flatMap (fun p => (textOf p).dropLast) ++ textOf last

def withNuls (pieces : List Str) (last : Str) : Str :=
  pieces.flatMap (fun p => (textOf p).dropLast ++ [0]) ++ textOf last

/-- No piece is blank, a comment or a header, all but the last end in a tag, and together they are
an entry with an equals sign. -/
structure InPieces (pieces : List Str) (last : Str) : Prop where
  goesOn : ∀ p ∈ pieces, IniLine.parse (p.takeWhile (· ≠ 0)) = .entry (textOf p) ∧
    (textOf p).getLast? = some CFG_CONTINUE_TAG
  ends : IniLine.parse (last.takeWhile (· ≠ 0)) = .entry (textOf last) ∧
    (textOf last).getLast? ≠ some CFG_CONTINUE_TAG
  isEntry : ∃ text, IniLine.parse (joined pieces last) = .entry text
  equals : 61 ∈ joined pieces last

/-! ## The pieces -/

section Text

variable {l text : Str}

theorem parse_eq_entry (h : IniLine.parse l = .entry text) :
    text = CLstring.strip l ∧ text ≠ [] := by
  unfold IniLine.parse at h
  split at h
  · cases h
  · rename_i c cs hs
    split_ifs at h
    simp only [IniLine.entry.injEq] at h
    exact ⟨h.symm.trans hs.symm, h ▸ List.cons_ne_nil c cs⟩

theorem nul_not_mem_textOf (l : Str) : 0 ∉ textOf l := fun h => by
  simpa using List.mem_takeWhile_imp (CLstring.mem_of_mem_strip h)

theorem strip_head (l : Str) : ∀ c ∈ (CLstring.strip l).head?, isspace c = false := by
  intro c hc
  have hhead : (l.dropWhile isspace).head? = some c := by
    obtain ⟨t, ht⟩ := List.rdropWhile_prefix isspace (l.dropWhile isspace)
    have hc : ((l.dropWhile isspace).rdropWhile isspace).head? = some c := hc
    rw [← ht, List.head?_append, hc, Option.some_or]
  have := List.head?_dropWhile_not isspace l
  rwa [hhead] at this

theorem strip_last (l : Str) : ∀ c ∈ (CLstring.strip l).getLast?, isspace c = false := by
  intro c hc
  have hne : CLstring.strip l ≠ [] := by
    rintro h
    simp [h] at hc
  rw [List.getLast?_eq_some_getLast hne, Option.mem_some_iff] at hc
  subst hc
  exact Bool.eq_false_iff.2 (List.rdropWhile_last_not isspace (l.dropWhile isspace) hne)

theorem strip_eq_self (h : ∀ c ∈ text.head?, isspace c = false)
    (h' : ∀ c ∈ text.getLast?, isspace c = false) : CLstring.strip text = text := by
  have hd : text.dropWhile isspace = text := by
    rcases text with _ | ⟨c, cs⟩
    · rfl
    · rw [List.dropWhile_cons_of_neg]
      simpa using h c rfl
  unfold CLstring.strip
  rw [hd, List.rdropWhile_eq_self_iff]
  intro hne
  simpa using h' _ (List.getLast?_eq_some_getLast hne)

/-- Stripping takes no NUL. -/
theorem count_strip (l : Str) : (CLstring.strip l).count 0 = l.count 0 := by
  have hdrop : ∀ l : Str, (l.dropWhile isspace).count 0 = l.count 0 := by
    intro l
    have hblank : (l.takeWhile isspace).count 0 = 0 := by
      rw [List.count_eq_zero]
      exact fun h => absurd (List.mem_takeWhile_imp h) (by decide)
    have := congrArg (List.count 0) (List.takeWhile_append_dropWhile (p := isspace) (l := l))
    rw [List.count_append] at this
    omega
  rw [CLstring.strip, List.rdropWhile, List.count_reverse, hdrop, List.count_reverse, hdrop]

/-- The NULs of an entry are in its key and its value. -/
theorem count_keyOf_valueOf {entry : Str} (h : 61 ∈ entry) :
    (keyOf entry).count 0 + (valueOf entry).count 0 = entry.count 0 := by
  rw [keyOf, valueOf, count_strip, count_strip]
  have hsplit := congrArg (List.count 0)
    (List.takeWhile_append_dropWhile (p := (· ≠ 61)) (l := entry))
  rw [List.count_append] at hsplit
  rcases hd : entry.dropWhile (· ≠ 61) with _ | ⟨c, value⟩
  · have := List.dropWhile_eq_nil_iff.1 hd 61 h
    simp at this
  · have hc := List.head?_dropWhile_not (· ≠ 61) entry
    rw [hd] at hc hsplit
    have h0 : c ≠ 0 := by
      rintro rfl
      simp at hc
    rw [List.count_cons_of_ne h0] at hsplit
    rw [hd]
    exact hsplit

end Text

section Pieces

variable {pieces : List Str} {last : Str}

theorem joined_head (pieces : List Str) (last : Str) :
    ∀ c ∈ (joined pieces last).head?, isspace c = false := by
  induction pieces with
  | nil => exact strip_head _
  | cons p pieces ih =>
    intro c hc
    rw [joined, List.flatMap_cons, List.append_assoc, ← joined, List.head?_append] at hc
    rcases hd : (textOf p).dropLast with _ | ⟨d, ds⟩
    · rw [hd] at hc
      exact ih c hc
    · rw [hd] at hc
      obtain rfl : d = c := by simpa using hc
      refine strip_head (p.takeWhile (· ≠ 0)) d ?_
      obtain ⟨t, ht⟩ := List.dropLast_prefix (textOf p)
      rw [hd] at ht
      show d ∈ (textOf p).head?
      rw [← ht]
      rfl

theorem InPieces.strip_joined (h : InPieces pieces last) :
    CLstring.strip (joined pieces last) = joined pieces last := by
  refine strip_eq_self (joined_head pieces last) fun c hc => ?_
  rw [joined, List.getLast?_append_of_ne_nil _ (parse_eq_entry h.ends.1).2] at hc
  exact strip_last _ c hc

theorem nul_not_mem_joined (pieces : List Str) (last : Str) : 0 ∉ joined pieces last := by
  unfold joined
  rw [List.mem_append, List.mem_flatMap]
  rintro (⟨p, -, hp⟩ | h)
  · exact nul_not_mem_textOf p (List.dropLast_subset _ hp)
  · exact nul_not_mem_textOf last h

theorem InPieces.parse_joined (h : InPieces pieces last) :
    IniLine.parse (joined pieces last) = .entry (joined pieces last) := by
  obtain ⟨text, ht⟩ := h.isEntry
  rw [ht, (parse_eq_entry ht).1, h.strip_joined]

theorem count_withNuls (pieces : List Str) (last : Str) :
    (withNuls pieces last).count 0 = pieces.length + (joined pieces last).count 0 := by
  induction pieces with
  | nil => simp [withNuls, joined]
  | cons p pieces ih =>
    simp only [withNuls, joined, List.flatMap_cons, List.append_assoc, List.count_append] at ih ⊢
    simp only [List.count_singleton_self, List.length_cons]
    omega

theorem equals_withNuls : 61 ∈ withNuls pieces last ↔ 61 ∈ joined pieces last := by
  simp [withNuls, joined]

/-- The NULs count. -/
theorem withNuls_given_ne (opened : Str) (hp : pieces ≠ []) (h : 61 ∈ joined pieces last) :
    (keyOf (opened ++ withNuls pieces last), valueOf (opened ++ withNuls pieces last)) ≠
      (keyOf (opened ++ joined pieces last), valueOf (opened ++ joined pieces last)) := by
  intro he
  rw [Prod.mk.injEq] at he
  have h1 := count_keyOf_valueOf (List.mem_append_right opened h)
  have h2 := count_keyOf_valueOf (List.mem_append_right opened (equals_withNuls.2 h))
  rw [he.1, he.2, h1, List.count_append, List.count_append, count_withNuls] at h2
  have := List.length_pos_iff.2 hp
  omega

/-! ## What is loaded -/

theorem run_goesOn {ps : List Str} (h : ∀ p ∈ ps,
      IniLine.parse (p.takeWhile (· ≠ 0)) = .entry (textOf p) ∧
        (textOf p).getLast? = some CFG_CONTINUE_TAG) (st : Loading) :
    ∃ st', loadLines.run st ps = some st' ∧ st'.ini = st.ini ∧
      st'.currentSession = st.currentSession ∧
      st'.opened = st.opened ++ ps.flatMap fun p => (textOf p).dropLast ++ [0] := by
  induction ps generalizing st with
  | nil => exact ⟨st, rfl, rfl, rfl, (List.append_nil _).symm⟩
  | cons p ps ih =>
    obtain ⟨hparse, htag⟩ := h p (by simp)
    have hline : st.line p = some { st with
        continueLastLine := true
        lineEntry := (st.opened ++ textOf p).dropLast ++ [0] } := by
      rw [line_eq_parse, hparse]
      exact if_pos htag
    obtain ⟨st', hrun, hini, hcur, hopen⟩ := ih (fun q hq => h q (by simp [hq]))
      { st with continueLastLine := true, lineEntry := (st.opened ++ textOf p).dropLast ++ [0] }
    refine ⟨st', ?_, hini, hcur, ?_⟩
    · rw [Machine.run_cons]
      exact Option.bind_eq_some_iff.2 ⟨_, hline, hrun⟩
    · rw [hopen, List.flatMap_cons, Loading.opened, if_pos rfl,
        List.dropLast_append_of_ne_nil (parse_eq_entry hparse).2]
      simp

theorem InPieces.run_pieces (h : InPieces pieces last) (st : Loading) :
    loadLines.run st (pieces ++ [last]) = (st.closing (withNuls pieces last)).insertEntry := by
  obtain ⟨st', hrun, hini, hcur, hopen⟩ := run_goesOn h.goesOn st
  have hclosing : st'.closing (textOf last) = st.closing (withNuls pieces last) := by
    rw [Loading.closing, Loading.closing, hini, hcur, hopen, List.append_assoc]
    rfl
  rw [Machine.run_append, hrun, Option.bind_some, Machine.run_cons]
  refine (Option.bind_fun_some _).trans ?_
  show st'.line last = _
  rw [line_eq_parse, h.ends.1]
  dsimp only
  rw [if_neg h.ends.2, hclosing]

theorem InPieces.line_joined (h : InPieces pieces last) (st : Loading) :
    st.line (joined pieces last) = (st.closing (joined pieces last)).insertEntry := by
  have hlast : (joined pieces last).getLast? = (textOf last).getLast? :=
    List.getLast?_append_of_ne_nil _ (parse_eq_entry h.ends.1).2
  rw [line_eq (nul_not_mem_joined pieces last), h.parse_joined]
  dsimp only
  rw [hlast, if_neg h.ends.2]

end Pieces

/-- Where the same lines do the same, but for the values. -/
structure Alike (st st' : Loading) : Prop where
  current : st.currentSession = st'.currentSession
  opened : st.opened = st'.opened
  present : ∀ s, (st.ini.mSections.find? s).isSome = (st'.ini.mSections.find? s).isSome

theorem present_insertEntry {st st' : Loading} (h : st.insertEntry = some st') (s : Str) :
    (st'.ini.mSections.find? s).isSome =
      ((st.ini.mSections.find? s).isSome ||
        decide (61 ∈ st.lineEntry ∧ s = st.currentSession)) := by
  rw [loading_insertEntry_eq] at h
  split_ifs at h with h61
  · obtain rfl := Option.some.inj h
    simp only [h61, true_and, Loading.taken]
    rw [OrderedMap.find?_set]
    split_ifs with hs <;> simp [hs]
  · obtain rfl := Option.some.inj h
    simp [h61]

theorem opened_closing {st st' : Loading} {text : Str}
    (h : (st.closing text).insertEntry = some st') : st'.opened = [] := by
  rw [loading_insertEntry_eq] at h
  split_ifs at h <;> exact Option.some.inj h ▸ rfl

theorem currentSession_insertEntry {st st' : Loading} (h : st.insertEntry = some st') :
    st'.currentSession = st.currentSession := by
  rw [loading_insertEntry_eq] at h
  split_ifs at h <;> exact Option.some.inj h ▸ rfl

theorem Alike.closing {st st' t t' : Loading} {text text' : Str}
    (hcurrent : st.currentSession = st'.currentSession)
    (hmem : 61 ∈ st.opened ++ text ↔ 61 ∈ st'.opened ++ text')
    (hpresent : ∀ s, (st.ini.mSections.find? s).isSome = (st'.ini.mSections.find? s).isSome)
    (ht : (st.closing text).insertEntry = some t)
    (ht' : (st'.closing text').insertEntry = some t') : Alike t t' where
  current := by
    rw [currentSession_insertEntry ht, currentSession_insertEntry ht']
    exact hcurrent
  opened := by rw [opened_closing ht, opened_closing ht']
  present s := by
    have hsect : s = st.currentSession ↔ s = st'.currentSession := by rw [hcurrent]
    rw [present_insertEntry ht, present_insertEntry ht']
    exact congrArg₂ (· || ·) (hpresent s) (decide_eq_decide.2 (and_congr hmem hsect))

theorem Alike.line {st st' t t' : Loading} {l : Str} (h : Alike st st') (ht : st.line l = some t)
    (ht' : st'.line l = some t') : Alike t t' := by
  rw [line_eq_parse] at ht ht'
  rcases hparse : IniLine.parse (l.takeWhile (· ≠ 0)) with _ | name | text <;>
    rw [hparse] at ht ht'
  · obtain rfl := Option.some.inj ht
    obtain rfl := Option.some.inj ht'
    exact h
  · obtain rfl := Option.some.inj ht
    obtain rfl := Option.some.inj ht'
    refine ⟨rfl, h.opened, fun s => ?_⟩
    dsimp only
    rw [switchSession_mSections, switchSession_mSections, OrderedMap.find?_insert,
      OrderedMap.find?_insert]
    split_ifs
    · rfl
    · exact h.present s
  · dsimp only at ht ht'
    split_ifs at ht ht'
    · obtain rfl := Option.some.inj ht
      obtain rfl := Option.some.inj ht'
      refine ⟨h.current, ?_, h.present⟩
      show (st.opened ++ text).dropLast ++ [0] = (st'.opened ++ text).dropLast ++ [0]
      rw [h.opened]
    · exact Alike.closing h.current (by rw [h.opened]) h.present ht ht'

theorem Alike.run {st st' t t' : Loading} {ls : List Str} (h : Alike st st')
    (ht : loadLines.run st ls = some t) (ht' : loadLines.run st' ls = some t') : Alike t t' := by
  induction ls generalizing st st' with
  | nil =>
    obtain rfl := Option.some.inj ht
    obtain rfl := Option.some.inj ht'
    exact h
  | cons l ls ih =>
    obtain ⟨u, hu, ht⟩ := Option.bind_eq_some_iff.1 ht
    obtain ⟨u', hu', ht'⟩ := Option.bind_eq_some_iff.1 ht'
    exact ih (h.line hu hu') ht ht'

/-- What the lines give. -/
def CIni.Cursor.gives (c : Cursor) : List Str → List Assignment
  | [] => []
  | l :: ls => (c.line l).2 ++ (c.line l).1.gives ls

/-- The variables behind the lines. -/
def CIni.Cursor.behind (c : Cursor) (ls : List Str) : Cursor := ls.foldl (fun c l => (c.line l).1) c

theorem cursor_lines {st t : Loading} {ls : List Str} (h : loadLines.run st ls = some t) :
    t.cursor = st.cursor.behind ls := by
  induction ls generalizing st with
  | nil => exact Option.some.inj h ▸ rfl
  | cons l ls ih =>
    obtain ⟨u, hu, h⟩ := Option.bind_eq_some_iff.1 h
    rw [ih h, cursor_line hu]
    rfl

theorem value?_lines {st t : Loading} {ls : List Str} (h : loadLines.run st ls = some t)
    (e : Str × Str) : t.ini.value? e = (st.ini.value? e).or ((st.cursor.gives ls).lookup e) := by
  induction ls generalizing st with
  | nil => exact Option.some.inj h ▸ Option.or_none.symm
  | cons l ls ih =>
    obtain ⟨u, hu, h⟩ := Option.bind_eq_some_iff.1 h
    rw [ih h, value?_line hu, cursor_line hu, Cursor.gives, List.lookup_append, Option.or_assoc]

/-- What lines give depends on the section and on what is open. -/
theorem gives_congr {c c' : Cursor} (hs : c.currentSession = c'.currentSession)
    (ho : c.opened = c'.opened) (ls : List Str) : c.gives ls = c'.gives ls := by
  induction ls generalizing c c' with
  | nil => rfl
  | cons l ls ih =>
    have hline : (c.line l).2 = (c'.line l).2 ∧
        (c.line l).1.currentSession = (c'.line l).1.currentSession ∧
        (c.line l).1.opened = (c'.line l).1.opened := by
      unfold Cursor.line
      rcases IniLine.parse (l.takeWhile (· ≠ 0)) with _ | name | text
      · exact ⟨rfl, hs, ho⟩
      · exact ⟨rfl, rfl, ho⟩
      · dsimp only
        rw [hs, ho]
        split_ifs <;> exact ⟨rfl, rfl, rfl⟩
    rw [Cursor.gives, Cursor.gives, hline.1, ih hline.2.1 hline.2.2]

theorem mSections_eq_iff {ini ini' : CIni}
    (h : ∀ s, (ini.mSections.find? s).isSome = (ini'.mSections.find? s).isSome) :
    ini.mSections = ini'.mSections ↔ ∀ e, ini.value? e = ini'.value? e := by
  constructor
  · intro he e
    rw [value?, value?, getSection, getSection, he]
  · intro he
    refine OrderedMap.ext_find? fun s => ?_
    have hs := h s
    have hv : ∀ k, ini.value? (s, k) = ini'.value? (s, k) := fun k => he (s, k)
    simp only [value?, getSection] at hv
    rcases hf : ini.mSections.find? s with _ | m <;> rcases hf' : ini'.mSections.find? s with _ | m'
      <;> simp only [hf, hf', Option.isSome_none, Option.isSome_some, reduceCtorEq] at hs
    · rfl
    · simp only [hf, hf', Option.getD_some] at hv
      rw [OrderedMap.ext_find? hv]

/-- The assignment changes nothing: its key has a value before, or is given the same later. -/
def Settled (before : Str × Str → Option Str) (later : List Assignment) (a : Assignment) : Prop :=
  (before a.1).isSome ∨ later.lookup a.1 = some a.2

theorem lookup_cons_eq (e x : Str × Str) (v : Str) (later : List Assignment) :
    ((x, v) :: later).lookup e = if e = x then some v else later.lookup e := by
  rw [← List.singleton_append, List.lookup_append, lookup_singleton]
  split_ifs <;> rfl

/-- Another assignment makes no difference exactly if neither changes anything. -/
theorem settled_iff {before : Str × Str → Option Str} {later : List Assignment} {a b : Assignment}
    (h : a ≠ b) : (∀ e, (before e).or ((a :: later).lookup e) =
      (before e).or ((b :: later).lookup e)) ↔
    Settled before later a ∧ Settled before later b := by
  obtain ⟨x, v⟩ := a
  obtain ⟨y, w⟩ := b
  simp only [lookup_cons_eq, Settled]
  constructor
  · intro hall
    have hx := hall x
    have hy := hall y
    by_cases hxy : x = y
    · subst hxy
      rw [if_pos rfl, if_pos rfl] at hx
      rcases hb : before x with _ | u
      · rw [hb] at hx
        exact absurd (congrArg (Prod.mk x) (Option.some.inj hx)) h
      · simp
    · rw [if_pos rfl, if_neg hxy] at hx
      rw [if_neg (Ne.symm hxy), if_pos rfl] at hy
      refine ⟨?_, ?_⟩
      · rcases hb : before x with _ | u
        · exact .inr (by simpa [hb] using hx.symm)
        · exact .inl rfl
      · rcases hb : before y with _ | u
        · exact .inr (by simpa [hb] using hy)
        · exact .inl rfl
  · rintro ⟨ha, hb⟩ e
    rcases he : before e with _ | u
    · split_ifs with hx hy hy
      · subst hx hy
        simp only [he, Option.isSome_none, Bool.false_eq_true, false_or] at ha hb
        rw [← ha, ← hb]
      · subst hx
        simpa [he, eq_comm] using ha
      · subst hy
        simpa [he] using hb
      · rfl
    · rfl

/-- What an entry gives behind what is open. -/
def CIni.Cursor.given (c : Cursor) (entry : Str) : Assignment :=
  ((c.currentSession, keyOf (c.opened ++ entry)), valueOf (c.opened ++ entry))

/-- What lines give in the section where the loop is, with nothing open. -/
def CIni.Cursor.later (c : Cursor) (ls : List Str) : List Assignment :=
  Cursor.gives { currentSession := c.currentSession } ls

theorem value?_closing {st u t : Loading} {entry : Str} (h : 61 ∈ entry) {post : List Str}
    (hu : (st.closing entry).insertEntry = some u) (ht : loadLines.run u post = some t)
    (e : Str × Str) : t.ini.value? e =
      (st.ini.value? e).or ((st.cursor.given entry :: st.cursor.later post).lookup e) := by
  have hgives : u.cursor.gives post = st.cursor.later post := by
    rw [cursor_insertEntry hu]
    refine gives_congr ?_ ?_ post <;> rfl
  have hmem : 61 ∈ (st.closing entry).lineEntry := List.mem_append_right _ h
  rw [value?_lines ht, hgives, value?_insertEntry hu, Loading.closes, if_pos hmem, Option.or_assoc,
    ← List.lookup_append]
  rfl

/-- From where the pieces come. -/
theorem InPieces.stored_iff {pieces : List Str} {last : Str} (h : InPieces pieces last)
    {st u u' t t' : Loading} {post : List Str}
    (hu : (st.closing (withNuls pieces last)).insertEntry = some u)
    (hu' : (st.closing (joined pieces last)).insertEntry = some u')
    (ht : loadLines.run u post = some t) (ht' : loadLines.run u' post = some t') :
    t.ini.mSections = t'.ini.mSections ↔ pieces = [] ∨
      Settled st.ini.value? (st.cursor.later post) (st.cursor.given (joined pieces last)) ∧
        Settled st.ini.value? (st.cursor.later post) (st.cursor.given (withNuls pieces last)) := by
  have hequals := equals_withNuls.2 h.equals
  have halike : Alike u u' := Alike.closing rfl
    (iff_of_true (List.mem_append_right _ hequals) (List.mem_append_right _ h.equals))
    (fun _ => rfl) hu hu'
  rw [mSections_eq_iff (halike.run ht ht').present]
  by_cases hp : pieces = []
  · subst hp
    obtain rfl : u = u' := Option.some.inj (hu.symm.trans hu')
    obtain rfl : t = t' := Option.some.inj (ht.symm.trans ht')
    exact iff_of_true (fun _ => rfl) (.inl rfl)
  · have hne : st.cursor.given (withNuls pieces last) ≠ st.cursor.given (joined pieces last) := by
      intro he
      have hne := withNuls_given_ne st.cursor.opened hp h.equals
      simp only [Cursor.given, Prod.mk.injEq, true_and] at he
      exact hne (Prod.ext he.1 he.2)
    simp only [value?_closing hequals hu ht, value?_closing h.equals hu' ht', settled_iff hne, hp,
      false_or]
    exact and_comm

/-- Both loads have a result, and they store the same. -/
def StoreAlike (files files' : IniFiles) (ini : CIni) (fileName : Str) : Prop :=
  ∃ loaded loaded', load files ini fileName = some loaded ∧
    load files' ini fileName = some loaded' ∧ loaded.2.mSections = loaded'.2.mSections

/-- Loading the pieces stores the same as loading the entry they make exactly if no key and no value
in either file is blank and there is but one piece, or neither what the entry gives nor what is
given with the NULs changes anything. -/
theorem continuation_iff {files files' : IniFiles} {fileName : Str} {file file' : FileData}
    (ini : CIni) {pre pieces post : List Str} {last : Str} (hpieces : InPieces pieces last)
    (hfile : files fileName = some file) (hfile' : files' fileName = some file')
    (hsplit : file.data.splitOn 10 = pre ++ (pieces ++ [last]) ++ post)
    (hjoined : file'.data.splitOn 10 = pre ++ joined pieces last :: post)
    (hfits : ∀ l ∈ file.data.splitOn 10, l.length < MAX_CFG_LINE_LEN)
    (hfits' : ∀ l ∈ file'.data.splitOn 10, l.length < MAX_CFG_LINE_LEN) :
    StoreAlike files files' ini fileName ↔
      (∀ a ∈ loaded files fileName, a.Filled) ∧ (∀ a ∈ loaded files' fileName, a.Filled) ∧
        let before := fun e => (ini.value? e).or ((Cursor.gives {} pre).lookup e)
        let c := Cursor.behind {} pre
        pieces = [] ∨ Settled before (c.later post) (c.given (joined pieces last)) ∧
          Settled before (c.later post) (c.given (withNuls pieces last)) := by
  rw [← load_isSome_iff files ini, ← load_isSome_iff files' ini, StoreAlike]
  rcases hload : load files ini fileName with _ | a
  · simp
  rcases hload' : load files' ini fileName with _ | a'
  · simp
  simp only [Option.some.injEq, exists_and_left, exists_eq_left', Option.isSome_some, true_and]
  rw [load_eq_run ini hfile hfits, hsplit, Machine.run_append, Machine.run_append] at hload
  rw [load_eq_run ini hfile' hfits', hjoined, Machine.run_append] at hload'
  obtain ⟨t, ht, rfl⟩ := Option.map_eq_some_iff.1 hload
  obtain ⟨t', ht', rfl⟩ := Option.map_eq_some_iff.1 hload'
  obtain ⟨u, hu, ht⟩ := Option.bind_eq_some_iff.1 ht
  obtain ⟨st, hst, hu⟩ := Option.bind_eq_some_iff.1 hu
  obtain ⟨st', hst', ht'⟩ := Option.bind_eq_some_iff.1 ht'
  obtain rfl : st = st' := Option.some.inj (hst.symm.trans hst')
  obtain ⟨u', hu', ht'⟩ := Option.bind_eq_some_iff.1 ht'
  rw [hpieces.run_pieces] at hu
  have hbefore : st.ini.value? = fun e => (ini.value? e).or ((Cursor.gives {} pre).lookup e) := by
    funext e
    rw [value?_lines hst, value?_switchSession]
    rfl
  rw [← hbefore, show Cursor.behind {} pre = st.cursor from (cursor_lines hst).symm]
  exact hpieces.stored_iff hu ((hpieces.line_joined st).symm.trans hu') ht ht'

theorem inPieces_two : InPieces [ascii "a=\\"] (ascii "1") where
  goesOn p hp := by
    obtain rfl := List.mem_singleton.1 hp
    exact ⟨rfl, rfl⟩
  ends := ⟨rfl, by decide⟩
  isEntry := ⟨_, rfl⟩
  equals := by decide

theorem continuation_iff_two :
    StoreAlike (fun _ => some { data := ascii "a=\\\n1" }) (fun _ => some { data := ascii "a=1" })
        {} [] ↔
      (∀ a ∈ loaded (fun _ => some { data := ascii "a=\\\n1" }) [], a.Filled) ∧
        (∀ a ∈ loaded (fun _ => some { data := ascii "a=1" }) [], a.Filled) ∧
        let before := fun e => (CIni.value? {} e).or ((Cursor.gives {} []).lookup e)
        let c := Cursor.behind {} []
        [ascii "a=\\"] = [] ∨
          Settled before (c.later []) (c.given (joined [ascii "a=\\"] (ascii "1"))) ∧
            Settled before (c.later []) (c.given (withNuls [ascii "a=\\"] (ascii "1"))) :=
  continuation_iff {} inPieces_two rfl rfl (by decide) (by decide) (by decide) (by decide)

/-- The value is a NUL and 1. -/
theorem continuation_false : InPieces [ascii "a=\\"] (ascii "1") ∧
    ¬StoreAlike (fun _ => some { data := ascii "a=\\\n1" })
      (fun _ => some { data := joined [ascii "a=\\"] (ascii "1") }) {} [] := by
  refine ⟨inPieces_two, ?_⟩
  rintro ⟨a, a', ha, ha', hsame⟩
  obtain rfl := Option.some.inj ha
  obtain rfl := Option.some.inj ha'
  revert hsame
  decide

end Longda
