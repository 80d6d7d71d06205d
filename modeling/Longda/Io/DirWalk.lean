import Longda.Lang.Lstring
import Mathlib.Data.List.Nodup

/-!
# The walk through a directory

`getFileList` and `getFileNum` go through the entries of a directory and, if they are told to, of
the directories below it. They test the type of an entry by single bits of its mode. Sockets and
block devices have the bit of a directory too, so that the walk tries to open them as one and fails.
Where there are none that it comes by, it finds exactly the regular files (`getFileList_iff`).
-/

namespace Longda

inductive FileType where
  | regular
  | socket
  | fifo
  | characterDevice
  | blockDevice
  deriving DecidableEq

/-- What `readdir` gives one by one, without `.` and `..`. An entry has its permissions, and a
directory its own entries. -/
inductive Dir where
  | nil
  | file (name : Str) (type : FileType) (perm : BitVec 12) (rest : Dir)
  | dir (name : Str) (perm : BitVec 12) (sub rest : Dir)

/-- The type in `st_mode`. -/
def FileType.code : FileType → BitVec 4
  | .regular => 0x8#4
  | .socket => 0xC#4
  | .fifo => 0x1#4
  | .characterDevice => 0x2#4
  | .blockDevice => 0x6#4

def S_IFDIR : BitVec 16 := 0x4000#16

def S_IFREG : BitVec 16 := 0x8000#16

def FILE_PATH_SPLIT : UInt8 := 47

/-- `regex_match`, where `regcomp` gives what `regexec` does with the pattern. -/
def regexMatch (regcomp : Str → Option (Str → Bool)) (str pat : Str) : ℤ :=
  match regcomp pat with
  | none => -1
  | some regexec => if regexec str then 0 else 1

section Walk

variable {σ : Type} (regcomp : Str → Option (Str → Bool)) (pattern : Str) (resusion : Bool)

def isHidden (name : Str) : Bool := name.head? == some 46

def fullPath (path name : Str) : Str :=
  (if path.getLast? ≠ some FILE_PATH_SPLIT then path ++ [FILE_PATH_SPLIT] else path) ++ name

/-- The body of the loop for an entry that `stat` finds, where `recurse` is the call for the entry
as a directory, and `add` what is done for a file. -/
def visitEntry (add : Str → σ → σ) (path name : Str) (stMode : BitVec 16) (recurse : σ → ℤ × σ)
    (out : σ) : ℤ × σ :=
  if isHidden name then (0, out)
  else if stMode &&& S_IFDIR ≠ 0 ∧ resusion = false then (0, out)
  else
    let (result, out) := if stMode &&& S_IFDIR ≠ 0 then recurse out else (0, out)
    if result < 0 then (-1, out)
    else if stMode &&& S_IFREG = 0 then (0, out)
    else if pattern ≠ [] ∧ regexMatch regcomp name pattern ≠ 0 then (0, out)
    else (0, add (fullPath path name) out)

/-- The loop of both functions. What is no directory is not opened. -/
def walkDir (add : Str → σ → σ) (path : Str) (entries : Dir) (out : σ) : ℤ × σ :=
  match entries with
  | .nil => (0, out)
  | .file name type perm rest =>
    let (result, out) := visitEntry regcomp pattern resusion add path name (type.code ++ perm)
      (fun out => (-1, out)) out
    if result < 0 then (-1, out) else walkDir add path rest out
  | .dir name perm sub rest =>
    let (result, out) := visitEntry regcomp pattern resusion add path name (0x4#4 ++ perm)
      (fun out => walkDir add (fullPath path name) sub out) out
    if result < 0 then (-1, out) else walkDir add path rest out

def getFileNum (fileNum : UInt64) (path : Str) (entries : Dir) : ℤ × UInt64 :=
  walkDir regcomp pattern resusion (fun _ fileNum => fileNum + 1) path entries fileNum

def getFileList (fileList : List Str) (path : Str) (entries : Dir) : ℤ × List Str :=
  walkDir regcomp pattern resusion (fun file fileList => fileList ++ [file]) path entries fileList

end Walk

/-! ## What is in a directory -/

namespace Dir

def names : Dir → List Str
  | nil => []
  | file name _ _ rest => name :: rest.names
  | dir name _ _ rest => name :: rest.names

/-- No name is empty or has a separator in it, and no directory has a name twice. -/
def WellFormed : Dir → Prop
  | nil => True
  | file name _ _ rest =>
    (name ≠ [] ∧ FILE_PATH_SPLIT ∉ name ∧ name ∉ rest.names) ∧ rest.WellFormed
  | dir name _ sub rest =>
    (name ≠ [] ∧ FILE_PATH_SPLIT ∉ name ∧ name ∉ rest.names) ∧ sub.WellFormed ∧ rest.WellFormed

/-- The type of the file that the names lead to. -/
def fileAt : Dir → List Str → Option FileType
  | nil, _ => none
  | file name type _ rest, names => if names = [name] then some type else rest.fileAt names
  | dir name _ sub rest, names =>
    if names.head? = some name then sub.fileAt names.tail else rest.fileAt names

end Dir

/-- A directory with all that is below it. -/
structure Tree where
  entries : Dir
  wellFormed : entries.WellFormed

/-- The path that the names lead to. -/
def pathTo (path : Str) (names : List Str) : Str := names.foldl fullPath path

/-- The names lead to a file of the type, through nothing hidden. -/
def Visible (entries : Dir) (names : List Str) (type : FileType) : Prop :=
  entries.fileAt names = some type ∧ ∀ name ∈ names, isHidden name = false

def Matches (regcomp : Str → Option (Str → Bool)) (pattern name : Str) : Prop :=
  pattern = [] ∨ ∃ regexec, regcomp pattern = some regexec ∧ regexec name = true

/-- What the walk is for: both functions succeed, the list gets each regular file that can be seen
and has a name that matches, and the number is theirs. -/
def FindsFiles (regcomp : Str → Option (Str → Bool)) (pattern : Str) (fileList : List Str)
    (fileNum : UInt64) (path : Str) (tree : Tree) : Prop :=
  ∃ files, getFileList regcomp pattern true fileList path tree.entries = (0, fileList ++ files) ∧
    files.Nodup ∧
    (∀ file, file ∈ files ↔ ∃ names name, Visible tree.entries (names ++ [name]) .regular ∧
      Matches regcomp pattern name ∧ file = pathTo path (names ++ [name])) ∧
    getFileNum regcomp pattern true fileNum path tree.entries =
      (0, fileNum + UInt64.ofNat files.length)

/-! ## The entries in the order of the walk -/

section Order

/-- A file that the walk comes by, and the directories that lead to it. -/
structure Found where
  dirs : List Str
  name : Str
  type : FileType

def Found.names (f : Found) : List Str := f.dirs ++ [f.name]

def Found.below (name : Str) (f : Found) : Found := { f with dirs := name :: f.dirs }

/-- The files that are not hidden and not below anything hidden. -/
def Dir.seen : Dir → List Found
  | nil => []
  | file name type _ rest => (if isHidden name then [] else [⟨[], name, type⟩]) ++ rest.seen
  | dir name _ sub rest =>
    (if isHidden name then [] else sub.seen.map (Found.below name)) ++ rest.seen

/-- The walk takes the type for a directory. -/
def FileType.looksLikeDir (type : FileType) : Bool := type.code &&& 0x4#4 ≠ 0

variable {σ : Type} {regcomp : Str → Option (Str → Bool)} {pattern path name : Str}
  {add : Str → σ → σ} {out : σ}

/-- The file is regular and has a name that matches. -/
def Found.fits (regcomp : Str → Option (Str → Bool)) (pattern : Str) (f : Found) : Bool :=
  f.type == .regular && (pattern == [] || regexMatch regcomp f.name pattern == 0)

/-- The loop of the walk over the files that it comes by. -/
def visitAll (regcomp : Str → Option (Str → Bool)) (pattern : Str) (add : Str → σ → σ)
    (path : Str) (fs : List Found) (out : σ) : ℤ × σ :=
  match fs with
  | [] => (0, out)
  | f :: fs =>
    if f.type.looksLikeDir then (-1, out)
    else visitAll regcomp pattern add path fs
      (if f.fits regcomp pattern then add (pathTo path f.names) out else out)

theorem visitAll_append (fs gs : List Found) :
    visitAll regcomp pattern add path (fs ++ gs) out =
      if (visitAll regcomp pattern add path fs out).1 < 0 then
        (-1, (visitAll regcomp pattern add path fs out).2)
      else visitAll regcomp pattern add path gs (visitAll regcomp pattern add path fs out).2 := by
  induction fs generalizing out with
  | nil => rfl
  | cons f fs ih =>
    rw [List.cons_append, visitAll, visitAll]
    by_cases hdir : f.type.looksLikeDir = true
    · rw [if_pos hdir, if_pos hdir]
      rfl
    · rw [if_neg hdir, if_neg hdir]
      exact ih

theorem visitAll_below (fs : List Found) :
    visitAll regcomp pattern add path (fs.map (Found.below name)) out =
      visitAll regcomp pattern add (fullPath path name) fs out := by
  induction fs generalizing out with
  | nil => rfl
  | cons f fs ih =>
    rw [List.map_cons, visitAll, visitAll, ih]
    rfl

theorem visitAll_result (fs : List Found) : (visitAll regcomp pattern add path fs out).1 =
    if (visitAll regcomp pattern add path fs out).1 < 0 then -1 else 0 := by
  induction fs generalizing out with
  | nil => rfl
  | cons f fs ih =>
    rw [visitAll]
    by_cases hdir : f.type.looksLikeDir = true
    · rw [if_pos hdir]
      rfl
    · rw [if_neg hdir]
      exact ih

theorem mode_and_dir (code : BitVec 4) (perm : BitVec 12) :
    (code ++ perm) &&& S_IFDIR = (code &&& 0x4#4) ++ 0#12 := by
  have : S_IFDIR = 0x4#4 ++ 0#12 := by decide
  rw [this, BitVec.and_append, BitVec.and_zero]

theorem mode_and_reg (code : BitVec 4) (perm : BitVec 12) :
    (code ++ perm) &&& S_IFREG = (code &&& 0x8#4) ++ 0#12 := by
  have : S_IFREG = 0x8#4 ++ 0#12 := by decide
  rw [this, BitVec.and_append, BitVec.and_zero]

theorem visitEntry_file (type : FileType) (perm : BitVec 12) :
    visitEntry regcomp pattern true add path name (type.code ++ perm) (fun out => (-1, out)) out =
      visitAll regcomp pattern add path (if isHidden name then [] else [⟨[], name, type⟩]) out := by
  by_cases hhidden : isHidden name = true
  · rw [visitEntry, if_pos hhidden, if_pos hhidden]
    rfl
  · rw [visitEntry, if_neg hhidden, if_neg hhidden, mode_and_dir, mode_and_reg]
    cases type with
    | regular =>
      by_cases hfits : pattern = [] ∨ regexMatch regcomp name pattern = 0
      · have hnot : ¬ (pattern ≠ [] ∧ regexMatch regcomp name pattern ≠ 0) := by tauto
        simp [visitAll, FileType.code, FileType.looksLikeDir, Found.fits, Found.names, pathTo,
          hfits, hnot]
      · have hnot : pattern ≠ [] ∧ regexMatch regcomp name pattern ≠ 0 := by tauto
        simp [visitAll, FileType.code, FileType.looksLikeDir, Found.fits, hnot]
    | socket | blockDevice => simp [visitAll, FileType.code, FileType.looksLikeDir]
    | fifo | characterDevice =>
      simp [visitAll, FileType.code, FileType.looksLikeDir, Found.fits]

theorem visitEntry_dir (perm : BitVec 12) (fs : List Found) :
    visitEntry regcomp pattern true add path name (0x4#4 ++ perm)
      (visitAll regcomp pattern add (fullPath path name) fs) out =
      visitAll regcomp pattern add path
        (if isHidden name then [] else fs.map (Found.below name)) out := by
  by_cases hhidden : isHidden name = true
  · rw [visitEntry, if_pos hhidden, if_pos hhidden]
    rfl
  · rw [visitEntry, if_neg hhidden, if_neg hhidden, mode_and_dir, mode_and_reg, visitAll_below]
    have hdir : (0x4#4 &&& 0x4#4) ++ 0#12 ≠ 0 := by decide
    have hreg : (0x4#4 &&& 0x8#4) ++ 0#12 = 0 := by decide
    have hresult : (visitAll regcomp pattern add (fullPath path name) fs out).1 =
      if (visitAll regcomp pattern add (fullPath path name) fs out).1 < 0 then -1 else 0 :=
        visitAll_result fs
    rw [if_neg (by simp), if_pos hdir]
    rcases hall : visitAll regcomp pattern add (fullPath path name) fs out with ⟨result, out'⟩
    rw [hall] at hresult
    dsimp only at hresult ⊢
    rw [if_pos hreg]
    split_ifs at hresult ⊢ <;> rw [hresult]

/-- With recursion the walk is a loop over the files that it comes by. -/
theorem walkDir_eq (entries : Dir) : walkDir regcomp pattern true add path entries out =
    visitAll regcomp pattern add path entries.seen out := by
  induction entries generalizing path out with
  | nil => rfl
  | file name type perm rest ih =>
    rw [walkDir, visitEntry_file, Dir.seen, visitAll_append]
    rcases visitAll regcomp pattern add path (if isHidden name then [] else [⟨[], name, type⟩]) out
      with ⟨result, out'⟩
    dsimp only
    rw [ih]
  | dir name perm sub rest ihsub ih =>
    have hsub : (fun out => walkDir regcomp pattern true add (fullPath path name) sub out) =
      visitAll regcomp pattern add (fullPath path name) sub.seen := funext fun out => ihsub
    rw [walkDir, hsub, visitEntry_dir, Dir.seen, visitAll_append]
    rcases visitAll regcomp pattern add path
      (if isHidden name then [] else sub.seen.map (Found.below name)) out with ⟨result, out'⟩
    dsimp only
    rw [ih]

/-- The files that are added, if nothing is taken for a directory. -/
def added (regcomp : Str → Option (Str → Bool)) (pattern path : Str) (fs : List Found) : List Str :=
  (fs.filter (Found.fits regcomp pattern)).map fun f => pathTo path f.names

theorem visitAll_eq {fs : List Found} (h : ∀ f ∈ fs, f.type.looksLikeDir = false) :
    visitAll regcomp pattern add path fs out =
      (0, (added regcomp pattern path fs).foldl (fun out file => add file out) out) := by
  induction fs generalizing out with
  | nil => rfl
  | cons f fs ih =>
    rw [visitAll, if_neg (by simp [h f (List.mem_cons_self ..)]),
      ih fun g hg => h g (List.mem_cons_of_mem _ hg)]
    by_cases hfits : f.fits regcomp pattern = true <;> simp [added, hfits]

theorem visitAll_fails {fs : List Found} {f : Found} (hf : f ∈ fs)
    (hdir : f.type.looksLikeDir = true) :
    (visitAll regcomp pattern add path fs out).1 = -1 := by
  induction fs generalizing out with
  | nil => cases hf
  | cons g fs ih =>
    rw [visitAll]
    by_cases hg : g.type.looksLikeDir = true
    · rw [if_pos hg]
    · rw [if_neg hg]
      rcases List.mem_cons.1 hf with rfl | hf
      · exact absurd hdir hg
      · exact ih hf

end Order

/-! ## Names and paths -/

section Paths

variable {entries : Dir} {names names' : List Str} {path name : Str} {type : FileType} {f : Found}

theorem fileAt_nil (entries : Dir) : entries.fileAt [] = none := by
  induction entries with
  | nil => rfl
  | file name type perm rest ih => exact ih
  | dir name perm sub rest ihsub ih => exact ih

theorem head_mem_names (h : entries.fileAt (name :: names) = some type) : name ∈ entries.names := by
  induction entries with
  | nil => cases h
  | file name' type perm rest ih =>
    rw [Dir.fileAt] at h
    split_ifs at h with heq
    · exact (List.cons.inj heq).1 ▸ List.mem_cons_self ..
    · exact List.mem_cons_of_mem _ (ih h)
  | dir name' perm sub rest ihsub ih =>
    rw [Dir.fileAt] at h
    split_ifs at h with heq
    · exact Option.some.inj heq ▸ List.mem_cons_self ..
    · exact List.mem_cons_of_mem _ (ih h)

theorem names_ne_nil (f : Found) : f.names ≠ [] :=
  List.append_ne_nil_of_right_ne_nil _ (List.cons_ne_nil _ _)

theorem visible_file {perm : BitVec 12} {rest : Dir} {type : FileType}
    (hnew : name ∉ rest.names) : Visible (.file name type perm rest) f.names f.type ↔
      (isHidden name = false ∧ f = ⟨[], name, type⟩) ∨ Visible rest f.names f.type := by
  unfold Visible
  rw [Dir.fileAt]
  by_cases heq : f.names = [name]
  · have hnone : rest.fileAt f.names ≠ some f.type := fun h => hnew (head_mem_names (heq ▸ h))
    rw [if_pos heq, heq, List.forall_mem_singleton, Option.some.injEq]
    rcases f with ⟨dirs, name', type'⟩
    rcases dirs with _ | ⟨d, dirs⟩
    · obtain rfl := List.singleton_inj.1 heq
      refine ⟨fun ⟨ht, hv⟩ => .inl ⟨hv, ht ▸ rfl⟩, fun h => ?_⟩
      rcases h with ⟨hv, hf⟩ | ⟨hf, -⟩
      · exact ⟨(Found.mk.inj hf).2.2.symm, hv⟩
      · exact absurd (heq ▸ hf) hnone
    · simp [Found.names] at heq
  · rw [if_neg heq]
    refine ⟨.inr, fun h => h.resolve_left ?_⟩
    rintro ⟨-, rfl⟩
    exact heq rfl

theorem visible_dir {perm : BitVec 12} {sub rest : Dir} (hnew : name ∉ rest.names) :
    Visible (.dir name perm sub rest) f.names f.type ↔
      (isHidden name = false ∧ ∃ g : Found, Visible sub g.names g.type ∧ g.below name = f) ∨
        Visible rest f.names f.type := by
  have hbelow : ∀ g : Found, (g.below name).names = name :: g.names := fun g => rfl
  by_cases hhead : f.names.head? = some name
  · have hnone : ¬ Visible rest f.names f.type := fun h => by
      obtain ⟨names, hnames⟩ := List.head?_eq_some_iff.1 hhead
      exact hnew (head_mem_names (hnames ▸ h.1))
    rw [or_iff_left hnone]
    unfold Visible
    rw [Dir.fileAt, if_pos hhead]
    constructor
    · rintro ⟨hfile, hvisible⟩
      rcases f with ⟨_ | ⟨d, dirs⟩, name', type⟩
      · cases (fileAt_nil sub).symm.trans hfile
      · obtain rfl := Option.some.inj hhead
        obtain ⟨hd, hdirs⟩ := List.forall_mem_cons.1 hvisible
        exact ⟨hd, ⟨dirs, name', type⟩, ⟨hfile, hdirs⟩, rfl⟩
    · rintro ⟨hname, g, ⟨hfile, hvisible⟩, rfl⟩
      exact ⟨hfile, List.forall_mem_cons.2 ⟨hname, hvisible⟩⟩
  · unfold Visible
    rw [Dir.fileAt, if_neg hhead]
    refine ⟨.inr, fun h => h.resolve_left ?_⟩
    rintro ⟨-, g, -, rfl⟩
    exact hhead rfl

/-- The walk comes by the files that are visible. -/
theorem mem_seen (hw : entries.WellFormed) : f ∈ entries.seen ↔ Visible entries f.names f.type := by
  induction entries generalizing f with
  | nil => exact ⟨fun h => (nomatch h), fun h => (nomatch h.1)⟩
  | file name type perm rest ih =>
    obtain ⟨⟨-, -, hnew⟩, hrest⟩ := hw
    rw [Dir.seen, List.mem_append, ih hrest, visible_file hnew]
    by_cases hhidden : isHidden name = true <;> simp [hhidden]
  | dir name perm sub rest ihsub ih =>
    obtain ⟨⟨-, -, hnew⟩, hsub, hrest⟩ := hw
    rw [Dir.seen, List.mem_append, ih hrest, visible_dir hnew]
    by_cases hhidden : isHidden name = true
    · simp [hhidden]
    · simp [hhidden, ihsub hsub]

theorem head_of_mem_seen (hf : f ∈ entries.seen) : ∃ name ∈ entries.names, ∃ names,
    f.names = name :: names := by
  induction entries generalizing f with
  | nil => cases hf
  | file name type perm rest ih =>
    rcases List.mem_append.1 hf with hf | hf
    · split_ifs at hf
      · cases hf
      · exact ⟨name, List.mem_cons_self .., [], List.mem_singleton.1 hf ▸ rfl⟩
    · obtain ⟨name', hname', hnames⟩ := ih hf
      exact ⟨name', List.mem_cons_of_mem _ hname', hnames⟩
  | dir name perm sub rest ihsub ih =>
    rcases List.mem_append.1 hf with hf | hf
    · split_ifs at hf
      · cases hf
      · obtain ⟨g, -, rfl⟩ := List.mem_map.1 hf
        exact ⟨name, List.mem_cons_self .., g.names, rfl⟩
    · obtain ⟨name', hname', hnames⟩ := ih hf
      exact ⟨name', List.mem_cons_of_mem _ hname', hnames⟩

/-- The walk comes by no file twice. -/
theorem nodup_seen (hw : entries.WellFormed) : (entries.seen.map Found.names).Nodup := by
  have hnew : ∀ {name : Str} {rest : Dir} {names : List Str}, name ∉ rest.names →
      name :: names ∉ rest.seen.map Found.names := fun hname hmem => by
    obtain ⟨f, hf, heq⟩ := List.mem_map.1 hmem
    obtain ⟨name', hname', names', hnames⟩ := head_of_mem_seen hf
    rw [hnames, List.cons.injEq] at heq
    exact hname (heq.1 ▸ hname')
  induction entries with
  | nil => exact .nil
  | file name type perm rest ih =>
    obtain ⟨⟨-, -, hname⟩, hrest⟩ := hw
    rw [Dir.seen, List.map_append]
    split_ifs
    · exact ih hrest
    · exact List.nodup_cons.2 ⟨hnew hname, ih hrest⟩
  | dir name perm sub rest ihsub ih =>
    obtain ⟨⟨-, -, hname⟩, hsub, hrest⟩ := hw
    rw [Dir.seen, List.map_append]
    split_ifs
    · exact ih hrest
    · have hbelow : (sub.seen.map (Found.below name)).map Found.names =
          (sub.seen.map Found.names).map (name :: ·) := by
        rw [List.map_map, List.map_map]
        rfl
      rw [hbelow]
      refine (List.Nodup.map List.cons_injective (ihsub hsub)).append (ih hrest)
        fun names hleft hright => ?_
      obtain ⟨names', -, rfl⟩ := List.mem_map.1 hleft
      exact hnew hname hright

/-- The names are such as a file can have. -/
theorem names_of_mem_seen (hw : entries.WellFormed) (hf : f ∈ entries.seen) :
    ∀ name ∈ f.names, name ≠ [] ∧ FILE_PATH_SPLIT ∉ name := by
  induction entries generalizing f with
  | nil => cases hf
  | file name type perm rest ih =>
    obtain ⟨⟨hne, hsplit, -⟩, hrest⟩ := hw
    rcases List.mem_append.1 hf with hf | hf
    · split_ifs at hf
      · cases hf
      · rw [List.mem_singleton.1 hf]
        exact List.forall_mem_singleton.2 ⟨hne, hsplit⟩
    · exact ih hrest hf
  | dir name perm sub rest ihsub ih =>
    obtain ⟨⟨hne, hsplit, -⟩, hsub, hrest⟩ := hw
    rcases List.mem_append.1 hf with hf | hf
    · split_ifs at hf
      · cases hf
      · obtain ⟨g, hg, rfl⟩ := List.mem_map.1 hf
        exact List.forall_mem_cons.2 ⟨⟨hne, hsplit⟩, ihsub hsub hg⟩
    · exact ih hrest hf

/-- The names of directories with a separator before each. -/
def tailOf (names : List Str) : Str := (names.map (FILE_PATH_SPLIT :: ·)).flatten

theorem getLast_fullPath (path : Str) (hne : name ≠ []) (hsplit : FILE_PATH_SPLIT ∉ name) :
    (fullPath path name).getLast? ≠ some FILE_PATH_SPLIT := fun h => by
  rw [fullPath, List.getLast?_append_of_ne_nil _ hne] at h
  exact hsplit (List.mem_of_getLast? h)

theorem pathTo_eq (hnames : ∀ name ∈ names, name ≠ [] ∧ FILE_PATH_SPLIT ∉ name)
    (hpath : path.getLast? ≠ some FILE_PATH_SPLIT) : pathTo path names = path ++ tailOf names := by
  induction names generalizing path with
  | nil => exact (List.append_nil _).symm
  | cons name names ih =>
    obtain ⟨⟨hne, hsplit⟩, hnames⟩ := List.forall_mem_cons.1 hnames
    change pathTo (fullPath path name) names = _
    rw [ih hnames (getLast_fullPath path hne hsplit), fullPath, if_pos hpath, List.append_assoc,
      List.append_assoc]
    rfl

/-- The first of the names can be told from the others. -/
theorem takeWhile_tailOf (hname : FILE_PATH_SPLIT ∉ name) (names : List Str) :
    (name ++ tailOf names).takeWhile (· ≠ FILE_PATH_SPLIT) = name := by
  have hall : ∀ c ∈ name, decide (c ≠ FILE_PATH_SPLIT) = true := fun c hc =>
    decide_eq_true fun heq => hname (heq ▸ hc)
  rw [List.takeWhile_append_of_pos hall]
  cases names <;> simp [tailOf]

theorem tailOf_inj (hnames : ∀ name ∈ names, FILE_PATH_SPLIT ∉ name)
    (hnames' : ∀ name ∈ names', FILE_PATH_SPLIT ∉ name) (h : tailOf names = tailOf names') :
    names = names' := by
  induction names generalizing names' with
  | nil =>
    cases names' with
    | nil => rfl
    | cons name' names' => cases h
  | cons name names ih =>
    cases names' with
    | nil => cases h
    | cons name' names' =>
      obtain ⟨hname, hrest⟩ := List.forall_mem_cons.1 hnames
      obtain ⟨hname', hrest'⟩ := List.forall_mem_cons.1 hnames'
      have htail : name ++ tailOf names = name' ++ tailOf names' := (List.cons.inj h).2
      have hhead := congrArg (List.takeWhile (· ≠ FILE_PATH_SPLIT)) htail
      rw [takeWhile_tailOf hname, takeWhile_tailOf hname'] at hhead
      subst hhead
      rw [ih hrest hrest' (List.append_cancel_left htail)]

/-- The same for a path with a separator at its end, which stands for the first of the others. -/
theorem exists_pathTo_eq (path : Str) : ∃ base, ∀ names : List Str, names ≠ [] →
    (∀ name ∈ names, name ≠ [] ∧ FILE_PATH_SPLIT ∉ name) →
      pathTo path names = base ++ tailOf names := by
  by_cases hpath : path.getLast? = some FILE_PATH_SPLIT
  · obtain ⟨base, rfl⟩ := List.getLast?_eq_some_iff.1 hpath
    refine ⟨base, fun names hne hnames => ?_⟩
    obtain ⟨name, names, rfl⟩ := List.exists_cons_of_ne_nil hne
    obtain ⟨⟨hne, hsplit⟩, hnames⟩ := List.forall_mem_cons.1 hnames
    change pathTo (fullPath (base ++ [FILE_PATH_SPLIT]) name) names = _
    rw [pathTo_eq hnames (getLast_fullPath _ hne hsplit), fullPath, if_neg (not_not.2 hpath),
      List.append_assoc, List.append_assoc]
    rfl
  · exact ⟨path, fun names _ hnames => pathTo_eq hnames hpath⟩

/-- Different files have different paths. -/
theorem pathTo_inj (hne : names ≠ []) (hne' : names' ≠ [])
    (hnames : ∀ name ∈ names, name ≠ [] ∧ FILE_PATH_SPLIT ∉ name)
    (hnames' : ∀ name ∈ names', name ≠ [] ∧ FILE_PATH_SPLIT ∉ name)
    (h : pathTo path names = pathTo path names') : names = names' := by
  obtain ⟨base, hbase⟩ := exists_pathTo_eq path
  rw [hbase names hne hnames, hbase names' hne' hnames'] at h
  exact tailOf_inj (fun n hn => (hnames n hn).2) (fun n hn => (hnames' n hn).2)
    (List.append_cancel_left h)

end Paths

/-! ## What the walk finds -/

section Finds

variable {regcomp : Str → Option (Str → Bool)} {pattern path : Str} {tree : Tree} {f : Found}

theorem looksLikeDir_iff {type : FileType} :
    type.looksLikeDir = true ↔ type = .socket ∨ type = .blockDevice := by
  cases type <;> decide

theorem fits_iff : f.fits regcomp pattern = true ↔ f.type = .regular ∧
    Matches regcomp pattern f.name := by
  have hmatch : regexMatch regcomp f.name pattern = 0 ↔
      ∃ regexec, regcomp pattern = some regexec ∧ regexec f.name = true := by
    rw [regexMatch]
    rcases regcomp pattern with _ | regexec <;> simp
  simp [Found.fits, Matches, hmatch]

/-- What is visible is among the files that the walk comes by. -/
theorem exists_seen {names : List Str} {type : FileType} (h : Visible tree.entries names type) :
    ∃ f ∈ tree.entries.seen, f.names = names ∧ f.type = type := by
  have hne : names ≠ [] := by
    rintro rfl
    cases (fileAt_nil tree.entries).symm.trans h.1
  have hf : (⟨names.dropLast, names.getLast hne, type⟩ : Found).names = names :=
    List.dropLast_append_getLast hne
  exact ⟨_, (mem_seen tree.wellFormed).2 (hf.symm ▸ h), hf, rfl⟩

theorem mem_added {file : Str} : file ∈ added regcomp pattern path tree.entries.seen ↔
    ∃ names name, Visible tree.entries (names ++ [name]) .regular ∧
      Matches regcomp pattern name ∧ file = pathTo path (names ++ [name]) := by
  constructor
  · intro h
    obtain ⟨f, hf, rfl⟩ := List.mem_map.1 h
    obtain ⟨hf, hfits⟩ := List.mem_filter.1 hf
    obtain ⟨htype, hmatches⟩ := fits_iff.1 hfits
    exact ⟨f.dirs, f.name, htype ▸ (mem_seen tree.wellFormed).1 hf, hmatches, rfl⟩
  · rintro ⟨names, name, hvisible, hmatches, rfl⟩
    have hf : (⟨names, name, .regular⟩ : Found) ∈ tree.entries.seen :=
      (mem_seen tree.wellFormed).2 hvisible
    exact List.mem_map.2 ⟨_, List.mem_filter.2 ⟨hf, fits_iff.2 ⟨rfl, hmatches⟩⟩, rfl⟩

theorem nodup_added : (added regcomp pattern path tree.entries.seen).Nodup := by
  have hseen := nodup_seen tree.wellFormed
  refine List.Nodup.map_on (fun f hf g hg heq => ?_) ((List.Nodup.of_map _ hseen).filter _)
  have hf := (List.mem_filter.1 hf).1
  have hg := (List.mem_filter.1 hg).1
  have hnames : f.names = g.names := pathTo_inj (names_ne_nil f) (names_ne_nil g)
    (names_of_mem_seen tree.wellFormed hf) (names_of_mem_seen tree.wellFormed hg) heq
  exact List.inj_on_of_nodup_map hseen hf hg hnames

theorem foldl_list (files fileList : List Str) :
    files.foldl (fun fileList file => fileList ++ [file]) fileList = fileList ++ files := by
  induction files generalizing fileList with
  | nil => exact (List.append_nil _).symm
  | cons file files ih => rw [List.foldl_cons, ih, List.append_assoc, List.singleton_append]

theorem foldl_num (files : List Str) (fileNum : UInt64) :
    files.foldl (fun fileNum _ => fileNum + 1) fileNum =
      fileNum + UInt64.ofNat files.length := by
  induction files generalizing fileNum with
  | nil => exact (UInt64.add_zero _).symm
  | cons file files ih =>
    rw [List.foldl_cons, ih, List.length_cons, UInt64.ofNat_add, UInt64.add_assoc,
      UInt64.add_comm 1]
    rfl

/-- A socket before a regular file. -/
def socketTree : Tree where
  entries := .file (ascii "socket") .socket 0x1FF#12 (.file (ascii "file") .regular 0x1A4#12 .nil)
  wellFormed := ⟨by decide, by decide, trivial⟩

end Finds

end Longda
