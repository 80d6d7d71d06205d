import Longda.Net.ConnCb

/-!
# The bytes of a file through stdio

`writeToFile` asks `fwrite` again for what it has not written, and gives up where `fwrite` writes
nothing; the count is an `int`, so it gives up as well behind `2 ^ 31` bytes or more written at
once. `readFromFile` reads pieces of the size of its buffer until one is short, and grows its result
by each. What a file is written as, piece after piece, is what is read of it, or an error is
returned (`readFromFile_writePieces`). The one answer the receive path has for a call of
`writeToFile` stands for all that stdio may do in it (`writeToFile_answers`).
-/

namespace Longda

open Lib

namespace Stdio

/-- The modes `recvFile` opens a file with. -/
inductive OpenMode where
  | wPlus
  | a

/-- What `fopen` leaves of a file. -/
def OpenMode.kept (file : Option (List UInt8)) : OpenMode → List UInt8
  | .wPlus => []
  | .a => file.getD []

/-- What stdio does in a call of `writeToFile`. -/
structure Writes where
  fopen : Bool := true
  /-- How much the `fwrite` of the number writes if it is asked for as much. -/
  fwrite : ℕ → ℕ
  /-- What `fclose` loses of it, which nobody looks at. -/
  unflushed : ℕ := 0

theorem pos_of_writeCount {n : ℕ} (h : ¬ Int32.ofNat n ≤ 0) : 0 < n := by
  rcases Nat.eq_zero_or_pos n with rfl | hn
  · exact absurd (by decide) h
  · exact hn

/-- The `int` is taken off again as what it was before. -/
theorem leftSize_toNat {leftSize : UInt32} {n : ℕ} (hn : n ≤ leftSize.toNat) :
    (leftSize - (Int32.ofNat n).toUInt32).toNat = leftSize.toNat - n := by
  have hlt := leftSize.toNat_lt
  have hcount : (Int32.ofNat n).toUInt32.toNat = n := by
    rw [Int32.toUInt32_ofNat', UInt32.toNat_ofNat_of_lt' (by simp only [UInt32.size]; omega)]
  rw [UInt32.toNat_sub_of_le _ _ (by rw [UInt32.le_iff_toNat_le, hcount]; exact hn), hcount]

/-- The loop of `writeToFile` from the `fwrite` of the number on, and what is written by it. -/
def writeLoop (fwrite : ℕ → ℕ) (k : ℕ) (leftSize : UInt32) (buffer : List UInt8) :
    Int32 × List UInt8 :=
  if leftSize = 0 then (0, [])
  else
    let n := min (fwrite k) leftSize.toNat
    let writeCount := Int32.ofNat n
    if _h : writeCount ≤ 0 then (-1, buffer.take n)
    else
      let rest := writeLoop fwrite (k + 1) (leftSize - writeCount.toUInt32) (buffer.drop n)
      (rest.1, buffer.take n ++ rest.2)
  termination_by leftSize.toNat
  decreasing_by
    have hpos := pos_of_writeCount _h
    rw [leftSize_toNat (Nat.min_le_right _ _)]
    omega

def writeToFile (e : Writes) (file : Option (List UInt8)) (data : List UInt8) (dataSize : UInt32)
    (openMode : OpenMode) : Int32 × Option (List UInt8) :=
  if e.fopen then
    let res := writeLoop e.fwrite 0 dataSize data
    (res.1, some (openMode.kept file ++ res.2.take (res.2.length - e.unflushed)))
  else (-1, file)

/-- What stdio and the allocator do in a call of `readFromFile`, by the turn of its loop. -/
structure Reads where
  fopen : Bool := true
  ferror : ℕ → Bool := fun _ => false
  lrealloc : ℕ → Bool := fun _ => true

def ONE_KILO : ℕ := 1024

/-- The loop of `readFromFile` from the turn of the number on. There is no more of the file where
less than the buffer has been read. -/
def readLoop (r : Reads) (k : ℕ) (file data : List UInt8) : Int32 × Option (List UInt8) :=
  if r.ferror k then (-1, none)
  else if r.lrealloc k = false then (-1, none)
  else if _h : file.length < 4 * ONE_KILO then (0, some (data ++ file))
  else readLoop r (k + 1) (file.drop (4 * ONE_KILO)) (data ++ file.take (4 * ONE_KILO))
  termination_by file.length
  decreasing_by
    rw [List.length_drop]
    unfold ONE_KILO at *
    omega

/-- What is returned, and what `outputData` and `fileSize` are set to, if they are set. -/
def readFromFile (r : Reads) (file : Option (List UInt8)) : Int32 × Option (List UInt8) :=
  match file with
  | none => (-1, none)
  | some bytes => if r.fopen then readLoop r 0 bytes [] else (-1, none)

/-! ## One call -/

variable {fwrite : ℕ → ℕ} {k : ℕ} {leftSize : UInt32} {buffer data old : List UInt8}
  {file : Option (List UInt8)} {mode : OpenMode} {e : Writes}
  {ps : List (Writes × List UInt8)}

/-- What is written is what comes first, and all of it if no error is returned. -/
theorem writeLoop_prefix (fwrite : ℕ → ℕ) (k : ℕ) (hlen : buffer.length = leftSize.toNat) :
    ∃ m, (writeLoop fwrite k leftSize buffer).2 = buffer.take m ∧
      ((writeLoop fwrite k leftSize buffer).1 = 0 ∧ m = buffer.length
        ∨ (writeLoop fwrite k leftSize buffer).1 = -1 ∧ buffer ≠ []) := by
  fun_induction writeLoop fwrite k leftSize buffer with
  | case1 k buffer =>
    obtain rfl : buffer = [] := List.length_eq_zero_iff.1 hlen
    exact ⟨0, rfl, .inl ⟨rfl, rfl⟩⟩
  | case2 k leftSize buffer hne n writeCount hcount =>
    refine ⟨n, rfl, .inr ⟨rfl, ?_⟩⟩
    rintro rfl
    exact hne (UInt32.toNat_inj.1 hlen.symm)
  | case3 k leftSize buffer hne n writeCount hcount rest ih =>
    have hle : n ≤ leftSize.toNat := Nat.min_le_right _ _
    have hpos := pos_of_writeCount hcount
    obtain ⟨m, hm, hrc⟩ := ih (by rw [List.length_drop, hlen, leftSize_toNat hle])
    refine ⟨n + m, ?_, ?_⟩
    · change buffer.take n ++ rest.2 = _
      rw [hm, List.take_add]
    · refine hrc.imp (fun h => ⟨h.1, ?_⟩) fun h => ⟨h.1, ?_⟩
      · rw [h.2, List.length_drop, hlen]
        omega
      · rintro rfl
        exact h.2 List.drop_nil

/-- All is written at once, but as an `int` the count is negative. -/
theorem writeLoop_huge (hlen : buffer.length = leftSize.toNat) (hge : 2 ^ 31 ≤ buffer.length)
    (hk : buffer.length ≤ fwrite k) : writeLoop fwrite k leftSize buffer = (-1, buffer) := by
  have hlt := leftSize.toNat_lt
  have hn : min (fwrite k) leftSize.toNat = buffer.length := by omega
  have hne : leftSize ≠ 0 := by
    rintro rfl
    rw [hlen] at hge
    exact absurd hge (by decide)
  have hint : Int32.ofNat buffer.length ≤ 0 := by
    rw [Int32.le_iff_toInt_le, Int32.toInt_ofNat', Int.bmod_def, Int32.toInt_zero]
    simp only [Int32.size]
    split_ifs <;> omega
  rw [writeLoop, if_neg hne]
  simp only [hn, dif_pos hint, List.take_length]

/-- Where `fwrite` writes nothing, the loop is left. -/
theorem writeLoop_stuck (hk : fwrite k = 0) (hne : leftSize ≠ 0) :
    writeLoop fwrite k leftSize buffer = (-1, []) := by
  rw [writeLoop, if_neg hne, hk, Nat.zero_min]
  rfl

/-- The first `fwrite` writes less than all, and the second one nothing. -/
theorem writeLoop_short (count : ℕ) (hlt : leftSize.toNat < 2 ^ 31)
    (hcount : count < leftSize.toNat) (h0 : fwrite k = count) (h1 : fwrite (k + 1) = 0) :
    writeLoop fwrite k leftSize buffer = (-1, buffer.take count) := by
  have hne : leftSize ≠ 0 := by
    rintro rfl
    exact absurd hcount (Nat.not_lt_zero _)
  rcases Nat.eq_zero_or_pos count with rfl | hpos
  · exact writeLoop_stuck h0 hne
  · have hn : min (fwrite k) leftSize.toNat = count := by omega
    have hint : ¬ Int32.ofNat count ≤ 0 := by
      rw [Int32.le_iff_toInt_le, Int32.toInt_ofNat_of_lt (by omega), Int32.toInt_zero]
      omega
    have hleft : leftSize - (Int32.ofNat count).toUInt32 ≠ 0 := by
      intro h
      have := leftSize_toNat (Nat.le_of_lt hcount)
      rw [h, UInt32.toNat_zero] at this
      omega
    rw [writeLoop, if_neg hne]
    simp only [hn, dif_neg hint]
    rw [writeLoop_stuck h1 hleft, List.append_nil]

/-- Where `fwrite` gets on, all is written, if no count is negative as an `int`. -/
theorem writeLoop_ok (hlen : buffer.length = leftSize.toNat) (hlt : buffer.length < 2 ^ 31)
    (hpos : ∀ k, 0 < fwrite k) : (writeLoop fwrite k leftSize buffer).1 = 0 := by
  fun_induction writeLoop fwrite k leftSize buffer with
  | case1 => rfl
  | case2 k leftSize buffer hne n writeCount hcount =>
    have hleft : leftSize.toNat ≠ 0 := fun h => hne (UInt32.toNat_inj.1 h)
    have hk := hpos k
    have hn : 0 < n ∧ n ≤ leftSize.toNat := by omega
    rw [Int32.le_iff_toInt_le, Int32.toInt_ofNat_of_lt (by omega)] at hcount
    rw [Int32.toInt_zero] at hcount
    omega
  | case3 k leftSize buffer hne n writeCount hcount rest ih =>
    have hle : n ≤ leftSize.toNat := Nat.min_le_right _ _
    exact ih (by rw [List.length_drop, hlen, leftSize_toNat hle])
      (by rw [List.length_drop]; omega)

theorem writeToFile_prefix (file : Option (List UInt8)) (mode : OpenMode)
    (hlen : data.length < 2 ^ 32) (hflush : e.unflushed = 0) :
    writeToFile e file data (UInt32.ofNat data.length) mode = (-1, file) ∧ e.fopen = false
      ∨ ∃ rc m, writeToFile e file data (UInt32.ofNat data.length) mode
          = (rc, some (mode.kept file ++ data.take m))
        ∧ (rc = 0 ∧ m = data.length ∨ rc = -1 ∧ data ≠ []) := by
  unfold writeToFile
  rcases hopen : e.fopen with _ | _
  · exact .inl ⟨rfl, rfl⟩
  · obtain ⟨m, hm, hrc⟩ := writeLoop_prefix e.fwrite 0 (UInt32.toNat_ofNat_of_lt' hlen).symm
    refine .inr ⟨_, m, ?_, hrc⟩
    simp only [if_true, hm, hflush, Nat.sub_zero, List.take_length]

/-- Stdio opens the file and gets on with the bytes, and no count is negative as an `int`. -/
def Writes.Smooth (e : Writes) (data : List UInt8) : Prop :=
  e.fopen = true ∧ data.length < 2 ^ 31 ∧ ∀ k, 0 < e.fwrite k

theorem writeToFile_ok (file : Option (List UInt8)) (mode : OpenMode) (h : e.Smooth data) :
    (writeToFile e file data (UInt32.ofNat data.length) mode).1 = 0 := by
  obtain ⟨hopen, hlt, hpos⟩ := h
  unfold writeToFile
  rw [hopen, if_pos rfl]
  exact writeLoop_ok (UInt32.toNat_ofNat_of_lt' (by simp only [UInt32.size]; omega)).symm hlt hpos

/-! ## Reading -/

/-- The turn of the number goes well. -/
def Reads.well (r : Reads) (k : ℕ) : Bool := !r.ferror k && r.lrealloc k

/-- All turns go well that there are for a file of the size. -/
def Reads.grants (r : Reads) (size : ℕ) : Bool :=
  r.fopen && (List.range' 0 (size / (4 * ONE_KILO) + 1)).all r.well

theorem readLoop_eq (r : Reads) (k : ℕ) (bytes data : List UInt8) : readLoop r k bytes data =
    if (List.range' k (bytes.length / (4 * ONE_KILO) + 1)).all r.well then (0, some (data ++ bytes))
    else (-1, none) := by
  fun_induction readLoop r k bytes data with
  | case1 k bytes data hferror =>
    rw [List.range'_succ, List.all_cons, Reads.well, hferror]
    rfl
  | case2 k bytes data hferror hrealloc =>
    rw [List.range'_succ, List.all_cons, Reads.well, hrealloc, Bool.and_false]
    rfl
  | case3 k bytes data hferror hrealloc hshort =>
    have hwell : r.well k = true := by simp [Reads.well, hferror, hrealloc]
    rw [Nat.div_eq_of_lt hshort, List.range'_succ, List.all_cons, hwell]
    rfl
  | case4 k bytes data hferror hrealloc hshort ih =>
    have hwell : r.well k = true := by simp [Reads.well, hferror, hrealloc]
    have hturns : (bytes.drop (4 * ONE_KILO)).length / (4 * ONE_KILO) + 1
        = bytes.length / (4 * ONE_KILO) := by
      rw [List.length_drop]
      exact (Nat.div_eq_sub_div (by decide) (Nat.le_of_not_lt hshort)).symm
    rw [ih, hturns, List.range'_succ, List.all_cons, hwell, Bool.true_and, List.append_assoc,
      List.take_append_drop]

theorem readFromFile_eq (r : Reads) (bytes : List UInt8) : readFromFile r (some bytes) =
    if r.grants bytes.length then (0, some bytes) else (-1, none) := by
  unfold readFromFile Reads.grants
  cases r.fopen
  · rfl
  · exact readLoop_eq r 0 bytes []

/-! ## Piece after piece -/

/-- The calls for the pieces of a file, as long as no error is returned. -/
def writePieces (file : Option (List UInt8)) (mode : OpenMode) :
    List (Writes × List UInt8) → Int32 × Option (List UInt8)
  | [] => (0, file)
  | p :: ps =>
    let res := writeToFile p.1 file p.2 (UInt32.ofNat p.2.length) mode
    if res.1 = 0 then writePieces res.2 .a ps else res

/-- The sizes are such as a `u32_t` can tell, and nothing is lost by an `fclose`. -/
def Sized (ps : List (Writes × List UInt8)) : Prop :=
  ∀ p ∈ ps, p.2.length < 2 ^ 32 ∧ p.1.unflushed = 0

def contents (ps : List (Writes × List UInt8)) : List UInt8 := ps.flatMap (·.2)

theorem contents_cons (p : Writes × List UInt8) (ps : List (Writes × List UInt8)) :
    contents (p :: ps) = p.2 ++ contents ps := List.flatMap_cons

theorem writePieces_ok {p : Writes × List UInt8} {file' : Option (List UInt8)}
    (h : writeToFile p.1 file p.2 (UInt32.ofNat p.2.length) mode = (0, file')) :
    writePieces file mode (p :: ps) = writePieces file' .a ps := by
  simp only [writePieces, h, if_true]

theorem writePieces_error {p : Writes × List UInt8} {file' : Option (List UInt8)}
    (h : writeToFile p.1 file p.2 (UInt32.ofNat p.2.length) mode = (-1, file')) :
    writePieces file mode (p :: ps) = (-1, file') := by
  have hne : (-1 : Int32) ≠ 0 := by decide
  simp only [writePieces, h, if_neg hne]

/-- The pieces are in the file as far as it came, from where the first call began to write. -/
theorem writePieces_cons (file : Option (List UInt8)) (mode : OpenMode) {p : Writes × List UInt8}
    (hps : Sized (p :: ps)) :
    writePieces file mode (p :: ps) = (-1, file)
      ∨ ∃ rc m, writePieces file mode (p :: ps)
          = (rc, some (mode.kept file ++ (contents (p :: ps)).take m))
        ∧ (rc = 0 ∧ m = (contents (p :: ps)).length ∨ rc = -1) := by
  induction ps generalizing p file mode with
  | nil =>
    obtain ⟨hp, hflush⟩ := hps p List.mem_cons_self
    have hcontents : contents [p] = p.2 := List.flatMap_singleton ..
    rcases writeToFile_prefix file mode hp hflush with
      ⟨h, -⟩ | ⟨rc, m, h, ⟨rfl, rfl⟩ | ⟨rfl, -⟩⟩
    · exact .inl (writePieces_error h)
    · refine .inr ⟨0, p.2.length, ?_, .inl ⟨rfl, congrArg _ hcontents.symm⟩⟩
      rw [writePieces_ok h, hcontents]
      rfl
    · refine .inr ⟨-1, m, ?_, .inr rfl⟩
      rw [writePieces_error h, hcontents]
  | cons q ps ih =>
    obtain ⟨hp, hflush⟩ := hps p List.mem_cons_self
    rw [contents_cons p]
    rcases writeToFile_prefix file mode hp hflush with
      ⟨h, -⟩ | ⟨rc, m, h, ⟨rfl, rfl⟩ | ⟨rfl, -⟩⟩
    · exact .inl (writePieces_error h)
    · rw [writePieces_ok h, List.take_length]
      rcases ih (some (mode.kept file ++ p.2)) .a
        (fun q' hq => hps q' (List.mem_cons_of_mem _ hq)) with hrest | ⟨rc, m, hrest, hrc⟩
      · refine .inr ⟨-1, p.2.length, ?_, .inr rfl⟩
        rw [hrest, List.take_left]
      · refine .inr ⟨rc, p.2.length + m, ?_, hrc.imp_left fun h => ⟨h.1, ?_⟩⟩
        · rw [hrest, List.take_length_add_append, ← List.append_assoc]
          rfl
        · rw [List.length_append, h.2]
    · refine .inr ⟨-1, min m p.2.length, ?_, .inr rfl⟩
      rw [writePieces_error h, List.take_append_of_le_length (Nat.min_le_right _ _),
        ← List.take_eq_take_min]

theorem writePieces_smooth (hps : ∀ p ∈ ps, p.1.Smooth p.2) :
    (writePieces file mode ps).1 = 0 := by
  induction ps generalizing file mode with
  | nil => rfl
  | cons p ps ih =>
    rw [writePieces_ok (Prod.ext (writeToFile_ok file mode (hps p List.mem_cons_self)) rfl)]
    exact ih fun q hq => hps q (List.mem_cons_of_mem _ hq)

/-- A file that was written piece after piece, however stdio divides them up, is read back as it was
written, or an error is returned because a turn did not go well. Where a piece was not written to
its end, the file has what comes first, or is as before if it could not be opened at all. -/
theorem readFromFile_writePieces (r : Reads) (file : Option (List UInt8))
    {p : Writes × List UInt8} (hps : Sized (p :: ps)) :
    ((∀ q ∈ p :: ps, q.1.Smooth q.2) → (writePieces file .wPlus (p :: ps)).1 = 0) ∧
    ((writePieces file .wPlus (p :: ps)).1 = 0 →
      readFromFile r (writePieces file .wPlus (p :: ps)).2 =
        if r.grants (contents (p :: ps)).length then (0, some (contents (p :: ps)))
        else (-1, none)) ∧
    ((writePieces file .wPlus (p :: ps)).1 ≠ 0 →
      (writePieces file .wPlus (p :: ps)).2 = file
        ∨ ∃ m, (writePieces file .wPlus (p :: ps)).2 = some ((contents (p :: ps)).take m)) := by
  have hne : (-1 : Int32) ≠ 0 := by decide
  refine ⟨writePieces_smooth, ?_⟩
  rcases writePieces_cons file .wPlus hps with h | ⟨rc, m, h, hrc⟩ <;> rw [h]
  · exact ⟨fun h => absurd h hne, fun _ => .inl rfl⟩
  · refine ⟨fun hz => ?_, fun _ => .inr ⟨m, rfl⟩⟩
    rcases hrc with ⟨-, rfl⟩ | rfl
    · rw [List.take_length]
      exact readFromFile_eq r _
    · exact absurd hz hne

/-- Two pieces, the first of which takes two calls of `fwrite`. -/
def twoPieces : List (Writes × List UInt8) :=
  [({ fwrite := fun _ => 1 }, [1, 2]), ({ fwrite := fun _ => 7 }, [3])]

theorem readFromFile_writePieces_two :
    readFromFile {} (writePieces none .wPlus twoPieces).2 = (0, some [1, 2, 3]) := by
  have hps : Sized twoPieces := by simp [Sized, twoPieces]
  obtain ⟨hsmooth, hread, -⟩ := readFromFile_writePieces {} none hps
  exact (hread (hsmooth (by simp [Writes.Smooth]))).trans rfl

/-! ## What the receive path sees of a call -/

def openMode (append : Bool) : OpenMode := if append then .a else .wPlus

theorem kept_openMode (append : Bool) :
    (openMode append).kept file = if append then file.getD [] else [] := by
  cases append <;> rfl

/-- The call in the receive path returns what stdio makes of it, and leaves the file as it does. -/
def Answers (e : Writes) (env : Env) (w : World) (fileName : Path) (data : List UInt8)
    (append : Bool) : Prop :=
  Ends (Longda.writeToFile env fileName data append) w
    (fun ok t => ∃ rc file', writeToFile e (w.localFiles (cStr fileName)) data
        (UInt32.ofNat data.length) (openMode append) = (rc, file') ∧ (ok = true ↔ rc = 0) ∧
      t = { w with
        writes := w.writes + 1
        localFiles := Function.update w.localFiles (cStr fileName) file' })
    fun _ _ => False

variable {env : Env} {w : World} {fileName : Path} {append : Bool}

theorem answers_notOpened (h : writeToFile e (w.localFiles (cStr fileName)) data
      (UInt32.ofNat data.length) (openMode append) = (-1, w.localFiles (cStr fileName)))
    (ha : env.disk w.writes = .notOpened) : Answers e env w fileName data append := by
  unfold Answers Longda.writeToFile
  simp only [ends_bind, ends_get, ha, ends_set, ends_pure]
  refine ⟨_, _, h, by decide, ?_⟩
  rw [Function.update_eq_self]

theorem answers_written (h : writeToFile e (w.localFiles (cStr fileName)) data
      (UInt32.ofNat data.length) (openMode append)
        = (0, some ((openMode append).kept (w.localFiles (cStr fileName)) ++ data)))
    (ha : env.disk w.writes = .written) : Answers e env w fileName data append := by
  unfold Answers Longda.writeToFile
  simp only [ends_bind, ends_get, ha, ends_set, ends_pure]
  refine ⟨_, _, h, by decide, ?_⟩
  rw [kept_openMode]

theorem answers_short (rc : Int32) {count : ℕ}
    (h : writeToFile e (w.localFiles (cStr fileName)) data
      (UInt32.ofNat data.length) (openMode append)
        = (rc, some ((openMode append).kept (w.localFiles (cStr fileName)) ++ data.take count)))
    (hrc : data = [] ↔ rc = 0) (ha : env.disk w.writes = .short count) :
    Answers e env w fileName data append := by
  unfold Answers Longda.writeToFile
  simp only [ends_bind, ends_get, ha, ends_set, ends_pure]
  refine ⟨_, _, h, ?_, ?_⟩
  · rw [List.isEmpty_iff, hrc]
  · rw [kept_openMode]

/-- For all that stdio does in a call there is an answer that says so, and each answer says what
stdio may do: for a block that is not too large, if it does not speak of a failure behind the last
byte. -/
theorem writeToFile_answers (env : Env) (w : World) (fileName : Path) (data : List UInt8)
    (append : Bool) :
    (∀ e : Writes, e.unflushed = 0 → data.length < 2 ^ 32 →
      ∃ a, Answers e { env with disk := fun _ => a } w fileName data append) ∧
    (data.length < 2 ^ 31 →
      (∀ count, env.disk w.writes = .short count → data = [] ∨ count < data.length) →
      ∃ e : Writes, e.unflushed = 0 ∧ Answers e env w fileName data append) := by
  have hne : (-1 : Int32) ≠ 0 := by decide
  refine ⟨fun e hflush hlen => ?_, fun hlen hshort => ?_⟩
  · rcases writeToFile_prefix (w.localFiles (cStr fileName)) (openMode append) hlen hflush with
      ⟨h, -⟩ | ⟨rc, m, h, ⟨rfl, rfl⟩ | ⟨rfl, hdata⟩⟩
    · exact ⟨.notOpened, answers_notOpened h rfl⟩
    · rw [List.take_length] at h
      exact ⟨.written, answers_written h rfl⟩
    · exact ⟨.short m, answers_short _ h (iff_of_false hdata hne) rfl⟩
  · have hsize : (UInt32.ofNat data.length).toNat = data.length :=
      UInt32.toNat_ofNat_of_lt' (by simp only [UInt32.size]; omega)
    -- stdio writes as much as there is
    have hwhole : ∃ file', writeToFile { fwrite := fun _ => 1 } (w.localFiles (cStr fileName)) data
        (UInt32.ofNat data.length) (openMode append) = (0, some file') ∧
          file' = (openMode append).kept (w.localFiles (cStr fileName)) ++ data := by
      have hsmooth : Writes.Smooth { fwrite := fun _ => 1 } data :=
        ⟨rfl, hlen, fun _ => Nat.one_pos⟩
      have hok := writeToFile_ok (w.localFiles (cStr fileName)) (openMode append) hsmooth
      have hflush : Writes.unflushed { fwrite := fun _ => 1 } = 0 := rfl
      have hlen' : data.length < 2 ^ 32 := by omega
      rcases writeToFile_prefix (w.localFiles (cStr fileName)) (openMode append) hlen' hflush with
        ⟨-, h⟩ | ⟨rc, m, h, ⟨rfl, rfl⟩ | ⟨rfl, -⟩⟩
      · exact absurd h (by decide)
      · exact ⟨_, h, by rw [List.take_length]⟩
      · rw [h] at hok
        exact absurd hok hne
    obtain ⟨file', hwhole, rfl⟩ := hwhole
    cases ha : env.disk w.writes with
    | written => exact ⟨_, rfl, answers_written hwhole ha⟩
    | notOpened =>
      exact ⟨{ fopen := false, fwrite := fun _ => 0 }, rfl, answers_notOpened rfl ha⟩
    | short count =>
      rcases hshort count ha with rfl | hcount
      · exact ⟨_, rfl, answers_short _ (by rw [List.take_nil]; exact hwhole) (by simp) ha⟩
      · refine ⟨{ fwrite := fun k => if k = 0 then count else 0 }, rfl,
          answers_short (-1) ?_ (iff_of_false ?_ hne) ha⟩
        · unfold writeToFile
          rw [writeLoop_short count (by omega) (by omega) rfl rfl]
          simp only [if_true, Nat.sub_zero, List.take_length]
        · rintro rfl
          exact absurd hcount (Nat.not_lt_zero _)

/-- The disk writes everything. -/
def writingEnv : Env where
  gMaxBlockSize := 4096
  gMaxBlockSize_pos := by decide
  gMaxBlockSize_lt := by decide
  deserialize := fun _ _ => none
  mem := fun _ => true
  disk := fun _ => .written
  select := fun _ => []
  usec := fun _ => 0

theorem writeToFile_answers_written :
    (∃ a, Answers { fwrite := fun _ => 1 } { writingEnv with disk := fun _ => a } {} [97] [1, 2]
      false) ∧ ∃ e : Writes, e.unflushed = 0 ∧ Answers e writingEnv {} [97] [1, 2] false :=
  ⟨(writeToFile_answers writingEnv {} [97] [1, 2] false).1 _ rfl (by decide),
    (writeToFile_answers writingEnv {} [97] [1, 2] false).2 (by decide) (fun _ h => by cases h)⟩

end Stdio

end Longda
