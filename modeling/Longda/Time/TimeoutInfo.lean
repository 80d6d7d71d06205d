import Longda.Lib.Machine
import Longda.Lib.MachineInt
import Longda.Lib.RefCount

/-!
# Shared timeout infos

Events point to timeout infos, several of them to one if they share it, and an info counts them. As
long as the counts are those of the pointers, an info is freed when the last event lets go of it and
no event points to a freed one (`Accounted`). `setTimeoutInfo` lets go of the old info before it
takes the new one: an event that shares with itself, and is alone with its info, frees what it then
points to.
-/

namespace Longda

open Lib

abbrev InfoId := ℕ

structure TimeoutInfo where
  deadline : ℤ
  isTimedOut : Bool := false
  refCnt : Int32 := 0
  deriving DecidableEq

namespace TimeoutInfo

def attach (info : TimeoutInfo) : TimeoutInfo := { info with refCnt := info.refCnt + 1 }

/-- What is left of the info, unless it deletes itself. -/
def detach (info : TimeoutInfo) : Option TimeoutInfo :=
  if info.refCnt - 1 = 0 then none else some { info with refCnt := info.refCnt - 1 }

end TimeoutInfo

/-- The live events with the infos they point to, and the infos that have been made so far. -/
structure Timeouts (ε : Type) [LinearOrder ε] where
  tmInfo : OrderedMap ε (Option InfoId) := .empty
  infos : InfoId → Option TimeoutInfo := fun _ => none
  made : ℕ := 0
  freed : List InfoId := []

namespace Timeouts

variable {ε : Type} [LinearOrder ε]

/-- What is done to freed memory has no effect on what is live. -/
def attach (s : Timeouts ε) (i : InfoId) : Timeouts ε :=
  match s.infos i with
  | none => s
  | some info => { s with infos := Function.update s.infos i (some info.attach) }

def detach (s : Timeouts ε) (i : InfoId) : Timeouts ε :=
  match s.infos i with
  | none => s
  | some info =>
    match info.detach with
    | none => { s with infos := Function.update s.infos i none, freed := i :: s.freed }
    | some info => { s with infos := Function.update s.infos i (some info) }

/-- `setTimeoutInfo(TimeoutInfo*)` on a live event. -/
def setTimeoutInfo (s : Timeouts ε) (e : ε) (tmi : Option InfoId) : Option (Timeouts ε) := do
  let old ← s.tmInfo.find? e
  let s := old.elim s s.detach
  let s := { s with tmInfo := s.tmInfo.set e tmi }
  some (tmi.elim s s.attach)

/-- `~StageEvent`, what it does about the info. -/
def destroy (s : Timeouts ε) (e : ε) : Option (Timeouts ε) := do
  let old ← s.tmInfo.find? e
  let s := old.elim s s.detach
  some { s with tmInfo := s.tmInfo.erase e }

/-- `new TimeoutInfo`. -/
def newInfo (s : Timeouts ε) (deadline : ℤ) : Timeouts ε :=
  { s with infos := Function.update s.infos s.made (some { deadline }), made := s.made + 1 }

end Timeouts

inductive TimeoutOp (ε : Type)
  | create (e : ε)
  | setDeadline (e : ε) (deadline : ℤ)
  | share (e ev : ε)
  | destroy (e : ε)

namespace Timeouts

variable {ε : Type} [LinearOrder ε]

/-- Only a live event is used, and only one that is not is created. -/
def step (s : Timeouts ε) : TimeoutOp ε → Option (Timeouts ε)
  | .create e =>
    if (s.tmInfo.find? e).isSome then none
    else some { s with tmInfo := s.tmInfo.set e none }
  | .setDeadline e deadline => (s.newInfo deadline).setTimeoutInfo e (some s.made)
  | .share e ev => do s.setTimeoutInfo e (← s.tmInfo.find? ev)
  | .destroy e => s.destroy e

def machine : Machine (Timeouts ε) (TimeoutOp ε) := ⟨step⟩

def start : Timeouts ε := {}

/-- An info counts the events that point to it, is freed once, when there are no more of them, and
nothing points to a freed one. -/
structure Accounted (s : Timeouts ε) : Prop where
  count : ∀ i info, s.infos i = some info → info.refCnt.toInt = holders s.tmInfo i
  live : ∀ i, (s.infos i).isSome ↔ 0 < holders s.tmInfo i
  freed : ∀ i, i ∈ s.freed ↔ i < s.made ∧ holders s.tmInfo i = 0
  once : s.freed.Nodup
  pointed : ∀ e i, s.tmInfo.find? e = some (some i) → (s.infos i).isSome ∧ i < s.made

/-- An event alone with its info does not share with itself, and an info that has as many events as
its counter can count is not shared with one more. -/
def Tame (s : Timeouts ε) : TimeoutOp ε → Prop
  | .share e ev => ∀ i ∈ (s.tmInfo.find? ev).join,
    if s.tmInfo.find? e = some (some i) then holders s.tmInfo i ≠ 1
    else holders s.tmInfo i < 2 ^ 31 - 1
  | _ => True

instance (s : Timeouts ε) : DecidablePred s.Tame
  | .create _ | .setDeadline _ _ | .destroy _ => isTrue trivial
  | .share _ ev => inferInstanceAs (Decidable (∀ i ∈ (s.tmInfo.find? ev).join, _))

/-- The infos are counted as `n` says, but for one that has just been made and nobody counts. -/
structure Counts (s : Timeouts ε) (n : InfoId → ℕ) (fresh : Option InfoId) : Prop where
  count : ∀ i info, s.infos i = some info → info.refCnt.toInt = n i
  live : ∀ i, (s.infos i).isSome ↔ 0 < n i ∨ fresh = some i
  freed : ∀ i, i ∈ s.freed ↔ i < s.made ∧ n i = 0 ∧ fresh ≠ some i
  once : s.freed.Nodup
  made : ∀ i, (s.infos i).isSome → i < s.made

variable {s t : Timeouts ε} {n : InfoId → ℕ} {fresh : Option InfoId} {i : InfoId}

theorem accounted_iff_counts : s.Accounted ↔ s.Counts (holders s.tmInfo) none := by
  constructor
  · intro h
    refine ⟨h.count, fun i => by simp [h.live], fun i => by simp [h.freed], h.once, fun i hi => ?_⟩
    obtain ⟨e, he⟩ := holders_pos_iff.1 ((h.live i).1 hi)
    exact (h.pointed e i he).2
  · intro h
    refine ⟨h.count, fun i => by simp [h.live], fun i => by simp [h.freed], h.once,
      fun e i he => ?_⟩
    have hi : (s.infos i).isSome := (h.live i).2 (.inl (holders_pos_iff.2 ⟨e, he⟩))
    exact ⟨hi, h.made i hi⟩

theorem detach_eq {info : TimeoutInfo} (h : s.infos i = some info) : s.detach i = { s with
    infos := Function.update s.infos i info.detach
    freed := if info.refCnt - 1 = 0 then i :: s.freed else s.freed } := by
  unfold Timeouts.detach TimeoutInfo.detach
  split_ifs with hz <;> simp [h, hz]

theorem attach_eq {info : TimeoutInfo} (h : s.infos i = some info) :
    s.attach i = { s with infos := Function.update s.infos i (some info.attach) } := by
  unfold Timeouts.attach
  rw [h]

theorem toInt_sub_one {c : Int32} {k : ℕ} (hc : c.toInt = k) (hk : 0 < k) :
    (c - 1).toInt = (k - 1 : ℕ) := by
  have h1 : (1 : Int32).toInt = 1 := rfl
  have hlt := c.toInt_lt
  rw [Int32.toInt_sub, hc, h1, Int.bmod_def]
  split_ifs <;> omega

theorem toInt_add_one {c : Int32} {k : ℕ} (hc : c.toInt = k) :
    (c + 1).toInt = (k + 1 : ℕ) ↔ k < 2 ^ 31 - 1 := by
  have h1 : (1 : Int32).toInt = 1 := rfl
  have hlt := c.toInt_lt
  rw [Int32.toInt_add, hc, h1, Int.bmod_def]
  split_ifs <;> omega

theorem Counts.detach (h : s.Counts n fresh) (hi : 0 < n i) (hne : fresh ≠ some i) :
    (s.detach i).Counts (Function.update n i (n i - 1)) fresh := by
  obtain ⟨info, hinfo⟩ := Option.isSome_iff_exists.1 ((h.live i).2 (.inl hi))
  have hcount := toInt_sub_one (h.count i info hinfo) hi
  have hmade := h.made i (by rw [hinfo]; rfl)
  have hzero : info.refCnt - 1 = 0 ↔ n i - 1 = 0 := by
    rw [← Int32.toInt_inj, hcount]
    exact Int.natCast_eq_zero
  rw [detach_eq hinfo]
  unfold TimeoutInfo.detach
  refine ⟨fun j info' hj => ?_, fun j => ?_, fun j => ?_, ?_, fun j hj => ?_⟩
  all_goals dsimp only at *
  · rcases eq_or_ne j i with rfl | hji
    · rw [Function.update_self] at hj ⊢
      split_ifs at hj with hz
      obtain rfl := Option.some.inj hj
      exact hcount
    · rw [Function.update_of_ne hji] at hj ⊢
      exact h.count j info' hj
  · rcases eq_or_ne j i with rfl | hji
    · rw [Function.update_self, Function.update_self]
      split_ifs with hz
      · simp [hne, hzero.1 hz]
      · simp [hne, Nat.pos_of_ne_zero (mt hzero.2 hz)]
    · rw [Function.update_of_ne hji, Function.update_of_ne hji]
      exact h.live j
  · rcases eq_or_ne j i with rfl | hji
    · rw [Function.update_self]
      split_ifs with hz
      · simp [hne, hmade, hzero.1 hz]
      · simp [h.freed, hi.ne', mt hzero.2 hz]
    · rw [Function.update_of_ne hji, ← h.freed]
      split_ifs <;> simp [hji]
  · split_ifs with hz
    · exact List.nodup_cons.2 ⟨fun hmem => hi.ne' ((h.freed i).1 hmem).2.1, h.once⟩
    · exact h.once
  · rcases eq_or_ne j i with rfl | hji
    · exact hmade
    · rw [Function.update_of_ne hji] at hj
      exact h.made j hj

theorem Counts.attach (h : s.Counts n fresh) (hi : 0 < n i ∨ fresh = some i)
    (hfresh : ∀ j, fresh = some j → j = i) (hlt : n i < 2 ^ 31 - 1) :
    (s.attach i).Counts (Function.update n i (n i + 1)) none := by
  obtain ⟨info, hinfo⟩ := Option.isSome_iff_exists.1 ((h.live i).2 hi)
  have hcount := (toInt_add_one (h.count i info hinfo)).2 hlt
  have hmade := h.made i (by rw [hinfo]; rfl)
  have hother : ∀ j, j ≠ i → fresh ≠ some j := fun j hji hf => hji (hfresh j hf)
  rw [attach_eq hinfo]
  refine ⟨fun j info' hj => ?_, fun j => ?_, fun j => ?_, h.once, fun j hj => ?_⟩
  all_goals dsimp only at *
  · rcases eq_or_ne j i with rfl | hji
    · rw [Function.update_self] at hj ⊢
      obtain rfl := Option.some.inj hj
      exact hcount
    · rw [Function.update_of_ne hji] at hj ⊢
      exact h.count j info' hj
  · rcases eq_or_ne j i with rfl | hji
    · simp
    · rw [Function.update_of_ne hji, Function.update_of_ne hji, h.live]
      simp [hother j hji]
  · rcases eq_or_ne j i with rfl | hji
    · simp only [h.freed, Function.update_self, Nat.add_one_ne_zero, false_and, and_false,
        iff_false]
      exact fun hj => hi.elim (fun hpos => hpos.ne' hj.2.1) hj.2.2
    · rw [h.freed, Function.update_of_ne hji]
      simp [hother j hji]
  · rcases eq_or_ne j i with rfl | hji
    · exact hmade
    · rw [Function.update_of_ne hji] at hj
      exact h.made j hj

theorem Counts.newInfo (h : s.Counts n none) (deadline : ℤ) (hn : n s.made = 0) :
    (s.newInfo deadline).Counts n (some s.made) := by
  have hnew : s.made ∉ s.freed := fun hmem => lt_irrefl _ ((h.freed _).1 hmem).1
  unfold Timeouts.newInfo
  refine ⟨fun j info' hj => ?_, fun j => ?_, fun j => ?_, h.once, fun j hj => ?_⟩
  all_goals dsimp only at *
  · rcases eq_or_ne j s.made with rfl | hji
    · rw [Function.update_self] at hj
      obtain rfl := Option.some.inj hj
      rw [hn]
      rfl
    · rw [Function.update_of_ne hji] at hj
      exact h.count j info' hj
  · rcases eq_or_ne j s.made with rfl | hji
    · simp
    · rw [Function.update_of_ne hji, h.live]
      simp [hji.symm]
  · rw [h.freed]
    rcases eq_or_ne j s.made with rfl | hji
    · simp
    · have hlt : j < s.made + 1 ↔ j < s.made :=
        ⟨fun hj => lt_of_le_of_ne (Nat.le_of_lt_succ hj) hji, Nat.lt_succ_of_lt⟩
      simp only [hlt, Option.some.injEq, hji.symm, not_false_eq_true, and_true, reduceCtorEq, ne_eq]
  · rcases eq_or_ne j s.made with rfl | hji
    · exact Nat.lt_succ_self _
    · rw [Function.update_of_ne hji] at hj
      exact Nat.lt_succ_of_lt (h.made j hj)

@[simp] theorem tmInfo_detach (s : Timeouts ε) (i : InfoId) : (s.detach i).tmInfo = s.tmInfo := by
  unfold Timeouts.detach
  split
  · rfl
  · split <;> rfl

@[simp] theorem tmInfo_attach (s : Timeouts ε) (i : InfoId) : (s.attach i).tmInfo = s.tmInfo := by
  unfold Timeouts.attach
  split <;> rfl

theorem attach_of_none (h : s.infos i = none) : s.attach i = s := by
  unfold Timeouts.attach
  rw [h]

variable {e ev : ε} {old tmi : Option InfoId} {m : OrderedMap ε (Option InfoId)}

theorem Counts.with_tmInfo (h : s.Counts n fresh) : ({ s with tmInfo := m }).Counts n fresh :=
  ⟨h.count, h.live, h.freed, h.once, h.made⟩

theorem holders_erase_eq (he : m.find? e = some tmi) : holders (m.erase e)
    = tmi.elim (holders m) fun i => Function.update (holders m) i (holders m i - 1) := by
  funext j
  have hj := holders_erase m e j
  unfold share at hj
  rw [he] at hj
  rcases tmi with _ | i
  · simpa using hj
  · rw [Option.elim_some]
    rcases eq_or_ne j i with rfl | hji
    · rw [Function.update_self]
      simp at hj
      omega
    · rw [Function.update_of_ne hji]
      simpa [hji.symm] using hj

theorem holders_set_none (m : OrderedMap ε (Option InfoId)) (e : ε) :
    holders (m.set e none) = holders (m.erase e) := by
  funext j
  have hset := holders_set m e none j
  have herase := holders_erase m e j
  simp at hset
  omega

theorem holders_set_eq (m : OrderedMap ε (Option InfoId)) (e : ε) (i : InfoId) :
    holders (m.set e (some i))
      = Function.update (holders (m.erase e)) i (holders (m.erase e) i + 1) := by
  funext j
  have hset := holders_set m e (some i) j
  have herase := holders_erase m e j
  rcases eq_or_ne j i with rfl | hji
  · rw [Function.update_self]
    simp at hset
    omega
  · rw [Function.update_of_ne hji]
    simp [hji.symm] at hset
    omega

/-- The event lets go of its info. -/
theorem Counts.release (h : s.Counts (holders s.tmInfo) fresh) (he : s.tmInfo.find? e = some old)
    (hfresh : ∀ i, fresh = some i → holders s.tmInfo i = 0) :
    (old.elim s s.detach).Counts (holders (s.tmInfo.erase e)) fresh := by
  rw [holders_erase_eq he]
  rcases old with _ | i
  · exact h
  · have hi : 0 < holders s.tmInfo i := holders_pos_iff.2 ⟨e, he⟩
    exact h.detach hi fun hf => hi.ne' (hfresh i hf)

/-- What the event takes must be there once it has let go of the old info, and its counter must have
room for one more. -/
theorem Counts.setTimeoutInfo (h : s.Counts (holders s.tmInfo) fresh)
    (ht : s.setTimeoutInfo e tmi = some t)
    (hfresh : ∀ i, fresh = some i → holders s.tmInfo i = 0 ∧ tmi = some i) :
    t.Accounted ↔ ∀ i, tmi = some i → (0 < holders (s.tmInfo.erase e) i ∨ fresh = some i)
      ∧ holders (s.tmInfo.erase e) i < 2 ^ 31 - 1 := by
  obtain ⟨old, he, ht⟩ := Option.bind_eq_some_iff.1 ht
  have hrel := h.release he fun i hi => (hfresh i hi).1
  have htm : (old.elim s s.detach).tmInfo = s.tmInfo := by
    rcases old with _ | i
    · rfl
    · exact tmInfo_detach s i
  generalize old.elim s s.detach = u at *
  dsimp only at ht
  rw [htm, Option.some.injEq] at ht
  have hu := hrel.with_tmInfo (m := s.tmInfo.set e tmi)
  have hset := holders_set_eq s.tmInfo e
  have hnone := holders_set_none s.tmInfo e
  generalize holders (s.tmInfo.erase e) = n at *
  rw [accounted_iff_counts]
  rcases tmi with _ | i
  · obtain rfl : fresh = none :=
      Option.eq_none_iff_forall_ne_some.2 fun i hi => by simpa using hfresh i hi
    rw [Option.elim_none] at ht
    rw [← ht, hnone]
    exact iff_of_true hu (by simp)
  · rw [Option.elim_some] at ht
    have htm' : t.tmInfo = s.tmInfo.set e (some i) := by rw [← ht, tmInfo_attach]
    rw [htm', hset]
    simp only [Option.some.injEq, forall_eq']
    constructor
    · intro hcounts
      have hlive := (hcounts.live i).2 (.inl (by simp))
      rcases hinfo : u.infos i with _ | info
      · rw [← ht, attach_of_none (by exact hinfo)] at hlive
        simp [hinfo] at hlive
      · refine ⟨(hu.live i).1 (by simp [hinfo]), (toInt_add_one (hu.count i info hinfo)).1 ?_⟩
        rw [attach_eq (by exact hinfo)] at ht
        have := hcounts.count i info.attach (by rw [← ht]; exact Function.update_self _ _ _)
        rwa [Function.update_self] at this
    · rintro ⟨hpos, hlt⟩
      rw [← ht]
      exact hu.attach hpos (fun j hj => (Option.some.inj (hfresh j hj).2).symm) hlt

theorem Accounted.holders_made (h : s.Accounted) : holders s.tmInfo s.made = 0 := by
  by_contra hne
  obtain ⟨e, he⟩ := holders_pos_iff.1 (Nat.pos_of_ne_zero hne)
  exact lt_irrefl _ (h.pointed e _ he).2

theorem Accounted.holders_lt (h : s.Accounted) (i : InfoId) : holders s.tmInfo i < 2 ^ 31 := by
  rcases hinfo : s.infos i with _ | info
  · have hlive := h.live i
    rw [hinfo] at hlive
    simp at hlive
    omega
  · have hcount := h.count i info hinfo
    have hlt := info.refCnt.toInt_lt
    omega

theorem Accounted.share (h : s.Accounted) (ht : s.step (.share e ev) = some t) :
    t.Accounted ↔ s.Tame (.share e ev) := by
  obtain ⟨tmi, hev, ht⟩ := Option.bind_eq_some_iff.1 ht
  have hiff := (accounted_iff_counts.1 h).setTimeoutInfo ht (by simp)
  rw [hiff]
  simp only [Tame, hev, Option.join_some, Option.mem_def, reduceCtorEq, or_false]
  refine forall₂_congr fun i hi => ?_
  subst hi
  have hpos : 0 < holders s.tmInfo i := holders_pos_iff.2 ⟨ev, hev⟩
  have hlt := h.holders_lt i
  have herase := holders_erase s.tmInfo e i
  unfold Lib.share at herase
  split_ifs at herase ⊢ <;> omega

theorem Accounted.setDeadline (h : s.Accounted) {deadline : ℤ}
    (ht : s.step (.setDeadline e deadline) = some t) : t.Accounted := by
  have hmade := h.holders_made
  have hnew := (accounted_iff_counts.1 h).newInfo deadline hmade
  refine (hnew.setTimeoutInfo ht fun i hi => ?_).2 fun i hi => ?_
  · obtain rfl := Option.some.inj hi
    exact ⟨hmade, rfl⟩
  · obtain rfl := Option.some.inj hi
    have herase := holders_erase s.tmInfo e s.made
    exact ⟨.inr rfl, by show holders (s.tmInfo.erase e) _ < _; omega⟩

theorem Accounted.destroy (h : s.Accounted) (ht : s.step (.destroy e) = some t) : t.Accounted := by
  obtain ⟨old, he, ht⟩ := Option.bind_eq_some_iff.1 ht
  have hrel := (accounted_iff_counts.1 h).release he (by simp)
  have htm : (old.elim s s.detach).tmInfo = s.tmInfo := by
    rcases old with _ | i
    · rfl
    · exact tmInfo_detach s i
  dsimp only at ht
  rw [htm, Option.some.injEq] at ht
  rw [accounted_iff_counts, ← ht]
  exact hrel.with_tmInfo

theorem Accounted.create (h : s.Accounted) (ht : s.step (.create e) = some t) : t.Accounted := by
  simp only [step] at ht
  split_ifs at ht with hnew
  obtain rfl := Option.some.inj ht
  have hnone : s.tmInfo.find? e = none := by simpa using hnew
  rw [accounted_iff_counts]
  dsimp only
  rw [holders_set_none, OrderedMap.erase_of_none hnone]
  exact (accounted_iff_counts.1 h).with_tmInfo

theorem accounted_start : (start : Timeouts ε).Accounted where
  count i info h := by cases h
  live i := by simp [start, holders_empty]
  freed i := by simp [start]
  once := List.nodup_nil
  pointed e i h := by cases h

/-- In every run the infos are accounted for all along exactly if its steps are tame. -/
theorem accounted_iff_tame {ls : List (TimeoutOp ε)} (hr : machine.run start ls = some t) :
    machine.Throughout Accounted start ls ↔ machine.Meets Tame start ls := by
  refine machine.throughout_iff_meets (B := fun _ => True) (I := fun _ => True)
    (fun _ _ _ _ _ => trivial) (fun s l t _ _ hs ht => ⟨trivial, ?_⟩) ls trivial trivial
    accounted_start hr
  rcases l with e | ⟨e, deadline⟩ | ⟨e, ev⟩ | e
  · exact iff_of_true (hs.create ht) trivial
  · exact iff_of_true (hs.setDeadline ht) trivial
  · exact hs.share ht
  · exact iff_of_true (hs.destroy ht) trivial

/-- Two events with one info. -/
theorem accounted_iff_tame_shared : machine.Throughout Accounted (start : Timeouts ℕ)
    [.create 0, .setDeadline 0 5, .create 1, .share 1 0, .share 0 1, .destroy 0, .destroy 1] :=
  (accounted_iff_tame rfl).2 (by decide)

/-- An event alone with its info shares with itself. -/
theorem not_accounted_self_share : ¬ ∀ (ls : List (TimeoutOp ℕ)) (t : Timeouts ℕ),
    machine.run start ls = some t → machine.Throughout Accounted start ls := by
  intro h
  have hall := h [.create 0, .setDeadline 0 5, .share 0 0] _ rfl
  have hlast := ((hall.2 _ rfl).2 _ rfl).2 _ rfl
  exact absurd (hlast.pointed 0 0 rfl).1 (by decide)

end Timeouts

end Longda
