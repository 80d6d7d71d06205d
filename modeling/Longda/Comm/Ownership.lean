import Longda.Comm.MsgDesc
import Longda.Lib.Machine
import Mathlib.Logic.Function.Basic

/-!
# Who frees a message

A `CommEvent` and its callers hand messages to each other by copying descriptors. `Handling` is one
event with the descriptors its callers have adopted and the messages deleted so far; a message is
known by its number, and one handed to the event is a new one.

The ledger of a message counts how often it has been deleted and how many adopted descriptors are
yet to be cleaned up with it (`tally`). No operation lowers it, so a message is freed once exactly
if it never exceeds one and no message is forgotten; that is what `Fair` asks of each call
(`freed_once_iff`).
-/

namespace Longda

open Lib

abbrev MsgPtr := ℕ

/-- The two descriptors of an event. -/
inductive Part where
  | request
  | response
  deriving DecidableEq

namespace MsgDesc

variable {μ : Type*}

/-- The message of the descriptor replaced, through a copy. -/
def withMessage {ν : Type*} (md : MsgDesc μ) (message : Option ν) : MsgDesc ν where
  message := message
  attachMems := md.attachMems
  attachFileOffset := md.attachFileOffset
  attachFileLen := md.attachFileLen
  attachFilePath := md.attachFilePath

def cleanFile (md : MsgDesc μ) : MsgDesc μ :=
  { md with attachFileOffset := 0, attachFileLen := 0, attachFilePath := [] }

def cleanupContainer (md : MsgDesc μ) : MsgDesc μ := cleanFile { md with attachMems := [] }

/-- `cleanup`: the message it deletes, and the descriptor after it, with the same pointer. -/
def cleanup (md : MsgDesc μ) : Option μ × MsgDesc μ := (md.message, md.cleanupContainer)

end MsgDesc

/-- A call on the event, its destruction, or the cleanup of a descriptor that was adopted. -/
inductive EventCall where
  | setRequest (req : Option (MsgDesc Unit))
  | setRequestMsg (reqMsg : Option Unit)
  | setResponse (resp : Option (MsgDesc Unit))
  | setResponseMsg (respMsg : Option Unit)
  | adoptRequest
  | adoptResponse
  | doneWithErrorResponse
  | destroy
  | cleanupMsgDesc (i : ℕ)

structure Handling where
  desc : Part → MsgDesc MsgPtr := fun _ => {}
  alive : Bool := true
  adopted : List (MsgDesc MsgPtr) := []
  deleted : List MsgPtr := []
  next : MsgPtr := 0

namespace Handling

/-- `cleanup` of a descriptor of the event. -/
def cleanupPart (s : Handling) (p : Part) : Handling :=
  { s with
    deleted := s.deleted ++ (s.desc p).cleanup.1.toList
    desc := Function.update s.desc p (s.desc p).cleanup.2 }

/-- The event takes over a descriptor, whose message is new. -/
def put (s : Handling) (p : Part) (md : MsgDesc Unit) : Handling :=
  { s with
    desc := Function.update s.desc p (md.withMessage (md.message.map fun _ => s.next))
    next := s.next + md.message.toList.length }

/-- `setRequest` and `setResponse`. -/
def setDesc (s : Handling) (p : Part) : Option (MsgDesc Unit) → Handling
  | some md => s.put p md
  | none => s.cleanupPart p

/-- `setRequestMsg` and `setResponseMsg`. -/
def setMsg (s : Handling) (p : Part) (msg : Option Unit) : Handling :=
  let s := s.cleanupPart p
  s.put p ((s.desc p).withMessage msg)

/-- `adoptRequest` and `adoptResponse`. -/
def adopt (s : Handling) (p : Part) : Handling :=
  { s with
    adopted := s.adopted ++ [s.desc p]
    desc := Function.update s.desc p (s.desc p).cleanupContainer }

/-- `~CommEvent`. -/
def destroy (s : Handling) : Handling :=
  { (s.cleanupPart .request).cleanupPart .response with alive := false, desc := fun _ => {} }

/-- `cleanup` by a caller, of a descriptor he adopted. -/
def cleanupMsgDesc (s : Handling) (i : ℕ) : Option Handling :=
  s.adopted[i]?.map fun md =>
    { s with adopted := s.adopted.eraseIdx i, deleted := s.deleted ++ md.cleanup.1.toList }

def call (s : Handling) : EventCall → Option Handling
  | .setRequest req => some (s.setDesc .request req)
  | .setRequestMsg reqMsg => some (s.setMsg .request reqMsg)
  | .setResponse resp => some (s.setDesc .response resp)
  | .setResponseMsg respMsg => some (s.setMsg .response respMsg)
  | .adoptRequest => some (s.adopt .request)
  | .adoptResponse => some (s.adopt .response)
  | .doneWithErrorResponse => some (s.setMsg .response (some ()))
  | .destroy => some s.destroy
  | .cleanupMsgDesc i => s.cleanupMsgDesc i

end Handling

/-- Whether it is the event that is called. -/
def EventCall.onEvent : EventCall → Bool
  | .cleanupMsgDesc _ => false
  | _ => true

/-- The calls on one event; nothing is called on it once it is destroyed. -/
def handling : Machine Handling EventCall where
  step s c := if s.alive || !c.onEvent then s.call c else none

namespace Handling

/-- A caller has adopted a descriptor with the message and not cleaned it up. -/
def Lent (s : Handling) (m : MsgPtr) : Prop := ∃ md ∈ s.adopted, md.message = some m

/-- No accessor returns a message that was freed. -/
def Safe (s : Handling) : Prop := ∀ p m, (s.desc p).message = some m → m ∉ s.deleted

/-- A descriptor is overwritten only where its message, if any, has been adopted. -/
def Forgettable (s : Handling) (p : Part) : Prop := ∀ m, (s.desc p).message = some m → s.Lent m

/-- The message of the descriptor, if any, is the event's own. -/
def Own (s : Handling) (p : Part) : Prop := ∀ m, (s.desc p).message = some m → ¬ s.Lent m

/-- What a call needs for no message to be lost, freed twice or left dangling. -/
def Fair (s : Handling) : EventCall → Prop
  | .setRequest (some _) => s.Forgettable .request
  | .setRequest none => (s.desc .request).message = none
  | .setRequestMsg _ => s.Own .request
  | .setResponse (some _) => s.Forgettable .response
  | .setResponse none => (s.desc .response).message = none
  | .setResponseMsg _ => s.Own .response
  | .adoptRequest => s.Own .request
  | .adoptResponse => s.Own .response
  | .doneWithErrorResponse => s.Own .response
  | .destroy => ∀ p, s.Own p
  | .cleanupMsgDesc i => ∀ md, s.adopted[i]? = some md → ∀ m, md.message = some m →
      ∀ p, (s.desc p).message ≠ some m

/-- How often the message has been deleted, or will be by a caller who adopted it. -/
def tally (s : Handling) (m : MsgPtr) : ℕ :=
  s.deleted.count m + (s.adopted.filterMap MsgDesc.message).count m

/-- What holds of the descriptors `Q` of the event, and of the messages that the others do not
hold: a message is freed, or a caller's to free, or else in one descriptor. -/
structure InvOn (Q : Part → Prop) (s : Handling) : Prop where
  bound : ∀ p, Q p → ∀ m, (s.desc p).message = some m → m < s.next
  fresh : ∀ m, s.next ≤ m → s.tally m = 0
  distinct : ∀ p q, Q p → Q q → ∀ m, (s.desc p).message = some m → (s.desc q).message = some m →
    p = q
  safe : ∀ p, Q p → ∀ m, (s.desc p).message = some m → m ∉ s.deleted
  place : ∀ m < s.next, s.tally m = 1 ∨ s.tally m = 0 ∧ ∃ p, Q p ∧ (s.desc p).message = some m

abbrev Inv : Handling → Prop := InvOn fun _ => True

/-- What no call undoes: a message is going to be freed twice, or is lost. -/
def Doomed (s : Handling) : Prop :=
  ∃ m < s.next, 2 ≤ s.tally m ∨ s.tally m = 0 ∧ ∀ p, (s.desc p).message ≠ some m

variable {s s' s'' : Handling} {p q : Part} {m : MsgPtr} {Q : Part → Prop}

theorem lent_iff : s.Lent m ↔ 0 < (s.adopted.filterMap MsgDesc.message).count m := by
  rw [List.count_pos_iff, List.mem_filterMap]
  rfl

theorem count_toList (o : Option MsgPtr) : o.toList.count m = if o = some m then 1 else 0 := by
  cases o with
  | none => simp
  | some a => simp [List.count_singleton]

theorem tally_cleanupPart :
    (s.cleanupPart p).tally m = s.tally m + if (s.desc p).message = some m then 1 else 0 := by
  simp only [tally, cleanupPart, MsgDesc.cleanup, List.count_append, count_toList]
  omega

theorem tally_adopt :
    (s.adopt p).tally m = s.tally m + if (s.desc p).message = some m then 1 else 0 := by
  simp only [tally, adopt, List.filterMap_append, List.count_append, List.filterMap_cons,
    List.filterMap_nil]
  rcases h : (s.desc p).message with _ | a
  · simp
  · simp [List.count_singleton]
    omega

theorem tally_put (md : MsgDesc Unit) : (s.put p md).tally m = s.tally m := rfl

theorem desc_cleanupPart : ((s.cleanupPart p).desc q).message = (s.desc q).message := by
  by_cases h : q = p
  · subst h
    simp [cleanupPart, MsgDesc.cleanup, MsgDesc.cleanupContainer, MsgDesc.cleanFile]
  · simp [cleanupPart, h]

theorem desc_adopt : ((s.adopt p).desc q).message = (s.desc q).message := by
  by_cases h : q = p
  · subst h
    simp [adopt, MsgDesc.cleanupContainer, MsgDesc.cleanFile]
  · simp [adopt, h]

theorem desc_put_of_ne {md : MsgDesc Unit} (h : q ≠ p) : (s.put p md).desc q = s.desc q :=
  Function.update_of_ne h _ _

theorem desc_put {md : MsgDesc Unit} (h : ((s.put p md).desc p).message = some m) :
    m = s.next ∧ (s.put p md).next = s.next + 1 := by
  simp only [put, Function.update_self, MsgDesc.withMessage] at h ⊢
  rcases hm : md.message with _ | u
  · rw [hm] at h
    cases h
  · rw [hm] at h
    cases h
    exact ⟨rfl, rfl⟩

theorem desc_put_next {md : MsgDesc Unit} (h : m < (s.put p md).next) (hm : ¬ m < s.next) :
    ((s.put p md).desc p).message = some m := by
  simp only [put, Function.update_self, MsgDesc.withMessage] at h ⊢
  rcases hmd : md.message with _ | u
  · rw [hmd] at h
    exact absurd h hm
  · rw [hmd] at h
    exact congrArg some (Nat.le_antisymm (not_lt.1 hm) (Nat.lt_succ_iff.1 h))

theorem cleanupMsgDesc_some {i : ℕ} (h : s.cleanupMsgDesc i = some s') :
    ∃ md, s.adopted[i]? = some md ∧ s' = { s with
      adopted := s.adopted.eraseIdx i, deleted := s.deleted ++ md.message.toList } := by
  obtain ⟨md, hmd, rfl⟩ := Option.map_eq_some_iff.1 h
  exact ⟨md, hmd, rfl⟩

theorem count_eraseIdx {l : List (MsgDesc MsgPtr)} {i : ℕ} {md : MsgDesc MsgPtr}
    (h : l[i]? = some md) : (l.filterMap MsgDesc.message).count m
      = ((l.eraseIdx i).filterMap MsgDesc.message).count m
        + if md.message = some m then 1 else 0 := by
  induction l generalizing i with
  | nil => simp at h
  | cons a l ih =>
    cases i with
    | zero =>
      obtain rfl : a = md := by simpa using h
      rcases ha : a.message with _ | b
      · simp [ha]
      · simp [ha, List.count_cons]
    | succ i =>
      have := ih (i := i) (by simpa using h)
      rcases ha : a.message with _ | b
      · simpa [ha] using this
      · simp only [List.eraseIdx_cons_succ, List.filterMap_cons, ha, List.count_cons, this]
        omega

theorem tally_cleanupMsgDesc {i : ℕ} (h : s.cleanupMsgDesc i = some s') :
    s'.tally m = s.tally m := by
  obtain ⟨md, hmd, rfl⟩ := cleanupMsgDesc_some h
  simp only [tally, List.count_append, count_toList, count_eraseIdx hmd]
  omega

theorem tally_destroy : s.destroy.tally m
    = s.tally m + (if (s.desc .request).message = some m then 1 else 0)
      + if (s.desc .response).message = some m then 1 else 0 := by
  change ((s.cleanupPart .request).cleanupPart .response).tally m = _
  rw [tally_cleanupPart, tally_cleanupPart, desc_cleanupPart]

/-! ## What every call does -/

/-- A message is deleted or lent only from a descriptor that holds it, and only a new one comes
into a descriptor. -/
structure Grows (s s' : Handling) : Prop where
  next : s.next ≤ s'.next
  tally : ∀ m, s.tally m ≤ s'.tally m
  gain : ∀ m, s.tally m < s'.tally m → ∃ p, (s.desc p).message = some m
  held : ∀ p m, m < s.next → (s'.desc p).message = some m → ∃ q, (s.desc q).message = some m

theorem grows_cleanupPart (s : Handling) (p : Part) : Grows s (s.cleanupPart p) where
  next := le_rfl
  tally m := by
    rw [tally_cleanupPart]
    exact Nat.le_add_right _ _
  gain m hm := by
    rw [tally_cleanupPart] at hm
    refine ⟨p, ?_⟩
    by_contra h
    simp [h] at hm
  held q m _ hq := ⟨q, desc_cleanupPart.symm.trans hq⟩

theorem grows_adopt (s : Handling) (p : Part) : Grows s (s.adopt p) where
  next := le_rfl
  tally m := by
    rw [tally_adopt]
    exact Nat.le_add_right _ _
  gain m hm := by
    rw [tally_adopt] at hm
    refine ⟨p, ?_⟩
    by_contra h
    simp [h] at hm
  held q m _ hq := ⟨q, desc_adopt.symm.trans hq⟩

theorem grows_put (s : Handling) (p : Part) (md : MsgDesc Unit) : Grows s (s.put p md) where
  next := Nat.le_add_right _ _
  tally _ := le_rfl
  gain m hm := absurd hm (lt_irrefl _)
  held q m hm hq := by
    by_cases h : q = p
    · subst h
      exact absurd (desc_put hq).1 (Nat.ne_of_lt hm)
    · rw [desc_put_of_ne h] at hq
      exact ⟨q, hq⟩

theorem grows_setMsg (s : Handling) (p : Part) (msg : Option Unit) : Grows s (s.setMsg p msg) where
  next := Nat.le_add_right _ _
  tally m := (grows_cleanupPart s p).tally m
  gain m hm := (grows_cleanupPart s p).gain m hm
  held q m hm hq := by
    obtain ⟨q', hq'⟩ := (grows_put (s.cleanupPart p) p _).held q m hm hq
    exact ⟨q', desc_cleanupPart.symm.trans hq'⟩

theorem grows_setDesc (s : Handling) (p : Part) (md : Option (MsgDesc Unit)) :
    Grows s (s.setDesc p md) := by
  cases md with
  | none => exact grows_cleanupPart s p
  | some md => exact grows_put s p md

theorem grows_destroy (s : Handling) : Grows s s.destroy where
  next := le_rfl
  tally m := by
    rw [tally_destroy, Nat.add_assoc]
    exact Nat.le_add_right _ _
  gain m hm := by
    rw [tally_destroy] at hm
    by_contra h
    push Not at h
    simp [h] at hm
  held p m _ hp := by cases hp

theorem grows_cleanupMsgDesc {i : ℕ} (h : s.cleanupMsgDesc i = some s') : Grows s s' where
  next := by
    obtain ⟨md, -, rfl⟩ := cleanupMsgDesc_some h
    exact le_rfl
  tally m := (tally_cleanupMsgDesc h).ge
  gain m hm := by
    rw [tally_cleanupMsgDesc h] at hm
    exact absurd hm (lt_irrefl _)
  held p m _ hp := by
    obtain ⟨md, -, rfl⟩ := cleanupMsgDesc_some h
    exact ⟨p, hp⟩

theorem call_of_step {c : EventCall} (h : handling.step s c = some s') : s.call c = some s' := by
  simp only [handling] at h
  split_ifs at h
  exact h

theorem grows_of_step {c : EventCall} (h : handling.step s c = some s') : Grows s s' := by
  have hcall := call_of_step h
  cases c <;> simp only [call, Option.some.injEq] at hcall
  case setRequest req => exact hcall ▸ grows_setDesc s _ req
  case setRequestMsg msg => exact hcall ▸ grows_setMsg s _ msg
  case setResponse resp => exact hcall ▸ grows_setDesc s _ resp
  case setResponseMsg msg => exact hcall ▸ grows_setMsg s _ msg
  case adoptRequest => exact hcall ▸ grows_adopt s _
  case adoptResponse => exact hcall ▸ grows_adopt s _
  case doneWithErrorResponse => exact hcall ▸ grows_setMsg s _ _
  case destroy => exact hcall ▸ grows_destroy s
  case cleanupMsgDesc i => exact grows_cleanupMsgDesc hcall

theorem Doomed.grows (h : s.Doomed) (hg : Grows s s') : s'.Doomed := by
  obtain ⟨m, hm, hlt⟩ := h
  refine ⟨m, lt_of_lt_of_le hm hg.next, ?_⟩
  rcases hlt with htwo | ⟨hzero, hlost⟩
  · exact .inl (htwo.trans (hg.tally m))
  · refine .inr ⟨?_, fun p hp => ?_⟩
    · by_contra h
      obtain ⟨p, hp⟩ := hg.gain m (by omega)
      exact hlost p hp
    · obtain ⟨q, hq⟩ := hg.held p m hm hp
      exact hlost q hq

theorem Doomed.of_run {cs : List EventCall} (h : s.Doomed) (hr : handling.run s cs = some s')
    (ha : s'.adopted = []) : ¬ ∀ m < s'.next, s'.deleted.count m = 1 := by
  obtain ⟨m, hm, hlt⟩ := handling.run_inv_of_step (fun _ _ _ hd h => hd.grows (grows_of_step h)) cs
    h hr
  intro hall
  have hone := hall m hm
  simp only [tally, ha, List.filterMap_nil, List.count_nil, hone] at hlt
  omega

/-! ## A fair call keeps the ledger -/

theorem InvOn.not_deleted (hs : InvOn Q s) (hp : Q p) (hm : (s.desc p).message = some m)
    (hl : ¬ s.Lent m) : s.tally m = 0 := by
  have hdel := List.count_eq_zero.2 (hs.safe p hp m hm)
  have hlent := lent_iff.not.1 hl
  simp only [tally]
  omega

/-- The message of a descriptor that may be overwritten is not lost with it. -/
theorem InvOn.forget (hs : s.Inv) (hf : s.Forgettable p) : InvOn (· ≠ p) s where
  bound q _ := hs.bound q trivial
  fresh := hs.fresh
  distinct q r _ _ := hs.distinct q r trivial trivial
  safe q _ := hs.safe q trivial
  place m hm := by
    rcases hs.place m hm with h | ⟨h, q, -, hq⟩
    · exact .inl h
    · refine .inr ⟨h, q, ?_, hq⟩
      rintro rfl
      have := lent_iff.1 (hf m hq)
      simp only [tally] at h
      omega

theorem InvOn.cleanupPart (hs : InvOn Q s) (hp : Q p) (ho : s.Own p) :
    InvOn (fun q => Q q ∧ q ≠ p) (s.cleanupPart p) where
  bound q hq m hm := hs.bound q hq.1 m (desc_cleanupPart.symm.trans hm)
  fresh m hm := by
    rw [tally_cleanupPart, hs.fresh m hm]
    have : (s.desc p).message ≠ some m := fun h => absurd (hs.bound p hp m h) (not_lt.2 hm)
    simp [this]
  distinct q r hq hr m hm hm' :=
    hs.distinct q r hq.1 hr.1 m (desc_cleanupPart.symm.trans hm) (desc_cleanupPart.symm.trans hm')
  safe q hq m hm := by
    rw [desc_cleanupPart] at hm
    simp only [Handling.cleanupPart, MsgDesc.cleanup, List.mem_append, Option.mem_toList]
    rintro (h | h)
    · exact hs.safe q hq.1 m hm h
    · exact hq.2 (hs.distinct q p hq.1 hp m hm h)
  place m hm := by
    rw [tally_cleanupPart]
    by_cases hmp : (s.desc p).message = some m
    · rw [if_pos hmp, hs.not_deleted hp hmp (ho m hmp)]
      exact .inl rfl
    · rw [if_neg hmp, Nat.add_zero]
      rcases hs.place m hm with h | ⟨h, q, hq, hqm⟩
      · exact .inl h
      · refine .inr ⟨h, q, ⟨hq, ?_⟩, desc_cleanupPart.trans hqm⟩
        rintro rfl
        exact hmp hqm

theorem InvOn.put (hs : InvOn (· ≠ p) s) (md : MsgDesc Unit) : (s.put p md).Inv where
  bound q _ m hm := by
    by_cases h : q = p
    · subst h
      obtain ⟨rfl, hn⟩ := desc_put hm
      rw [hn]
      exact Nat.lt_succ_self _
    · rw [desc_put_of_ne h] at hm
      exact lt_of_lt_of_le (hs.bound q h m hm) (Nat.le_add_right _ _)
  fresh m hm := hs.fresh m (le_trans (Nat.le_add_right _ _) hm)
  distinct q r _ _ m hm hm' := by
    by_cases hq : q = p <;> by_cases hr : r = p
    · rw [hq, hr]
    · subst hq
      rw [desc_put_of_ne hr] at hm'
      exact absurd (hs.bound r hr m hm') (Nat.ne_of_lt · (desc_put hm).1)
    · subst hr
      rw [desc_put_of_ne hq] at hm
      exact absurd (hs.bound q hq m hm) (Nat.ne_of_lt · (desc_put hm').1)
    · rw [desc_put_of_ne hq] at hm
      rw [desc_put_of_ne hr] at hm'
      exact hs.distinct q r hq hr m hm hm'
  safe q _ m hm := by
    by_cases h : q = p
    · subst h
      have hzero := hs.fresh m (desc_put hm).1.ge
      refine List.count_eq_zero.1 (?_ : s.deleted.count m = 0)
      simp only [tally] at hzero
      omega
    · rw [desc_put_of_ne h] at hm
      exact hs.safe q h m hm
  place m hm := by
    rw [tally_put]
    by_cases hlt : m < s.next
    · rcases hs.place m hlt with h | ⟨h, q, hq, hqm⟩
      · exact .inl h
      · rw [← desc_put_of_ne hq] at hqm
        exact .inr ⟨h, q, trivial, hqm⟩
    · exact .inr ⟨hs.fresh m (not_lt.1 hlt), p, trivial, desc_put_next hm hlt⟩

theorem InvOn.adopt (hs : s.Inv) (ho : s.Own p) : (s.adopt p).Inv where
  bound q _ m hm := hs.bound q trivial m (desc_adopt.symm.trans hm)
  fresh m hm := by
    rw [tally_adopt, hs.fresh m hm]
    have : (s.desc p).message ≠ some m := fun h => absurd (hs.bound p trivial m h) (not_lt.2 hm)
    simp [this]
  distinct q r _ _ m hm hm' := hs.distinct q r trivial trivial m (desc_adopt.symm.trans hm)
    (desc_adopt.symm.trans hm')
  safe q _ m hm := hs.safe q trivial m (desc_adopt.symm.trans hm)
  place m hm := by
    rw [tally_adopt]
    by_cases hmp : (s.desc p).message = some m
    · rw [if_pos hmp, hs.not_deleted trivial hmp (ho m hmp)]
      exact .inl rfl
    · rw [if_neg hmp, Nat.add_zero]
      exact (hs.place m hm).imp_right fun ⟨h, q, hq, hqm⟩ => ⟨h, q, hq, desc_adopt.trans hqm⟩

theorem InvOn.setDesc (hs : s.Inv) {md : Option (MsgDesc Unit)}
    (hsome : md.isSome → s.Forgettable p) (hnone : md = none → (s.desc p).message = none) :
    (s.setDesc p md).Inv := by
  cases md with
  | some md => exact (hs.forget (hsome rfl)).put md
  | none =>
    have hp := hnone rfl
    have hown : s.Own p := fun m hm => by
      rw [hp] at hm
      cases hm
    have h := InvOn.cleanupPart hs trivial hown
    have hmsg : ((s.cleanupPart p).desc p).message = none := desc_cleanupPart.trans hp
    -- the descriptor that was cleaned up holds nothing, and so it is as good as the other
    have hne : ∀ {q m}, ((s.cleanupPart p).desc q).message = some m → q ≠ p := by
      rintro q m hm rfl
      rw [hmsg] at hm
      cases hm
    exact {
      bound := fun q _ m hm => h.bound q ⟨trivial, hne hm⟩ m hm
      fresh := h.fresh
      distinct := fun q r _ _ m hm hm' =>
        h.distinct q r ⟨trivial, hne hm⟩ ⟨trivial, hne hm'⟩ m hm hm'
      safe := fun q _ m hm => h.safe q ⟨trivial, hne hm⟩ m hm
      place := fun m hm => (h.place m hm).imp_right fun ⟨h0, q, _, hq⟩ => ⟨h0, q, trivial, hq⟩ }

theorem InvOn.setMsg (hs : s.Inv) (ho : s.Own p) (msg : Option Unit) : (s.setMsg p msg).Inv := by
  have h := InvOn.cleanupPart hs trivial ho
  refine InvOn.put (s := s.cleanupPart p) ?_ _
  exact {
    bound := fun q hq => h.bound q ⟨trivial, hq⟩
    fresh := h.fresh
    distinct := fun q r hq hr => h.distinct q r ⟨trivial, hq⟩ ⟨trivial, hr⟩
    safe := fun q hq => h.safe q ⟨trivial, hq⟩
    place := fun m hm => (h.place m hm).imp_right fun ⟨h0, q, hq, hqm⟩ => ⟨h0, q, hq.2, hqm⟩ }

theorem InvOn.destroy (hs : s.Inv) (ho : ∀ p, s.Own p) : s.destroy.Inv := by
  have h₁ := InvOn.cleanupPart (p := .request) hs trivial (ho .request)
  have h₂ := InvOn.cleanupPart (p := .response) h₁ ⟨trivial, by decide⟩
    fun m hm => ho .response m (desc_cleanupPart.symm.trans hm)
  exact {
    bound := fun _ _ _ hm => by cases hm
    fresh := h₂.fresh
    distinct := fun _ _ _ _ _ hm => by cases hm
    safe := fun _ _ _ hm => by cases hm
    place := fun m hm => by
      rcases h₂.place m hm with h | ⟨-, q, ⟨⟨-, hq⟩, hq'⟩, -⟩
      · exact .inl h
      · cases q
        · exact absurd rfl hq
        · exact absurd rfl hq' }

theorem InvOn.cleanupMsgDesc {i : ℕ} (hs : s.Inv) (hf : s.Fair (.cleanupMsgDesc i))
    (h : s.cleanupMsgDesc i = some s') : s'.Inv := by
  have htally := fun m => tally_cleanupMsgDesc (m := m) h
  obtain ⟨md, hmd, rfl⟩ := cleanupMsgDesc_some h
  exact {
    bound := hs.bound
    fresh := fun m hm => (htally m).trans (hs.fresh m hm)
    distinct := hs.distinct
    safe := fun p _ m hm hdel => by
      rcases List.mem_append.1 hdel with h | h
      · exact hs.safe p trivial m hm h
      · exact hf md hmd m (Option.mem_toList.1 h) p hm
    place := fun m hm => by
      rw [htally]
      exact hs.place m hm }

theorem inv_of_step {c : EventCall} (hs : s.Inv) (hf : s.Fair c)
    (h : handling.step s c = some s') : s'.Inv := by
  have hcall := call_of_step h
  cases c <;> simp only [call, Option.some.injEq] at hcall
  case setRequest req =>
    subst hcall
    cases req with
    | some md => exact InvOn.setDesc hs (fun _ => hf) fun h => by cases h
    | none => exact InvOn.setDesc hs (fun h => by cases h) fun _ => hf
  case setResponse resp =>
    subst hcall
    cases resp with
    | some md => exact InvOn.setDesc hs (fun _ => hf) fun h => by cases h
    | none => exact InvOn.setDesc hs (fun h => by cases h) fun _ => hf
  case setRequestMsg msg => exact hcall ▸ InvOn.setMsg hs hf msg
  case setResponseMsg msg => exact hcall ▸ InvOn.setMsg hs hf msg
  case adoptRequest => exact hcall ▸ InvOn.adopt hs hf
  case adoptResponse => exact hcall ▸ InvOn.adopt hs hf
  case doneWithErrorResponse => exact hcall ▸ InvOn.setMsg hs hf _
  case destroy => exact hcall ▸ InvOn.destroy hs hf
  case cleanupMsgDesc i => exact InvOn.cleanupMsgDesc hs hf hcall

/-! ## An unfair call breaks it -/

theorem tally_pos_of_lent (h : s.Lent m) : 0 < s.tally m := by
  have := lent_iff.1 h
  simp only [tally]
  omega

/-- The message of a descriptor that is overwritten is lost, unless a caller adopted it. -/
theorem doomed_put (hs : s.Inv) (hf : ¬ s.Forgettable p) (md : MsgDesc Unit) :
    (s.put p md).Doomed := by
  simp only [Forgettable, not_forall] at hf
  obtain ⟨m, hm, hl⟩ := hf
  have hlt := hs.bound p trivial m hm
  refine ⟨m, lt_of_lt_of_le hlt (Nat.le_add_right _ _), .inr ⟨hs.not_deleted trivial hm hl, ?_⟩⟩
  intro q hq
  by_cases h : q = p
  · subst h
    exact absurd (desc_put hq).1 (Nat.ne_of_lt hlt)
  · rw [desc_put_of_ne h] at hq
    exact h (hs.distinct q p trivial trivial m hq hm)

/-- Where a caller holds the message of a descriptor too, deleting it or lending it out once more is
once too often. -/
theorem doomed_of_tally_lt (hs : s.Inv) (hg : Grows s s') (ho : ¬ s.Own p)
    (htally : ∀ m, (s.desc p).message = some m → s.tally m < s'.tally m) : s'.Doomed := by
  simp only [Own, not_forall, not_not] at ho
  obtain ⟨m, hm, hl⟩ := ho
  refine ⟨m, lt_of_lt_of_le (hs.bound p trivial m hm) hg.next, .inl ?_⟩
  have hpos := tally_pos_of_lent hl
  have hlt := htally m hm
  omega

theorem doomed_cleanupPart (hs : s.Inv) (ho : ¬ s.Own p) : (s.cleanupPart p).Doomed := by
  refine doomed_of_tally_lt hs (grows_cleanupPart s p) ho fun m hm => ?_
  rw [tally_cleanupPart, if_pos hm]
  exact Nat.lt_succ_self _

theorem doomed_adopt (hs : s.Inv) (ho : ¬ s.Own p) : (s.adopt p).Doomed := by
  refine doomed_of_tally_lt hs (grows_adopt s p) ho fun m hm => ?_
  rw [tally_adopt, if_pos hm]
  exact Nat.lt_succ_self _

theorem doomed_destroy (hs : s.Inv) (ho : ¬ ∀ p, s.Own p) : s.destroy.Doomed := by
  obtain ⟨p, hp⟩ := not_forall.1 ho
  refine doomed_of_tally_lt hs (grows_destroy s) hp fun m hm => ?_
  rw [tally_destroy]
  cases p <;> rw [if_pos hm] <;> omega

theorem not_safe_cleanupPart (hm : (s.desc p).message = some m) : ¬ (s.cleanupPart p).Safe := by
  intro h
  refine h p m (desc_cleanupPart.trans hm) (List.mem_append_right _ ?_)
  exact Option.mem_toList.2 hm

theorem not_fair {c : EventCall} (hs : s.Inv) (hf : ¬ s.Fair c)
    (h : handling.step s c = some s') : s'.Doomed ∨ ¬ s'.Safe := by
  have hcall := call_of_step h
  have hnone : ∀ {p}, (s.desc p).message ≠ none → ¬ (s.cleanupPart p).Safe := fun hp => by
    obtain ⟨m, hm⟩ := Option.ne_none_iff_exists'.1 hp
    exact not_safe_cleanupPart hm
  cases c <;> simp only [call, Option.some.injEq] at hcall
  case setRequest req =>
    subst hcall
    cases req with
    | some md => exact .inl (doomed_put hs hf md)
    | none => exact .inr (hnone hf)
  case setResponse resp =>
    subst hcall
    cases resp with
    | some md => exact .inl (doomed_put hs hf md)
    | none => exact .inr (hnone hf)
  case setRequestMsg msg => exact hcall ▸ .inl ((doomed_cleanupPart hs hf).grows (grows_put _ _ _))
  case setResponseMsg msg =>
    exact hcall ▸ .inl ((doomed_cleanupPart hs hf).grows (grows_put _ _ _))
  case adoptRequest => exact hcall ▸ .inl (doomed_adopt hs hf)
  case adoptResponse => exact hcall ▸ .inl (doomed_adopt hs hf)
  case doneWithErrorResponse =>
    exact hcall ▸ .inl ((doomed_cleanupPart hs hf).grows (grows_put _ _ _))
  case destroy => exact hcall ▸ .inl (doomed_destroy hs hf)
  case cleanupMsgDesc i =>
    obtain ⟨md, hmd, rfl⟩ := cleanupMsgDesc_some hcall
    simp only [Fair, not_forall, not_not] at hf
    obtain ⟨md', hmd', m, hm, p, hp⟩ := hf
    obtain rfl : md = md' := Option.some.inj (hmd.symm.trans hmd')
    exact .inr fun hsafe => hsafe p m hp (List.mem_append_right _ (Option.mem_toList.2 hm))

/-! ## Runs -/

/-- An event that is gone has no messages. -/
def Gone (s : Handling) : Prop := s.alive = false → ∀ p, (s.desc p).message = none

theorem alive_setDesc {md : Option (MsgDesc Unit)} : (s.setDesc p md).alive = s.alive := by
  cases md <;> rfl

theorem gone_of_step {c : EventCall} (hs : s.Gone) (h : handling.step s c = some s') : s'.Gone := by
  intro hdead
  have hcall := call_of_step h
  have hguard : s.alive = true ∨ c.onEvent = false := by
    simp only [handling] at h
    split_ifs at h with hg
    simpa using hg
  have hkept : s.alive = true → s'.alive = s.alive → ∀ p, (s'.desc p).message = none :=
    fun ha hk => absurd (hk.symm.trans hdead) (by simp [ha])
  cases c <;> simp only [call, Option.some.injEq] at hcall
  case destroy => exact hcall ▸ fun _ => rfl
  case cleanupMsgDesc i =>
    obtain ⟨md, -, rfl⟩ := cleanupMsgDesc_some hcall
    exact hs hdead
  case setRequest req =>
    exact hkept (hguard.resolve_right (by simp [EventCall.onEvent])) (hcall ▸ alive_setDesc)
  case setResponse resp =>
    exact hkept (hguard.resolve_right (by simp [EventCall.onEvent])) (hcall ▸ alive_setDesc)
  all_goals exact hkept (hguard.resolve_right (by simp [EventCall.onEvent])) (hcall ▸ rfl)

theorem freed_once_iff_from {cs : List EventCall} {t : Handling} (hs : s.Inv) (hg : s.Gone)
    (hr : handling.run s cs = some t) (hd : t.alive = false) (ha : t.adopted = []) :
    handling.Throughout Safe s cs ∧ (∀ m < t.next, t.deleted.count m = 1)
      ↔ handling.Meets Fair s cs := by
  induction cs generalizing s with
  | nil =>
    obtain rfl : s = t := by simpa using hr
    refine iff_of_true ⟨fun p => hs.safe p trivial, fun m hm => ?_⟩ trivial
    rcases hs.place m hm with h | ⟨-, p, -, hp⟩
    · simpa [tally, ha] using h
    · rw [hg hd p] at hp
      cases hp
  | cons c cs ih =>
    rw [Machine.run_cons, Option.bind_eq_some_iff] at hr
    obtain ⟨u, hu, hr⟩ := hr
    have hsafe : s.Safe := fun p => hs.safe p trivial
    simp only [Machine.Throughout, Machine.Meets, hu, Option.some.injEq, forall_eq', hsafe,
      true_and]
    by_cases hf : s.Fair c
    · rw [and_iff_right hf]
      exact ih (inv_of_step hs hf hu) (gone_of_step hg hu) hr
    · refine iff_of_false ?_ fun h => hf h.1
      rintro ⟨hthrough, hcount⟩
      rcases not_fair hs hf hu with hdoom | hunsafe
      · exact hdoom.of_run hr ha hcount
      · exact hunsafe (Machine.Throughout.head _ hthrough)

theorem inv_new : Inv {} where
  bound _ _ _ hm := by cases hm
  fresh _ _ := rfl
  distinct _ _ _ _ _ hm := by cases hm
  safe _ _ _ hm := by cases hm
  place _ hm := absurd hm (Nat.not_lt_zero _)

/-- Over the calls on an event and the cleanups that follow it, each message handed to it is freed
once and none is accessible after that, exactly where each call is fair. -/
theorem freed_once_iff (cs : List EventCall) {t : Handling} (hr : handling.run {} cs = some t)
    (hd : t.alive = false) (ha : t.adopted = []) :
    handling.Throughout Safe {} cs ∧ (∀ m < t.next, t.deleted.count m = 1)
      ↔ handling.Meets Fair {} cs :=
  freed_once_iff_from inv_new (fun h => by cases h) hr hd ha

/-- The request of an event is replaced once, and the event destroyed. -/
def replaceRequest : List EventCall :=
  [.setRequestMsg (some ()), .setRequestMsg (some ()), .destroy]

theorem freed_once_replaceRequest : ∃ t, handling.run {} replaceRequest = some t ∧ t.next = 2
    ∧ handling.Throughout Safe {} replaceRequest ∧ ∀ m < t.next, t.deleted.count m = 1 := by
  refine ⟨_, rfl, rfl, (freed_once_iff replaceRequest rfl rfl rfl).2 ?_⟩
  simp [replaceRequest, Machine.Meets, Fair, Own, Lent, handling, call, setMsg, cleanupPart, put]

/-- The caller adopts the request and cleans it up; the event has deleted it, too. -/
def adoptRequestOnce : List EventCall :=
  [.setRequestMsg (some ()), .adoptRequest, .destroy, .cleanupMsgDesc 0]

theorem not_freed_once_adopted : ∃ t, handling.run {} adoptRequestOnce = some t
    ∧ t.alive = false ∧ t.adopted = [] ∧ ¬ (handling.Throughout Safe {} adoptRequestOnce
      ∧ ∀ m < t.next, t.deleted.count m = 1) := by
  refine ⟨_, rfl, rfl, rfl, fun h => ?_⟩
  exact absurd (h.2 0 (by decide)) (by decide)

end Handling

end Longda
