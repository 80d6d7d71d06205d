import Mathlib.Logic.Function.Basic
import Mathlib.Data.List.Induction
import Longda.Lib.Machine

/-!
# Stacks threaded through their nodes

Each node names the next one, and a path follows the names from node to node. Names are followed
in one way only, so a path from a node is the start of every longer one, a stack has no node twice,
and where a path comes back to its node there is no stack.

A log of what was put on a stack, what was taken off it and when it was closed is a right one if
the stack it describes allows it (`Lifo`): taken off is what was put on last, each as often as it
was put on, and the stack is closed once, when it is empty.
-/

namespace Lib

section path
variable {α : Type*}

/-- From `p` the nodes lead to `q`. -/
def IsPath (next : α → Option α) : Option α → List α → Option α → Prop
  | p, [], q => p = q
  | p, c :: l, q => p = some c ∧ IsPath next (next c) l q

/-- From `p` the nodes lead to an end. -/
abbrev IsStack (next : α → Option α) (p : Option α) (l : List α) : Prop := IsPath next p l none

variable {next next' : α → Option α} {p q r : Option α} {l m : List α} {c : α}

theorem isPath_append :
    ∀ {l : List α} {p : Option α}, IsPath next p (l ++ m) r ↔
      ∃ q, IsPath next p l q ∧ IsPath next q m r
  | [], p => by simp [IsPath]
  | c :: l, p => by simp [IsPath, isPath_append (l := l), and_assoc]

theorem IsPath.congr : ∀ {l : List α} {p : Option α}, IsPath next p l q →
    (∀ c ∈ l, next' c = next c) → IsPath next' p l q
  | [], _, h, _ => h
  | c :: l, _, h, heq => by
    refine ⟨h.1, ?_⟩
    rw [heq c (by simp)]
    exact h.2.congr fun d hd => heq d (by simp [hd])

/-- A stack from where a path starts goes along it. -/
theorem IsPath.split : ∀ {l : List α} {p : Option α} {m : List α}, IsPath next p l q →
    IsStack next p m → ∃ k, m = l ++ k ∧ IsStack next q k
  | [], p, m, h, hm => by
    obtain rfl : p = q := h
    exact ⟨m, rfl, hm⟩
  | c :: l, p, [], h, hm => by
    obtain rfl : p = none := hm
    simp [IsPath] at h
  | c :: l, p, d :: m, h, hm => by
    obtain ⟨rfl, h⟩ := h
    obtain ⟨hd, hm⟩ := hm
    obtain rfl : c = d := Option.some.inj hd
    obtain ⟨k, rfl, hk⟩ := h.split hm
    exact ⟨k, rfl, hk⟩

theorem IsStack.unique (hl : IsStack next p l) (hm : IsStack next p m) : m = l := by
  obtain ⟨k, rfl, hk⟩ := hl.split hm
  cases k with
  | nil => simp
  | cons d k => simp [IsPath] at hk

/-- Where a path comes back there is no stack. -/
theorem not_isStack_of_loop (h : IsPath next p l p) (hl : l ≠ []) : ¬ IsStack next p m := by
  intro hm
  obtain ⟨k, rfl, hk⟩ := h.split hm
  have hlen := congrArg List.length (hk.unique hm)
  rw [List.length_append] at hlen
  exact hl (List.length_eq_zero_iff.1 (by omega))

theorem isStack_none : IsStack next none l ↔ l = [] := by
  cases l <;> simp [IsPath]

theorem isStack_some : IsStack next (some c) l ↔ ∃ m, l = c :: m ∧ IsStack next (next c) m := by
  cases l with
  | nil => simp [IsPath]
  | cons d m =>
    simp only [IsPath, Option.some.injEq, List.cons.injEq]
    constructor
    · rintro ⟨rfl, h⟩
      exact ⟨m, ⟨rfl, rfl⟩, h⟩
    · rintro ⟨_, ⟨rfl, rfl⟩, h⟩
      exact ⟨rfl, h⟩

theorem exists_path_of_mem (h : IsStack next p l) (hc : c ∈ l) :
    ∃ k, IsPath next p k (some c) ∧ c ∉ k := by
  obtain ⟨k, j, rfl, hk⟩ := List.eq_append_cons_of_mem hc
  obtain ⟨q, hp, hq⟩ := isPath_append.1 h
  exact ⟨k, hq.1 ▸ hp, hk⟩

theorem IsStack.notMem (h : IsStack next (some c) (c :: l)) : c ∉ l := by
  intro hc
  obtain ⟨k, hk, -⟩ := exists_path_of_mem h.2 hc
  exact not_isStack_of_loop (l := c :: k) ⟨rfl, hk⟩ (by simp) h

variable [DecidableEq α]

theorem IsPath.update (h : IsPath next p l q) (hc : c ∉ l) (r : Option α) :
    IsPath (Function.update next c r) p l q := by
  refine h.congr fun d hd => ?_
  have hdc : d ≠ c := by
    rintro rfl
    exact hc hd
  exact Function.update_of_ne hdc ..

theorem IsStack.push (h : IsStack next p l) (hc : c ∉ l) :
    IsStack (Function.update next c p) (some c) (c :: l) := by
  refine ⟨rfl, ?_⟩
  rw [Function.update_self]
  exact h.update hc p

/-- A node of the stack cannot be put on it once more. -/
theorem not_isStack_push (h : IsStack next p l) (hc : c ∈ l) :
    ¬ IsStack (Function.update next c p) (some c) m := by
  obtain ⟨k, hp, hk⟩ := exists_path_of_mem h hc
  refine not_isStack_of_loop (l := c :: k) ⟨rfl, ?_⟩ (by simp)
  rw [Function.update_self]
  exact hp.update hk p

theorem IsStack.pop (h : IsStack next (some c) l) :
    ∃ m, l = c :: m ∧ c ∉ m ∧ IsStack (Function.update next c none) (next c) m := by
  obtain ⟨m, rfl, hm⟩ := isStack_some.1 h
  exact ⟨m, rfl, h.notMem, hm.update h.notMem none⟩

end path

section history
variable {α : Type*} [DecidableEq α]

/-- What can be done to a stack. -/
inductive Deed (α : Type*)
  | put (c : α)
  | took (c : α)
  | closed
  deriving DecidableEq

/-- The stack, and whether it has been closed. -/
abbrev Lifo.State (α : Type*) := List α × Bool

def Lifo.step : Lifo.State α → Deed α → Option (Lifo.State α)
  | (l, false), .put c => some (c :: l, false)
  | (d :: l, false), .took c => if d = c then some (l, false) else none
  | ([], false), .closed => some ([], true)
  | _, _ => none

/-- A stack that refuses what is not its top, and everything once it is closed. -/
def Lifo : Machine (Lifo.State α) (Deed α) where
  step := Lifo.step

namespace Lifo

/-- The stack that the log describes. -/
def replay (log : List (Deed α)) : Option (Lifo.State α) := Lifo.run ([], false) log

variable {log : List (Deed α)} {l : List α} {b : Bool} {c : α} {d : Deed α}

theorem replay_append : replay (log ++ [d]) = (replay log).bind fun s => Lifo.step s d := by
  unfold replay
  rw [Machine.run_append]
  exact congrArg _ (funext fun s => by simp [Lifo])

/-- The log accounts for what is on the stack, and for its being closed. -/
structure Accounts (log : List (Deed α)) (s : Lifo.State α) : Prop where
  each : ∀ c, log.count (.took c) + s.1.count c = log.count (.put c)
  closed : log.count .closed = s.2.toNat
  last : s.2 = true → s.1 = [] ∧ log.getLast? = some .closed

theorem Accounts.append {s t : Lifo.State α} (hs : Accounts log s)
    (h : Lifo.step s d = some t) : Accounts (log ++ [d]) t := by
  obtain ⟨each, closed, last⟩ := hs
  rcases s with ⟨l, _ | _⟩
  · rcases d with c | c | _
    · obtain rfl := Option.some.inj h
      refine ⟨fun e => ?_, by simpa using closed, by simp⟩
      have he := each e
      rcases eq_or_ne c e with rfl | hne
      · simp at he ⊢
        omega
      · simpa [hne] using he
    · rcases l with _ | ⟨d, l⟩
      · cases h
      · obtain ⟨rfl, ht⟩ := Option.ite_none_right_eq_some.1 h
        obtain rfl := Option.some.inj ht
        refine ⟨fun e => ?_, by simpa using closed, by simp⟩
        have he := each e
        rcases eq_or_ne d e with rfl | hne
        · simp at he ⊢
          omega
        · simpa [hne] using he
    · rcases l with _ | ⟨d, l⟩
      · obtain rfl := Option.some.inj h
        refine ⟨fun e => ?_, by simpa using closed, by simp⟩
        simpa using each e
      · cases h
  · rcases l with _ | _ <;> rcases d with c | c | _ <;> cases h

theorem accounts_of_replay {s : Lifo.State α} (h : replay log = some s) : Accounts log s := by
  induction log using List.reverseRecOn generalizing s with
  | nil =>
    obtain rfl := Option.some.inj h
    exact ⟨fun c => rfl, rfl, by simp⟩
  | append_singleton log d ih =>
    rw [replay_append, Option.bind_eq_some_iff] at h
    obtain ⟨u, hu, h⟩ := h
    exact (ih hu).append h

end Lifo
end history

end Lib
