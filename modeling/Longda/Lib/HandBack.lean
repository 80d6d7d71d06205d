import Mathlib.Data.List.Count
import Mathlib.Data.List.Nodup

/-!
# Items that are handed back

Items are issued, used for a while, and handed back to their owners. `Act` is what is done to an
item, and a log of acts is `Quiet` where nothing is done to an item behind its return. The `Books`
of the items that are out say that they are the issued ones that have not been handed back, each
once, and that the log is quiet. They stay right where only an item in them is used or handed back.
-/

namespace Lib

variable {ε : Type*}

/-- What is done to an item. -/
inductive Act (ε : Type*) where
  | use (x : ε)
  | handBack (x : ε)
  deriving DecidableEq

def Act.item : Act ε → ε
  | use x => x
  | handBack x => x

/-- Nothing is done to an item that has been handed back. -/
def Quiet (log : List (Act ε)) : Prop := log.Pairwise fun a b => ∀ x, a = .handBack x → b.item ≠ x

/-- `out` has the items that are issued and not handed back, each once. -/
structure Books (issued : ε → Prop) (out : List ε) (log : List (Act ε)) : Prop where
  nodup : out.Nodup
  mem_iff : ∀ x, x ∈ out ↔ issued x ∧ .handBack x ∉ log
  known : ∀ a ∈ log, issued a.item
  quiet : Quiet log

variable {issued issued' : ε → Prop} {out out' : List ε} {log : List (Act ε)} {x : ε}

theorem books_nil (h : ∀ x, ¬ issued x) : Books issued [] [] where
  nodup := List.nodup_nil
  mem_iff x := by simp [h]
  known := by simp
  quiet := List.Pairwise.nil

theorem Quiet.append_singleton (h : Quiet log) {a : Act ε} (ha : .handBack a.item ∉ log) :
    Quiet (log ++ [a]) := by
  refine List.pairwise_append.2 ⟨h, List.pairwise_singleton _ _, fun b hb c hc x hx => ?_⟩
  rw [List.mem_singleton.1 hc]
  rintro rfl
  exact ha (hx ▸ hb)

theorem Quiet.count_le_one [DecidableEq ε] (h : Quiet log) (x : ε) :
    log.count (.handBack x) ≤ 1 := by
  induction log with
  | nil => simp
  | cons a log ih =>
    obtain ⟨ha, hlog⟩ := List.pairwise_cons.1 h
    by_cases hax : a = .handBack x
    · have hno : .handBack x ∉ log := fun hx => ha _ hx x hax rfl
      simp [hax, List.count_eq_zero_of_not_mem hno]
    · rw [List.count_cons_of_ne hax]
      exact ih hlog

namespace Books

theorem perm (h : Books issued out log) (hp : out.Perm out') : Books issued out' log where
  nodup := hp.nodup_iff.1 h.nodup
  mem_iff x := hp.mem_iff.symm.trans (h.mem_iff x)
  known := h.known
  quiet := h.quiet

theorem use (h : Books issued out log) (hx : x ∈ out) : Books issued out (log ++ [.use x]) where
  nodup := h.nodup
  mem_iff y := by simpa using h.mem_iff y
  known a ha := by
    rcases List.mem_append.1 ha with ha | ha
    · exact h.known a ha
    · rw [List.mem_singleton.1 ha]
      exact ((h.mem_iff x).1 hx).1
  quiet := h.quiet.append_singleton ((h.mem_iff x).1 hx).2

theorem issue (h : Books issued out log) (hx : ¬ issued x)
    (hissued : ∀ y, issued' y ↔ y = x ∨ issued y) : Books issued' (x :: out) log where
  nodup := List.nodup_cons.2 ⟨fun hmem => hx ((h.mem_iff x).1 hmem).1, h.nodup⟩
  mem_iff y := by
    rw [List.mem_cons, h.mem_iff, hissued]
    refine ⟨?_, fun hy => hy.1.imp id fun hi => ⟨hi, hy.2⟩⟩
    rintro (rfl | hy)
    · exact ⟨.inl rfl, fun hb => hx (h.known _ hb)⟩
    · exact ⟨.inr hy.1, hy.2⟩
  known a ha := (hissued _).2 (.inr (h.known a ha))
  quiet := h.quiet

theorem handBack (h : Books issued (x :: out) log) : Books issued out (log ++ [.handBack x]) where
  nodup := (List.nodup_cons.1 h.nodup).2
  mem_iff y := by
    have hmem := h.mem_iff y
    rw [List.mem_cons] at hmem
    simp only [List.mem_append, List.mem_singleton, Act.handBack.injEq, not_or]
    refine ⟨fun hy => ?_, fun hy => (hmem.2 ⟨hy.1, hy.2.1⟩).resolve_left hy.2.2⟩
    refine ⟨(hmem.1 (.inr hy)).1, (hmem.1 (.inr hy)).2, ?_⟩
    rintro rfl
    exact (List.nodup_cons.1 h.nodup).1 hy
  known a ha := by
    rcases List.mem_append.1 ha with ha | ha
    · exact h.known a ha
    · rw [List.mem_singleton.1 ha]
      exact ((h.mem_iff x).1 List.mem_cons_self).1
  quiet := h.quiet.append_singleton ((h.mem_iff x).1 List.mem_cons_self).2

theorem handBackAll : ∀ {xs : List ε} {log : List (Act ε)}, Books issued (xs ++ out) log →
    Books issued out (log ++ xs.map .handBack)
  | [], log, h => by simpa using h
  | x :: xs, log, h => by
    have hrest := handBackAll (Books.handBack h)
    rwa [List.append_assoc] at hrest

/-- An issued item is out or has been handed back once. -/
theorem count_eq_one [DecidableEq ε] (h : Books issued out log) (hx : issued x) (hout : x ∉ out) :
    log.count (.handBack x) = 1 := by
  have hmem : .handBack x ∈ log := by
    by_contra hno
    exact hout ((h.mem_iff x).2 ⟨hx, hno⟩)
  exact Nat.le_antisymm (h.quiet.count_le_one x) (List.count_pos_iff.2 hmem)

end Books

end Lib
