import Mathlib.Data.List.Induction
import Mathlib.Tactic.Ring

/-!
# Hashing block by block

A `BlockHash` folds a compression function over the blocks of a message. Fed piece by piece it
keeps the value after the whole blocks so far (`run`) and the elements after them (`rest`): one
more piece is hashed from these two alone (`run_append`, `rest_append`).

Two different messages of whole blocks with one value hold a collision of the compression function
between the states their own hashing comes by (`collision_of_run_eq`).
-/

namespace Lib

variable {σ β : Type*}

/-- The first `k` blocks of `n` elements each. -/
def blocks (n : ℕ) : ℕ → List β → List (List β)
  | 0, _ => []
  | k + 1, xs => xs.take n :: blocks n k (xs.drop n)

variable {n : ℕ}

@[simp] theorem length_blocks (k : ℕ) (xs : List β) : (blocks n k xs).length = k := by
  induction k generalizing xs with
  | zero => rfl
  | succ k ih => simp [blocks, ih]

theorem blocks_add (j k : ℕ) (xs : List β) :
    blocks n (j + k) xs = blocks n j xs ++ blocks n k (xs.drop (n * j)) := by
  induction j generalizing xs with
  | zero => simp [blocks]
  | succ j ih =>
    have hmul : n * (j + 1) = n + n * j := by ring
    rw [Nat.add_right_comm, blocks, blocks, ih, List.drop_drop, hmul, List.cons_append]

theorem blocks_append {k : ℕ} {xs ys : List β} (h : n * k ≤ xs.length) :
    blocks n k (xs ++ ys) = blocks n k xs := by
  induction k generalizing xs with
  | zero => rfl
  | succ k ih =>
    have hmul : n * (k + 1) = n + n * k := by ring
    have hle : n ≤ xs.length := by omega
    rw [blocks, blocks, List.take_append_of_le_length hle, List.drop_append_of_le_length hle,
      ih (by rw [List.length_drop]; omega)]

theorem flatten_blocks (k : ℕ) (xs : List β) : (blocks n k xs).flatten = xs.take (n * k) := by
  induction k generalizing xs with
  | zero => simp [blocks]
  | succ k ih =>
    have hmul : n * (k + 1) = n + n * k := by ring
    rw [blocks, List.flatten_cons, ih, hmul, List.take_add]

theorem length_of_mem_blocks {k : ℕ} {xs b : List β} (h : n * k ≤ xs.length)
    (hb : b ∈ blocks n k xs) : b.length = n := by
  induction k generalizing xs with
  | zero => simp [blocks] at hb
  | succ k ih =>
    have hmul : n * (k + 1) = n + n * k := by ring
    rcases List.mem_cons.mp hb with rfl | hb
    · rw [List.length_take]
      omega
    · exact ih (by rw [List.length_drop]; omega) hb

variable (σ β) in
/-- A hash that folds `compress` over blocks of `size` elements. -/
structure BlockHash where
  size : ℕ
  init : σ
  compress : σ → List β → σ

namespace BlockHash

variable (H : BlockHash σ β)

/-- The value after the whole blocks of a message. -/
def run (xs : List β) : σ := (blocks H.size (xs.length / H.size) xs).foldl H.compress H.init

/-- What stands after the whole blocks. -/
def rest (xs : List β) : List β := xs.drop (H.size * (xs.length / H.size))

variable {H} {xs ys : List β}

@[simp] theorem run_nil : H.run [] = H.init := by simp [run, blocks]

theorem length_rest (xs : List β) : (H.rest xs).length = xs.length % H.size := by
  have := Nat.div_add_mod xs.length H.size
  rw [rest, List.length_drop]
  omega

theorem drop_whole (xs ys : List β) :
    (xs ++ ys).drop (H.size * (xs.length / H.size)) = H.rest xs ++ ys :=
  List.drop_append_of_le_length (Nat.mul_div_le _ _)

section Append

variable (hsize : 0 < H.size)
include hsize

theorem append_div (xs ys : List β) : (xs ++ ys).length / H.size =
    xs.length / H.size + (H.rest xs ++ ys).length / H.size := by
  have hdiv := Nat.div_add_mod xs.length H.size
  have hsum : (xs ++ ys).length = (H.rest xs ++ ys).length + H.size * (xs.length / H.size) := by
    rw [List.length_append, List.length_append, length_rest]
    omega
  rw [hsum, Nat.add_mul_div_left _ _ hsize, Nat.add_comm]

/-- A further piece is hashed from the value so far and what its blocks left over. -/
theorem run_append (xs ys : List β) : H.run (xs ++ ys) =
    (blocks H.size ((H.rest xs ++ ys).length / H.size) (H.rest xs ++ ys)).foldl H.compress
      (H.run xs) := by
  rw [run, append_div hsize, blocks_add, drop_whole, List.foldl_append,
    blocks_append (Nat.mul_div_le _ _), run]

theorem rest_append (xs ys : List β) : H.rest (xs ++ ys) =
    (H.rest xs ++ ys).drop (H.size * ((H.rest xs ++ ys).length / H.size)) := by
  rw [rest, append_div hsize, Nat.mul_add, ← List.drop_drop, drop_whole]

/-- A piece that fills no block only waits. -/
theorem run_append_of_lt (h : xs.length % H.size + ys.length < H.size) :
    H.run (xs ++ ys) = H.run xs ∧ H.rest (xs ++ ys) = H.rest xs ++ ys := by
  have hzero : (H.rest xs ++ ys).length / H.size = 0 :=
    Nat.div_eq_of_lt (by rwa [List.length_append, length_rest])
  rw [run_append hsize, rest_append hsize, hzero]
  simp [blocks]

/-- A piece that fills the open block closes it, and its whole blocks follow. -/
theorem run_append_of_le {p : ℕ} (hp : p = H.size - xs.length % H.size) (hle : p ≤ ys.length) :
    H.run (xs ++ ys) = (blocks H.size ((ys.length - p) / H.size) (ys.drop p)).foldl H.compress
        (H.compress (H.run xs) (H.rest xs ++ ys.take p))
      ∧ H.rest (xs ++ ys) = ys.drop (p + H.size * ((ys.length - p) / H.size)) := by
  have hlt := Nat.mod_lt xs.length hsize
  have hrest : (H.rest xs).length + p = H.size := by
    rw [length_rest]
    omega
  have hdiv : (H.rest xs ++ ys).length / H.size = (ys.length - p) / H.size + 1 := by
    rw [List.length_append, ← Nat.add_div_right _ hsize]
    congr 1
    omega
  have htake : (H.rest xs ++ ys).take H.size = H.rest xs ++ ys.take p := by
    rw [← hrest, List.take_length_add_append]
  have hdrop : (H.rest xs ++ ys).drop H.size = ys.drop p := by
    rw [← hrest, List.drop_length_add_append]
  refine ⟨?_, ?_⟩
  · rw [run_append hsize, hdiv, blocks, htake, hdrop, List.foldl_cons]
  · rw [rest_append hsize, hdiv, Nat.mul_add, Nat.mul_one, Nat.add_comm, ← List.drop_drop, hdrop,
      List.drop_drop]

end Append

/-! ## Collisions -/

theorem blocks_flatten {bs : List (List β)} (h : ∀ b ∈ bs, b.length = n) :
    blocks n bs.length bs.flatten = bs := by
  induction bs with
  | nil => rfl
  | cons b bs ih =>
    have hb : b.length = n := h b List.mem_cons_self
    rw [List.length_cons, blocks, List.flatten_cons, List.take_left' hb, List.drop_left' hb,
      ih fun c hc => h c (List.mem_cons_of_mem _ hc)]

theorem length_flatten_blocks {bs : List (List β)} (h : ∀ b ∈ bs, b.length = n) :
    bs.flatten.length = n * bs.length := by
  induction bs with
  | nil => rfl
  | cons b bs ih =>
    rw [List.flatten_cons, List.length_append, h b List.mem_cons_self,
      ih fun c hc => h c (List.mem_cons_of_mem _ hc), List.length_cons, Nat.mul_add, Nat.mul_one,
      Nat.add_comm]

theorem run_flatten (hsize : 0 < H.size) {bs : List (List β)} (h : ∀ b ∈ bs, b.length = H.size) :
    H.run bs.flatten = bs.foldl H.compress H.init := by
  rw [run, length_flatten_blocks h, Nat.mul_div_cancel_left _ hsize, blocks_flatten h]

/-- Two different block lists of one length with one value, seen from the end, part where the
compression function meets two arguments of one image. -/
theorem exists_collision_of_length {f : σ → β → σ} {s : σ} {bs cs : List β}
    (hlen : bs.length = cs.length) (hne : bs ≠ cs) (h : bs.foldl f s = cs.foldl f s) :
    ∃ p b p' b' q, bs = p ++ b :: q ∧ cs = p' ++ b' :: q ∧
      (p.foldl f s, b) ≠ (p'.foldl f s, b') ∧ f (p.foldl f s) b = f (p'.foldl f s) b' := by
  induction bs using List.reverseRecOn generalizing cs with
  | nil => exact absurd (List.length_eq_zero_iff.mp hlen.symm).symm hne
  | append_singleton bs b ih =>
    obtain ⟨cs, c, rfl⟩ : ∃ cs' c, cs = cs' ++ [c] := by
      rcases List.eq_nil_or_concat cs with rfl | ⟨cs', c, rfl⟩
      · simp at hlen
      · exact ⟨cs', c, by simp⟩
    simp only [List.foldl_append, List.foldl_cons, List.foldl_nil] at h
    by_cases heq : (bs.foldl f s, b) = (cs.foldl f s, c)
    · obtain ⟨hs, rfl⟩ := Prod.mk.inj heq
      obtain ⟨p, d, p', d', q, rfl, rfl, hd⟩ :=
        ih (by simpa using hlen) (fun hbs => hne (by rw [hbs])) hs
      exact ⟨p, d, p', d', q ++ [b], by simp, by simp, hd⟩
    · exact ⟨bs, b, cs, c, [], rfl, rfl, heq, h⟩

/-- Where equal last blocks mean equal lengths, any two different block lists of one value part
so. -/
theorem exists_collision {f : σ → β → σ} {s : σ} {bs cs : List β} {b c : β}
    (hlen : b = c → bs.length = cs.length) (hne : bs ++ [b] ≠ cs ++ [c])
    (h : (bs ++ [b]).foldl f s = (cs ++ [c]).foldl f s) :
    ∃ p d p' d' q, bs ++ [b] = p ++ d :: q ∧ cs ++ [c] = p' ++ d' :: q ∧
      (p.foldl f s, d) ≠ (p'.foldl f s, d') ∧ f (p.foldl f s) d = f (p'.foldl f s) d' := by
  by_cases hbc : b = c
  · exact exists_collision_of_length (by simp [hlen hbc]) hne h
  · simp only [List.foldl_append, List.foldl_cons, List.foldl_nil] at h
    exact ⟨bs, b, cs, c, [], rfl, rfl, fun heq => hbc (Prod.mk.inj heq).2, h⟩

variable (H) in
/-- The compression of one block of `xs` meets that of one block of `ys`, from another state or on
another block, with the same bytes behind both. -/
def Collision (xs ys : List β) : Prop :=
  ∃ p d p' d' q, xs = p ++ d ++ q ∧ ys = p' ++ d' ++ q ∧ H.size ∣ p.length ∧ H.size ∣ p'.length ∧
    d.length = H.size ∧ d'.length = H.size ∧ (H.run p, d) ≠ (H.run p', d') ∧
    H.compress (H.run p) d = H.compress (H.run p') d'

theorem exists_blocks (h : H.size ∣ xs.length) (hpos : 0 < xs.length) :
    ∃ bs b, xs = (bs ++ [b]).flatten ∧ ∀ d ∈ bs ++ [b], d.length = H.size := by
  obtain ⟨k, hk⟩ := h
  have hflat : (blocks H.size k xs).flatten = xs := by
    rw [flatten_blocks, List.take_of_length_le hk.le]
  rcases List.eq_nil_or_concat (blocks H.size k xs) with hnil | ⟨bs, b, hbs⟩
  · rw [hnil] at hflat
    subst hflat
    simp at hpos
  · rw [List.concat_eq_append] at hbs
    refine ⟨bs, b, by rw [← hbs, hflat], fun d hd => ?_⟩
    rw [← hbs] at hd
    exact length_of_mem_blocks hk.ge hd

/-- Two different messages of whole blocks hash to one value only by a collision, where their last
blocks tell their lengths. -/
theorem collision_of_run_eq (hsize : 0 < H.size) (hx : H.size ∣ xs.length) (hy : H.size ∣ ys.length)
    (hx₀ : 0 < xs.length) (hy₀ : 0 < ys.length)
    (hlast : xs.drop (xs.length - H.size) = ys.drop (ys.length - H.size) → xs.length = ys.length)
    (hne : xs ≠ ys) (h : H.run xs = H.run ys) : H.Collision xs ys := by
  obtain ⟨bs, b, rfl, hbs⟩ := exists_blocks hx hx₀
  obtain ⟨cs, c, rfl, hcs⟩ := exists_blocks hy hy₀
  rw [run_flatten hsize hbs, run_flatten hsize hcs] at h
  have hdrop : ∀ {ds : List (List β)} {d}, (∀ e ∈ ds ++ [d], e.length = H.size) →
      (ds ++ [d]).flatten.drop ((ds ++ [d]).flatten.length - H.size) = d := fun {ds d} hds => by
    have hd : d.length = H.size := hds d (by simp)
    rw [List.flatten_append, List.flatten_singleton, List.length_append, hd, Nat.add_sub_cancel,
      List.drop_left]
  have hlen : b = c → bs.length = cs.length := fun hbc => by
    have heq := hlast (by rw [hdrop hbs, hdrop hcs, hbc])
    rw [length_flatten_blocks hbs, length_flatten_blocks hcs] at heq
    simpa using Nat.eq_of_mul_eq_mul_left hsize heq
  obtain ⟨p, d, p', d', q, hp, hp', hpd, heq⟩ :=
    exists_collision hlen (fun hbc => hne (by rw [hbc])) h
  rw [hp] at hbs
  rw [hp'] at hcs
  have hpb : ∀ e ∈ p, e.length = H.size := fun e he => hbs e (by simp [he])
  have hpc : ∀ e ∈ p', e.length = H.size := fun e he => hcs e (by simp [he])
  refine ⟨p.flatten, d, p'.flatten, d', q.flatten, by simp [hp], by simp [hp'],
    ⟨_, length_flatten_blocks hpb⟩, ⟨_, length_flatten_blocks hpc⟩, hbs d (by simp),
    hcs d' (by simp), ?_, ?_⟩
  · rwa [run_flatten hsize hpb, run_flatten hsize hpc]
  · rwa [run_flatten hsize hpb, run_flatten hsize hpc]

end BlockHash

end Lib
