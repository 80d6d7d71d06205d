import Mathlib.Data.List.Sort
import Mathlib.Order.Defs.LinearOrder

/-!
# Maps kept in the order of their keys

The entries are a list in which the keys increase, so that each key has at most one entry, the first
entry has the least key, and the entries below a bound are a prefix.
-/

namespace Lib

/-- A map as the list of its entries in the order of the keys. -/
@[ext]
structure OrderedMap (κ α : Type*) [LinearOrder κ] where
  entries : List (κ × α)
  sorted : entries.Pairwise (·.1 < ·.1)

namespace OrderedMap

variable {κ α β : Type*} [LinearOrder κ] {m m' : OrderedMap κ α} {k k' : κ} {v v' : α}
  {l : List (κ × α)}

theorem sorted_nil : ([] : List (κ × α)).Pairwise (·.1 < ·.1) := .nil

def empty : OrderedMap κ α := ⟨[], sorted_nil⟩

instance : Inhabited (OrderedMap κ α) := ⟨empty⟩

instance [DecidableEq α] : DecidableEq (OrderedMap κ α) := fun m m' =>
  decidable_of_iff (m.entries = m'.entries) (by cases m; cases m'; simp)

/-- The value under a key. -/
def find? (m : OrderedMap κ α) (k : κ) : Option α := m.entries.lookup k

/-- The entry with the least key. -/
def head? (m : OrderedMap κ α) : Option (κ × α) := m.entries.head?

def size (m : OrderedMap κ α) : ℕ := m.entries.length

def keys (m : OrderedMap κ α) : List κ := m.entries.map Prod.fst

/-- The entry put in its place among entries with other keys. -/
def place (k : κ) (v : α) (l : List (κ × α)) : List (κ × α) :=
  l.orderedInsert (fun e f => e.1 ≤ f.1) (k, v)

theorem sorted_filter {p : κ × α → Bool} (h : l.Pairwise (·.1 < ·.1)) :
    (l.filter p).Pairwise (·.1 < ·.1) := h.sublist List.filter_sublist

theorem sorted_dropWhile {p : κ × α → Bool} (h : l.Pairwise (·.1 < ·.1)) :
    (l.dropWhile p).Pairwise (·.1 < ·.1) := h.sublist (List.dropWhile_sublist _)

theorem mem_place {e : κ × α} : e ∈ place k v l ↔ e = (k, v) ∨ e ∈ l := List.mem_orderedInsert _

theorem sorted_place (h : l.Pairwise (·.1 < ·.1)) (hk : ∀ e ∈ l, e.1 ≠ k) :
    (place k v l).Pairwise (·.1 < ·.1) := by
  induction l with
  | nil => exact List.pairwise_singleton _ _
  | cons e l ih =>
    have he : e.1 ≠ k := hk e (by simp)
    unfold place
    rw [List.orderedInsert_cons]
    split_ifs with hle
    · refine List.pairwise_cons.2 ⟨fun f hf => ?_, h⟩
      have hlt : k < e.1 := lt_of_le_of_ne hle he.symm
      rcases List.mem_cons.1 hf with rfl | hf
      · exact hlt
      · exact hlt.trans (List.rel_of_pairwise_cons h hf)
    · refine List.pairwise_cons.2 ⟨fun f hf => ?_, ih h.of_cons fun f hf => hk f (by simp [hf])⟩
      rcases mem_place.1 hf with rfl | hf
      · exact not_le.1 hle
      · exact List.rel_of_pairwise_cons h hf

/-- The map without the key. -/
def erase (m : OrderedMap κ α) (k : κ) : OrderedMap κ α :=
  ⟨m.entries.filter (·.1 ≠ k), sorted_filter m.sorted⟩

theorem ne_of_mem_filter {e : κ × α} (h : e ∈ l.filter (·.1 ≠ k)) : e.1 ≠ k := by
  simpa using (List.mem_filter.1 h).2

/-- The map with the value under the key, whatever it had there. -/
def set (m : OrderedMap κ α) (k : κ) (v : α) : OrderedMap κ α :=
  ⟨place k v (m.entries.filter (·.1 ≠ k)),
    sorted_place (sorted_filter m.sorted) fun _ => ne_of_mem_filter⟩

/-- The map with the value under the key, if it had none there. -/
def insert (m : OrderedMap κ α) (k : κ) (v : α) : OrderedMap κ α :=
  if (m.find? k).isSome then m else m.set k v

/-- The map without the entries before the first one that `p` does not hold of. -/
def dropWhile (m : OrderedMap κ α) (p : κ × α → Bool) : OrderedMap κ α :=
  ⟨m.entries.dropWhile p, sorted_dropWhile m.sorted⟩

theorem sorted_mapVals (f : κ → α → β) (h : l.Pairwise (·.1 < ·.1)) :
    (l.map fun e => (e.1, f e.1 e.2)).Pairwise (·.1 < ·.1) := h.map _ fun _ _ h => h

/-- The map with every value changed. -/
def mapVals (m : OrderedMap κ α) (f : κ → α → β) : OrderedMap κ β :=
  ⟨m.entries.map fun e => (e.1, f e.1 e.2), sorted_mapVals f m.sorted⟩

theorem sorted_filterMap (f : κ → α → Option β) (h : l.Pairwise (·.1 < ·.1)) :
    (l.filterMap fun e => (f e.1 e.2).map (e.1, ·)).Pairwise (·.1 < ·.1) := by
  refine h.filterMap _ fun e e' hlt b hb b' hb' => ?_
  obtain ⟨v, -, rfl⟩ := Option.map_eq_some_iff.1 hb
  obtain ⟨v', -, rfl⟩ := Option.map_eq_some_iff.1 hb'
  exact hlt

/-- The map with every value changed or taken out. -/
def filterMap (m : OrderedMap κ α) (f : κ → α → Option β) : OrderedMap κ β :=
  ⟨m.entries.filterMap fun e => (f e.1 e.2).map (e.1, ·), sorted_filterMap f m.sorted⟩

theorem nodup_keys (m : OrderedMap κ α) : m.keys.Nodup := by
  unfold keys
  exact (List.pairwise_map.2 (m.sorted.imp fun h => h.ne))

theorem mem_entries_iff : (k, v) ∈ m.entries ↔ m.find? k = some v := by
  unfold find?
  rw [List.lookup_eq_some_iff]
  constructor
  · intro h
    obtain ⟨l₁, l₂, hl⟩ := List.append_of_mem h
    refine ⟨l₁, l₂, hl, fun e he => ?_⟩
    have hs := m.sorted
    rw [hl, List.pairwise_append] at hs
    have hlt := hs.2.2 e he (k, v) (by simp)
    simpa using hlt.ne'
  · rintro ⟨l₁, l₂, hl, -⟩
    rw [hl]
    simp

theorem find?_eq_none_iff : m.find? k = none ↔ ∀ e ∈ m.entries, e.1 ≠ k := by
  unfold find?
  rw [List.lookup_eq_none_iff]
  exact forall₂_congr fun e _ => by rw [bne_iff_ne]; exact ne_comm

theorem ext_find? (h : ∀ k, m.find? k = m'.find? k) : m = m' := by
  have hmem : ∀ e, e ∈ m.entries ↔ e ∈ m'.entries := by
    intro e
    obtain ⟨k, v⟩ := e
    rw [mem_entries_iff, mem_entries_iff, h]
  have hperm : m.entries.Perm m'.entries :=
    (List.perm_ext_iff_of_nodup (.of_map _ m.nodup_keys) (.of_map _ m'.nodup_keys)).2 hmem
  have heq := hperm.eq_of_pairwise (fun a b _ _ hab hba => absurd hab (not_lt.2 hba.le))
    m.sorted m'.sorted
  exact OrderedMap.ext heq

theorem find?_empty (k : κ) : (empty : OrderedMap κ α).find? k = none := rfl

theorem mem_erase {e : κ × α} : e ∈ (m.erase k).entries ↔ e ∈ m.entries ∧ e.1 ≠ k := by
  simp [erase, List.mem_filter]

theorem mem_set {e : κ × α} :
    e ∈ (m.set k v).entries ↔ e = (k, v) ∨ e ∈ m.entries ∧ e.1 ≠ k := by
  unfold set
  rw [mem_place]
  exact or_congr_right mem_erase

theorem find?_erase (m : OrderedMap κ α) (k k' : κ) :
    (m.erase k).find? k' = if k' = k then none else m.find? k' := by
  refine Option.ext fun v => ?_
  rw [← mem_entries_iff, mem_erase, mem_entries_iff]
  split_ifs with h <;> simp [h]

theorem find?_set (m : OrderedMap κ α) (k : κ) (v : α) (k' : κ) :
    (m.set k v).find? k' = if k' = k then some v else m.find? k' := by
  refine Option.ext fun u => ?_
  rw [← mem_entries_iff, mem_set, mem_entries_iff]
  split_ifs with h
  · simp [h, eq_comm]
  · simp [h]

theorem find?_insert (m : OrderedMap κ α) (k : κ) (v : α) (k' : κ) :
    (m.insert k v).find? k' = if k' = k then some ((m.find? k).getD v) else m.find? k' := by
  unfold insert
  rcases hf : m.find? k with _ | u
  · simp [find?_set]
  · rw [Option.isSome_some, if_pos rfl]
    split_ifs with h
    · rw [h, hf]
      rfl
    · rfl

theorem find?_filterMap (m : OrderedMap κ α) (f : κ → α → Option β) (k : κ) :
    (m.filterMap f).find? k = (m.find? k).bind (f k) := by
  refine Option.ext fun v => ?_
  rw [← mem_entries_iff, Option.bind_eq_some_iff]
  constructor
  · intro h
    obtain ⟨e, he, hv⟩ := List.mem_filterMap.1 h
    obtain ⟨u, hu, heq⟩ := Option.map_eq_some_iff.1 hv
    obtain ⟨rfl, rfl⟩ := Prod.mk.inj heq
    exact ⟨e.2, mem_entries_iff.1 he, hu⟩
  · rintro ⟨u, hu, hv⟩
    exact List.mem_filterMap.2 ⟨(k, u), mem_entries_iff.2 hu, by rw [hv]; rfl⟩

theorem find?_mapVals (m : OrderedMap κ α) (f : κ → α → β) (k : κ) :
    (m.mapVals f).find? k = (m.find? k).map (f k) := by
  refine Option.ext fun v => ?_
  rw [← mem_entries_iff, Option.map_eq_some_iff]
  constructor
  · intro h
    obtain ⟨e, he, heq⟩ := List.mem_map.1 h
    obtain ⟨rfl, rfl⟩ := Prod.mk.inj heq
    exact ⟨e.2, mem_entries_iff.1 he, rfl⟩
  · rintro ⟨u, hu, rfl⟩
    exact List.mem_map.2 ⟨(k, u), mem_entries_iff.2 hu, rfl⟩

theorem eq_empty_iff : m = empty ↔ ∀ k, m.find? k = none := by
  constructor
  · rintro rfl
    exact find?_empty
  · exact fun h => ext_find? fun k => (h k).trans (find?_empty k).symm

theorem size_eq_zero_iff : m.size = 0 ↔ m = empty := by
  constructor
  · intro h
    exact OrderedMap.ext (List.length_eq_zero_iff.1 h)
  · rintro rfl
    rfl

theorem insert_of_none (h : m.find? k = none) : m.insert k v = m.set k v := by
  unfold insert
  rw [h, Option.isSome_none, if_neg Bool.false_ne_true]

theorem mem_insert {e : κ × α} (h : m.find? k = none) :
    e ∈ (m.insert k v).entries ↔ e = (k, v) ∨ e ∈ m.entries := by
  have hne := find?_eq_none_iff.1 h
  rw [insert_of_none h, mem_set]
  exact or_congr_right (and_iff_left_of_imp (hne e))

/-- What is in the map is one entry and the rest. -/
theorem perm_erase (h : m.find? k = some v) : m.entries.Perm ((k, v) :: (m.erase k).entries) := by
  have hnew : (k, v) ∉ (m.erase k).entries := fun hv => (mem_erase.1 hv).2 rfl
  refine (List.perm_ext_iff_of_nodup (.of_map _ m.nodup_keys)
    (List.nodup_cons.2 ⟨hnew, .of_map _ (m.erase k).nodup_keys⟩)).2 fun e => ?_
  rw [List.mem_cons, mem_erase]
  constructor
  · intro he
    by_cases hk : e.1 = k
    · subst hk
      have hv := (mem_entries_iff (v := e.2)).1 he
      rw [h, Option.some.injEq] at hv
      exact .inl (Prod.ext rfl hv.symm)
    · exact .inr ⟨he, hk⟩
  · rintro (rfl | ⟨he, -⟩)
    · exact mem_entries_iff.2 h
    · exact he

theorem perm_set (m : OrderedMap κ α) (k : κ) (v : α) :
    (m.set k v).entries.Perm ((k, v) :: (m.erase k).entries) := List.perm_orderedInsert _ _ _

/-- The entry of a key stands alone. -/
theorem entries_eq (h : m.find? k = some v) : ∃ l₁ l₂, m.entries = l₁ ++ (k, v) :: l₂
    ∧ (∀ e ∈ l₁, e.1 ≠ k) ∧ ∀ e ∈ l₂, e.1 ≠ k := by
  obtain ⟨l₁, l₂, hl⟩ := List.append_of_mem (mem_entries_iff.2 h)
  have hs := m.sorted
  rw [hl, List.pairwise_append, List.pairwise_cons] at hs
  exact ⟨l₁, l₂, hl, fun e he => (hs.2.2 e he (k, v) (by simp)).ne,
    fun e he => (hs.2.1.1 e he).ne'⟩

theorem erase_of_none (h : m.find? k = none) : m.erase k = m := by
  refine OrderedMap.ext (List.filter_eq_self.2 fun e he => ?_)
  simpa using find?_eq_none_iff.1 h e he

theorem size_insert (h : m.find? k = none) : (m.insert k v).size = m.size + 1 := by
  have hlen := (m.perm_set k v).length_eq
  rw [erase_of_none h] at hlen
  rw [insert_of_none h]
  exact hlen

theorem size_erase (h : (m.find? k).isSome) : (m.erase k).size + 1 = m.size := by
  obtain ⟨v, hv⟩ := Option.isSome_iff_exists.1 h
  exact (perm_erase hv).length_eq.symm

/-- No key is below that of the first entry. -/
theorem le_of_head? {e f : κ × α} (h : m.head? = some e) (hf : f ∈ m.entries) : e.1 ≤ f.1 := by
  have hs := m.sorted
  unfold head? at h
  rcases hl : m.entries with _ | ⟨e', l⟩
  · simp [hl] at h
  · rw [hl, List.head?_cons, Option.some.injEq] at h
    subst h
    rw [hl] at hf hs
    rcases List.mem_cons.1 hf with rfl | hf
    · exact le_rfl
    · exact (List.rel_of_pairwise_cons hs hf).le

theorem head?_eq_none_iff : m.head? = none ↔ m.entries = [] := List.head?_eq_none_iff

theorem mem_of_head? {e : κ × α} (h : m.head? = some e) : e ∈ m.entries := List.mem_of_head? h

section Below

variable {p : κ × α → Bool} (hp : ∀ e f : κ × α, e.1 ≤ f.1 → p f → p e)

include hp

theorem takeWhile_eq_filter (m : OrderedMap κ α) : m.entries.takeWhile p = m.entries.filter p := by
  obtain ⟨l, hl⟩ := m
  dsimp only
  induction l with
  | nil => rfl
  | cons e l ih =>
    rw [List.takeWhile_cons, List.filter_cons]
    split_ifs with h
    · rw [ih hl.of_cons]
    · symm
      rw [List.filter_eq_nil_iff]
      intro f hf hpf
      exact h (hp e f (List.rel_of_pairwise_cons hl hf).le hpf)

theorem dropWhile_eq_filter (m : OrderedMap κ α) :
    m.entries.dropWhile p = m.entries.filter fun e => !p e := by
  obtain ⟨l, hl⟩ := m
  dsimp only
  induction l with
  | nil => rfl
  | cons e l ih =>
    rw [List.dropWhile_cons, List.filter_cons]
    by_cases h : p e
    · rw [if_pos h, ih hl.of_cons, if_neg (by simp [h])]
    · rw [if_neg h, if_pos (by simp [h]), List.filter_eq_self.2]
      intro f hf
      have : ¬p f := fun hpf => h (hp e f (List.rel_of_pairwise_cons hl hf).le hpf)
      simpa using this

end Below

end OrderedMap

end Lib
