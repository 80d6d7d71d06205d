import Longda.Seda.SedaConfig
import Mathlib.Data.List.DropRight
import Mathlib.Data.List.Forall2

/-!
# The metrics and their history

A `MetricHistory` keeps the last samples, as many as its capacity, with the oldest in front
(`addAll_make`). `dump` reads it from the front, so that it prints the oldest of what is
asked for and not the newest. A `SedaQueueInfo` adds the queue lengths at every update to those it
has, in the order of the map of the stages, and prints them beside the names in the order of the
configuration; the names are read once and shared by all objects.
-/

namespace Longda

open Lib

section MetricHistory

variable {T : Type*}

structure MetricHistory (T : Type*) where
  metricHistory : List T
  maxNum : ℕ

namespace MetricHistory

/-- The constructor. -/
def make (capacity : ℕ) : MetricHistory T := ⟨[], capacity⟩

def size (h : MetricHistory T) : ℕ := h.metricHistory.length

def capacity (h : MetricHistory T) : ℕ := h.maxNum

def add (h : MetricHistory T) (elem : T) : MetricHistory T :=
  let h := { h with metricHistory := h.metricHistory ++ [elem] }
  if h.size > h.capacity then { h with metricHistory := h.metricHistory.tail } else h

/-- The elements that are dumped, with `none` for one read past the end. -/
def dump (h : MetricHistory T) (num : ℕ) : List (Option T) :=
  let num := if num > h.size then h.size else num
  (List.range num).map fun i => h.metricHistory[num - i - 1]?

def addAll (h : MetricHistory T) (elems : List T) : MetricHistory T := elems.foldl add h

end MetricHistory

open MetricHistory

/-- A sample added to the last `k` of those before it. -/
theorem rtake_concat (k : ℕ) (xs : List T) (x : T) : (xs ++ [x]).rtake k =
    if k < (xs.rtake k ++ [x]).length then (xs.rtake k ++ [x]).tail else xs.rtake k ++ [x] := by
  simp only [List.rtake, List.length_append, List.length_singleton, List.length_drop]
  rw [← List.drop_append_of_le_length (by omega)]
  split_ifs with hk
  · rw [List.tail_drop]
    congr 1
    omega
  · congr 1
    omega

theorem add_mk (xs : List T) (capacity : ℕ) (elem : T) :
    add ⟨xs.rtake capacity, capacity⟩ elem = ⟨(xs ++ [elem]).rtake capacity, capacity⟩ := by
  rw [rtake_concat]
  simp only [add, size, MetricHistory.capacity, gt_iff_lt]
  split_ifs <;> rfl

/-- The history of the samples added. -/
theorem addAll_make (capacity : ℕ) (elems : List T) :
    (make capacity).addAll elems = ⟨elems.rtake capacity, capacity⟩ := by
  induction elems using List.reverseRecOn with
  | nil => simp [make, addAll]
  | append_singleton elems elem ih =>
    rw [addAll, List.foldl_concat, ← addAll, ih, add_mk]

/-- What is dumped is read from the front, which is the oldest. -/
theorem dump_eq (h : MetricHistory T) (num : ℕ) :
    h.dump num = ((h.metricHistory.take num).reverse).map some := by
  have hmin : (if num > h.size then h.size else num) = (h.metricHistory.take num).length := by
    rw [List.length_take, size]
    split_ifs <;> omega
  simp only [dump, hmin]
  refine List.ext_getElem (by simp) fun i hi _ => ?_
  simp only [List.length_map, List.length_range] at hi
  simp only [List.getElem_map, List.getElem_range, List.getElem_reverse, List.getElem_take]
  rw [List.getElem?_eq_getElem (by rw [List.length_take] at hi ⊢; omega)]
  congr 2
  omega

/-- The first `k` are the last `k` where the list repeats with the period that is left. -/
theorem take_eq_rtake_iff (xs : List T) (k : ℕ) :
    xs.take k = xs.rtake k ↔ ∀ i < k, xs[i]? = xs[i + (xs.length - k)]? := by
  rw [List.rtake, List.ext_getElem?_iff]
  refine forall_congr' fun i => ?_
  rw [List.getElem?_take, List.getElem?_drop, Nat.add_comm]
  split_ifs with hi
  · simp [hi]
  · simp only [hi, false_implies, iff_true]
    rw [List.getElem?_eq_none (by omega)]

theorem length_rtake (k : ℕ) (xs : List T) : (xs.rtake k).length = min k xs.length := by
  rw [List.rtake, List.length_drop]
  omega

/-- The newest of what is kept. -/
theorem reverse_rtake_rtake (k num : ℕ) (xs : List T) :
    ((xs.rtake k).rtake num).reverse = xs.reverse.take (min num (xs.rtake k).length) := by
  simp only [List.rtake_eq_reverse_take_reverse, List.reverse_reverse, List.take_take,
    List.length_reverse, List.length_take]
  rw [← List.length_reverse, ← min_assoc, ← List.take_eq_take_min]

/-- The history holds the last samples and a dump prints the newest first exactly if the oldest of
them, as many as are dumped, are the newest. -/
theorem history_iff (capacity num : ℕ) (elems : List T) :
    (((make capacity).addAll elems).metricHistory =
        elems.drop (elems.length - min capacity elems.length) ∧
      ((make capacity).addAll elems).dump num = (elems.reverse.take
        (min num ((make capacity).addAll elems).size)).map some) ↔
    ∀ i < num, (elems.rtake capacity)[i]? =
      (elems.rtake capacity)[i + (min capacity elems.length - num)]? := by
  have hkept : elems.rtake capacity =
      elems.drop (elems.length - (elems.rtake capacity).length) := by
    rw [length_rtake, List.rtake]
    congr 1
    omega
  rw [addAll_make, dump_eq, size, ← length_rtake, ← take_eq_rtake_iff, ← reverse_rtake_rtake,
    List.map_inj_right fun _ _ => Option.some.inj, List.reverse_inj]
  exact and_iff_right hkept

/-- For samples all different, all that are kept are to be dumped, or none. -/
theorem history_iff_of_nodup {capacity num : ℕ} {elems : List T} (h : elems.Nodup) :
    (∀ i < num, (elems.rtake capacity)[i]? =
      (elems.rtake capacity)[i + (min capacity elems.length - num)]?) ↔
    num = 0 ∨ min capacity elems.length ≤ num := by
  have hn : (elems.rtake capacity).Nodup := h.sublist (List.drop_sublist _ _)
  have hlen := length_rtake capacity elems
  constructor
  · intro hall
    by_contra hc
    have hi := hall 0 (by omega)
    have := (List.getElem?_inj (by omega) hn).1 hi
    omega
  · rintro (rfl | hle) i hi
    · omega
    · rw [Nat.sub_eq_zero_of_le hle, Nat.add_zero]

/-- Of two samples the older is printed where one is asked for. -/
theorem history_false : ¬ (((make 2).addAll [1, 2]).metricHistory =
      [1, 2].drop ([1, 2].length - min 2 [1, 2].length) ∧
    ((make 2).addAll [1, 2]).dump 1 = ([1, 2].reverse.take
      (min 1 ((make 2).addAll [1, 2]).size)).map some) := by
  decide

end MetricHistory

section SedaQueueInfo

namespace SedaConfig

def getStageNames (cfg : SedaConfig) : List Str := cfg.mStageNames

/-- The configuration with its queues as long as `q` says. -/
def queued (cfg : SedaConfig) (q : Str → ℕ) : SedaConfig :=
  { cfg with mStages := cfg.mStages.mapVals fun name stg => stg.map ({ · with qlen := q name }) }

end SedaConfig

/-- An object, with the `stage_names` that all objects share. -/
structure SedaQueueInfo where
  stageNames : List Str
  queueInfo : List Int32

namespace SedaQueueInfo

/-- `getStageQueueStatus` adds to what is in the vector. -/
def update (m : SedaQueueInfo) (cfg : SedaConfig) : Option SedaQueueInfo :=
  cfg.getStageQueueStatus.map fun stats =>
    { m with queueInfo := m.queueInfo ++ stats.map Int32.ofNat }

/-- The constructor. -/
def make (stageNames : List Str) (cfg : SedaConfig) : Option SedaQueueInfo :=
  update ⟨stageNames, []⟩ cfg

/-- What is printed, unless an assertion fails or a name is read past the end. -/
def dump (asserts : Bool) (m : SedaQueueInfo) (cfg : SedaConfig) :
    Option (List (Str × Int32) × SedaQueueInfo) :=
  if m.queueInfo = [] then some ([], m)
  else
    let stageNames := if m.stageNames = [] then cfg.getStageNames else m.stageNames
    if asserts ∧ m.stageNames = [] ∧ stageNames.length ≠ m.queueInfo.length then none
    else if stageNames.length < m.queueInfo.length then none
    else some (stageNames.zip m.queueInfo, { m with stageNames })

end SedaQueueInfo

/-- What is called on an object: `update`, with the queues as long as they are then, and `dump`. -/
inductive MetricCall where
  | update (q : Str → ℕ)
  | dump

/-- Every dump prints as many names as there are lengths, each with the length its queue had at the
latest update, which is `q` to begin with. -/
def DumpsRight (asserts : Bool) (cfg : SedaConfig) :
    SedaQueueInfo → (Str → ℕ) → List MetricCall → Prop
  | _, _, [] => True
  | m, _, .update q :: cs =>
    ∃ m', m.update (cfg.queued q) = some m' ∧ DumpsRight asserts cfg m' q cs
  | m, q, .dump :: cs =>
    ∃ printed m', m.dump asserts (cfg.queued q) = some (printed, m') ∧
      (m'.queueInfo = [] ∨ m'.stageNames.length = m'.queueInfo.length) ∧
      (∀ e ∈ printed, e.2.toInt = q e.1) ∧ DumpsRight asserts cfg m' q cs

/-- The lengths at the updates among the calls. -/
def updates (cs : List MetricCall) : List (Str → ℕ) :=
  cs.filterMap fun c => match c with
    | .update q => some q
    | .dump => none

/-- The lengths read at the updates, each time in the order of the map. -/
def gathered (cfg : SedaConfig) (qs : List (Str → ℕ)) : List Int32 :=
  qs.flatMap fun q => cfg.mStages.keys.map fun name => Int32.ofNat (q name)

/-- There is no stage, or the lengths gathered are those at the last update in the order of the
configuration. -/
def InOrder (cfg : SedaConfig) (qs : List (Str → ℕ)) : Prop :=
  cfg.mStages.keys = [] ∨ ∀ q ∈ qs.getLast?,
    (gathered cfg qs).map Int32.toInt = cfg.mStageNames.map fun name => (q name : ℤ)

variable {asserts : Bool} {cfg : SedaConfig} {m : SedaQueueInfo}

theorem mapM_qlen (q : Str → ℕ) (l : List (Str × Option SedaConfig.Stage)) :
    (l.map fun e => (e.1, e.2.map ({ · with qlen := q e.1 }))).mapM
        (fun e => e.2.map SedaConfig.Stage.qlen) =
      if ∀ e ∈ l, e.2.isSome then some (l.map (q ·.1)) else none := by
  induction l with
  | nil => rfl
  | cons e l ih =>
    rw [List.map_cons, List.mapM_cons, ih]
    rcases e with ⟨name, _ | stg⟩
    · simp
    · have hcons : (∀ e ∈ (name, some stg) :: l, e.2.isSome) ↔ ∀ e ∈ l, e.2.isSome :=
        List.forall_mem_cons.trans (and_iff_right rfl)
      simp only [hcons]
      split_ifs <;> rfl

theorem update_queued (m : SedaQueueInfo) (cfg : SedaConfig) (q : Str → ℕ) :
    m.update (cfg.queued q) = if ∀ e ∈ cfg.mStages.entries, e.2.isSome then
      some { m with queueInfo := m.queueInfo ++ gathered cfg [q] } else none := by
  have h : (cfg.queued q).getStageQueueStatus = _ := mapM_qlen q cfg.mStages.entries
  rw [SedaQueueInfo.update, h]
  split_ifs
  · simp [gathered, OrderedMap.keys]
  · rfl

theorem gathered_append (cfg : SedaConfig) (qs : List (Str → ℕ)) (q : Str → ℕ) :
    gathered cfg (qs ++ [q]) = gathered cfg qs ++ gathered cfg [q] := List.flatMap_append

theorem gathered_eq_nil_iff (cfg : SedaConfig) (qs : List (Str → ℕ)) (q : Str → ℕ) :
    gathered cfg (qs ++ [q]) = [] ↔ cfg.mStages.keys = [] := by
  unfold gathered
  constructor
  · intro h
    simpa using List.flatMap_eq_nil_iff.1 h q (by simp)
  · intro h
    simp [h]

/-- Lengths beside names. -/
theorem zip_iff {names : List Str} {ls : List Int32} {q : Str → ℕ} :
    (names.length = ls.length ∧ ∀ e ∈ names.zip ls, e.2.toInt = q e.1) ↔
      ls.map Int32.toInt = names.map fun name => (q name : ℤ) := by
  rw [eq_comm (a := ls.map _), ← List.forall₂_eq_eq_eq, List.forall₂_map_left_iff,
    List.forall₂_map_right_iff, List.forall₂_iff_zip]
  refine and_congr_right fun _ => ⟨fun h name l he => (h _ he).symm, fun h e he => (h he).symm⟩

/-- A dump is right exactly if the lengths gathered are in order; it leaves them as they are, and
the names are those of the configuration if they are read. -/
theorem dump_iff (asserts : Bool) {qs : List (Str → ℕ)} {q : Str → ℕ} {P : SedaQueueInfo → Prop}
    (hm : m.queueInfo = gathered cfg (qs ++ [q]))
    (hnames : m.stageNames = [] ∨ m.stageNames = cfg.mStageNames) :
    (∃ printed m', m.dump asserts (cfg.queued q) = some (printed, m') ∧
      (m'.queueInfo = [] ∨ m'.stageNames.length = m'.queueInfo.length) ∧
      (∀ e ∈ printed, e.2.toInt = q e.1) ∧ P m') ↔
    InOrder cfg (qs ++ [q]) ∧
      P (if m.queueInfo = [] then m else { m with stageNames := cfg.mStageNames }) := by
  have hkeys := gathered_eq_nil_iff cfg qs q
  rw [← hm] at hkeys
  have hq : (qs ++ [q]).getLast? = some q := List.getLast?_concat
  by_cases hnil : m.queueInfo = []
  · simp [SedaQueueInfo.dump, InOrder, hnil, hkeys.1 hnil]
  have hread : (if m.stageNames = [] then (cfg.queued q).getStageNames else m.stageNames) =
      cfg.mStageNames := by
    rcases hnames with h | h
    · rw [if_pos h]
      rfl
    · split_ifs
      · rfl
      · exact h
  simp only [InOrder, hkeys.not.1 hnil, false_or, hq, Option.mem_some_iff, forall_eq', ← hm,
    ← zip_iff, hnil, if_false, SedaQueueInfo.dump, hread]
  split_ifs with h1 h2
  · simp [h1.2.2]
  · simp [h2.ne]
  · constructor
    · rintro ⟨_, _, he, hl, hp, hP⟩
      cases he
      exact ⟨⟨hl.resolve_left hnil, hp⟩, hP⟩
    · rintro ⟨⟨hl, hp⟩, hP⟩
      exact ⟨_, _, rfl, .inr hl, hp, hP⟩

theorem forall_concat_prefix_cons {α : Type*} {P : List α → Prop} {a c : α} {cs : List α} :
    (∀ ds, ds ++ [a] <+: c :: cs → P ds) ↔
      (c = a → P []) ∧ ∀ ds, ds ++ [a] <+: cs → P (c :: ds) := by
  constructor
  · refine fun h => ⟨fun hc => h [] (by simp [hc]), fun ds hds => h (c :: ds) ?_⟩
    simpa using hds
  · rintro ⟨h0, h⟩ (_ | ⟨d, ds⟩) hds
    · rw [List.nil_append, List.cons_prefix_cons] at hds
      exact h0 hds.1.symm
    · rw [List.cons_append, List.cons_prefix_cons] at hds
      exact hds.1 ▸ h ds hds.2

/-- From where the lengths at `qs` and then at `q` have been gathered. -/
theorem dumpsRight_iff (asserts : Bool) (hst : ∀ e ∈ cfg.mStages.entries, e.2.isSome) :
    ∀ (cs : List MetricCall) {m : SedaQueueInfo} (qs : List (Str → ℕ)) {q : Str → ℕ},
      m.queueInfo = gathered cfg (qs ++ [q]) →
      m.stageNames = [] ∨ m.stageNames = cfg.mStageNames →
      (DumpsRight asserts cfg m q cs ↔
        ∀ ds, ds ++ [.dump] <+: cs → InOrder cfg (qs ++ [q] ++ updates ds))
  | [], m, qs, q, _, _ => by
    simp [DumpsRight]
  | .update q' :: cs, m, qs, q, hm, hnames => by
    rw [forall_concat_prefix_cons, DumpsRight, update_queued, if_pos hst]
    have ih := dumpsRight_iff asserts hst cs (qs ++ [q]) (q := q')
      (m := { m with queueInfo := m.queueInfo ++ gathered cfg [q'] })
      (by rw [gathered_append cfg (qs ++ [q]), hm]) hnames
    simp only [Option.some.injEq, exists_eq_left', ih, reduceCtorEq, false_implies, true_and]
    refine forall₂_congr fun ds _ => ?_
    rw [List.append_assoc _ [q']]
    rfl
  | .dump :: cs, m, qs, q, hm, hnames => by
    rw [forall_concat_prefix_cons, DumpsRight, dump_iff asserts hm hnames]
    have ih := dumpsRight_iff asserts hst cs qs (q := q)
      (m := if m.queueInfo = [] then m else { m with stageNames := cfg.mStageNames })
      (by split_ifs <;> exact hm) (by split_ifs <;> simp [hnames])
    rw [ih]
    simp [updates]

/-- Every dump of an object is right, whatever is called on it, exactly if at every dump the lengths
gathered since the object was made, one update after the other, are in order. -/
theorem queueInfo_iff (asserts : Bool) {names : List Str}
    (hnames : names = [] ∨ names = cfg.mStageNames) (q : Str → ℕ) (cs : List MetricCall) :
    (∃ m, SedaQueueInfo.make names (cfg.queued q) = some m ∧ DumpsRight asserts cfg m q cs) ↔
      (∀ e ∈ cfg.mStages.entries, e.2.isSome) ∧
        ∀ ds, ds ++ [.dump] <+: cs → InOrder cfg (q :: updates ds) := by
  rw [SedaQueueInfo.make, update_queued]
  split_ifs with hst
  · simp only [Option.some.injEq, exists_eq_left']
    exact (dumpsRight_iff asserts hst cs [] rfl hnames).trans (and_iff_right hst).symm
  · refine iff_of_false ?_ fun h => hst h.1
    rintro ⟨m, hm, -⟩
    cases hm

/-- A configuration of the two stages with these names, in this order. -/
def twoStages (names : List Str) : SedaConfig where
  mStages := (OrderedMap.empty.set (ascii "sort") (some { id := 0, thPool := some 0 })).set
    (ascii "merge") (some { id := 1, thPool := some 0 })
  mStageNames := names

theorem queueInfo_iff_twoStages :
    (∃ m, SedaQueueInfo.make [] ((twoStages [ascii "merge", ascii "sort"]).queued List.length) =
      some m ∧ DumpsRight true (twoStages [ascii "merge", ascii "sort"]) m List.length [.dump]) ↔
    (∀ e ∈ (twoStages [ascii "merge", ascii "sort"]).mStages.entries, e.2.isSome) ∧
      ∀ ds, ds ++ [.dump] <+: [.dump] →
        InOrder (twoStages [ascii "merge", ascii "sort"]) (List.length :: updates ds) :=
  queueInfo_iff true (.inl rfl) List.length [.dump]

/-- With a stage for each name, and each name given once, the lengths are in order right after the
object is made and never again, if they are the same in the order of the configuration. -/
theorem inOrder_iff_of_perm (h : cfg.mStageNames.Perm cfg.mStages.keys)
    (hne : cfg.mStages.keys ≠ []) (q : Str → ℕ) (qs : List (Str → ℕ)) :
    InOrder cfg (q :: qs) ↔ qs = [] ∧
      (cfg.mStages.keys.map fun name => (Int32.ofNat (q name)).toInt) =
        cfg.mStageNames.map fun name => (q name : ℤ) := by
  rcases qs with _ | ⟨q', qs⟩
  · simp [InOrder, hne, gathered, Function.comp_def]
  · simp only [InOrder, hne, false_or, reduceCtorEq, false_and, iff_false]
    intro hall
    have hlast : ∃ r, (q :: q' :: qs).getLast? = some r := by
      rw [← Option.isSome_iff_exists]
      simp
    obtain ⟨r, hr⟩ := hlast
    have hlen := congrArg List.length (hall r hr)
    have := List.length_pos_iff.2 hne
    simp only [gathered, List.flatMap_cons, List.map_append, List.length_append, List.length_map,
      h.length_eq] at hlen
    omega

theorem dumpsRight_false {names : List Str} {cs : List MetricCall} {q : Str → ℕ}
    (ds : List MetricCall)
    (hds : ds ++ [.dump] <+: cs) (hi : ¬ InOrder (twoStages names) (q :: updates ds)) :
    ¬ ∃ m, SedaQueueInfo.make [] ((twoStages names).queued q) = some m ∧
      DumpsRight true (twoStages names) m q cs := by
  have hst : ∀ e ∈ (twoStages names).mStages.entries, e.2.isSome :=
    (by decide : ∀ e ∈ (twoStages []).mStages.entries, e.2.isSome)
  rw [SedaQueueInfo.make, update_queued, if_pos hst]
  rintro ⟨m, hm, hd⟩
  cases hm
  exact hi ((dumpsRight_iff true hst cs [] rfl (.inl rfl)).1 hd ds hds)

/-- The first length is printed beside the name of the second stage, or there are twice as many
lengths as names. -/
theorem queueInfo_false :
    (¬ ∃ m, SedaQueueInfo.make [] ((twoStages [ascii "sort", ascii "merge"]).queued List.length) =
      some m ∧ DumpsRight true (twoStages [ascii "sort", ascii "merge"]) m List.length [.dump]) ∧
    ¬ ∃ m, SedaQueueInfo.make [] ((twoStages [ascii "merge", ascii "sort"]).queued List.length) =
      some m ∧ DumpsRight true (twoStages [ascii "merge", ascii "sort"]) m List.length
        [.update List.length, .dump] := by
  refine ⟨dumpsRight_false [] (by simp) ?_,
    dumpsRight_false [.update List.length] (by simp) ?_⟩ <;>
  · unfold InOrder
    decide

end SedaQueueInfo

end Longda
