import Longda.Lib.Smallest
import Longda.Net.SockMap

/-!
# Eviction

`removeInactive` goes over the connections in the order of their sockets and keeps up to
`NUM_REMOVE_INACTIVE` idle ones, which are always those with the smallest activity numbers so far
(`Smallest`). It then removes those, and no other (`removeInactive_evicts`).
-/

namespace Longda

open Lib

namespace SockMaps

/-- No two connections that are mapped have one activity number. -/
def DistinctActSn (s : SockMaps) : Prop :=
  ∀ sock c sock' c', s.sockConnMap.lookup sock = some c → s.sockConnMap.lookup sock' = some c' →
    s.mActSn c = s.mActSn c' → sock = sock'

/-- The connections that nobody refers to. -/
def idle (s : SockMaps) : List (Int32 × ConnId) :=
  s.sortedConns.filter fun e => (s.conns e.2).mRefCount = 0

/-- The socket is in the set of the key. -/
def InSet (s : SockMaps) (k : Path) (sock : Int32) : Prop :=
  ∃ set, s.epSockMap.lookup k = some set ∧ sock ∈ set

/-- Up to `NUM_REMOVE_INACTIVE` idle connections with the smallest activity numbers are cleaned up
and unmapped, they are counted, and all others stay as they are. -/
structure Evicts (s : SockMaps) (removed : ℕ) (t : SockMaps) (victims : List (Int32 × ConnId)) :
    Prop where
  idle : ∀ e ∈ victims, e ∈ s.idle
  nodup : victims.Nodup
  length : victims.length = min NUM_REMOVE_INACTIVE s.idle.length
  least : ∀ v ∈ victims, ∀ e ∈ s.idle, e ∉ victims → s.mActSn v.2 < s.mActSn e.2
  removed : removed = victims.length
  mapped : ∀ sock c, t.sockConnMap.lookup sock = some c ↔
    s.sockConnMap.lookup sock = some c ∧ (sock, c) ∉ victims
  sets : ∀ k sock, sock ∉ victims.map Prod.fst → (t.InSet k sock ↔ s.InSet k sock)
  conns : ∀ c, t.conns c =
    if c ∈ victims.map Prod.snd then ((s.conns c).cleanup .ON_ERROR).2 else s.conns c

variable {s t : SockMaps} {sock : Int32} {sn : UInt64} {m : List (UInt64 × Int32)}
  {e : Int32 × ConnId}

/-! ## What is kept -/

theorem insertSn_perm (h : ∀ p ∈ m, p.1 ≠ sn) : (insertSn sn sock m).Perm ((sn, sock) :: m) := by
  induction m with
  | nil => exact .refl _
  | cons p m ih =>
    unfold insertSn
    split_ifs with hlt heq
    · exact .refl _
    · exact absurd heq.symm (h p List.mem_cons_self)
    · exact ((ih fun q hq => h q (List.mem_cons_of_mem _ hq)).cons p).trans (.swap _ _ _)

theorem mem_insertSn {p : UInt64 × Int32} (h : p ∈ insertSn sn sock m) :
    p = (sn, sock) ∨ p ∈ m := by
  induction m with
  | nil => exact .inl (List.mem_singleton.1 h)
  | cons q m ih =>
    unfold insertSn at h
    split_ifs at h with hlt heq
    · exact List.mem_cons.1 h
    · exact .inr h
    · rcases List.mem_cons.1 h with rfl | h
      · exact .inr List.mem_cons_self
      · exact (ih h).imp_right (List.mem_cons_of_mem _)

theorem sorted_insertSn (h : m.Pairwise (·.1 < ·.1)) :
    (insertSn sn sock m).Pairwise (·.1 < ·.1) := by
  induction m with
  | nil => exact List.pairwise_singleton _ _
  | cons q m ih =>
    unfold insertSn
    split_ifs with hlt heq
    · refine List.pairwise_cons.2 ⟨fun p hp => ?_, h⟩
      rcases List.mem_cons.1 hp with rfl | hp
      · exact hlt
      · exact UInt64.lt_trans hlt (List.rel_of_pairwise_cons h hp)
    · exact h
    · refine List.pairwise_cons.2 ⟨fun p hp => ?_, ih h.of_cons⟩
      rcases mem_insertSn hp with rfl | hp
      · exact UInt64.lt_of_le_of_ne (UInt64.not_lt.1 hlt) (Ne.symm heq)
      · exact List.rel_of_pairwise_cons h hp

/-- What the map of the loop holds of a connection. -/
def snSock (s : SockMaps) (e : Int32 × ConnId) : UInt64 × Int32 := (s.mActSn e.2, e.1)

/-- The order of the map. -/
def snKey (p : UInt64 × Int32) : ℕ := p.1.toNat

variable {seen kept : List (UInt64 × Int32)}

/-- The map of the loop is in order and holds the smallest numbers seen so far. -/
structure Keeps (seen kept : List (UInt64 × Int32)) : Prop where
  smallest : Smallest snKey NUM_REMOVE_INACTIVE seen kept
  sorted : kept.Pairwise (·.1 < ·.1)

theorem Keeps.collect (h : Keeps seen kept) (hidle : (s.conns e.2).mRefCount = 0)
    (hnew : ∀ p ∈ seen, p.1 ≠ s.mActSn e.2) : Keeps (s.snSock e :: seen) (s.collect kept e) := by
  have hkept : ∀ p ∈ kept, p.1 ≠ s.mActSn e.2 := fun p hp => hnew p (h.smallest.subset hp)
  unfold SockMaps.collect
  rw [if_neg (by simpa using hidle)]
  split_ifs with hroom
  · exact ⟨h.smallest.take hroom (insertSn_perm hkept), sorted_insertSn h.sorted⟩
  · have hfull : kept.length = NUM_REMOVE_INACTIVE :=
      Nat.le_antisymm h.smallest.length_le (Nat.not_lt.1 hroom)
    rcases hlast : kept.getLast? with _ | last
    · rw [List.getLast?_eq_none_iff] at hlast
      rw [hlast] at hfull
      cases hfull
    · obtain ⟨init, rfl⟩ := List.getLast?_eq_some_iff.1 hlast
      have hbelow : ∀ p ∈ init, p.1 < last.1 := fun p hp =>
        (List.pairwise_append.1 h.sorted).2.2 p hp last (List.mem_singleton_self _)
      have hinit := (List.pairwise_append.1 h.sorted).1
      dsimp only
      rw [List.dropLast_concat]
      split_ifs with hlt
      · have hkept' : ∀ p ∈ init, p.1 ≠ s.mActSn e.2 := fun p hp =>
          hkept p (List.mem_append_left _ hp)
        exact ⟨h.smallest.replace hfull (List.perm_append_singleton _ _) hbelow hlt
          (insertSn_perm hkept'), sorted_insertSn hinit⟩
      · have hge : last.1 < s.mActSn e.2 := UInt64.lt_of_le_of_ne (UInt64.not_lt.1 hlt)
          (hkept last (List.mem_append_right _ (List.mem_singleton_self _)))
        refine ⟨h.smallest.pass hfull fun p hp => ?_, h.sorted⟩
        rcases List.mem_append.1 hp with hp | hp
        · exact UInt64.lt_trans (hbelow p hp) hge
        · exact List.mem_singleton.1 hp ▸ hge

theorem Keeps.foldl_collect (l : List (Int32 × ConnId)) (h : Keeps seen kept)
    (hnodup : ((l.map s.snSock ++ seen).map Prod.fst).Nodup) :
    Keeps ((l.filter fun e => (s.conns e.2).mRefCount = 0).map s.snSock ++ seen)
      (l.foldl s.collect kept) := by
  induction l generalizing seen kept with
  | nil => exact h
  | cons e l ih =>
    rw [List.map_cons, List.cons_append, List.map_cons, List.nodup_cons] at hnodup
    rw [List.foldl_cons]
    by_cases hidle : (s.conns e.2).mRefCount = 0
    · rw [List.filter_cons_of_pos (by simpa using hidle)]
      have hnew : ∀ p ∈ seen, p.1 ≠ s.mActSn e.2 := fun p hp heq =>
        hnodup.1 (List.mem_map.2 ⟨p, List.mem_append_right _ hp, heq⟩)
      have hnodup' : ((l.map s.snSock ++ s.snSock e :: seen).map Prod.fst).Nodup :=
        (List.perm_middle.map Prod.fst).nodup_iff.2 (List.nodup_cons.2 hnodup)
      have hrest := ih (h.collect hidle hnew) hnodup'
      exact ⟨hrest.smallest.perm_seen List.perm_middle, hrest.sorted⟩
    · rw [List.filter_cons_of_neg (by simpa using hidle)]
      have hskip : s.collect kept e = kept := by
        unfold SockMaps.collect
        rw [if_pos hidle]
      rw [hskip]
      exact ih h hnodup.2

theorem mem_sortedConns {c : ConnId} :
    (sock, c) ∈ s.sortedConns ↔ s.sockConnMap.lookup sock = some c := by
  unfold sortedConns
  rw [List.mem_mergeSort, List.mem_map]
  constructor
  · rintro ⟨⟨sock', c'⟩, he, heq⟩
    obtain ⟨rfl, rfl⟩ := Prod.mk.inj heq
    exact AList.mem_lookup_iff.2 he
  · intro h
    exact ⟨⟨sock, c⟩, AList.mem_lookup_iff.1 h, rfl⟩

theorem nodup_sortedConns : s.sortedConns.Nodup := by
  unfold sortedConns
  rw [(List.mergeSort_perm _ _).nodup_iff]
  refine s.sockConnMap.nodupKeys.nodup.map fun e f heq => ?_
  obtain ⟨hsock, hc⟩ := Prod.mk.inj heq
  cases e
  cases f
  simp_all

theorem mem_idle : e ∈ s.idle ↔
    s.sockConnMap.lookup e.1 = some e.2 ∧ (s.conns e.2).mRefCount = 0 := by
  unfold idle
  rw [List.mem_filter, decide_eq_true_iff, ← mem_sortedConns]

theorem DistinctActSn.eq (h : s.DistinctActSn) {e f : Int32 × ConnId} (he : e ∈ s.sortedConns)
    (hf : f ∈ s.sortedConns) (heq : s.mActSn e.2 = s.mActSn f.2) : e = f := by
  rw [mem_sortedConns] at he hf
  have hsock := h _ _ _ _ he hf heq
  rw [hsock, hf, Option.some.injEq] at he
  exact Prod.ext hsock he.symm

/-- The map of the loop at its end. -/
def sortedMap (s : SockMaps) : List (UInt64 × Int32) := s.sortedConns.foldl s.collect []

theorem DistinctActSn.keeps (h : s.DistinctActSn) :
    Keeps (s.idle.map s.snSock) s.sortedMap := by
  have hnodup : ((s.sortedConns.map s.snSock ++ []).map Prod.fst).Nodup := by
    rw [List.append_nil, List.map_map]
    exact nodup_sortedConns.map_on fun e he f hf heq => h.eq he hf heq
  have hkeeps := Keeps.foldl_collect s.sortedConns ⟨.nil, .nil⟩ hnodup
  rwa [List.append_nil] at hkeeps

/-! ## What is removed -/

/-- One turn of the loop over the map. -/
def removeTurn (r : ℕ × SockMaps) (p : UInt64 × Int32) : ℕ × SockMaps :=
  (if (r.2.remove p.2).1 = .SUCCESS then r.1 + 1 else r.1, (r.2.remove p.2).2)

/-- The sockets are unmapped and their connections cleaned up, and nothing else. -/
structure Removes (s : SockMaps) (socks : List Int32) (t : SockMaps) : Prop where
  lookup : ∀ sock, t.sockConnMap.lookup sock =
    if sock ∈ socks then none else s.sockConnMap.lookup sock
  sets : ∀ k sock, sock ∉ socks → (t.InSet k sock ↔ s.InSet k sock)
  conns : ∀ c, t.conns c = if ∃ sock ∈ socks, s.sockConnMap.lookup sock = some c then
    ((s.conns c).cleanup .ON_ERROR).2 else s.conns c

theorem Removes.congr {socks socks' : List Int32} (h : s.Removes socks t)
    (hmem : ∀ sock, sock ∈ socks ↔ sock ∈ socks') : s.Removes socks' t := by
  refine ⟨fun sock => ?_, fun k sock hsock => ?_, fun c => ?_⟩
  · rw [h.lookup]
    exact if_congr (hmem sock) rfl rfl
  · exact h.sets k sock fun hsock' => hsock ((hmem sock).1 hsock')
  · rw [h.conns]
    exact if_congr (exists_congr fun sock => and_congr_left fun _ => hmem sock) rfl rfl

theorem inSet_dropSock {a : Int32} {k : Path} (ha : a ≠ sock) :
    (∃ set, (dropSock s.epSockMap sock).lookup k = some set ∧ a ∈ set) ↔ s.InSet k a := by
  rcases dropSock_cases s.epSockMap sock with ⟨-, hdrop⟩ | ⟨k₀, set₀, hset₀, -, hdrop⟩
  · rw [hdrop]
    rfl
  · unfold InSet
    rw [hdrop]
    split_ifs with hk he
    · refine iff_of_false (by simp) ?_
      rintro ⟨set, hset, hmem⟩
      rw [hk, hset₀, Option.some.injEq] at hset
      have : a ∈ SockSet.erase sock set₀ := SockSet.mem_erase.2 ⟨hset ▸ hmem, ha⟩
      rw [he] at this
      cases this
    · rw [hk, hset₀]
      simp [SockSet.mem_erase, ha]
    · rfl

theorem remove_mapped {c : ConnId} (h : s.sockConnMap.lookup sock = some c) :
    (s.remove sock).1 = .SUCCESS ∧ s.Removes [sock] (s.remove sock).2 := by
  have heq : s.remove sock = (.SUCCESS, { s with
      epSockMap := dropSock s.epSockMap sock
      conns := Function.update s.conns c ((s.conns c).cleanup .ON_ERROR).2
      sockConnMap := s.sockConnMap.erase sock }) := by
    unfold remove
    dsimp only
    rw [h]
  rw [heq]
  refine ⟨rfl, fun a => ?_, fun k a ha => ?_, fun d => ?_⟩
  · dsimp only
    split_ifs with ha
    · rw [List.mem_singleton.1 ha, AList.lookup_erase]
    · exact AList.lookup_erase_ne (by simpa using ha)
  · exact inSet_dropSock (by simpa using ha)
  · simp only [List.mem_singleton, exists_eq_left, h, Option.some.injEq, Function.update_apply]
    split_ifs with hd hd' hd'
    · rw [hd]
    · exact absurd hd.symm hd'
    · exact absurd hd'.symm hd
    · rfl

theorem ConnRefs.cleanup_cleanup (r : ConnRefs) :
    ((r.cleanup .ON_ERROR).2.cleanup .ON_ERROR).2 = (r.cleanup .ON_ERROR).2 := by
  unfold Longda.ConnRefs.cleanup
  split_ifs <;> simp_all

theorem Removes.cons {u : SockMaps} {socks : List Int32} (h : s.Removes [sock] t)
    (h' : t.Removes socks u) (hsock : sock ∉ socks) : s.Removes (sock :: socks) u := by
  have hlookup : ∀ a, t.sockConnMap.lookup a =
      if a = sock then none else s.sockConnMap.lookup a := by
    simpa only [List.mem_singleton] using h.lookup
  refine ⟨fun a => ?_, fun k a ha => ?_, fun c => ?_⟩
  · rw [h'.lookup, hlookup]
    simp only [List.mem_cons]
    split_ifs <;> simp_all
  · rw [List.mem_cons, not_or] at ha
    rw [h'.sets k a ha.2, h.sets k a (by simpa using ha.1)]
  · have hlater : (∃ a ∈ socks, t.sockConnMap.lookup a = some c) ↔
        ∃ a ∈ socks, s.sockConnMap.lookup a = some c := by
      refine exists_congr fun a => and_congr_right fun ha => ?_
      rw [hlookup, if_neg (ne_of_mem_of_not_mem ha hsock)]
    have hone : (∃ a ∈ [sock], s.sockConnMap.lookup a = some c) ↔
        s.sockConnMap.lookup sock = some c := by simp
    rw [h'.conns, h.conns]
    simp only [hlater, hone, List.exists_mem_cons_iff]
    by_cases hfirst : s.sockConnMap.lookup sock = some c
    · simp only [hfirst, if_true, true_or, ConnRefs.cleanup_cleanup, ite_self]
    · simp only [hfirst, if_false, false_or]

theorem removes_foldl (l : List (UInt64 × Int32)) (n : ℕ) (s : SockMaps)
    (hnodup : (l.map Prod.snd).Nodup)
    (hmapped : ∀ p ∈ l, ∃ c, s.sockConnMap.lookup p.2 = some c) :
    (l.foldl removeTurn (n, s)).1 = n + l.length
      ∧ s.Removes (l.map Prod.snd) (l.foldl removeTurn (n, s)).2 := by
  induction l generalizing n s with
  | nil => exact ⟨rfl, fun a => by simp, fun k a _ => Iff.rfl, fun c => by simp⟩
  | cons p l ih =>
    obtain ⟨c, hc⟩ := hmapped p List.mem_cons_self
    obtain ⟨hrc, hremoves⟩ := remove_mapped hc
    rw [List.map_cons, List.nodup_cons] at hnodup
    have hturn : removeTurn (n, s) p = (n + 1, (s.remove p.2).2) := by
      unfold removeTurn
      rw [if_pos hrc]
    have hmapped' : ∀ q ∈ l, ∃ c, (s.remove p.2).2.sockConnMap.lookup q.2 = some c := by
      intro q hq
      obtain ⟨d, hd⟩ := hmapped q (List.mem_cons_of_mem _ hq)
      refine ⟨d, ?_⟩
      rw [hremoves.lookup, if_neg, hd]
      intro hmem
      exact hnodup.1 (List.mem_map.2 ⟨q, hq, List.mem_singleton.1 hmem⟩)
    obtain ⟨hcount, hrest⟩ := ih (n + 1) (s.remove p.2).2 hnodup.2 hmapped'
    rw [List.foldl_cons, hturn]
    refine ⟨by rw [hcount, List.length_cons]; omega, hremoves.cons hrest hnodup.1⟩

theorem idle_eq {f : Int32 × ConnId} (he : e ∈ s.idle) (hf : f ∈ s.idle) (heq : e.1 = f.1) :
    e = f := by
  have hlookup := (mem_idle.1 he).1
  rw [heq, (mem_idle.1 hf).1, Option.some.injEq] at hlookup
  exact Prod.ext heq hlookup.symm

theorem nodup_idle : s.idle.Nodup := nodup_sortedConns.filter _

/-! ## Who is removed -/

/-- The connections in the map of the loop. -/
def victims (s : SockMaps) : List (Int32 × ConnId) :=
  s.idle.filter fun e => s.snSock e ∈ s.sortedMap

theorem mem_victims : e ∈ s.victims ↔ e ∈ s.idle ∧ s.snSock e ∈ s.sortedMap := by
  simp [victims]

theorem victims_eq {f : Int32 × ConnId} (he : e ∈ s.victims) (hf : f ∈ s.victims)
    (heq : e.1 = f.1) : e = f := idle_eq (mem_victims.1 he).1 (mem_victims.1 hf).1 heq

theorem nodup_victims : s.victims.Nodup := nodup_idle.filter _

theorem DistinctActSn.perm_victims (h : s.DistinctActSn) :
    s.sortedMap.Perm (s.victims.map s.snSock) := by
  have hnodup : s.sortedMap.Nodup := h.keeps.sorted.imp fun {p q} hlt heq => by
    rw [heq] at hlt
    exact UInt64.lt_irrefl _ hlt
  have hnodup' : (s.victims.map s.snSock).Nodup :=
    nodup_victims.map_on fun e he f hf heq => victims_eq he hf (Prod.mk.inj heq).2
  refine (List.perm_ext_iff_of_nodup hnodup hnodup').2 fun p => ?_
  rw [List.mem_map]
  constructor
  · intro hp
    obtain ⟨e, he, rfl⟩ := List.mem_map.1 (h.keeps.smallest.subset hp)
    exact ⟨e, mem_victims.2 ⟨he, hp⟩, rfl⟩
  · rintro ⟨e, he, rfl⟩
    exact (mem_victims.1 he).2

theorem DistinctActSn.perm_socks (h : s.DistinctActSn) :
    (s.sortedMap.map Prod.snd).Perm (s.victims.map Prod.fst) := by
  have hmap := h.perm_victims.map Prod.snd
  rwa [List.map_map] at hmap

theorem DistinctActSn.removes (h : s.DistinctActSn) :
    s.removeInactive.1 = s.victims.length
      ∧ s.Removes (s.victims.map Prod.fst) s.removeInactive.2 := by
  have hmapped : ∀ p ∈ s.sortedMap, ∃ c, s.sockConnMap.lookup p.2 = some c := by
    intro p hp
    obtain ⟨e, he, rfl⟩ := List.mem_map.1 (h.keeps.smallest.subset hp)
    exact ⟨e.2, (mem_idle.1 he).1⟩
  have hnodup : (s.sortedMap.map Prod.snd).Nodup := h.perm_socks.nodup_iff.2
    (nodup_victims.map_on fun e he f hf heq => victims_eq he hf heq)
  obtain ⟨hcount, hremoves⟩ := removes_foldl s.sortedMap 0 s hnodup hmapped
  refine ⟨?_, ?_⟩
  · rw [← List.length_map Prod.fst, ← h.perm_socks.length_eq, List.length_map]
    exact hcount.trans (Nat.zero_add _)
  · exact hremoves.congr fun sock => h.perm_socks.mem_iff

/-- Whatever the numbers are, as long as no two are the same. -/
theorem removeInactive_evicts (h : s.DistinctActSn) :
    ∃ victims, s.Evicts s.removeInactive.1 s.removeInactive.2 victims := by
  obtain ⟨hremoved, hremoves⟩ := h.removes
  have hsmall := h.keeps.smallest
  have hlookup : ∀ sock c, (sock, c) ∈ s.victims → s.sockConnMap.lookup sock = some c :=
    fun sock c he => (mem_idle.1 (mem_victims.1 he).1).1
  refine ⟨s.victims, ?_, nodup_victims, ?_, ?_, hremoved, ?_, hremoves.sets, ?_⟩
  · exact fun e he => (mem_victims.1 he).1
  · rw [← List.length_map s.snSock, ← h.perm_victims.length_eq, hsmall.length_eq, List.length_map]
  · intro v hv e he hnot
    have hkept : s.snSock e ∉ s.sortedMap := fun hmem => hnot (mem_victims.2 ⟨he, hmem⟩)
    exact hsmall.lt (mem_victims.1 hv).2 (List.mem_map_of_mem he) hkept
  · intro sock c
    rw [hremoves.lookup]
    split_ifs with hmem
    · obtain ⟨e, he, rfl⟩ := List.mem_map.1 hmem
      refine iff_of_false (by simp) fun hc => hc.2 ?_
      rw [hlookup _ _ he, Option.some.injEq] at hc
      rw [← hc.1]
      exact he
    · exact (and_iff_left fun he => hmem (List.mem_map_of_mem he)).symm
  · intro c
    rw [hremoves.conns]
    refine if_congr ?_ rfl rfl
    simp only [List.mem_map]
    constructor
    · rintro ⟨_, ⟨e, he, rfl⟩, hc⟩
      rw [hlookup _ _ he, Option.some.injEq] at hc
      exact ⟨e, he, hc⟩
    · rintro ⟨e, he, rfl⟩
      exact ⟨e.1, ⟨e, he, rfl⟩, hlookup _ _ he⟩

theorem distinctActSn_of_nodup (h : (s.sockConnMap.entries.map fun e => s.mActSn e.2).Nodup) :
    s.DistinctActSn := by
  intro sock c sock' c' hc hc' heq
  have heq' := List.inj_on_of_nodup_map h (AList.mem_lookup_iff.1 hc)
    (AList.mem_lookup_iff.1 hc') heq
  exact congrArg Sigma.fst heq'

/-- Three connections, one of them in use. -/
theorem removeInactive_evicts_three : ∃ s : SockMaps,
    s.sockConnMap.keys = [9, 7, 5] ∧ (s.conns 3).mRefCount = 1 ∧ ∃ victims,
      s.Evicts s.removeInactive.1 s.removeInactive.2 victims :=
  let s : SockMaps := {
    sockConnMap := ((∅ : AList fun _ : Int32 => ConnId).insert 5 1).insert 7 2 |>.insert 9 3
    conns := Function.update (fun _ => {}) 3 { mRefCount := 1 }
    mActSn := fun c => c.toUInt64 }
  ⟨s, by decide, by decide, removeInactive_evicts (s := s) (distinctActSn_of_nodup (by decide))⟩

end SockMaps

end Longda
