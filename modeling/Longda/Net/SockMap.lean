import Longda.Comm.EndPoint
import Longda.Net.ConnMgr
import Mathlib.Data.List.AList
import Mathlib.Data.List.Sort

/-!
# The two maps of the connection manager

`ConnMgr` finds a connection by its socket in `sockConnMap`, and the sockets of an end point in
`epSockMap`. `SockMaps.Rep` says that the two stay in step: each socket of the one is in the set of
the end point it was inserted under and in no other, each socket in a set is in the other map, and
no set is empty. Every call keeps it (`rep_step`), so that the first socket of a set can always
be taken.
-/

namespace Longda

open Lib

/-- `ConnMgr::status_t`. -/
inductive MgrStatus where
  | SUCCESS
  | ERR_NOT_FOUND
  | ERR_AINSERTED
  deriving DecidableEq

/-- `toHostPortStr`. -/
def EndPoint.toHostPortStr (ep : EndPoint) : Path :=
  ep.mHostName.str ++ [64] ++ valToStr ep.mPort.toInt

/-- `std::set<int>`: its elements in ascending order. -/
abbrev SockSet := List Int32

namespace SockSet

def insert (sock : Int32) (set : SockSet) : SockSet :=
  if sock ∈ set then set else set.orderedInsert (fun a b => a.toInt ≤ b.toInt) sock

def erase (sock : Int32) (set : SockSet) : SockSet := set.filter (· ≠ sock)

theorem mem_insert {a sock : Int32} {set : SockSet} : a ∈ insert sock set ↔ a = sock ∨ a ∈ set := by
  unfold insert
  split_ifs with h
  · exact ⟨.inr, fun ha => ha.elim (fun ha => ha ▸ h) id⟩
  · exact List.mem_orderedInsert _

theorem mem_erase {a sock : Int32} {set : SockSet} : a ∈ erase sock set ↔ a ∈ set ∧ a ≠ sock := by
  simp [erase]

end SockSet

structure SockMaps where
  sockConnMap : AList fun _ : Int32 => ConnId := ∅
  epSockMap : AList fun _ : Path => SockSet := ∅
  conns : ConnId → ConnRefs := fun _ => {}
  mActSn : ConnId → UInt64 := fun _ => 0
  /-- The key each socket was last inserted under. -/
  under : Int32 → Path := fun _ => []

def NUM_REMOVE_INACTIVE : ℕ := 64

namespace SockMaps

def find (s : SockMaps) (sock : Int32) : Option ConnId × SockMaps :=
  match s.sockConnMap.lookup sock with
  | none => (none, s)
  | some c => (some c, { s with conns := Function.update s.conns c (s.conns c).acquire })

/-- `find` by end point; there is no result where the first element of an empty set is taken. -/
def findEp (s : SockMaps) (ep : EndPoint) : Option (Option ConnId × SockMaps) :=
  match s.epSockMap.lookup ep.toHostPortStr with
  | none => some (none, s)
  | some set => set.head?.map s.find

/-- The socket put into the set of the key, which is made where there is none. -/
def addSock (m : AList fun _ : Path => SockSet) (keyStr : Path) (sock : Int32) :
    AList fun _ : Path => SockSet :=
  let m := if m.lookup keyStr = none then m.insert keyStr [] else m
  match m.lookup keyStr with
  | none => m
  | some set => m.insert keyStr (SockSet.insert sock set)

def insert (s : SockMaps) (ep : EndPoint) (sock : Int32) (conn : ConnId) : MgrStatus × SockMaps :=
  if s.sockConnMap.lookup sock ≠ none then (.ERR_AINSERTED, s)
  else (.SUCCESS, { s with
    sockConnMap := s.sockConnMap.insert sock conn
    epSockMap := addSock s.epSockMap ep.toHostPortStr sock
    under := Function.update s.under sock ep.toHostPortStr })

/-- The loop of `remove` over the end points: the first set with the socket loses it, and an
empty set its key. -/
def dropSock (m : AList fun _ : Path => SockSet) (sock : Int32) : AList fun _ : Path => SockSet :=
  match m.entries.find? fun e => sock ∈ e.2 with
  | none => m
  | some ⟨keyStr, set⟩ =>
    if SockSet.erase sock set = [] then m.erase keyStr
    else m.insert keyStr (SockSet.erase sock set)

def remove (s : SockMaps) (sock : Int32) : MgrStatus × SockMaps :=
  let s := { s with epSockMap := dropSock s.epSockMap sock }
  match s.sockConnMap.lookup sock with
  | none => (.ERR_NOT_FOUND, s)
  | some c => (.SUCCESS, { s with
    conns := Function.update s.conns c ((s.conns c).cleanup .ON_ERROR).2
    sockConnMap := s.sockConnMap.erase sock })

/-! ## The inactive connections -/

/-- `insert` into `std::map<u64_t, int>`, which keeps what is there under the key. -/
def insertSn (sn : UInt64) (sock : Int32) : List (UInt64 × Int32) → List (UInt64 × Int32)
  | [] => [(sn, sock)]
  | (a, k) :: m =>
    if sn < a then (sn, sock) :: (a, k) :: m
    else if sn = a then (a, k) :: m
    else (a, k) :: insertSn sn sock m

/-- One turn of the loop over `sockConnMap`. -/
def collect (s : SockMaps) (sortedMap : List (UInt64 × Int32)) (e : Int32 × ConnId) :
    List (UInt64 × Int32) :=
  if (s.conns e.2).mRefCount ≠ 0 then sortedMap
  else if sortedMap.length < NUM_REMOVE_INACTIVE then insertSn (s.mActSn e.2) e.1 sortedMap
  else match sortedMap.getLast? with
    | none => sortedMap
    | some last =>
      if s.mActSn e.2 < last.1 then insertSn (s.mActSn e.2) e.1 sortedMap.dropLast else sortedMap

/-- The connections by ascending socket. -/
def sortedConns (s : SockMaps) : List (Int32 × ConnId) :=
  (s.sockConnMap.entries.map fun e => (e.1, e.2)).mergeSort fun a b => a.1.toInt ≤ b.1.toInt

def removeInactive (s : SockMaps) : ℕ × SockMaps :=
  (s.sortedConns.foldl s.collect []).foldl
    (fun (removed, s) e =>
      let (rc, s) := s.remove e.2
      (if rc = .SUCCESS then removed + 1 else removed, s))
    (0, s)

end SockMaps

/-- The calls on the manager, and what others do to connections and sequence numbers. -/
inductive SockMapsCall where
  | insert (ep : EndPoint) (sock : Int32) (conn : ConnId)
  | remove (sock : Int32)
  | find (sock : Int32)
  | findEp (ep : EndPoint)
  | removeInactive
  | others (conns : ConnId → ConnRefs) (mActSn : ConnId → UInt64)

def sockMaps : Machine SockMaps SockMapsCall where
  step s
    | .insert ep sock conn => some (s.insert ep sock conn).2
    | .remove sock => some (s.remove sock).2
    | .find sock => some (s.find sock).2
    | .findEp ep => (s.findEp ep).map Prod.snd
    | .removeInactive => some s.removeInactive.2
    | .others conns mActSn => some { s with conns := conns, mActSn := mActSn }

namespace SockMaps

/-- The two maps are in step. -/
structure Rep (s : SockMaps) : Prop where
  nonempty : ∀ k set, s.epSockMap.lookup k = some set → set ≠ []
  placed : ∀ sock c, s.sockConnMap.lookup sock = some c →
    ∃ set, s.epSockMap.lookup (s.under sock) = some set ∧ sock ∈ set
  unique : ∀ sock k set, s.epSockMap.lookup k = some set → sock ∈ set → k = s.under sock
  mapped : ∀ sock k set, s.epSockMap.lookup k = some set → sock ∈ set →
    ∃ c, s.sockConnMap.lookup sock = some c

variable {s : SockMaps} {sock : Int32} {k : Path} {m : AList fun _ : Path => SockSet}

theorem lookup_addSock (keyStr : Path) : (addSock m keyStr sock).lookup k =
    if k = keyStr then some (SockSet.insert sock ((m.lookup keyStr).getD [])) else m.lookup k := by
  unfold addSock
  rcases h : m.lookup keyStr with _ | set
  · simp only [if_true, AList.lookup_insert]
    split_ifs with hk
    · rw [hk, AList.lookup_insert]
      rfl
    · rw [AList.lookup_insert_ne hk, AList.lookup_insert_ne hk]
  · simp only [reduceCtorEq, if_false, h]
    split_ifs with hk
    · rw [hk, AList.lookup_insert]
      rfl
    · rw [AList.lookup_insert_ne hk]

theorem mem_of_lookup_addSock {keyStr : Path} {set : SockSet} {a : Int32}
    (hk : (addSock m keyStr sock).lookup k = some set) (ha : a ∈ set) :
    a = sock ∧ k = keyStr ∨ ∃ old, m.lookup k = some old ∧ a ∈ old := by
  rw [lookup_addSock] at hk
  split_ifs at hk with hkk
  · rw [Option.some.injEq] at hk
    rw [← hk, SockSet.mem_insert] at ha
    rcases ha with ha | ha
    · exact .inl ⟨ha, hkk⟩
    · rcases hold : m.lookup keyStr with _ | old <;> rw [hold] at ha
      · cases ha
      · exact .inr ⟨old, hkk ▸ hold, ha⟩
  · exact .inr ⟨set, hk, ha⟩

/-- The loop finds no set with the socket, or changes one that has it. -/
theorem dropSock_cases (m : AList fun _ : Path => SockSet) (sock : Int32) :
    (∀ k set, m.lookup k = some set → sock ∉ set) ∧ dropSock m sock = m ∨
    ∃ k₀ set₀, m.lookup k₀ = some set₀ ∧ sock ∈ set₀ ∧ ∀ k, (dropSock m sock).lookup k =
      if k = k₀ then if SockSet.erase sock set₀ = [] then none else some (SockSet.erase sock set₀)
      else m.lookup k := by
  rcases h : m.entries.find? fun e => sock ∈ e.2 with _ | ⟨k₀, set₀⟩
  · refine .inl ⟨fun k set hk hmem => ?_, by simp only [dropSock, h]⟩
    have := List.find?_eq_none.1 h ⟨k, set⟩ (AList.mem_lookup_iff.1 hk)
    exact this (by simpa using hmem)
  · have hmem : sock ∈ set₀ := by simpa using List.find?_some h
    refine .inr ⟨k₀, set₀, AList.mem_lookup_iff.2 (List.mem_of_find?_eq_some h), hmem, fun k => ?_⟩
    simp only [dropSock, h]
    split_ifs with he hk hk
    · rw [hk, AList.lookup_erase]
    · rw [AList.lookup_erase_ne hk]
    · rw [hk, AList.lookup_insert]
    · rw [AList.lookup_insert_ne hk]

/-! ## Every call keeps the maps in step -/

theorem Rep.not_mem {set : SockSet} (hs : s.Rep) (hfree : s.sockConnMap.lookup sock = none)
    (hk : s.epSockMap.lookup k = some set) : sock ∉ set := by
  intro hmem
  obtain ⟨c, hc⟩ := hs.mapped sock k set hk hmem
  rw [hfree] at hc
  cases hc

theorem rep_insert (hs : s.Rep) (ep : EndPoint) (sock : Int32) (conn : ConnId) :
    (s.insert ep sock conn).2.Rep := by
  unfold insert
  split_ifs with h
  · exact hs
  · have hfree : s.sockConnMap.lookup sock = none := by simpa using h
    have hset : ∀ k set, (addSock s.epSockMap ep.toHostPortStr sock).lookup k = some set →
        ∀ a ∈ set, a = sock ∧ k = ep.toHostPortStr ∨
          a ≠ sock ∧ ∃ old, s.epSockMap.lookup k = some old ∧ a ∈ old := by
      intro k set hk a ha
      refine (mem_of_lookup_addSock hk ha).imp_right ?_
      rintro ⟨old, hold, hmem⟩
      exact ⟨fun h => hs.not_mem hfree hold (h ▸ hmem), old, hold, hmem⟩
    exact {
      nonempty := fun k set hk => by
        simp only [lookup_addSock] at hk
        split_ifs at hk
        · rw [Option.some.injEq] at hk
          exact List.ne_nil_of_mem (hk ▸ SockSet.mem_insert.2 (.inl rfl))
        · exact hs.nonempty k set hk
      placed := fun a c hc => by
        by_cases ha : a = sock
        · subst ha
          refine ⟨SockSet.insert a ((s.epSockMap.lookup ep.toHostPortStr).getD []), ?_,
            SockSet.mem_insert.2 (.inl rfl)⟩
          simp only [Function.update_self, lookup_addSock, if_true]
        · simp only [AList.lookup_insert_ne ha] at hc
          obtain ⟨old, hold, hmem⟩ := hs.placed a c hc
          dsimp only
          rw [Function.update_of_ne ha]
          by_cases hk : s.under a = ep.toHostPortStr
          · rw [hk] at hold
            rw [hk, lookup_addSock, if_pos rfl, hold]
            exact ⟨_, rfl, SockSet.mem_insert.2 (.inr hmem)⟩
          · rw [lookup_addSock, if_neg hk]
            exact ⟨old, hold, hmem⟩
      unique := fun a k set hk hmem => by
        rcases hset k set hk a hmem with ⟨rfl, hkk⟩ | ⟨ha, old, hold, hin⟩
        · simpa only [Function.update_self] using hkk
        · simpa only [Function.update_of_ne ha] using hs.unique a k old hold hin
      mapped := fun a k set hk hmem => by
        rcases hset k set hk a hmem with ⟨rfl, -⟩ | ⟨ha, old, hold, hin⟩
        · exact ⟨conn, AList.lookup_insert _⟩
        · obtain ⟨c, hc⟩ := hs.mapped a k old hold hin
          exact ⟨c, (AList.lookup_insert_ne ha).trans hc⟩ }

theorem rep_remove (hs : s.Rep) (sock : Int32) : (s.remove sock).2.Rep := by
  rcases dropSock_cases s.epSockMap sock with ⟨hno, hdrop⟩ | ⟨k₀, set₀, hset₀, hin, hdrop⟩
  · have hfree : s.sockConnMap.lookup sock = none := by
      by_contra h
      obtain ⟨c, hc⟩ := Option.ne_none_iff_exists'.1 h
      obtain ⟨set, hset, hmem⟩ := hs.placed sock c hc
      exact hno _ set hset hmem
    simp only [remove, hfree, hdrop]
    exact hs
  · obtain ⟨c, hc⟩ := hs.mapped sock k₀ set₀ hset₀ hin
    have hk₀ := hs.unique sock k₀ set₀ hset₀ hin
    -- what is left in a set was in the set of that key, and is another socket
    have hset : ∀ k set, (dropSock s.epSockMap sock).lookup k = some set → ∀ a ∈ set,
        a ≠ sock ∧ ∃ old, s.epSockMap.lookup k = some old ∧ a ∈ old := by
      intro k set hk a ha
      rw [hdrop] at hk
      split_ifs at hk with hkk he
      · rw [Option.some.injEq] at hk
        rw [← hk, SockSet.mem_erase] at ha
        exact ⟨ha.2, set₀, hkk ▸ hset₀, ha.1⟩
      · refine ⟨?_, set, hk, ha⟩
        rintro rfl
        exact hkk ((hs.unique a k set hk ha).trans hk₀.symm)
    simp only [remove, hc]
    exact {
      nonempty := fun k set hk => by
        simp only [hdrop] at hk
        split_ifs at hk with hkk he
        · rw [Option.some.injEq] at hk
          exact hk ▸ he
        · exact hs.nonempty k set hk
      placed := fun a c' hc' => by
        have ha : a ≠ sock := by
          rintro rfl
          rw [AList.lookup_erase] at hc'
          cases hc'
        rw [AList.lookup_erase_ne ha] at hc'
        obtain ⟨old, hold, hmem⟩ := hs.placed a c' hc'
        simp only [hdrop]
        split_ifs with hkk he
        · rw [hkk, hset₀, Option.some.injEq] at hold
          have : a ∈ SockSet.erase sock set₀ := SockSet.mem_erase.2 ⟨hold ▸ hmem, ha⟩
          rw [he] at this
          cases this
        · rw [hkk, hset₀, Option.some.injEq] at hold
          exact ⟨_, rfl, SockSet.mem_erase.2 ⟨hold ▸ hmem, ha⟩⟩
        · exact ⟨old, hold, hmem⟩
      unique := fun a k set hk hmem => by
        obtain ⟨-, old, hold, hin⟩ := hset k set hk a hmem
        exact hs.unique a k old hold hin
      mapped := fun a k set hk hmem => by
        obtain ⟨ha, old, hold, hin⟩ := hset k set hk a hmem
        obtain ⟨c', hc'⟩ := hs.mapped a k old hold hin
        exact ⟨c', (AList.lookup_erase_ne ha).trans hc'⟩ }

/-- A change of the connections and of what they count leaves the maps in step. -/
theorem rep_congr {t : SockMaps} (hs : s.Rep) (hconn : t.sockConnMap = s.sockConnMap)
    (hep : t.epSockMap = s.epSockMap) (hunder : t.under = s.under) : t.Rep where
  nonempty := by rw [hep]; exact hs.nonempty
  placed := by rw [hep, hconn, hunder]; exact hs.placed
  unique := by rw [hep, hunder]; exact hs.unique
  mapped := by rw [hep, hconn]; exact hs.mapped

theorem rep_find (hs : s.Rep) (sock : Int32) : (s.find sock).2.Rep := by
  unfold find
  split
  · exact hs
  · exact rep_congr hs rfl rfl rfl

/-- The socket that `findEp` takes is that of a connection. -/
theorem findEp_of_rep (hs : s.Rep) (ep : EndPoint) :
    s.epSockMap.lookup ep.toHostPortStr = none ∧ s.findEp ep = some (none, s) ∨
    ∃ sock c, s.findEp ep = some (s.find sock) ∧ (s.find sock).1 = some c := by
  rcases h : s.epSockMap.lookup ep.toHostPortStr with _ | _ | ⟨sock, rest⟩
  · exact .inl ⟨rfl, by simp only [findEp, h]⟩
  · exact absurd rfl (hs.nonempty _ _ h)
  · obtain ⟨c, hc⟩ := hs.mapped sock _ _ h List.mem_cons_self
    exact .inr ⟨sock, c, by simp only [findEp, h, List.head?_cons, Option.map_some],
      by simp only [find, hc]⟩

theorem rep_removeInactive (hs : s.Rep) : s.removeInactive.2.Rep := by
  have hfold : ∀ (es : List (UInt64 × Int32)) (r : ℕ × SockMaps), r.2.Rep →
      (es.foldl (fun (removed, s) e =>
        let (rc, s) := s.remove e.2
        (if rc = .SUCCESS then removed + 1 else removed, s)) r).2.Rep := by
    intro es
    induction es with
    | nil => exact fun r hr => hr
    | cons e es ih => exact fun r hr => ih _ (rep_remove hr e.2)
  exact hfold _ (0, s) hs

theorem rep_step (l : SockMapsCall) (hs : s.Rep) : ∃ t, sockMaps.step s l = some t ∧ t.Rep := by
  cases l with
  | insert ep sock conn => exact ⟨_, rfl, rep_insert hs ep sock conn⟩
  | remove sock => exact ⟨_, rfl, rep_remove hs sock⟩
  | find sock => exact ⟨_, rfl, rep_find hs sock⟩
  | findEp ep =>
    rcases findEp_of_rep hs ep with ⟨-, h⟩ | ⟨sock, c, h, -⟩
    · exact ⟨s, by simp only [sockMaps, h, Option.map_some], hs⟩
    · exact ⟨(s.find sock).2, by simp only [sockMaps, h, Option.map_some], rep_find hs sock⟩
  | removeInactive => exact ⟨_, rfl, rep_removeInactive hs⟩
  | others conns mActSn => exact ⟨_, rfl, rep_congr hs rfl rfl rfl⟩

theorem rep_start : ({} : SockMaps).Rep where
  nonempty k set h := by simp at h
  placed sock c h := by simp at h
  unique sock k set h := by simp at h
  mapped sock k set h := by simp at h

theorem insert_mapped {c : ConnId} (h : s.sockConnMap.lookup sock = some c) (ep : EndPoint)
    (conn : ConnId) : s.insert ep sock conn = (.ERR_AINSERTED, s) := by
  simp [insert, h]

end SockMaps

/-- No call of any sequence takes the first socket of an empty set, and the maps are in step after
it. -/
theorem maps_in_step (calls : List SockMapsCall) :
    ∃ s, sockMaps.run {} calls = some s ∧ s.Rep ∧
      (∀ ep, ∃ conn t, s.findEp ep = some (conn, t) ∧
        (s.epSockMap.lookup ep.toHostPortStr ≠ none → conn ≠ none)) ∧
      ∀ ep sock conn, s.sockConnMap.lookup sock ≠ none →
        s.insert ep sock conn = (.ERR_AINSERTED, s) := by
  obtain ⟨s, hrun, hs⟩ := sockMaps.run_exists (fun s l hs => SockMaps.rep_step l hs) calls
    SockMaps.rep_start
  refine ⟨s, hrun, hs, fun ep => ?_, fun ep sock conn h => ?_⟩
  · rcases SockMaps.findEp_of_rep hs ep with ⟨hno, h⟩ | ⟨sock, c, h, hc⟩
    · exact ⟨none, s, h, fun hk => absurd hno hk⟩
    · exact ⟨some c, (s.find sock).2, by rw [h, ← hc], fun _ => Option.some_ne_none c⟩
  · obtain ⟨c, hc⟩ := Option.ne_none_iff_exists'.1 h
    exact SockMaps.insert_mapped hc ep conn

end Longda
