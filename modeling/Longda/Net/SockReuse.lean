import Longda.Lib.Slips
import Longda.Net.Teardown

/-!
# Sockets that are used again

A removal and a response name their connection by its socket. `Server` adds to the threads at the
connection manager the sockets of the connections, the removals that threads owe for an error or a
hang-up they observed, and the requests whose response is still to come. A socket number is given
out again once the connection that had it is deleted, and the numbers noted before are slips.

`removeConn` and `sendResponse` look up whatever connection has the number by then. The connection
is the one observed, and the one the request came from, in every run that gives out no number that
is still noted (`removal_hits_observed`, `response_to_requester`); otherwise another may be hit.
-/

namespace Longda

open Lib

/-- A request being handled: the socket its event has, and the connection it was received on. -/
structure PendingRequest where
  sock : Int32
  conn : ConnId
  deriving DecidableEq

/-- A response, the connection it was posted on if one was found, and whether the connection of the
request was in the map. -/
structure Answer where
  request : PendingRequest
  posted : Option ConnId
  present : Bool

structure Server (τ : Type) where
  mgr : Mgr τ := {}
  mSock : ConnId → Int32 := fun _ => -1
  /-- The removals that threads owe, by socket, and the connections the errors were observed on. -/
  owed : List (τ × Int32 × ConnId) := []
  requests : List PendingRequest := []
  /-- The connection each owed removal was for, and the one it found. -/
  removals : List (ConnId × Option ConnId) := []
  answers : List Answer := []

inductive ServerStep (τ : Type) where
  | act (t : τ) (a : MgrAct)
  | accept (t : τ) (sock : Int32)
  /-- `recvProgress` in `recvData` finds the connection broken. -/
  | broken (t : τ) (conn : ConnId)
  /-- `epoll_wait` reports a hang-up of the socket of the connection. -/
  | hangUp (t : τ) (conn : ConnId)
  | removeConn (t : τ) (sock : Int32) (conn : ConnId)
  | recvReqMsg (t : τ) (conn : ConnId)
  | sendResponse (t : τ) (request : PendingRequest)

variable {τ : Type}

/-- The socket that is given out. -/
def ServerStep.accepts : ServerStep τ → Option Int32
  | .accept _ sock => some sock
  | _ => none

def MgrAct.inserts : MgrAct → Bool
  | .insert _ => true
  | _ => false

variable [DecidableEq τ]

namespace Server

/-- Each connection that had the socket is deleted, so that `close` gave the number back. -/
def Closed (s : Server τ) (sock : Int32) : Prop :=
  ∀ c < s.mgr.nextConn, s.mSock c = sock → s.mgr.deleted c = true

instance (s : Server τ) (sock : Int32) : Decidable (s.Closed sock) :=
  inferInstanceAs (Decidable (∀ c < _, _ → _))

def step (s : Server τ) : ServerStep τ → Option (Server τ)
  | .act t a =>
    if a.inserts then none else ((Longda.mgr τ).step s.mgr (t, a)).map fun m => { s with mgr := m }
  | .accept t sock =>
    if s.Closed sock then
      ((Longda.mgr τ).step s.mgr (t, .insert sock)).map fun m =>
        { s with mgr := m, mSock := Function.update s.mSock s.mgr.nextConn sock }
    else none
  | .broken t c =>
    if (t, c) ∈ s.mgr.refs then some { s with owed := (t, s.mSock c, c) :: s.owed } else none
  | .hangUp t c =>
    if c < s.mgr.nextConn ∧ s.mgr.deleted c = false then
      some { s with owed := (t, s.mSock c, c) :: s.owed }
    else none
  | .removeConn t sock c =>
    if (t, sock, c) ∈ s.owed then
      ((Longda.mgr τ).step s.mgr (t, .remove sock)).map fun m =>
        { s with
          mgr := m
          owed := s.owed.erase (t, sock, c)
          removals := s.removals ++ [(c, s.mgr.sockConnMap sock)] }
    else none
  | .recvReqMsg t c =>
    if (t, c) ∈ s.mgr.refs then some { s with requests := ⟨s.mSock c, c⟩ :: s.requests } else none
  -- `getConn` with the socket of the event; without a connection it throws, and nothing is posted
  | .sendResponse t r =>
    if r ∈ s.requests then
      ((Longda.mgr τ).step s.mgr (t, .find r.sock)).map fun m =>
        { s with
          mgr := m
          requests := s.requests.erase r
          answers := s.answers ++ [⟨r, s.mgr.sockConnMap r.sock,
            s.mgr.sockConnMap (s.mSock r.conn) = some r.conn⟩] }
    else none

/-- No socket is given out while a removal is owed for it. -/
def OwedFirst (s : Server τ) (l : ServerStep τ) : Prop :=
  ∀ sock ∈ l.accepts, ∀ o ∈ s.owed, o.2.1 ≠ sock

/-- No socket is given out while a request received on it waits for its response. -/
def AnsweredFirst (s : Server τ) (l : ServerStep τ) : Prop :=
  ∀ sock ∈ l.accepts, ∀ r ∈ s.requests, r.sock ≠ sock

-- by the socket there is, not by all sockets
instance (s : Server τ) (l : ServerStep τ) : Decidable (s.OwedFirst l) :=
  Option.decidableForallMem (p := fun sock => ∀ o ∈ s.owed, o.2.1 ≠ sock) l.accepts

instance (s : Server τ) (l : ServerStep τ) : Decidable (s.AnsweredFirst l) :=
  Option.decidableForallMem (p := fun sock => ∀ r ∈ s.requests, r.sock ≠ sock) l.accepts

end Server

def server (τ : Type) [DecidableEq τ] : Machine (Server τ) (ServerStep τ) where
  step := Server.step

/-! ## The sockets of the connections -/

section Manager

variable {m m' : Mgr τ} {t : τ} {a : MgrAct}

theorem Custody.map_of_moves {s s' : Custody τ} (h : s.Moves t s') :
    (∀ c, s.deleted c = true → s'.deleted c = true) ∧
      ((∀ k c, s'.sockConnMap k = some c → s.sockConnMap k = some c) ∨
        s'.nextConn = s.nextConn + 1) := by
  cases h with
  | insert => exact ⟨fun _ h => h, .inr rfl⟩
  | done => exact ⟨fun _ h => cleaning_update h, .inl fun _ _ h => h⟩
  | @erased k hat =>
    refine ⟨fun _ h => h, .inl fun k' c h => ?_⟩
    by_cases hk : k' = k
    · subst hk
      simp at h
    · simpa [Function.update_of_ne hk] using h
  | _ => exact ⟨fun _ h => h, .inl fun _ _ h => h⟩

theorem nextConn_of_step (ha : a.inserts = false) (h : (mgr τ).step m (t, a) = some m') :
    m'.nextConn = m.nextConn := by
  simp only [mgr] at h
  split_ifs at h with hp hg
  · cases a <;> simp only [Mgr.enter] at h
    case insert => cases ha
    case goOn => cases h
    all_goals
      split_ifs at h
      try split at h
      all_goals (cases h; rfl)
  · rcases hp : m.pc t with
      _ | c | c | c | c | ⟨c, how, caller⟩ | ⟨c, how, caller⟩ | ⟨c, caller⟩ | k
      <;> rw [hp] at h <;> simp only [Mgr.goOn, Mgr.lockConn] at h <;> (try split_ifs at h) <;>
      cases h <;> rfl

/-- A step that inserts nothing leaves the map with what it had, or with less. -/
theorem map_of_step (ha : a.inserts = false) (h : (mgr τ).step m (t, a) = some m') (k : Int32)
    (c : ConnId) (hk : m'.sockConnMap k = some c) : m.sockConnMap k = some c := by
  refine (Custody.map_of_moves (moves_of_step h)).2.elim (fun hle => hle k c hk) fun hn => ?_
  have hsame := nextConn_of_step ha h
  exact absurd (hsame.symm.trans hn) (Nat.lt_succ_self _).ne

theorem deleted_of_step (h : (mgr τ).step m (t, a) = some m') {c : ConnId}
    (hc : m.deleted c = true) : m'.deleted c = true :=
  (Custody.map_of_moves (moves_of_step h)).1 c hc

theorem insert_of_step {k : Int32} (h : (mgr τ).step m (t, .insert k) = some m') :
    m'.sockConnMap = Function.update m.sockConnMap k (some m.nextConn) ∧
      m'.nextConn = m.nextConn + 1 := by
  simp only [mgr] at h
  split_ifs at h with hp hg
  · simp only [Mgr.enter] at h
    split_ifs at h
    cases h
    exact ⟨rfl, rfl⟩
  · cases hg

end Manager

namespace Server

variable {s s' : Server τ} {m : Mgr τ} {l : ServerStep τ} {t : τ} {k : Int32} {c : ConnId}

/-- A connection is in the map under its own socket, and all others that had it are deleted. -/
structure Placed (s : Server τ) : Prop where
  inv : s.mgr.custody.Inv
  mapped : ∀ k c, s.mgr.sockConnMap k = some c → s.mSock c = k
  alone : ∀ k c, s.mgr.sockConnMap k = some c →
    ∀ d < s.mgr.nextConn, s.mSock d = k → d = c ∨ s.mgr.deleted d = true

omit [DecidableEq τ] in
theorem placed_start : ({} : Server τ).Placed where
  inv := inv_start
  mapped := nofun
  alone := nofun

theorem placed_act {a : MgrAct} (hs : s.Placed) (ha : a.inserts = false)
    (h : (Longda.mgr τ).step s.mgr (t, a) = some s'.mgr) (hsock : s'.mSock = s.mSock) :
    s'.Placed where
  inv := Custody.inv_of_moves hs.inv (moves_of_step h)
  mapped k c hk := by rw [hsock]; exact hs.mapped k c (map_of_step ha h k c hk)
  alone k c hk d hd hdk := by
    rw [hsock] at hdk
    rw [nextConn_of_step ha h] at hd
    exact (hs.alone k c (map_of_step ha h k c hk) d hd hdk).imp_right (deleted_of_step h)

theorem placed_accept (hs : s.Placed) (hclosed : s.Closed k)
    (h : (Longda.mgr τ).step s.mgr (t, .insert k) = some s'.mgr)
    (hsock : s'.mSock = Function.update s.mSock s.mgr.nextConn k) : s'.Placed := by
  obtain ⟨hmap, hnext⟩ := insert_of_step h
  have hnew : s'.mSock s.mgr.nextConn = k := by rw [hsock, Function.update_self]
  have hold : ∀ d, d ≠ s.mgr.nextConn → s'.mSock d = s.mSock d := fun d hd => by
    rw [hsock, Function.update_of_ne hd]
  have hin : ∀ k' c, s'.mgr.sockConnMap k' = some c →
      k' = k ∧ c = s.mgr.nextConn ∨
        k' ≠ k ∧ c ≠ s.mgr.nextConn ∧ s.mgr.sockConnMap k' = some c := by
    intro k' c hk'
    rw [hmap] at hk'
    by_cases hkk : k' = k
    · subst hkk
      rw [Function.update_self, Option.some.injEq] at hk'
      exact .inl ⟨rfl, hk'.symm⟩
    · rw [Function.update_of_ne hkk] at hk'
      exact .inr ⟨hkk, (hs.inv.mapped k' c hk').ne, hk'⟩
  exact {
    inv := Custody.inv_of_moves hs.inv (moves_of_step h)
    mapped := fun k' c hk' => by
      rcases hin k' c hk' with ⟨rfl, rfl⟩ | ⟨-, hc, hk'⟩
      · exact hnew
      · rw [hold c hc]
        exact hs.mapped k' c hk'
    alone := fun k' c hk' d hd hdk => by
      rw [hnext] at hd
      rcases hin k' c hk' with ⟨rfl, rfl⟩ | ⟨hkk, -, hk'⟩
      · by_cases hdn : d = s.mgr.nextConn
        · exact .inl hdn
        · rw [hold d hdn] at hdk
          have hlt : d < s.mgr.nextConn := lt_of_le_of_ne (Nat.le_of_lt_succ hd) hdn
          exact .inr (deleted_of_step h (hclosed d hlt hdk))
      · by_cases hdn : d = s.mgr.nextConn
        · exact absurd (hdk.symm.trans (hdn ▸ hnew)) hkk
        · rw [hold d hdn] at hdk
          have hlt : d < s.mgr.nextConn := lt_of_le_of_ne (Nat.le_of_lt_succ hd) hdn
          exact (hs.alone k' c hk' d hlt hdk).imp_right (deleted_of_step h) }

/-! ## What the steps do -/

def Alive (s : Server τ) (c : ConnId) : Prop := c < s.mgr.nextConn ∧ s.mgr.deleted c = false

/-- What each step does, and when it can be taken. -/
inductive Move (s : Server τ) : ServerStep τ → Server τ → Prop
  | act {t : τ} {a : MgrAct} {m : Mgr τ} (ha : a.inserts = false)
    (hm : (Longda.mgr τ).step s.mgr (t, a) = some m) : Move s (.act t a) { s with mgr := m }
  | accept {t : τ} {k : Int32} {m : Mgr τ} (hclosed : s.Closed k)
    (hm : (Longda.mgr τ).step s.mgr (t, .insert k) = some m) : Move s (.accept t k)
      { s with mgr := m, mSock := Function.update s.mSock s.mgr.nextConn k }
  | broken {t : τ} {c : ConnId} (hc : s.Alive c) :
    Move s (.broken t c) { s with owed := (t, s.mSock c, c) :: s.owed }
  | hangUp {t : τ} {c : ConnId} (hc : s.Alive c) :
    Move s (.hangUp t c) { s with owed := (t, s.mSock c, c) :: s.owed }
  | removeConn {t : τ} {k : Int32} {c : ConnId} {m : Mgr τ} (howed : (t, k, c) ∈ s.owed)
    (hm : (Longda.mgr τ).step s.mgr (t, .remove k) = some m) : Move s (.removeConn t k c) { s with
      mgr := m
      owed := s.owed.erase (t, k, c)
      removals := s.removals ++ [(c, s.mgr.sockConnMap k)] }
  | recvReqMsg {t : τ} {c : ConnId} (hc : s.Alive c) :
    Move s (.recvReqMsg t c) { s with requests := ⟨s.mSock c, c⟩ :: s.requests }
  | sendResponse {t : τ} {r : PendingRequest} {m : Mgr τ} (hr : r ∈ s.requests)
    (hm : (Longda.mgr τ).step s.mgr (t, .find r.sock) = some m) :
    Move s (.sendResponse t r) { s with
      mgr := m
      requests := s.requests.erase r
      answers := s.answers ++ [⟨r, s.mgr.sockConnMap r.sock,
        s.mgr.sockConnMap (s.mSock r.conn) = some r.conn⟩] }

omit [DecidableEq τ] in
theorem Placed.alive (hs : s.Placed) (hr : (t, c) ∈ s.mgr.refs) : s.Alive c := by
  constructor
  · by_contra hlt
    have hzero := (hs.inv.unborn c (not_lt.1 hlt)).1
    exact hs.inv.unreferenced_iff.1 hzero t hr
  · by_contra hd
    have hd' : s.mgr.deleted c = true := by simpa using hd
    have htorn := hs.inv.deleted c hd'
    exact (hs.inv.torn c (by rw [htorn]; exact one_ne_zero)).2.2 t hr

theorem move_of_step (hs : s.Placed) (h : (server τ).step s l = some s') : s.Move l s' := by
  simp only [server] at h
  cases l <;> simp only [Server.step] at h
  case act t a =>
    split_ifs at h with ha
    obtain ⟨m, hm, rfl⟩ := Option.map_eq_some_iff.1 h
    exact .act (by simpa using ha) hm
  case accept t k =>
    split_ifs at h with hc
    obtain ⟨m, hm, rfl⟩ := Option.map_eq_some_iff.1 h
    exact .accept hc hm
  case broken t c =>
    split_ifs at h with hr
    cases h
    exact .broken (hs.alive hr)
  case hangUp t c =>
    split_ifs at h with hc
    cases h
    exact .hangUp hc
  case removeConn t k c =>
    split_ifs at h with ho
    obtain ⟨m, hm, rfl⟩ := Option.map_eq_some_iff.1 h
    exact .removeConn ho hm
  case recvReqMsg t c =>
    split_ifs at h with hr
    cases h
    exact .recvReqMsg (hs.alive hr)
  case sendResponse t r =>
    split_ifs at h with hr
    obtain ⟨m, hm, rfl⟩ := Option.map_eq_some_iff.1 h
    exact .sendResponse hr hm

theorem placed_step (hs : s.Placed) (h : s.Move l s') : s'.Placed := by
  cases h with
  | act ha hm => exact placed_act hs ha hm rfl
  | accept hclosed hm => exact placed_accept hs hclosed hm rfl
  | removeConn howed hm | sendResponse hr hm => exact placed_act hs rfl hm rfl
  | broken | hangUp | recvReqMsg => exact ⟨hs.inv, hs.mapped, hs.alone⟩

/-! ## Slips with sockets -/

variable {slips : List (Int32 × ConnId)}

theorem honest_act {a : MgrAct} {m : Mgr τ} (h : Honest s.mgr.sockConnMap slips)
    (ha : a.inserts = false) (hm : (Longda.mgr τ).step s.mgr (t, a) = some m) :
    Honest m.sockConnMap slips :=
  h.shrink fun k c => map_of_step ha hm k c

theorem honest_accept {m : Mgr τ} (h : Honest s.mgr.sockConnMap slips)
    (hk : ∀ n ∈ slips, n.1 ≠ k) (hm : (Longda.mgr τ).step s.mgr (t, .insert k) = some m) :
    Honest m.sockConnMap slips := by
  rw [(insert_of_step hm).1]
  exact h.insert hk _

omit [DecidableEq τ] in
theorem honest_note (hs : s.Placed) (h : Honest s.mgr.sockConnMap slips) (hc : s.Alive c) :
    Honest s.mgr.sockConnMap ((s.mSock c, c) :: slips) := by
  refine h.issue fun o ho => ?_
  rcases hs.alone _ o ho c hc.1 rfl with rfl | hd
  · rfl
  · exact absurd (hc.2.symm.trans hd) (by simp)

/-- Each removal so far hit the connection it was for, or nothing. -/
def HitsObserved (s : Server τ) : Prop := ∀ n ∈ s.removals, n.2 = some n.1 ∨ n.2 = none

/-- Each response so far went to the connection of its request if that was in the map, and else to
nobody. -/
def Answered (s : Server τ) : Prop :=
  ∀ a ∈ s.answers, a.posted = if a.present then some a.request.conn else none

def notes (s : Server τ) : List (Int32 × ConnId) := s.owed.map Prod.snd

theorem observed_step (hs : s.Placed) (hn : Honest s.mgr.sockConnMap s.notes)
    (hh : s.HitsObserved) (hc : s.OwedFirst l) (h : s.Move l s') :
    Honest s'.mgr.sockConnMap s'.notes ∧ s'.HitsObserved := by
  cases h with
  | act ha hm => exact ⟨honest_act hn ha hm, hh⟩
  | accept hclosed hm =>
    refine ⟨honest_accept hn ?_ hm, hh⟩
    intro n hmem
    obtain ⟨o, ho, rfl⟩ := List.mem_map.1 hmem
    exact hc _ rfl o ho
  | broken halive | hangUp halive =>
    have := honest_note hs hn halive
    exact ⟨this, hh⟩
  | recvReqMsg => exact ⟨hn, hh⟩
  | sendResponse hr hm => exact ⟨honest_act hn rfl hm, hh⟩
  | removeConn howed hm =>
    refine ⟨(honest_act hn rfl hm).lose fun n hmem => ?_, fun n hmem => ?_⟩
    · obtain ⟨o, ho, rfl⟩ := List.mem_map.1 hmem
      exact List.mem_map_of_mem (List.mem_of_mem_erase ho)
    · rcases List.mem_append.1 hmem with hmem | hmem
      · exact hh n hmem
      · rw [List.mem_singleton.1 hmem]
        exact hn.lookup (List.mem_map_of_mem howed)

def asked (s : Server τ) : List (Int32 × ConnId) := s.requests.map fun r => (r.sock, r.conn)

/-- The requests have the sockets of their connections. -/
def Located (s : Server τ) : Prop :=
  ∀ r ∈ s.requests, s.mSock r.conn = r.sock ∧ r.conn < s.mgr.nextConn

omit [DecidableEq τ] in
theorem answered_append (hn : Honest s.mgr.sockConnMap s.asked) (hl : s.Located)
    {r : PendingRequest} (hr : r ∈ s.requests) : s.mgr.sockConnMap r.sock =
      if s.mgr.sockConnMap (s.mSock r.conn) = some r.conn then some r.conn else none := by
  rw [(hl r hr).1]
  rcases hn.lookup (List.mem_map_of_mem (f := fun r : PendingRequest => (r.sock, r.conn)) hr)
    with h | h
  · rw [h, if_pos rfl]
  · rw [h, if_neg (by simp)]

theorem answered_step (hs : s.Placed) (hn : Honest s.mgr.sockConnMap s.asked) (hl : s.Located)
    (hh : s.Answered) (hc : s.AnsweredFirst l) (h : s.Move l s') :
    Honest s'.mgr.sockConnMap s'.asked ∧ s'.Located ∧ s'.Answered := by
  cases h with
  | act ha hm =>
    exact ⟨honest_act hn ha hm, fun r hr => (nextConn_of_step ha hm).symm ▸ hl r hr, hh⟩
  | @accept t k m hclosed hm =>
    refine ⟨honest_accept hn ?_ hm, fun r hr => ?_, hh⟩
    · intro n hmem
      obtain ⟨r, hr, rfl⟩ := List.mem_map.1 hmem
      exact hc _ rfl r hr
    · obtain ⟨hsock, hlt⟩ := hl r hr
      refine ⟨(Function.update_of_ne hlt.ne _ _).trans hsock, ?_⟩
      rw [(insert_of_step hm).2]
      exact Nat.lt_succ_of_lt hlt
  | broken | hangUp => exact ⟨hn, hl, hh⟩
  | removeConn howed hm =>
    exact ⟨honest_act hn rfl hm, fun r hr => (nextConn_of_step rfl hm).symm ▸ hl r hr, hh⟩
  | recvReqMsg halive =>
    have := honest_note hs hn halive
    refine ⟨this, fun r hr => ?_, hh⟩
    rcases List.mem_cons.1 hr with rfl | hr
    · exact ⟨rfl, halive.1⟩
    · exact hl r hr
  | @sendResponse t r m hr hm =>
    refine ⟨(honest_act hn rfl hm).lose fun n hmem => ?_, fun r' hr' => ?_, fun a ha => ?_⟩
    · obtain ⟨r', hr', rfl⟩ := List.mem_map.1 hmem
      exact List.mem_map_of_mem (f := fun r : PendingRequest => (r.sock, r.conn))
        (List.mem_of_mem_erase hr')
    · exact (nextConn_of_step rfl hm).symm ▸ hl r' (List.mem_of_mem_erase hr')
    · rcases List.mem_append.1 ha with ha | ha
      · exact hh a ha
      · rw [List.mem_singleton.1 ha]
        simpa using answered_append hn hl hr

end Server

open Server in
/-- While no socket is given out that a removal is still owed for, a removal hits the connection the
error or hang-up was observed on, or nothing. -/
theorem removal_hits_observed {steps : List (ServerStep τ)} {s : Server τ}
    (hrun : (server τ).run {} steps = some s) (hc : (server τ).Meets OwedFirst {} steps) :
    s.HitsObserved := by
  have hstep : ∀ s l s', (s.Placed ∧ Honest s.mgr.sockConnMap s.notes ∧ s.HitsObserved) →
      OwedFirst s l → (server τ).step s l = some s' →
      s'.Placed ∧ Honest s'.mgr.sockConnMap s'.notes ∧ s'.HitsObserved := by
    rintro s l s' ⟨hp, hn, hh⟩ hc h
    have hm := move_of_step hp h
    exact ⟨placed_step hp hm, observed_step hp hn hh hc hm⟩
  exact ((server τ).run_inv hstep steps ⟨placed_start, honest_nil _, by simp [HitsObserved]⟩ hc
    hrun).2.2

open Server in
/-- While no socket is given out that a request waiting for its response was received on, the
response is posted on the connection of the request if the map still has it, and else on none. -/
theorem response_to_requester {steps : List (ServerStep τ)} {s : Server τ}
    (hrun : (server τ).run {} steps = some s) (hc : (server τ).Meets AnsweredFirst {} steps) :
    s.Answered := by
  have hstep : ∀ s l s',
      (s.Placed ∧ Honest s.mgr.sockConnMap s.asked ∧ s.Located ∧ s.Answered) →
      AnsweredFirst s l → (server τ).step s l = some s' →
      s'.Placed ∧ Honest s'.mgr.sockConnMap s'.asked ∧ s'.Located ∧ s'.Answered := by
    rintro s l s' ⟨hp, hn, hl, hh⟩ hc h
    have hm := move_of_step hp h
    exact ⟨placed_step hp hm, answered_step hp hn hl hh hc hm⟩
  exact ((server τ).run_inv hstep steps
    ⟨placed_start, honest_nil _, by simp [Located], by simp [Answered]⟩ hc hrun).2.2.2

/-- A connection is accepted and found by the receive thread. -/
def received : List (ServerStep (Fin 2)) :=
  [.act 1 .lockMap, .accept 1 5, .act 1 .unlockMap, .act 0 .lockMap, .act 0 (.find 5),
    .act 0 .goOn, .act 0 .goOn, .act 0 .unlockMap]

/-- The epoll thread removes the connection while the receive thread has it, and the receive thread
gives it back and deletes it. -/
def goneMeanwhile : List (ServerStep (Fin 2)) :=
  [.hangUp 1 0, .act 1 .lockMap, .removeConn 1 5 0, .act 1 .goOn, .act 1 .goOn, .act 1 .goOn,
    .act 1 .unlockMap, .act 0 (.release 0), .act 0 .goOn, .act 0 .goOn, .act 0 .goOn,
    .act 0 .goOn, .act 0 .goOn]

/-- A new connection is accepted on the socket. -/
def acceptedAgain : List (ServerStep (Fin 2)) :=
  [.act 1 .lockMap, .accept 1 5, .act 1 .unlockMap]

theorem removal_hits_observed_twice : ∃ s, (server (Fin 2)).run {}
    (received ++ [.broken 0 0] ++ goneMeanwhile ++ [.act 0 .lockMap, .removeConn 0 5 0]) = some s ∧
      s.removals = [(0, some 0), (0, none)] ∧ s.HitsObserved := by
  obtain ⟨s, hrun, hr⟩ : ∃ s, (server (Fin 2)).run {} (received ++ [.broken 0 0] ++ goneMeanwhile ++
      [.act 0 .lockMap, .removeConn 0 5 0]) = some s ∧ s.removals = [(0, some 0), (0, none)] :=
    ⟨_, rfl, rfl⟩
  exact ⟨s, hrun, hr, removal_hits_observed hrun (by decide)⟩

/-- The removal owed for the broken connection hits the one accepted meanwhile. -/
theorem removal_hits_other : ∃ s, (server (Fin 2)).run {}
    (received ++ [.broken 0 0] ++ goneMeanwhile ++ acceptedAgain ++
      [.act 0 .lockMap, .removeConn 0 5 0]) = some s ∧ ¬ s.HitsObserved := by
  refine ⟨_, rfl, fun h => ?_⟩
  exact absurd (h (0, some 1) (List.mem_cons_of_mem _ List.mem_cons_self)) (by simp)

theorem response_to_requester_gone : ∃ s, (server (Fin 2)).run {}
    (received ++ [.recvReqMsg 0 0] ++ goneMeanwhile ++
      [.act 0 .lockMap, .sendResponse 0 ⟨5, 0⟩]) = some s ∧
      s.answers = [⟨⟨5, 0⟩, none, false⟩] ∧ s.Answered := by
  obtain ⟨s, hrun, hr⟩ : ∃ s, (server (Fin 2)).run {} (received ++ [.recvReqMsg 0 0] ++
      goneMeanwhile ++ [.act 0 .lockMap, .sendResponse 0 ⟨5, 0⟩]) = some s ∧
      s.answers = [⟨⟨5, 0⟩, none, false⟩] := ⟨_, rfl, rfl⟩
  exact ⟨s, hrun, hr, response_to_requester hrun (by decide)⟩

/-- The response to a client that left goes to the one who has its socket now. -/
theorem response_to_other : ∃ s, (server (Fin 2)).run {}
    (received ++ [.recvReqMsg 0 0] ++ goneMeanwhile ++ acceptedAgain ++
      [.act 0 .lockMap, .sendResponse 0 ⟨5, 0⟩]) = some s ∧ ¬ s.Answered := by
  refine ⟨_, rfl, fun h => ?_⟩
  exact absurd (h ⟨⟨5, 0⟩, some 1, false⟩ List.mem_cons_self) (by simp)

end Longda
