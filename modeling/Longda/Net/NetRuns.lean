import Longda.Net.NetCalls

/-!
# Runs of calls at one `Net`

Every call keeps every connection accounted for (`accounted_call`), whatever the system answers, so
every run does, and from no state it reaches does a call take the first socket of an empty set
(`connections_accounted`). The loop of `acceptConns` is such a run (`acceptConns_eq_run`). A
`getConn` gives out a connection in the map, an old one where there is one, or leaves nothing behind
(`getConn_of_run`). A client that connects by end point only never has two connections to one
(`one_connection_of_run`).
-/

namespace Longda

open Lib

namespace Registry

variable {s t : Registry} {c : ConnId} {sock : Int32}

/-! ## Every call -/

theorem Accounted.removeInactive (h : s.Accounted none) : s.removeInactive.2.Accounted none := by
  have hfold : ∀ (es : List (UInt64 × Int32)) (r : ℕ × Registry), r.2.Accounted none →
      (es.foldl evictTurn r).2.Accounted none := by
    intro es
    induction es with
    | nil => exact fun r hr => hr
    | cons e es ih => exact fun r hr => ih _ (hr.removeConn_any e.2)
  exact hfold _ (0, s) h

theorem Accounted.acquire_mapped (h : s.Accounted none) (hm : s.sockConnMap.lookup sock = some c) :
    (s.acquire c).Accounted none := by
  obtain ⟨hl, rfl, -⟩ := h.mapped hm
  exact h.acquire (by simp) hl (h.ne_disconnected hm (by simp)) hm (h.polled hm (by simp))

theorem Accounted.release_found (h : s.Accounted none) (hm : s.sockConnMap.lookup sock = some c) :
    ((s.acquire c).release c).Accounted none :=
  (h.acquire_mapped hm).release List.mem_cons_self

theorem Accounted.recvHangUp (h : s.Accounted none) (fd : Int32) :
    (s.recvHangUp fd).Accounted none := by
  unfold Registry.recvHangUp
  rcases hf : s.find fd with ⟨_ | c, t⟩
  · obtain ⟨hm, rfl⟩ := find_none hf
    exact h.delRecvSelector hm
  · obtain ⟨hm, rfl⟩ := find_some hf
    exact (h.release_found hm).removeConn_any fd

theorem Accounted.sendEvent (h : s.Accounted none) (fd : Int32) (hangUp soError : Bool) :
    (s.sendEvent fd hangUp soError).Accounted none := by
  unfold Registry.sendEvent
  rcases hf : s.find fd with ⟨_ | c, t⟩
  · obtain ⟨hm, rfl⟩ := find_none hf
    exact h.delSendSelector hm
  · obtain ⟨hm, rfl⟩ := find_some hf
    have hrel := h.release_found hm
    have hready : ((s.acquire c).setState c .CONN_READY).Accounted none :=
      { h.acquire_mapped hm with }
    dsimp only
    split_ifs
    · exact hrel.removeConn_any fd
    · exact hrel.removeConn_any fd
    · exact hready.release List.mem_cons_self
    · exact hrel

theorem Accounted.delConn (h : s.Accounted none) (ep : EndPoint) :
    ∃ rc t, s.delConn ep = some (rc, t) ∧ t.Accounted none := by
  rcases h.findEp ep with ⟨hf, -⟩ | ⟨sock, c, hf, hm, -⟩
  · exact ⟨.NET_ERR_CONN_NOTFOUND, s, by simp [Registry.delConn, hf], h⟩
  · exact ⟨.SUCCESS, _, by simp only [Registry.delConn, hf]; rfl,
      (h.release_found hm).removeConn_any _⟩

theorem Accounted.acceptTurn (h : s.Accounted none) (a : Accepted)
    (he : s.Enabled (.acceptTurn a)) : (s.acceptTurn a).2.Accounted none := by
  cases a with
  | again => exact h
  | noFd => exact h.removeInactive
  | otherError => exact h
  | sock sock ep recvOk sendOk =>
    rcases addConn_spec h ep he recvOk sendOk with ⟨-, -, hg⟩ | ⟨-, ho⟩
    · exact hg.accounted
    · exact ho.accounted

/-- Where `getConn` finds a connection it gives that out; where it does not and may not make one,
it fails; else it is `openConn`. -/
theorem Accounted.getConn (h : s.Accounted none) (ep : EndPoint) (serverSide : Bool)
    (sock : Int32) (o : Connecting) :
    (∃ fd c, s.getConn ep serverSide sock o = some (.ok c, s.acquire c) ∧
        s.sockConnMap.lookup fd = some c ∧
        (if sock = -1 then s.InSet ep.toHostPortStr fd else fd = sock)) ∨
      (if sock = -1 then ∀ fd, ¬ s.InSet ep.toHostPortStr fd
        else s.sockConnMap.lookup sock = none) ∧
      if serverSide then ∃ e, s.getConn ep serverSide sock o = some (.error e, s)
      else s.getConn ep serverSide sock o = some (s.openConn ep o) := by
  by_cases hs : sock = -1
  · rcases h.findEp ep with ⟨hf, hno⟩ | ⟨fd, c, hf, hm, hin⟩
    · refine .inr ⟨by rwa [if_pos hs], ?_⟩
      cases serverSide <;> simp [Registry.getConn, hs, hf, h.list]
    · exact .inl ⟨fd, c, by simp [Registry.getConn, hs, hf], hm, by rwa [if_pos hs]⟩
  · rcases hf : s.find sock with ⟨_ | c, t⟩
    · obtain ⟨hm, rfl⟩ := find_none hf
      refine .inr ⟨by rwa [if_neg hs], ?_⟩
      cases serverSide <;> simp [Registry.getConn, hs, hf, h.list]
    · obtain ⟨hm, rfl⟩ := find_some hf
      exact .inl ⟨sock, c, by simp [Registry.getConn, hs, hf], hm, by rw [if_neg hs]⟩

/-- No call does what is undefined, and each keeps every connection accounted for. -/
theorem accounted_call (h : s.Accounted none) {l : NetCall} (he : s.Enabled l) :
    ∃ t, s.call l = some t ∧ t.Accounted none := by
  cases l with
  | getConn ep serverSide sock o =>
    rcases h.getConn ep serverSide sock o with ⟨fd, c, hg, hm, -⟩ | ⟨-, hg⟩
    · exact ⟨_, by simp [call, hg], h.acquire_mapped hm⟩
    · cases serverSide <;> simp only [Bool.false_eq_true, if_false, if_true] at hg
      · refine ⟨(s.openConn ep o).2, by simp [call, hg], ?_⟩
        rcases openConn_spec h ep he with ⟨-, -, hgone⟩ | ⟨-, ho⟩
        · exact hgone.accounted
        · exact ho.accounted
      · obtain ⟨e, hg⟩ := hg
        exact ⟨s, by simp [call, hg], h⟩
  | acceptTurn a => exact ⟨_, rfl, h.acceptTurn a he⟩
  | delConn ep =>
    obtain ⟨rc, t, ht, hacc⟩ := h.delConn ep
    exact ⟨t, by simp [call, ht], hacc⟩
  | find sock => exact ⟨_, rfl, h.find sock⟩
  | release c => exact ⟨_, rfl, h.release he⟩
  | removeConn sock => exact ⟨_, rfl, h.removeConn_any sock⟩
  | removeInactive => exact ⟨_, rfl, h.removeInactive⟩
  | recvHangUp fd => exact ⟨_, rfl, h.recvHangUp fd⟩
  | sendEvent fd hangUp soError => exact ⟨_, rfl, h.sendEvent fd hangUp soError⟩
  | addToRecvSelector sock ok => exact ⟨_, rfl, h.addToRecvSelector sock ok⟩
  | updateActSn c => exact ⟨_, rfl, h.updateActSn c⟩

theorem accounted_of_run {calls : List NetCall} (hr : registry.run {} calls = some s) :
    s.Accounted none := by
  refine registry.run_inv_of_step (fun s l t hs hstep => ?_) calls accounted_start hr
  simp only [registry] at hstep
  split_ifs at hstep with he
  obtain ⟨u, hu, hacc⟩ := accounted_call hs he
  rw [hu, Option.some.injEq] at hstep
  exact hstep ▸ hacc

/-- Every `accept` the loop comes to answers as it may. -/
def AcceptsEnabled (s : Registry) : List Accepted → Prop
  | [] => True
  | a :: as => s.Enabled (.acceptTurn a) ∧
      ((s.acceptTurn a).1 = true → (s.acceptTurn a).2.AcceptsEnabled as)

/-- The loop of `acceptConns` is a run of its turns, as many as it makes. -/
theorem acceptConns_eq_run : ∀ {s : Registry} {as : List Accepted}, s.AcceptsEnabled as →
    ∃ n, registry.run s ((as.take n).map .acceptTurn) = some (s.acceptConns as)
  | s, [], _ => ⟨0, rfl⟩
  | s, a :: as, ⟨ha, has⟩ => by
    have hturn : registry.step s (.acceptTurn a) = some (s.acceptTurn a).2 := if_pos ha
    rcases hagain : (s.acceptTurn a).1 with _ | _
    · refine ⟨1, ?_⟩
      simp only [List.take_succ_cons, List.take_zero, List.map_cons, List.map_nil,
        Machine.run_cons, Machine.run_nil, hturn, Option.bind_some, acceptConns, hagain,
        Bool.false_eq_true, if_false]
    · obtain ⟨n, hn⟩ := acceptConns_eq_run (has hagain)
      refine ⟨n + 1, ?_⟩
      simp only [List.take_succ_cons, List.map_cons, Machine.run_cons, hturn, Option.bind_some, hn,
        acceptConns, hagain, if_true]

/-- So the whole loop keeps every connection accounted for. -/
theorem acceptConns_of_run {calls : List NetCall} (hr : registry.run {} calls = some s)
    {as : List Accepted} (has : s.AcceptsEnabled as) : (s.acceptConns as).Accounted none := by
  obtain ⟨n, hn⟩ := acceptConns_eq_run has
  have hall : registry.run {} (calls ++ (as.take n).map .acceptTurn) = some (s.acceptConns as) := by
    rw [Machine.run_append, hr, Option.bind_some, hn]
  exact accounted_of_run hall

theorem Accounted.isOpen_iff (h : s.Accounted none) (hrefs : s.refs = []) (sock : Int32) :
    s.isOpen sock = true ↔ ∃ c, s.sockConnMap.lookup sock = some c := by
  refine ⟨fun ho => ?_, fun ⟨c, hm⟩ => h.recvOpen (h.polled hm (by simp)).1⟩
  obtain ⟨c, hl, rfl⟩ := h.owned ho
  refine ⟨c, (h.kept hl (by simp)).2.resolve_right ?_⟩
  rintro ⟨-, hpos⟩
  rw [h.counted c, hrefs] at hpos
  exact absurd hpos (by simp)

/-! ## One connection to an end point -/

/-- No key has two sockets. -/
def Single (s : Registry) : Prop := ∀ k a b, s.InSet k a → s.InSet k b → a = b

/-- What a client calls: it accepts nothing, and connects by end point. -/
def ClientCall : NetCall → Prop
  | .getConn _ serverSide sock _ => sock = -1 ∨ serverSide = true
  | .acceptTurn _ => False
  | _ => True

theorem Single.of_subset (h : s.Single) (hsub : ∀ k a, t.InSet k a → s.InSet k a) : t.Single :=
  fun k a b ha hb => h k a b (hsub k a ha) (hsub k b hb)

theorem inSet_of_remove {m : SockMaps} {k : Path} {a : Int32} (h : (m.remove sock).2.InSet k a) :
    m.InSet k a := by
  obtain ⟨set, hset, hin⟩ := h
  have hset : (SockMaps.dropSock m.epSockMap sock).lookup k = some set := by
    unfold SockMaps.remove at hset
    dsimp only at hset
    split at hset <;> exact hset
  rcases SockMaps.dropSock_cases m.epSockMap sock with ⟨-, hdrop⟩ | ⟨k₀, set₀, hk₀, -, hdrop⟩
  · rw [hdrop] at hset
    exact ⟨set, hset, hin⟩
  · rw [hdrop] at hset
    split_ifs at hset with hk he
    · rw [Option.some.injEq] at hset
      rw [← hset, SockSet.mem_erase] at hin
      exact ⟨set₀, hk ▸ hk₀, hin.1⟩
    · exact ⟨set, hset, hin⟩

theorem inSet_removeConn {k : Path} {a : Int32} (h : (s.removeConn sock).2.InSet k a) :
    s.InSet k a := by
  refine @inSet_of_remove sock _ k a ?_
  unfold Registry.removeConn at h
  dsimp only at h
  split at h
  · exact h
  · split_ifs at h <;> exact h

theorem inSet_release (s : Registry) (c : ConnId) (k : Path) (a : Int32) :
    (s.release c).InSet k a ↔ s.InSet k a := by
  unfold Registry.release Registry.cleanup
  dsimp only
  split_ifs <;> exact Iff.rfl

theorem inSet_find (s : Registry) (fd : Int32) (k : Path) (a : Int32) :
    (s.find fd).2.InSet k a ↔ s.InSet k a := by
  unfold Registry.find
  split <;> exact Iff.rfl

theorem inSet_removeInactive {k : Path} {a : Int32} (h : s.removeInactive.2.InSet k a) :
    s.InSet k a := by
  have hfold : ∀ (es : List (UInt64 × Int32)) (r : ℕ × Registry),
      (es.foldl evictTurn r).2.InSet k a → r.2.InSet k a := by
    intro es
    induction es with
    | nil => exact fun r hr => hr
    | cons e es ih => exact fun r hr => inSet_removeConn (ih _ hr)
  exact hfold _ (0, s) h

theorem inSet_recvHangUp {fd : Int32} {k : Path} {a : Int32} (h : (s.recvHangUp fd).InSet k a) :
    s.InSet k a := by
  unfold Registry.recvHangUp at h
  have hfind := inSet_find s fd k a
  rcases hf : s.find fd with ⟨_ | c, t⟩ <;> rw [hf] at h hfind
  · exact hfind.1 h
  · exact hfind.1 ((inSet_release t c k a).1 (inSet_removeConn h))

theorem inSet_sendEvent {fd : Int32} {hangUp soError : Bool} {k : Path} {a : Int32}
    (h : (s.sendEvent fd hangUp soError).InSet k a) : s.InSet k a := by
  unfold Registry.sendEvent at h
  have hfind := inSet_find s fd k a
  rcases hf : s.find fd with ⟨_ | c, t⟩ <;> rw [hf] at h hfind
  · exact hfind.1 h
  · dsimp only at h
    split_ifs at h
    · exact hfind.1 ((inSet_release t c k a).1 (inSet_removeConn h))
    · exact hfind.1 ((inSet_release t c k a).1 (inSet_removeConn h))
    · exact hfind.1 ((inSet_release (t.setState c .CONN_READY) c k a).1 h)
    · exact hfind.1 ((inSet_release t c k a).1 h)

/-- The new connection is the first under its end point. -/
theorem Opened.single {ep : EndPoint} {refs : List ConnId} (h : Opened c sock ep refs s t)
    (hs : s.Single) (hno : ∀ fd, ¬ s.InSet ep.toHostPortStr fd) : t.Single := by
  have hkey : ∀ {k a}, t.InSet k a → a = sock ∧ k = ep.toHostPortStr ∨ s.InSet k a :=
    fun {k a} ha => by
      by_cases heq : a = sock
      · obtain ⟨set, hset, hin⟩ := ha
        obtain ⟨set', hset', hin'⟩ := h.inSet
        rw [heq] at hin
        exact .inl ⟨heq, (h.accounted.maps.unique sock k set hset hin).trans
          (h.accounted.maps.unique sock _ set' hset' hin').symm⟩
      · exact .inr ((h.sets k a heq).1 ha)
  intro k a b ha hb
  rcases hkey ha with ⟨rfl, rfl⟩ | ha <;> rcases hkey hb with ⟨rfl, hk⟩ | hb
  · rfl
  · exact absurd hb (hno b)
  · exact absurd (hk ▸ ha) (hno a)
  · exact hs k a b ha hb

theorem single_call (h : s.Accounted none) (hs : s.Single) {l : NetCall} (he : s.Enabled l)
    (hc : ClientCall l) (ht : s.call l = some t) : t.Single := by
  cases l with
  | getConn ep serverSide sock o =>
    rcases h.getConn ep serverSide sock o with ⟨fd, c, hg, -, -⟩ | ⟨hno, hg⟩
    · rw [call, hg, Option.map_some, Option.some.injEq] at ht
      exact ht ▸ hs.of_subset fun _ _ ha => ha
    · cases serverSide <;> simp only [Bool.false_eq_true, if_false, if_true] at hg
      · rw [call, hg, Option.map_some, Option.some.injEq] at ht
        obtain rfl : sock = -1 := hc.resolve_right (by simp)
        rw [if_pos rfl] at hno
        rw [← ht]
        rcases openConn_spec h ep he with ⟨-, -, hgone⟩ | ⟨-, ho⟩
        · exact hs.of_subset fun k a ha => ((hgone.sameAs h he).sets k a).1 ha
        · exact ho.single hs hno
      · obtain ⟨e, hg⟩ := hg
        rw [call, hg, Option.map_some, Option.some.injEq] at ht
        exact ht ▸ hs
  | acceptTurn a => exact hc.elim
  | delConn ep =>
    rcases h.findEp ep with ⟨hf, -⟩ | ⟨sock, c, hf, -, -⟩
    · simp only [call, Registry.delConn, hf, Option.bind_eq_bind, Option.bind_some, Option.pure_def,
        Option.map_some, Option.some.injEq] at ht
      exact ht ▸ hs
    · simp only [call, Registry.delConn, hf, Option.bind_eq_bind, Option.bind_some, Option.pure_def,
        Option.map_some, Option.some.injEq] at ht
      exact ht ▸ hs.of_subset fun k a ha =>
        (inSet_release (s.acquire c) c k a).1 (inSet_removeConn ha)
  | find sock =>
    cases ht
    exact hs.of_subset fun k a ha => (inSet_find s sock k a).1 ha
  | release c =>
    cases ht
    exact hs.of_subset fun k a ha => (inSet_release s c k a).1 ha
  | removeConn sock =>
    cases ht
    exact hs.of_subset fun k a ha => inSet_removeConn ha
  | removeInactive =>
    cases ht
    exact hs.of_subset fun k a ha => inSet_removeInactive ha
  | recvHangUp fd =>
    cases ht
    exact hs.of_subset fun k a ha => inSet_recvHangUp ha
  | sendEvent fd hangUp soError =>
    cases ht
    exact hs.of_subset fun k a ha => inSet_sendEvent ha
  | addToRecvSelector sock ok =>
    cases ht
    rcases addToRecvSelector_cases s sock ok with ⟨-, heq⟩ | heq <;> rw [heq] <;> exact hs
  | updateActSn c =>
    cases ht
    exact hs

/-! ## What holds in every run -/

/-- In every state a run of calls reaches, each connection is accounted for, no descriptor is open
beside those of the map once no reference is out, and every call is defined. -/
theorem connections_accounted {calls : List NetCall} (hr : registry.run {} calls = some s) :
    s.Accounted none ∧
      (s.refs = [] → ∀ sock, s.isOpen sock = true ↔ ∃ c, s.sockConnMap.lookup sock = some c) ∧
      ∀ l, s.Enabled l → ∃ t, registry.step s l = some t := by
  have h := accounted_of_run hr
  refine ⟨h, h.isOpen_iff, fun l he => ?_⟩
  obtain ⟨t, ht, -⟩ := accounted_call h he
  exact ⟨t, by simp only [registry, if_pos he, ht]⟩

def samplePeer : EndPoint :=
  ⟨Chars.ofString [104], Chars.ofString [108], Chars.ofString [115], 80⟩

/-- A client that connects twice, finds the connection broken, and gives it back. -/
def sampleCalls : List NetCall :=
  [.getConn samplePeer false (-1) ⟨7, .SOCK_CONNECTING, true, true⟩,
    .sendEvent 7 false false,
    .getConn samplePeer false (-1) ⟨-1, .error, true, true⟩,
    .release 0,
    .removeConn 7,
    .release 0,
    .getConn samplePeer false (-1) ⟨7, .SUCCESS, true, false⟩]

theorem connections_accounted_client : ∃ s, registry.run {} sampleCalls = some s ∧
    (s.Accounted none ∧
      (s.refs = [] → ∀ sock, s.isOpen sock = true ↔ ∃ c, s.sockConnMap.lookup sock = some c) ∧
      ∀ l, s.Enabled l → ∃ t, registry.step s l = some t) := by
  obtain ⟨s, hs⟩ : ∃ s, registry.run {} sampleCalls = some s := ⟨_, rfl⟩
  exact ⟨s, hs, connections_accounted hs⟩

/-- What a caller of `getConn` has: a reference to a connection in the map, with the socket asked
for if that is there and else under the end point, none having been opened where there was one; or
a failure that left nothing behind. -/
def Got (s : Registry) (ep : EndPoint) (sock : Int32) (t : Registry) : Except NetEx ConnId → Prop
  | .ok c => t.refs = c :: s.refs ∧ ∃ fd, t.sockConnMap.lookup fd = some c ∧
      (sock = -1 → t.InSet ep.toHostPortStr fd ∧
        ((∃ a, s.InSet ep.toHostPortStr a) → t.isOpen = s.isOpen)) ∧
      (sock ≠ -1 → s.sockConnMap.lookup sock ≠ none → fd = sock ∧ t.isOpen = s.isOpen) ∧
      (sock ≠ -1 → s.sockConnMap.lookup sock = none → t.InSet ep.toHostPortStr fd)
  | .error _ => SameAs s t

/-- In every state a run of calls reaches, `getConn` returns or throws, and its caller has what it
may count on. -/
theorem getConn_of_run {calls : List NetCall} (hr : registry.run {} calls = some s)
    (ep : EndPoint) (serverSide : Bool) (sock : Int32) {o : Connecting}
    (ho : o.sock = -1 ∨ s.Fresh o.sock) :
    ∃ r t, s.getConn ep serverSide sock o = some (r, t) ∧ t.Accounted none ∧
      Got s ep sock t r := by
  have h := accounted_of_run hr
  rcases h.getConn ep serverSide sock o with ⟨fd, c, hg, hm, hfd⟩ | ⟨hno, hg⟩
  · refine ⟨_, _, hg, h.acquire_mapped hm, rfl, fd, hm, fun hs => ?_, fun hs _ => ?_,
      fun hs hnone => ?_⟩
    · rw [if_pos hs] at hfd
      exact ⟨hfd, fun _ => rfl⟩
    · rw [if_neg hs] at hfd
      exact ⟨hfd, rfl⟩
    · rw [if_neg hs] at hfd
      rw [hfd, hnone] at hm
      cases hm
  · cases serverSide <;> simp only [Bool.false_eq_true, if_false, if_true] at hg
    · rcases openConn_spec h ep ho with ⟨e, he, hgone⟩ | ⟨hok, hopen⟩
      · refine ⟨.error e, (s.openConn ep o).2, by rw [hg, ← he], hgone.accounted, ?_⟩
        exact hgone.sameAs h ho
      · refine ⟨.ok s.nextConn, (s.openConn ep o).2, by rw [hg, ← hok], hopen.accounted,
          hopen.refs, o.sock, hopen.lookup, fun hs => ⟨hopen.inSet, ?_⟩, fun hs hsome => ?_,
          fun _ _ => hopen.inSet⟩
        · rw [if_pos hs] at hno
          rintro ⟨a, ha⟩
          exact absurd ha (hno a)
        · rw [if_neg hs] at hno
          exact absurd hno hsome
    · obtain ⟨e, hg⟩ := hg
      exact ⟨_, _, hg, h, sameAs_refl s⟩

theorem getConn_of_run_refused : ∃ s, registry.run {} sampleCalls = some s ∧
    ∃ r t, s.getConn samplePeer false (-1) ⟨7, .SUCCESS, true, false⟩ = some (r, t) ∧
      t.Accounted none ∧ Got s samplePeer (-1) t r := by
  obtain ⟨s, hs, hfresh⟩ : ∃ s, registry.run {} sampleCalls = some s ∧ s.Fresh 7 :=
    ⟨_, rfl, by decide⟩
  exact ⟨s, hs, getConn_of_run hs samplePeer false (-1) (.inr hfresh)⟩

/-- A client never has two connections to one end point. -/
theorem one_connection_of_run {calls : List NetCall} (hclient : ∀ l ∈ calls, ClientCall l)
    (hr : registry.run {} calls = some s) (k : Path) (a b : Int32) (ha : s.InSet k a)
    (hb : s.InSet k b) : a = b := by
  have hstart : ({} : Registry).Accounted none ∧ ({} : Registry).Single := by
    refine ⟨accounted_start, fun k a b ha => ?_⟩
    obtain ⟨set, hset, -⟩ := ha
    simp at hset
  have hinv : s.Accounted none ∧ s.Single := by
    refine registry.run_inv (C := fun _ l => ClientCall l)
      (I := fun s => s.Accounted none ∧ s.Single) (fun s l t hs hc hstep => ?_) calls
      hstart (registry.meets_of_forall _ hclient) hr
    simp only [registry] at hstep
    split_ifs at hstep with he
    obtain ⟨u, hu, hacc⟩ := accounted_call hs.1 he
    obtain rfl : u = t := Option.some.inj (hu.symm.trans hstep)
    exact ⟨hacc, single_call hs.1 hs.2 he hc hu⟩
  exact hinv.2 k a b ha hb

theorem one_connection_of_run_twice : ∃ s, registry.run {} (sampleCalls.take 3) = some s ∧
    s.InSet samplePeer.toHostPortStr 7 ∧
      ∀ k a b, s.InSet k a → s.InSet k b → a = b := by
  obtain ⟨s, hs, hin⟩ : ∃ s, registry.run {} (sampleCalls.take 3) = some s ∧
      s.InSet samplePeer.toHostPortStr 7 := ⟨_, rfl, [7], rfl, List.mem_singleton_self 7⟩
  refine ⟨s, hs, hin, fun k a b ha hb => one_connection_of_run ?_ hs k a b ha hb⟩
  simp [sampleCalls, ClientCall]

end Registry

end Longda
