import Longda.Net.NetRuns
import Longda.Net.RcvFileName

/-!
# The peer a connection is for

`ConnMgr` looks for a connection by the text `host@port` of an end point. A port is written without
an `@`, so two end points with one text have one host name and one port (`toHostPortStr_inj`). Every
connection in the map is under the text of its own peer (`Peered`), through all calls, failed ones
and evictions among them: what `getConn` finds or makes for an end point is a connection to that
host and port, and to no other (`getConn_peer_of_run`).
-/

namespace Longda

open Lib

/-- The text stands for the host name and the port. -/
theorem toHostPortStr_inj {a b : EndPoint} (h : a.toHostPortStr = b.toHostPortStr) :
    a.mHostName.str = b.mHostName.str ∧ a.mPort = b.mPort := by
  have hport : ∀ n : ℤ, (64 : UInt8) ∉ valToStr n := fun _ =>
    notMem_valToStr (by decide) (by decide)
  have hsplit : a.mHostName.str ++ 64 :: valToStr a.mPort.toInt
      = b.mHostName.str ++ 64 :: valToStr b.mPort.toInt := by
    simpa only [EndPoint.toHostPortStr, List.append_assoc, List.singleton_append] using h
  obtain ⟨hhost, hnum⟩ := (append_cons_inj (hport _) (hport _)).1 hsplit
  exact ⟨hhost, Int32.toInt_inj.1 (valToStr_injective hnum)⟩

namespace Registry

variable {s t u : Registry} {c : ConnId} {sock : Int32} {ep : EndPoint}

/-- Each connection in the map has its socket in the set under the text of its peer. -/
def Peered (s : Registry) : Prop :=
  ∀ fd c, s.sockConnMap.lookup fd = some c →
    ∃ peer, s.mPeerEp c = some peer ∧ s.InSet peer.toHostPortStr fd

/-- The key each socket in the map was last inserted under is the text of the peer. -/
def Keyed (s : Registry) : Prop :=
  ∀ fd c, s.sockConnMap.lookup fd = some c →
    ∃ peer, s.mPeerEp c = some peer ∧ peer.toHostPortStr = s.under fd

theorem Keyed.peered (hs : s.Keyed) (h : s.Accounted none) : s.Peered := by
  intro fd c hc
  obtain ⟨peer, hpeer, htext⟩ := hs fd c hc
  exact ⟨peer, hpeer, htext ▸ h.maps.placed fd c hc⟩

/-- The connections that are left in the map are as they were. -/
def Forgets (s t : Registry) : Prop :=
  ∀ fd c, t.sockConnMap.lookup fd = some c →
    s.sockConnMap.lookup fd = some c ∧ t.under fd = s.under fd ∧ t.mPeerEp c = s.mPeerEp c

theorem Keyed.forgets (hs : s.Keyed) (h : Forgets s t) : t.Keyed := by
  intro fd c hc
  obtain ⟨hm, hunder, hpeer⟩ := h fd c hc
  rw [hunder, hpeer]
  exact hs fd c hm

theorem Forgets.trans (h : Forgets s t) (h' : Forgets t u) : Forgets s u := by
  intro fd c hc
  obtain ⟨ht, hunder, hpeer⟩ := h' fd c hc
  obtain ⟨hs, hunder', hpeer'⟩ := h fd c ht
  exact ⟨hs, hunder.trans hunder', hpeer.trans hpeer'⟩

theorem forgets_of_eq (hmap : t.sockConnMap = s.sockConnMap) (hunder : t.under = s.under)
    (hpeer : t.mPeerEp = s.mPeerEp) : Forgets s t := by
  intro fd c hc
  rw [hunder, hpeer]
  exact ⟨hmap ▸ hc, rfl, rfl⟩

theorem forgets_refl (s : Registry) : Forgets s s := forgets_of_eq rfl rfl rfl

theorem forgets_cleanup (s : Registry) (c : ConnId) (how : CleanupT) :
    Forgets s (s.cleanup c how) := by
  unfold Registry.cleanup
  dsimp only
  split_ifs <;> exact forgets_of_eq rfl rfl rfl

theorem forgets_release (s : Registry) (c : ConnId) : Forgets s (s.release c) := by
  unfold Registry.release
  dsimp only
  split_ifs
  · exact (forgets_of_eq rfl rfl rfl).trans (forgets_cleanup _ c _)
  · exact forgets_of_eq rfl rfl rfl

theorem forgets_find (s : Registry) (fd : Int32) : Forgets s (s.find fd).2 := by
  unfold Registry.find
  split <;> exact forgets_of_eq rfl rfl rfl

theorem forgets_removeConn (s : Registry) (fd : Int32) : Forgets s (s.removeConn fd).2 := by
  rcases hfd : s.sockConnMap.lookup fd with _ | d
  · have ht : (s.removeConn fd).2.sockConnMap = s.sockConnMap ∧
        (s.removeConn fd).2.under = s.under ∧ (s.removeConn fd).2.mPeerEp = s.mPeerEp := by
      simp only [Registry.removeConn, SockMaps.remove, hfd, and_self]
    exact forgets_of_eq ht.1 ht.2.1 ht.2.2
  · have ht : (s.removeConn fd).2.sockConnMap = s.sockConnMap.erase fd ∧
        (s.removeConn fd).2.under = s.under ∧ (s.removeConn fd).2.mPeerEp = s.mPeerEp := by
      simp only [Registry.removeConn, SockMaps.remove, hfd]
      split_ifs <;> exact ⟨rfl, rfl, rfl⟩
    intro a c hc
    rw [ht.1] at hc
    rw [ht.2.1, ht.2.2]
    refine ⟨?_, rfl, rfl⟩
    by_cases ha : a = fd
    · rw [ha, AList.lookup_erase] at hc
      cases hc
    · rwa [AList.lookup_erase_ne ha] at hc

theorem forgets_removeInactive (s : Registry) : Forgets s s.removeInactive.2 := by
  have hfold : ∀ (es : List (UInt64 × Int32)) (r : ℕ × Registry),
      Forgets r.2 (es.foldl evictTurn r).2 := by
    intro es
    induction es with
    | nil => exact fun r => forgets_refl r.2
    | cons e es ih => exact fun r => (forgets_removeConn r.2 e.2).trans (ih _)
  exact hfold _ (0, s)

theorem forgets_addToRecvSelector (s : Registry) (fd : Int32) (ok : Bool) :
    Forgets s (s.addToRecvSelector fd ok).2 := by
  unfold Registry.addToRecvSelector
  split_ifs <;> exact forgets_of_eq rfl rfl rfl

theorem forgets_addToSendSelector (s : Registry) (fd : Int32) (ok : Bool) :
    Forgets s (s.addToSendSelector fd ok).2 := by
  unfold Registry.addToSendSelector
  split_ifs <;> exact forgets_of_eq rfl rfl rfl

/-- A selector takes the socket, or nothing changes. -/
theorem Keyed.addToRecvSelector (hs : s.Keyed) (fd : Int32) (ok : Bool) :
    (∃ t, s.addToRecvSelector fd ok = (.SUCCESS, t) ∧ t.Keyed)
      ∨ s.addToRecvSelector fd ok = (.NET_ERR_EPOLL, s) := by
  have hforgets := forgets_addToRecvSelector s fd ok
  rcases addToRecvSelector_cases s fd ok with ⟨-, h⟩ | h
  · rw [h] at hforgets
    exact .inl ⟨_, h, hs.forgets hforgets⟩
  · exact .inr h

theorem Keyed.addToSendSelector (hs : s.Keyed) (fd : Int32) (ok : Bool) :
    (∃ t, s.addToSendSelector fd ok = (.SUCCESS, t) ∧ t.Keyed)
      ∨ s.addToSendSelector fd ok = (.NET_ERR_EPOLL, s) := by
  have hforgets := forgets_addToSendSelector s fd ok
  rcases addToSendSelector_cases s fd ok with ⟨-, h⟩ | h
  · rw [h] at hforgets
    exact .inl ⟨_, h, hs.forgets hforgets⟩
  · exact .inr h

theorem forgets_recvHangUp (s : Registry) (fd : Int32) : Forgets s (s.recvHangUp fd) := by
  unfold Registry.recvHangUp
  have hfind := forgets_find s fd
  rcases hf : s.find fd with ⟨_ | c, t⟩ <;> rw [hf] at hfind
  · exact hfind.trans (forgets_of_eq rfl rfl rfl)
  · exact (hfind.trans (forgets_release t c)).trans (forgets_removeConn _ fd)

theorem forgets_sendEvent (s : Registry) (fd : Int32) (hangUp soError : Bool) :
    Forgets s (s.sendEvent fd hangUp soError) := by
  unfold Registry.sendEvent
  have hfind := forgets_find s fd
  rcases hf : s.find fd with ⟨_ | c, t⟩ <;> rw [hf] at hfind
  · exact hfind.trans (forgets_of_eq rfl rfl rfl)
  · have hrelease := hfind.trans (forgets_release t c)
    have hready : Forgets t (t.setState c .CONN_READY) := forgets_of_eq rfl rfl rfl
    dsimp only
    split_ifs
    · exact hrelease.trans (forgets_removeConn _ fd)
    · exact hrelease.trans (forgets_removeConn _ fd)
    · exact (hfind.trans hready).trans (forgets_release _ c)
    · exact hrelease

/-! ## A connection enters -/

/-- A new connection that is not in the map yet. -/
theorem forgets_newConn (h : s.Accounted none) :
    Forgets s s.newConn ∧ s.newConn.Unmapped s.nextConn := by
  have hne : ∀ {fd c}, s.sockConnMap.lookup fd = some c → c ≠ s.nextConn := fun hm heq =>
    absurd (h.mapped hm).1.1 (heq ▸ Nat.lt_irrefl _)
  exact ⟨fun fd c hm => ⟨hm, rfl, Function.update_of_ne (hne hm) _ _⟩, fun fd hm => hne hm rfl⟩

theorem forgets_connect (s : Registry) (c : ConnId) (o : Connecting) :
    Forgets s (s.connect c o).2 ∧ (s.connect c o).2.sockConnMap = s.sockConnMap := by
  unfold Registry.connect
  dsimp only
  split_ifs
  · exact ⟨forgets_refl s, rfl⟩
  · split <;> exact ⟨forgets_of_eq rfl rfl rfl, rfl⟩

/-- A connection that is not in the map enters it, under the text of the peer it gets. -/
theorem Keyed.enter (hs : s.Keyed) (hc : s.Unmapped c) (ep : EndPoint) (fd : Int32) :
    ((s.insert ep fd c).setPeerEp c ep).Keyed := by
  have hpeer : ∀ d, d ≠ c → ((s.insert ep fd c).setPeerEp c ep).mPeerEp d = s.mPeerEp d :=
    fun d hd => Function.update_of_ne hd _ _
  intro a d hd
  rcases hfd : s.sockConnMap.lookup fd with _ | d'
  · have ht : (s.insert ep fd c).sockConnMap = s.sockConnMap.insert fd c ∧
        (s.insert ep fd c).under = Function.update s.under fd ep.toHostPortStr := by
      simp [Registry.insert, SockMaps.insert, hfd]
    change (s.insert ep fd c).sockConnMap.lookup a = some d at hd
    change ∃ peer, _ ∧ _ = (s.insert ep fd c).under a
    rw [ht.1] at hd
    rw [ht.2]
    by_cases ha : a = fd
    · subst ha
      rw [AList.lookup_insert, Option.some.injEq] at hd
      subst hd
      exact ⟨ep, Function.update_self _ _ _, by rw [Function.update_self]⟩
    · rw [AList.lookup_insert_ne ha] at hd
      have hne : d ≠ c := fun heq => hc a (heq ▸ hd)
      rw [hpeer d hne, Function.update_of_ne ha]
      exact hs a d hd
  · have ht : s.insert ep fd c = s := by simp [Registry.insert, SockMaps.insert, hfd]
    rw [ht] at hd hpeer ⊢
    have hne : d ≠ c := fun heq => hc a (heq ▸ hd)
    rw [hpeer d hne]
    exact hs a d hd

theorem keyed_openConn (h : s.Accounted none) (hs : s.Keyed) (ep : EndPoint) (o : Connecting) :
    (s.openConn ep o).2.Keyed := by
  obtain ⟨hnew, hun⟩ := forgets_newConn h
  have hconnect := forgets_connect s.newConn s.nextConn o
  rcases hc : s.newConn.connect s.nextConn o with ⟨crc, t⟩
  rw [hc] at hconnect
  obtain ⟨hforgets, hmap⟩ := hconnect
  have ht : (t.setState s.nextConn crc).Keyed :=
    hs.forgets ((hnew.trans hforgets).trans (forgets_of_eq rfl rfl rfl))
  have htun : (t.setState s.nextConn crc).Unmapped s.nextConn := fun fd hm => hun fd (hmap ▸ hm)
  have henter := ht.enter htun ep o.sock
  unfold openConn
  simp only [hc]
  split_ifs
  · exact (hs.forgets (hnew.trans hforgets)).forgets (forgets_cleanup t _ _)
  · generalize ((t.setState s.nextConn crc).insert ep o.sock s.nextConn).setPeerEp s.nextConn ep
      = v at henter
    rcases henter.addToSendSelector o.sock o.sendOk with ⟨w, hsend, hw⟩ | hsend
    · rcases hw.addToRecvSelector o.sock o.recvOk with ⟨x, hrecv, hx⟩ | hrecv
      · simp only [hsend, hrecv]
        exact hx.forgets (forgets_of_eq rfl rfl rfl)
      · simp only [hsend, hrecv]
        exact hw.forgets (forgets_removeConn w o.sock)
    · simp only [hsend]
      exact henter.forgets (forgets_removeConn v o.sock)

theorem keyed_addConn (h : s.Accounted none) (hs : s.Keyed) (ep : EndPoint) (fd : Int32)
    (recvOk sendOk : Bool) :
    (s.newConn.addConn s.nextConn ep fd recvOk sendOk).2.Keyed := by
  obtain ⟨hnew, hun⟩ := forgets_newConn h
  have hfind := forgets_find s.newConn fd
  unfold addConn
  rcases hf : s.newConn.find fd with ⟨_ | c, t⟩ <;> rw [hf] at hfind
  · obtain ⟨-, rfl⟩ := find_none hf
    have ht : ((s.newConn.setup s.nextConn fd).setState s.nextConn .CONN_READY).Keyed :=
      hs.forgets (hnew.trans (forgets_of_eq rfl rfl rfl))
    have henter : ((((s.newConn.setup s.nextConn fd).setState s.nextConn .CONN_READY).setPeerEp
        s.nextConn ep).insert ep fd s.nextConn).Keyed := ht.enter hun ep fd
    dsimp only
    generalize (((s.newConn.setup s.nextConn fd).setState s.nextConn .CONN_READY).setPeerEp
      s.nextConn ep).insert ep fd s.nextConn = v at henter
    rcases henter.addToRecvSelector fd recvOk with ⟨w, hrecv, hw⟩ | hrecv
    · rcases hw.addToSendSelector fd sendOk with ⟨x, hsend, hx⟩ | hsend
      · simp only [hrecv, hsend]
        exact hx
      · simp only [hrecv, hsend]
        exact hw.forgets (forgets_removeConn w fd)
    · simp only [hrecv]
      exact henter.forgets (forgets_removeConn v fd)
  · exact (hs.forgets ((hnew.trans hfind).trans (forgets_release t c))).forgets
      (forgets_cleanup _ _ _)

/-! ## Runs -/

theorem keyed_call (h : s.Accounted none) (hs : s.Keyed) {l : NetCall}
    (ht : s.call l = some t) : t.Keyed := by
  cases l with
  | getConn ep serverSide sock o =>
    rcases h.getConn ep serverSide sock o with ⟨fd, c, hg, -, -⟩ | ⟨-, hg⟩
    · rw [call, hg, Option.map_some, Option.some.injEq] at ht
      exact ht ▸ hs.forgets (forgets_of_eq rfl rfl rfl)
    · cases serverSide <;> simp only [Bool.false_eq_true, if_false, if_true] at hg
      · rw [call, hg, Option.map_some, Option.some.injEq] at ht
        exact ht ▸ keyed_openConn h hs ep o
      · obtain ⟨e, hg⟩ := hg
        rw [call, hg, Option.map_some, Option.some.injEq] at ht
        exact ht ▸ hs
  | acceptTurn a =>
    obtain rfl := Option.some.inj ht
    cases a with
    | again | otherError => exact hs
    | noFd => exact hs.forgets (forgets_removeInactive s)
    | sock fd ep recvOk sendOk => exact keyed_addConn h hs ep fd recvOk sendOk
  | delConn ep =>
    rcases h.findEp ep with ⟨hf, -⟩ | ⟨fd, c, hf, hm, -⟩
    · simp only [call, Registry.delConn, hf] at ht
      cases ht
      exact hs
    · simp only [call, Registry.delConn, hf] at ht
      cases ht
      exact (hs.forgets (forgets_of_eq rfl rfl rfl)).forgets
        ((forgets_release (s.acquire c) c).trans (forgets_removeConn _ _))
  | find fd =>
    obtain rfl := Option.some.inj ht
    exact hs.forgets (forgets_find s fd)
  | release c =>
    obtain rfl := Option.some.inj ht
    exact hs.forgets (forgets_release s c)
  | removeConn fd =>
    obtain rfl := Option.some.inj ht
    exact hs.forgets (forgets_removeConn s fd)
  | removeInactive =>
    obtain rfl := Option.some.inj ht
    exact hs.forgets (forgets_removeInactive s)
  | recvHangUp fd =>
    obtain rfl := Option.some.inj ht
    exact hs.forgets (forgets_recvHangUp s fd)
  | sendEvent fd hangUp soError =>
    obtain rfl := Option.some.inj ht
    exact hs.forgets (forgets_sendEvent s fd hangUp soError)
  | addToRecvSelector fd ok =>
    obtain rfl := Option.some.inj ht
    exact hs.forgets (forgets_addToRecvSelector s fd ok)
  | updateActSn c =>
    obtain rfl := Option.some.inj ht
    exact hs.forgets (forgets_of_eq rfl rfl rfl)

theorem keyed_of_run {calls : List NetCall} (hr : registry.run {} calls = some s) :
    s.Accounted none ∧ s.Keyed := by
  refine registry.run_inv_of_step (I := fun s => s.Accounted none ∧ s.Keyed)
    (fun s l t hs hstep => ?_) calls ⟨accounted_start, fun fd c hm => by simp at hm⟩ hr
  simp only [registry] at hstep
  split_ifs at hstep with he
  obtain ⟨u, hu, hacc⟩ := accounted_call hs.1 he
  obtain rfl : u = t := Option.some.inj (hu.symm.trans hstep)
  exact ⟨hacc, keyed_call hs.1 hs.2 hu⟩

/-- Under the text of an end point are connections to its host and port. -/
theorem Peered.peer (hs : s.Peered) (h : s.Accounted none) {fd : Int32}
    (hm : s.sockConnMap.lookup fd = some c) (hin : s.InSet ep.toHostPortStr fd) :
    ∃ peer, s.mPeerEp c = some peer ∧ peer.mHostName.str = ep.mHostName.str
      ∧ peer.mPort = ep.mPort := by
  obtain ⟨peer, hpeer, set, hset, hfd⟩ := hs fd c hm
  obtain ⟨set', hset', hfd'⟩ := hin
  exact ⟨peer, hpeer, toHostPortStr_inj
    ((h.maps.unique fd _ set hset hfd).trans (h.maps.unique fd _ set' hset' hfd').symm)⟩

/-- In every state a run of calls reaches, what `getConn` gives out for an end point is a connection
whose peer has that host name and that port; or it was asked for a socket, and gives out the
connection that is in the map with it. -/
theorem getConn_peer_of_run {calls : List NetCall} (hr : registry.run {} calls = some s)
    (ep : EndPoint) (serverSide : Bool) (sock : Int32) {o : Connecting}
    (ho : o.sock = -1 ∨ s.Fresh o.sock) :
    ∃ r t, s.getConn ep serverSide sock o = some (r, t) ∧ t.Peered ∧ ∀ c, r = .ok c →
      (∃ peer, t.mPeerEp c = some peer ∧ peer.mHostName.str = ep.mHostName.str
        ∧ peer.mPort = ep.mPort) ∨ sock ≠ -1 ∧ s.sockConnMap.lookup sock = some c := by
  obtain ⟨h, hkeyed⟩ := keyed_of_run hr
  have hs := hkeyed.peered h
  rcases h.getConn ep serverSide sock o with ⟨fd, c, hg, hm, hfd⟩ | ⟨-, hg⟩
  · have hacq : (s.acquire c).Keyed := hkeyed.forgets (forgets_of_eq rfl rfl rfl)
    refine ⟨_, _, hg, hacq.peered (h.acquire_mapped hm), fun d hd => ?_⟩
    obtain rfl : c = d := Except.ok.inj hd
    split_ifs at hfd with hsock
    · exact .inl (hs.peer h hm hfd)
    · exact .inr ⟨hsock, hfd ▸ hm⟩
  · cases serverSide <;> simp only [Bool.false_eq_true, if_false, if_true] at hg
    · have ht := keyed_openConn h hkeyed ep o
      rcases openConn_spec h ep ho with ⟨e, he, hgone⟩ | ⟨hok, hopen⟩
      · exact ⟨_, _, hg, ht.peered hgone.accounted, fun d hd =>
          absurd (he.symm.trans hd) (by simp)⟩
      · have hpeered := ht.peered hopen.accounted
        refine ⟨_, _, hg, hpeered, fun d hd => .inl ?_⟩
        obtain rfl : s.nextConn = d := Except.ok.inj (hok.symm.trans hd)
        exact hpeered.peer hopen.accounted hopen.lookup hopen.inSet
    · obtain ⟨e, hg⟩ := hg
      exact ⟨_, _, hg, hs, fun d hd => absurd hd (by simp)⟩

theorem getConn_peer_of_run_sample : ∃ s, registry.run {} sampleCalls = some s ∧
    ∃ r t, s.getConn samplePeer false (-1) ⟨7, .SUCCESS, true, true⟩ = some (r, t) ∧ t.Peered ∧
      ∀ c, r = .ok c → (∃ peer, t.mPeerEp c = some peer ∧
        peer.mHostName.str = samplePeer.mHostName.str ∧ peer.mPort = samplePeer.mPort) ∨
        (-1 : Int32) ≠ -1 ∧ s.sockConnMap.lookup (-1) = some c := by
  obtain ⟨s, hs, hfresh⟩ : ∃ s, registry.run {} sampleCalls = some s ∧ s.Fresh 7 :=
    ⟨_, rfl, by decide⟩
  exact ⟨s, hs, getConn_peer_of_run hs samplePeer false (-1) (.inr hfresh)⟩

end Registry

end Longda
