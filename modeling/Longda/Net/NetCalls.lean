import Longda.Net.Accounted

/-!
# Opening and looking up a connection

A new connection is made, entered into the map under its end point and given to the selectors, and
where one of these fails it is given up. `openConn` and `addConn` end either way (`openConn_spec`,
`addConn_spec`); what is given up leaves no descriptor, no reference and no entry of the maps that
was not there before (`GivenUp.sameAs`).
-/

namespace Longda

open Lib

namespace Registry

variable {s t : Registry} {c : ConnId} {sock : Int32}

theorem neg_one : (-1 : Int32) = DISCONNECTED := rfl

/-! ## Opening a connection -/

/-- The two states differ in the connection `c` and the entries of its socket at most. -/
structure Beside (c : ConnId) (sock : Int32) (s t : Registry) : Prop where
  lookup : ∀ a, a ≠ sock → t.sockConnMap.lookup a = s.sockConnMap.lookup a
  sets : ∀ k a, a ≠ sock → (t.InSet k a ↔ s.InSet k a)
  isOpen : ∀ a, a ≠ sock → t.isOpen a = s.isOpen a
  refs : t.refs = s.refs
  others : ∀ d, d ≠ c → t.conns d = s.conns d ∧ t.mSock d = s.mSock d ∧ (t.Live d ↔ s.Live d)

theorem Beside.trans {u : Registry} (h : Beside c sock s t) (h' : Beside c sock t u) :
    Beside c sock s u where
  lookup a ha := (h'.lookup a ha).trans (h.lookup a ha)
  sets k a ha := (h'.sets k a ha).trans (h.sets k a ha)
  isOpen a ha := (h'.isOpen a ha).trans (h.isOpen a ha)
  refs := h'.refs.trans h.refs
  others d hd := by
    obtain ⟨hc, hm, hl⟩ := h.others d hd
    obtain ⟨hc', hm', hl'⟩ := h'.others d hd
    exact ⟨hc'.trans hc, hm'.trans hm, hl'.trans hl⟩

theorem beside_newConn (s : Registry) (sock : Int32) : Beside s.nextConn sock s s.newConn where
  lookup _ _ := rfl
  sets _ _ _ := Iff.rfl
  isOpen _ _ := rfl
  refs := rfl
  others d hd := by
    refine ⟨Function.update_of_ne hd _ _, Function.update_of_ne hd _ _, ?_⟩
    have hdel : s.newConn.deleted d = s.deleted d := Function.update_of_ne hd _ _
    rw [Live, Live, hdel]
    exact and_congr_left fun _ => ⟨fun h => lt_of_le_of_ne (Nat.lt_succ_iff.1 h) hd,
      Nat.lt_succ_of_lt⟩

theorem beside_setup (s : Registry) (c : ConnId) (sock : Int32) :
    Beside c sock s (s.setup c sock) where
  lookup _ _ := rfl
  sets _ _ _ := Iff.rfl
  isOpen _ ha := Function.update_of_ne ha _ _
  refs := rfl
  others _ hd := ⟨rfl, Function.update_of_ne hd _ _, Iff.rfl⟩

theorem beside_setRefs (s : Registry) (c : ConnId) (sock : Int32) (r : ConnRefs) :
    Beside c sock s (s.setRefs c r) where
  lookup _ _ := rfl
  sets _ _ _ := Iff.rfl
  isOpen _ _ := rfl
  refs := rfl
  others _ hd := ⟨Function.update_of_ne hd _ _, rfl, Iff.rfl⟩

theorem beside_teardown (hs : s.mSock c = sock) : Beside c sock s (s.teardown c) where
  lookup _ _ := rfl
  sets _ _ _ := Iff.rfl
  isOpen a ha := by
    rw [← hs] at ha
    exact Function.update_of_ne ha _ _
  refs := rfl
  others d hd := by
    have hdel : (s.teardown c).deleted d = s.deleted d := Function.update_of_ne hd _ _
    exact ⟨rfl, Function.update_of_ne hd _ _, by rw [Live, Live, hdel]; exact Iff.rfl⟩

/-- A cleanup of a connection that nobody refers to deletes it. -/
theorem beside_cleanup (hs : s.mSock c = sock) (hr : s.conns c = {}) (how : CleanupT) :
    Beside c sock s (s.cleanup c how) ∧ (s.cleanup c how).deleted c = true := by
  have hbusy : ¬ (s.conns c).mRefCount > 0 := by simp [hr]
  simp only [Registry.cleanup, ConnRefs.cleanup, hbusy, if_false, if_true]
  exact ⟨(beside_setRefs s c sock _).trans (beside_teardown hs), Function.update_self _ _ _⟩

theorem beside_insert (hfree : s.sockConnMap.lookup sock = none) (ep : EndPoint) :
    Beside c sock s (s.insert ep sock c) := by
  have heq : s.insert ep sock c = { s with
      sockConnMap := s.sockConnMap.insert sock c
      epSockMap := SockMaps.addSock s.epSockMap ep.toHostPortStr sock
      under := Function.update s.under sock ep.toHostPortStr } := by
    simp only [Registry.insert, SockMaps.insert, hfree, ne_eq, not_true_eq_false, if_false]
  rw [heq]
  refine ⟨fun a ha => AList.lookup_insert_ne ha, fun k a ha => ⟨?_, ?_⟩, fun _ _ => rfl, rfl,
    fun _ _ => ⟨rfl, rfl, Iff.rfl⟩⟩
  · rintro ⟨set, hset, hmem⟩
    rcases SockMaps.mem_of_lookup_addSock hset hmem with ⟨has, -⟩ | ⟨old, hold, hin⟩
    · exact absurd has ha
    · exact ⟨old, hold, hin⟩
  · rintro ⟨old, hold, hin⟩
    by_cases hk : k = ep.toHostPortStr
    · refine ⟨SockSet.insert sock old, ?_, SockSet.mem_insert.2 (.inr hin)⟩
      simp only [SockMaps.lookup_addSock, ← hk, hold, Option.getD_some, if_true]
    · refine ⟨old, ?_, hin⟩
      simp only [SockMaps.lookup_addSock, if_neg hk, hold]

theorem beside_removeConn (hm : s.sockConnMap.lookup sock = some c) (hs : s.mSock c = sock)
    (hr : s.conns c = {}) :
    Beside c sock s (s.removeConn sock).2 ∧ (s.removeConn sock).2.deleted c = true := by
  obtain ⟨-, hrem⟩ := SockMaps.remove_mapped hm
  have hidle : ((s.conns c).cleanup .ON_ERROR).1 = true := by simp [hr, ConnRefs.cleanup]
  have hdrop : Beside c sock s { s with toSockMaps := (s.toSockMaps.remove sock).2 } := by
    refine ⟨fun a ha => ?_, fun k a ha => ?_, fun _ _ => rfl, rfl, fun d hd => ⟨?_, rfl, Iff.rfl⟩⟩
    · rw [hrem.lookup, if_neg (by simpa using ha)]
    · exact hrem.sets k a (by simpa using ha)
    · rw [hrem.conns, if_neg]
      rintro ⟨a, ha, had⟩
      rw [List.mem_singleton.1 ha, hm] at had
      exact hd (Option.some.inj had).symm
  simp only [Registry.removeConn, hm, hidle, if_true]
  exact ⟨hdrop.trans (beside_teardown hs), Function.update_self _ _ _⟩

/-- A connection given up before anybody got it: it is deleted, and all else is as before. -/
structure GivenUp (c : ConnId) (sock : Int32) (s t : Registry) : Prop where
  accounted : t.Accounted none
  beside : Beside c sock s t
  deleted : t.deleted c = true

theorem Made.giveUp (h : s.Made c) (hs : s.mSock c = sock) (how : CleanupT) :
    GivenUp c sock s (s.cleanup c how) :=
  ⟨h.cleanup how, (beside_cleanup hs h.refs how).1, (beside_cleanup hs h.refs how).2⟩

theorem Put.giveUp (h : s.Put c) (hs : s.mSock c = sock) :
    GivenUp c sock s (s.removeConn sock).2 := by
  subst hs
  obtain ⟨hbeside, hdel⟩ := beside_removeConn h.lookup rfl h.refs
  exact ⟨h.removeConn, hbeside, hdel⟩

theorem Beside.giveUp {u : Registry} (h : Beside c sock s t) (h' : GivenUp c sock t u) :
    GivenUp c sock s u :=
  ⟨h'.accounted, h.trans h'.beside, h'.deleted⟩

/-- Where `openConn` stands after `connect`. -/
theorem made_connect (h : s.Accounted none) {o : Connecting}
    (ho : o.sock = -1 ∨ s.Fresh o.sock) :
    (s.newConn.connect s.nextConn o).2.Made s.nextConn ∧
      (s.newConn.connect s.nextConn o).2.mSock s.nextConn = o.sock ∧
      Beside s.nextConn o.sock s (s.newConn.connect s.nextConn o).2 := by
  have hmade := h.made
  have hnew : s.newConn.mSock s.nextConn = DISCONNECTED := Function.update_self _ _ _
  have hbeside := beside_newConn s o.sock
  unfold connect
  split_ifs with hneg
  · rcases ho with ho | ho
    · exact ⟨hmade, by rw [ho, hnew, neg_one], hbeside⟩
    · exact absurd hneg (Int32.not_lt.2 ho.1)
  · have hfresh : s.newConn.Fresh o.sock := by
      rcases ho with ho | ho
      · rw [ho] at hneg
        exact absurd (by decide) hneg
      · exact ho
    have hset : (s.newConn.setup s.nextConn o.sock).Made s.nextConn ∧
        (s.newConn.setup s.nextConn o.sock).mSock s.nextConn = o.sock ∧
        Beside s.nextConn o.sock s (s.newConn.setup s.nextConn o.sock) :=
      ⟨hmade.setup hnew hfresh, Function.update_self _ _ _,
        hbeside.trans (beside_setup s.newConn s.nextConn o.sock)⟩
    rcases o.connectTo with _ | _ | _ <;> exact hset

theorem insert_inSet (hfree : s.sockConnMap.lookup sock = none) (ep : EndPoint) :
    (s.insert ep sock c).InSet ep.toHostPortStr sock := by
  refine ⟨SockSet.insert sock ((s.epSockMap.lookup ep.toHostPortStr).getD []), ?_,
    SockSet.mem_insert.2 (.inl rfl)⟩
  simp only [Registry.insert, SockMaps.insert, hfree, ne_eq, not_true_eq_false, if_false,
    SockMaps.lookup_addSock, if_true]

theorem Made.setState (h : s.Made c) (state : ConnState) : (s.setState c state).Made c :=
  ⟨{ h.accounted with }, h.live, h.unmapped, h.refs⟩

theorem Made.setPeerEp (h : s.Made c) (ep : EndPoint) : (s.setPeerEp c ep).Made c :=
  ⟨{ h.accounted with }, h.live, h.unmapped, h.refs⟩

theorem Put.setPeerEp (h : s.Put c) (ep : EndPoint) : (s.setPeerEp c ep).Put c :=
  ⟨{ h.accounted with }, h.lookup, h.refs⟩

/-- The connection has come into the map under its end point. -/
structure Entered (c : ConnId) (sock : Int32) (ep : EndPoint) (s t : Registry) : Prop where
  put : t.Put c
  mSock : t.mSock c = sock
  beside : Beside c sock s t
  inSet : t.InSet ep.toHostPortStr sock

theorem Made.enter (h : t.Made c) (hs : t.mSock c = sock) (hb : Beside c sock s t)
    (ep : EndPoint) : Entered c sock ep s (t.insert ep sock c) := by
  subst hs
  have hfree := h.lookup
  refine ⟨h.put ep, ?_, hb.trans (beside_insert hfree ep), insert_inSet hfree ep⟩
  simp only [Registry.insert]

variable {ep : EndPoint} {u : Registry}

theorem Entered.setPeerEp (h : Entered c sock ep s t) (peer : EndPoint) :
    Entered c sock ep s (t.setPeerEp c peer) :=
  ⟨h.put.setPeerEp peer, h.mSock, { h.beside with }, h.inSet⟩

theorem Entered.addToSendSelector (h : Entered c sock ep s t) (ok : Bool) :
    (∃ u, t.addToSendSelector sock ok = (.SUCCESS, u) ∧ Entered c sock ep s u ∧
        u.isOpen sock = true ∧ u.sendEpfd sock = true ∧ u.recvEpfd = t.recvEpfd) ∨
      t.addToSendSelector sock ok = (.NET_ERR_EPOLL, t) := by
  rcases addToSendSelector_cases t sock ok with ⟨ho, heq⟩ | heq
  · exact .inl ⟨_, heq, ⟨h.put.addSend ho, h.mSock, { h.beside with }, h.inSet⟩, ho,
      Function.update_self _ _ _, rfl⟩
  · exact .inr heq

theorem Entered.addToRecvSelector (h : Entered c sock ep s t) (ok : Bool) :
    (∃ u, t.addToRecvSelector sock ok = (.SUCCESS, u) ∧ Entered c sock ep s u ∧
        u.isOpen sock = true ∧ u.recvEpfd sock = true ∧ u.sendEpfd = t.sendEpfd) ∨
      t.addToRecvSelector sock ok = (.NET_ERR_EPOLL, t) := by
  rcases addToRecvSelector_cases t sock ok with ⟨ho, heq⟩ | heq
  · exact .inl ⟨_, heq, ⟨h.put.addRecv ho, h.mSock, { h.beside with }, h.inSet⟩, ho,
      Function.update_self _ _ _, rfl⟩
  · exact .inr heq

theorem Entered.giveUp (h : Entered c sock ep s t) : GivenUp c sock s (t.removeConn sock).2 :=
  h.beside.giveUp (h.put.giveUp h.mSock)

/-- The connection is in the map under its end point and polled, with the references `refs`. -/
structure Opened (c : ConnId) (sock : Int32) (ep : EndPoint) (refs : List ConnId)
    (s t : Registry) : Prop where
  accounted : t.Accounted none
  lookup : t.sockConnMap.lookup sock = some c
  inSet : t.InSet ep.toHostPortStr sock
  sets : ∀ k a, a ≠ sock → (t.InSet k a ↔ s.InSet k a)
  refs : t.refs = refs

/-- A connection that both selectors took is as good as any other. -/
theorem Entered.opened (h : Entered c sock ep s t) (ho : t.isOpen sock = true)
    (hr : t.recvEpfd sock = true) (hw : t.sendEpfd sock = true) : Opened c sock ep s.refs s t := by
  obtain ⟨hput, rfl, hb, hin⟩ := h
  have hne : t.mSock c ≠ DISCONNECTED := fun heq => by
    rw [heq, hput.accounted.closed] at ho
    cases ho
  exact ⟨hput.settle hne hr hw, hput.lookup, hin, hb.sets, hb.refs⟩

theorem Opened.acquire {refs : List ConnId} (h : Opened c sock ep refs s t) :
    Opened c sock ep (c :: refs) s (t.acquire c) := by
  obtain ⟨hacc, hm, hin, hsets, rfl⟩ := h
  obtain ⟨hl, rfl, -⟩ := hacc.mapped hm
  exact ⟨hacc.acquire (by simp) hl (hacc.ne_disconnected hm (by simp)) hm
    (hacc.polled hm (by simp)), hm, hin, hsets, rfl⟩

/-- `openConn` gives the new connection to its caller, or gives it up. -/
theorem openConn_spec (h : s.Accounted none) (ep : EndPoint) {o : Connecting}
    (ho : o.sock = -1 ∨ s.Fresh o.sock) :
    (∃ e, (s.openConn ep o).1 = .error e ∧
        GivenUp s.nextConn o.sock s (s.openConn ep o).2) ∨
      ((s.openConn ep o).1 = .ok s.nextConn ∧
        Opened s.nextConn o.sock ep (s.nextConn :: s.refs) s (s.openConn ep o).2) := by
  obtain ⟨hmade, hs, hb⟩ := made_connect h ho
  rcases hc : s.newConn.connect s.nextConn o with ⟨crc, t⟩
  rw [hc] at hmade hs hb
  simp only at hmade hs hb
  unfold openConn
  simp only [hc]
  split_ifs with hcrc
  · exact .inl ⟨_, rfl, hb.giveUp (hmade.giveUp hs _)⟩
  · have henter := ((hmade.setState crc).enter hs { hb with } ep).setPeerEp ep
    rcases henter.addToSendSelector o.sendOk with ⟨u, hu, hsend, -, hw, -⟩ | hu
    · rcases hsend.addToRecvSelector o.recvOk with ⟨v, hv, hrecv, hopen, hr, hsame⟩ | hv
      · simp only [hu, hv]
        exact .inr ⟨trivial, (hrecv.opened hopen hr (by rw [hsame, hw])).acquire⟩
      · simp only [hu, hv]
        exact .inl ⟨_, rfl, hsend.giveUp⟩
    · simp only [hu]
      exact .inl ⟨_, rfl, henter.giveUp⟩

/-- A connection just accepted enters the map, or is given up. -/
theorem addConn_spec (h : s.Accounted none) (ep : EndPoint) (hf : s.Fresh sock)
    (recvOk sendOk : Bool) :
    (∃ e, (s.newConn.addConn s.nextConn ep sock recvOk sendOk).1 = .error e ∧
        GivenUp s.nextConn sock s (s.newConn.addConn s.nextConn ep sock recvOk sendOk).2) ∨
      ((s.newConn.addConn s.nextConn ep sock recvOk sendOk).1 = .ok () ∧
        Opened s.nextConn sock ep s.refs s
          (s.newConn.addConn s.nextConn ep sock recvOk sendOk).2) := by
  have hmade := h.made.setup (Function.update_self _ _ _) (show s.newConn.Fresh sock from hf)
  have hfree : s.newConn.sockConnMap.lookup sock = none := by
    have := hmade.lookup
    rwa [show (s.newConn.setup s.nextConn sock).mSock s.nextConn = sock from
      Function.update_self _ _ _] at this
  have hfind : s.newConn.find sock = (none, s.newConn) := by simp only [Registry.find, hfree]
  have hb := (beside_newConn s sock).trans (beside_setup s.newConn s.nextConn sock)
  have henter := ((hmade.setState .CONN_READY).setPeerEp ep).enter
    (show _ = sock from Function.update_self _ _ _) (s := s) { hb with } ep
  unfold addConn
  simp only [hfind]
  rcases henter.addToRecvSelector recvOk with ⟨u, hu, hrecv, -, hr, -⟩ | hu
  · rcases hrecv.addToSendSelector sendOk with ⟨v, hv, hsend, hopen, hw, hsame⟩ | hv
    · simp only [hu, hv]
      exact .inr ⟨trivial, hsend.opened hopen (by rw [hsame, hr]) hw⟩
    · simp only [hu, hv]
      exact .inl ⟨_, rfl, hrecv.giveUp⟩
  · simp only [hu]
    exact .inl ⟨_, rfl, henter.giveUp⟩

/-! ## What a failure leaves -/

/-- The states differ in deleted connections at most. -/
structure SameAs (s t : Registry) : Prop where
  lookup : ∀ a, t.sockConnMap.lookup a = s.sockConnMap.lookup a
  sets : ∀ k a, t.InSet k a ↔ s.InSet k a
  isOpen : ∀ a, t.isOpen a = s.isOpen a
  refs : t.refs = s.refs
  live : ∀ d, t.Live d ↔ s.Live d
  conns : ∀ d, s.Live d → t.conns d = s.conns d ∧ t.mSock d = s.mSock d

theorem sameAs_refl (s : Registry) : SameAs s s :=
  ⟨fun _ => rfl, fun _ _ => Iff.rfl, fun _ => rfl, rfl, fun _ => Iff.rfl, fun _ _ => ⟨rfl, rfl⟩⟩

theorem Accounted.not_inSet {p : Option ConnId} (h : s.Accounted p)
    (hm : s.sockConnMap.lookup sock = none) (k : Path) : ¬ s.InSet k sock := by
  rintro ⟨set, hset, hin⟩
  exact h.maps.not_mem hm hset hin

/-- A connection given up leaves nothing of itself. -/
theorem GivenUp.sameAs (h : s.Accounted none) (hsock : sock = -1 ∨ s.Fresh sock)
    (hg : GivenUp s.nextConn sock s t) : SameAs s t := by
  have hclosed : s.isOpen sock = false := by
    rcases hsock with rfl | hf
    · exact h.closed
    · exact hf.2
  have hnew : ¬ s.Live s.nextConn := fun hl => Nat.lt_irrefl _ hl.1
  have hgone : ¬ t.Live s.nextConn := fun hl => by
    rw [Live, hg.deleted] at hl
    cases hl.2
  -- a connection that is left had its socket before
  have hother : ∀ {d}, t.Live d → t.mSock d = s.mSock d ∧ s.Live d := fun {d} hd => by
    have hne : d ≠ s.nextConn := fun heq => hgone (heq ▸ hd)
    exact ⟨(hg.beside.others d hne).2.1, (hg.beside.others d hne).2.2.1 hd⟩
  have hopen : t.isOpen sock = false := by
    by_contra ho
    obtain ⟨d, hd, rfl⟩ := hg.accounted.owned (Bool.eq_true_of_not_eq_false ho)
    obtain ⟨heq, hl⟩ := hother hd
    have hs := (hg.accounted.kept hd (by simp)).1
    rw [heq] at hs hclosed
    rw [h.opened hl hs] at hclosed
    cases hclosed
  have hfree : ∀ {v : Registry}, v.Accounted none → v.isOpen sock = false →
      v.sockConnMap.lookup sock = none := fun {v} hv hc => by
    by_contra hm
    obtain ⟨d, hm⟩ := Option.ne_none_iff_exists'.1 hm
    obtain ⟨hl, rfl, -⟩ := hv.mapped hm
    rw [hv.opened hl (hv.kept hl (by simp)).1] at hc
    cases hc
  have hs := hfree h hclosed
  have ht := hfree hg.accounted hopen
  refine ⟨fun a => ?_, fun k a => ?_, fun a => ?_, hg.beside.refs, fun d => ?_, fun d hd => ?_⟩
  · by_cases ha : a = sock
    · rw [ha, hs, ht]
    · exact hg.beside.lookup a ha
  · by_cases ha : a = sock
    · rw [ha]
      exact iff_of_false (hg.accounted.not_inSet ht k) (h.not_inSet hs k)
    · exact hg.beside.sets k a ha
  · by_cases ha : a = sock
    · rw [ha, hopen, hclosed]
    · exact hg.beside.isOpen a ha
  · by_cases hd : d = s.nextConn
    · rw [hd]
      exact iff_of_false hgone hnew
    · exact (hg.beside.others d hd).2.2
  · have hne : d ≠ s.nextConn := fun heq => hnew (heq ▸ hd)
    exact ⟨(hg.beside.others d hne).1, (hg.beside.others d hne).2.1⟩

/-! ## Looking a connection up -/

/-- What is acquired and released again is as before, where nobody cleans it up. -/
theorem release_acquire (h : (s.conns c).mCleaning = false) : (s.acquire c).release c = s := by
  have hrel : (((s.acquire c).conns c).release).1 = false := by
    simp [Registry.acquire, setRefs, ConnRefs.acquire, ConnRefs.release, h]
  have hconns : Function.update (Function.update s.conns c (s.conns c).acquire) c
      ((s.conns c).acquire.release).2 = s.conns := by
    rw [Function.update_idem]
    refine Function.update_eq_self_iff.2 ?_
    simp [ConnRefs.acquire, ConnRefs.release]
  unfold Registry.release
  simp only [hrel, Bool.false_eq_true, if_false]
  simp only [Registry.acquire, setRefs, Function.update_self, hconns, List.erase_cons_head]

theorem Accounted.listSock (h : s.Accounted none) (sock : Int32) : s.listSock sock = s := by
  unfold Registry.listSock
  rcases hf : s.find sock with ⟨_ | c, t⟩
  · unfold Registry.find at hf
    rcases hm : s.sockConnMap.lookup sock with _ | d <;> rw [hm] at hf <;> cases hf
    rfl
  · obtain ⟨hm, rfl⟩ := find_some hf
    exact release_acquire (h.mapped hm).2.2

/-- Printing the connections changes nothing. -/
theorem Accounted.list (h : s.Accounted none) : s.list = s := by
  have hset : ∀ socks : List Int32, socks.foldl Registry.listSock s = s := fun socks => by
    induction socks with
    | nil => rfl
    | cons a socks ih => rw [List.foldl_cons, h.listSock, ih]
  unfold Registry.list
  induction s.epSockMap.entries with
  | nil => rfl
  | cons e es ih => rw [List.foldl_cons, hset, ih]

theorem find_none {t : Registry} (h : s.find sock = (none, t)) :
    s.sockConnMap.lookup sock = none ∧ t = s := by
  unfold Registry.find at h
  rcases hm : s.sockConnMap.lookup sock with _ | d <;> rw [hm] at h <;> cases h
  exact ⟨rfl, rfl⟩

/-- `find` by end point finds nothing, or a connection under the end point. -/
theorem Accounted.findEp (h : s.Accounted none) (ep : EndPoint) :
    (s.findEp ep = some (none, s) ∧ ∀ sock, ¬ s.InSet ep.toHostPortStr sock) ∨
      ∃ sock c, s.findEp ep = some (some c, s.acquire c) ∧
        s.sockConnMap.lookup sock = some c ∧ s.InSet ep.toHostPortStr sock := by
  rcases hk : s.epSockMap.lookup ep.toHostPortStr with _ | _ | ⟨sock, rest⟩
  · refine .inl ⟨by simp only [Registry.findEp, hk], ?_⟩
    rintro sock ⟨set, hset, -⟩
    rw [hk] at hset
    cases hset
  · exact absurd rfl (h.maps.nonempty _ _ hk)
  · obtain ⟨c, hc⟩ := h.maps.mapped sock _ _ hk List.mem_cons_self
    refine .inr ⟨sock, c, ?_, hc, _, hk, List.mem_cons_self⟩
    simp only [Registry.findEp, hk, List.head?_cons, Option.map_some, Registry.find, hc]

end Registry

end Longda
