import Longda.Net.Registry
import Longda.Net.RemoveInactive

/-!
# Every connection is accounted for

`Accounted` says what holds of the connections of a `Net` between two calls: each is in the map
under its own socket and polled by both epoll threads, or is being cleaned up and kept by a
reference that is still out; each open descriptor is that of one connection; and each connection
counts the references that are out. While a call makes or drops a connection it holds of the others
(`Accounted (some c)`), and the calls are put together from the lemmas about one connection.
-/

namespace Longda

open Lib

namespace Registry

/-- What holds of every connection but `p`, of which only the last steps are still to be taken. -/
structure Accounted (p : Option ConnId) (s : Registry) : Prop where
  maps : s.Rep
  mapped : ∀ {sock c}, s.sockConnMap.lookup sock = some c →
    s.Live c ∧ s.mSock c = sock ∧ (s.conns c).mCleaning = false
  polled : ∀ {sock c}, s.sockConnMap.lookup sock = some c → c ∉ p →
    s.recvEpfd sock = true ∧ s.sendEpfd sock = true
  kept : ∀ {c}, s.Live c → c ∉ p → s.mSock c ≠ DISCONNECTED ∧
    (s.sockConnMap.lookup (s.mSock c) = some c ∨
      (s.conns c).mCleaning = true ∧ 0 < (s.conns c).mRefCount)
  counted : ∀ c, (s.conns c).mRefCount = s.refs.count c
  held : ∀ {c}, c ∈ s.refs → s.Live c
  owned : ∀ {sock}, s.isOpen sock = true → ∃ c, s.Live c ∧ s.mSock c = sock
  opened : ∀ {c}, s.Live c → s.mSock c ≠ DISCONNECTED → s.isOpen (s.mSock c) = true
  closed : s.isOpen DISCONNECTED = false
  distinct : ∀ {c d}, s.Live c → s.Live d → s.mSock c ≠ DISCONNECTED → s.mSock c = s.mSock d →
    c = d
  recvOpen : ∀ {sock}, s.recvEpfd sock = true → s.isOpen sock = true
  sendOpen : ∀ {sock}, s.sendEpfd sock = true → s.isOpen sock = true

variable {s : Registry} {p : Option ConnId} {c : ConnId} {sock : Int32} {r : ConnRefs}

theorem accounted_start : ({} : Registry).Accounted none where
  maps := SockMaps.rep_start
  mapped h := by simp at h
  polled h := by simp at h
  kept h := absurd h.1 (Nat.not_lt_zero _)
  counted _ := rfl
  held h := by cases h
  owned h := by cases h
  opened h := absurd h.1 (Nat.not_lt_zero _)
  closed := rfl
  distinct h := absurd h.1 (Nat.not_lt_zero _)
  recvOpen h := by cases h
  sendOpen h := by cases h

/-- A connection that is left out may be any. -/
theorem Accounted.except (h : s.Accounted none) : s.Accounted (some c) :=
  { h with
    polled := fun hm _ => h.polled hm (by simp)
    kept := fun hl _ => h.kept hl (by simp) }

/-- The last steps of a connection are done. -/
theorem Accounted.settle (h : s.Accounted (some c))
    (hpolled : s.sockConnMap.lookup (s.mSock c) = some c →
      s.recvEpfd (s.mSock c) = true ∧ s.sendEpfd (s.mSock c) = true)
    (hkept : s.Live c → s.mSock c ≠ DISCONNECTED ∧
      (s.sockConnMap.lookup (s.mSock c) = some c ∨
        (s.conns c).mCleaning = true ∧ 0 < (s.conns c).mRefCount)) : s.Accounted none :=
  { h with
    polled := fun {sock d} hm _ => by
      by_cases hd : d = c
      · subst hd
        obtain rfl := (h.mapped hm).2.1
        exact hpolled hm
      · exact h.polled hm (by simpa [eq_comm] using hd)
    kept := fun {d} hl _ => by
      by_cases hd : d = c
      · subst hd
        exact hkept hl
      · exact h.kept hl (by simpa [eq_comm] using hd) }

/-- The references and the members of one connection change together. -/
theorem Accounted.setRefs (h : s.Accounted (some c)) {refs : List ConnId}
    (hcount : r.mRefCount = refs.count c) (hothers : ∀ d ≠ c, refs.count d = s.refs.count d)
    (hlive : c ∈ refs → s.Live c)
    (hmap : s.sockConnMap.lookup (s.mSock c) = some c → r.mCleaning = false) :
    Accounted (some c) { s.setRefs c r with refs := refs } where
  maps := SockMaps.rep_congr h.maps rfl rfl rfl
  mapped {sock d} hm := by
    obtain ⟨hl, hsock, hclean⟩ := h.mapped hm
    refine ⟨hl, hsock, ?_⟩
    by_cases hd : d = c
    · subst hd
      subst hsock
      simpa [Registry.setRefs] using hmap hm
    · simpa [Registry.setRefs, hd] using hclean
  polled := h.polled
  kept {d} hl hd := by
    have hne : d ≠ c := by simpa [eq_comm] using hd
    simpa [Registry.setRefs, hne] using h.kept hl hd
  counted d := by
    by_cases hd : d = c
    · subst hd
      simpa [Registry.setRefs] using hcount
    · simpa [Registry.setRefs, hd, hothers d hd] using h.counted d
  held {d} hd := by
    by_cases hdc : d = c
    · subst hdc
      exact hlive hd
    · rw [← List.count_pos_iff, hothers d hdc, List.count_pos_iff] at hd
      exact h.held hd
  owned := h.owned
  opened := h.opened
  closed := h.closed
  distinct := h.distinct
  recvOpen := h.recvOpen
  sendOpen := h.sendOpen

/-- No socket leads to the connection. -/
def Unmapped (s : Registry) (c : ConnId) : Prop := ∀ sock, s.sockConnMap.lookup sock ≠ some c

theorem Accounted.unmapped_of_cleaning (h : s.Accounted p) (hc : (s.conns c).mCleaning = true) :
    s.Unmapped c := fun sock hm => by
  have := (h.mapped hm).2.2
  rw [hc] at this
  cases this

theorem Accounted.ne_disconnected (h : s.Accounted p) (hm : s.sockConnMap.lookup sock = some c)
    (hc : c ∉ p) : sock ≠ DISCONNECTED := by
  obtain ⟨hl, rfl, -⟩ := h.mapped hm
  exact (h.kept hl hc).1

/-! ## Steps on one connection -/

theorem Accounted.teardown (h : s.Accounted (some c)) (hl : s.Live c) (hcount : s.refs.count c = 0)
    (hun : s.Unmapped c) : (s.teardown c).Accounted none := by
  have hlive : ∀ {d}, (s.teardown c).Live d → s.Live d ∧ d ≠ c := fun {d} hd => by
    have hne : d ≠ c := fun hdc => by
      have := hd.2
      rw [hdc] at this
      simp [Registry.teardown] at this
    exact ⟨⟨hd.1, by simpa [Registry.teardown, hne] using hd.2⟩, hne⟩
  have hsome : ∀ {d}, d ≠ c → d ∉ some c := fun hne => by simpa [eq_comm] using hne
  have hsock : ∀ {d}, d ≠ c → (s.teardown c).mSock d = s.mSock d := fun hne =>
    Function.update_of_ne hne _ _
  -- the socket it had is that of no other connection
  have hother : ∀ {d}, s.Live d → d ≠ c → s.mSock d ≠ s.mSock c := fun hd hne heq =>
    hne (h.distinct hd hl (h.kept hd (hsome hne)).1 heq)
  exact {
    maps := SockMaps.rep_congr h.maps rfl rfl rfl
    mapped := fun {sock d} hm => by
      obtain ⟨hd, rfl, hclean⟩ := h.mapped hm
      have hne : d ≠ c := fun hdc => hun _ (hdc ▸ hm)
      refine ⟨⟨hd.1, ?_⟩, hsock hne, hclean⟩
      simpa [Registry.teardown, hne] using hd.2
    polled := fun {sock d} hm _ => by
      obtain ⟨hd, rfl, -⟩ := h.mapped hm
      have hne : d ≠ c := fun hdc => hun _ (hdc ▸ hm)
      have := h.polled hm (hsome hne)
      simpa [Registry.teardown, hother hd hne] using this
    kept := fun {d} hd _ => by
      obtain ⟨hd, hne⟩ := hlive hd
      rw [hsock hne]
      exact h.kept hd (hsome hne)
    counted := h.counted
    held := fun {d} hd => by
      have hne : d ≠ c := fun hdc => by
        have hpos : 0 < s.refs.count c := List.count_pos_iff.2 (hdc ▸ hd)
        omega
      have := h.held hd
      exact ⟨this.1, by simpa [Registry.teardown, hne] using this.2⟩
    owned := fun {sock} ho => by
      have hne : sock ≠ s.mSock c := fun heq => by simp [Registry.teardown, heq] at ho
      obtain ⟨d, hd, rfl⟩ := h.owned (by simpa [Registry.teardown, hne] using ho)
      have hdc : d ≠ c := fun hdc => hne (by rw [hdc])
      exact ⟨d, ⟨hd.1, by simpa [Registry.teardown, hdc] using hd.2⟩, hsock hdc⟩
    opened := fun {d} hd hs => by
      obtain ⟨hd, hne⟩ := hlive hd
      rw [hsock hne] at hs ⊢
      have := h.opened hd hs
      simpa [Registry.teardown, hother hd hne] using this
    closed := by
      simp only [Registry.teardown, Function.update_apply]
      split_ifs
      · rfl
      · exact h.closed
    distinct := fun {d e} hd he hs heq => by
      obtain ⟨hd, hdc⟩ := hlive hd
      obtain ⟨he, hec⟩ := hlive he
      rw [hsock hdc] at hs heq
      rw [hsock hec] at heq
      exact h.distinct hd he hs heq
    recvOpen := fun {sock} hr => by
      have hne : sock ≠ s.mSock c := fun heq => by simp [Registry.teardown, heq] at hr
      have := h.recvOpen (by simpa [Registry.teardown, hne] using hr)
      simpa [Registry.teardown, hne] using this
    sendOpen := fun {sock} hr => by
      have hne : sock ≠ s.mSock c := fun heq => by simp [Registry.teardown, heq] at hr
      have := h.sendOpen (by simpa [Registry.teardown, hne] using hr)
      simpa [Registry.teardown, hne] using this }

theorem Accounted.nonneg (h : s.Accounted p) (c : ConnId) : 0 ≤ (s.conns c).mRefCount := by
  rw [h.counted c]
  exact Int.natCast_nonneg _

/-- `cleanup` of a connection that no socket leads to tears it down, or leaves it to the references
that are out. -/
theorem Accounted.cleanup (h : s.Accounted (some c)) (hl : s.Live c) (hun : s.Unmapped c)
    (hsock : 0 < (s.conns c).mRefCount → s.mSock c ≠ DISCONNECTED) (how : CleanupT) :
    (s.cleanup c how).Accounted none := by
  have hset : ∀ r : ConnRefs, r.mRefCount = (s.conns c).mRefCount →
      (s.setRefs c r).Accounted (some c) := fun r hr =>
    h.setRefs (hr.trans (h.counted c)) (fun _ _ => rfl) (fun hc => h.held hc)
      fun hm => absurd hm (hun _)
  unfold Registry.cleanup ConnRefs.cleanup
  by_cases hbusy : (s.conns c).mRefCount > 0
  · simp only [hbusy, if_true, Bool.false_eq_true, if_false]
    refine (hset { s.conns c with mCleaning := true, mCleanType := how } rfl).settle
      (fun hm => absurd hm (hun _)) fun _ => ⟨hsock hbusy, .inr ?_⟩
    simpa [Registry.setRefs] using hbusy
  · simp only [hbusy, if_false, if_true]
    refine (hset { s.conns c with mCleaning := true } rfl).teardown hl ?_ hun
    have := h.counted c
    have := h.nonneg c
    change s.refs.count c = 0
    omega

theorem Accounted.acquire (h : s.Accounted p) (hp : ∀ d ∈ p, d = c) (hl : s.Live c)
    (hkept : s.mSock c ≠ DISCONNECTED) (hmap : s.sockConnMap.lookup (s.mSock c) = some c)
    (hpolled : s.recvEpfd (s.mSock c) = true ∧ s.sendEpfd (s.mSock c) = true) :
    (s.acquire c).Accounted none := by
  have hsome : s.Accounted (some c) := by
    rcases p with _ | d
    · exact h.except
    · rw [hp d rfl] at h
      exact h
  refine (hsome.setRefs ?_ ?_ (fun _ => hl) ?_).settle (fun _ => hpolled)
    fun _ => ⟨hkept, .inl hmap⟩
  · rw [List.count_cons_self, ConnRefs.acquire, h.counted c]
    rfl
  · exact fun d hd => List.count_cons_of_ne (Ne.symm hd)
  · intro hm
    exact (h.mapped hm).2.2

theorem Accounted.release (h : s.Accounted none) (hc : c ∈ s.refs) :
    (s.release c).Accounted none := by
  have hl := h.held hc
  have hpos : 0 < s.refs.count c := List.count_pos_iff.2 hc
  have hcount : ((s.conns c).release.2).mRefCount = (s.refs.erase c).count c := by
    rw [List.count_erase_self, ConnRefs.release, h.counted c]
    push_cast [hpos]
    rfl
  have hset := h.except.setRefs (c := c) (r := (s.conns c).release.2) hcount
    (fun d hd => List.count_erase_of_ne hd) (fun _ => hl) fun hm => (h.mapped hm).2.2
  obtain ⟨hsock, hkept⟩ := h.kept hl (by simp)
  unfold Registry.release
  by_cases hlast : ((s.conns c).release).1 = true
  · simp only [hlast, if_true]
    have hclean : (s.conns c).mCleaning = true := by
      simp only [ConnRefs.release, Bool.and_eq_true] at hlast
      exact hlast.2
    exact hset.cleanup hl (h.unmapped_of_cleaning hclean) (fun _ => hsock) _
  · simp only [hlast]
    refine hset.settle (fun hm => h.polled hm (by simp)) fun _ => ⟨hsock, hkept.imp_right ?_⟩
    rintro ⟨hclean, -⟩
    refine ⟨by simpa [Registry.setRefs, ConnRefs.release] using hclean, ?_⟩
    have hne : (s.conns c).mRefCount - 1 ≠ 0 := fun h0 => hlast (by
      simp [ConnRefs.release, h0, hclean])
    have hge : (1 : ℤ) ≤ (s.conns c).mRefCount := by
      rw [h.counted c]
      exact_mod_cast hpos
    simp only [Registry.setRefs, ConnRefs.release, Function.update_self]
    omega

/-! ## The maps -/

theorem Accounted.unmap (h : s.Accounted (some c)) (hm : s.sockConnMap.lookup sock = some c) :
    Accounted (some c) { s with toSockMaps := (s.toSockMaps.remove sock).2 } := by
  obtain ⟨hl, hsock, hclean⟩ := h.mapped hm
  obtain ⟨-, hrem⟩ := SockMaps.remove_mapped hm
  have hlookup : ∀ {a d}, (s.toSockMaps.remove sock).2.sockConnMap.lookup a = some d →
      s.sockConnMap.lookup a = some d ∧ d ≠ c := fun {a d} ha => by
    rw [hrem.lookup] at ha
    split_ifs at ha with hmem
    refine ⟨ha, fun hdc => hmem ?_⟩
    rw [List.mem_singleton, ← hsock, ← hdc, (h.mapped ha).2.1]
  have hconns : ∀ {d}, d ≠ c → (s.toSockMaps.remove sock).2.conns d = s.conns d := fun {d} hd => by
    rw [hrem.conns, if_neg]
    rintro ⟨a, ha, had⟩
    rw [List.mem_singleton.1 ha, hm] at had
    exact hd (Option.some.inj had).symm
  have hcount : ∀ d, ((s.toSockMaps.remove sock).2.conns d).mRefCount = (s.conns d).mRefCount :=
    fun d => by
      rw [hrem.conns]
      split_ifs
      · unfold ConnRefs.cleanup
        split_ifs <;> rfl
      · rfl
  exact {
    maps := SockMaps.rep_remove h.maps sock
    mapped := fun {a d} ha => by
      obtain ⟨ha, hd⟩ := hlookup ha
      obtain ⟨hld, had, hcd⟩ := h.mapped ha
      exact ⟨hld, had, by rwa [hconns hd]⟩
    polled := fun ha hd => h.polled (hlookup ha).1 hd
    kept := fun {d} hd hdp => by
      have hne : d ≠ c := by simpa [eq_comm] using hdp
      refine ⟨(h.kept hd hdp).1, ?_⟩
      rw [hconns hne]
      refine (h.kept hd hdp).2.imp_left fun hmd => ?_
      rw [hrem.lookup, if_neg, hmd]
      rw [List.mem_singleton]
      intro heq
      rw [heq, hm] at hmd
      exact hne (Option.some.inj hmd).symm
    counted := fun d => (hcount d).trans (h.counted d)
    held := h.held
    owned := h.owned
    opened := h.opened
    closed := h.closed
    distinct := h.distinct
    recvOpen := h.recvOpen
    sendOpen := h.sendOpen }

/-- A socket without a connection is in no set either, and its removal changes nothing. -/
theorem Accounted.unmapped_remove (h : s.Accounted p) (hm : s.sockConnMap.lookup sock = none) :
    (s.toSockMaps.remove sock).2 = s.toSockMaps := by
  rcases SockMaps.dropSock_cases s.epSockMap sock with ⟨-, hdrop⟩ | ⟨k, set, hk, hin, -⟩
  · simp only [SockMaps.remove, hm, hdrop]
  · exact absurd hin (h.maps.not_mem hm hk)

theorem Accounted.removeConn (h : s.Accounted (some c)) (hm : s.sockConnMap.lookup sock = some c)
    (hsock : 0 < (s.conns c).mRefCount → sock ≠ DISCONNECTED) :
    (s.removeConn sock).2.Accounted none := by
  obtain ⟨hl, hmSock, -⟩ := h.mapped hm
  obtain ⟨-, hrem⟩ := SockMaps.remove_mapped hm
  have hunmap := h.unmap hm
  have hun : Unmapped { s with toSockMaps := (s.toSockMaps.remove sock).2 } c := fun a ha => by
    have hmem : a = sock := by
      rw [← hmSock]
      exact (hunmap.mapped ha).2.1.symm
    rw [hrem.lookup, if_pos (List.mem_singleton.2 hmem)] at ha
    cases ha
  have hconns : (s.toSockMaps.remove sock).2.conns c = ((s.conns c).cleanup .ON_ERROR).2 := by
    rw [hrem.conns, if_pos ⟨sock, List.mem_singleton_self sock, hm⟩]
  simp only [Registry.removeConn, hm]
  by_cases hbusy : (s.conns c).mRefCount > 0
  · rw [if_neg (by simp [ConnRefs.cleanup, hbusy])]
    refine hunmap.settle (fun ha => absurd ha (hun _))
      fun _ => ⟨by rw [hmSock]; exact hsock hbusy, .inr ?_⟩
    rw [hconns]
    simp [ConnRefs.cleanup, hbusy]
  · rw [if_pos (by simp [ConnRefs.cleanup, hbusy])]
    refine hunmap.teardown hl ?_ hun
    have := h.counted c
    have := h.nonneg c
    change s.refs.count c = 0
    omega

theorem Accounted.removeConn_any (h : s.Accounted none) (sock : Int32) :
    (s.removeConn sock).2.Accounted none := by
  rcases hm : s.sockConnMap.lookup sock with _ | c
  · simp only [Registry.removeConn, hm, h.unmapped_remove hm]
    exact h
  · exact h.except.removeConn hm fun _ => h.ne_disconnected hm (by simp)

theorem Accounted.find (h : s.Accounted none) (sock : Int32) : (s.find sock).2.Accounted none := by
  unfold Registry.find
  rcases hm : s.sockConnMap.lookup sock with _ | c
  · exact h
  · obtain ⟨hl, rfl, -⟩ := h.mapped hm
    exact h.acquire (by simp) hl (h.ne_disconnected hm (by simp)) hm (h.polled hm (by simp))

/-- The connection found is in the map and has one more reference. -/
theorem find_some {t : Registry} (h : s.find sock = (some c, t)) :
    s.sockConnMap.lookup sock = some c ∧ t = s.acquire c := by
  unfold Registry.find at h
  rcases hm : s.sockConnMap.lookup sock with _ | d <;> rw [hm] at h
  · cases h
  · simp only [Prod.mk.injEq, Option.some.injEq] at h
    obtain ⟨rfl, rfl⟩ := h
    exact ⟨rfl, rfl⟩

/-! ## A new connection -/

theorem Accounted.newConn (h : s.Accounted none) : s.newConn.Accounted (some s.nextConn) := by
  have hsome : ∀ {d}, s.Live d → d ≠ s.nextConn := fun hd => Nat.ne_of_lt hd.1
  have hlive : ∀ {d}, s.newConn.Live d → d ≠ s.nextConn → s.Live d := fun {d} hd hne =>
    ⟨lt_of_le_of_ne (Nat.lt_succ_iff.1 hd.1) hne,
      by simpa [Registry.newConn, updateActSn, hne] using hd.2⟩
  have hlive' : ∀ {d}, s.Live d → s.newConn.Live d := fun {d} hd =>
    ⟨Nat.lt_succ_of_lt hd.1, by simpa [Registry.newConn, updateActSn, hsome hd] using hd.2⟩
  have hsock : ∀ {d}, d ≠ s.nextConn → s.newConn.mSock d = s.mSock d := fun hne =>
    Function.update_of_ne hne _ _
  have hfresh : s.newConn.mSock s.nextConn = DISCONNECTED := Function.update_self _ _ _
  exact {
    maps := SockMaps.rep_congr h.maps rfl rfl rfl
    mapped := fun {a d} ha => by
      obtain ⟨hd, rfl, hclean⟩ := h.mapped ha
      refine ⟨hlive' hd, hsock (hsome hd), ?_⟩
      simpa [Registry.newConn, updateActSn, hsome hd] using hclean
    polled := fun ha _ => h.polled ha (by simp)
    kept := fun {d} hd hdp => by
      have hne : d ≠ s.nextConn := by simpa [eq_comm] using hdp
      rw [hsock hne]
      simpa [Registry.newConn, updateActSn, hne] using h.kept (hlive hd hne) (by simp)
    counted := fun d => by
      by_cases hd : d = s.nextConn
      · have hno : s.refs.count d = 0 := List.count_eq_zero.2 fun hmem =>
          absurd hd (hsome (h.held hmem))
        subst hd
        have : s.newConn.refs.count s.nextConn = 0 := hno
        rw [this]
        simp [Registry.newConn, updateActSn]
      · simpa [Registry.newConn, updateActSn, hd] using h.counted d
    held := fun hd => hlive' (h.held hd)
    owned := fun ho => by
      obtain ⟨d, hd, rfl⟩ := h.owned ho
      exact ⟨d, hlive' hd, hsock (hsome hd)⟩
    opened := fun {d} hd hs => by
      by_cases hne : d = s.nextConn
      · rw [hne, hfresh] at hs
        exact absurd rfl hs
      · rw [hsock hne] at hs ⊢
        exact h.opened (hlive hd hne) hs
    closed := h.closed
    distinct := fun {d e} hd he hs heq => by
      by_cases hdc : d = s.nextConn
      · rw [hdc, hfresh] at hs
        exact absurd rfl hs
      · by_cases hec : e = s.nextConn
        · rw [hec, hfresh] at heq
          exact absurd heq hs
        · rw [hsock hdc] at hs heq
          rw [hsock hec] at heq
          exact h.distinct (hlive hd hdc) (hlive he hec) hs heq
    recvOpen := h.recvOpen
    sendOpen := h.sendOpen }

/-- A connection that was made, is not in the map yet, and that nobody refers to. -/
structure Made (s : Registry) (c : ConnId) : Prop where
  accounted : s.Accounted (some c)
  live : s.Live c
  unmapped : s.Unmapped c
  refs : s.conns c = {}

theorem Accounted.made (h : s.Accounted none) : s.newConn.Made s.nextConn where
  accounted := h.newConn
  live := ⟨Nat.lt_succ_self _, Function.update_self _ _ _⟩
  unmapped _ hm := absurd (h.mapped hm).1.1 (Nat.lt_irrefl _)
  refs := Function.update_self _ _ _

theorem Made.cleanup (h : s.Made c) (how : CleanupT) : (s.cleanup c how).Accounted none :=
  h.accounted.cleanup h.live h.unmapped (fun hpos => by simp [h.refs] at hpos) how

theorem Made.setup (h : s.Made c) (hs : s.mSock c = DISCONNECTED) (hf : s.Fresh sock) :
    (s.setup c sock).Made c := by
  have hne : sock ≠ DISCONNECTED := fun heq => absurd hf.1 (by rw [heq]; decide)
  have hsock : ∀ {d}, d ≠ c → (s.setup c sock).mSock d = s.mSock d := fun hd =>
    Function.update_of_ne hd _ _
  have hself : (s.setup c sock).mSock c = sock := Function.update_self _ _ _
  have hopen : ∀ {a}, s.isOpen a = true → (s.setup c sock).isOpen a = true := fun {a} ha => by
    simp only [Registry.setup, Function.update_apply]
    split_ifs
    · rfl
    · exact ha
  -- nobody has the socket yet
  have hfree : ∀ {d}, s.Live d → s.mSock d ≠ sock := fun {d} hd heq => by
    have := h.accounted.opened hd (by rw [heq]; exact hne)
    rw [heq, hf.2] at this
    cases this
  have hacc := h.accounted
  refine ⟨?_, h.live, h.unmapped, h.refs⟩
  exact {
    maps := hacc.maps
    mapped := fun {a d} ha => by
      have hd : d ≠ c := fun hdc => h.unmapped a (hdc ▸ ha)
      rw [hsock hd]
      exact hacc.mapped ha
    polled := hacc.polled
    kept := fun {d} hd hdp => by
      have hdc : d ≠ c := by simpa [eq_comm] using hdp
      rw [hsock hdc]
      exact hacc.kept hd hdp
    counted := hacc.counted
    held := hacc.held
    owned := fun {a} ha => by
      by_cases has : a = sock
      · exact ⟨c, h.live, by rw [hself, has]⟩
      · obtain ⟨d, hd, rfl⟩ := hacc.owned (by simpa [Registry.setup, has] using ha)
        by_cases hdc : d = c
        · rw [hdc, hs] at ha has
          simp [Registry.setup, has, hacc.closed] at ha
        · exact ⟨d, hd, hsock hdc⟩
    opened := fun {d} hd hds => by
      by_cases hdc : d = c
      · rw [hdc, hself]
        exact Function.update_self _ _ _
      · rw [hsock hdc] at hds ⊢
        exact hopen (hacc.opened hd hds)
    closed := by
      simpa [Registry.setup, Ne.symm hne] using hacc.closed
    distinct := fun {d e} hd he hds heq => by
      by_cases hdc : d = c
      · by_cases hec : e = c
        · rw [hdc, hec]
        · rw [hdc, hself, hsock hec] at heq
          exact absurd heq.symm (hfree he)
      · rw [hsock hdc] at hds heq
        by_cases hec : e = c
        · rw [hec, hself] at heq
          exact absurd heq (hfree hd)
        · rw [hsock hec] at heq
          exact hacc.distinct hd he hds heq
    recvOpen := fun ha => hopen (hacc.recvOpen ha)
    sendOpen := fun ha => hopen (hacc.sendOpen ha) }

/-- The socket of a new connection is that of no other in the map. -/
theorem Made.lookup (h : s.Made c) : s.sockConnMap.lookup (s.mSock c) = none := by
  by_contra hm
  obtain ⟨d, hm⟩ := Option.ne_none_iff_exists'.1 hm
  have hdc : d ≠ c := fun hdc => h.unmapped _ (hdc ▸ hm)
  obtain ⟨hd, heq, -⟩ := h.accounted.mapped hm
  have hds := (h.accounted.kept hd (by simpa [eq_comm] using hdc)).1
  exact hdc (h.accounted.distinct hd h.live hds heq)

theorem Made.insert (h : s.Made c) (ep : EndPoint) :
    (s.insert ep (s.mSock c) c).Accounted (some c) := by
  have hfree := h.lookup
  have hacc := h.accounted
  have hins : ∀ a, (s.insert ep (s.mSock c) c).sockConnMap.lookup a =
      if a = s.mSock c then some c else s.sockConnMap.lookup a := fun a => by
    simp only [Registry.insert, SockMaps.insert, hfree, ne_eq, not_true_eq_false, if_false]
    split_ifs with ha
    · rw [ha, AList.lookup_insert]
    · exact AList.lookup_insert_ne ha
  have hrest : (s.insert ep (s.mSock c) c).conns = s.conns := by
    simp only [Registry.insert, SockMaps.insert, hfree, ne_eq, not_true_eq_false, if_false]
  have hold : ∀ {a d}, (s.insert ep (s.mSock c) c).sockConnMap.lookup a = some d → d ∉ some c →
      s.sockConnMap.lookup a = some d := fun {a d} ha hd => by
    rw [hins] at ha
    split_ifs at ha
    · rw [Option.some.injEq] at ha
      exact absurd (Option.mem_some_iff.2 ha) hd
    · exact ha
  exact {
    maps := SockMaps.rep_insert hacc.maps ep _ c
    mapped := fun {a d} ha => by
      rw [hrest]
      rw [hins] at ha
      split_ifs at ha with has
      · rw [Option.some.injEq] at ha
        subst ha
        exact ⟨h.live, has.symm, by rw [h.refs]⟩
      · exact hacc.mapped ha
    polled := fun ha hd => hacc.polled (hold ha hd) hd
    kept := fun {d} hd hdp => by
      refine ⟨(hacc.kept hd hdp).1, ?_⟩
      rw [hrest]
      refine (hacc.kept hd hdp).2.imp_left fun hm => ?_
      rw [hins]
      split_ifs with has
      · change s.mSock d = s.mSock c at has
        rw [has, hfree] at hm
        cases hm
      · exact hm
    counted := fun d => by
      rw [hrest]
      exact hacc.counted d
    held := hacc.held
    owned := hacc.owned
    opened := hacc.opened
    closed := hacc.closed
    distinct := hacc.distinct
    recvOpen := hacc.recvOpen
    sendOpen := hacc.sendOpen }

/-! ## The selectors -/

theorem addToRecvSelector_cases (s : Registry) (sock : Int32) (ok : Bool) :
    s.isOpen sock = true ∧ s.addToRecvSelector sock ok =
        (.SUCCESS, { s with recvEpfd := Function.update s.recvEpfd sock true })
      ∨ s.addToRecvSelector sock ok = (.NET_ERR_EPOLL, s) := by
  unfold Registry.addToRecvSelector
  split_ifs with hok
  · simp only [Bool.and_eq_true] at hok
    exact .inl ⟨hok.1.2, rfl⟩
  · exact .inr rfl

theorem addToSendSelector_cases (s : Registry) (sock : Int32) (ok : Bool) :
    s.isOpen sock = true ∧ s.addToSendSelector sock ok =
        (.SUCCESS, { s with sendEpfd := Function.update s.sendEpfd sock true })
      ∨ s.addToSendSelector sock ok = (.NET_ERR_EPOLL, s) := by
  unfold Registry.addToSendSelector
  split_ifs with hok
  · simp only [Bool.and_eq_true] at hok
    exact .inl ⟨hok.1.2, rfl⟩
  · exact .inr rfl

theorem update_true {f : Int32 → Bool} {a b : Int32} (h : f a = true) :
    Function.update f b true a = true := by
  rw [Function.update_apply]
  split_ifs
  · rfl
  · exact h

theorem of_update_true {f g : Int32 → Bool} {a b : Int32} (hb : g b = true)
    (h : Function.update f b true a = true) (hf : f a = true → g a = true) : g a = true := by
  rw [Function.update_apply] at h
  split_ifs at h with hab
  · rw [hab, hb]
  · exact hf h

theorem Accounted.addRecv (h : s.Accounted p) (ho : s.isOpen sock = true) :
    Accounted p { s with recvEpfd := Function.update s.recvEpfd sock true } :=
  { h with
    polled := fun hm hc => (h.polled hm hc).imp_left update_true
    recvOpen := fun hr => of_update_true ho hr h.recvOpen }

theorem Accounted.addSend (h : s.Accounted p) (ho : s.isOpen sock = true) :
    Accounted p { s with sendEpfd := Function.update s.sendEpfd sock true } :=
  { h with
    polled := fun hm hc => (h.polled hm hc).imp_right update_true
    sendOpen := fun hr => of_update_true ho hr h.sendOpen }

theorem Accounted.addToRecvSelector (h : s.Accounted p) (sock : Int32) (ok : Bool) :
    (s.addToRecvSelector sock ok).2.Accounted p := by
  rcases addToRecvSelector_cases s sock ok with ⟨ho, heq⟩ | heq <;> rw [heq]
  · exact h.addRecv ho
  · exact h

/-- A socket without a connection may leave the selectors. -/
theorem Accounted.delRecvSelector (h : s.Accounted p) (hm : s.sockConnMap.lookup sock = none) :
    (s.delRecvSelector sock).Accounted p :=
  { h with
    polled := fun {a d} ha hd => by
      have hne : a ≠ sock := fun heq => by
        subst heq
        cases hm.symm.trans ha
      simpa [Registry.delRecvSelector, hne] using h.polled ha hd
    recvOpen := fun {a} ha => by
      simp only [Registry.delRecvSelector, Function.update_apply] at ha
      split_ifs at ha
      exact h.recvOpen ha }

theorem Accounted.delSendSelector (h : s.Accounted p) (hm : s.sockConnMap.lookup sock = none) :
    (s.delSendSelector sock).Accounted p :=
  { h with
    polled := fun {a d} ha hd => by
      have hne : a ≠ sock := fun heq => by
        subst heq
        cases hm.symm.trans ha
      simpa [Registry.delSendSelector, hne] using h.polled ha hd
    sendOpen := fun {a} ha => by
      simp only [Registry.delSendSelector, Function.update_apply] at ha
      split_ifs at ha
      exact h.sendOpen ha }

theorem Accounted.updateActSn (h : s.Accounted p) (c : ConnId) : (s.updateActSn c).Accounted p :=
  { h with maps := SockMaps.rep_congr h.maps rfl rfl rfl }

/-! ## A connection put into the map -/

/-- The connection is in the map, and nobody refers to it yet. -/
structure Put (s : Registry) (c : ConnId) : Prop where
  accounted : s.Accounted (some c)
  lookup : s.sockConnMap.lookup (s.mSock c) = some c
  refs : s.conns c = {}

theorem Made.put (h : s.Made c) (ep : EndPoint) : (s.insert ep (s.mSock c) c).Put c := by
  have hfree := h.lookup
  refine ⟨h.insert ep, ?_, ?_⟩ <;>
    simp only [Registry.insert, SockMaps.insert, hfree, ne_eq, not_true_eq_false, if_false,
      AList.lookup_insert, h.refs]

theorem Put.removeConn (h : s.Put c) : (s.removeConn (s.mSock c)).2.Accounted none :=
  h.accounted.removeConn h.lookup fun hpos => by simp [h.refs] at hpos

theorem Put.live (h : s.Put c) : s.Live c := (h.accounted.mapped h.lookup).1

theorem Put.addRecv (h : s.Put c) (ho : s.isOpen sock = true) :
    Put { s with recvEpfd := Function.update s.recvEpfd sock true } c :=
  ⟨h.accounted.addRecv ho, h.lookup, h.refs⟩

theorem Put.addSend (h : s.Put c) (ho : s.isOpen sock = true) :
    Put { s with sendEpfd := Function.update s.sendEpfd sock true } c :=
  ⟨h.accounted.addSend ho, h.lookup, h.refs⟩

/-- A connection in the map that both epoll threads poll is done. -/
theorem Put.settle (h : s.Put c) (hs : s.mSock c ≠ DISCONNECTED)
    (hr : s.recvEpfd (s.mSock c) = true) (ht : s.sendEpfd (s.mSock c) = true) :
    s.Accounted none :=
  h.accounted.settle (fun _ => ⟨hr, ht⟩) fun _ => ⟨hs, .inl h.lookup⟩

end Registry

end Longda
