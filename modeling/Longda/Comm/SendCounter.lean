import Longda.Comm.Matching

/-!
# The numbers of the requests

`mSendCounter` gives each request the number behind the last one, so two requests have one number
only where a multiple of `2 ^ 32` requests lies between them. As long as fewer than `2 ^ 32` others
get their numbers while a request is on its way, no event is entered under a number in use
(`meets_freshId`).
-/

namespace Longda

open Lib

namespace Client

variable {n : UInt32} {s t : Client} {l : ClientStep}

/-- Each number is counted from the first by the events, and no event without a connection is in
use. -/
structure Counted (n : UInt32) (s : Client) : Prop where
  counter : s.mSendCounter = n + UInt32.ofNat s.nextEvent
  numbered : ∀ p ∈ s.numbered, p.2 = n + UInt32.ofNat p.1 ∧ p.1 < s.nextEvent
  inUse : ∀ r ∈ s.inUse, r.id = n + UInt32.ofNat r.ev ∧ r.ev < s.nextEvent
  nodup : (s.numbered.map Prod.fst).Nodup
  apart : ∀ p ∈ s.numbered, ∀ r ∈ s.inUse, r.ev ≠ p.1

/-- Since a request that has no connection yet or is in use got its number, fewer than `2 ^ 32`
others have got theirs. -/
def Recent (s : Client) : Prop :=
  (∀ p ∈ s.numbered, s.nextEvent ≤ p.1 + 2 ^ 32) ∧ ∀ r ∈ s.inUse, s.nextEvent ≤ r.ev + 2 ^ 32

theorem event_eq_of_id {a b : ℕ} (h : n + UInt32.ofNat a = n + UInt32.ofNat b)
    (hab : a < b + 2 ^ 32) (hba : b < a + 2 ^ 32) : a = b := by
  have hmod : a % 2 ^ 32 = b % 2 ^ 32 := by
    simpa using congrArg UInt32.toNat ((UInt32.add_right_inj n).1 h)
  omega

/-! ## What the steps keep -/

theorem Counted.lose (hs : s.Counted n) (hcounter : t.mSendCounter = s.mSendCounter)
    (hnext : t.nextEvent = s.nextEvent) (hnum : t.numbered.Sublist s.numbered)
    (huse : ∀ r ∈ t.inUse, r ∈ s.inUse) : t.Counted n where
  counter := by rw [hcounter, hnext, hs.counter]
  numbered p hp := by rw [hnext]; exact hs.numbered p (hnum.subset hp)
  inUse r hr := by rw [hnext]; exact hs.inUse r (huse r hr)
  nodup := hs.nodup.sublist (hnum.map _)
  apart p hp r hr := hs.apart p (hnum.subset hp) r (huse r hr)

theorem Counted.number (hs : s.Counted n) (h : client.step s .number = some t) :
    t.Counted n := by
  cases h
  refine ⟨?_, fun p hp => ?_, fun r hr => ?_, ?_, fun p hp r hr => ?_⟩
  · rw [hs.counter, UInt32.ofNat_add, UInt32.add_assoc]
    rfl
  · rcases List.mem_append.1 hp with hp | hp
    · exact (hs.numbered p hp).imp_right Nat.lt_succ_of_lt
    · rw [List.mem_singleton.1 hp]
      exact ⟨hs.counter, Nat.lt_succ_self _⟩
  · exact (hs.inUse r hr).imp_right Nat.lt_succ_of_lt
  · rw [List.map_append]
    refine List.nodup_append.2 ⟨hs.nodup, List.nodup_singleton _, fun a ha b hb => ?_⟩
    obtain ⟨p, hp, rfl⟩ := List.mem_map.1 ha
    rw [List.map_singleton, List.mem_singleton] at hb
    rw [hb]
    exact (hs.numbered p hp).2.ne
  · rcases List.mem_append.1 hp with hp | hp
    · exact hs.apart p hp r hr
    · rw [List.mem_singleton.1 hp]
      exact (hs.inUse r hr).2.ne

theorem Counted.addEventEntry {ev : EventId} {id : UInt32} {c : ConnId} (hs : s.Counted n)
    (h : client.step s (.addEventEntry ev id c) = some t) : t.Counted n := by
  have huse := inUse_addEventEntry h
  simp only [client, Client.step] at h
  split_ifs at h with hmem
  cases h
  have hnum := hs.numbered _ hmem
  refine ⟨hs.counter, fun p hp => hs.numbered p (List.mem_of_mem_erase hp), fun r hr => ?_,
    hs.nodup.sublist (List.erase_sublist.map _), fun p hp r hr => ?_⟩
  · rcases huse r hr with rfl | hr
    · exact hnum
    · exact hs.inUse r hr
  · rcases huse r hr with rfl | hr
    · intro heq
      have hp' := List.mem_of_mem_erase hp
      obtain rfl : (ev, id) = p := List.inj_on_of_nodup_map hs.nodup hmem hp' heq
      exact hs.nodup.of_map.not_mem_erase hp
    · exact hs.apart p (List.mem_of_mem_erase hp) r hr

theorem Counted.step (hs : s.Counted n) (h : client.step s l = some t) : t.Counted n := by
  have hself {α : Type} (xs : List α) : xs ⊆ xs := List.Subset.refl xs
  cases l with
  | number => exact hs.number h
  | addEventEntry ev id c => exact hs.addEventEntry h
  | noConn ev id =>
    simp only [client, Client.step] at h
    split_ifs at h
    cases h
    exact hs.lose rfl rfl List.erase_sublist fun _ hr => hr
  | cleanupFailedReq r =>
    simp only [client, Client.step] at h
    split_ifs at h
    cases h
    exact hs.lose rfl rfl (.refl _) (inUse_subset List.erase_subset (List.filter_subset_self _)
      (hself _) (hself _))
  | postSend r =>
    have huse := inUse_postSend h
    simp only [client, Client.step] at h
    split_ifs at h
    cases h
    exact hs.lose rfl rfl (.refl _) huse
  | sendDone r =>
    simp only [client, Client.step] at h
    split_ifs at h
    cases h
    exact hs.lose rfl rfl (.refl _) (inUse_subset (hself _) (hself _) List.erase_subset (hself _))
  | sendFails r =>
    simp only [client, Client.step] at h
    split_ifs at h
    cases h
    exact hs.lose rfl rfl (.refl _) (inUse_subset (hself _) (List.filter_subset_self _)
      List.erase_subset (hself _))
  | response r =>
    simp only [client, Client.step, recvRspMsg] at h
    split_ifs at h
    cases h
    split
    · exact hs.lose rfl rfl (.refl _) (inUse_subset (hself _) (hself _) (hself _)
        List.erase_subset)
    · exact hs.lose rfl rfl (.refl _) (inUse_subset (hself _) (List.filter_subset_self _)
        (hself _) List.erase_subset)
  | disconnect c =>
    simp only [client, Client.step] at h
    split_ifs at h
    cases h
    exact hs.lose rfl rfl (.refl _) (inUse_subset (hself _) (List.filter_subset_self _)
      (List.filter_subset_self _) (List.filter_subset_self _))

/-! ## Numbers that are not in use -/

theorem Counted.freshId (hs : s.Counted n) (hr : s.Recent) (h : client.step s l = some t) :
    s.FreshId l := by
  intro k hk r hruse hkey
  cases l with
  | addEventEntry ev id c =>
    simp only [client, Client.step] at h
    split_ifs at h with hmem
    obtain rfl : (c, id) = k := Option.some.inj hk
    obtain ⟨hid, hlt⟩ := hs.numbered _ hmem
    obtain ⟨hid', hlt'⟩ := hs.inUse r hruse
    have hsame : r.id = id := congrArg Prod.snd hkey
    have hev : r.ev = ev := by
      refine event_eq_of_id (hid'.symm.trans (hsame.trans hid)) ?_ ?_
      · exact hlt'.trans_le (hr.1 _ hmem)
      · exact hlt.trans_le (hr.2 r hruse)
    exact hs.apart _ hmem r hruse hev
  | _ => cases hk

/-- While fewer than `2 ^ 32` others are numbered during any request, each gets a number that is not
in use. -/
theorem meets_freshId {steps : List ClientStep}
    (hrun : client.run { mSendCounter := n } steps = some s)
    (hc : client.Meets (fun s _ => s.Recent) { mSendCounter := n } steps) :
    client.Meets FreshId { mSendCounter := n } steps := by
  have hstart : ({ mSendCounter := n } : Client).Counted n :=
    ⟨(UInt32.add_zero n).symm, by simp, by simp [inUse], List.nodup_nil, by simp⟩
  exact Machine.Meets.of_run client (fun s l t hs hr h => ⟨hs.step h, hs.freshId hr h⟩) hstart hc
    hrun

end Client

end Longda
