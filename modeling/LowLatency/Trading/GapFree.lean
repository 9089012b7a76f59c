import LowLatency.Trading.SnapshotSync

namespace LowLatency.Trading.MarketDataConsumer

open Common Exchange OrderedMap

/-- What is written from one recovery to the next. -/
structure Segment where
  snapshot : List MEMarketUpdate
  lastIncSeqNum : ℕ
  incrementals : List MEMarketUpdate

namespace Segment

def updates (s : Segment) : List MEMarketUpdate := unmarked s.snapshot ++ s.incrementals

/-- The number of the incremental update that has to come next. -/
def next (s : Segment) : ℕ := (s.lastIncSeqNum + 1 + s.incrementals.length) % 2 ^ 64

/-- A complete snapshot and the incremental updates behind it without a gap, all as received. -/
structure Sound (received : Bool → MDPMarketUpdate → Prop) (s : Segment) : Prop where
  complete : Complete s.snapshot s.lastIncSeqNum
  snapshot : ∀ i u, s.snapshot[i]? = some u → received true ⟨i, u⟩
  incrementals : ∀ i u, s.incrementals[i]? = some u →
    received false ⟨(s.lastIncSeqNum + 1 + i) % 2 ^ 64, u⟩

variable {s : Segment} {received : Bool → MDPMarketUpdate → Prop} {u : MEMarketUpdate}

def extend (s : Segment) (u : MEMarketUpdate) : Segment :=
  { s with incrementals := s.incrementals ++ [u] }

theorem Sound.extend (h : s.Sound received) (hu : received false ⟨s.next, u⟩) :
    (s.extend u).Sound received := by
  refine ⟨h.complete, h.snapshot, fun i w hw ↦ ?_⟩
  rcases Nat.lt_trichotomy i s.incrementals.length with hlt | rfl | hgt
  · rw [Segment.extend, List.getElem?_append_left hlt] at hw
    exact h.incrementals i w hw
  · rw [Segment.extend, List.getElem?_concat_length] at hw
    exact Option.some.inj hw ▸ hu
  · rw [Segment.extend, List.getElem?_eq_none (by simp; omega)] at hw
    cases hw

theorem next_extend : (s.extend u).next = (s.next + 1) % 2 ^ 64 := by
  simp only [next, extend, List.length_append, List.length_singleton]
  omega

theorem updates_extend : (s.extend u).updates = s.updates ++ [u] := by
  simp [updates, extend]

end Segment

/-- What a consumer has written, and what it has queued, came in these segments and messages. -/
structure Delivered (received : Bool → MDPMarketUpdate → Prop) (c : MarketDataConsumer)
    (segments : List Segment) : Prop where
  written : c.incomingMdUpdates = segments.flatMap Segment.updates
  sound : ∀ s ∈ segments, s.Sound received
  synced : c.inRecovery = false → ∃ s, segments.getLast? = some s ∧ c.nextExpIncSeqNum = s.next
  snapshotQueue : ∀ e ∈ c.snapshotQueuedMsgs.toList, received true ⟨e.1, e.2⟩
  incrementalQueue : ∀ e ∈ c.incrementalQueuedMsgs.toList, received false ⟨e.1, e.2⟩

section Steps

variable {os : Os} {received : Bool → MDPMarketUpdate → Prop} {c c' c₁ : MarketDataConsumer}
  {segments : List Segment} {isSnapshot : Bool} {m : MDPMarketUpdate}

theorem mem_enqueue (isSnapshot : Bool)
    (hs : ∀ e ∈ c.snapshotQueuedMsgs.toList, received true ⟨e.1, e.2⟩)
    (hi : ∀ e ∈ c.incrementalQueuedMsgs.toList, received false ⟨e.1, e.2⟩)
    (hm : received isSnapshot m) :
    (∀ e ∈ (c.enqueue isSnapshot m).snapshotQueuedMsgs.toList, received true ⟨e.1, e.2⟩) ∧
      ∀ e ∈ (c.enqueue isSnapshot m).incrementalQueuedMsgs.toList, received false ⟨e.1, e.2⟩ := by
  cases isSnapshot with
  | false =>
    refine ⟨hs, fun e he ↦ ?_⟩
    rcases mem_insert he with rfl | he
    · exact hm
    · exact hi e he
  | true =>
    refine ⟨fun e he ↦ ?_, hi⟩
    simp only [enqueue, if_true] at he
    rcases mem_insert he with rfl | he
    · exact hm
    · split_ifs at he with hcontains
      · cases he
      · exact hs e he

theorem queueMessage_delivers (hrec : c.inRecovery = true)
    (hs : ∀ e ∈ c.snapshotQueuedMsgs.toList, received true ⟨e.1, e.2⟩)
    (hi : ∀ e ∈ c.incrementalQueuedMsgs.toList, received false ⟨e.1, e.2⟩)
    (hm : received isSnapshot m) :
    ((c.queueMessage isSnapshot m).inRecovery = true ∧
      (c.queueMessage isSnapshot m).incomingMdUpdates = c.incomingMdUpdates ∧
      (∀ e ∈ (c.queueMessage isSnapshot m).snapshotQueuedMsgs.toList, received true ⟨e.1, e.2⟩) ∧
      ∀ e ∈ (c.queueMessage isSnapshot m).incrementalQueuedMsgs.toList, received false ⟨e.1, e.2⟩) ∨
    ∃ s : Segment, s.Sound received ∧ (c.queueMessage isSnapshot m).inRecovery = false ∧
      (c.queueMessage isSnapshot m).incomingMdUpdates = c.incomingMdUpdates ++ s.updates ∧
      (c.queueMessage isSnapshot m).nextExpIncSeqNum = s.next ∧
      (c.queueMessage isSnapshot m).snapshotQueuedMsgs = ∅ ∧
      (c.queueMessage isSnapshot m).incrementalQueuedMsgs = ∅ := by
  obtain ⟨hs', hi'⟩ := mem_enqueue isSnapshot hs hi hm
  rw [queueMessage]
  rcases checkSnapshotSync_cases (c.enqueue isSnapshot m) with ⟨next, queued, hcheck, hqueued⟩ |
    ⟨us, last, next, incrementals, hq, hcomplete, hinc, hcheck⟩
  · left
    rw [hcheck]
    refine ⟨by simpa using hrec, by simp, fun e he ↦ ?_, hi'⟩
    rcases hqueued with rfl | rfl
    · exact hs' e he
    · cases he
  · right
    obtain ⟨hnext, hmem⟩ := incrementalEvents_spec (Nat.mod_lt _ (by decide)) hinc
    refine ⟨⟨us, last, incrementals⟩, ⟨hcomplete, fun i u hu ↦ ?_, fun i u hu ↦ ?_⟩, ?_⟩
    · refine hs' (i, u) ?_
      rw [hq]
      exact mem_numbered.mpr ⟨i, (Nat.zero_add i).symm, hu⟩
    · have := hi' _ (hmem i u hu)
      rwa [show ((last + 1) % 2 ^ 64 + i) % 2 ^ 64 = (last + 1 + i) % 2 ^ 64 by omega] at this
    · rw [hcheck]
      refine ⟨rfl, by simp [Segment.updates], ?_, rfl, rfl⟩
      simp only [Segment.next, hnext]
      omega

theorem Delivered.append (h : Delivered received c segments) {s : Segment} (hs : s.Sound received)
    (hin : c'.incomingMdUpdates = c.incomingMdUpdates ++ s.updates)
    (hnext : c'.nextExpIncSeqNum = s.next) (hsq : c'.snapshotQueuedMsgs = ∅)
    (hiq : c'.incrementalQueuedMsgs = ∅) : Delivered received c' (segments ++ [s]) := by
  constructor
  case written =>
    rw [hin, h.written]
    simp
  case sound =>
    intro t ht
    rcases List.mem_append.mp ht with ht | ht
    · exact h.sound t ht
    · exact List.mem_singleton.mp ht ▸ hs
  case synced => exact fun _ ↦ ⟨s, by simp, hnext⟩
  case snapshotQueue => simp [hsq]
  case incrementalQueue => simp [hiq]

theorem Delivered.extend (h : Delivered received c segments) (hrec : c.inRecovery = false)
    (hm : received false m) (hseq : m.seqNum = c.nextExpIncSeqNum) :
    ∃ segments', Delivered received { c with
      nextExpIncSeqNum := (c.nextExpIncSeqNum + 1) % 2 ^ 64
      incomingMdUpdates := c.incomingMdUpdates ++ [m.meMarketUpdate] } segments' := by
  obtain ⟨s, hlast, hnext⟩ := h.synced hrec
  have hsplit := List.dropLast_append_getLast? s hlast
  have hs : s.Sound received := h.sound s (List.mem_of_getLast? hlast)
  refine ⟨segments.dropLast ++ [s.extend m.meMarketUpdate], ?_, fun t ht ↦ ?_, fun _ ↦ ?_,
    h.snapshotQueue, h.incrementalQueue⟩
  · have hw := h.written
    rw [← hsplit] at hw
    simp only [hw, List.flatMap_append, List.flatMap_singleton, Segment.updates_extend,
      List.append_assoc]
  · rcases List.mem_append.mp ht with ht | ht
    · exact h.sound t (List.mem_of_mem_dropLast ht)
    · rw [List.mem_singleton.mp ht]
      refine hs.extend ?_
      rw [← hnext, ← hseq]
      exact hm
  · exact ⟨_, List.getLast?_concat, by rw [Segment.next_extend, hnext]⟩

theorem Delivered.onRequest (h : Delivered received c segments) (hm : received isSnapshot m)
    (hrun : onRequest os isSnapshot c m = .ok c') :
    (∃ segments', Delivered received c' segments') ∧
      (c'.inRecovery = true → c'.incomingMdUpdates = c.incomingMdUpdates) ∧
      (c.inRecovery = true → c'.inRecovery = false → ∃ s : Segment, s.Sound received ∧
        c'.incomingMdUpdates = c.incomingMdUpdates ++ s.updates ∧ c'.nextExpIncSeqNum = s.next) := by
  rcases onRequest_cases hrun with ⟨c₁, rfl, hrec, hin, hc⟩ | ⟨hrec, _, rfl⟩ | ⟨hrec, rfl, hseq, rfl⟩
  · have hq : (∀ e ∈ c₁.snapshotQueuedMsgs.toList, received true ⟨e.1, e.2⟩) ∧
        ∀ e ∈ c₁.incrementalQueuedMsgs.toList, received false ⟨e.1, e.2⟩ := by
      rcases hc with ⟨_, rfl⟩ | ⟨_, hs, hi⟩
      · exact ⟨h.snapshotQueue, h.incrementalQueue⟩
      · simp [hs, hi]
    rcases queueMessage_delivers hrec hq.1 hq.2 hm with ⟨hrec', hin', hs', hi'⟩ |
      ⟨s, hs, hrec', hin', hnext, hs', hi'⟩
    · refine ⟨⟨segments, hin'.trans (hin.trans h.written), h.sound, fun hout ↦ ?_, hs', hi'⟩,
        fun _ ↦ hin'.trans hin, fun _ hout ↦ ?_⟩
      all_goals cases hrec'.symm.trans hout
    · rw [hin] at hin'
      refine ⟨⟨_, h.append hs hin' hnext hs' hi'⟩, fun hrec ↦ ?_, fun _ _ ↦ ⟨s, hs, hin', hnext⟩⟩
      cases hrec'.symm.trans hrec
  · exact ⟨⟨segments, h⟩, fun _ ↦ rfl, fun hrec' ↦ by cases hrec'.symm.trans hrec⟩
  · refine ⟨h.extend hrec hm hseq, fun hrec' ↦ ?_, fun hrec' ↦ ?_⟩
    all_goals cases hrec'.symm.trans hrec

theorem delivered_of_run {snapshotGroup incrementalGroup : Group} {c₀ : MarketDataConsumer}
    {arrivals : List (Bool × List MDPMarketUpdate)}
    (hnew : new os snapshotGroup incrementalGroup = .ok c₀)
    (hrun : arrivals.foldlM (onReceived os) c₀ = .ok c)
    (received : Bool → MDPMarketUpdate → Prop) (hreceived : ∀ a ∈ arrivals, ∀ m ∈ a.2, received a.1 m) :
    ∃ segments, Delivered received c segments := by
  obtain ⟨hrec, hin, hs, hi⟩ := new_ok hnew
  have hstart : Delivered received c₀ [] :=
    ⟨hin, by simp, fun h ↦ (by cases hrec.symm.trans h), by simp [hs], by simp [hi]⟩
  refine handled_invariant (I := fun c ↦ ∃ segments, Delivered received c segments)
    (fun isSnapshot c m c' h hm hrun ↦ ?_) (handled_of_mem hreceived) ⟨[], hstart⟩ hrun
  obtain ⟨segments, h⟩ := h
  exact (h.onRequest hm hrun).1

end Steps

/-- The messages that the callbacks of a run had in their buffers. -/
def Received (arrivals : List (Bool × List MDPMarketUpdate)) (isSnapshot : Bool)
    (m : MDPMarketUpdate) : Prop :=
  ∃ messages, (isSnapshot, messages) ∈ arrivals ∧ m ∈ messages

/-- What is written is a sequence of segments, the last of which is up to date outside of a
recovery; and the next message of any callback writes nothing during a recovery but the beginning
of a segment, with which the recovery ends. -/
theorem gap_free {os : Os} {snapshotGroup incrementalGroup : Group} {c₀ c : MarketDataConsumer}
    {arrivals : List (Bool × List MDPMarketUpdate)}
    (hnew : new os snapshotGroup incrementalGroup = .ok c₀)
    (hrun : arrivals.foldlM (onReceived os) c₀ = .ok c) :
    (∃ segments : List Segment, c.incomingMdUpdates = segments.flatMap Segment.updates ∧
      (∀ s ∈ segments, s.Sound (Received arrivals)) ∧
      (c.inRecovery = false →
        ∃ s, segments.getLast? = some s ∧ c.nextExpIncSeqNum = s.next)) ∧
    ∀ isSnapshot m c', onRequest os isSnapshot c m = .ok c' →
      (c'.inRecovery = true → c'.incomingMdUpdates = c.incomingMdUpdates) ∧
      (c.inRecovery = true → c'.inRecovery = false → ∃ s : Segment,
        s.Sound (Received (arrivals ++ [(isSnapshot, [m])])) ∧
        c'.incomingMdUpdates = c.incomingMdUpdates ++ s.updates ∧ c'.nextExpIncSeqNum = s.next) := by
  refine ⟨?_, fun isSnapshot m c' hstep ↦ ?_⟩
  · obtain ⟨segments, h⟩ := delivered_of_run hnew hrun (Received arrivals)
      fun a ha m hm ↦ ⟨a.2, ha, hm⟩
    exact ⟨segments, h.written, h.sound, h.synced⟩
  · obtain ⟨segments, h⟩ := delivered_of_run hnew hrun (Received (arrivals ++ [(isSnapshot, [m])]))
      fun a ha m hm ↦ ⟨a.2, List.mem_append_left _ ha, hm⟩
    exact (h.onRequest ⟨[m], by simp, List.mem_singleton_self m⟩ hstep).2

theorem gap_free_once :
    ∃ c, [(true, [⟨0, ⟨.SNAPSHOT_START, 4, 0, .INVALID, 0, 0, 0⟩⟩,
          ⟨1, ⟨.SNAPSHOT_END, 4, 0, .INVALID, 0, 0, 0⟩⟩]),
        (false, [⟨5, ⟨.ADD, 7, 0, .BUY, 100, 5, 1⟩⟩])].foldlM (onReceived sameFd) started = .ok c ∧
      c.incomingMdUpdates = [⟨.ADD, 7, 0, .BUY, 100, 5, 1⟩] ∧ ∃ segments : List Segment,
        c.incomingMdUpdates = segments.flatMap Segment.updates ∧
        ∃ s, segments.getLast? = some s ∧ s.next = 6 := by
  have hnew : new sameFd ⟨"233.252.14.1", 20000⟩ ⟨"233.252.14.3", 20001⟩ = .ok started := rfl
  obtain ⟨c, hrun, hin, hrec, hnext⟩ : ∃ c, [(true, [⟨0, ⟨.SNAPSHOT_START, 4, 0, .INVALID, 0, 0, 0⟩⟩,
          ⟨1, ⟨.SNAPSHOT_END, 4, 0, .INVALID, 0, 0, 0⟩⟩]),
        (false, [⟨5, ⟨.ADD, 7, 0, .BUY, 100, 5, 1⟩⟩])].foldlM (onReceived sameFd) started = .ok c ∧
      c.incomingMdUpdates = [⟨.ADD, 7, 0, .BUY, 100, 5, 1⟩] ∧ c.inRecovery = false ∧
      c.nextExpIncSeqNum = 6 := Yields.exists_ok (by decide +kernel)
  obtain ⟨segments, hwritten, _, hsync⟩ := (gap_free hnew hrun).1
  obtain ⟨s, hs, hs'⟩ := hsync hrec
  exact ⟨c, hrun, hin, segments, hwritten, s, hs, hs'.symm.trans hnext⟩

end LowLatency.Trading.MarketDataConsumer
