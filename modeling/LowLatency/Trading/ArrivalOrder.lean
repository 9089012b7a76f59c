import LowLatency.Trading.SnapshotSync

namespace LowLatency.Trading.MarketDataConsumer

open Common Exchange OrderedMap

def flat (arrivals : List (Bool × List MDPMarketUpdate)) : List (Bool × MDPMarketUpdate) :=
  arrivals.flatMap fun a ↦ a.2.map (a.1, ·)

def handle (os : Os) (c : MarketDataConsumer) (m : Bool × MDPMarketUpdate) :
    Except Fault MarketDataConsumer :=
  onRequest os m.1 c m.2

def onChannel (isSnapshot : Bool) (ms : List (Bool × MDPMarketUpdate)) : List MDPMarketUpdate :=
  (ms.filter (·.1 = isSnapshot)).map Prod.snd

/-- The queue does not hold a complete snapshot, but perhaps the beginning of one. -/
def Partial (queued : QueuedMarketUpdates) : Prop :=
  queued.toList = [] ∨ ∃ us u v, queued.toList = numbered 0 us ∧ us.head? = some u ∧
    u.type = .SNAPSHOT_START ∧ us.getLast? = some v ∧ v.type ≠ .SNAPSHOT_END

/-- With the message the queue holds a complete snapshot. -/
def Completes (c : MarketDataConsumer) (m : MDPMarketUpdate) : Prop :=
  ∃ us last, (c.enqueue true m).snapshotQueuedMsgs.toList = numbered 0 us ∧ Complete us last

def NoneCompletes : MarketDataConsumer → List MDPMarketUpdate → Prop
  | _, [] => True
  | c, m :: ms => ¬ c.Completes m ∧ NoneCompletes (c.queueMessage true m) ms

/-- What the two consumers have forwarded, expect and hold is the same. -/
structure Agree (c c' : MarketDataConsumer) : Prop where
  written : c.incomingMdUpdates = c'.incomingMdUpdates
  inRecovery : c.inRecovery = c'.inRecovery
  expected : c.nextExpIncSeqNum = c'.nextExpIncSeqNum
  snapshots : c.snapshotQueuedMsgs.toList = c'.snapshotQueuedMsgs.toList
  incrementals : c.incrementalQueuedMsgs.toList = c'.incrementalQueuedMsgs.toList

variable {os : Os} {c c' d : MarketDataConsumer} {m : MDPMarketUpdate} {ms : List MDPMarketUpdate}
  {a : Bool × MDPMarketUpdate} {as : List (Bool × MDPMarketUpdate)}
  {arrivals : List (Bool × List MDPMarketUpdate)}

section Check

theorem checkSnapshotSync_of_partial (h : Partial c.snapshotQueuedMsgs) : c.checkSnapshotSync = c := by
  rcases h with hnil | ⟨us, u, v, hq, hhead, hu, hlast, hv⟩
  · unfold checkSnapshotSync
    rw [hnil]
  · exact checkSnapshotSync_open hq hhead hu hlast hv

theorem checkSnapshotSync_incomplete {queued : QueuedMarketUpdates}
    (h : ¬ ∃ us last, queued.toList = numbered 0 us ∧ Complete us last) :
    ∃ queued', Partial queued' ∧ ∀ d : MarketDataConsumer, d.snapshotQueuedMsgs = queued →
      d.checkSnapshotSync = { d with snapshotQueuedMsgs := queued' } := by
  by_cases hnum : ∃ us, queued.toList = numbered 0 us
  · obtain ⟨us, hq⟩ := hnum
    have keep : Partial queued → ∃ queued', Partial queued' ∧ ∀ d : MarketDataConsumer,
        d.snapshotQueuedMsgs = queued → d.checkSnapshotSync = { d with snapshotQueuedMsgs := queued' } :=
      fun hpart ↦ ⟨queued, hpart, fun d hd ↦ by
        subst hd
        exact checkSnapshotSync_of_partial hpart⟩
    cases us with
    | nil => exact keep (.inl hq)
    | cons u us =>
      by_cases hstart : u.type = .SNAPSHOT_START
      · have hlast := List.getLast?_eq_some_getLast (List.cons_ne_nil u us)
        exact keep (.inr ⟨_, u, _, hq, rfl, hstart, hlast, fun hend ↦
          h ⟨_, _, hq, ⟨u, rfl, hstart⟩, _, hlast, hend, rfl⟩⟩)
      · rw [numbered_cons] at hq
        exact ⟨∅, .inl rfl, fun d hd ↦ checkSnapshotSync_not_start (hd ▸ hq) hstart⟩
  · exact ⟨∅, .inl rfl, fun d hd ↦ checkSnapshotSync_unnumbered fun us hus ↦ hnum ⟨us, hd ▸ hus⟩⟩

theorem enqueue_snapshot_congr (h : d.snapshotQueuedMsgs = c.snapshotQueuedMsgs) :
    (d.enqueue true m).snapshotQueuedMsgs = (c.enqueue true m).snapshotQueuedMsgs := by
  simp only [enqueue, if_true, h]

/-- A snapshot message that does not complete a snapshot changes the snapshot queue only, to one that
depends on nothing else. -/
theorem queueMessage_incomplete (h : ¬ c.Completes m) :
    ∃ queued, Partial queued ∧ ∀ d : MarketDataConsumer, d.snapshotQueuedMsgs = c.snapshotQueuedMsgs →
      d.queueMessage true m = { d with snapshotQueuedMsgs := queued } := by
  obtain ⟨queued, hpart, hcheck⟩ := checkSnapshotSync_incomplete h
  refine ⟨queued, hpart, fun d hd ↦ ?_⟩
  rw [queueMessage, hcheck _ (enqueue_snapshot_congr hd)]
  rfl

theorem queueMessage_incremental (h : Partial c.snapshotQueuedMsgs) :
    c.queueMessage false m = c.enqueue false m := checkSnapshotSync_of_partial h

end Check

section Collect

theorem handle_inRecovery (h : c.inRecovery = true) :
    handle os c a = .ok (c.queueMessage a.1 a.2) := by
  rw [handle, onRequest, if_pos h]
  rfl

theorem noneCompletes_congr (h : d.snapshotQueuedMsgs = c.snapshotQueuedMsgs)
    (hnone : NoneCompletes c ms) : NoneCompletes d ms ∧
      (ms.foldl (queueMessage true) d).snapshotQueuedMsgs =
        (ms.foldl (queueMessage true) c).snapshotQueuedMsgs := by
  induction ms generalizing c d with
  | nil => exact ⟨trivial, h⟩
  | cons m ms ih =>
    obtain ⟨hm, hms⟩ := hnone
    obtain ⟨queued, -, hrun⟩ := queueMessage_incomplete hm
    have hsame : (d.queueMessage true m).snapshotQueuedMsgs =
        (c.queueMessage true m).snapshotQueuedMsgs := by
      rw [hrun d h, hrun c rfl]
    obtain ⟨hnone', hfold⟩ := ih hsame hms
    refine ⟨⟨?_, hnone'⟩, hfold⟩
    rwa [Completes, enqueue_snapshot_congr h]

theorem handle_collects (hrec : c.inRecovery = true) (hpart : Partial c.snapshotQueuedMsgs)
    (hnone : NoneCompletes c (onChannel true as)) :
    (∀ a, Guarded (handle os) (fun c _ ↦ c.inRecovery = true) c (as ++ [a])) ∧
      as.foldlM (handle os) c = .ok { c with
        snapshotQueuedMsgs := ((onChannel true as).foldl (queueMessage true) c).snapshotQueuedMsgs
        incrementalQueuedMsgs := insertAll c.incrementalQueuedMsgs
          ((onChannel false as).map fun m ↦ (m.seqNum, m.meMarketUpdate)) } := by
  induction as generalizing c with
  | nil => exact ⟨fun a ↦ ⟨hrec, by split <;> trivial⟩, rfl⟩
  | cons a as ih =>
    obtain ⟨isSnapshot, m⟩ := a
    have hstep : handle os c (isSnapshot, m) = _ := handle_inRecovery hrec
    cases isSnapshot with
    | true =>
      obtain ⟨hm, hms⟩ := hnone
      obtain ⟨queued, hpart', hrun⟩ := queueMessage_incomplete hm
      have hnext := hrun c rfl
      simp only [hnext] at hstep hms
      obtain ⟨hguard, hfold⟩ := ih (c := { c with snapshotQueuedMsgs := queued }) hrec hpart' hms
      refine ⟨fun a ↦ (Guarded.cons_ok hstep).mpr ⟨hrec, hguard a⟩, ?_⟩
      rw [List.foldlM_cons, hstep, ok_bind, hfold]
      have hon : onChannel true ((true, m) :: as) = m :: onChannel true as := rfl
      rw [hon, List.foldl_cons, hnext]
      rfl
    | false =>
      have hon : onChannel true ((false, m) :: as) = onChannel true as := rfl
      rw [queueMessage_incremental hpart] at hstep
      rw [hon] at hnone ⊢
      obtain ⟨hnone', hsame⟩ := noneCompletes_congr (c := c) (d := c.enqueue false m) rfl hnone
      obtain ⟨hguard, hfold⟩ := ih (c := c.enqueue false m) hrec hpart hnone'
      refine ⟨fun a ↦ (Guarded.cons_ok hstep).mpr ⟨hrec, hguard a⟩, ?_⟩
      rw [List.foldlM_cons, hstep, ok_bind, hfold, hsame]
      rfl

end Collect

section Reachable

theorem Partial.queueMessage (h : Partial c.snapshotQueuedMsgs) (isSnapshot : Bool) (m : MDPMarketUpdate) :
    Partial (c.queueMessage isSnapshot m).snapshotQueuedMsgs := by
  cases isSnapshot with
  | false =>
    rw [queueMessage_incremental h]
    exact h
  | true =>
    by_cases hcomplete : c.Completes m
    · obtain ⟨us, last, hq, hus⟩ := hcomplete
      rw [MarketDataConsumer.queueMessage, checkSnapshotSync_of_complete hq hus]
      split <;> exact .inl rfl
    · obtain ⟨queued, hpart, hrun⟩ := queueMessage_incomplete hcomplete
      rw [hrun c rfl]
      exact hpart

theorem Partial.onRequest {isSnapshot : Bool} (h : Partial c.snapshotQueuedMsgs)
    (hrun : onRequest os isSnapshot c m = .ok c') : Partial c'.snapshotQueuedMsgs := by
  rcases onRequest_cases hrun with ⟨c₁, rfl, -, -, ⟨-, rfl⟩ | ⟨-, hempty, -⟩⟩ | ⟨-, -, rfl⟩ |
    ⟨-, -, -, rfl⟩
  · exact h.queueMessage isSnapshot m
  · have hpart : Partial c₁.snapshotQueuedMsgs := .inl (by rw [hempty]; rfl)
    exact hpart.queueMessage isSnapshot m
  · exact h
  · exact h

theorem partial_of_run {snapshotGroup incrementalGroup : Group}
    (hnew : new os snapshotGroup incrementalGroup = .ok c)
    (hrun : arrivals.foldlM (onReceived os) c = .ok c') : Partial c'.snapshotQueuedMsgs := by
  obtain ⟨-, -, hempty, -⟩ := new_ok hnew
  refine handled_invariant (P := fun _ _ _ ↦ True) (I := fun c ↦ Partial c.snapshotQueuedMsgs)
    (fun _ _ _ _ h _ hrun ↦ h.onRequest hrun) (handled_of_mem fun _ _ _ _ ↦ trivial) (.inl ?_) hrun
  rw [hempty]
  rfl

theorem foldlM_onReceived (h : Guarded (handle os) (fun c _ ↦ c.inRecovery = true) c (flat arrivals)) :
    arrivals.foldlM (onReceived os) c = (flat arrivals).foldlM (handle os) c := by
  induction arrivals generalizing c with
  | nil => rfl
  | cons received arrivals ih =>
    obtain ⟨isSnapshot, ms⟩ := received
    have hflat : flat ((isSnapshot, ms) :: arrivals) = ms.map (isSnapshot, ·) ++ flat arrivals := rfl
    rw [hflat] at h ⊢
    obtain ⟨hms, hrest⟩ := h.append
    have hstep : c.onReceived os (isSnapshot, ms) = (ms.map (isSnapshot, ·)).foldlM (handle os) c := by
      rw [List.foldlM_map]
      cases ms with
      | nil => exact ite_self _
      | cons m ms => exact if_neg fun hdrop ↦ hdrop.2 hms.head
    rw [List.foldlM_cons, hstep, List.foldlM_append]
    cases hrun : (ms.map (isSnapshot, ·)).foldlM (handle os) c with
    | error e => rfl
    | ok c₁ => exact ih (hrest c₁ hrun)

end Reachable

section Agreement

theorem Agree.enqueue (h : Agree c d) (hs : c.snapshotQueuedMsgs = d.snapshotQueuedMsgs) :
    Agree (c.enqueue true m) (d.enqueue true m) :=
  ⟨h.written, h.inRecovery, h.expected, by rw [enqueue_snapshot_congr hs], h.incrementals⟩

theorem Agree.checkSnapshotSync (h : Agree c d) : Agree c.checkSnapshotSync d.checkSnapshotSync := by
  unfold MarketDataConsumer.checkSnapshotSync
  rw [h.snapshots, h.incrementals]
  split
  · exact h
  · split_ifs
    · exact ⟨h.written, h.inRecovery, h.expected, rfl, h.incrementals⟩
    · split
      · exact ⟨h.written, h.inRecovery, h.expected, rfl, h.incrementals⟩
      · simp only
        split_ifs
        · exact h
        · split
          · exact ⟨h.written, h.inRecovery, rfl, rfl, h.incrementals⟩
          · exact ⟨by rw [h.written], rfl, rfl, rfl, rfl⟩

end Agreement

theorem onReceived_last (hrec : c.inRecovery = true) (hpart : Partial c.snapshotQueuedMsgs)
    (hflat : flat arrivals = as ++ [(true, m)]) (hnone : NoneCompletes c (onChannel true as)) :
    arrivals.foldlM (onReceived os) c = .ok (queueMessage true { c with
      snapshotQueuedMsgs := ((onChannel true as).foldl (queueMessage true) c).snapshotQueuedMsgs
      incrementalQueuedMsgs := insertAll c.incrementalQueuedMsgs
        ((onChannel false as).map fun m ↦ (m.seqNum, m.meMarketUpdate)) } m) := by
  obtain ⟨hguard, hrun⟩ := @handle_collects os _ _ hrec hpart hnone
  rw [foldlM_onReceived (hflat ▸ hguard _), hflat, List.foldlM_append, hrun, ok_bind, foldlM_singleton]
  exact handle_inRecovery hrec

/-- In every reachable recovery, two sequences of buffers that end with the same snapshot message, have
the same snapshot messages before it, none of which completes a snapshot, and the same incremental
messages in any order and number, lead to consumers that agree. -/
theorem arrival_order_irrelevant {snapshotGroup incrementalGroup : Group} {c₀ : MarketDataConsumer}
    {before arrivals' : List (Bool × List MDPMarketUpdate)} {as' : List (Bool × MDPMarketUpdate)}
    (hnew : new os snapshotGroup incrementalGroup = .ok c₀)
    (hreach : before.foldlM (onReceived os) c₀ = .ok c) (hrec : c.inRecovery = true)
    (hflat : flat arrivals = as ++ [(true, m)]) (hflat' : flat arrivals' = as' ++ [(true, m)])
    (hsnapshots : onChannel true as = onChannel true as') (hnone : NoneCompletes c (onChannel true as))
    (hincrementals : ∀ i, i ∈ onChannel false as ↔ i ∈ onChannel false as')
    (hcontent : ∀ i ∈ onChannel false as, ∀ j ∈ onChannel false as, i.seqNum = j.seqNum → i = j) :
    ∃ d d', arrivals.foldlM (onReceived os) c = .ok d ∧ arrivals'.foldlM (onReceived os) c = .ok d' ∧
      Agree d d' := by
  have hpart := partial_of_run hnew hreach
  have hentries : (insertAll c.incrementalQueuedMsgs
      ((onChannel false as).map fun i ↦ (i.seqNum, i.meMarketUpdate))).toList =
      (insertAll c.incrementalQueuedMsgs
        ((onChannel false as').map fun i ↦ (i.seqNum, i.meMarketUpdate))).toList := by
    apply toList_insertAll_congr
    · intro e he e' he' heq
      obtain ⟨i, hi, rfl⟩ := List.mem_map.mp he
      obtain ⟨j, hj, rfl⟩ := List.mem_map.mp he'
      rw [hcontent i hi j hj heq]
    · intro e
      simp only [List.mem_map, hincrementals]
  refine ⟨_, _, onReceived_last hrec hpart hflat hnone,
    onReceived_last hrec hpart hflat' (hsnapshots ▸ hnone), ?_⟩
  rw [hsnapshots]
  exact Agree.checkSnapshotSync (Agree.enqueue ⟨rfl, rfl, rfl, rfl, hentries⟩ rfl)

theorem arrival_order_irrelevant_twice :
    let first : MDPMarketUpdate := ⟨0, ⟨.SNAPSHOT_START, 4, 0, .INVALID, 0, 0, 0⟩⟩
    let last : MDPMarketUpdate := ⟨1, ⟨.SNAPSHOT_END, 4, 0, .INVALID, 0, 0, 0⟩⟩
    let add : MDPMarketUpdate := ⟨5, ⟨.ADD, 7, 0, .BUY, 100, 5, 1⟩⟩
    ∃ d d', [(true, [first]), (false, [add]), (true, [last])].foldlM (onReceived sameFd) started = .ok d ∧
      [(false, [add, add]), (true, [first, last])].foldlM (onReceived sameFd) started = .ok d' ∧
      Agree d d' := by
  intro first last add
  have hnew : new sameFd ⟨"233.252.14.1", 20000⟩ ⟨"233.252.14.3", 20001⟩ = .ok started := rfl
  refine @arrival_order_irrelevant sameFd started last [(true, first), (false, add)] _ _ _ _ [] _
    [(false, add), (false, add), (true, first)] hnew rfl rfl rfl rfl rfl ⟨?_, trivial⟩ ?_ ?_
  · rintro ⟨us, _, hq, -, v, hv, hend, -⟩
    have hfirst : (started.enqueue true first).snapshotQueuedMsgs.toList = [(0, first.meMarketUpdate)] := rfl
    obtain ⟨-, hlast⟩ := head_getLast_numbered (hfirst.symm.trans hq)
    rw [← Option.some.inj (hlast.symm.trans hv)] at hend
    cases hend
  · simp [onChannel]
  · simp [onChannel]

end LowLatency.Trading.MarketDataConsumer
