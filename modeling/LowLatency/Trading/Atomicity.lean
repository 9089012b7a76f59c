import LowLatency.Trading.SnapshotRoundTrip

namespace LowLatency.Exchange.SnapshotSynthesizer

open Common

variable {v : SnapshotSynthesizer} {us : List MEMarketUpdate} {m : MDPMarketUpdate}

theorem map_messages (us : List MEMarketUpdate) : (messages us).map (·.meMarketUpdate) = us := by
  simp [messages, List.mapIdx_eq_zipIdx_map, Function.comp_def]

theorem mem_messages (h : m ∈ messages us) : us[m.seqNum]? = some m.meMarketUpdate := by
  obtain ⟨i, hi, rfl⟩ := List.mem_mapIdx.mp h
  exact List.getElem?_eq_getElem hi

theorem OnlyAdds.eq_zero_of_start (h : v.OnlyAdds) {i : ℕ} {u : MEMarketUpdate}
    (hi : v.snapshot[i]? = some u) (hu : u.type = .SNAPSHOT_START) :
    i = 0 ∧ u = mark .SNAPSHOT_START v.lastIncSeqNum := by
  cases i with
  | zero => exact ⟨rfl, (Option.some.inj hi).symm⟩
  | succ i =>
    have hmem : u ∈ v.body ++ [mark .SNAPSHOT_END v.lastIncSeqNum] := List.mem_of_getElem? hi
    rcases List.mem_append.mp hmem with hbody | hend
    · rcases h.type_of_mem hbody with htype | htype <;> simp [hu] at htype
    · rw [List.mem_singleton.mp hend] at hu
      simp [mark] at hu

end LowLatency.Exchange.SnapshotSynthesizer

namespace LowLatency.Trading.MarketDataConsumer

open Common Exchange SnapshotSynthesizer

section Cycles

variable (pub : ℕ → SnapshotSynthesizer)

/-- A buffer of one of the sockets. A message of a snapshot comes with the cycle it was published in. -/
abbrev Arrival := Bool × List (ℕ × MDPMarketUpdate)

def Arrival.received (a : Arrival) : Bool × List MDPMarketUpdate := (a.1, a.2.map Prod.snd)

def snapshots (arrivals : List Arrival) : List (ℕ × MDPMarketUpdate) :=
  arrivals.flatMap fun a ↦ if a.1 then a.2 else []

def Published (s : ℕ × MDPMarketUpdate) : Prop := s.2 ∈ (pub s.1).publishSnapshot

/-- A message whose number follows that of the message received before it is of the same cycle. -/
def Unspliced (s s' : ℕ × MDPMarketUpdate) : Prop := s'.2.seqNum = s.2.seqNum + 1 → s'.1 = s.1

instance : DecidableRel Unspliced := fun _ _ ↦ inferInstanceAs (Decidable (_ → _))

def queued (c : MarketDataConsumer) : List MDPMarketUpdate :=
  c.snapshotQueuedMsgs.toList.map fun e ↦ ⟨e.1, e.2⟩

/-- If the message makes the consumer accept what is queued, that is one published snapshot. -/
def AcceptsWhole (isSnapshot : Bool) (c : MarketDataConsumer) (m : MDPMarketUpdate) : Prop :=
  c.inRecovery = true → (c.queueMessage isSnapshot m).inRecovery = false →
    ∃ k, (c.enqueue isSnapshot m).queued = (pub k).publishSnapshot

/-- The queue holds the first messages of a published snapshot, but not all of them, and the last of
them is the last message received. Nothing is queued outside of a recovery. -/
structure Collecting (sent : List (ℕ × MDPMarketUpdate)) (c : MarketDataConsumer) : Prop where
  queue : ∃ k us, c.snapshotQueuedMsgs.toList = numbered 0 us ∧ us <+: (pub k).opening ∧
    (us ≠ [] → ∃ s, sent.getLast? = some s ∧ s.1 = k ∧ s.2.seqNum + 1 = us.length)
  idle : c.inRecovery = false → c.snapshotQueuedMsgs.toList = []

end Cycles

variable {pub : ℕ → SnapshotSynthesizer} {c c' : MarketDataConsumer} {us : List MEMarketUpdate}
  {isSnapshot : Bool} {m : MDPMarketUpdate} {sent sent' : List (ℕ × MDPMarketUpdate)}
  {s : ℕ × MDPMarketUpdate} {arrivals : List Arrival}

theorem queued_of_numbered (h : c.snapshotQueuedMsgs.toList = numbered 0 us) :
    c.queued = messages us := by
  rw [queued, h, numbered, messages, List.mapIdx_eq_zipIdx_map, List.map_map]
  rfl

theorem Collecting.empty (h : c.snapshotQueuedMsgs.toList = []) : Collecting pub sent c where
  queue := ⟨0, [], h, List.nil_prefix, fun hne ↦ absurd rfl hne⟩
  idle := fun _ ↦ h

theorem checkSnapshotSync_of_prefix (hadds : ∀ k, (pub k).OnlyAdds) {k : ℕ}
    (hq : c.snapshotQueuedMsgs.toList = numbered 0 us) (hus : us <+: (pub k).opening) :
    c.checkSnapshotSync = c := by
  cases us with
  | nil =>
    unfold checkSnapshotSync
    rw [hq]
    rfl
  | cons u us =>
    obtain ⟨ws, hws⟩ := hus
    have hu : u = mark .SNAPSHOT_START (pub k).lastIncSeqNum := (List.cons.inj hws).1
    obtain ⟨w, hlast⟩ : ∃ w, (u :: us).getLast? = some w :=
      ⟨_, List.getLast?_eq_some_getLast (List.cons_ne_nil u us)⟩
    refine checkSnapshotSync_open hq List.head?_cons (by rw [hu]; rfl) hlast ((hadds k).not_end ?_)
    rw [← hws]
    exact List.mem_append_left ws (List.mem_of_getLast? hlast)

theorem queueMessage_stays (hadds : ∀ k, (pub k).OnlyAdds) (hrec : c.inRecovery = true) {k : ℕ}
    (hq : (c.enqueue isSnapshot m).snapshotQueuedMsgs.toList = numbered 0 us)
    (hus : us <+: (pub k).opening)
    (hlast : us ≠ [] → ∃ s, sent.getLast? = some s ∧ s.1 = k ∧ s.2.seqNum + 1 = us.length) :
    Collecting pub sent (c.queueMessage isSnapshot m) ∧ AcceptsWhole pub isSnapshot c m := by
  have hsame := checkSnapshotSync_of_prefix hadds hq hus
  have hrec' : (c.enqueue isSnapshot m).inRecovery = true := by rw [inRecovery_enqueue, hrec]
  refine ⟨⟨?_, fun hout ↦ ?_⟩, fun _ hout ↦ ?_⟩
  · rw [queueMessage, hsame]
    exact ⟨k, us, hq, hus, hlast⟩
  · rw [queueMessage, hsame] at hout
    cases hrec'.symm.trans hout
  · rw [queueMessage, hsame] at hout
    cases hrec'.symm.trans hout

theorem queueMessage_cleared (hrec : c.inRecovery = true)
    (hclear : (c.enqueue isSnapshot m).checkSnapshotSync =
      { c.enqueue isSnapshot m with snapshotQueuedMsgs := ∅ }) :
    Collecting pub sent (c.queueMessage isSnapshot m) ∧ AcceptsWhole pub isSnapshot c m := by
  refine ⟨?_, fun _ hout ↦ ?_⟩
  · rw [queueMessage, hclear]
    exact .empty rfl
  · rw [queueMessage, hclear] at hout
    cases hrec.symm.trans ((inRecovery_enqueue isSnapshot m).symm.trans hout)

theorem queueMessage_continues (hadds : ∀ k, (pub k).OnlyAdds) (hrec : c.inRecovery = true)
    (hq : c.snapshotQueuedMsgs.toList = numbered 0 us) (hus : us <+: (pub s.1).opening)
    (hpub : Published pub s) (heq : s.2.seqNum = us.length) :
    Collecting pub (sent ++ [s]) (c.queueMessage true s.2) ∧ AcceptsWhole pub true c s.2 := by
  have hq' : (c.enqueue true s.2).snapshotQueuedMsgs.toList =
      numbered 0 (us ++ [s.2.meMarketUpdate]) := by
    rw [enqueue_behind hq heq.ge, numbered_append, heq]
    simp
  have hnext : (pub s.1).snapshot[us.length]? = some s.2.meMarketUpdate := by
    rw [← heq]
    exact mem_messages hpub
  have hprefix : us ++ [s.2.meMarketUpdate] <+: (pub s.1).snapshot := by
    have htake : us = (pub s.1).snapshot.take us.length :=
      List.prefix_iff_eq_take.mp (hus.trans (List.prefix_append _ _))
    have hstep := List.take_add_one (l := (pub s.1).snapshot) (i := us.length)
    rw [hnext, ← htake] at hstep
    rw [show us ++ [s.2.meMarketUpdate] = us ++ (some s.2.meMarketUpdate).toList from rfl, ← hstep]
    exact List.take_prefix _ _
  rcases List.prefix_concat_iff.mp hprefix with hall | hpart
  · have hcomplete : Complete (us ++ [s.2.meMarketUpdate]) (pub s.1).lastIncSeqNum := by
      rw [hall]
      exact ⟨⟨_, by simp; rfl, rfl⟩, _, List.getLast?_concat, rfl, rfl⟩
    refine ⟨?_, fun _ _ ↦ ⟨s.1, ?_⟩⟩
    · rw [queueMessage, checkSnapshotSync_of_complete hq' hcomplete]
      split <;> exact .empty rfl
    · rw [queued_of_numbered hq', hall]
      rfl
  · exact queueMessage_stays hadds hrec hq' hpart
      fun _ ↦ ⟨s, List.getLast?_concat, rfl, by simp [heq]⟩

theorem Collecting.queueSnapshot (hadds : ∀ k, (pub k).OnlyAdds) (h : Collecting pub sent c)
    (hpub : Published pub s) (hchain : ∀ t ∈ sent.getLast?, Unspliced t s)
    (hrec : c.inRecovery = true) :
    Collecting pub (sent ++ [s]) (c.queueMessage true s.2) ∧ AcceptsWhole pub true c s.2 := by
  obtain ⟨k, us, hq, hus, hlast⟩ := h.queue
  by_cases hagain : us = [] ∨ s.2.seqNum < us.length
  · have hq' := enqueue_again hq hagain
    by_cases hstart : s.2.meMarketUpdate.type = .SNAPSHOT_START
    · obtain ⟨hzero, hu⟩ := (hadds s.1).eq_zero_of_start (mem_messages hpub) hstart
      have hfirst : (c.enqueue true s.2).snapshotQueuedMsgs.toList =
          numbered 0 [s.2.meMarketUpdate] := by
        rw [hq', hzero]
        rfl
      have hpart : [s.2.meMarketUpdate] <+: (pub s.1).opening := ⟨(pub s.1).body, by rw [hu]; rfl⟩
      exact queueMessage_stays hadds hrec hfirst hpart
        fun _ ↦ ⟨s, List.getLast?_concat, rfl, by simp [hzero]⟩
    · exact queueMessage_cleared hrec (checkSnapshotSync_not_start hq' hstart)
  · obtain ⟨hne, hge⟩ := not_or.mp hagain
    by_cases heq : s.2.seqNum = us.length
    · obtain ⟨t, ht, rfl, hseq⟩ := hlast hne
      have hcycle : s.1 = t.1 := hchain t ht (by rw [heq, hseq])
      exact queueMessage_continues hadds hrec hq (by rwa [hcycle]) hpub heq
    · have hq' := enqueue_behind hq (not_lt.mp hge)
      refine queueMessage_cleared hrec (checkSnapshotSync_unnumbered fun ws hws ↦ heq ?_)
      have hlast := congrArg (·[us.length]?) (hq'.symm.trans hws)
      simp only [List.getElem?_append_right, length_numbered, le_refl, Nat.sub_self,
        List.getElem?_cons_zero, getElem?_numbered, Nat.zero_add] at hlast
      obtain ⟨u, _, hu⟩ := Option.map_eq_some_iff.mp hlast.symm
      exact (congrArg Prod.fst hu).symm

theorem Collecting.queueIncremental (hadds : ∀ k, (pub k).OnlyAdds) (h : Collecting pub sent c)
    (hrec : c.inRecovery = true) :
    Collecting pub sent (c.queueMessage false m) ∧ AcceptsWhole pub false c m := by
  obtain ⟨k, us, hq, hus, hlast⟩ := h.queue
  exact queueMessage_stays hadds hrec hq hus hlast

theorem Collecting.onSnapshot {os : Os} (hadds : ∀ k, (pub k).OnlyAdds) (h : Collecting pub sent c)
    (hpub : Published pub s) (hchain : ∀ t ∈ sent.getLast?, Unspliced t s)
    (hrun : onRequest os true c s.2 = .ok c') : Collecting pub (sent ++ [s]) c' := by
  rcases onRequest_cases hrun with ⟨c₁, rfl, hrec, _, hc⟩ | ⟨hout, _, rfl⟩ | ⟨_, hfalse, _⟩
  · rcases hc with ⟨_, rfl⟩ | ⟨_, hempty, _⟩
    · exact (h.queueSnapshot hadds hpub hchain hrec).1
    · have hnil : c₁.snapshotQueuedMsgs.toList = [] := by rw [hempty]; rfl
      exact ((Collecting.empty hnil : Collecting pub sent c₁).queueSnapshot hadds hpub hchain hrec).1
  · exact .empty (h.idle hout)
  · cases hfalse

theorem Collecting.onIncremental {os : Os} (hadds : ∀ k, (pub k).OnlyAdds)
    (h : Collecting pub sent c) (hrun : onRequest os false c m = .ok c') :
    Collecting pub sent c' := by
  rcases onRequest_cases hrun with ⟨c₁, rfl, hrec, _, hc⟩ | ⟨_, htrue, _⟩ | ⟨hout, _, _, rfl⟩
  · rcases hc with ⟨_, rfl⟩ | ⟨_, hempty, _⟩
    · exact (h.queueIncremental hadds hrec).1
    · have hnil : c₁.snapshotQueuedMsgs.toList = [] := by rw [hempty]; rfl
      exact ((Collecting.empty hnil).queueIncremental hadds hrec).1
  · cases htrue
  · exact .empty (h.idle hout)

theorem Collecting.onSnapshots {os : Os} (hadds : ∀ k, (pub k).OnlyAdds)
    (h : Collecting pub sent c) (hpub : ∀ s ∈ sent', Published pub s)
    (hchain : (sent ++ sent').IsChain Unspliced)
    (hrun : (sent'.map Prod.snd).foldlM (onRequest os true) c = .ok c') :
    Collecting pub (sent ++ sent') c' := by
  induction sent' generalizing sent c with
  | nil =>
    rw [List.append_nil]
    exact Except.ok.inj hrun ▸ h
  | cons s sent' ih =>
    rw [List.map_cons, List.foldlM_cons] at hrun
    obtain ⟨c₁, hs, hrest⟩ := bind_eq_ok hrun
    have hlast : ∀ t ∈ sent.getLast?, Unspliced t s :=
      fun t ht ↦ (List.isChain_append.mp hchain).2.2 t ht s rfl
    have h₁ := h.onSnapshot hadds (hpub s List.mem_cons_self) hlast hs
    rw [List.append_cons] at hchain ⊢
    exact ih h₁ (fun s hs ↦ hpub s (List.mem_cons_of_mem _ hs)) hchain hrest

theorem snapshots_concat (a : Arrival) :
    snapshots (arrivals ++ [a]) = snapshots arrivals ++ if a.1 then a.2 else [] := by
  simp [snapshots]

theorem Collecting.onReceived {os : Os} (hadds : ∀ k, (pub k).OnlyAdds) (h : Collecting pub sent c)
    {a : Arrival} (hpub : ∀ s ∈ sent ++ (if a.1 then a.2 else []), Published pub s)
    (hchain : (sent ++ if a.1 then a.2 else []).IsChain Unspliced)
    (hrun : onReceived os c a.received = .ok c') :
    Collecting pub (sent ++ if a.1 then a.2 else []) c' := by
  rcases onReceived_cases hrun with ⟨⟨_, hout⟩, rfl⟩ | ⟨_, hloop⟩
  · exact .empty (h.idle hout)
  · obtain ⟨isSnapshot, messages⟩ := a
    cases isSnapshot with
    | true => exact h.onSnapshots hadds (fun s hs ↦ hpub s (List.mem_append_right _ hs)) hchain hloop
    | false =>
      have h' : Collecting pub sent c' :=
        run_invariant (fun _ _ _ hc hm ↦ hc.onIncremental hadds hm) h hloop
      simpa using h'

theorem collecting_of_run {os : Os} {snapshotGroup incrementalGroup : Group} {c₀ : MarketDataConsumer}
    (hadds : ∀ k, (pub k).OnlyAdds) (hnew : new os snapshotGroup incrementalGroup = .ok c₀)
    (hpub : ∀ s ∈ snapshots arrivals, Published pub s)
    (hchain : (snapshots arrivals).IsChain Unspliced)
    (hrun : (arrivals.map Arrival.received).foldlM (onReceived os) c₀ = .ok c) :
    Collecting pub (snapshots arrivals) c := by
  induction arrivals using List.reverseRecOn generalizing c with
  | nil =>
    obtain ⟨_, _, hempty, _⟩ := new_ok hnew
    obtain rfl := Except.ok.inj hrun
    exact .empty (by rw [hempty]; rfl)
  | append_singleton arrivals a ih =>
    rw [List.map_append] at hrun
    obtain ⟨c₁, hpast, ha⟩ := exists_of_foldlM_concat hrun
    rw [snapshots_concat] at hpub hchain ⊢
    exact (ih (fun s hs ↦ hpub s (List.mem_append_left _ hs)) hchain.left_of_append
      hpast).onReceived hadds hpub hchain ha

/-- If no message follows one of another cycle with the next number, what is accepted is one whole
published snapshot, and its body is forwarded in front of queued incremental updates. -/
theorem accepted_whole {os : Os} {snapshotGroup incrementalGroup : Group} {c₀ : MarketDataConsumer}
    {k : ℕ} (hadds : ∀ k, (pub k).OnlyAdds) (hnew : new os snapshotGroup incrementalGroup = .ok c₀)
    (hpub : ∀ s ∈ snapshots (arrivals ++ [(isSnapshot, [(k, m)])]), Published pub s)
    (hchain : (snapshots (arrivals ++ [(isSnapshot, [(k, m)])])).IsChain Unspliced)
    (hrun : (arrivals.map Arrival.received).foldlM (onReceived os) c₀ = .ok c) :
    AcceptsWhole pub isSnapshot c m ∧
      (c.inRecovery = true → (c.queueMessage isSnapshot m).inRecovery = false →
        ∃ k incrementals, (c.queueMessage isSnapshot m).incomingMdUpdates =
          c.incomingMdUpdates ++ ((pub k).body ++ incrementals) ∧
          ∀ u ∈ incrementals, ∃ seq, (seq, u) ∈ (c.enqueue isSnapshot m).incrementalQueuedMsgs.toList) := by
  rw [snapshots_concat] at hpub hchain
  have hc : Collecting pub (snapshots arrivals) c := collecting_of_run hadds hnew
    (fun s hs ↦ hpub s (List.mem_append_left _ hs)) hchain.left_of_append hrun
  have hwhole : AcceptsWhole pub isSnapshot c m := fun hrec ↦ by
    cases isSnapshot with
    | true => exact (hc.queueSnapshot (s := (k, m)) hadds (hpub _ (by simp))
        (fun t ht ↦ (List.isChain_append.mp hchain).2.2 t ht _ rfl) hrec).2 hrec
    | false => exact (hc.queueIncremental hadds hrec).2 hrec
  refine ⟨hwhole, fun hrec hout ↦ ?_⟩
  obtain ⟨k, hk⟩ := hwhole hrec hout
  rw [queueMessage] at hout ⊢
  rcases checkSnapshotSync_cases (c.enqueue isSnapshot m) with ⟨_, _, hcheck, _⟩ |
    ⟨us, last, next, incrementals, hq, _, hinc, hcheck⟩
  · rw [hcheck] at hout
    cases hrec.symm.trans ((inRecovery_enqueue isSnapshot m).symm.trans hout)
  · have hus : us = (pub k).snapshot := by
      rw [← map_messages us, ← queued_of_numbered hq, hk, publishSnapshot, map_messages]
    refine ⟨k, incrementals, ?_, fun u hu ↦ ?_⟩
    · rw [hcheck, hus, unmarked_snapshot (hadds k), incomingMdUpdates_enqueue]
    · obtain ⟨i, hi⟩ := List.getElem?_of_mem hu
      exact ⟨_, (incrementalEvents_spec (Nat.mod_lt _ (by decide)) hinc).2 i u hi⟩

section Cycles

/-- Two cycles: order 0 of ticker 0 has a quantity of 5 in the first snapshot and of 3, after one
more update, in all others. -/
def cycles : ℕ → SnapshotSynthesizer
  | 0 => single 1 ⟨.ADD, 0, 0, .BUY, 100, 5, 1⟩
  | _ => single 2 ⟨.ADD, 0, 0, .BUY, 100, 3, 1⟩

theorem cycles_onlyAdds (k : ℕ) : (cycles k).OnlyAdds := by
  cases k <;> exact fun _ _ _ _ _ _ ↦ rfl

def firstCycle : List MEMarketUpdate :=
  [mark .SNAPSHOT_START 1, clear 0, ⟨.ADD, 0, 0, .BUY, 100, 5, 1⟩, clear 1, clear 2, clear 3, clear 4,
    clear 5, clear 6, clear 7, mark .SNAPSHOT_END 1]

def laterCycle : List MEMarketUpdate :=
  [mark .SNAPSHOT_START 2, clear 0, ⟨.ADD, 0, 0, .BUY, 100, 3, 1⟩, clear 1, clear 2, clear 3, clear 4,
    clear 5, clear 6, clear 7, mark .SNAPSHOT_END 2]

theorem publishSnapshot_cycles_zero : (cycles 0).publishSnapshot = messages firstCycle := by
  rw [publishSnapshot, cycles, snapshot_single]
  rfl

theorem publishSnapshot_cycles_succ (k : ℕ) :
    (cycles (k + 1)).publishSnapshot = messages laterCycle := by
  rw [publishSnapshot, cycles, snapshot_single]
  · rfl
  · simp

def cutOff : List Arrival :=
  [(true, ((messages firstCycle).take 5).map (0, ·)), (false, [(0, ⟨2, clear 0⟩)]),
    (true, ((messages laterCycle).take 10).map (1, ·))]

theorem accepted_whole_cutOff :
    ∃ c, (cutOff.map Arrival.received).foldlM (onReceived sameFd) started = .ok c ∧
      c.inRecovery = true ∧ (c.queueMessage true ⟨10, mark .SNAPSHOT_END 2⟩).inRecovery = false ∧
      ∃ k, (c.enqueue true ⟨10, mark .SNAPSHOT_END 2⟩).queued = (cycles k).publishSnapshot := by
  have hnew : new sameFd ⟨"233.252.14.1", 20000⟩ ⟨"233.252.14.3", 20001⟩ = .ok started := rfl
  have hpub : ∀ s ∈ snapshots (cutOff ++ [(true, [(1, ⟨10, mark .SNAPSHOT_END 2⟩)])]),
      Published cycles s := by
    have hcycle : ∀ s ∈ snapshots (cutOff ++ [(true, [(1, ⟨10, mark .SNAPSHOT_END 2⟩)])]),
        s.1 = 0 ∧ s.2 ∈ messages firstCycle ∨ s.1 = 1 ∧ s.2 ∈ messages laterCycle := by decide +kernel
    intro s hs
    unfold Published
    rcases hcycle s hs with ⟨h0, hmem⟩ | ⟨h1, hmem⟩
    · rwa [h0, publishSnapshot_cycles_zero]
    · rwa [h1, publishSnapshot_cycles_succ]
  have hchain : (snapshots (cutOff ++ [(true, [(1, ⟨10, mark .SNAPSHOT_END 2⟩)])])).IsChain
      Unspliced := by decide +kernel
  obtain ⟨c, hrun, hrec, hout⟩ : ∃ c, (cutOff.map Arrival.received).foldlM (onReceived sameFd) started =
      .ok c ∧ c.inRecovery = true ∧
      (c.queueMessage true ⟨10, mark .SNAPSHOT_END 2⟩).inRecovery = false :=
    Yields.exists_ok (by decide +kernel)
  exact ⟨c, hrun, hrec, hout, (accepted_whole cycles_onlyAdds hnew hpub hchain hrun).1 hrec hout⟩

/-- The end of the first snapshot and the beginning of the second one are lost. What is accepted
has the old quantity, and the update that changed it is taken to be in it. -/
theorem not_accepted_whole :
    ∃ c, [(true, (cycles 0).publishSnapshot.take 10)].foldlM (onReceived sameFd) started = .ok c ∧
      ∃ m ∈ (cycles 1).publishSnapshot, ¬ AcceptsWhole cycles true c m := by
  rw [publishSnapshot_cycles_zero, publishSnapshot_cycles_succ]
  obtain ⟨c, hrun, hrec, hout, hqueued⟩ : ∃ c,
      [(true, (messages firstCycle).take 10)].foldlM (onReceived sameFd) started = .ok c ∧
      c.inRecovery = true ∧ (c.queueMessage true ⟨10, mark .SNAPSHOT_END 2⟩).inRecovery = false ∧
      (c.enqueue true ⟨10, mark .SNAPSHOT_END 2⟩).queued =
        (messages firstCycle).take 10 ++ [⟨10, mark .SNAPSHOT_END 2⟩] :=
    Yields.exists_ok (by decide +kernel)
  refine ⟨c, hrun, ⟨10, mark .SNAPSHOT_END 2⟩, by decide +kernel, fun h ↦ ?_⟩
  obtain ⟨k, hk⟩ := h hrec hout
  rw [hqueued] at hk
  cases k with
  | zero =>
    rw [publishSnapshot_cycles_zero] at hk
    exact absurd hk (by decide +kernel)
  | succ k =>
    rw [publishSnapshot_cycles_succ] at hk
    exact absurd hk (by decide +kernel)

end Cycles

end LowLatency.Trading.MarketDataConsumer
