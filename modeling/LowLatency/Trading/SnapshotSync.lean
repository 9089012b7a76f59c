import LowLatency.GuardedRun
import LowLatency.Trading.MarketDataConsumer

namespace LowLatency.Trading

open Common Exchange Std OrderedMap

def numbered (n : ℕ) (us : List MEMarketUpdate) : List (ℕ × MEMarketUpdate) :=
  (us.zipIdx n).map Prod.swap

section Numbered

variable {n : ℕ} {u : MEMarketUpdate} {us vs : List MEMarketUpdate}

@[simp] theorem numbered_nil : numbered n [] = [] := rfl

@[simp] theorem numbered_cons : numbered n (u :: us) = (n, u) :: numbered (n + 1) us := by
  simp [numbered]

theorem numbered_append : numbered n (us ++ vs) = numbered n us ++ numbered (n + us.length) vs := by
  simp [numbered, List.zipIdx_append]

@[simp] theorem length_numbered : (numbered n us).length = us.length := by simp [numbered]

theorem getElem?_numbered (i : ℕ) : (numbered n us)[i]? = us[i]?.map fun u ↦ (n + i, u) := by
  simp [numbered, List.getElem?_zipIdx, Function.comp_def]

theorem mem_numbered {e : ℕ × MEMarketUpdate} :
    e ∈ numbered n us ↔ ∃ i, e.1 = n + i ∧ us[i]? = some e.2 := by
  induction us generalizing n with
  | nil => simp
  | cons u us ih =>
    rw [numbered_cons, List.mem_cons, ih]
    refine ⟨fun h ↦ ?_, fun h ↦ ?_⟩
    · rcases h with rfl | ⟨i, hi, hu⟩
      · exact ⟨0, rfl, rfl⟩
      · exact ⟨i + 1, by omega, hu⟩
    · obtain ⟨i, hi, hu⟩ := h
      cases i with
      | zero => exact .inl (Prod.ext hi (Option.some.inj hu).symm)
      | succ i => exact .inr ⟨i, by omega, hu⟩

end Numbered

namespace MarketDataConsumer

/-- The messages between the two marks of a snapshot, as they are forwarded. -/
def unmarked (us : List MEMarketUpdate) : List MEMarketUpdate := us.filter fun u ↦ !isMark u

/-- A snapshot from its first mark to its last one, which names the last incremental update in it. -/
def Complete (us : List MEMarketUpdate) (lastIncSeqNum : ℕ) : Prop :=
  (∃ u, us.head? = some u ∧ u.type = .SNAPSHOT_START) ∧
    ∃ u, us.getLast? = some u ∧ u.type = .SNAPSHOT_END ∧ u.orderId = lastIncSeqNum

section Loops

variable {n : ℕ} {us : List MEMarketUpdate} {queued : List (ℕ × MEMarketUpdate)}

theorem snapshotEvents_numbered : snapshotEvents n (numbered n us) = some (unmarked us) := by
  induction us generalizing n with
  | nil => rfl
  | cons u us ih =>
    rw [numbered_cons, snapshotEvents, if_neg (by simp), ih]
    by_cases hu : isMark u <;> simp [unmarked, hu]

theorem numbered_of_snapshotEvents {events : List MEMarketUpdate}
    (h : snapshotEvents n queued = some events) : ∃ us, queued = numbered n us := by
  induction queued generalizing n events with
  | nil => exact ⟨[], rfl⟩
  | cons e queued ih =>
    obtain ⟨seq, u⟩ := e
    rw [snapshotEvents] at h
    by_cases hseq : seq = n
    · rw [if_neg (not_not.mpr hseq)] at h
      obtain ⟨events', hqueued, _⟩ := Option.map_eq_some_iff.mp h
      obtain ⟨us, rfl⟩ := ih hqueued
      exact ⟨u :: us, by rw [numbered_cons, hseq]⟩
    · rw [if_pos hseq] at h
      cases h

theorem incrementalEvents_spec {next : ℕ} {events : List MEMarketUpdate} (hn : n < 2 ^ 64)
    (h : incrementalEvents n queued = (next, some events)) :
    next = (n + events.length) % 2 ^ 64 ∧
      ∀ i u, events[i]? = some u → ((n + i) % 2 ^ 64, u) ∈ queued := by
  induction queued generalizing n events with
  | nil =>
    obtain ⟨rfl, hnone⟩ := Prod.mk.inj h
    obtain rfl := Option.some.inj hnone
    exact ⟨(Nat.mod_eq_of_lt hn).symm, by simp⟩
  | cons e queued ih =>
    obtain ⟨seq, u⟩ := e
    have skip : incrementalEvents n queued = (next, some events) →
        next = (n + events.length) % 2 ^ 64 ∧
          ∀ i u', events[i]? = some u' → ((n + i) % 2 ^ 64, u') ∈ (seq, u) :: queued := fun h' ↦ by
      obtain ⟨hnext, hmem⟩ := ih hn h'
      exact ⟨hnext, fun i u' hi ↦ List.mem_cons_of_mem _ (hmem i u' hi)⟩
    rw [incrementalEvents] at h
    split_ifs at h with hlt hne hmark
    · exact skip h
    · cases (Prod.mk.inj h).2
    · exact skip h
    · obtain ⟨hnext, hsome⟩ := Prod.mk.inj h
      obtain ⟨events', htail, rfl⟩ := Option.map_eq_some_iff.mp hsome
      obtain ⟨hnext', hmem⟩ := ih (Nat.mod_lt _ (by decide)) (Prod.ext hnext htail)
      refine ⟨?_, fun i u' hi ↦ ?_⟩
      · rw [hnext', List.length_cons]
        omega
      · cases i with
        | zero =>
          obtain rfl := Option.some.inj hi
          have : n % 2 ^ 64 = seq := by rw [Nat.mod_eq_of_lt hn]; omega
          rw [Nat.add_zero, this]
          exact List.mem_cons_self
        | succ i =>
          have := hmem i u' hi
          rw [show ((n + 1) % 2 ^ 64 + i) % 2 ^ 64 = (n + (i + 1)) % 2 ^ 64 by omega] at this
          exact List.mem_cons_of_mem _ this

end Loops

section Check

variable {c : MarketDataConsumer} {us : List MEMarketUpdate}

theorem head_getLast_numbered {first : ℕ × MEMarketUpdate} {queued : List (ℕ × MEMarketUpdate)}
    (h : first :: queued = numbered 0 us) :
    us.head? = some first.2 ∧ us.getLast? = some (queued.getLastD first).2 := by
  have hmap : (first :: queued).map Prod.snd = us := by
    rw [h, numbered, List.map_map]
    exact List.zipIdx_map_fst 0 us
  subst hmap
  refine ⟨rfl, ?_⟩
  rw [List.getLast?_map, List.getLast?_cons]
  simp

/-- A check accepts the complete snapshot that is queued, followed by the queued updates behind
it, or leaves what was written alone. -/
theorem checkSnapshotSync_cases (c : MarketDataConsumer) :
    (∃ next queued, c.checkSnapshotSync =
        { c with nextExpIncSeqNum := next, snapshotQueuedMsgs := queued } ∧
      (queued = c.snapshotQueuedMsgs ∨ queued = ∅)) ∨
    ∃ us last next incrementals, c.snapshotQueuedMsgs.toList = numbered 0 us ∧ Complete us last ∧
      incrementalEvents ((last + 1) % 2 ^ 64) c.incrementalQueuedMsgs.toList =
        (next, some incrementals) ∧
      c.checkSnapshotSync = { c with
        nextExpIncSeqNum := next
        incomingMdUpdates := c.incomingMdUpdates ++ (unmarked us ++ incrementals)
        snapshotQueuedMsgs := ∅
        incrementalQueuedMsgs := ∅
        inRecovery := false
        snapshotMcastSocket := c.snapshotMcastSocket.leave } := by
  have keep : ∀ queued, queued = c.snapshotQueuedMsgs ∨ queued = ∅ →
      ∃ next queued', ({ c with snapshotQueuedMsgs := queued } : MarketDataConsumer) =
        { c with nextExpIncSeqNum := next, snapshotQueuedMsgs := queued' } ∧
        (queued' = c.snapshotQueuedMsgs ∨ queued' = ∅) := fun queued h ↦ ⟨_, queued, rfl, h⟩
  unfold checkSnapshotSync
  split
  · exact .inl (keep _ (.inl rfl))
  · rename_i first queued hq
    split_ifs with hstart
    · exact .inl (keep ∅ (.inr rfl))
    · split
      · exact .inl (keep ∅ (.inr rfl))
      · rename_i snapshot hsnapshot
        simp only
        split_ifs with hend
        · exact .inl (keep _ (.inl rfl))
        · obtain ⟨us, hus⟩ := numbered_of_snapshotEvents hsnapshot
          obtain ⟨hfirst, hlast⟩ := head_getLast_numbered hus
          rw [hus, snapshotEvents_numbered] at hsnapshot
          obtain rfl := Option.some.inj hsnapshot
          split
          · exact .inl ⟨_, ∅, rfl, .inr rfl⟩
          · rename_i next incrementals hinc
            refine .inr ⟨us, _, next, incrementals, hq.trans hus, ⟨⟨_, hfirst, not_not.mp hstart⟩,
              ⟨_, hlast, not_not.mp hend, rfl⟩⟩, hinc, rfl⟩

theorem checkSnapshotSync_numbered {u v : MEMarketUpdate}
    (hq : c.snapshotQueuedMsgs.toList = numbered 0 us) (hhead : us.head? = some u)
    (hu : u.type = .SNAPSHOT_START) (hlast : us.getLast? = some v) :
    c.checkSnapshotSync = if v.type ≠ .SNAPSHOT_END then c else
      match incrementalEvents ((v.orderId + 1) % 2 ^ 64) c.incrementalQueuedMsgs.toList with
      | (next, none) => { c with nextExpIncSeqNum := next, snapshotQueuedMsgs := ∅ }
      | (next, some incrementals) => { c with
          nextExpIncSeqNum := next
          incomingMdUpdates := c.incomingMdUpdates ++ (unmarked us ++ incrementals)
          snapshotQueuedMsgs := ∅
          incrementalQueuedMsgs := ∅
          inRecovery := false
          snapshotMcastSocket := c.snapshotMcastSocket.leave } := by
  unfold checkSnapshotSync
  split
  · rename_i hnil
    cases us with
    | nil => cases hhead
    | cons u us =>
      rw [hnil] at hq
      simp at hq
  · rename_i first queued hq'
    obtain ⟨hfirst, hlast'⟩ := head_getLast_numbered (hq'.symm.trans hq)
    obtain rfl := Option.some.inj (hfirst.symm.trans hhead)
    obtain rfl := Option.some.inj (hlast'.symm.trans hlast)
    have hevents : snapshotEvents 0 (first :: queued) = some (unmarked us) := by
      rw [hq'.symm.trans hq, snapshotEvents_numbered]
    rw [hevents]
    exact if_neg (not_not.mpr hu)

theorem checkSnapshotSync_open {u v : MEMarketUpdate}
    (hq : c.snapshotQueuedMsgs.toList = numbered 0 us) (hhead : us.head? = some u)
    (hu : u.type = .SNAPSHOT_START) (hlast : us.getLast? = some v) (hv : v.type ≠ .SNAPSHOT_END) :
    c.checkSnapshotSync = c := by
  rw [checkSnapshotSync_numbered hq hhead hu hlast, if_pos hv]

theorem checkSnapshotSync_of_complete {last : ℕ} (hq : c.snapshotQueuedMsgs.toList = numbered 0 us)
    (hus : Complete us last) :
    c.checkSnapshotSync = match incrementalEvents ((last + 1) % 2 ^ 64) c.incrementalQueuedMsgs.toList with
      | (next, none) => { c with nextExpIncSeqNum := next, snapshotQueuedMsgs := ∅ }
      | (next, some incrementals) => { c with
          nextExpIncSeqNum := next
          incomingMdUpdates := c.incomingMdUpdates ++ (unmarked us ++ incrementals)
          snapshotQueuedMsgs := ∅
          incrementalQueuedMsgs := ∅
          inRecovery := false
          snapshotMcastSocket := c.snapshotMcastSocket.leave } := by
  obtain ⟨⟨u, hhead, hu⟩, v, hlast, hv, rfl⟩ := hus
  rw [checkSnapshotSync_numbered hq hhead hu hlast, if_neg (not_not.mpr hv)]

theorem checkSnapshotSync_complete {last next : ℕ} {incrementals : List MEMarketUpdate}
    (hq : c.snapshotQueuedMsgs.toList = numbered 0 us) (hus : Complete us last)
    (hinc : incrementalEvents ((last + 1) % 2 ^ 64) c.incrementalQueuedMsgs.toList =
      (next, some incrementals)) :
    c.checkSnapshotSync = { c with
      nextExpIncSeqNum := next
      incomingMdUpdates := c.incomingMdUpdates ++ (unmarked us ++ incrementals)
      snapshotQueuedMsgs := ∅
      incrementalQueuedMsgs := ∅
      inRecovery := false
      snapshotMcastSocket := c.snapshotMcastSocket.leave } := by
  rw [checkSnapshotSync_of_complete hq hus, hinc]

theorem checkSnapshotSync_unnumbered (h : ∀ us, c.snapshotQueuedMsgs.toList ≠ numbered 0 us) :
    c.checkSnapshotSync = { c with snapshotQueuedMsgs := ∅ } := by
  unfold checkSnapshotSync
  split
  · rename_i hnil
    exact absurd hnil (h [])
  · rename_i first queued hq
    split_ifs with hstart
    · rfl
    · split
      · rfl
      · rename_i snapshot hsnapshot
        obtain ⟨us, hus⟩ := numbered_of_snapshotEvents hsnapshot
        exact absurd (hq.trans hus) (h us)

theorem checkSnapshotSync_not_start {first : ℕ × MEMarketUpdate} {queued : List (ℕ × MEMarketUpdate)}
    (hq : c.snapshotQueuedMsgs.toList = first :: queued) (hfirst : first.2.type ≠ .SNAPSHOT_START) :
    c.checkSnapshotSync = { c with snapshotQueuedMsgs := ∅ } := by
  unfold checkSnapshotSync
  split
  · rename_i hnil
    cases hnil.symm.trans hq
  · rename_i first' queued' hq'
    obtain ⟨rfl, rfl⟩ := List.cons.inj (hq'.symm.trans hq)
    rw [if_pos hfirst]

@[simp] theorem inRecovery_enqueue (isSnapshot : Bool) (m : MDPMarketUpdate) :
    (c.enqueue isSnapshot m).inRecovery = c.inRecovery := by
  cases isSnapshot <;> rfl

@[simp] theorem incomingMdUpdates_enqueue (isSnapshot : Bool) (m : MDPMarketUpdate) :
    (c.enqueue isSnapshot m).incomingMdUpdates = c.incomingMdUpdates := by
  cases isSnapshot <;> rfl

theorem enqueue_behind {m : MDPMarketUpdate} (hq : c.snapshotQueuedMsgs.toList = numbered 0 us)
    (h : us.length ≤ m.seqNum) :
    (c.enqueue true m).snapshotQueuedMsgs.toList =
      numbered 0 us ++ [(m.seqNum, m.meMarketUpdate)] := by
  have hlt : ∀ e ∈ c.snapshotQueuedMsgs.toList, e.1 < m.seqNum := by
    intro e he
    rw [hq] at he
    obtain ⟨i, hi, hu⟩ := mem_numbered.mp he
    have := (List.getElem?_eq_some_iff.mp hu).1
    omega
  have hnew : ¬ c.snapshotQueuedMsgs.contains m.seqNum := by
    rw [contains_iff]
    intro hmem
    obtain ⟨v, hv⟩ := hmem
    exact lt_irrefl _ (hlt _ hv)
  simp only [enqueue, if_true, if_neg hnew]
  rw [toList_insert_of_lt fun e he ↦ Nat.compare_eq_lt.mpr (hlt e he), hq]

theorem enqueue_next (hq : c.snapshotQueuedMsgs.toList = numbered 0 us) (u : MEMarketUpdate) :
    ∃ queued, c.enqueue true ⟨us.length, u⟩ = { c with snapshotQueuedMsgs := queued } ∧
      queued.toList = numbered 0 (us ++ [u]) := by
  refine ⟨(c.enqueue true ⟨us.length, u⟩).snapshotQueuedMsgs, rfl, ?_⟩
  rw [enqueue_behind hq le_rfl, numbered_append]
  simp

theorem enqueue_again {m : MDPMarketUpdate} (hq : c.snapshotQueuedMsgs.toList = numbered 0 us)
    (h : us = [] ∨ m.seqNum < us.length) :
    (c.enqueue true m).snapshotQueuedMsgs.toList = [(m.seqNum, m.meMarketUpdate)] := by
  have alone : ∀ queued : QueuedMarketUpdates, queued.toList = [] →
      (queued.insert m.seqNum m.meMarketUpdate).toList = [(m.seqNum, m.meMarketUpdate)] := by
    intro queued hnil
    rw [toList_insert_of_lt (by simp [hnil]), hnil]
    rfl
  simp only [enqueue, if_true]
  split_ifs with hcontains
  · exact alone ∅ rfl
  · refine alone _ ?_
    rcases h with rfl | hlt
    · exact hq
    · refine absurd (contains_iff.mpr ⟨us[m.seqNum], ?_⟩) hcontains
      rw [hq]
      exact mem_numbered.mpr ⟨m.seqNum, (Nat.zero_add _).symm, List.getElem?_eq_getElem hlt⟩

end Check

section Steps

variable {os : Os} {isSnapshot : Bool} {c c' : MarketDataConsumer} {m : MDPMarketUpdate}

/-- A message is queued, in a recovery that was under way or that it begins, or it is the expected
one: then it is written, if it came on the incremental socket. -/
theorem onRequest_cases (h : onRequest os isSnapshot c m = .ok c') :
    (∃ c₁, c' = c₁.queueMessage isSnapshot m ∧ c₁.inRecovery = true ∧
      c₁.incomingMdUpdates = c.incomingMdUpdates ∧ (c.inRecovery = true ∧ c₁ = c ∨
        c.inRecovery = false ∧ c₁.snapshotQueuedMsgs = ∅ ∧ c₁.incrementalQueuedMsgs = ∅)) ∨
    c.inRecovery = false ∧ isSnapshot = true ∧ c' = c ∨
    c.inRecovery = false ∧ isSnapshot = false ∧ m.seqNum = c.nextExpIncSeqNum ∧ c' = { c with
      nextExpIncSeqNum := (c.nextExpIncSeqNum + 1) % 2 ^ 64
      incomingMdUpdates := c.incomingMdUpdates ++ [m.meMarketUpdate] } := by
  unfold onRequest at h
  split_ifs at h with hrec hseq hsnap
  · exact .inl ⟨c, (Except.ok.inj h).symm, hrec, rfl, .inl ⟨hrec, rfl⟩⟩
  · have hrec : c.inRecovery = false := by simpa using hrec
    obtain ⟨c₁, hsync, hc⟩ := bind_eq_ok h
    obtain ⟨socket, -, hc₁⟩ := bind_eq_ok hsync
    obtain rfl := Except.ok.inj hc₁
    exact .inl ⟨_, (Except.ok.inj hc).symm, rfl, rfl, .inr ⟨hrec, rfl, rfl⟩⟩
  · exact .inr (.inl ⟨by simpa using hrec, hsnap, (Except.ok.inj h).symm⟩)
  · exact .inr (.inr ⟨by simpa using hrec, by simpa using hsnap, not_not.mp hseq,
      (Except.ok.inj h).symm⟩)

theorem onReceived_cases {received : Bool × List MDPMarketUpdate}
    (h : c.onReceived os received = .ok c') :
    (received.1 = true ∧ c.inRecovery = false) ∧ c' = c ∨
      ¬ (received.1 = true ∧ c.inRecovery = false) ∧
        received.2.foldlM (onRequest os received.1) c = .ok c' := by
  unfold onReceived at h
  split_ifs at h with hdrop
  · exact .inl ⟨by simpa using hdrop, (Except.ok.inj h).symm⟩
  · exact .inr ⟨by simpa using hdrop, h⟩

/-- Every message that a callback handles meets `P` in the state in which it is handled. -/
def Handled (os : Os) (P : Bool → MarketDataConsumer → MDPMarketUpdate → Prop)
    (c : MarketDataConsumer) (received : Bool × List MDPMarketUpdate) : Prop :=
  (received.1 = true ∧ c.inRecovery = false) ∨
    Guarded (onRequest os received.1) (P received.1) c received.2

theorem handled_invariant {P : Bool → MarketDataConsumer → MDPMarketUpdate → Prop}
    {I : MarketDataConsumer → Prop} {arrivals : List (Bool × List MDPMarketUpdate)}
    (hstep : ∀ isSnapshot c m c', I c → P isSnapshot c m → onRequest os isSnapshot c m = .ok c' → I c')
    (hguard : Guarded (onReceived os) (Handled os P) c arrivals) (hinv : I c)
    (hrun : arrivals.foldlM (onReceived os) c = .ok c') : I c' := by
  refine hguard.invariant (fun c received c' hinv hhandled hrun ↦ ?_) hinv hrun
  rcases onReceived_cases hrun with ⟨_, rfl⟩ | ⟨hnot, hloop⟩
  · exact hinv
  · rcases hhandled with hdrop | hloop'
    · exact absurd hdrop hnot
    · exact hloop'.invariant (hstep received.1) hinv hloop

theorem handled_of_mem {P : Bool → MDPMarketUpdate → Prop}
    {arrivals : List (Bool × List MDPMarketUpdate)} (h : ∀ a ∈ arrivals, ∀ m ∈ a.2, P a.1 m) :
    Guarded (onReceived os) (Handled os fun isSnapshot _ m ↦ P isSnapshot m) c arrivals :=
  .of_mem fun a ha _ ↦ .inr (.of_mem fun m hm _ ↦ h a ha m hm)

theorem new_ok {snapshotGroup incrementalGroup : Group}
    (h : new os snapshotGroup incrementalGroup = .ok c) :
    c.inRecovery = true ∧ c.incomingMdUpdates = [] ∧ c.snapshotQueuedMsgs = ∅ ∧
      c.incrementalQueuedMsgs = ∅ := by
  obtain ⟨socket, -, hc⟩ := bind_eq_ok h
  obtain rfl := Except.ok.inj hc
  exact ⟨rfl, rfl, rfl, rfl⟩

end Steps

end MarketDataConsumer

end LowLatency.Trading
