import LowLatency.Common.LFQueue
import LowLatency.Exchange.MarketDataPublisher

namespace LowLatency.Exchange

open Common

/-- How far `MatchingEngine::sendMarketUpdate` is: the store into the slot, or `updateWriteIndex`. -/
inductive EnginePhase
  | idle
  | hasStored (u : MEMarketUpdate)
  deriving DecidableEq, Repr

/-- How far `MarketDataPublisher::run` is with the update in a slot. -/
inductive PublisherPhase
  | idle
  | hasSlot (slot : ℕ)
  | hasSent (slot : ℕ)
  | hasReleased (slot : ℕ)
  deriving DecidableEq, Repr

/-- The slot to which the variable `market_update` points. -/
def PublisherPhase.slot : PublisherPhase → Option ℕ
  | .idle => none
  | .hasSlot slot | .hasSent slot | .hasReleased slot => some slot

def PublisherPhase.sent : PublisherPhase → ℕ
  | .idle | .hasSlot _ => 0
  | .hasSent _ | .hasReleased _ => 1

def PublisherPhase.released : PublisherPhase → ℕ
  | .idle | .hasSlot _ | .hasSent _ => 0
  | .hasReleased _ => 1

structure Publication where
  queue : LFQueue MEMarketUpdate
  engine : EnginePhase
  phase : PublisherPhase
  publisher : MarketDataPublisher
  produced : List MEMarketUpdate

inductive PublicationMove
  | sendMarketUpdate (u : MEMarketUpdate)
  | run (behind : Fin 26 → UInt8)

namespace Publication

def start (n : ℕ) : Publication := ⟨.new n .invalid, .idle, .idle, .new, []⟩

def sendMarketUpdate (s : Publication) (u : MEMarketUpdate) : Publication :=
  match s.engine with
  | .idle => { s with queue := s.queue.assign s.queue.getNextToWriteTo u, engine := .hasStored u }
  | .hasStored u =>
    { s with queue := s.queue.updateWriteIndex, engine := .idle, produced := s.produced ++ [u] }

/-- The address of a slot, if the elements of the queue begin at `store`. -/
def pointer (store slot : ℕ) : ℕ := store + Layout.meMarketUpdate.size * slot

/-- The loop of `run` ends without an update, and the socket is served. -/
def run (store pthreadSelf : ℕ) (s : Publication) (behind : Fin 26 → UInt8) :
    Except Fault Publication :=
  match s.phase with
  | .idle =>
    match s.queue.getNextToRead with
    | some slot =>
      if s.queue.size ≠ 0 then .ok { s with phase := .hasSlot slot }
      else .ok { s with publisher := s.publisher.sendAndRecv }
    | none => .ok { s with publisher := s.publisher.sendAndRecv }
  | .hasSlot slot => do
    let publisher ← s.publisher.sendUpdate (pointer store slot) behind
    return { s with phase := .hasSent slot, publisher := publisher }
  | .hasSent slot => do
    let queue ← s.queue.updateReadIndex pthreadSelf
    return { s with queue := queue, phase := .hasReleased slot }
  | .hasReleased slot => do
    let u ← s.queue.element slot
    return { s with phase := .idle, publisher := s.publisher.queueUpdate u }

def step (store pthreadSelf : ℕ) (s : Publication) : PublicationMove → Except Fault Publication
  | .sendMarketUpdate u => .ok (s.sendMarketUpdate u)
  | .run behind => s.run store pthreadSelf behind

def HasRoom (n : ℕ) (s : Publication) : PublicationMove → Prop
  | .sendMarketUpdate _ => s.engine ≠ .idle → s.queue.size < n
  | .run _ => True

/-- The engine does not store into the slot that the publisher is about to use. -/
def Undisturbed (s : Publication) : PublicationMove → Prop
  | .sendMarketUpdate _ => s.engine = .idle → s.phase.slot ≠ some s.queue.nextWriteIndex
  | .run _ => True

/-- What is sent for the update in the slot is by chance the update. -/
def Lucky (store : ℕ) (s : Publication) : PublicationMove → Prop
  | .sendMarketUpdate _ => True
  | .run behind => match s.phase with
    | .hasSlot slot => match s.queue.element slot with
      | .ok u => Coincides u (pointer store slot) behind
      | .error _ => True
    | _ => True

def copied (s : Publication) : ℕ := s.publisher.snapshotMdUpdates.length

/-- Of the incremental channel something is known only if `lucky` is. -/
structure Inv (lucky : Prop) (n : ℕ) (s : Publication) : Prop where
  counts : s.queue.Counts n s.produced.length (s.copied + s.phase.released)
  room : s.produced.length ≤ s.copied + s.phase.released + n
  /-- A store into a full queue has overwritten the oldest element. -/
  slots : ∀ k, s.copied + s.phase.released ≤ k →
    (s.engine ≠ .idle → s.produced.length < k + n) → InSlots s.queue.store s.produced k
  stored : ∀ u, s.engine = .hasStored u → s.queue.store[s.produced.length % n]? = some u
  held : ∀ slot, s.phase.slot = some slot →
    s.copied < s.produced.length ∧ s.queue.store[slot]? = s.produced[s.copied]?
  seq : s.publisher.nextIncSeqNum = (1 + s.copied) % 2 ^ 64
  snapshot : s.publisher.snapshotMdUpdates =
    numberFrom MDPMarketUpdate.mk 1 (s.produced.take s.copied)
  placed : lucky → ∃ ms, s.publisher.Placed ms ∧
    ms.map (fun m ↦ Layout.meMarketUpdate.decode (atVariable m.1 m.2)) =
      s.produced.take (s.copied + s.phase.sent)

variable {lucky : Prop} {n store pthreadSelf : ℕ} {s s' : Publication} {u : MEMarketUpdate}
  {behind : Fin 26 → UInt8} {m : PublicationMove} {ms : List PublicationMove}

theorem inv_start (n : ℕ) : (start n).Inv lucky n where
  counts := (LFQueue.holds_new n _).toCounts
  room := Nat.zero_le _
  slots k _ _ := inSlots_nil _ k
  stored u hu := by cases hu
  held slot hslot := by cases hslot
  seq := rfl
  snapshot := rfl
  placed _ := ⟨[], rfl, rfl⟩

theorem Inv.sent_le (h : s.Inv lucky n) : s.copied + s.phase.sent ≤ s.produced.length := by
  have hle := h.counts.le
  have hheld := h.held
  cases hp : s.phase with
  | idle | hasSlot slot =>
    rw [hp] at hle
    exact hle
  | hasSent slot | hasReleased slot => exact (hheld slot (by rw [hp]; rfl)).1

theorem Inv.assign (h : s.Inv lucky n) (hn : 0 < n) (he : s.engine = .idle)
    (hundisturbed : s.phase.slot ≠ some s.queue.nextWriteIndex) :
    ({ s with queue := s.queue.assign s.queue.getNextToWriteTo u, engine := .hasStored u }
      : Publication).Inv lucky n := by
  have hcapacity := h.counts.capacity
  have hslots := h.slots _ le_rfl fun hne ↦ absurd he hne
  have hwrite : s.queue.nextWriteIndex = s.produced.length % s.queue.store.length := by
    rw [hcapacity]
    exact h.counts.nextWriteIndex
  refine ⟨h.counts.assign _ u, h.room, fun k hk hlt ↦ ?_, fun v hv ↦ ?_, fun slot hslot ↦ ?_,
    h.seq, h.snapshot, h.placed⟩
  · change InSlots (s.queue.store.set s.queue.nextWriteIndex u) s.produced k
    rw [hwrite]
    exact (hslots.mono hk).set (hcapacity ▸ hn) (hcapacity ▸ hlt nofun)
  · cases hv
    change (s.queue.store.set s.queue.nextWriteIndex u)[s.produced.length % n]? = some u
    rw [hwrite, ← hcapacity]
    exact getElem?_set_slot (hcapacity ▸ hn) _ u
  · obtain ⟨hlt, hsame⟩ := h.held slot hslot
    refine ⟨hlt, ?_⟩
    change (s.queue.store.set s.queue.nextWriteIndex u)[slot]? = _
    rw [List.getElem?_set_ne, hsame]
    · rfl
    · intro heq
      exact hundisturbed (heq ▸ hslot)

theorem Inv.publish (h : s.Inv lucky n) (hn' : n < 2 ^ 64) (he : s.engine = .hasStored u)
    (hsize : s.queue.numElements < n) :
    ({ s with queue := s.queue.updateWriteIndex, engine := .idle, produced := s.produced ++ [u] }
      : Publication).Inv lucky n := by
  have hcapacity := h.counts.capacity
  have hlen : (s.produced ++ [u]).length = s.produced.length + 1 := List.length_append
  have hnum := h.counts.numElements
  have hlt : s.produced.length < s.copied + s.phase.released + n := by omega
  have htake {k : ℕ} (hk : k ≤ s.produced.length) :
      (s.produced ++ [u]).take k = s.produced.take k := List.take_append_of_le_length hk
  refine ⟨hlen ▸ h.counts.updateWriteIndex hn' hlt, hlen ▸ hlt, fun k hk _ ↦ ?_, nofun,
    fun slot hslot ↦ ?_, h.seq, ?_, ?_⟩
  · have hslots := h.slots _ le_rfl fun _ ↦ hlt
    refine (hslots.concat ?_).mono hk
    rw [hcapacity]
    exact h.stored u he
  · obtain ⟨hcopied, hsame⟩ := h.held slot hslot
    refine ⟨hlen ▸ hcopied.trans (Nat.lt_succ_self _), hsame.trans ?_⟩
    exact (List.getElem?_append_left hcopied).symm
  · change _ = numberFrom _ 1 ((s.produced ++ [u]).take s.copied)
    rw [htake ((Nat.le_add_right _ _).trans h.counts.le)]
    exact h.snapshot
  · change lucky → ∃ ms, _ ∧ _ = (s.produced ++ [u]).take (s.copied + s.phase.sent)
    rw [htake h.sent_le]
    exact h.placed

theorem Inv.sendMarketUpdate (h : s.Inv lucky n) (hn : 0 < n) (hn' : n < 2 ^ 64)
    (hroom : HasRoom n s (.sendMarketUpdate u))
    (hundisturbed : Undisturbed s (.sendMarketUpdate u)) : (s.sendMarketUpdate u).Inv lucky n := by
  unfold Publication.sendMarketUpdate
  cases he : s.engine with
  | idle => exact h.assign hn he (hundisturbed he)
  | hasStored v => exact h.publish hn' he (hroom (by rw [he]; nofun))

theorem Inv.served (h : s.Inv lucky n) (hp : s.phase = .idle) :
    ({ s with phase := .idle, publisher := s.publisher.sendAndRecv } : Publication).Inv lucky n := by
  obtain ⟨queue, engine, phase, publisher, produced⟩ := s
  obtain rfl : phase = .idle := hp
  refine ⟨h.counts, h.room, h.slots, h.stored, nofun, h.seq, h.snapshot, fun hlucky ↦ ?_⟩
  obtain ⟨memory, hplaced, hmemory⟩ := h.placed hlucky
  exact ⟨memory, (McastSender.placed_sendAndRecv _).trans hplaced, hmemory⟩

theorem Inv.getNextToRead (h : s.Inv lucky n) (hp : s.phase = .idle) {slot : ℕ}
    (hslot : s.queue.getNextToRead = some slot) :
    ({ s with phase := .hasSlot slot } : Publication).Inv lucky n := by
  have hcounts := h.counts
  have hroom := h.room
  have hslots := h.slots
  have hplaced := h.placed
  rw [hp] at hcounts hroom hslots hplaced
  obtain ⟨rfl, hlt, hfull⟩ := hcounts.eq_of_getNextToRead hslot
  refine ⟨hcounts, hroom, hslots, h.stored, ?_, h.seq, h.snapshot, hplaced⟩
  intro slot hsome
  obtain rfl := Option.some.inj hsome
  refine ⟨hlt, ?_⟩
  rw [← hcounts.capacity]
  exact (hslots _ le_rfl fun _ ↦ lt_of_le_of_ne hroom hfull).getElem? hlt

theorem Inv.sendUpdate (h : s.Inv lucky n) {slot : ℕ} (hp : s.phase = .hasSlot slot)
    (hlucky : lucky → Lucky store s (.run behind)) {publisher : MarketDataPublisher}
    (hsend : s.publisher.sendUpdate (pointer store slot) behind = .ok publisher) :
    ({ s with phase := .hasSent slot, publisher := publisher } : Publication).Inv lucky n := by
  have hcounts := h.counts
  have hroom := h.room
  have hslots := h.slots
  have hplaced := h.placed
  obtain ⟨hlt, hsame⟩ := h.held slot (by rw [hp]; rfl)
  rw [hp] at hcounts hroom hslots hplaced
  rw [List.getElem?_eq_getElem hlt] at hsame
  simp only [Lucky, hp, LFQueue.element_of_slot hsame] at hlucky
  have hnext : ∀ memory, s.publisher.Placed memory → memory.length = s.copied →
      publisher.Placed (memory ++ [(pointer store slot, behind)]) := fun memory hplaced hlen ↦
    hplaced.sendUpdate (hlen ▸ h.seq) hsend
  obtain ⟨-, rfl⟩ := MarketDataPublisher.sendUpdate_ok hsend
  refine ⟨hcounts, hroom, hslots, h.stored, ?_, h.seq, h.snapshot, fun hl ↦ ?_⟩
  · intro slot' hslot'
    obtain rfl := Option.some.inj hslot'
    exact ⟨hlt, hsame.trans (List.getElem?_eq_getElem hlt).symm⟩
  · obtain ⟨memory, hplaced, hmemory⟩ := hplaced hl
    have hlen : memory.length = s.copied := by
      have hlen := congrArg List.length hmemory
      rw [List.length_map, List.length_take] at hlen
      exact hlen.trans (Nat.min_eq_left hlt.le)
    refine ⟨_, hnext memory hplaced hlen, ?_⟩
    rw [List.map_append, hmemory]
    exact (congrArg (_ ++ [·]) (hlucky hl)).trans (List.take_concat_get' _ _ hlt)

theorem Inv.updateReadIndex (h : s.Inv lucky n) {slot : ℕ} (hp : s.phase = .hasSent slot)
    {queue : LFQueue MEMarketUpdate} (hupdate : s.queue.updateReadIndex pthreadSelf = .ok queue) :
    ({ s with queue := queue, phase := .hasReleased slot } : Publication).Inv lucky n := by
  have hcounts := h.counts
  have hroom := h.room
  have hslots := h.slots
  have hheld := h.held slot (by rw [hp]; rfl)
  have hplaced := h.placed
  rw [hp] at hcounts hroom hslots hplaced
  obtain ⟨queue', hupdate', hcounts', hstore⟩ :=
    hcounts.updateReadIndex pthreadSelf hheld.1
  obtain rfl := Except.ok.inj (hupdate'.symm.trans hupdate)
  refine ⟨hcounts', hroom.trans (by simp only [copied, PublisherPhase.released]; omega), ?_, ?_, ?_,
    h.seq, h.snapshot, hplaced⟩
  · intro k hk hlt
    rw [hstore]
    exact hslots k ((Nat.le_succ _).trans hk) hlt
  · rw [hstore]
    exact h.stored
  · intro slot' hslot'
    obtain rfl := Option.some.inj hslot'
    exact ⟨hheld.1, hstore ▸ hheld.2⟩

theorem Inv.queueUpdate (h : s.Inv lucky n) {slot : ℕ} (hp : s.phase = .hasReleased slot)
    (hu : s.queue.element slot = .ok u) :
    ({ s with phase := .idle, publisher := s.publisher.queueUpdate u } : Publication).Inv lucky n := by
  have hcounts := h.counts
  have hroom := h.room
  have hslots := h.slots
  obtain ⟨hlt, hsame⟩ := h.held slot (by rw [hp]; rfl)
  have hplaced := h.placed
  rw [hp] at hcounts hroom hslots hplaced
  rw [List.getElem?_eq_getElem hlt] at hsame
  obtain rfl := Except.ok.inj ((LFQueue.element_of_slot hsame).symm.trans hu)
  have hcopied : ({ s with
      phase := .idle
      publisher := s.publisher.queueUpdate s.produced[s.copied] } : Publication).copied =
    s.copied + 1 := List.length_append
  refine ⟨?_, ?_, ?_, h.stored, nofun, ?_, ?_, ?_⟩
  · rw [hcopied]
    exact hcounts
  · rw [hcopied]
    exact hroom
  · rw [hcopied]
    exact hslots
  · rw [hcopied, ← Nat.add_assoc]
    change (s.publisher.nextIncSeqNum + 1) % 2 ^ 64 = _
    rw [h.seq, Nat.mod_add_mod]
  · rw [hcopied]
    change s.publisher.snapshotMdUpdates ++ [⟨s.publisher.nextIncSeqNum, _⟩] =
      numberFrom _ 1 (s.produced.take (s.copied + 1))
    rw [← List.take_concat_get' _ _ hlt, numberFrom_concat, ← h.snapshot, List.length_take,
      Nat.min_eq_left hlt.le, h.seq]
  · rw [hcopied]
    exact hplaced

theorem Inv.run (h : s.Inv lucky n) (hlucky : lucky → Lucky store s (.run behind))
    (hrun : s.run store pthreadSelf behind = .ok s') : s'.Inv lucky n := by
  unfold Publication.run at hrun
  cases hp : s.phase <;> simp only [hp] at hrun
  case idle =>
    cases hnext : s.queue.getNextToRead <;> simp only [hnext] at hrun
    case none => exact Except.ok.inj hrun ▸ h.served hp
    case some slot =>
      split_ifs at hrun
      · exact Except.ok.inj hrun ▸ h.getNextToRead hp hnext
      · exact Except.ok.inj hrun ▸ h.served hp
  case hasSlot slot =>
    obtain ⟨publisher, hsend, hs'⟩ := bind_eq_ok hrun
    exact Except.ok.inj hs' ▸ h.sendUpdate hp hlucky hsend
  case hasSent slot =>
    obtain ⟨queue, hupdate, hs'⟩ := bind_eq_ok hrun
    exact Except.ok.inj hs' ▸ h.updateReadIndex hp hupdate
  case hasReleased slot =>
    obtain ⟨u, hu, hs'⟩ := bind_eq_ok hrun
    exact Except.ok.inj hs' ▸ h.queueUpdate hp hu

theorem inv_of_run (hn : 0 < n) (hn' : n < 2 ^ 64)
    (h : Guarded (step store pthreadSelf)
      (fun s m ↦ (HasRoom n s m ∧ Undisturbed s m) ∧ (lucky → Lucky store s m)) (start n) ms)
    (hrun : ms.foldlM (step store pthreadSelf) (start n) = .ok s) : s.Inv lucky n := by
  refine h.invariant (fun s m s' hinv hok hstep ↦ ?_) (inv_start n) hrun
  cases m with
  | sendMarketUpdate u => exact Except.ok.inj hstep ▸ hinv.sendMarketUpdate hn hn' hok.1.1 hok.1.2
  | run behind => exact hinv.run hok.2 hstep

/-- If no step of either thread is disturbed, the update that is queued for the snapshot synthesizer
under a number is the one that the engine has produced as that one, and, if the publisher has always
been lucky, the one that is sent under the number. -/
theorem streams_agree (hn : 0 < n) (hn' : n < 2 ^ 64) (store pthreadSelf : ℕ)
    (h : Guarded (step store pthreadSelf) (fun s m ↦ HasRoom n s m ∧ Undisturbed s m) (start n) ms)
    (hrun : ms.foldlM (step store pthreadSelf) (start n) = .ok s) :
    s.publisher.snapshotMdUpdates <+: numberFrom MDPMarketUpdate.mk 1 s.produced ∧
      (Guarded (step store pthreadSelf) (Lucky store) (start n) ms →
        s.publisher.snapshotMdUpdates <+: s.publisher.records) := by
  constructor
  · have hinv : s.Inv False n := inv_of_run hn hn' (h.imp fun s m hok ↦ ⟨hok, False.elim⟩) hrun
    rw [hinv.snapshot]
    exact numberFrom_mono (List.take_prefix _ _)
  · intro hlucky
    have hinv : s.Inv True n :=
      inv_of_run hn hn' ((h.and hlucky).imp fun s m hok ↦ ⟨hok.1, fun _ ↦ hok.2⟩) hrun
    obtain ⟨memory, hplaced, hmemory⟩ := hinv.placed trivial
    rw [hplaced.records, hmemory, hinv.snapshot]
    exact numberFrom_mono (List.take_prefix_take_left (Nat.le_add_right _ _))

instance (n : ℕ) (s : Publication) : DecidablePred (HasRoom n s) := fun m ↦ by
  cases m <;> unfold HasRoom <;> infer_instance

instance (s : Publication) : DecidablePred (Undisturbed s) := fun m ↦ by
  cases m <;> unfold Undisturbed <;> infer_instance

instance (store : ℕ) (s : Publication) : DecidablePred (Lucky store s) := fun m ↦ by
  unfold Lucky
  cases m with
  | sendMarketUpdate u => infer_instance
  | run behind => cases s.phase with
    | hasSlot slot =>
      dsimp only
      cases s.queue.element slot <;> infer_instance
    | _ => infer_instance

def added (orderId : OrderId) : MEMarketUpdate := ⟨.ADD, orderId, 0, .BUY, 100, 10, 1⟩

def byChance (i : Fin 26) : UInt8 := (Layout.meMarketUpdate.encode (added 1)).getD (8 + i) 0

def quietMoves : List PublicationMove :=
  [.sendMarketUpdate (added 1), .sendMarketUpdate (added 1), .run byChance, .run byChance,
    .run byChance, .run byChance, .run byChance]

theorem streams_agree_quiet : ∃ s, quietMoves.foldlM (step 258 1) (start 2) = .ok s ∧
    s.publisher.snapshotMdUpdates = [⟨1, added 1⟩] ∧
    s.publisher.snapshotMdUpdates <+: numberFrom MDPMarketUpdate.mk 1 s.produced ∧
    s.publisher.snapshotMdUpdates <+: s.publisher.records := by
  obtain ⟨s, hrun, hsnapshot⟩ := Yields.exists_ok (show Yields (quietMoves.foldlM (step 258 1)
    (start 2)) fun s ↦ s.publisher.snapshotMdUpdates = [⟨1, added 1⟩] by decide +kernel)
  obtain ⟨hproduced, hrecords⟩ :=
    streams_agree (by decide) (by decide) 258 1 (by decide +kernel) hrun
  exact ⟨s, hrun, hsnapshot, hproduced, hrecords (by decide +kernel)⟩

/-- The engine goes round the ring between the release of a slot and the copy of its update. -/
def overtakingMoves : List PublicationMove :=
  [.sendMarketUpdate (added 1), .sendMarketUpdate (added 1), .run byChance, .run byChance,
    .run byChance, .sendMarketUpdate (added 2), .sendMarketUpdate (added 2),
    .sendMarketUpdate (added 3), .run byChance]

theorem slot_is_overwritten :
    Guarded (step 258 1) (HasRoom 2) (start 2) overtakingMoves ∧
    ∃ s, overtakingMoves.foldlM (step 258 1) (start 2) = .ok s ∧ s.produced = [added 1, added 2] ∧
      s.publisher.snapshotMdUpdates = [⟨1, added 3⟩] ∧
      ¬ s.publisher.snapshotMdUpdates <+: numberFrom MDPMarketUpdate.mk 1 s.produced :=
  ⟨by decide +kernel, Yields.exists_ok (by decide +kernel)⟩

end Publication

end LowLatency.Exchange
