import LowLatency.Simulation
import LowLatency.Exchange.SnapshotTable
import LowLatency.Exchange.SnapshotWire

namespace LowLatency.Exchange

open Common Function

def MEMarketUpdate.Fits (u : MEMarketUpdate) : Prop :=
  u.orderId < 2 ^ 64 ∧ u.tickerId < 2 ^ 32 ∧ (-2 ^ 63 ≤ u.price ∧ u.price < 2 ^ 63) ∧
    u.qty < 2 ^ 32 ∧ u.priority < 2 ^ 64

instance : DecidablePred MEMarketUpdate.Fits := fun _ ↦ inferInstanceAs (Decidable (_ ∧ _))

theorem Layout.mdpMarketUpdate_fits {u : MEMarketUpdate} (h : u.Fits) {n : ℕ} (hn : n < 2 ^ 64) :
    mdpMarketUpdate.Fits ⟨n, u⟩ := by
  obtain ⟨horder, hticker, hprice, hqty, hpriority⟩ := h
  have htype : marketUpdateType.Fits u.type := fits_byte (by cases u.type <;> decide)
  exact ⟨hn, htype, horder, hticker, fits_side _, fits_price hprice, hqty, hpriority⟩

namespace SnapshotSynthesizer

structure AllFit (v : SnapshotSynthesizer) : Prop where
  pool : ∀ p, (v.orderPool.get p).Fits
  last : v.lastIncSeqNum < 2 ^ 64

variable {v v' : SnapshotSynthesizer} {ms : List MDPMarketUpdate} {m : MDPMarketUpdate} {u : MEMarketUpdate}

theorem allFit_new : new.AllFit where
  pool _ := (by decide : MEMarketUpdate.invalid.Fits)
  last := by decide

theorem addOrder_fits (hv : ∀ p, (v.orderPool.get p).Fits) (hu : u.Fits) (h : v.addOrder u = .ok v') :
    ∀ p, (v'.orderPool.get p).Fits := by
  intro p
  rcases addOrder_cases h with ⟨-, order, hget, -⟩ | ⟨-, order, rfl⟩ | ⟨-, hget, -⟩ | rfl
  · rw [hget]
    by_cases hp : p = order
    · rw [hp, update_self]
      exact hu
    · rw [update_of_ne hp]
      exact hv p
  · rw [MemPool.get_modify]
    obtain ⟨-, -, hprice, hqty, -⟩ := hu
    obtain ⟨horder, hticker, -, -, hpriority⟩ := hv order
    split_ifs
    · exact ⟨horder, hticker, hprice, hqty, hpriority⟩
    · exact hv p
  · rw [hget]
    exact hv p
  · exact hv p

theorem allFit_of_run (hms : ∀ m ∈ ms, m.meMarketUpdate.Fits) (h : ms.foldlM addToSnapshot new = .ok v) :
    v.AllFit := by
  have hguard : Guarded addToSnapshot (fun _ m ↦ m.meMarketUpdate.Fits) new ms :=
    Guarded.of_mem fun m hm _ ↦ hms m hm
  refine hguard.invariant (fun v m v' hv hm hrun ↦ ?_) allFit_new h
  obtain ⟨v₁, hadd, hrun⟩ := bind_eq_ok hrun
  have hpool := addOrder_fits hv.pool hm hadd
  split_ifs at hrun with hseq
  obtain rfl := Except.ok.inj hrun
  refine ⟨hpool, ?_⟩
  change m.seqNum < 2 ^ 64
  rw [hseq]
  exact Nat.mod_lt _ (by decide)

theorem length_orders (v : SnapshotSynthesizer) (tickerId : TickerId) :
    (v.orders tickerId).length ≤ ME_MAX_ORDER_IDS :=
  (List.length_filterMap_le _ _).trans_eq List.length_range

theorem length_body (v : SnapshotSynthesizer) : v.body.length ≤ ME_MAX_TICKERS * (ME_MAX_ORDER_IDS + 1) := by
  rw [body, List.length_flatMap]
  refine (List.sum_le_card_nsmul _ (ME_MAX_ORDER_IDS + 1) fun n hn ↦ ?_).trans_eq ?_
  · obtain ⟨tickerId, -, rfl⟩ := List.mem_map.mp hn
    rw [List.length_cons]
    exact Nat.add_le_add_right (v.length_orders tickerId) 1
  · rw [List.length_map, List.length_range, smul_eq_mul]

theorem length_snapshot (v : SnapshotSynthesizer) : v.snapshot.length < 2 ^ 64 := by
  have hsize : ME_MAX_TICKERS * (ME_MAX_ORDER_IDS + 1) + 1 + 1 < 2 ^ 64 := by decide
  rw [snapshot, opening, List.length_append, List.length_cons, List.length_singleton]
  exact (Nat.add_le_add_right (Nat.add_le_add_right v.length_body 1) 1).trans_lt hsize

theorem AllFit.publishSnapshot_fits (hv : v.AllFit) (hm : m ∈ v.publishSnapshot) :
    Layout.mdpMarketUpdate.Fits m := by
  obtain ⟨n, hn, rfl⟩ := List.mem_mapIdx.mp hm
  refine Layout.mdpMarketUpdate_fits ?_ (hn.trans v.length_snapshot)
  obtain ⟨horder, hticker, hrest⟩ : MEMarketUpdate.invalid.Fits := by decide
  have hmark : ∀ type, (mark type v.lastIncSeqNum).Fits := fun type ↦ ⟨hv.last, hticker, hrest⟩
  have hmem := List.getElem_mem hn
  rcases List.mem_append.mp hmem with hopening | hend
  · rcases List.mem_cons.mp hopening with hstart | hbody
    · exact hstart ▸ hmark _
    · obtain ⟨tickerId, hmem, horders⟩ := List.mem_flatMap.mp hbody
      have hlt : tickerId < ME_MAX_TICKERS := List.mem_range.mp hmem
      rcases List.mem_cons.mp horders with hclear | hstored
      · rw [hclear]
        exact ⟨horder, hlt.trans (by decide), hrest⟩
      · obtain ⟨orderId, -, hsome⟩ := List.mem_filterMap.mp hstored
        obtain ⟨p, -, hp⟩ := Option.map_eq_some_iff.mp hsome
        exact hp ▸ hv.pool p
  · exact List.mem_singleton.mp hend ▸ hmark _

end SnapshotSynthesizer

def NANOS_TO_SECS : ℤ := 1000 * 1000 * 1000

/-- What `SnapshotSynthesizer::run` works on. -/
structure SnapshotLoop where
  synthesizer : SnapshotSynthesizer
  lastSnapshotTime : ℤ
  snapshotSocket : McastSender

namespace SnapshotLoop

/-- A round of the inner loop, or the readings of the clock behind it. The second one is made if
the first one says that a snapshot is due. -/
inductive Event
  | update (m : MDPMarketUpdate)
  | clock (now later : ℤ)

def start : SnapshotLoop := ⟨.new, 0, .new⟩

def step (s : SnapshotLoop) : Event → Except Fault SnapshotLoop
  | .update m => do
    let synthesizer ← s.synthesizer.addToSnapshot m
    return { s with synthesizer := synthesizer }
  | .clock now later =>
    if now - s.lastSnapshotTime > 60 * NANOS_TO_SECS then do
      let socket ← s.synthesizer.publish s.snapshotSocket
      return { s with lastSnapshotTime := later, snapshotSocket := socket }
    else .ok s

def updates (es : List Event) : List MDPMarketUpdate :=
  es.filterMap fun
    | .update m => some m
    | .clock _ _ => none

/-- A snapshot: the updates before it, and the two readings of the clock. -/
structure Taken where
  before : List MDPMarketUpdate
  now : ℤ
  later : ℤ

/-- The snapshots that are due, the last one having been taken at `last`. -/
def due : ℤ → List MDPMarketUpdate → List Event → List Taken
  | _, _, [] => []
  | last, before, .update m :: es => due last (before ++ [m]) es
  | last, before, .clock now later :: es =>
    if now - last > 60 * NANOS_TO_SECS then ⟨before, now, later⟩ :: due later before es
    else due last before es

/-- The second snapshot is of no fewer updates, and more than a minute has passed. -/
def Follows (a b : Taken) : Prop := a.before <+: b.before ∧ b.now - a.later > 60 * NANOS_TO_SECS

def Published (tables : List SnapshotSynthesizer) (packets : List (List UInt8)) : Prop :=
  ∃ ds : List (List MDPMarketUpdate), packets = ds.map Layout.mdpMarketUpdate.stream ∧
    ds.flatten = tables.flatMap (·.publishSnapshot) ∧ ∀ d ∈ ds, 0 < d.length ∧ d.length ≤ 10

variable {s s' : SnapshotLoop} {es : List Event} {before : List MDPMarketUpdate}

theorem Published.append {tables tables' : List SnapshotSynthesizer} {packets packets' : List (List UInt8)}
    (h : Published tables packets) (h' : Published tables' packets') :
    Published (tables ++ tables') (packets ++ packets') := by
  obtain ⟨ds, rfl, hflatten, hsizes⟩ := h
  obtain ⟨ds', rfl, hflatten', hsizes'⟩ := h'
  refine ⟨ds ++ ds', List.map_append.symm, ?_, fun d hd ↦ ?_⟩
  · rw [List.flatten_append, hflatten, hflatten', List.flatMap_append]
  · exact (List.mem_append.mp hd).elim (hsizes d) (hsizes' d)

theorem step_clock (now later : ℤ) (hbuffer : s.snapshotSocket.outboundData = []) :
    (¬ now - s.lastSnapshotTime > 60 * NANOS_TO_SECS ∧ s.step (.clock now later) = .ok s) ∨
    now - s.lastSnapshotTime > 60 * NANOS_TO_SECS ∧ ∃ packets,
      s.step (.clock now later) = .ok
        ⟨s.synthesizer, later, [], s.snapshotSocket.packets ++ packets⟩ ∧
      Published [s.synthesizer] packets := by
  by_cases hdue : now - s.lastSnapshotTime > 60 * NANOS_TO_SECS
  · obtain ⟨ds, hrun, hflatten, hsizes, -⟩ := s.synthesizer.publish_packets hbuffer
    refine .inr ⟨hdue, ds.map Layout.mdpMarketUpdate.stream, ?_, ds, rfl, ?_, hsizes⟩
    · rw [step, if_pos hdue, hrun]
      rfl
    · rw [hflatten, List.flatMap_singleton]
  · exact .inl ⟨hdue, if_neg hdue⟩

/-- The run of the loop is the run of the table: no snapshot ends it, or changes the table. -/
theorem run_table (hbuffer : s.snapshotSocket.outboundData = []) (es : List Event) :
    (es.foldlM step s).map (·.synthesizer) =
      (updates es).foldlM SnapshotSynthesizer.addToSnapshot s.synthesizer := by
  induction es generalizing s with
  | nil => rfl
  | cons e es ih =>
    rw [List.foldlM_cons]
    cases e with
    | update m =>
      change _ = (m :: updates es).foldlM SnapshotSynthesizer.addToSnapshot s.synthesizer
      rw [List.foldlM_cons, step]
      cases s.synthesizer.addToSnapshot m with
      | error e => rfl
      | ok synthesizer => exact ih (s := ⟨synthesizer, _, _⟩) hbuffer
    | clock now later =>
      rcases step_clock now later hbuffer with ⟨-, hrun⟩ | ⟨-, packets, hrun, -⟩
      · rw [hrun]
        exact ih hbuffer
      · rw [hrun]
        exact ih (s := ⟨s.synthesizer, later, [], _⟩) rfl

theorem due_follows (last : ℤ) (before : List MDPMarketUpdate) (es : List Event) :
    (due last before es).IsChain Follows ∧
      ∀ t ∈ (due last before es).head?, before <+: t.before ∧ t.now - last > 60 * NANOS_TO_SECS := by
  induction es generalizing last before with
  | nil => exact ⟨.nil, fun t ht ↦ by cases ht⟩
  | cons e es ih =>
    cases e with
    | update m =>
      obtain ⟨hchain, hhead⟩ := ih last (before ++ [m])
      exact ⟨hchain, fun t ht ↦ ⟨(List.prefix_append _ _).trans (hhead t ht).1, (hhead t ht).2⟩⟩
    | clock now later =>
      rw [due]
      split_ifs with hdue
      · obtain ⟨hchain, hhead⟩ := ih later before
        refine ⟨hchain.cons fun t ht ↦ hhead t ht, fun t ht ↦ ?_⟩
        obtain rfl := Option.some.inj ht
        exact ⟨List.prefix_rfl, hdue⟩
      · exact ih last before

def Taken.table (t : Taken) : Except Fault SnapshotSynthesizer :=
  t.before.foldlM SnapshotSynthesizer.addToSnapshot .new

theorem run_packets (hbuffer : s.snapshotSocket.outboundData = [])
    (htable : before.foldlM SnapshotSynthesizer.addToSnapshot .new = .ok s.synthesizer)
    (hrun : es.foldlM step s = .ok s') : s'.snapshotSocket.outboundData = [] ∧
      ∃ tables packets, (due s.lastSnapshotTime before es).map Taken.table = tables.map .ok ∧
        s'.snapshotSocket.packets = s.snapshotSocket.packets ++ packets ∧ Published tables packets := by
  induction es generalizing s before with
  | nil =>
    obtain rfl := Except.ok.inj hrun
    exact ⟨hbuffer, [], [], rfl, (List.append_nil _).symm, [], rfl, rfl, nofun⟩
  | cons e es ih =>
    rw [List.foldlM_cons] at hrun
    cases e with
    | update m =>
      obtain ⟨s₁, hstep, hrun⟩ := bind_eq_ok hrun
      obtain ⟨v, hadd, hs₁⟩ := bind_eq_ok hstep
      obtain rfl := Except.ok.inj hs₁
      refine ih (s := ⟨v, _, _⟩) hbuffer ?_ hrun
      exact (foldlM_concat _ _ _ m htable).trans hadd
    | clock now later =>
      rcases step_clock now later hbuffer with
        ⟨hdue, hstep⟩ | ⟨hdue, packets, hstep, hpackets⟩
      · rw [hstep] at hrun
        rw [due, if_neg hdue]
        exact ih hbuffer htable hrun
      · rw [hstep] at hrun
        obtain ⟨hempty, tables, packets', htables, hs', hpackets'⟩ :=
          ih (s := ⟨s.synthesizer, later, [], _⟩) rfl htable hrun
        rw [due, if_pos hdue]
        refine ⟨hempty, s.synthesizer :: tables, packets ++ packets', ?_, ?_, hpackets.append hpackets'⟩
        · rw [List.map_cons, List.map_cons, htables, Taken.table, htable]
        · rw [hs', List.append_assoc]

theorem Published.messages {tables : List SnapshotSynthesizer} {packets : List (List UInt8)}
    (h : Published tables packets) (hfit : ∀ v ∈ tables, v.AllFit) :
    Layout.mdpMarketUpdate.messages packets.flatten = tables.flatMap (·.publishSnapshot) := by
  obtain ⟨ds, rfl, hflatten, -⟩ := h
  have hfits : ∀ m ∈ tables.flatMap (·.publishSnapshot), Layout.mdpMarketUpdate.Fits m := by
    intro m hm
    obtain ⟨v, hv, hm⟩ := List.mem_flatMap.mp hm
    exact (hfit v hv).publishSnapshot_fits hm
  rw [Packed.stream_flatten, hflatten, Packed.messages_stream _ (by decide) hfits]

theorem due_subset {last : ℤ} {t : Taken} {more : List MDPMarketUpdate} (hmore : more = updates es)
    (ht : t ∈ due last before es) : t.before <+: before ++ more := by
  subst hmore
  induction es generalizing last before with
  | nil => cases ht
  | cons e es ih =>
    cases e with
    | update m =>
      have hupdates : updates (.update m :: es) = m :: updates es := rfl
      have h := ih (show t ∈ due last (before ++ [m]) es from ht)
      rwa [List.append_assoc, List.singleton_append, ← hupdates] at h
    | clock now later =>
      rw [due] at ht
      split_ifs at ht with hdue
      · rcases List.mem_cons.mp ht with rfl | ht
        · exact List.prefix_append _ _
        · exact ih ht
      · exact ih ht

/-- The packets are, byte for byte, snapshots that are due, each of the table after the updates so far,
with more than a minute between them. -/
theorem snapshots_when_due (hms : ∀ m ∈ updates es, m.meMarketUpdate.Fits)
    (hrun : es.foldlM step start = .ok s) :
    (updates es).foldlM SnapshotSynthesizer.addToSnapshot .new = .ok s.synthesizer ∧
      (due 0 [] es).IsChain Follows ∧
      ∃ tables, (due 0 [] es).map Taken.table = tables.map .ok ∧
        Published tables s.snapshotSocket.packets ∧
        Layout.mdpMarketUpdate.messages s.snapshotSocket.packets.flatten =
          tables.flatMap (·.publishSnapshot) := by
  have htable := run_table (s := start) rfl es
  rw [hrun] at htable
  obtain ⟨-, tables, packets, htables, hpackets, hpublished⟩ :=
    run_packets rfl (show [].foldlM SnapshotSynthesizer.addToSnapshot .new = .ok start.synthesizer from rfl) hrun
  obtain rfl : s.snapshotSocket.packets = packets := hpackets
  refine ⟨htable.symm, (due_follows 0 [] es).1, tables, htables, hpublished, hpublished.messages ?_⟩
  intro v hv
  obtain ⟨t, ht, htable⟩ := List.mem_map.mp (htables ▸ List.mem_map_of_mem hv)
  refine SnapshotSynthesizer.allFit_of_run (fun m hm ↦ hms m ?_) htable
  exact (due_subset rfl ht).subset hm

theorem run_returns (es : List Event) : (∃ s, es.foldlM step start = .ok s) ↔
    ∃ v, (updates es).foldlM SnapshotSynthesizer.addToSnapshot .new = .ok v := by
  have htable := run_table (s := start) rfl es
  rw [show start.synthesizer = .new from rfl] at htable
  rw [← htable]
  cases es.foldlM step start with
  | ok s => exact iff_of_true ⟨s, rfl⟩ ⟨s.synthesizer, rfl⟩
  | error e => exact iff_of_false (fun ⟨s, h⟩ ↦ by cases h) fun ⟨v, h⟩ ↦ by cases h

def twoReadings : List Event :=
  [.update ⟨1, ⟨.ADD, 1, 1, .BUY, 100, 5, 1⟩⟩, .clock 60000000001 60000000002, .clock 120000000002 0]

open SnapshotSynthesizer in
theorem snapshots_when_due_once : ∃ s, twoReadings.foldlM step start = .ok s ∧
    (updates twoReadings).foldlM addToSnapshot new = .ok s.synthesizer ∧
    Layout.mdpMarketUpdate.messages s.snapshotSocket.packets.flatten = s.synthesizer.publishSnapshot ∧
    s.synthesizer.publishSnapshot = messages [mark .SNAPSHOT_START 1, clear 0, clear 1,
      ⟨.ADD, 1, 1, .BUY, 100, 5, 1⟩, clear 2, clear 3, clear 4, clear 5, clear 6, clear 7,
      mark .SNAPSHOT_END 1] := by
  obtain ⟨v, hv, hbody, hlast⟩ := Yields.exists_ok
    (show Yields ((updates twoReadings).foldlM addToSnapshot new) fun v ↦
      ((List.range ME_MAX_TICKERS).flatMap fun tickerId ↦
        clear tickerId :: ((v.tickerOrders tickerId tickerId).map v.orderPool.get).toList) =
          [clear 0, clear 1, ⟨.ADD, 1, 1, .BUY, 100, 5, 1⟩, clear 2, clear 3, clear 4, clear 5, clear 6,
            clear 7] ∧ v.lastIncSeqNum = 1 by decide +kernel)
  obtain ⟨s, hrun⟩ := (run_returns twoReadings).mpr ⟨v, hv⟩
  obtain ⟨htable, -, tables, htables, -, hmessages⟩ := snapshots_when_due (by decide) hrun
  obtain rfl := Except.ok.inj (hv.symm.trans htable)
  have hdue : (due 0 [] twoReadings).map Taken.table = [.ok s.synthesizer] := congrArg (fun t ↦ [t]) hv
  rw [hdue] at htables
  obtain ⟨v, rfl, htaken⟩ := List.map_eq_singleton_iff.mp htables.symm
  obtain rfl := Except.ok.inj htaken
  refine ⟨s, hrun, hv, hmessages.trans (List.flatMap_singleton _ _), ?_⟩
  have horders : s.synthesizer.body = _ := (List.flatMap_congr fun tickerId ht ↦ by
    rw [orders_of_run hv ((List.mem_range.mp ht).trans (by decide))]).trans hbody
  rw [publishSnapshot, snapshot, opening, horders, hlast]
  rfl

end SnapshotLoop

end LowLatency.Exchange
