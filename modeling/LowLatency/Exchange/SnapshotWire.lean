import LowLatency.Common.Datagrams
import LowLatency.Exchange.SnapshotSynthesizer
import LowLatency.Exchange.Wire
import LowLatency.GuardedRun

namespace LowLatency.Exchange.SnapshotSynthesizer

open Common

/-- The socket, and `snapshot_size`, of which no snapshot comes near `2 ^ 64`. -/
abbrev Progress := McastSender × ℕ

def sendUpdate (x : Progress) (u : MEMarketUpdate) : Except Fault Progress := do
  let socket ← x.1.send (Layout.mdpMarketUpdate.encode ⟨x.2, u⟩)
  return (socket, x.2 + 1)

/-- The body of the loop over the orders of a ticker. -/
def sendOrder (v : SnapshotSynthesizer) (tickerId : TickerId) (x : Progress) (orderId : OrderId) :
    Except Fault Progress :=
  match v.tickerOrders tickerId orderId with
  | none => .ok x
  | some order => do
    let x ← sendUpdate x (v.orderPool.get order)
    return (x.1.sendAndRecv, x.2)

/-- The body of the loop over the tickers. -/
def sendTicker (v : SnapshotSynthesizer) (x : Progress) (tickerId : TickerId) : Except Fault Progress := do
  let x ← sendUpdate x (clear tickerId)
  (List.range ME_MAX_ORDER_IDS).foldlM (v.sendOrder tickerId) x

/-- `publishSnapshot`, as it goes out on the socket. -/
def publish (v : SnapshotSynthesizer) (socket : McastSender) : Except Fault McastSender := do
  let x ← sendUpdate (socket, 0) (mark .SNAPSHOT_START v.lastIncSeqNum)
  let x ← (List.range ME_MAX_TICKERS).foldlM v.sendTicker x
  let x ← sendUpdate x (mark .SNAPSHOT_END v.lastIncSeqNum)
  return x.1.sendAndRecv

/-- The updates of a snapshot, and after which of them the socket is flushed. -/
def items (v : SnapshotSynthesizer) : List (MEMarketUpdate × Bool) :=
  (mark .SNAPSHOT_START v.lastIncSeqNum, false) ::
    ((List.range ME_MAX_TICKERS).flatMap fun tickerId ↦
      (clear tickerId, false) :: (v.orders tickerId).map (·, true)) ++
    [(mark .SNAPSHOT_END v.lastIncSeqNum, true)]

def sendItem (x : Progress) (item : MEMarketUpdate × Bool) : Except Fault Progress := do
  let socket ← x.1.sendItem Layout.mdpMarketUpdate (⟨x.2, item.1⟩, item.2)
  return (socket, x.2 + 1)

def numbered : ℕ → List (MEMarketUpdate × Bool) → List (MDPMarketUpdate × Bool)
  | _, [] => []
  | n, (u, flush) :: items => (⟨n, u⟩, flush) :: numbered (n + 1) items

variable {v : SnapshotSynthesizer} {x : Progress} {socket : McastSender}

section Items

theorem sendUpdate_eq (x : Progress) (u : MEMarketUpdate) : sendUpdate x u = sendItem x (u, false) := by
  unfold sendUpdate sendItem McastSender.sendItem
  cases x.1.send (Layout.mdpMarketUpdate.encode ⟨x.2, u⟩) <;> rfl

theorem sendOrder_eq (tickerId : TickerId) (x : Progress) (orderId : OrderId) :
    v.sendOrder tickerId x orderId =
      match (v.tickerOrders tickerId orderId).map v.orderPool.get with
      | none => .ok x
      | some order => sendItem x (order, true) := by
  unfold sendOrder
  cases v.tickerOrders tickerId orderId with
  | none => rfl
  | some order =>
    unfold sendUpdate sendItem McastSender.sendItem
    dsimp only [Option.map_some]
    cases x.1.send (Layout.mdpMarketUpdate.encode ⟨x.2, v.orderPool.get order⟩) <;> rfl

theorem foldlM_sendOrder (tickerId : TickerId) (x : Progress) :
    (List.range ME_MAX_ORDER_IDS).foldlM (v.sendOrder tickerId) x =
      ((v.orders tickerId).map (·, true)).foldlM sendItem x := by
  rw [orders, List.foldlM_map, List.foldlM_filterMap]
  congr 1
  funext x orderId
  rw [sendOrder_eq]
  cases (v.tickerOrders tickerId orderId).map v.orderPool.get <;> rfl

theorem foldlM_flatMap {α β σ : Type} (f : α → List β) (g : σ → β → Except Fault σ) (as : List α) (x : σ) :
    (as.flatMap f).foldlM g x = as.foldlM (fun x a ↦ (f a).foldlM g x) x := by
  induction as generalizing x with
  | nil => rfl
  | cons a as ih =>
    rw [List.flatMap_cons, List.foldlM_append, List.foldlM_cons]
    cases (f a).foldlM g x with
    | error e => rfl
    | ok x' => exact ih x'

theorem sendTicker_eq (v : SnapshotSynthesizer) (x : Progress) (tickerId : TickerId) :
    v.sendTicker x tickerId =
      ((clear tickerId, false) :: (v.orders tickerId).map (·, true)).foldlM sendItem x := by
  rw [sendTicker, sendUpdate_eq, List.foldlM_cons]
  cases sendItem x (clear tickerId, false) with
  | error e => rw [error_bind, error_bind]
  | ok y => rw [ok_bind, ok_bind, foldlM_sendOrder]

theorem publish_eq (v : SnapshotSynthesizer) (socket : McastSender) :
    v.publish socket = v.items.foldlM sendItem (socket, 0) >>= fun x ↦ .ok x.1 := by
  have hend : ∀ x, (sendUpdate x (mark .SNAPSHOT_END v.lastIncSeqNum) >>= fun y ↦
      .ok y.1.sendAndRecv) = [(mark .SNAPSHOT_END v.lastIncSeqNum, true)].foldlM sendItem x >>= fun y ↦
        .ok y.1 := by
    intro x
    rw [foldlM_singleton]
    unfold sendUpdate sendItem McastSender.sendItem
    cases x.1.send (Layout.mdpMarketUpdate.encode ⟨x.2, mark .SNAPSHOT_END v.lastIncSeqNum⟩) <;> rfl
  have htickers : ∀ x, (List.range ME_MAX_TICKERS).foldlM v.sendTicker x =
      ((List.range ME_MAX_TICKERS).flatMap fun tickerId ↦
        (clear tickerId, false) :: (v.orders tickerId).map (·, true)).foldlM sendItem x := by
    intro x
    rw [foldlM_flatMap, funext fun x ↦ funext fun tickerId ↦ v.sendTicker_eq x tickerId]
  rw [items, List.foldlM_append, List.foldlM_cons, publish, sendUpdate_eq]
  cases sendItem (socket, 0) (mark .SNAPSHOT_START v.lastIncSeqNum, false) with
  | error e => simp only [error_bind]
  | ok x =>
    simp only [ok_bind, htickers]
    cases ((List.range ME_MAX_TICKERS).flatMap fun tickerId ↦
        (clear tickerId, false) :: (v.orders tickerId).map (·, true)).foldlM sendItem x with
    | error e => simp only [error_bind]
    | ok y => exact hend y

theorem foldlM_numbered (us : List (MEMarketUpdate × Bool)) (x : Progress) :
    (us.foldlM sendItem x >>= fun y ↦ .ok y.1) =
      (numbered x.2 us).foldlM (McastSender.sendItem Layout.mdpMarketUpdate) x.1 := by
  induction us generalizing x with
  | nil => rfl
  | cons item us ih =>
    obtain ⟨u, flush⟩ := item
    rw [List.foldlM_cons, numbered, List.foldlM_cons, sendItem]
    cases x.1.sendItem Layout.mdpMarketUpdate (⟨x.2, u⟩, flush) with
    | error e => rfl
    | ok socket => exact ih (socket, x.2 + 1)

theorem map_numbered (n : ℕ) (us : List (MEMarketUpdate × Bool)) :
    (numbered n us).map Prod.fst = (us.map Prod.fst).mapIdx fun i u ↦ ⟨n + i, u⟩ := by
  induction us generalizing n with
  | nil => rfl
  | cons item us ih =>
    obtain ⟨u, flush⟩ := item
    rw [numbered, List.map_cons, ih, List.map_cons, List.mapIdx_cons]
    simp only [Nat.add_zero, Nat.add_assoc, Nat.add_comm 1]

theorem numbered_flags (n : ℕ) (us : List (MEMarketUpdate × Bool)) :
    (numbered n us).map Prod.snd = us.map Prod.snd := by
  induction us generalizing n with
  | nil => rfl
  | cons item us ih =>
    obtain ⟨u, flush⟩ := item
    rw [numbered, List.map_cons, ih, List.map_cons]

theorem numbered_append (n : ℕ) (us us' : List (MEMarketUpdate × Bool)) :
    numbered n (us ++ us') = numbered n us ++ numbered (n + us.length) us' := by
  induction us generalizing n with
  | nil => rfl
  | cons item us ih =>
    obtain ⟨u, flush⟩ := item
    rw [List.cons_append, numbered, ih, numbered, List.cons_append, List.length_cons, Nat.add_right_comm,
      Nat.add_assoc]

theorem map_fst_items (v : SnapshotSynthesizer) : v.items.map Prod.fst = v.snapshot := by
  have horders : ∀ us : List MEMarketUpdate, (us.map (·, true)).map Prod.fst = us := fun us ↦ by
    rw [List.map_map]
    exact us.map_id
  rw [items, snapshot, opening, body, List.map_append, List.map_cons, List.map_flatMap]
  simp only [List.map_cons, List.map_nil, horders]

theorem unflushed_items (v : SnapshotSynthesizer) :
    McastSender.unflushed (numbered 0 v.items) = ME_MAX_TICKERS + 1 := by
  have hflags : McastSender.unflushed (numbered 0 v.items) = ((v.items.map Prod.snd).countP fun b ↦ !b) := by
    rw [← numbered_flags 0, List.countP_map]
    exact List.countP_congr fun _ _ ↦ by simp
  have horders : ∀ n, (List.replicate n true).countP (fun b ↦ !b) = 0 := fun n ↦ by
    rw [List.countP_replicate]
    rfl
  rw [hflags]
  simp [items, List.map_flatMap, List.countP_flatMap, Function.comp_def, horders]

theorem flushed_items (v : SnapshotSynthesizer) : (numbered 0 v.items).countP (·.2) =
    ((List.range ME_MAX_TICKERS).map fun tickerId ↦ (v.orders tickerId).length).sum + 1 := by
  have hflags : (numbered 0 v.items).countP (·.2) = (v.items.map Prod.snd).countP id := by
    rw [← numbered_flags 0, List.countP_map]
    rfl
  rw [hflags]
  simp [items, List.map_flatMap, List.countP_flatMap, Function.comp_def, List.countP_replicate]

end Items

/-- A snapshot always goes out: one packet for each order and one for the end, of whole messages, of
which no packet holds more than ten. -/
theorem publish_packets (v : SnapshotSynthesizer) (h : socket.outboundData = []) :
    ∃ ds : List (List MDPMarketUpdate),
      v.publish socket = .ok ⟨[], socket.packets ++ ds.map Layout.mdpMarketUpdate.stream⟩ ∧
        ds.flatten = v.publishSnapshot ∧ (∀ d ∈ ds, 0 < d.length ∧ d.length ≤ 10) ∧
        ds.length = ((List.range ME_MAX_TICKERS).map fun tickerId ↦ (v.orders tickerId).length).sum + 1 := by
  have hcount : ([] : List MDPMarketUpdate).length + McastSender.unflushed (numbered 0 v.items) ≤ 9 := by
    rw [unflushed_items]
    decide
  have hunsent : McastSender.unsent [] (numbered 0 v.items) = [] := by
    rw [items, numbered_append]
    exact McastSender.unsent_concat _ _ _
  have hflatten := McastSender.datagrams_flatten [] (numbered 0 v.items)
  rw [hunsent, List.append_nil, List.nil_append, map_numbered, map_fst_items] at hflatten
  refine ⟨McastSender.datagrams [] (numbered 0 v.items), ?_, ?_, McastSender.mem_datagrams hcount, ?_⟩
  · rw [publish_eq, foldlM_numbered, McastSender.foldlM_sendItem (by decide) (by decide) h hcount, hunsent]
    rfl
  · rw [hflatten, publishSnapshot, messages]
    simp only [Nat.zero_add]
  · rw [McastSender.length_datagrams, flushed_items]

theorem publish_packets_single : ∃ ds : List (List MDPMarketUpdate),
    (single 5 ⟨.ADD, 0, 0, .BUY, 100, 5, 1⟩).publish .new =
      .ok ⟨[], ds.map Layout.mdpMarketUpdate.stream⟩ ∧ ds.length = 2 := by
  have hbuffer : McastSender.new.outboundData = [] := rfl
  obtain ⟨ds, hrun, -, -, hlength⟩ := publish_packets (single 5 ⟨.ADD, 0, 0, .BUY, 100, 5, 1⟩) hbuffer
  have hrange : List.range ME_MAX_TICKERS = [0, 1, 2, 3, 4, 5, 6, 7] := rfl
  refine ⟨ds, hrun, hlength.trans ?_⟩
  simp [hrange, orders_single_zero, orders_single_of_ne]

end LowLatency.Exchange.SnapshotSynthesizer
