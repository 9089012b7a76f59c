import LowLatency.Common.MemPool
import LowLatency.Exchange.Messages

namespace LowLatency.Exchange

open Common Function

structure SnapshotSynthesizer where
  tickerOrders : TickerId → OrderId → Option Ptr
  lastIncSeqNum : ℕ
  orderPool : MemPool MEMarketUpdate

namespace SnapshotSynthesizer

def new : SnapshotSynthesizer where
  tickerOrders := fun _ _ ↦ none
  lastIncSeqNum := 0
  orderPool := .new ME_MAX_ORDER_IDS .invalid

/-- `orders->at(orderId)` for the orders of a ticker. -/
def orderAt (v : SnapshotSynthesizer) (tickerId : TickerId) (orderId : OrderId) :
    Except Fault (Option Ptr) :=
  if orderId < ME_MAX_ORDER_IDS then .ok (v.tickerOrders tickerId orderId) else .error .outOfRange

def setOrder (v : SnapshotSynthesizer) (tickerId : TickerId) (orderId : OrderId) (order : Option Ptr) :
    Except Fault SnapshotSynthesizer :=
  if orderId < ME_MAX_ORDER_IDS then
    .ok { v with
      tickerOrders := update v.tickerOrders tickerId (update (v.tickerOrders tickerId) orderId order) }
  else .error .outOfRange

/-- The assertions of `MODIFY` and `CANCEL` on the order that the table has under the id. -/
def existing (v : SnapshotSynthesizer) (u : MEMarketUpdate) : Except Fault Ptr := do
  match ← v.orderAt u.tickerId u.orderId with
  | none => .error (.assertion ("Received: " ++ u.toString ++ " but order does not exist."))
  | some order =>
    if (v.orderPool.get order).orderId ≠ u.orderId then
      .error (.assertion "Expecting existing order to match new one.")
    else if (v.orderPool.get order).side ≠ u.side then
      .error (.assertion "Expecting existing order to match new one.")
    else .ok order

/-- The switch of `addToSnapshot`. An order is looked for under its id but, as in the source, stored
under the ticker's. -/
def addOrder (v : SnapshotSynthesizer) (u : MEMarketUpdate) : Except Fault SnapshotSynthesizer :=
  if ¬ u.tickerId < ME_MAX_TICKERS then .error .outOfRange
  else match u.type with
  | .ADD => do
    match ← v.orderAt u.tickerId u.orderId with
    | some order =>
      .error (.assertion ("Received: " ++ u.toString ++ " but order already exists: " ++
        (v.orderPool.get order).toString))
    | none =>
      let (order, pool) ← v.orderPool.allocate u
      setOrder { v with orderPool := pool } u.tickerId u.tickerId (some order)
  | .MODIFY => do
    let order ← v.existing u
    return { v with
      orderPool := v.orderPool.modify order fun o ↦ { o with qty := u.qty, price := u.price } }
  | .CANCEL => do
    let order ← v.existing u
    let pool ← v.orderPool.deallocate order
    setOrder { v with orderPool := pool } u.tickerId u.orderId none
  | _ => .ok v

def addToSnapshot (v : SnapshotSynthesizer) (u : MDPMarketUpdate) :
    Except Fault SnapshotSynthesizer := do
  let v' ← v.addOrder u.meMarketUpdate
  if u.seqNum = (v.lastIncSeqNum + 1) % 2 ^ 64 then return { v' with lastIncSeqNum := u.seqNum }
  else .error (.assertion "Expected incremental seq_nums to increase.")

/-- The stored orders of a ticker, in the order of the table. -/
def orders (v : SnapshotSynthesizer) (tickerId : TickerId) : List MEMarketUpdate :=
  (List.range ME_MAX_ORDER_IDS).filterMap fun orderId ↦
    (v.tickerOrders tickerId orderId).map v.orderPool.get

theorem orders_eq_range {v : SnapshotSynthesizer} {tickerId : TickerId} {n : ℕ} (hn : n ≤ ME_MAX_ORDER_IDS)
    (h : ∀ orderId ≥ n, v.tickerOrders tickerId orderId = none) :
    v.orders tickerId = (List.range n).filterMap fun orderId ↦
      (v.tickerOrders tickerId orderId).map v.orderPool.get := by
  obtain ⟨k, hk⟩ := Nat.exists_eq_add_of_le hn
  have hrest : ((List.range k).map (n + ·)).filterMap
      (fun orderId ↦ (v.tickerOrders tickerId orderId).map v.orderPool.get) = [] := by
    refine List.filterMap_eq_nil_iff.mpr fun i hi ↦ ?_
    obtain ⟨j, -, rfl⟩ := List.mem_map.mp hi
    rw [h (n + j) (Nat.le_add_right n j), Option.map_none]
  rw [orders, hk, List.range_add, List.filterMap_append, hrest, List.append_nil]

def clear (tickerId : TickerId) : MEMarketUpdate :=
  { MEMarketUpdate.invalid with type := .CLEAR, tickerId := tickerId }

def body (v : SnapshotSynthesizer) : List MEMarketUpdate :=
  (List.range ME_MAX_TICKERS).flatMap fun tickerId ↦ clear tickerId :: v.orders tickerId

/-- The mark before or behind a snapshot, with the last sequence number in the place of an id. -/
def mark (type : MarketUpdateType) (lastIncSeqNum : ℕ) : MEMarketUpdate :=
  { MEMarketUpdate.invalid with type := type, orderId := lastIncSeqNum }

def opening (v : SnapshotSynthesizer) : List MEMarketUpdate :=
  mark .SNAPSHOT_START v.lastIncSeqNum :: v.body

def snapshot (v : SnapshotSynthesizer) : List MEMarketUpdate :=
  v.opening ++ [mark .SNAPSHOT_END v.lastIncSeqNum]

/-- The updates of a snapshot as they are sent, numbered by `snapshot_size`. -/
def messages (us : List MEMarketUpdate) : List MDPMarketUpdate :=
  us.mapIdx fun snapshotSize u ↦ ⟨snapshotSize, u⟩

def publishSnapshot (v : SnapshotSynthesizer) : List MDPMarketUpdate := messages v.snapshot

theorem messages_concat (us : List MEMarketUpdate) (u : MEMarketUpdate) :
    messages (us ++ [u]) = messages us ++ [⟨us.length, u⟩] := by
  simp [messages]

theorem take_messages (us : List MEMarketUpdate) (n : ℕ) :
    (messages us).take n = messages (us.take n) := by
  induction us using List.reverseRecOn with
  | nil => simp [messages]
  | append_singleton us u ih =>
    rw [messages_concat]
    rcases Nat.lt_or_ge us.length n with hlt | hge
    · rw [List.take_of_length_le (by simpa [messages] using hlt),
        List.take_of_length_le (by simpa using hlt), messages_concat]
    · rw [List.take_append_of_le_length (by simpa [messages] using hge),
        List.take_append_of_le_length hge, ih]

@[simp] theorem length_messages (us : List MEMarketUpdate) : (messages us).length = us.length :=
  List.length_mapIdx

def single (lastIncSeqNum : ℕ) (order : MEMarketUpdate) : SnapshotSynthesizer where
  tickerOrders := fun tickerId orderId ↦ if tickerId = 0 ∧ orderId = 0 then some 0 else none
  lastIncSeqNum := lastIncSeqNum
  orderPool := .new ME_MAX_ORDER_IDS order

def pair (lastIncSeqNum : ℕ) (first second : MEMarketUpdate) : SnapshotSynthesizer where
  tickerOrders := fun tickerId orderId ↦ if tickerId = 0 ∧ orderId < 2 then some orderId else none
  lastIncSeqNum := lastIncSeqNum
  orderPool := (MemPool.new ME_MAX_ORDER_IDS first).modify 1 fun _ ↦ second

section Single

variable (lastIncSeqNum : ℕ) (order second : MEMarketUpdate) {tickerId : TickerId}

theorem orders_single_zero : (single lastIncSeqNum order).orders 0 = [order] :=
  orders_eq_range (n := 1) (by decide) fun orderId h ↦ if_neg fun hkey ↦ Nat.one_le_iff_ne_zero.mp h hkey.2

theorem orders_single_of_ne (h : tickerId ≠ 0) : (single lastIncSeqNum order).orders tickerId = [] :=
  orders_eq_range (n := 0) (by decide) fun orderId _ ↦ if_neg fun hkey ↦ h hkey.1

theorem orders_pair_zero : (pair lastIncSeqNum order second).orders 0 = [order, second] :=
  orders_eq_range (n := 2) (by decide) fun orderId h ↦ if_neg fun hkey ↦ Nat.not_lt_of_ge h hkey.2

theorem orders_pair_of_ne (h : tickerId ≠ 0) : (pair lastIncSeqNum order second).orders tickerId = [] :=
  orders_eq_range (n := 0) (by decide) fun orderId _ ↦ if_neg fun hkey ↦ h hkey.1

theorem snapshot_single :
    (single lastIncSeqNum order).snapshot =
      [mark .SNAPSHOT_START lastIncSeqNum, clear 0, order, clear 1, clear 2, clear 3, clear 4, clear 5,
        clear 6, clear 7, mark .SNAPSHOT_END lastIncSeqNum] := by
  have hrange : List.range ME_MAX_TICKERS = [0, 1, 2, 3, 4, 5, 6, 7] := rfl
  rw [snapshot, opening, body, hrange]
  simp only [List.flatMap_cons, List.flatMap_nil, orders_single_zero, orders_single_of_ne, ne_eq,
    OfNat.ofNat_ne_zero, one_ne_zero, not_false_eq_true, List.cons_append, List.nil_append]
  rfl

end Single

end SnapshotSynthesizer

end LowLatency.Exchange
