import LowLatency.Book.LevelBook
import LowLatency.Exchange.Messages

namespace LowLatency.Trading

open Common Book Exchange

structure MarketOrderKey where
  orderId : OrderId
  deriving DecidableEq, Repr

abbrev MarketOrder := OrderNode MarketOrderKey
abbrev MarketOrdersAtPrice := OrdersAtPrice

/-- The constructor of `MarketOrder`, with its parameters in the order of the source. -/
def MarketOrder.mk (orderId : OrderId) (side : Side) (price : Price) (qty : Qty)
    (priority : Priority) (prevOrder nextOrder : Option Ptr) : MarketOrder where
  key := ⟨orderId⟩
  side := side
  price := price
  qty := qty
  priority := priority
  prevOrder := prevOrder
  nextOrder := nextOrder

/-- `m_oid_to_order.at(order->m_order_id)` -/
instance : TableKey MarketOrderKey OrderId where
  entry key := if key.orderId < ME_MAX_ORDER_IDS then some key.orderId else none

structure BBO where
  bidPrice : Price
  askPrice : Price
  bidQty : Qty
  askQty : Qty
  deriving DecidableEq, Repr

/-- A call of the trade engine. -/
inductive Notification
  | onTradeUpdate (u : MEMarketUpdate)
  | onOrderBookUpdate (tickerId : TickerId) (price : Price) (side : Side)
  deriving DecidableEq, Repr

structure MarketOrderBook where
  book : LevelBook MarketOrderKey OrderId
  tickerId : TickerId
  tradeEngine : Option Ptr
  bbo : BBO
  /-- The calls of the trade engine so far, oldest first. -/
  notified : List Notification

/-- The loop of `updateBBO` over the orders behind the first. -/
def sumQty (b : LevelBook MarketOrderKey OrderId) (first : Ptr) : ℕ → Ptr → Qty → Except Fault Qty
  | 0, _, _ => .error .diverges
  | fuel + 1, order, qty =>
    if order = first then .ok qty
    else do
      let next ← deref (b.nextOrder order)
      sumQty b first fuel next ((qty + (b.order order).qty) % 2 ^ 32)

/-- The part of `updateBBO` for one side. -/
def bestQuote (b : LevelBook MarketOrderKey OrderId) (side : Side) : Except Fault (Price × Qty) :=
  match b.best side with
  | none => .ok (Price_INVALID, Qty_INVALID)
  | some l => do
    let first ← deref (b.firstOrder l)
    let next ← deref (b.nextOrder first)
    let qty ← sumQty b first (b.orderPool.size + 1) next (b.order first).qty
    return (b.levelPrice l, qty)

namespace MarketOrderBook

def new (tickerId : TickerId) : MarketOrderBook where
  book :=
    { orderPool := .new ME_MAX_ORDER_IDS (MarketOrder.mk OrderId_INVALID .INVALID Price_INVALID
        Qty_INVALID Priority_INVALID none none)
      ordersAtPricePool := .new ME_MAX_ORDER_IDS ⟨.INVALID, Price_INVALID, none, none, none⟩
      bidsByPrice := none
      asksByPrice := none
      priceOrdersAtPrice := fun _ ↦ none
      orderTable := fun _ ↦ none }
  tickerId := tickerId
  tradeEngine := none
  bbo := ⟨Price_INVALID, Price_INVALID, Qty_INVALID, Qty_INVALID⟩
  notified := []

def setTradeEngine (m : MarketOrderBook) (tradeEngine : Option Ptr) : MarketOrderBook :=
  { m with tradeEngine := tradeEngine }

def notify (m : MarketOrderBook) (n : Notification) : Except Fault MarketOrderBook := do
  let _ ← deref m.tradeEngine
  return { m with notified := m.notified ++ [n] }

def updateBBO (m : MarketOrderBook) (updateBid updateAsk : Bool) : Except Fault MarketOrderBook := do
  let m ← if updateBid then do
      let (price, qty) ← bestQuote m.book .BUY
      pure { m with bbo := { m.bbo with bidPrice := price, bidQty := qty } }
    else pure m
  if updateAsk then do
    let (price, qty) ← bestQuote m.book .SELL
    return { m with bbo := { m.bbo with askPrice := price, askQty := qty } }
  else return m

/-- `m_oid_to_order.at(order_id)`, dereferenced. -/
def orderAt (b : LevelBook MarketOrderKey OrderId) (orderId : OrderId) : Except Fault Ptr :=
  if orderId < ME_MAX_ORDER_IDS then deref (b.orderTable orderId) else .error .outOfRange

/-- The loop that gives the levels behind the best one back to the pool. -/
def clearLoop (best : Ptr) :
    ℕ → LevelBook MarketOrderKey OrderId → Ptr → Except Fault (LevelBook MarketOrderKey OrderId)
  | 0, _, _ => .error .diverges
  | fuel + 1, b, l =>
    if l = best then .ok b
    else do
      let pool ← b.ordersAtPricePool.deallocate l
      let b := { b with ordersAtPricePool := pool }
      let next ← deref (b.nextEntry l)
      clearLoop best fuel b next

def clearLevels (b : LevelBook MarketOrderKey OrderId) (side : Side) :
    Except Fault (LevelBook MarketOrderKey OrderId) :=
  match b.best side with
  | none => .ok b
  | some best => do
    let next ← deref (b.nextEntry best)
    let b ← clearLoop best (b.ordersAtPricePool.size + 1) b next
    let pool ← b.ordersAtPricePool.deallocate best
    return { b with ordersAtPricePool := pool }

/-- The `CLEAR` branch. It leaves the price index as it is. -/
def clear (b : LevelBook MarketOrderKey OrderId) : Except Fault (LevelBook MarketOrderKey OrderId) := do
  let pool ← (List.range ME_MAX_ORDER_IDS).foldlM (fun (pool : MemPool MarketOrder) orderId ↦
    match b.orderTable orderId with
    | none => .ok pool
    | some order => pool.deallocate order) b.orderPool
  let b := { b with orderPool := pool, orderTable := fun _ ↦ none }
  let b ← clearLevels b .BUY
  let b ← clearLevels b .SELL
  return { b with bidsByPrice := none, asksByPrice := none }

/-- The `switch` of `onMarketUpdate`, without the `TRADE` branch, which returns. -/
def applyUpdate (b : LevelBook MarketOrderKey OrderId) (u : MEMarketUpdate) :
    Except Fault (LevelBook MarketOrderKey OrderId) :=
  match u.type with
  | .ADD => b.orderPool.allocate (MarketOrder.mk u.orderId u.side u.price u.qty u.priority none none)
      >>= fun r ↦ LevelBook.addOrder { b with orderPool := r.2 } r.1
  | .MODIFY => do
    let order ← orderAt b u.orderId
    return b.setQty order u.qty
  | .CANCEL => do
    let order ← orderAt b u.orderId
    b.removeOrder order
  | .CLEAR => clear b
  | _ => .ok b

def onMarketUpdate (m : MarketOrderBook) (u : MEMarketUpdate) : Except Fault MarketOrderBook :=
  let bidUpdated := match m.book.bidsByPrice with
    | none => false
    | some l => u.side = .BUY && u.price ≥ m.book.levelPrice l
  let askUpdated := match m.book.asksByPrice with
    | none => false
    | some l => u.side = .SELL && u.price ≤ m.book.levelPrice l
  match u.type with
  | .TRADE => m.notify (.onTradeUpdate u)
  | _ => do
    let b ← applyUpdate m.book u
    let m ← { m with book := b }.updateBBO bidUpdated askUpdated
    m.notify (.onOrderBookUpdate u.tickerId u.price u.side)

def run (m : MarketOrderBook) (updates : List MEMarketUpdate) : Except Fault MarketOrderBook :=
  updates.foldlM onMarketUpdate m

end MarketOrderBook

end LowLatency.Trading
