import LowLatency.Book.LevelBook
import LowLatency.Exchange.Messages

namespace LowLatency.Exchange

open Common Book

/-- The fields that `MEOrder` has and `MarketOrder` lacks. -/
structure MEOrderKey where
  clientId : ClientId
  tickerId : TickerId
  clientOrderId : OrderId
  marketOrderId : OrderId
  deriving DecidableEq, Repr

abbrev MEOrder := OrderNode MEOrderKey
abbrev MEOrderAtPrice := OrdersAtPrice

/-- The constructor of `MEOrder`, with its parameters in the order of the source. -/
def MEOrder.mk (clientId : ClientId) (tickerId : TickerId) (clientOrderId : OrderId)
    (marketOrderId : OrderId) (side : Side) (price : Price) (execQty : Qty) (priority : Priority)
    (prevOrder nextOrder : Option Ptr) : MEOrder where
  key := ⟨clientId, tickerId, clientOrderId, marketOrderId⟩
  side := side
  price := price
  qty := execQty
  priority := priority
  prevOrder := prevOrder
  nextOrder := nextOrder

/-- `m_cid_oid_to_order.at(order->m_client_id).at(order->m_client_order_id)` -/
instance : TableKey MEOrderKey (ClientId × OrderId) where
  entry key := if key.clientId < ME_MAX_NUM_CLIENTS ∧ key.clientOrderId < ME_MAX_ORDER_IDS then
    some (key.clientId, key.clientOrderId) else none

structure MEOrderBook where
  book : LevelBook MEOrderKey (ClientId × OrderId)
  tickerId : TickerId
  nextMarketOrderId : OrderId
  /-- Everything handed to the matching engine so far, oldest first. -/
  sent : List Output

/-- A call that did not return, with what had been sent until then. -/
structure Halt where
  fault : Fault
  sent : List Output
  deriving DecidableEq

namespace MEOrderBook

def new (tickerId : TickerId) : MEOrderBook where
  book :=
    { orderPool := .new ME_MAX_ORDER_IDS (MEOrder.mk (2 ^ 32 - 1) (2 ^ 32 - 1) OrderId_INVALID
        OrderId_INVALID .INVALID Price_INVALID Qty_INVALID Priority_INVALID none none)
      ordersAtPricePool := .new ME_MAX_PRICE_LEVELS ⟨.INVALID, Price_INVALID, none, none, none⟩
      bidsByPrice := none
      asksByPrice := none
      priceOrdersAtPrice := fun _ ↦ none
      orderTable := fun _ ↦ none }
  tickerId := tickerId
  nextMarketOrderId := 1
  sent := []

def sendClientResponse (s : MEOrderBook) (r : MEClientResponse) : MEOrderBook :=
  { s with sent := s.sent ++ [.response r] }

def sendMarketUpdate (s : MEOrderBook) (u : MEMarketUpdate) : MEOrderBook :=
  { s with sent := s.sent ++ [.update u] }

def onBook {α : Type} (s : MEOrderBook) (x : Except Fault α) : Except Halt α :=
  x.mapError fun f ↦ ⟨f, s.sent⟩

def generateNewMarketOrderId (s : MEOrderBook) : OrderId × MEOrderBook :=
  (s.nextMarketOrderId, { s with nextMarketOrderId := (s.nextMarketOrderId + 1) % 2 ^ 64 })

/-- `MEOrderBook::match`; `match` is a keyword here. -/
def matchOrder (s : MEOrderBook) (tickerId : TickerId) (clientId : ClientId) (side : Side)
    (clientOrderId newMarketOrderId : OrderId) (itr : Ptr) (leavesQty : Qty) :
    Except Halt (MEOrderBook × Qty) := do
  let orderQty := (s.book.order itr).qty
  let fillQty := min leavesQty orderQty
  let leavesQty := leavesQty - fillQty
  let s := { s with book := s.book.setQty itr (orderQty - fillQty) }
  let order := s.book.order itr
  let s := s.sendClientResponse ⟨.FILLED, clientId, tickerId, clientOrderId,
    newMarketOrderId, side, order.price, fillQty, leavesQty⟩
  let s := s.sendClientResponse ⟨.FILLED, order.key.clientId, tickerId, order.key.clientOrderId,
    order.key.marketOrderId, order.side, order.price, fillQty, order.qty⟩
  let s := s.sendMarketUpdate ⟨.TRADE, OrderId_INVALID, tickerId, side, order.price, fillQty,
    Priority_INVALID⟩
  if order.qty = 0 then
    let s := s.sendMarketUpdate ⟨.CANCEL, order.key.marketOrderId, tickerId, order.side,
      order.price, orderQty, Priority_INVALID⟩
    let b ← s.onBook (s.book.removeOrder itr)
    return ({ s with book := b }, leavesQty)
  else
    let s := s.sendMarketUpdate ⟨.MODIFY, order.key.marketOrderId, tickerId, order.side,
      order.price, order.qty, order.priority⟩
    return (s, leavesQty)

/-- The head of the `while` loops of `checkForMatch`: the order to match next, `none` if the loop is
left. Both loops of the source leave at `price < m_price`, whichever side they run over. -/
def nextMatch (s : MEOrderBook) (price : Price) (other : Side) (leavesQty : Qty) :
    Except Halt (Option Ptr) :=
  if leavesQty = 0 then .ok none
  else match s.book.best other with
    | none => .ok none
    | some l => do
      let itr ← s.onBook (deref (s.book.firstOrder l))
      if price < (s.book.order itr).price then return none else return some itr

/-- The `while` loops of `checkForMatch`, over the orders of the side `other`. -/
def matchLoop (tickerId : TickerId) (clientId : ClientId) (side : Side)
    (clientOrderId newMarketOrderId : OrderId) (price : Price) (other : Side) :
    ℕ → MEOrderBook → Qty → Except Halt (MEOrderBook × Qty)
  | 0, s, _ => .error ⟨.diverges, s.sent⟩
  | fuel + 1, s, leavesQty => do
    match ← s.nextMatch price other leavesQty with
    | none => return (s, leavesQty)
    | some itr =>
      let (s, leavesQty) ← s.matchOrder tickerId clientId side clientOrderId newMarketOrderId itr
        leavesQty
      matchLoop tickerId clientId side clientOrderId newMarketOrderId price other fuel s leavesQty

/-- The parameter `new_market_order_id` is declared as a `Qty`, 32 bits wide. -/
def checkForMatch (s : MEOrderBook) (clientId : ClientId) (clientOrderId : OrderId)
    (tickerId : TickerId) (side : Side) (price : Price) (qty : Qty) (newMarketOrderId : OrderId) :
    Except Halt (MEOrderBook × Qty) :=
  let newMarketOrderId := newMarketOrderId % 2 ^ 32
  let fuel := s.book.orderPool.size + 2
  match side with
  | .BUY => matchLoop tickerId clientId side clientOrderId newMarketOrderId price .SELL
      fuel s qty
  | .SELL => matchLoop tickerId clientId side clientOrderId newMarketOrderId price .BUY
      fuel s qty
  | .INVALID => .ok (s, qty)

/-- The part of `add` that rests what `checkForMatch` left over. `allocate` gets the ticker first
and the client second. -/
def addResidual (s : MEOrderBook) (clientId : ClientId) (clientOrderId : OrderId)
    (tickerId : TickerId) (side : Side) (price : Price) (newMarketOrderId : OrderId)
    (leavesQty : Qty) : Except Halt MEOrderBook := do
  let priority ← s.onBook (s.book.getNextPriority price)
  let (order, pool) ← s.onBook (s.book.orderPool.allocate (MEOrder.mk tickerId clientId
    clientOrderId newMarketOrderId side price leavesQty priority none none))
  let b ← s.onBook (LevelBook.addOrder { s.book with orderPool := pool } order)
  return { s with book := b }.sendMarketUpdate
    ⟨.ADD, newMarketOrderId, tickerId, side, price, leavesQty, priority⟩

def add (s : MEOrderBook) (clientId : ClientId) (clientOrderId : OrderId) (tickerId : TickerId)
    (side : Side) (price : Price) (qty : Qty) : Except Halt MEOrderBook := do
  let (newMarketOrderId, s) := s.generateNewMarketOrderId
  let s := s.sendClientResponse ⟨.ACCEPTED, clientId, tickerId, clientOrderId,
    newMarketOrderId, side, price, 0, qty⟩
  let (s, leavesQty) ← s.checkForMatch clientId clientOrderId tickerId side price qty
    newMarketOrderId
  if leavesQty ≠ 0 then
    s.addResidual clientId clientOrderId tickerId side price newMarketOrderId leavesQty
  else return s

/-- The order that `cancel` finds, `none` if it is not cancelable. -/
def findCancelable (s : MEOrderBook) (clientId : ClientId) (orderId : OrderId) :
    Except Fault (Option Ptr) :=
  if clientId < ME_MAX_NUM_CLIENTS then
    if orderId < ME_MAX_ORDER_IDS then .ok (s.book.orderTable (clientId, orderId))
    else .error .outOfRange
  else .ok none

def cancel (s : MEOrderBook) (clientId : ClientId) (orderId : OrderId) (tickerId : TickerId) :
    Except Halt MEOrderBook := do
  match ← s.onBook (s.findCancelable clientId orderId) with
  | none =>
    return s.sendClientResponse ⟨.CANCEL_REJECTED, clientId, tickerId, orderId, OrderId_INVALID,
      .INVALID, Price_INVALID, Qty_INVALID, Qty_INVALID⟩
  | some exchangeOrder =>
    let order := s.book.order exchangeOrder
    let b ← s.onBook (s.book.removeOrder exchangeOrder)
    let s := { s with book := b }.sendMarketUpdate ⟨.CANCEL, order.key.marketOrderId, tickerId,
      order.side, order.price, 0, order.priority⟩
    return s.sendClientResponse ⟨.CANCELED, clientId, tickerId, orderId,
      order.key.marketOrderId, order.side, order.price, Qty_INVALID, order.qty⟩

structure NewOrder where
  clientId : ClientId
  clientOrderId : OrderId
  tickerId : TickerId
  side : Side
  price : Price
  qty : Qty
  deriving DecidableEq, Repr

inductive Call
  | add (o : NewOrder)
  | cancel (clientId : ClientId) (orderId : OrderId) (tickerId : TickerId)
  deriving DecidableEq, Repr

def step (s : MEOrderBook) : Call → Except Halt MEOrderBook
  | .add o => s.add o.clientId o.clientOrderId o.tickerId o.side o.price o.qty
  | .cancel clientId orderId tickerId => s.cancel clientId orderId tickerId

/-- What a call sends, whether or not it returns. -/
def outputsOf (s : MEOrderBook) (c : Call) : List Output :=
  (match s.step c with
    | .ok s' => s'.sent
    | .error h => h.sent).drop s.sent.length

def run (s : MEOrderBook) (calls : List Call) : Except Halt MEOrderBook := calls.foldlM step s

end MEOrderBook

end LowLatency.Exchange
