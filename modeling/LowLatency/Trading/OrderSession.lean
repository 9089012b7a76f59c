import LowLatency.GuardedRun
import LowLatency.Trading.TradeEngine

namespace LowLatency.Trading

open Common Exchange

/-- An order that was accepted and that the exchange has neither filled nor canceled. -/
structure OpenOrder where
  tickerId : TickerId
  orderId : OrderId
  marketOrderId : OrderId
  side : Side
  price : Price
  leavesQty : Qty
  deriving DecidableEq, Repr

def OpenOrder.Is (tickerId : TickerId) (orderId : OrderId) (o : OpenOrder) : Prop :=
  o.tickerId = tickerId ∧ o.orderId = orderId

instance (tickerId : TickerId) (orderId : OrderId) : DecidablePred (OpenOrder.Is tickerId orderId) :=
  fun _ ↦ inferInstanceAs (Decidable (_ ∧ _))

def updateOpen (tickerId : TickerId) (orderId : OrderId) (f : OpenOrder → Option OpenOrder)
    (orders : List OpenOrder) : List OpenOrder :=
  orders.filterMap fun o ↦ if o.Is tickerId orderId then f o else some o

/-- The requests on their way are those that the engine has put into its queue. -/
structure OrderSession (D : Type) where
  engine : TradeEngine D
  openOrders : List OpenOrder
  nextMarketOrderId : OrderId
  responses : List MEClientResponse

/-- What happens next. The exchange takes up the next request; whether it keeps an order without a
quantity open, and whether it answers that an order is canceled, is up to it. -/
inductive SessionEvent
  | moveOrders (tickerId : TickerId) (bidPrice askPrice : Price) (clip : Qty)
  | updateBBO (tickerId : TickerId) (bbo : BBO)
  | process (rests cancels : Bool)
  | fill (tickerId : TickerId) (orderId : OrderId) (price : Price) (execQty : Qty)
  | deliver
  deriving DecidableEq, Repr

namespace OrderSession

variable {D : Type} [Double D]

def new (clientId : ClientId) (riskCfg : TickerId → RiskCfg D) : OrderSession D where
  engine := .new clientId riskCfg
  openOrders := []
  nextMarketOrderId := 1
  responses := []

def requests (s : OrderSession D) : List MEClientRequest := s.engine.outgoingOgwRequests

/-- The number of new orders that `s'` has on the way to the exchange and `s` has not. -/
def sentNews (s s' : OrderSession D) : ℕ := (news s'.requests).length - (news s.requests).length

def position (s : OrderSession D) (tickerId : TickerId) : ℤ :=
  (s.engine.positionKeeper tickerId).position

def slot (s : OrderSession D) (tickerId : TickerId) (side : Side) : OMOrder :=
  s.engine.orderManager.tickerSideOrder tickerId side

def findOpen (s : OrderSession D) (tickerId : TickerId) (orderId : OrderId) : Option OpenOrder :=
  s.openOrders.find? (OpenOrder.Is tickerId orderId)

def send (s : OrderSession D) (r : MEClientResponse) : OrderSession D :=
  { s with responses := s.responses ++ [r] }

def accept (s : OrderSession D) (r : MEClientRequest) (rests : Bool) : OrderSession D :=
  let order : OpenOrder := ⟨r.tickerId, r.orderId, s.nextMarketOrderId, r.side, r.price, r.qty⟩
  let response : MEClientResponse :=
    ⟨.ACCEPTED, r.clientId, r.tickerId, r.orderId, s.nextMarketOrderId, r.side, r.price, 0, r.qty⟩
  { s.send response with
    openOrders := if r.qty ≠ 0 ∨ rests then s.openOrders ++ [order] else s.openOrders
    nextMarketOrderId := s.nextMarketOrderId + 1 }

def cancel (s : OrderSession D) (r : MEClientRequest) : OrderSession D :=
  let (marketOrderId, side, price, leavesQty) := match s.findOpen r.tickerId r.orderId with
    | some o => (o.marketOrderId, o.side, o.price, o.leavesQty)
    | none => (OrderId_INVALID, r.side, r.price, 0)
  { s.send ⟨.CANCELED, r.clientId, r.tickerId, r.orderId, marketOrderId, side, price, Qty_INVALID,
      leavesQty⟩ with
    openOrders := updateOpen r.tickerId r.orderId (fun _ ↦ none) s.openOrders }

def refuse (s : OrderSession D) (r : MEClientRequest) : OrderSession D :=
  s.send ⟨.CANCEL_REJECTED, r.clientId, r.tickerId, r.orderId, OrderId_INVALID, .INVALID,
    Price_INVALID, Qty_INVALID, Qty_INVALID⟩

def process (s : OrderSession D) (rests cancels : Bool) : OrderSession D :=
  match s.requests with
  | [] => s
  | r :: requests =>
    let s := { s with engine := { s.engine with outgoingOgwRequests := requests } }
    match r.type with
    | .NEW => s.accept r rests
    | .CANCEL => if cancels then s.cancel r else s.refuse r
    | .INVALID => s

def fill (s : OrderSession D) (tickerId : TickerId) (orderId : OrderId) (price : Price)
    (execQty : Qty) : OrderSession D :=
  match s.findOpen tickerId orderId with
  | none => s
  | some o =>
    if execQty ≤ o.leavesQty then
      let leavesQty := o.leavesQty - execQty
      { s.send ⟨.FILLED, s.engine.clientId, tickerId, orderId, o.marketOrderId, o.side, price, execQty,
          leavesQty⟩ with
        openOrders := updateOpen tickerId orderId
          (fun o ↦ if leavesQty = 0 then none else some { o with leavesQty := leavesQty })
          s.openOrders }
    else s

def deliver (s : OrderSession D) : Except Fault (OrderSession D) :=
  match s.responses with
  | [] => .ok s
  | r :: responses => do
    let engine ← s.engine.onOrderUpdate r
    .ok { s with engine := engine, responses := responses }

/-- An event that cannot happen changes nothing. -/
def step (s : OrderSession D) : SessionEvent → Except Fault (OrderSession D)
  | .moveOrders tickerId bidPrice askPrice clip => do
    let engine ← s.engine.moveOrders tickerId bidPrice askPrice clip
    .ok { s with engine := engine }
  | .updateBBO tickerId bbo => do
    let engine ← s.engine.updateBBO tickerId bbo
    .ok { s with engine := engine }
  | .process rests cancels => .ok (s.process rests cancels)
  | .fill tickerId orderId price execQty => .ok (s.fill tickerId orderId price execQty)
  | .deliver => s.deliver

/-- The number of new orders that are sent in a run. A step sends requests or takes one. -/
def newsSent (s : OrderSession D) (events : List SessionEvent) : ℕ := runSum step sentNews s events

end OrderSession

end LowLatency.Trading
