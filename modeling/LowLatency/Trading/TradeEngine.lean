import LowLatency.Trading.OrderManager

namespace LowLatency.Trading

open Common Exchange

/-- The operations that are used on values of type `double`; nothing is assumed of them. -/
class Double (D : Type) extends Zero D, One D, Add D, Sub D, Mul D, Div D, IntCast D, LT D where
  decidableLT : DecidableLT D

attribute [reducible, instance] Double.decidableLT

instance : Double ℚ where
  decidableLT := inferInstance

/-- The part of the engine that sends orders; the queue of requests is never full. -/
structure TradeEngine (D : Type) where
  clientId : ClientId
  outgoingOgwRequests : List MEClientRequest
  positionKeeper : PositionKeeper D
  riskCfg : TickerId → RiskCfg D
  orderManager : OrderManager

def news (rs : List MEClientRequest) : List MEClientRequest := rs.filter (·.type = .NEW)

namespace TradeEngine

variable {D : Type} [Double D]

def new (clientId : ClientId) (riskCfg : TickerId → RiskCfg D) : TradeEngine D where
  clientId := clientId
  outgoingOgwRequests := []
  positionKeeper := fun _ ↦ .new
  riskCfg := riskCfg
  orderManager := .new

def riskManager (e : TradeEngine D) : RiskManager D := fun t ↦ ⟨e.positionKeeper t, e.riskCfg t⟩

def sendClientRequest (e : TradeEngine D) (request : MEClientRequest) : TradeEngine D :=
  { e with outgoingOgwRequests := e.outgoingOgwRequests ++ [request] }

def updateBBO (e : TradeEngine D) (tickerId : TickerId) (bbo : BBO) : Except Fault (TradeEngine D) := do
  let positionKeeper ← e.positionKeeper.updateBBO tickerId bbo
  .ok { e with positionKeeper := positionKeeper }

/-- Both trading algorithms hand every response on to the order manager. -/
def onOrderUpdate (e : TradeEngine D) (r : MEClientResponse) : Except Fault (TradeEngine D) := do
  let positionKeeper ←
    if r.type = .FILLED then e.positionKeeper.addFill r else .ok e.positionKeeper
  let orderManager ← e.orderManager.onOrderUpdate r
  .ok { e with positionKeeper := positionKeeper, orderManager := orderManager }

def moveOrders (e : TradeEngine D) (tickerId : TickerId) (bidPrice askPrice : Price) (clip : Qty) :
    Except Fault (TradeEngine D) := do
  let (orderManager, requests) ←
    e.orderManager.moveOrders e.clientId e.riskManager tickerId bidPrice askPrice clip
  .ok (requests.foldl sendClientRequest { e with orderManager := orderManager })

def moveOrder (e : TradeEngine D) (tickerId : TickerId) (price : Price) (side : Side) (qty : Qty) :
    TradeEngine D :=
  let (orderManager, requests) :=
    e.orderManager.moveOrder e.clientId e.riskManager tickerId price side qty
  { e with
    orderManager := orderManager
    outgoingOgwRequests := e.outgoingOgwRequests ++ requests }

omit [Double D] in
theorem foldl_sendClientRequest (e : TradeEngine D) (requests : List MEClientRequest) :
    requests.foldl sendClientRequest e =
      { e with outgoingOgwRequests := e.outgoingOgwRequests ++ requests } := by
  induction requests generalizing e with
  | nil => simp
  | cons r requests ih => simp [ih, sendClientRequest]

theorem moveOrders_eq (e : TradeEngine D) {tickerId : TickerId} (ht : tickerId < ME_MAX_TICKERS)
    (bidPrice askPrice : Price) (clip : Qty) :
    e.moveOrders tickerId bidPrice askPrice clip =
      .ok ((e.moveOrder tickerId bidPrice .BUY clip).moveOrder tickerId bidPrice .SELL clip) := by
  simp only [moveOrders, OrderManager.moveOrders, if_pos ht, ok_bind, moveOrder,
    foldl_sendClientRequest, List.append_assoc]
  rfl

theorem onOrderUpdate_eq {e e' : TradeEngine D} {r : MEClientResponse} (h : e.onOrderUpdate r = .ok e') :
    e' = { e with
      positionKeeper := if r.type = .FILLED then
          Function.update e.positionKeeper r.tickerId ((e.positionKeeper r.tickerId).addFill r)
        else e.positionKeeper
      orderManager := e.orderManager.setOrder r.tickerId r.side
        (OrderManager.applyResponse (e.orderManager.tickerSideOrder r.tickerId r.side) r) } := by
  unfold onOrderUpdate OrderManager.onOrderUpdate PositionKeeper.addFill at h
  split_ifs at h with ht htype <;> cases h
  · rw [if_pos htype]
  · rw [if_neg htype]

end TradeEngine

end LowLatency.Trading
