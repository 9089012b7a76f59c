import LowLatency.Trading.RiskManager

namespace LowLatency.Trading

open Common Exchange Function

inductive OMOrderState
  | INVALID
  | PENDING_NEW
  | LIVE
  | PENDING_CANCEL
  | DEAD
  deriving DecidableEq, Repr

structure OMOrder where
  tickerId : TickerId
  orderId : OrderId
  side : Side
  price : Price
  qty : Qty
  orderState : OMOrderState
  deriving DecidableEq, Repr

def OMOrder.invalid : OMOrder :=
  ⟨TickerId_INVALID, OrderId_INVALID, .INVALID, Price_INVALID, Qty_INVALID, .INVALID⟩

/-- One order for each ticker and side, and the id of the next one. The requests that the functions
below send are part of their result. -/
structure OrderManager where
  tickerSideOrder : TickerId → Side → OMOrder
  nextOrderId : OrderId

namespace OrderManager

variable {D : Type} [LT D] [DecidableLT D]

def new : OrderManager where
  tickerSideOrder := fun _ _ ↦ .invalid
  nextOrderId := 1

def setOrder (m : OrderManager) (tickerId : TickerId) (side : Side) (order : OMOrder) :
    OrderManager :=
  { m with tickerSideOrder :=
      update m.tickerSideOrder tickerId (update (m.tickerSideOrder tickerId) side order) }

/-- What a response does to the order that it is about. -/
def applyResponse (order : OMOrder) (r : MEClientResponse) : OMOrder :=
  match r.type with
  | .ACCEPTED => { order with orderState := .LIVE }
  | .CANCELED => { order with orderState := .DEAD }
  | .FILLED =>
    let order := { order with qty := r.leavesQty }
    if order.qty = 0 then { order with orderState := .DEAD } else order
  | .CANCEL_REJECTED | .INVALID => order

/-- The order is found by its ticker and side, whatever its id is. -/
def onOrderUpdate (m : OrderManager) (r : MEClientResponse) : Except Fault OrderManager :=
  if r.tickerId < ME_MAX_TICKERS then
    .ok (m.setOrder r.tickerId r.side (applyResponse (m.tickerSideOrder r.tickerId r.side) r))
  else .error .outOfRange

def newOrder (m : OrderManager) (clientId : ClientId) (tickerId : TickerId) (price : Price)
    (side : Side) (qty : Qty) : OrderManager × List MEClientRequest :=
  let newRequest : MEClientRequest := ⟨.NEW, clientId, tickerId, m.nextOrderId, side, price, qty⟩
  let order : OMOrder := ⟨tickerId, m.nextOrderId, side, price, qty, .PENDING_NEW⟩
  ({ m.setOrder tickerId side order with nextOrderId := (m.nextOrderId + 1) % 2 ^ 64 },
    [newRequest])

def cancelOrder (m : OrderManager) (clientId : ClientId) (tickerId : TickerId) (side : Side) :
    OrderManager × List MEClientRequest :=
  let order := m.tickerSideOrder tickerId side
  let cancelRequest : MEClientRequest :=
    ⟨.CANCEL, clientId, order.tickerId, order.orderId, order.side, order.price, order.qty⟩
  (m.setOrder tickerId side { order with orderState := .PENDING_CANCEL }, [cancelRequest])

def moveOrder (m : OrderManager) (clientId : ClientId) (risk : RiskManager D) (tickerId : TickerId)
    (price : Price) (side : Side) (qty : Qty) : OrderManager × List MEClientRequest :=
  let order := m.tickerSideOrder tickerId side
  match order.orderState with
  | .LIVE =>
    if order.price ≠ price ∨ order.qty ≠ qty then m.cancelOrder clientId tickerId side else (m, [])
  | .INVALID | .DEAD =>
    if price ≠ Price_INVALID ∧ risk.checkPreTradeRisk tickerId side qty = .ALLOWED then
      m.newOrder clientId tickerId price side qty
    else (m, [])
  | .PENDING_NEW | .PENDING_CANCEL => (m, [])

/-- The orders of both sides move to the bid price; the ask price is not used. -/
def moveOrders (m : OrderManager) (clientId : ClientId) (risk : RiskManager D) (tickerId : TickerId)
    (bidPrice _askPrice : Price) (clip : Qty) :
    Except Fault (OrderManager × List MEClientRequest) :=
  if tickerId < ME_MAX_TICKERS then
    let (m, bidRequests) := m.moveOrder clientId risk tickerId bidPrice .BUY clip
    let (m, askRequests) := m.moveOrder clientId risk tickerId bidPrice .SELL clip
    .ok (m, bidRequests ++ askRequests)
  else .error .outOfRange

section ApplyResponse

variable {order : OMOrder} {r : MEClientResponse}

theorem applyResponse_accepted (h : r.type = .ACCEPTED) :
    applyResponse order r = { order with orderState := .LIVE } := by
  simp [applyResponse, h]

theorem applyResponse_canceled (h : r.type = .CANCELED) :
    applyResponse order r = { order with orderState := .DEAD } := by
  simp [applyResponse, h]

theorem applyResponse_fill (h : r.type = .FILLED) (h0 : r.leavesQty ≠ 0) :
    applyResponse order r = { order with qty := r.leavesQty } := by
  simp [applyResponse, h, h0]

theorem applyResponse_filled (h : r.type = .FILLED) (h0 : r.leavesQty = 0) :
    applyResponse order r = { order with qty := 0, orderState := .DEAD } := by
  simp [applyResponse, h, h0]

theorem applyResponse_cancelRejected (h : r.type = .CANCEL_REJECTED) :
    applyResponse order r = order := by
  simp [applyResponse, h]

theorem applyResponse_frame (order : OMOrder) (r : MEClientResponse) :
    (applyResponse order r).tickerId = order.tickerId ∧ (applyResponse order r).side = order.side ∧
      (applyResponse order r).orderId = order.orderId := by
  cases ht : r.type with
  | ACCEPTED => rw [applyResponse_accepted ht]; exact ⟨rfl, rfl, rfl⟩
  | CANCELED => rw [applyResponse_canceled ht]; exact ⟨rfl, rfl, rfl⟩
  | FILLED =>
    by_cases h0 : r.leavesQty = 0
    · rw [applyResponse_filled ht h0]; exact ⟨rfl, rfl, rfl⟩
    · rw [applyResponse_fill ht h0]; exact ⟨rfl, rfl, rfl⟩
  | CANCEL_REJECTED | INVALID => simp [applyResponse, ht]

end ApplyResponse

section SetOrder

variable (m : OrderManager) (tickerId : TickerId) (side : Side) (order : OMOrder)

@[simp] theorem setOrder_self :
    (m.setOrder tickerId side order).tickerSideOrder tickerId side = order := by
  simp [setOrder]

theorem setOrder_of_ne {tickerId' : TickerId} {side' : Side}
    (h : ¬(tickerId' = tickerId ∧ side' = side)) :
    (m.setOrder tickerId side order).tickerSideOrder tickerId' side' =
      m.tickerSideOrder tickerId' side' := by
  by_cases ht : tickerId' = tickerId
  · subst ht
    have hs : side' ≠ side := fun hs ↦ h ⟨rfl, hs⟩
    simp only [setOrder, update_self, update_of_ne hs]
  · simp only [setOrder, update_of_ne ht]

theorem setOrder_apply (tickerId' : TickerId) (side' : Side) :
    (m.setOrder tickerId side order).tickerSideOrder tickerId' side' =
      if tickerId' = tickerId ∧ side' = side then order else m.tickerSideOrder tickerId' side' := by
  split_ifs with hkey
  · obtain ⟨rfl, rfl⟩ := hkey
    exact setOrder_self m tickerId' side' order
  · exact setOrder_of_ne m tickerId side order hkey

end SetOrder

end OrderManager

end LowLatency.Trading
