import LowLatency.Trading.OrderManager

namespace LowLatency.Trading.OrderManager

open Common Exchange

variable {D : Type} [LT D] [DecidableLT D]

/-- A new order may take the place. -/
def Vacant (m : OrderManager) (tickerId : TickerId) (side : Side) : Prop :=
  (m.tickerSideOrder tickerId side).orderState = .INVALID ∨
    (m.tickerSideOrder tickerId side).orderState = .DEAD

def Live (m : OrderManager) (tickerId : TickerId) (side : Side) : Prop :=
  (m.tickerSideOrder tickerId side).orderState = .LIVE

def Ready (m : OrderManager) (risk : RiskManager D) (tickerId : TickerId) (side : Side) (qty : Qty) :
    Prop :=
  m.Vacant tickerId side ∧ risk.checkPreTradeRisk tickerId side qty = .ALLOWED

/-- What `moveOrder` looks at before it sends a new order. -/
def Admits (m : OrderManager) (risk : RiskManager D) (tickerId : TickerId) (price : Price)
    (side : Side) (qty : Qty) : Prop :=
  m.Ready risk tickerId side qty ∧ price ≠ Price_INVALID

def Differs (m : OrderManager) (tickerId : TickerId) (price : Price) (side : Side) (qty : Qty) : Prop :=
  (m.tickerSideOrder tickerId side).price ≠ price ∨ (m.tickerSideOrder tickerId side).qty ≠ qty

section Decidable

variable (m : OrderManager) (risk : RiskManager D) (tickerId : TickerId) (price : Price) (side : Side)
  (qty : Qty)

instance : Decidable (m.Vacant tickerId side) := inferInstanceAs (Decidable (_ ∨ _))

instance : Decidable (m.Live tickerId side) := inferInstanceAs (Decidable (_ = _))

instance : Decidable (m.Ready risk tickerId side qty) := inferInstanceAs (Decidable (_ ∧ _))

instance : Decidable (m.Admits risk tickerId price side qty) := inferInstanceAs (Decidable (_ ∧ _))

instance : Decidable (m.Differs tickerId price side qty) := inferInstanceAs (Decidable (_ ∨ _))

end Decidable

def newRequest (m : OrderManager) (clientId : ClientId) (tickerId : TickerId) (price : Price)
    (side : Side) (qty : Qty) : MEClientRequest :=
  ⟨.NEW, clientId, tickerId, m.nextOrderId, side, price, qty⟩

def cancelRequest (m : OrderManager) (clientId : ClientId) (tickerId : TickerId) (side : Side) :
    MEClientRequest :=
  let order := m.tickerSideOrder tickerId side
  ⟨.CANCEL, clientId, order.tickerId, order.orderId, order.side, order.price, order.qty⟩

def sidePrice (bidPrice askPrice : Price) : Side → Price
  | .BUY => bidPrice
  | .SELL => askPrice
  | .INVALID => Price_INVALID

/-- The request was sent, and the order waits for the answer. -/
def Canceled (m : OrderManager) (clientId : ClientId) (tickerId : TickerId) (side : Side)
    (result : OrderManager × List MEClientRequest) : Prop :=
  m.cancelRequest clientId tickerId side ∈ result.2 ∧
    (result.1.tickerSideOrder tickerId side).orderState = .PENDING_CANCEL

/-- New orders have the price of their side, and a live order is canceled if it has another price or
quantity. -/
structure Follows (m : OrderManager) (clientId : ClientId) (tickerId : TickerId)
    (bidPrice askPrice : Price) (clip : Qty) (result : OrderManager × List MEClientRequest) : Prop where
  price : ∀ r ∈ result.2, r.type = .NEW → r.price = sidePrice bidPrice askPrice r.side
  valid : ∀ r ∈ result.2, r.type = .NEW → sidePrice bidPrice askPrice r.side ≠ Price_INVALID
  cancel : ∀ side, side ≠ .INVALID → m.Live tickerId side →
    (m.Canceled clientId tickerId side result ↔
      m.Differs tickerId (sidePrice bidPrice askPrice side) side clip)

/-- The order of the side `SELL` does not tell the prices of the two sides apart. -/
def Indifferent (m : OrderManager) (risk : RiskManager D) (tickerId : TickerId)
    (bidPrice askPrice : Price) (clip : Qty) : Prop :=
  let order := m.tickerSideOrder tickerId .SELL
  bidPrice = askPrice ∨
    match order.orderState with
    | .LIVE => order.qty ≠ clip ∨ (order.price ≠ bidPrice ∧ order.price ≠ askPrice)
    | .INVALID | .DEAD =>
      bidPrice = Price_INVALID ∨ risk.checkPreTradeRisk tickerId .SELL clip ≠ .ALLOWED
    | .PENDING_NEW | .PENDING_CANCEL => True

variable {m m' : OrderManager} {clientId : ClientId} {risk : RiskManager D} {tickerId : TickerId}
  {price bidPrice askPrice : Price} {side : Side} {qty clip : Qty} {r : MEClientRequest}

theorem not_vacant (h : m.Live tickerId side) : ¬ m.Vacant tickerId side := by
  unfold Live at h
  simp [Vacant, h]

/-- Everything that `moveOrder` can do. -/
theorem moveOrder_eq : m.moveOrder clientId risk tickerId price side qty =
    if m.Admits risk tickerId price side qty then m.newOrder clientId tickerId price side qty
    else if m.Live tickerId side ∧ m.Differs tickerId price side qty then
      m.cancelOrder clientId tickerId side
    else (m, []) := by
  cases hstate : (m.tickerSideOrder tickerId side).orderState with
  | LIVE => simp [moveOrder, Admits, Ready, Vacant, Live, Differs, hstate]
  | INVALID | DEAD => simp [moveOrder, Admits, Ready, Vacant, Live, hstate, and_comm]
  | PENDING_NEW | PENDING_CANCEL => simp [moveOrder, Admits, Ready, Vacant, Live, hstate]

section Congr

variable (h : m'.tickerSideOrder tickerId side = m.tickerSideOrder tickerId side)

include h

theorem admits_congr :
    m'.Admits risk tickerId price side qty ↔ m.Admits risk tickerId price side qty := by
  rw [Admits, Admits, Ready, Ready, Vacant, Vacant, h]

theorem live_congr : m'.Live tickerId side ↔ m.Live tickerId side := by rw [Live, Live, h]

theorem differs_congr : m'.Differs tickerId price side qty ↔ m.Differs tickerId price side qty := by
  rw [Differs, Differs, h]

theorem cancelRequest_congr :
    m'.cancelRequest clientId tickerId side = m.cancelRequest clientId tickerId side := by
  rw [cancelRequest, cancelRequest, h]

end Congr

theorem moveOrder_frame {side' : Side} (h : side' ≠ side) :
    (m.moveOrder clientId risk tickerId price side qty).1.tickerSideOrder tickerId side' =
      m.tickerSideOrder tickerId side' := by
  have hne : ¬(tickerId = tickerId ∧ side' = side) := fun hkey ↦ h hkey.2
  rw [moveOrder_eq]
  split_ifs
  · exact setOrder_of_ne m tickerId side _ hne
  · exact setOrder_of_ne m tickerId side _ hne
  · rfl

theorem mem_moveOrder : r ∈ (m.moveOrder clientId risk tickerId price side qty).2 ↔
    (m.Admits risk tickerId price side qty ∧ r = m.newRequest clientId tickerId price side qty) ∨
      ((m.Live tickerId side ∧ m.Differs tickerId price side qty) ∧
        r = m.cancelRequest clientId tickerId side) := by
  rw [moveOrder_eq]
  split_ifs with hadmits hcancels
  · have hlive : ¬ m.Live tickerId side := fun hlive ↦ not_vacant hlive hadmits.1.1
    simp [newOrder, newRequest, hadmits, hlive]
  · simp [cancelOrder, cancelRequest, hadmits, hcancels]
  · simp [hadmits, hcancels]

theorem pendingCancel_iff (h : m.Live tickerId side) :
    ((m.moveOrder clientId risk tickerId price side qty).1.tickerSideOrder tickerId side).orderState =
      .PENDING_CANCEL ↔ m.Differs tickerId price side qty := by
  have hadmits : ¬ m.Admits risk tickerId price side qty := fun hadmits ↦ not_vacant h hadmits.1.1
  rw [moveOrder_eq, if_neg hadmits]
  simp only [h, true_and]
  split_ifs with hdiffers
  · simp [cancelOrder, hdiffers]
  · unfold Live at h
    simp [h, hdiffers]

section MoveOrders

variable {result : OrderManager × List MEClientRequest}

theorem moveOrders_cases
    (h : m.moveOrders clientId risk tickerId bidPrice askPrice clip = .ok result) :
    ∃ m₁, m₁ = (m.moveOrder clientId risk tickerId bidPrice .BUY clip).1 ∧
      m₁.tickerSideOrder tickerId .SELL = m.tickerSideOrder tickerId .SELL ∧
      result.1 = (m₁.moveOrder clientId risk tickerId bidPrice .SELL clip).1 ∧
      result.2 = (m.moveOrder clientId risk tickerId bidPrice .BUY clip).2 ++
        (m₁.moveOrder clientId risk tickerId bidPrice .SELL clip).2 := by
  unfold moveOrders at h
  split_ifs at h
  cases h
  exact ⟨_, rfl, moveOrder_frame (by decide), rfl, rfl⟩

theorem forall_new_iff
    (h : m.moveOrders clientId risk tickerId bidPrice askPrice clip = .ok result)
    (P : Side → Price → Prop) : (∀ r ∈ result.2, r.type = .NEW → P r.side r.price) ↔
      (m.Admits risk tickerId bidPrice .BUY clip → P .BUY bidPrice) ∧
      (m.Admits risk tickerId bidPrice .SELL clip → P .SELL bidPrice) := by
  obtain ⟨m₁, -, hsell, -, hrequests⟩ := moveOrders_cases h
  have hside : ∀ (m : OrderManager) (side : Side),
      (∀ r ∈ (m.moveOrder clientId risk tickerId bidPrice side clip).2, r.type = .NEW →
        P r.side r.price) ↔ (m.Admits risk tickerId bidPrice side clip → P side bidPrice) := by
    intro m side
    simp only [mem_moveOrder]
    constructor
    · intro hall hadmits
      exact hall _ (.inl ⟨hadmits, rfl⟩) rfl
    · rintro hadmits r (⟨hnew, rfl⟩ | ⟨-, rfl⟩) htype
      · exact hadmits hnew
      · cases htype
  rw [hrequests, List.forall_mem_append, hside, hside, admits_congr hsell]

theorem moveOrders_ok (m : OrderManager) (clientId : ClientId) (risk : RiskManager D)
    (bidPrice askPrice : Price) (clip : Qty) (ht : tickerId < ME_MAX_TICKERS) :
    ∃ result, m.moveOrders clientId risk tickerId bidPrice askPrice clip = .ok result := by
  unfold moveOrders
  rw [if_pos ht]
  exact ⟨_, rfl⟩

theorem lt_of_moveOrders {result : OrderManager × List MEClientRequest}
    (h : m.moveOrders clientId risk tickerId bidPrice askPrice clip = .ok result) :
    tickerId < ME_MAX_TICKERS := by
  by_contra ht
  rw [moveOrders, if_neg ht] at h
  cases h

theorem moveOrders_new_iff (P : Side → Price → Prop) :
    (∀ result, m.moveOrders clientId risk tickerId bidPrice askPrice clip = .ok result →
      ∀ r ∈ result.2, r.type = .NEW → P r.side r.price) ↔
    (tickerId < ME_MAX_TICKERS → (m.Admits risk tickerId bidPrice .BUY clip → P .BUY bidPrice) ∧
      (m.Admits risk tickerId bidPrice .SELL clip → P .SELL bidPrice)) := by
  constructor
  · intro hall ht
    obtain ⟨result, h⟩ := moveOrders_ok m clientId risk bidPrice askPrice clip ht
    exact (forall_new_iff h P).mp (hall result h)
  · intro hsides result h
    exact (forall_new_iff h P).mpr (hsides (lt_of_moveOrders h))

theorem canceled_iff (h : m.moveOrders clientId risk tickerId bidPrice askPrice clip = .ok result)
    (hside : side ≠ .INVALID) (hlive : m.Live tickerId side) :
    m.Canceled clientId tickerId side result ↔ m.Differs tickerId bidPrice side clip := by
  obtain ⟨m₁, hm₁, hsell, hmanager, hrequests⟩ := moveOrders_cases h
  have hstate : (result.1.tickerSideOrder tickerId side).orderState = .PENDING_CANCEL ↔
      m.Differs tickerId bidPrice side clip := by
    cases side with
    | INVALID => exact absurd rfl hside
    | BUY => rw [hmanager, moveOrder_frame (by decide), hm₁, pendingCancel_iff hlive]
    | SELL =>
      rw [hmanager, pendingCancel_iff ((live_congr hsell).mpr hlive), differs_congr hsell]
  unfold Canceled
  rw [hstate]
  refine ⟨And.right, fun hdiffers ↦ ⟨?_, hdiffers⟩⟩
  rw [hrequests, List.mem_append]
  cases side with
  | INVALID => exact absurd rfl hside
  | BUY => exact .inl (mem_moveOrder.mpr (.inr ⟨⟨hlive, hdiffers⟩, rfl⟩))
  | SELL =>
    rw [← cancelRequest_congr hsell]
    rw [← differs_congr hsell] at hdiffers
    exact .inr (mem_moveOrder.mpr (.inr ⟨⟨(live_congr hsell).mpr hlive, hdiffers⟩, rfl⟩))

theorem follows_iff_sell
    (h : m.moveOrders clientId risk tickerId bidPrice askPrice clip = .ok result) :
    m.Follows clientId tickerId bidPrice askPrice clip result ↔
      (m.Admits risk tickerId bidPrice .SELL clip → bidPrice = askPrice) ∧
        (m.Live tickerId .SELL →
          (m.Differs tickerId bidPrice .SELL clip ↔ m.Differs tickerId askPrice .SELL clip)) := by
  constructor
  · rintro ⟨hprice, -, hcancel⟩
    refine ⟨((forall_new_iff h fun side price ↦ price = sidePrice bidPrice askPrice side).mp hprice).2,
      fun hlive ↦ ?_⟩
    rw [← canceled_iff h (by decide) hlive]
    exact hcancel .SELL (by decide) hlive
  · rintro ⟨hadmits, hdiffers⟩
    refine ⟨(forall_new_iff h fun side price ↦ price = sidePrice bidPrice askPrice side).mpr
        ⟨fun _ ↦ rfl, hadmits⟩,
      (forall_new_iff h fun side _ ↦ sidePrice bidPrice askPrice side ≠ Price_INVALID).mpr
        ⟨And.right, fun hnew ↦ hadmits hnew ▸ hnew.2⟩, fun side hside hlive ↦ ?_⟩
    rw [canceled_iff h hside hlive]
    cases side with
    | INVALID => exact absurd rfl hside
    | BUY => exact .rfl
    | SELL => exact hdiffers hlive

theorem indifferent_iff : m.Indifferent risk tickerId bidPrice askPrice clip ↔
    (m.Admits risk tickerId bidPrice .SELL clip → bidPrice = askPrice) ∧
      (m.Live tickerId .SELL →
        (m.Differs tickerId bidPrice .SELL clip ↔ m.Differs tickerId askPrice .SELL clip)) := by
  by_cases hsame : bidPrice = askPrice
  · simp [Indifferent, hsame]
  cases hstate : (m.tickerSideOrder tickerId .SELL).orderState with
  | LIVE =>
    simp only [Indifferent, Admits, Ready, Vacant, Live, Differs, hstate, hsame, reduceCtorEq, or_self,
      false_and, false_or, true_imp_iff, false_imp_iff, true_and]
    have hone : ¬((m.tickerSideOrder tickerId .SELL).price = bidPrice ∧
        (m.tickerSideOrder tickerId .SELL).price = askPrice) :=
      fun hboth ↦ hsame (hboth.1.symm.trans hboth.2)
    by_cases hqty : (m.tickerSideOrder tickerId .SELL).qty = clip
    · simp only [hqty, ne_eq, not_true_eq_false, false_or, or_false]
      tauto
    · simp [hqty]
  | INVALID | DEAD =>
    simp only [Indifferent, Admits, Ready, Vacant, Live, hstate, hsame, reduceCtorEq, or_true, true_or,
      true_and, false_or, false_imp_iff, and_true, imp_false, not_and_or, ne_eq, not_not]
    exact or_comm
  | PENDING_NEW | PENDING_CANCEL => simp [Indifferent, Admits, Ready, Vacant, Live, hstate]

end MoveOrders

end LowLatency.Trading.OrderManager
