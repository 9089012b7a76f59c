import LowLatency.Trading.RunningEngine

namespace LowLatency.Trading

open Common Exchange Function

structure Terms where
  clientId : ClientId
  clip : TickerId → Qty
  maxOrderSize : TickerId → Qty

def lastNew (tickerId : TickerId) (side : Side) (rs : List MEClientRequest) : Option MEClientRequest :=
  ((news rs).filter fun r ↦ r.tickerId = tickerId ∧ r.side = side).getLast?

/-- A request as it may follow others: a new order has the next id of a counter of 64 bits and the clip
of its ticker, and a cancel is of the last new order of its ticker and side. -/
def Lawful (terms : Terms) (before : List MEClientRequest) (r : MEClientRequest) : Prop :=
  r.clientId = terms.clientId ∧ r.tickerId < ME_MAX_TICKERS ∧ r.side ≠ .INVALID ∧
    r.price ≠ Price_INVALID ∧ match r.type with
    | .NEW => r.orderId = ((news before).length + 1) % 2 ^ 64 ∧ r.qty = terms.clip r.tickerId ∧
        r.qty ≤ terms.maxOrderSize r.tickerId
    | .CANCEL => ∃ n ∈ lastNew r.tickerId r.side before, n.orderId = r.orderId ∧ n.price = r.price
    | .INVALID => False

structure Holding (tickerId : TickerId) (side : Side) (rs : List MEClientRequest) (order : OMOrder) :
    Prop where
  ticker : tickerId < ME_MAX_TICKERS
  buyOrSell : side ≠ .INVALID
  price : order.price ≠ Price_INVALID
  key : order.tickerId = tickerId ∧ order.side = side
  last : ∃ n ∈ lastNew tickerId side rs, n.orderId = order.orderId ∧ n.price = order.price

structure Trail (terms : Terms) (rs : List MEClientRequest) (m : OrderManager) : Prop where
  lawful : EachAfter (Lawful terms) [] rs
  nextId : m.nextOrderId = ((news rs).length + 1) % 2 ^ 64
  slot : ∀ tickerId side, (m.tickerSideOrder tickerId side).orderState ≠ .INVALID →
    Holding tickerId side rs (m.tickerSideOrder tickerId side)

section LastNew

variable {rs : List MEClientRequest} {r : MEClientRequest} {tickerId : TickerId} {side : Side}
  {order : OMOrder}

theorem news_append (rs rs' : List MEClientRequest) : news (rs ++ rs') = news rs ++ news rs' :=
  List.filter_append _ _

theorem lastNew_concat_self (ht : r.type = .NEW) :
    lastNew r.tickerId r.side (rs ++ [r]) = some r := by
  simp [lastNew, news, ht]

theorem lastNew_concat_of_ne (h : ¬(r.type = .NEW ∧ r.tickerId = tickerId ∧ r.side = side)) :
    lastNew tickerId side (rs ++ [r]) = lastNew tickerId side rs := by
  have hnone : (news [r]).filter (fun r ↦ r.tickerId = tickerId ∧ r.side = side) = [] := by
    by_cases ht : r.type = .NEW
    · simpa [news, ht] using fun h' ↦ fun h'' ↦ h ⟨ht, h', h''⟩
    · simp [news, ht]
  rw [lastNew, news_append, List.filter_append, hnone, List.append_nil, lastNew]

theorem Holding.concat (h : Holding tickerId side rs order)
    (hne : ¬(r.type = .NEW ∧ r.tickerId = tickerId ∧ r.side = side)) :
    Holding tickerId side (rs ++ [r]) order :=
  { h with last := by rw [lastNew_concat_of_ne hne]; exact h.last }

end LastNew

namespace Trail

variable {D : Type} [LT D] [DecidableLT D] {terms : Terms} {rs : List MEClientRequest} {m : OrderManager}
  {risk : RiskManager D} {tickerId : TickerId} {side : Side} {price : Price} {r : MEClientResponse}

theorem nil (terms : Terms) : Trail terms [] .new :=
  ⟨trivial, rfl, fun _ _ h ↦ absurd rfl h⟩

theorem concat (h : Trail terms rs m) {m' : OrderManager} {q : MEClientRequest} {order : OMOrder}
    (hlawful : Lawful terms rs q) (hnext : m'.nextOrderId = ((news (rs ++ [q])).length + 1) % 2 ^ 64)
    (hslots : m'.tickerSideOrder = (m.setOrder tickerId side order).tickerSideOrder)
    (hq : q.tickerId = tickerId ∧ q.side = side) (hslot : Holding tickerId side (rs ++ [q]) order) :
    Trail terms (rs ++ [q]) m' := by
  refine ⟨eachAfter_concat.mpr ⟨h.lawful, hlawful⟩, hnext, fun t side' hstate ↦ ?_⟩
  rw [hslots, OrderManager.setOrder_apply] at hstate ⊢
  split_ifs at hstate ⊢ with hkey
  · obtain ⟨rfl, rfl⟩ := hkey
    exact hslot
  · refine (h.slot t side' hstate).concat fun hnew ↦ hkey ?_
    exact ⟨hnew.2.1.symm.trans hq.1, hnew.2.2.symm.trans hq.2⟩

theorem newOrder (h : Trail terms rs m) (ht : tickerId < ME_MAX_TICKERS) (hside : side ≠ .INVALID)
    (hprice : price ≠ Price_INVALID) (hsize : terms.clip tickerId ≤ terms.maxOrderSize tickerId) :
    Trail terms (rs ++ [m.newRequest terms.clientId tickerId price side (terms.clip tickerId)])
      (m.newOrder terms.clientId tickerId price side (terms.clip tickerId)).1 := by
  set q := m.newRequest terms.clientId tickerId price side (terms.clip tickerId) with hq
  have hlast : lastNew tickerId side (rs ++ [q]) = some q := lastNew_concat_self (r := q) rfl
  have hslot : Holding tickerId side (rs ++ [q])
      ⟨tickerId, m.nextOrderId, side, price, terms.clip tickerId, .PENDING_NEW⟩ :=
    ⟨ht, hside, hprice, ⟨rfl, rfl⟩, q, hlast, rfl, rfl⟩
  refine h.concat ⟨rfl, ht, hside, hprice, h.nextId, rfl, hsize⟩ ?_ rfl ⟨rfl, rfl⟩ hslot
  have hone : (news [q]).length = 1 := rfl
  have hnext : (m.newOrder terms.clientId tickerId price side (terms.clip tickerId)).1.nextOrderId =
      (m.nextOrderId + 1) % 2 ^ 64 := rfl
  rw [hnext, h.nextId, news_append, List.length_append, hone, Nat.mod_add_mod]

theorem cancelOrder (h : Trail terms rs m) (hlive : m.Live tickerId side) :
    Trail terms (rs ++ [m.cancelRequest terms.clientId tickerId side])
      (m.cancelOrder terms.clientId tickerId side).1 := by
  have hstate : (m.tickerSideOrder tickerId side).orderState ≠ .INVALID := by
    rw [hlive]
    decide
  obtain ⟨ht, hside, hprice, ⟨hticker, hside'⟩, n, hn, hid, hnprice⟩ := h.slot tickerId side hstate
  set q := m.cancelRequest terms.clientId tickerId side with hq
  have hkey : q.tickerId = tickerId ∧ q.side = side := ⟨hticker, hside'⟩
  have hslot : Holding tickerId side (rs ++ [q])
      { m.tickerSideOrder tickerId side with orderState := .PENDING_CANCEL } :=
    Holding.concat ⟨ht, hside, hprice, ⟨hticker, hside'⟩, n, hn, hid, hnprice⟩ nofun
  refine h.concat ⟨rfl, hkey.1 ▸ ht, hkey.2 ▸ hside, hprice, n, ?_, hid, hnprice⟩ ?_ rfl hkey hslot
  · rw [hkey.1, hkey.2]
    exact hn
  · have hnone : (news [q]).length = 0 := rfl
    rw [news_append, List.length_append, hnone, Nat.add_zero]
    exact h.nextId

theorem moveOrder (h : Trail terms rs m) (ht : tickerId < ME_MAX_TICKERS) (hside : side ≠ .INVALID)
    (hrisk : (risk tickerId).riskCfg.maxOrderSize = terms.maxOrderSize tickerId) :
    let result := m.moveOrder terms.clientId risk tickerId price side (terms.clip tickerId)
    Trail terms (rs ++ result.2) result.1 := by
  dsimp only
  rw [OrderManager.moveOrder_eq]
  split_ifs with hadmits hcancels
  · have hsize := (RiskInfo.allowed_iff.mp hadmits.1.2).1
    rw [hrisk] at hsize
    exact h.newOrder ht hside hadmits.2 hsize
  · exact h.cancelOrder hcancels.1
  · rw [List.append_nil]
    exact h

theorem moveOrders (h : Trail terms rs m) {bidPrice askPrice : Price}
    {result : OrderManager × List MEClientRequest}
    (hrisk : (risk tickerId).riskCfg.maxOrderSize = terms.maxOrderSize tickerId)
    (hmove : m.moveOrders terms.clientId risk tickerId bidPrice askPrice (terms.clip tickerId) =
      .ok result) : Trail terms (rs ++ result.2) result.1 := by
  have ht := OrderManager.lt_of_moveOrders hmove
  obtain ⟨m₁, rfl, -, hm, hrequests⟩ := OrderManager.moveOrders_cases hmove
  rw [hm, hrequests, ← List.append_assoc]
  exact (h.moveOrder ht (by decide) hrisk).moveOrder ht (by decide) hrisk

theorem onOrderUpdate (h : Trail terms rs m) {m' : OrderManager}
    (hknown : r.type ≠ .CANCEL_REJECTED → (m.tickerSideOrder r.tickerId r.side).orderState ≠ .INVALID)
    (hrun : m.onOrderUpdate r = .ok m') : Trail terms rs m' := by
  unfold OrderManager.onOrderUpdate at hrun
  split_ifs at hrun
  obtain rfl := Except.ok.inj hrun
  refine ⟨h.lawful, h.nextId, fun t side hstate ↦ ?_⟩
  rw [OrderManager.setOrder_apply] at hstate ⊢
  split_ifs at hstate ⊢ with hkey
  · obtain ⟨rfl, rfl⟩ := hkey
    have hbefore : (m.tickerSideOrder r.tickerId r.side).orderState ≠ .INVALID := by
      by_cases hrejected : r.type = .CANCEL_REJECTED
      · rwa [OrderManager.applyResponse_cancelRejected hrejected] at hstate
      · exact hknown hrejected
    obtain ⟨ht, hside, hprice, hkey, hlast⟩ := h.slot r.tickerId r.side hbefore
    obtain ⟨hticker, hside', hid⟩ :=
      OrderManager.applyResponse_frame (m.tickerSideOrder r.tickerId r.side) r
    have hsame : (OrderManager.applyResponse (m.tickerSideOrder r.tickerId r.side) r).price =
        (m.tickerSideOrder r.tickerId r.side).price := by
      unfold OrderManager.applyResponse
      cases r.type <;> dsimp only
      split_ifs <;> rfl
    exact ⟨ht, hside, hsame ▸ hprice, ⟨hticker.trans hkey.1, hside'.trans hkey.2⟩, by
      rw [hid, hsame]
      exact hlast⟩
  · exact h.slot t side hstate

end Trail

namespace RunningEngine

variable {D : Type} [Double D] [LE D] [DecidableLE D] {e e' : RunningEngine D} {terms : Terms}
  {tickerId : TickerId} {bbo : BBO}

/-- A response that does something is of an order that was sent. -/
def Known (e : RunningEngine D) : EngineEvent → Prop
  | .response r => e.algoType.Trades → r.type ≠ .CANCEL_REJECTED →
      (e.orderManager.tickerSideOrder r.tickerId r.side).orderState ≠ .INVALID
  | .marketUpdate _ => True

instance (e : RunningEngine D) : DecidablePred e.Known := fun c ↦ by
  cases c <;> unfold Known <;> infer_instance

structure Sends (terms : Terms) (e : RunningEngine D) : Prop where
  clientId : e.clientId = terms.clientId
  clip : ∀ t, (e.tickerCfg t).clip = terms.clip t
  maxOrderSize : ∀ t, (e.riskCfg t).maxOrderSize = terms.maxOrderSize t
  trail : Trail terms e.outgoingOgwRequests e.orderManager

omit [LE D] [DecidableLE D] in
theorem Sends.acts (h : Sends terms e) (hacts : e.Acts tickerId e') : Sends terms e' := by
  rcases hacts with rfl | ⟨bidPrice, askPrice, result, hmove, rfl⟩
  · exact h
  · have hrisk : (e.riskManager tickerId).riskCfg.maxOrderSize = terms.maxOrderSize tickerId :=
      h.maxOrderSize tickerId
    rw [h.clientId, h.clip] at hmove
    rw [sendAll_eq]
    exact ⟨h.clientId, h.clip, h.maxOrderSize, h.trail.moveOrders hrisk hmove⟩

theorem Sends.notified (h : Sends terms e) {n : Notification} (hrun : notified bbo e n = .ok e') :
    Sends terms e' := by
  cases n with
  | onTradeUpdate u =>
    have hfeature : Sends terms { e with featureEngine := e.featureEngine.onTradeUpdate u bbo } :=
      ⟨h.clientId, h.clip, h.maxOrderSize, h.trail⟩
    rcases acts_onTradeUpdate hrun with ⟨-, rfl⟩ | ⟨-, hacts⟩
    · exact hfeature
    · exact hfeature.acts hacts
  | onOrderBookUpdate tickerId price side =>
    obtain ⟨positionKeeper, -, hrun⟩ := bind_eq_ok hrun
    have hfeature : Sends terms { e with
        positionKeeper := positionKeeper, featureEngine := e.featureEngine.onOrderBookUpdate bbo } :=
      ⟨h.clientId, h.clip, h.maxOrderSize, h.trail⟩
    rcases acts_onOrderBookUpdate hrun with ⟨-, rfl⟩ | ⟨-, hacts⟩
    · exact hfeature
    · exact hfeature.acts hacts

theorem Sends.step (h : Sends terms e) {c : EngineEvent} (hknown : e.Known c) (hrun : e.step c = .ok e') :
    Sends terms e' := by
  cases c with
  | response r =>
    obtain ⟨positionKeeper, -, ⟨-, rfl⟩ | ⟨halgo, orderManager, hmanager, rfl⟩⟩ := onOrderUpdate_cases hrun
    · exact ⟨h.clientId, h.clip, h.maxOrderSize, h.trail⟩
    · exact ⟨h.clientId, h.clip, h.maxOrderSize, h.trail.onOrderUpdate (hknown halgo) hmanager⟩
  | marketUpdate u =>
    obtain ⟨-, book, book', -, -, hcall⟩ := onMarketUpdate_cases hrun
    have hbook : Sends terms
        { e with tickerOrderBook := update e.tickerOrderBook u.tickerId (some book') } :=
      ⟨h.clientId, h.clip, h.maxOrderSize, h.trail⟩
    exact hbook.notified hcall

section Run

variable {clientId : ClientId} {algoType : AlgoType} {riskCfg : TickerId → RiskCfg D}
  {tickerCfg : TickerId → TradeEngineCfg D} {tickerOrderBook : TickerId → Option MarketOrderBook}
  {events : List EngineEvent}

/-- If responses that do something are of orders that were sent, the new orders of any run are numbered
from one, with the clip of their ticker, which is within the limit of its size, and every cancel is of
the last new order of its ticker and side. -/
theorem requests_lawful
    (hknown : Guarded step Known (new clientId algoType riskCfg tickerCfg tickerOrderBook) events)
    (hrun : events.foldlM step (new clientId algoType riskCfg tickerCfg tickerOrderBook) = .ok e) :
    EachAfter (Lawful ⟨clientId, fun t ↦ (tickerCfg t).clip, fun t ↦ (riskCfg t).maxOrderSize⟩) []
      e.outgoingOgwRequests := by
  have hnew : Sends ⟨clientId, fun t ↦ (tickerCfg t).clip, fun t ↦ (riskCfg t).maxOrderSize⟩
      (new clientId algoType riskCfg tickerCfg tickerOrderBook) :=
    ⟨rfl, fun _ ↦ rfl, fun _ ↦ rfl, .nil _⟩
  exact (hknown.invariant (fun _ _ _ hs hk hc ↦ hs.step hk hc) hnew hrun).trail.lawful

def followed : List EngineEvent :=
  [.marketUpdate ⟨.ADD, 1, 0, .BUY, 100, 10, 1⟩, .marketUpdate ⟨.ADD, 2, 0, .BUY, 100, 10, 2⟩,
    .marketUpdate ⟨.ADD, 3, 0, .SELL, 104, 10, 1⟩, .marketUpdate ⟨.ADD, 4, 0, .SELL, 104, 10, 2⟩,
    .response ⟨.ACCEPTED, 1, 0, 1, 9, .BUY, 99, 0, 5⟩, .marketUpdate ⟨.ADD, 5, 0, .SELL, 104, 980, 3⟩]

theorem requests_lawful_followed : ∃ e : RunningEngine ℚ,
    followed.foldlM step (new 1 .MAKER fiveCfg fiveClip setBooks) = .ok e ∧
      e.outgoingOgwRequests.map (fun r ↦ (r.type, r.orderId)) = [(.NEW, 1), (.NEW, 2), (.CANCEL, 1)] ∧
      EachAfter (Lawful ⟨1, fun _ ↦ 5, fun _ ↦ 5⟩) [] e.outgoingOgwRequests := by
  obtain ⟨e, hrun, hsent⟩ : ∃ e : RunningEngine ℚ,
      followed.foldlM step (new 1 .MAKER fiveCfg fiveClip setBooks) = .ok e ∧
        e.outgoingOgwRequests.map (fun r ↦ (r.type, r.orderId)) =
          [(.NEW, 1), (.NEW, 2), (.CANCEL, 1)] := Yields.exists_ok (by decide +kernel)
  exact ⟨e, hrun, hsent, requests_lawful (by decide +kernel) hrun⟩

end Run

end RunningEngine

end LowLatency.Trading
