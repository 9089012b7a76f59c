import LowLatency.Simulation
import LowLatency.Trading.RunningEngine

namespace LowLatency.Trading

open Common Exchange Function

def OMOrder.content (order : OMOrder) : OMOrder := { order with orderId := 0 }

/-- The requests of a ticker but for the order ids. -/
def requestsOf (tickerId : TickerId) (rs : List MEClientRequest) : List MEClientRequest :=
  (rs.filter (·.tickerId = tickerId)).map fun r ↦ { r with orderId := 0 }

def SameOrders (tickerId : TickerId) (m m' : OrderManager) : Prop :=
  ∀ side, (m'.tickerSideOrder tickerId side).content = (m.tickerSideOrder tickerId side).content

/-- No slot of another ticker holds an order of this one. -/
def Apart (tickerId : TickerId) (m : OrderManager) : Prop :=
  ∀ t side, t ≠ tickerId → (m.tickerSideOrder t side).tickerId ≠ tickerId

section Content

variable {order order' : OMOrder} {r : MEClientResponse} {tickerId : TickerId}

theorem OMOrder.fields_eq (h : order'.content = order.content) :
    order'.tickerId = order.tickerId ∧ order'.side = order.side ∧ order'.price = order.price ∧
      order'.qty = order.qty ∧ order'.orderState = order.orderState := by
  simpa [content] using h

theorem content_applyResponse (h : order'.content = order.content) :
    (OrderManager.applyResponse order' r).content = (OrderManager.applyResponse order r).content := by
  obtain ⟨hticker, hside, hprice, hqty, hstate⟩ := OMOrder.fields_eq h
  unfold OrderManager.applyResponse
  cases r.type <;> dsimp only
  · exact h
  · simp only [OMOrder.content, hticker, hside, hprice, hqty]
  · simp only [OMOrder.content, hticker, hside, hprice, hqty]
  · split_ifs <;> simp only [OMOrder.content, hticker, hside, hprice, hstate]
  · exact h

theorem requestsOf_append (rs rs' : List MEClientRequest) :
    requestsOf tickerId (rs ++ rs') = requestsOf tickerId rs ++ requestsOf tickerId rs' := by
  simp [requestsOf]

theorem requestsOf_of_ne {rs : List MEClientRequest} (h : ∀ r ∈ rs, r.tickerId ≠ tickerId) :
    requestsOf tickerId rs = [] := by
  simpa [requestsOf] using h

end Content

section Manager

variable {D : Type} [LT D] [DecidableLT D] {m m' : OrderManager} {clientId : ClientId}
  {risk risk' : RiskManager D} {tickerId t : TickerId} {price : Price} {side : Side} {qty : Qty}

theorem SameOrders.setOrder (h : SameOrders tickerId m m') {order order' : OMOrder}
    (hsame : order'.content = order.content) :
    SameOrders tickerId (m.setOrder tickerId side order) (m'.setOrder tickerId side order') := by
  intro side'
  rw [OrderManager.setOrder_apply, OrderManager.setOrder_apply]
  split_ifs
  · exact hsame
  · exact h side'

theorem Apart.setOrder (h : Apart tickerId m) {order : OMOrder}
    (horder : t ≠ tickerId → order.tickerId ≠ tickerId) : Apart tickerId (m.setOrder t side order) := by
  intro t' side' ht'
  rw [OrderManager.setOrder_apply]
  split_ifs with hkey
  · exact horder (hkey.1 ▸ ht')
  · exact h t' side' ht'

theorem SameOrders.moveOrder (h : SameOrders tickerId m m') (clientId : ClientId)
    (hrisk : risk' tickerId = risk tickerId) (price : Price) (side : Side) (qty : Qty) :
    let result := m.moveOrder clientId risk tickerId price side qty
    let result' := m'.moveOrder clientId risk' tickerId price side qty
    SameOrders tickerId result.1 result'.1 ∧
      requestsOf tickerId result'.2 = requestsOf tickerId result.2 := by
  dsimp only
  obtain ⟨hticker, hside, hprice, hqty, hstate⟩ := OMOrder.fields_eq (h side)
  have hadmits : m'.Admits risk' tickerId price side qty ↔ m.Admits risk tickerId price side qty := by
    simp only [OrderManager.Admits, OrderManager.Ready, OrderManager.Vacant,
      RiskManager.checkPreTradeRisk, hrisk, hstate]
  have hcancels : (m'.Live tickerId side ∧ m'.Differs tickerId price side qty) ↔
      (m.Live tickerId side ∧ m.Differs tickerId price side qty) := by
    simp only [OrderManager.Live, OrderManager.Differs, hstate, hprice, hqty]
  rw [OrderManager.moveOrder_eq, OrderManager.moveOrder_eq]
  simp only [hadmits, hcancels]
  split_ifs with hnew hcancel
  · exact ⟨h.setOrder rfl, by simp [requestsOf, OrderManager.newOrder]⟩
  · refine ⟨h.setOrder ?_, ?_⟩
    · simp only [OMOrder.content, hticker, hside, hprice, hqty]
    · simp only [OrderManager.cancelOrder, hticker, hside, hprice, hqty, requestsOf,
        List.filter_singleton]
      cases decide ((m.tickerSideOrder tickerId side).tickerId = tickerId) <;> rfl
  · exact ⟨h, rfl⟩

theorem Apart.moveOrder (h : Apart tickerId m) (clientId : ClientId) (risk : RiskManager D)
    (t : TickerId) (price : Price) (side : Side) (qty : Qty) :
    Apart tickerId (m.moveOrder clientId risk t price side qty).1 := by
  rw [OrderManager.moveOrder_eq]
  split_ifs
  · exact h.setOrder id
  · exact h.setOrder (h t side)
  · exact h

theorem moveOrder_other (h : Apart tickerId m) (ht : t ≠ tickerId) (clientId : ClientId)
    (risk : RiskManager D) (price : Price) (side : Side) (qty : Qty) :
    let result := m.moveOrder clientId risk t price side qty
    (∀ side', result.1.tickerSideOrder tickerId side' = m.tickerSideOrder tickerId side') ∧
      requestsOf tickerId result.2 = [] := by
  dsimp only
  have hne : ∀ side', ¬(tickerId = t ∧ side' = side) := fun side' hkey ↦ ht hkey.1.symm
  refine ⟨fun side' ↦ ?_, requestsOf_of_ne fun r hr ↦ ?_⟩
  · rw [OrderManager.moveOrder_eq]
    split_ifs
    · exact OrderManager.setOrder_of_ne m t side _ (hne side')
    · exact OrderManager.setOrder_of_ne m t side _ (hne side')
    · rfl
  · rcases OrderManager.mem_moveOrder.mp hr with ⟨-, rfl⟩ | ⟨-, rfl⟩
    · exact ht
    · exact h t side ht

variable {bidPrice askPrice : Price} {clip : Qty} {result : OrderManager × List MEClientRequest}

theorem SameOrders.moveOrders (h : SameOrders tickerId m m') (hrisk : risk' tickerId = risk tickerId)
    (hmove : m.moveOrders clientId risk tickerId bidPrice askPrice clip = .ok result) :
    ∃ result', m'.moveOrders clientId risk' tickerId bidPrice askPrice clip = .ok result' ∧
      SameOrders tickerId result.1 result'.1 ∧
      requestsOf tickerId result'.2 = requestsOf tickerId result.2 := by
  obtain ⟨result', hmove'⟩ := OrderManager.moveOrders_ok m' clientId risk' bidPrice askPrice clip
    (OrderManager.lt_of_moveOrders hmove)
  obtain ⟨m₁, rfl, -, hm, hrequests⟩ := OrderManager.moveOrders_cases hmove
  obtain ⟨m₁', rfl, -, hm', hrequests'⟩ := OrderManager.moveOrders_cases hmove'
  obtain ⟨hbuy, hbuys⟩ := h.moveOrder clientId hrisk bidPrice .BUY clip
  obtain ⟨hsell, hsells⟩ := hbuy.moveOrder clientId hrisk bidPrice .SELL clip
  refine ⟨result', hmove', ?_, ?_⟩
  · rw [hm, hm']
    exact hsell
  · rw [hrequests, hrequests', requestsOf_append, requestsOf_append, hbuys, hsells]

theorem Apart.moveOrders (h : Apart tickerId m)
    (hmove : m.moveOrders clientId risk t bidPrice askPrice clip = .ok result) :
    Apart tickerId result.1 := by
  obtain ⟨m₁, rfl, -, hm, -⟩ := OrderManager.moveOrders_cases hmove
  rw [hm]
  exact (h.moveOrder clientId risk t bidPrice .BUY clip).moveOrder clientId risk t bidPrice .SELL clip

theorem moveOrders_other (h : Apart tickerId m) (ht : t ≠ tickerId)
    (hmove : m.moveOrders clientId risk t bidPrice askPrice clip = .ok result) :
    (∀ side, result.1.tickerSideOrder tickerId side = m.tickerSideOrder tickerId side) ∧
      requestsOf tickerId result.2 = [] := by
  obtain ⟨m₁, rfl, -, hm, hrequests⟩ := OrderManager.moveOrders_cases hmove
  obtain ⟨hslots, hbuys⟩ := moveOrder_other h ht clientId risk bidPrice .BUY clip
  obtain ⟨hslots', hsells⟩ := moveOrder_other (h.moveOrder clientId risk t bidPrice .BUY clip) ht clientId
    risk bidPrice .SELL clip
  rw [hm, hrequests, requestsOf_append, hbuys, hsells]
  exact ⟨fun side ↦ (hslots' side).trans (hslots side), rfl⟩

end Manager

namespace RunningEngine

variable {D : Type} [Double D] [LE D] [DecidableLE D] {e e' e₁ : RunningEngine D} {tickerId t : TickerId}
  {bbo : BBO} {u : MEMarketUpdate}

/-- The second engine is where the first is, as far as one ticker goes. -/
structure Agrees (tickerId : TickerId) (e e' : RunningEngine D) : Prop where
  cfg : e'.clientId = e.clientId ∧ e'.algoType = e.algoType ∧ e'.tickerCfg = e.tickerCfg ∧
    e'.riskCfg = e.riskCfg
  book : e'.tickerOrderBook tickerId = e.tickerOrderBook tickerId
  position : e'.positionKeeper tickerId = e.positionKeeper tickerId
  orders : SameOrders tickerId e.orderManager e'.orderManager
  requests : requestsOf tickerId e'.outgoingOgwRequests = requestsOf tickerId e.outgoingOgwRequests
  apart : Apart tickerId e.orderManager

section Agrees

omit [Double D] [LE D] [DecidableLE D]

theorem Agrees.trans (h : Agrees tickerId e e') (h' : Agrees tickerId e' e₁) : Agrees tickerId e e₁ where
  cfg := ⟨h'.cfg.1.trans h.cfg.1, h'.cfg.2.1.trans h.cfg.2.1, h'.cfg.2.2.1.trans h.cfg.2.2.1,
    h'.cfg.2.2.2.trans h.cfg.2.2.2⟩
  book := h'.book.trans h.book
  position := h'.position.trans h.position
  orders := fun side ↦ (h'.orders side).trans (h.orders side)
  requests := h'.requests.trans h.requests
  apart := h.apart

theorem Agrees.risk (h : Agrees tickerId e e') : e'.riskManager tickerId = e.riskManager tickerId := by
  simp only [TradeEngine.riskManager, h.position, h.cfg.2.2.2]

theorem Agrees.strategy_cfg (h : Agrees tickerId e e') : e'.strategy.cfg t = e.strategy.cfg t := by
  simp only [Strategy.cfg, strategy, h.cfg.2.2.1]

theorem Agrees.sendAll (h : Agrees tickerId e e') {result result' : OrderManager × List MEClientRequest}
    (horders : SameOrders tickerId result.1 result'.1) (hapart : Apart tickerId result.1)
    (hrequests : requestsOf tickerId result'.2 = requestsOf tickerId result.2) :
    Agrees tickerId (e.sendAll result) (e'.sendAll result') := by
  rw [sendAll_eq, sendAll_eq]
  refine ⟨h.cfg, h.book, h.position, horders, ?_, hapart⟩
  rw [requestsOf_append, requestsOf_append, h.requests, hrequests]

end Agrees

theorem Agrees.algoOnOrderBookUpdate (h : Agrees tickerId e e')
    (hfeature : bbo.Valid → e'.featureEngine.mktPrice = e.featureEngine.mktPrice)
    (hrun : e.algoOnOrderBookUpdate tickerId bbo = .ok e₁) :
    ∃ e₁', e'.algoOnOrderBookUpdate tickerId bbo = .ok e₁' ∧ Agrees tickerId e₁ e₁' := by
  unfold RunningEngine.algoOnOrderBookUpdate at hrun ⊢
  rw [h.cfg.2.1]
  cases halgo : e.algoType with
  | MAKER =>
    simp only [halgo] at hrun ⊢
    obtain ⟨result, hresult, hrun⟩ := bind_eq_ok hrun
    obtain rfl := Except.ok.inj hrun
    unfold MarketMaker.onOrderBookUpdate at hresult ⊢
    by_cases hvalid : bbo.Valid
    · rw [if_pos hvalid] at hresult ⊢
      obtain ⟨cfg, hcfg, hmove⟩ := bind_eq_ok hresult
      obtain ⟨result', hmove', horders, hrequests⟩ := h.orders.moveOrders h.risk hmove
      refine ⟨_, ?_, h.sendAll horders (Apart.moveOrders h.apart hmove) hrequests⟩
      have hprice : e'.strategy.featureEngine.mktPrice = e.strategy.featureEngine.mktPrice :=
        hfeature hvalid
      rw [h.strategy_cfg, hcfg, ok_bind, hprice, h.cfg.1]
      exact congrArg (· >>= _) hmove'
    · rw [if_neg hvalid] at hresult ⊢
      obtain rfl := Except.ok.inj hresult
      exact ⟨_, rfl, h.sendAll h.orders h.apart rfl⟩
  | INVALID | RANDOM | TAKER | MAX =>
    simp only [halgo] at hrun ⊢
    obtain rfl := Except.ok.inj hrun
    exact ⟨_, rfl, h⟩

theorem Agrees.algoOnTradeUpdate (h : Agrees u.tickerId e e')
    (hfeature : bbo.Valid → e'.featureEngine.aggTradeQtyRatio = e.featureEngine.aggTradeQtyRatio)
    (hrun : e.algoOnTradeUpdate u bbo = .ok e₁) :
    ∃ e₁', e'.algoOnTradeUpdate u bbo = .ok e₁' ∧ Agrees u.tickerId e₁ e₁' := by
  unfold RunningEngine.algoOnTradeUpdate at hrun ⊢
  rw [h.cfg.2.1]
  cases halgo : e.algoType with
  | TAKER =>
    simp only [halgo] at hrun ⊢
    obtain ⟨result, hresult, hrun⟩ := bind_eq_ok hrun
    obtain rfl := Except.ok.inj hrun
    unfold LiquidityTaker.onTradeUpdate at hresult ⊢
    by_cases hvalid : bbo.Valid
    · have hratio : e'.strategy.featureEngine.aggTradeQtyRatio =
          e.strategy.featureEngine.aggTradeQtyRatio := hfeature hvalid
      rw [if_pos hvalid] at hresult ⊢
      obtain ⟨cfg, hcfg, hmove⟩ := bind_eq_ok hresult
      rw [h.strategy_cfg, hcfg, ok_bind, hratio, h.cfg.1]
      split_ifs at hmove ⊢ with hreaches hside
      · obtain ⟨result', hmove', horders, hrequests⟩ := h.orders.moveOrders h.risk hmove
        exact ⟨_, congrArg (· >>= _) hmove', h.sendAll horders (Apart.moveOrders h.apart hmove) hrequests⟩
      · obtain ⟨result', hmove', horders, hrequests⟩ := h.orders.moveOrders h.risk hmove
        exact ⟨_, congrArg (· >>= _) hmove', h.sendAll horders (Apart.moveOrders h.apart hmove) hrequests⟩
      · obtain rfl := Except.ok.inj hmove
        exact ⟨_, rfl, h.sendAll h.orders h.apart rfl⟩
    · rw [if_neg hvalid] at hresult ⊢
      obtain rfl := Except.ok.inj hresult
      exact ⟨_, rfl, h.sendAll h.orders h.apart rfl⟩
  | INVALID | RANDOM | MAKER | MAX =>
    simp only [halgo] at hrun ⊢
    obtain rfl := Except.ok.inj hrun
    exact ⟨_, rfl, h⟩

theorem Agrees.own_marketUpdate (h : Agrees u.tickerId e e') (hrun : e.onMarketUpdate u = .ok e₁) :
    ∃ e₁', e'.onMarketUpdate u = .ok e₁' ∧ Agrees u.tickerId e₁ e₁' := by
  obtain ⟨ht, book, book', hbook, hupdate, hcall⟩ := onMarketUpdate_cases hrun
  rw [onMarketUpdate_of_book ht (h.book.trans hbook) hupdate]
  have hset : Agrees u.tickerId
      { e with tickerOrderBook := update e.tickerOrderBook u.tickerId (some book') }
      { e' with tickerOrderBook := update e'.tickerOrderBook u.tickerId (some book') } :=
    { h with book := by simp }
  unfold MarketOrderBook.call at hcall ⊢
  split_ifs at hcall ⊢ with htrade
  · have hfeature : Agrees u.tickerId
        { e with
          tickerOrderBook := update e.tickerOrderBook u.tickerId (some book')
          featureEngine := e.featureEngine.onTradeUpdate u book'.bbo }
        { e' with
          tickerOrderBook := update e'.tickerOrderBook u.tickerId (some book')
          featureEngine := e'.featureEngine.onTradeUpdate u book'.bbo } := { hset with }
    exact hfeature.algoOnTradeUpdate (fun hvalid ↦ by
      simp only [FeatureEngine.onTradeUpdate, if_pos hvalid]) hcall
  · obtain ⟨positionKeeper, hkeeper, hcall⟩ := bind_eq_ok hcall
    have hkeeper' : e'.positionKeeper.updateBBO u.tickerId book'.bbo = .ok (update e'.positionKeeper
        u.tickerId ((e'.positionKeeper u.tickerId).updateBBO book'.bbo)) := if_pos ht
    have hkeeper'' : positionKeeper = update e.positionKeeper u.tickerId
        ((e.positionKeeper u.tickerId).updateBBO book'.bbo) :=
      (Except.ok.inj ((if_pos ht).symm.trans hkeeper)).symm
    have hposition : Agrees u.tickerId
        { e with
          tickerOrderBook := update e.tickerOrderBook u.tickerId (some book')
          positionKeeper := positionKeeper
          featureEngine := e.featureEngine.onOrderBookUpdate book'.bbo }
        { e' with
          tickerOrderBook := update e'.tickerOrderBook u.tickerId (some book')
          positionKeeper := update e'.positionKeeper u.tickerId
            ((e'.positionKeeper u.tickerId).updateBBO book'.bbo)
          featureEngine := e'.featureEngine.onOrderBookUpdate book'.bbo } :=
      { hset with position := by simp [hkeeper'', h.position] }
    obtain ⟨e₁', hrun', hagrees⟩ := hposition.algoOnOrderBookUpdate (fun hvalid ↦ by
      simp only [FeatureEngine.onOrderBookUpdate, if_pos hvalid]) hcall
    refine ⟨e₁', ?_, hagrees⟩
    rw [notified, onOrderBookUpdate, hkeeper', ok_bind]
    exact hrun'

theorem Agrees.other_marketUpdate (h : Apart tickerId e.orderManager) (ht : u.tickerId ≠ tickerId)
    (hrun : e.onMarketUpdate u = .ok e₁) : Agrees tickerId e₁ e := by
  obtain ⟨-, book, book', -, -, hcall⟩ := onMarketUpdate_cases hrun
  have hacts : ∀ e₂ : RunningEngine D, Agrees tickerId e₂ e → e₂.Acts u.tickerId e₁ →
      Agrees tickerId e₁ e := by
    rintro e₂ h₂ (rfl | ⟨bidPrice, askPrice, result, hmove, rfl⟩)
    · exact h₂
    · obtain ⟨hslots, hrequests⟩ := moveOrders_other h₂.apart ht hmove
      rw [sendAll_eq]
      refine ⟨h₂.cfg, h₂.book, h₂.position, fun side ↦ ?_, ?_, Apart.moveOrders h₂.apart hmove⟩
      · rw [hslots]
        exact h₂.orders side
      · rw [requestsOf_append, hrequests, List.append_nil]
        exact h₂.requests
  have hbook : e.tickerOrderBook tickerId =
      update e.tickerOrderBook u.tickerId (some book') tickerId := by simp [ht.symm]
  unfold MarketOrderBook.call at hcall
  split_ifs at hcall
  · have hset : Agrees tickerId
        { e with
          tickerOrderBook := update e.tickerOrderBook u.tickerId (some book')
          featureEngine := e.featureEngine.onTradeUpdate u book'.bbo } e :=
      ⟨⟨rfl, rfl, rfl, rfl⟩, hbook, rfl, fun _ ↦ rfl, rfl, h⟩
    rcases acts_onTradeUpdate hcall with ⟨-, rfl⟩ | ⟨-, hmoves⟩
    · exact hset
    · exact hacts _ hset hmoves
  · obtain ⟨positionKeeper, hkeeper, hcall⟩ := bind_eq_ok hcall
    have hposition : e.positionKeeper tickerId = positionKeeper tickerId := by
      unfold PositionKeeper.updateBBO at hkeeper
      split_ifs at hkeeper
      obtain rfl := Except.ok.inj hkeeper
      simp [ht.symm]
    have hset : Agrees tickerId
        { e with
          tickerOrderBook := update e.tickerOrderBook u.tickerId (some book')
          positionKeeper := positionKeeper
          featureEngine := e.featureEngine.onOrderBookUpdate book'.bbo } e :=
      ⟨⟨rfl, rfl, rfl, rfl⟩, hbook, hposition, fun _ ↦ rfl, rfl, h⟩
    rcases acts_onOrderBookUpdate hcall with ⟨-, rfl⟩ | ⟨-, hmoves⟩
    · exact hset
    · exact hacts _ hset hmoves

section Response

variable {r : MEClientResponse}

omit [LE D] [DecidableLE D] in
theorem filledPositions_apply {positionKeeper : PositionKeeper D}
    (h : filledPositions e.toTradeEngine r = .ok positionKeeper) (t : TickerId) :
    positionKeeper t = if r.type = .FILLED ∧ t = r.tickerId then (e.positionKeeper t).addFill r
      else e.positionKeeper t := by
  unfold filledPositions PositionKeeper.addFill at h
  split_ifs at h with htype ht
  · obtain rfl := Except.ok.inj h
    by_cases hkey : t = r.tickerId
    · subst hkey
      simp [htype]
    · simp [hkey]
  · obtain rfl := Except.ok.inj h
    simp [htype]

omit [LE D] [DecidableLE D] in
theorem Agrees.own_response (h : Agrees r.tickerId e e') (hrun : e.onOrderUpdate r = .ok e₁) :
    ∃ e₁', e'.onOrderUpdate r = .ok e₁' ∧ Agrees r.tickerId e₁ e₁' := by
  obtain ⟨positionKeeper, hkeeper, hcases⟩ := onOrderUpdate_cases hrun
  obtain ⟨positionKeeper', hkeeper', hposition⟩ : ∃ positionKeeper',
      filledPositions e'.toTradeEngine r = .ok positionKeeper' ∧
        positionKeeper' r.tickerId = positionKeeper r.tickerId := by
    obtain ⟨positionKeeper', hkeeper'⟩ : ∃ positionKeeper',
        filledPositions e'.toTradeEngine r = .ok positionKeeper' := by
      unfold filledPositions PositionKeeper.addFill at hkeeper ⊢
      split_ifs at hkeeper ⊢ <;> exact ⟨_, rfl⟩
    refine ⟨positionKeeper', hkeeper', ?_⟩
    rw [filledPositions_apply hkeeper, filledPositions_apply hkeeper', h.position]
  rw [onOrderUpdate_eq, hkeeper', ok_bind, algoOnOrderUpdate_eq]
  rcases hcases with ⟨hidle, rfl⟩ | ⟨halgo, orderManager, hmanager, rfl⟩
  · rw [if_neg (show ¬ e'.algoType.Trades by rwa [h.cfg.2.1])]
    exact ⟨_, rfl, { h with position := hposition }⟩
  · rw [if_pos (show e'.algoType.Trades by rwa [h.cfg.2.1])]
    unfold OrderManager.onOrderUpdate at hmanager ⊢
    split_ifs at hmanager ⊢
    obtain rfl := Except.ok.inj hmanager
    exact ⟨_, rfl, { h with
      position := hposition
      orders := h.orders.setOrder (content_applyResponse (h.orders r.side))
      apart := Apart.setOrder h.apart fun hne ↦ absurd rfl hne }⟩

omit [LE D] [DecidableLE D] in
theorem Agrees.other_response (h : Apart tickerId e.orderManager) (ht : r.tickerId ≠ tickerId)
    (hrun : e.onOrderUpdate r = .ok e₁) : Agrees tickerId e₁ e := by
  obtain ⟨positionKeeper, hkeeper, hcases⟩ := onOrderUpdate_cases hrun
  have hposition : e.positionKeeper tickerId = positionKeeper tickerId := by
    rw [filledPositions_apply hkeeper, if_neg fun hkey ↦ ht hkey.2.symm]
  rcases hcases with ⟨-, rfl⟩ | ⟨-, orderManager, hmanager, rfl⟩
  · exact ⟨⟨rfl, rfl, rfl, rfl⟩, rfl, hposition, fun _ ↦ rfl, rfl, h⟩
  · unfold OrderManager.onOrderUpdate at hmanager
    split_ifs at hmanager
    obtain rfl := Except.ok.inj hmanager
    refine ⟨⟨rfl, rfl, rfl, rfl⟩, rfl, hposition, fun side ↦ ?_, rfl, ?_⟩
    · rw [OrderManager.setOrder_of_ne _ _ _ _ fun hkey ↦ ht hkey.1.symm]
    · refine Apart.setOrder h fun _ ↦ ?_
      rw [(OrderManager.applyResponse_frame _ r).1]
      exact h _ _ ht

end Response

end RunningEngine

def EngineEvent.tickerId : EngineEvent → TickerId
  | .response r => r.tickerId
  | .marketUpdate u => u.tickerId

namespace RunningEngine

variable {D : Type} [Double D] [LE D] [DecidableLE D] {e : RunningEngine D} {tickerId : TickerId}
  {clientId : ClientId} {algoType : AlgoType} {riskCfg : TickerId → RiskCfg D}
  {tickerCfg : TickerId → TradeEngineCfg D} {tickerOrderBook : TickerId → Option MarketOrderBook}
  {events : List EngineEvent}

theorem projects (tickerId : TickerId) :
    Projects (step (D := D)) step (fun c ↦ c.tickerId = tickerId) (Agrees tickerId) where
  own := by
    rintro e (r | u) e₁ e' rfl h hrun
    · exact h.own_response hrun
    · exact h.own_marketUpdate hrun
  other := by
    rintro e (r | u) e₁ e' ht h hrun
    · exact (Agrees.other_response h.apart ht hrun).trans h
    · exact (Agrees.other_marketUpdate h.apart ht hrun).trans h

/-- If the events of all tickers are handled, then so are those of one ticker alone, with the same book,
position and orders of that ticker at the end, and the same requests for it but for the order ids. -/
theorem ticker_isolated (ht : tickerId ≠ TickerId_INVALID)
    (hrun : events.foldlM step (new clientId algoType riskCfg tickerCfg tickerOrderBook) = .ok e) :
    ∃ e', (events.filter fun c ↦ c.tickerId = tickerId).foldlM step
        (new clientId algoType riskCfg tickerCfg tickerOrderBook) = .ok e' ∧
      e'.tickerOrderBook tickerId = e.tickerOrderBook tickerId ∧
      e'.positionKeeper tickerId = e.positionKeeper tickerId ∧
      SameOrders tickerId e.orderManager e'.orderManager ∧
      requestsOf tickerId e'.outgoingOgwRequests = requestsOf tickerId e.outgoingOgwRequests := by
  have hnew : Agrees tickerId (new clientId algoType riskCfg tickerCfg tickerOrderBook)
      (new clientId algoType riskCfg tickerCfg tickerOrderBook) :=
    ⟨⟨rfl, rfl, rfl, rfl⟩, rfl, rfl, fun _ ↦ rfl, rfl, fun _ _ _ ↦ ht.symm⟩
  obtain ⟨e', hrun', h⟩ := (projects tickerId).run hnew hrun
  exact ⟨e', hrun', h.book, h.position, h.orders, h.requests⟩

def inTurns : List EngineEvent :=
  [.marketUpdate ⟨.ADD, 1, 0, .BUY, 100, 10, 1⟩, .marketUpdate ⟨.ADD, 2, 0, .BUY, 100, 10, 2⟩,
    .marketUpdate ⟨.ADD, 1, 1, .BUY, 60, 10, 1⟩, .marketUpdate ⟨.ADD, 2, 1, .BUY, 60, 10, 2⟩,
    .marketUpdate ⟨.ADD, 3, 0, .SELL, 104, 10, 1⟩, .marketUpdate ⟨.ADD, 4, 0, .SELL, 104, 10, 2⟩,
    .response ⟨.ACCEPTED, 1, 0, 1, 9, .BUY, 99, 0, 5⟩, .marketUpdate ⟨.ADD, 3, 1, .SELL, 64, 10, 1⟩,
    .marketUpdate ⟨.ADD, 4, 1, .SELL, 64, 10, 2⟩]

theorem ticker_isolated_in_turns : ∃ e e' : RunningEngine ℚ,
    inTurns.foldlM step (new 1 .MAKER fiveCfg fiveClip setBooks) = .ok e ∧
      e.outgoingOgwRequests.map (fun r ↦ (r.tickerId, r.orderId)) = [(0, 1), (0, 2), (1, 3), (1, 4)] ∧
      (inTurns.filter fun c ↦ c.tickerId = 1).foldlM step (new 1 .MAKER fiveCfg fiveClip setBooks) =
        .ok e' ∧
      requestsOf 1 e'.outgoingOgwRequests = requestsOf 1 e.outgoingOgwRequests := by
  obtain ⟨e, hrun, hsent⟩ : ∃ e : RunningEngine ℚ,
      inTurns.foldlM step (new 1 .MAKER fiveCfg fiveClip setBooks) = .ok e ∧
        e.outgoingOgwRequests.map (fun r ↦ (r.tickerId, r.orderId)) =
          [(0, 1), (0, 2), (1, 3), (1, 4)] := Yields.exists_ok (by decide +kernel)
  obtain ⟨e', hrun', -, -, -, hrequests⟩ := ticker_isolated (show (1 : TickerId) ≠ TickerId_INVALID by decide) hrun
  exact ⟨e, e', hrun, hsent, hrun', hrequests⟩

end RunningEngine

end LowLatency.Trading
