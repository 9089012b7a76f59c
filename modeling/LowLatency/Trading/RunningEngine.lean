import LowLatency.GuardedRun
import LowLatency.Trading.Strategies
import LowLatency.Trading.TradeEngine
import LowLatency.Trading.Updates

namespace LowLatency.Trading

open Common Exchange Function

inductive AlgoType
  | INVALID
  | RANDOM
  | MAKER
  | TAKER
  | MAX
  deriving DecidableEq, Repr

namespace AlgoType

/-- The constructor of the engine creates an algorithm for these two. -/
def Trades (a : AlgoType) : Prop := a = .MAKER ∨ a = .TAKER

instance : DecidablePred Trades := fun _ ↦ inferInstanceAs (Decidable (_ ∨ _))

end AlgoType

/-- The trade engine with all its members. The constructor creates no books; a book that is set up
calls the engine. -/
structure RunningEngine (D : Type) extends TradeEngine D where
  algoType : AlgoType
  tickerCfg : TickerId → TradeEngineCfg D
  featureEngine : FeatureEngine D
  tickerOrderBook : TickerId → Option MarketOrderBook

inductive EngineEvent
  | response (r : MEClientResponse)
  | marketUpdate (u : MEMarketUpdate)
  deriving DecidableEq, Repr

namespace RunningEngine

variable {D : Type} [Double D] [LE D] [DecidableLE D]

def new (clientId : ClientId) (algoType : AlgoType) (riskCfg : TickerId → RiskCfg D)
    (tickerCfg : TickerId → TradeEngineCfg D) (tickerOrderBook : TickerId → Option MarketOrderBook) :
    RunningEngine D where
  toTradeEngine := .new clientId riskCfg
  algoType := algoType
  tickerCfg := tickerCfg
  featureEngine := .new
  tickerOrderBook := tickerOrderBook

def strategy (e : RunningEngine D) : Strategy D := ⟨e.featureEngine, e.orderManager, e.tickerCfg⟩

def sendAll (e : RunningEngine D) (result : OrderManager × List MEClientRequest) : RunningEngine D :=
  { e with toTradeEngine :=
      result.2.foldl TradeEngine.sendClientRequest { e.toTradeEngine with orderManager := result.1 } }

def algoOnOrderBookUpdate (e : RunningEngine D) (tickerId : TickerId) (bbo : BBO) :
    Except Fault (RunningEngine D) :=
  match e.algoType with
  | .MAKER => do
    let result ← MarketMaker.onOrderBookUpdate e.strategy e.clientId e.riskManager tickerId bbo
    return e.sendAll result
  | .INVALID | .RANDOM | .TAKER | .MAX => .ok e

def algoOnTradeUpdate (e : RunningEngine D) (u : MEMarketUpdate) (bbo : BBO) :
    Except Fault (RunningEngine D) :=
  match e.algoType with
  | .TAKER => do
    let result ← LiquidityTaker.onTradeUpdate e.strategy e.clientId e.riskManager u bbo
    return e.sendAll result
  | .INVALID | .RANDOM | .MAKER | .MAX => .ok e

def algoOnOrderUpdate (e : RunningEngine D) (r : MEClientResponse) : Except Fault (RunningEngine D) :=
  match e.algoType with
  | .MAKER | .TAKER => do
    let orderManager ← e.orderManager.onOrderUpdate r
    return { e with orderManager := orderManager }
  | .INVALID | .RANDOM | .MAX => .ok e

def onOrderBookUpdate (e : RunningEngine D) (tickerId : TickerId) (bbo : BBO) :
    Except Fault (RunningEngine D) := do
  let positionKeeper ← e.positionKeeper.updateBBO tickerId bbo
  let featureEngine := e.featureEngine.onOrderBookUpdate bbo
  algoOnOrderBookUpdate { e with positionKeeper := positionKeeper, featureEngine := featureEngine }
    tickerId bbo

def onTradeUpdate (e : RunningEngine D) (u : MEMarketUpdate) (bbo : BBO) :
    Except Fault (RunningEngine D) :=
  algoOnTradeUpdate { e with featureEngine := e.featureEngine.onTradeUpdate u bbo } u bbo

def onOrderUpdate (e : RunningEngine D) (r : MEClientResponse) : Except Fault (RunningEngine D) := do
  let positionKeeper ←
    if r.type = .FILLED then e.positionKeeper.addFill r else .ok e.positionKeeper
  algoOnOrderUpdate { e with positionKeeper := positionKeeper } r

/-- A call by a book, of which the engine reads the best prices. -/
def notified (bbo : BBO) (e : RunningEngine D) : Notification → Except Fault (RunningEngine D)
  | .onTradeUpdate u => e.onTradeUpdate u bbo
  | .onOrderBookUpdate tickerId _ _ => e.onOrderBookUpdate tickerId bbo

/-- The loop of `run` over the market updates. A book calls the engine when it is done otherwise. -/
def onMarketUpdate (e : RunningEngine D) (u : MEMarketUpdate) : Except Fault (RunningEngine D) :=
  if u.tickerId < ME_MAX_TICKERS then
    match e.tickerOrderBook u.tickerId with
    | none => .error .nullPointer
    | some book => do
      let book' ← book.onMarketUpdate u
      (book'.notified.drop book.notified.length).foldlM (notified book'.bbo)
        { e with tickerOrderBook := update e.tickerOrderBook u.tickerId (some book') }
  else .error (.assertion ("Uknown ticker-id on update:" ++ u.toString))

def step (e : RunningEngine D) : EngineEvent → Except Fault (RunningEngine D)
  | .response r => e.onOrderUpdate r
  | .marketUpdate u => e.onMarketUpdate u

end RunningEngine

namespace MarketOrderBook

variable {m m' : MarketOrderBook} {u : MEMarketUpdate}

def call (u : MEMarketUpdate) : Notification :=
  if u.type = .TRADE then .onTradeUpdate u else .onOrderBookUpdate u.tickerId u.price u.side

theorem notify_ok {n : Notification} (h : m.notify n = .ok m') :
    m' = { m with notified := m.notified ++ [n] } := by
  obtain ⟨engine, -, h⟩ := bind_eq_ok h
  exact (Except.ok.inj h).symm

theorem notified_onMarketUpdate (h : m.onMarketUpdate u = .ok m') :
    m'.notified = m.notified ++ [call u] := by
  by_cases ht : u.type = .TRADE
  · have hrun : m.onMarketUpdate u = m.notify (.onTradeUpdate u) := by simp only [onMarketUpdate, ht]
    rw [hrun] at h
    rw [notify_ok h, call, if_pos ht]
  · rw [onMarketUpdate_eq ht] at h
    obtain ⟨b, -, h⟩ := bind_eq_ok h
    obtain ⟨m₁, hbbo, h⟩ := bind_eq_ok h
    obtain ⟨bbo, rfl, -⟩ := eq_of_updateBBO hbbo
    rw [notify_ok h, call, if_neg ht]

end MarketOrderBook

namespace RunningEngine

variable {D : Type} [Double D] [LE D] [DecidableLE D] {e e' : RunningEngine D} {r : MEClientResponse}
  {u : MEMarketUpdate} {tickerId : TickerId} {bbo : BBO}

theorem onMarketUpdate_cases (h : e.onMarketUpdate u = .ok e') :
    u.tickerId < ME_MAX_TICKERS ∧ ∃ book book', e.tickerOrderBook u.tickerId = some book ∧
      book.onMarketUpdate u = .ok book' ∧
      notified book'.bbo { e with tickerOrderBook := update e.tickerOrderBook u.tickerId (some book') }
        (MarketOrderBook.call u) = .ok e' := by
  unfold onMarketUpdate at h
  split_ifs at h with ht
  cases hbook : e.tickerOrderBook u.tickerId with
  | none =>
    rw [hbook] at h
    cases h
  | some book =>
    rw [hbook] at h
    obtain ⟨book', hrun, h⟩ := bind_eq_ok h
    rw [MarketOrderBook.notified_onMarketUpdate hrun, List.drop_left, foldlM_singleton] at h
    exact ⟨ht, book, book', rfl, hrun, h⟩

theorem onMarketUpdate_of_book {book book' : MarketOrderBook} (ht : u.tickerId < ME_MAX_TICKERS)
    (hbook : e.tickerOrderBook u.tickerId = some book) (hrun : book.onMarketUpdate u = .ok book') :
    e.onMarketUpdate u =
      notified book'.bbo { e with tickerOrderBook := update e.tickerOrderBook u.tickerId (some book') }
        (MarketOrderBook.call u) := by
  unfold onMarketUpdate
  rw [if_pos ht, hbook]
  dsimp only
  rw [hrun, ok_bind, MarketOrderBook.notified_onMarketUpdate hrun, List.drop_left, foldlM_singleton]

omit [Double D] [LE D] [DecidableLE D] in
theorem sendAll_eq (e : RunningEngine D) (result : OrderManager × List MEClientRequest) :
    e.sendAll result = { e with
      orderManager := result.1
      outgoingOgwRequests := e.outgoingOgwRequests ++ result.2 } := by
  rw [sendAll, TradeEngine.foldl_sendClientRequest]

/-- The algorithm lets the order manager move the orders of the ticker, or does nothing. -/
def Acts (e : RunningEngine D) (tickerId : TickerId) (e' : RunningEngine D) : Prop :=
  e' = e ∨ ∃ bidPrice askPrice result, e.orderManager.moveOrders e.clientId e.riskManager tickerId bidPrice
    askPrice (e.tickerCfg tickerId).clip = .ok result ∧ e' = e.sendAll result

theorem acts_onOrderBookUpdate (h : e.algoOnOrderBookUpdate tickerId bbo = .ok e') :
    e.algoType ≠ .MAKER ∧ e' = e ∨ e.algoType = .MAKER ∧ e.Acts tickerId e' := by
  unfold algoOnOrderBookUpdate at h
  cases halgo : e.algoType with
  | MAKER =>
    rw [halgo] at h
    refine .inr ⟨rfl, ?_⟩
    obtain ⟨result, hresult, h⟩ := bind_eq_ok h
    obtain rfl := Except.ok.inj h
    unfold MarketMaker.onOrderBookUpdate at hresult
    split_ifs at hresult with hvalid
    · obtain ⟨cfg, hcfg, hmove⟩ := bind_eq_ok hresult
      rw [Strategy.eq_of_cfg hcfg] at hmove
      exact .inr ⟨_, _, result, hmove, rfl⟩
    · obtain rfl := Except.ok.inj hresult
      exact .inl rfl
  | INVALID | RANDOM | TAKER | MAX =>
    rw [halgo] at h
    exact .inl ⟨by decide, (Except.ok.inj h).symm⟩

theorem acts_onTradeUpdate (h : e.algoOnTradeUpdate u bbo = .ok e') :
    e.algoType ≠ .TAKER ∧ e' = e ∨ e.algoType = .TAKER ∧ e.Acts u.tickerId e' := by
  unfold algoOnTradeUpdate at h
  cases halgo : e.algoType with
  | TAKER =>
    rw [halgo] at h
    refine .inr ⟨rfl, ?_⟩
    obtain ⟨result, hresult, h⟩ := bind_eq_ok h
    obtain rfl := Except.ok.inj h
    unfold LiquidityTaker.onTradeUpdate at hresult
    by_cases hvalid : bbo.Valid
    · rw [if_pos hvalid] at hresult
      obtain ⟨cfg, hcfg, hmove⟩ := bind_eq_ok hresult
      rw [Strategy.eq_of_cfg hcfg] at hmove
      split_ifs at hmove with hreaches hside
      · exact .inr ⟨_, _, result, hmove, rfl⟩
      · exact .inr ⟨_, _, result, hmove, rfl⟩
      · obtain rfl := Except.ok.inj hmove
        exact .inl rfl
    · rw [if_neg hvalid] at hresult
      obtain rfl := Except.ok.inj hresult
      exact .inl rfl
  | INVALID | RANDOM | MAKER | MAX =>
    rw [halgo] at h
    exact .inl ⟨by decide, (Except.ok.inj h).symm⟩

def filledPositions (e : TradeEngine D) (r : MEClientResponse) : Except Fault (PositionKeeper D) :=
  if r.type = .FILLED then e.positionKeeper.addFill r else .ok e.positionKeeper

omit [Double D] [LE D] [DecidableLE D] in
theorem algoOnOrderUpdate_eq (e : RunningEngine D) (r : MEClientResponse) :
    e.algoOnOrderUpdate r = if e.algoType.Trades then e.orderManager.onOrderUpdate r >>= fun orderManager ↦
      .ok { e with orderManager := orderManager } else .ok e := by
  unfold algoOnOrderUpdate AlgoType.Trades
  split <;> simp_all

omit [LE D] [DecidableLE D] in
theorem onOrderUpdate_eq (e : RunningEngine D) (r : MEClientResponse) :
    e.onOrderUpdate r = filledPositions e.toTradeEngine r >>= fun positionKeeper ↦
      algoOnOrderUpdate { e with positionKeeper := positionKeeper } r := by
  unfold onOrderUpdate filledPositions
  split_ifs <;> rfl

omit [LE D] [DecidableLE D] in
theorem onOrderUpdate_cases (h : e.onOrderUpdate r = .ok e') :
    ∃ positionKeeper, filledPositions e.toTradeEngine r = .ok positionKeeper ∧
      (¬ e.algoType.Trades ∧ e' = { e with positionKeeper := positionKeeper } ∨
        e.algoType.Trades ∧ ∃ orderManager, e.orderManager.onOrderUpdate r = .ok orderManager ∧
          e' = { e with positionKeeper := positionKeeper, orderManager := orderManager }) := by
  rw [onOrderUpdate_eq] at h
  obtain ⟨positionKeeper, hkeeper, h⟩ := bind_eq_ok h
  refine ⟨positionKeeper, hkeeper, ?_⟩
  rw [algoOnOrderUpdate_eq] at h
  split_ifs at h with halgo
  · obtain ⟨orderManager, hmanager, h⟩ := bind_eq_ok h
    exact .inr ⟨halgo, orderManager, hmanager, (Except.ok.inj h).symm⟩
  · exact .inl ⟨halgo, (Except.ok.inj h).symm⟩

section Outgoing

variable {c : EngineEvent}

omit [LE D] [DecidableLE D] in
theorem onOrderUpdate_outgoing {r : MEClientResponse} (h : e.onOrderUpdate r = .ok e') :
    e'.outgoingOgwRequests = e.outgoingOgwRequests ∧ e'.tickerOrderBook = e.tickerOrderBook := by
  obtain ⟨positionKeeper, -, ⟨-, rfl⟩ | ⟨-, orderManager, -, rfl⟩⟩ := onOrderUpdate_cases h
  · exact ⟨rfl, rfl⟩
  · exact ⟨rfl, rfl⟩

omit [LE D] [DecidableLE D] in
theorem Acts.outgoing {tickerId : TickerId} (h : e.Acts tickerId e') :
    e.outgoingOgwRequests <+: e'.outgoingOgwRequests := by
  rcases h with rfl | ⟨_, _, result, -, rfl⟩
  · exact List.prefix_rfl
  · rw [sendAll_eq]
    exact List.prefix_append _ _

theorem notified_outgoing {bbo : BBO} {n : Notification} (h : notified bbo e n = .ok e') :
    e.outgoingOgwRequests <+: e'.outgoingOgwRequests := by
  cases n with
  | onTradeUpdate u =>
    rcases acts_onTradeUpdate h with ⟨-, rfl⟩ | ⟨-, hacts⟩
    · exact List.prefix_rfl
    · exact hacts.outgoing
  | onOrderBookUpdate tickerId price side =>
    obtain ⟨positionKeeper, -, h⟩ := bind_eq_ok h
    rcases acts_onOrderBookUpdate h with ⟨-, rfl⟩ | ⟨-, hacts⟩
    · exact List.prefix_rfl
    · exact hacts.outgoing

theorem step_outgoing (h : e.step c = .ok e') : e.outgoingOgwRequests <+: e'.outgoingOgwRequests := by
  cases c with
  | response r => exact ((onOrderUpdate_outgoing h).1).symm ▸ List.prefix_rfl
  | marketUpdate u =>
    obtain ⟨-, book, book', -, -, hcall⟩ := onMarketUpdate_cases h
    have hsent := notified_outgoing hcall
    exact hsent

end Outgoing

def fiveCfg : TickerId → RiskCfg ℚ := fun _ ↦ ⟨5, 10, -1000000⟩

def fiveClip : TickerId → TradeEngineCfg ℚ := fun _ ↦ ⟨5, 1⟩

def setBooks : TickerId → Option MarketOrderBook :=
  fun tickerId ↦ some ((MarketOrderBook.new tickerId).setTradeEngine (some 0))

end RunningEngine

end LowLatency.Trading
