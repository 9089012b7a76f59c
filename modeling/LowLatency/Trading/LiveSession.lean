import LowLatency.Simulation
import LowLatency.Trading.PositionLimit
import LowLatency.Trading.RunningEngine

namespace LowLatency.Trading

open Common Exchange Function

structure LiveSession (D : Type) where
  engine : RunningEngine D
  openOrders : List OpenOrder
  nextMarketOrderId : OrderId
  responses : List MEClientResponse

/-- The engine reads an update of the market, or the exchange and the responses go on as they may. -/
inductive LiveEvent
  | marketUpdate (u : MEMarketUpdate)
  | process (rests cancels : Bool)
  | fill (tickerId : TickerId) (orderId : OrderId) (price : Price) (execQty : Qty)
  | deliver
  deriving DecidableEq, Repr

namespace LiveSession

variable {D : Type} [Double D] [LE D] [DecidableLE D]

def new (clientId : ClientId) (algoType : AlgoType) (riskCfg : TickerId → RiskCfg D)
    (tickerCfg : TickerId → TradeEngineCfg D) (tickerOrderBook : TickerId → Option MarketOrderBook) :
    LiveSession D where
  engine := .new clientId algoType riskCfg tickerCfg tickerOrderBook
  openOrders := []
  nextMarketOrderId := 1
  responses := []

section Defs

omit [Double D] [LE D] [DecidableLE D]

def toOrderSession (s : LiveSession D) : OrderSession D :=
  ⟨s.engine.toTradeEngine, s.openOrders, s.nextMarketOrderId, s.responses⟩

def adopt (s : LiveSession D) (t : OrderSession D) : LiveSession D where
  engine := { s.engine with toTradeEngine := t.engine }
  openOrders := t.openOrders
  nextMarketOrderId := t.nextMarketOrderId
  responses := t.responses

def sentNews (s s' : LiveSession D) : ℕ := s.toOrderSession.sentNews s'.toOrderSession

def Quiet (s : LiveSession D) : Prop :=
  s.engine.outgoingOgwRequests = [] ∧ s.openOrders = [] ∧ s.responses = []

end Defs

def deliver (s : LiveSession D) : Except Fault (LiveSession D) :=
  match s.responses with
  | [] => .ok s
  | r :: responses => do
    let engine ← s.engine.onOrderUpdate r
    return { s with engine := engine, responses := responses }

def step (s : LiveSession D) : LiveEvent → Except Fault (LiveSession D)
  | .marketUpdate u => do
    let engine ← s.engine.onMarketUpdate u
    return { s with engine := engine }
  | .process rests cancels => .ok (s.adopt (s.toOrderSession.process rests cancels))
  | .fill tickerId orderId price execQty =>
    .ok (s.adopt (s.toOrderSession.fill tickerId orderId price execQty))
  | .deliver => s.deliver

def newsSent (s : LiveSession D) (events : List LiveEvent) : ℕ := runSum step sentNews s events

def Honest (s : LiveSession D) : LiveEvent → Prop
  | .process rests cancels => s.toOrderSession.Honest (.process rests cancels)
  | _ => True

instance (s : LiveSession D) (e : LiveEvent) : Decidable (s.Honest e) := by
  cases e <;> unfold Honest <;> infer_instance

end LiveSession

namespace RunningEngine

variable {D : Type} [Double D] [LE D] [DecidableLE D] {e e' : RunningEngine D} {r : MEClientResponse}
  {u : MEMarketUpdate} {tickerId : TickerId} {bbo : BBO}

/-- The part of the engine that trades moves its orders once, or not at all. -/
def Moved (e e' : TradeEngine D) (tickerId : TickerId) : Prop :=
  e' = e ∨ ∃ bidPrice askPrice clip, e.moveOrders tickerId bidPrice askPrice clip = .ok e'

omit [LE D] [DecidableLE D] in
theorem Acts.moved (h : e.Acts tickerId e') : Moved e.toTradeEngine e'.toTradeEngine tickerId := by
  rcases h with rfl | ⟨bidPrice, askPrice, result, hmove, rfl⟩
  · exact .inl rfl
  · refine .inr ⟨bidPrice, askPrice, (e.tickerCfg tickerId).clip, ?_⟩
    rw [TradeEngine.moveOrders, hmove]
    rfl

omit [LE D] [DecidableLE D] in
theorem Acts.frame (h : e.Acts tickerId e') :
    e'.algoType = e.algoType ∧ e'.tickerCfg = e.tickerCfg ∧ e'.featureEngine = e.featureEngine ∧
      e'.tickerOrderBook = e.tickerOrderBook := by
  rcases h with rfl | ⟨_, _, _, -, rfl⟩ <;> exact ⟨rfl, rfl, rfl, rfl⟩

theorem notified_cases {n : Notification} (h : notified bbo e n = .ok e') :
    e'.algoType = e.algoType ∧ (¬ e.algoType.Trades →
      e'.outgoingOgwRequests = e.outgoingOgwRequests) ∧
      ∃ e₁ tickerId, (e₁ = e.toTradeEngine ∨ e.toTradeEngine.updateBBO tickerId bbo = .ok e₁) ∧
        Moved e₁ e'.toTradeEngine tickerId := by
  cases n with
  | onTradeUpdate u =>
    rcases acts_onTradeUpdate h with ⟨-, rfl⟩ | ⟨halgo, hacts⟩
    · exact ⟨rfl, fun _ ↦ rfl, _, u.tickerId, .inl rfl, .inl rfl⟩
    · exact ⟨hacts.frame.1, fun hidle ↦ absurd (.inr halgo) hidle, _, u.tickerId, .inl rfl, hacts.moved⟩
  | onOrderBookUpdate tickerId price side =>
    obtain ⟨positionKeeper, hkeeper, h⟩ := bind_eq_ok h
    have hbbo : e.toTradeEngine.updateBBO tickerId bbo =
        .ok { e.toTradeEngine with positionKeeper := positionKeeper } := by
      rw [TradeEngine.updateBBO, hkeeper]
      rfl
    rcases acts_onOrderBookUpdate h with ⟨-, rfl⟩ | ⟨halgo, hacts⟩
    · exact ⟨rfl, fun _ ↦ rfl, _, tickerId, .inr hbbo, .inl rfl⟩
    · exact ⟨hacts.frame.1, fun hidle ↦ absurd (.inl halgo) hidle, _, tickerId, .inr hbbo, hacts.moved⟩

omit [LE D] [DecidableLE D] in
theorem onOrderUpdate_of_trades (halgo : e.algoType.Trades) (h : e.onOrderUpdate r = .ok e') :
    e'.algoType = e.algoType ∧ e.toTradeEngine.onOrderUpdate r = .ok e'.toTradeEngine := by
  have hpart : e.toTradeEngine.onOrderUpdate r =
      filledPositions e.toTradeEngine r >>= fun positionKeeper ↦
        e.orderManager.onOrderUpdate r >>= fun orderManager ↦ .ok { e.toTradeEngine with
          positionKeeper := positionKeeper, orderManager := orderManager } := by
    unfold TradeEngine.onOrderUpdate filledPositions
    split_ifs <;> rfl
  obtain ⟨positionKeeper, hkeeper, ⟨hidle, -⟩ | ⟨-, orderManager, hmanager, rfl⟩⟩ := onOrderUpdate_cases h
  · exact absurd halgo hidle
  · refine ⟨rfl, ?_⟩
    rw [hpart, hkeeper, ok_bind, hmanager, ok_bind]

end RunningEngine

namespace LiveSession

variable {D : Type} [Double D] [LE D] [DecidableLE D] {s s' : LiveSession D} {u : MEMarketUpdate}

/-- The session of orders that a live session goes through. -/
def Refines (s : LiveSession D) (t : OrderSession D) : Prop :=
  s.toOrderSession = t ∧ (¬ s.engine.algoType.Trades → s.Quiet)

omit [LE D] [DecidableLE D] in
theorem Moved.events {e e' : TradeEngine D} {tickerId : TickerId} (h : RunningEngine.Moved e e' tickerId)
    (t : OrderSession D) (ht : t.engine = e) : ∃ es, Guarded OrderSession.step OrderSession.Honest t es ∧
      es.foldlM OrderSession.step t = .ok { t with engine := e' } ∧
      t.newsSent es = t.sentNews { t with engine := e' } := by
  subst ht
  rcases h with rfl | ⟨bidPrice, askPrice, clip, hmove⟩
  · exact ⟨[], trivial, rfl, (Nat.sub_self _).symm⟩
  · have hstep : t.step (.moveOrders tickerId bidPrice askPrice clip) = .ok { t with engine := e' } := by
      rw [OrderSession.step, hmove, ok_bind]
    exact ⟨[.moveOrders tickerId bidPrice askPrice clip], (Guarded.cons_ok hstep).mpr ⟨trivial, trivial⟩,
      (foldlM_singleton _ _ _).trans hstep, runSum_singleton hstep⟩

theorem refines_marketUpdate (h : s.step (.marketUpdate u) = .ok s') :
    (∃ es, Guarded OrderSession.step OrderSession.Honest s.toOrderSession es ∧
      es.foldlM OrderSession.step s.toOrderSession = .ok s'.toOrderSession ∧
      s.toOrderSession.newsSent es = s.sentNews s') ∧
      s'.engine.algoType = s.engine.algoType ∧
      (¬ s.engine.algoType.Trades → s.Quiet → s'.Quiet) := by
  obtain ⟨engine, hengine, h⟩ := bind_eq_ok h
  obtain rfl := Except.ok.inj h
  obtain ⟨-, book, book', -, -, hcall⟩ := RunningEngine.onMarketUpdate_cases hengine
  obtain ⟨halgo, hidle, e₁, tickerId, hbbo, hmoved⟩ := RunningEngine.notified_cases hcall
  refine ⟨?_, halgo, fun hno hquiet ↦ ⟨(hidle hno).trans hquiet.1, hquiet.2⟩⟩
  rcases hbbo with rfl | hbbo
  · exact Moved.events hmoved s.toOrderSession rfl
  · obtain ⟨es, hes, hrun, hsum⟩ := Moved.events hmoved { s.toOrderSession with engine := e₁ } rfl
    have hstep : s.toOrderSession.step (.updateBBO tickerId book'.bbo) =
        .ok { s.toOrderSession with engine := e₁ } := by
      have hbbo' : s.toOrderSession.engine.updateBBO tickerId book'.bbo = .ok e₁ := hbbo
      rw [OrderSession.step, hbbo', ok_bind]
    refine ⟨_ :: es, (Guarded.cons_ok hstep).mpr ⟨trivial, hes⟩, ?_, ?_⟩
    · rw [List.foldlM_cons, hstep]
      exact hrun
    · have hsame : e₁.outgoingOgwRequests = s.engine.outgoingOgwRequests := by
        obtain ⟨positionKeeper, -, h⟩ := bind_eq_ok hbbo
        rw [← Except.ok.inj h]
      have hnone : s.toOrderSession.sentNews { s.toOrderSession with engine := e₁ } = 0 := by
        simp only [OrderSession.sentNews, OrderSession.requests, hsame]
        exact Nat.sub_self _
      simp only [OrderSession.newsSent, runSum, hstep, hnone, Nat.zero_add]
      refine hsum.trans ?_
      simp only [OrderSession.sentNews, OrderSession.requests, sentNews, hsame]
      rfl

omit [Double D] [LE D] [DecidableLE D] in
theorem Quiet.process (h : s.Quiet) (rests cancels : Bool) :
    (s.adopt (s.toOrderSession.process rests cancels)).Quiet := by
  have hstill : s.toOrderSession.process rests cancels = s.toOrderSession := by
    simp only [OrderSession.process, OrderSession.requests, toOrderSession, h.1]
  rw [hstill]
  exact h

omit [Double D] [LE D] [DecidableLE D] in
theorem Quiet.fill (h : s.Quiet) (tickerId : TickerId) (orderId : OrderId) (price : Price)
    (execQty : Qty) : (s.adopt (s.toOrderSession.fill tickerId orderId price execQty)).Quiet := by
  have hstill : s.toOrderSession.fill tickerId orderId price execQty = s.toOrderSession := by
    simp only [OrderSession.fill, OrderSession.findOpen, toOrderSession, h.2.1, List.find?_nil]
  rw [hstill]
  exact h

omit [LE D] [DecidableLE D] in
theorem refines_deliver (hquiet : ¬ s.engine.algoType.Trades → s.Quiet) (h : s.deliver = .ok s') :
    s.toOrderSession.deliver = .ok s'.toOrderSession ∧ s'.engine.algoType = s.engine.algoType ∧
      (¬ s.engine.algoType.Trades → s' = s) := by
  unfold deliver at h
  cases hresponses : s.responses with
  | nil =>
    rw [hresponses] at h
    obtain rfl := Except.ok.inj h
    refine ⟨?_, rfl, fun _ ↦ rfl⟩
    simp only [OrderSession.deliver, toOrderSession, hresponses]
  | cons r responses =>
    rw [hresponses] at h
    have halgo : s.engine.algoType.Trades := by
      by_contra hidle
      exact absurd (hresponses.symm.trans (hquiet hidle).2.2) (List.cons_ne_nil r responses)
    obtain ⟨engine, hengine, h⟩ := bind_eq_ok h
    obtain rfl := Except.ok.inj h
    obtain ⟨hsame, hpart⟩ := RunningEngine.onOrderUpdate_of_trades halgo hengine
    refine ⟨?_, hsame, fun hidle ↦ absurd halgo hidle⟩
    simp only [OrderSession.deliver, toOrderSession, hresponses]
    rw [hpart, ok_bind]

/-- Books, features and algorithm decide only when the orders move, and to which prices. -/
theorem simulates : Simulates (step (D := D)) Honest sentNews OrderSession.step OrderSession.Honest
    OrderSession.sentNews Refines := by
  intro s e s' t ⟨ht, hquiet⟩ hhonest hstep
  subst ht
  cases e with
  | marketUpdate u =>
    obtain ⟨⟨es, hes, hrun, hsum⟩, halgo, hkeep⟩ := refines_marketUpdate hstep
    exact ⟨es, _, hes, hrun, ⟨rfl, fun hidle ↦ hkeep (halgo ▸ hidle) (hquiet (halgo ▸ hidle))⟩, hsum⟩
  | process rests cancels =>
    obtain rfl := Except.ok.inj hstep
    have hprocess : s.toOrderSession.step (.process rests cancels) =
        .ok (s.toOrderSession.process rests cancels) := rfl
    exact ⟨[.process rests cancels], _, (Guarded.cons_ok hprocess).mpr ⟨hhonest, trivial⟩,
      foldlM_singleton _ _ _, ⟨rfl, fun hidle ↦ (hquiet hidle).process rests cancels⟩,
      runSum_singleton hprocess⟩
  | fill tickerId orderId price execQty =>
    obtain rfl := Except.ok.inj hstep
    have hfill : s.toOrderSession.step (.fill tickerId orderId price execQty) =
        .ok (s.toOrderSession.fill tickerId orderId price execQty) := rfl
    exact ⟨[.fill tickerId orderId price execQty], _, (Guarded.cons_ok hfill).mpr ⟨trivial, trivial⟩,
      foldlM_singleton _ _ _, ⟨rfl, fun hidle ↦ (hquiet hidle).fill tickerId orderId price execQty⟩,
      runSum_singleton hfill⟩
  | deliver =>
    obtain ⟨hdeliver, halgo, hsame⟩ := refines_deliver hquiet hstep
    have hdeliver' : s.toOrderSession.step .deliver = .ok s'.toOrderSession := hdeliver
    refine ⟨[.deliver], _, (Guarded.cons_ok hdeliver').mpr ⟨trivial, trivial⟩,
      (foldlM_singleton _ _ _).trans hdeliver', ⟨rfl, fun hidle ↦ ?_⟩, runSum_singleton hdeliver'⟩
    rw [hsame (halgo ▸ hidle)]
    exact hquiet (halgo ▸ hidle)

section Run

variable {clientId : ClientId} {algoType : AlgoType} {riskCfg : TickerId → RiskCfg D}
  {tickerCfg : TickerId → TradeEngineCfg D} {tickerOrderBook : TickerId → Option MarketOrderBook}
  {events : List LiveEvent} {tickerId : TickerId}

def quoted : List LiveEvent :=
  [.marketUpdate ⟨.ADD, 1, 0, .BUY, 100, 10, 1⟩, .marketUpdate ⟨.ADD, 2, 0, .BUY, 100, 10, 2⟩,
    .marketUpdate ⟨.ADD, 3, 0, .SELL, 104, 10, 1⟩, .marketUpdate ⟨.ADD, 4, 0, .SELL, 104, 10, 2⟩,
    .process false false, .deliver, .fill 0 1 100 5, .deliver]

/-- Whatever the algorithm, the books and the market are, a run is one of a session of orders. -/
theorem refines_orderSession
    (hhonest : Guarded step Honest (new clientId algoType riskCfg tickerCfg tickerOrderBook) events)
    (hrun : events.foldlM step (new clientId algoType riskCfg tickerCfg tickerOrderBook) = .ok s) :
    ∃ es, Guarded OrderSession.step OrderSession.Honest (.new clientId riskCfg) es ∧
      es.foldlM OrderSession.step (.new clientId riskCfg) = .ok s.toOrderSession := by
  obtain ⟨es, t, hes, hrun', ⟨rfl, -⟩, -⟩ := simulates.run (t := .new clientId riskCfg)
    ⟨rfl, fun _ ↦ ⟨rfl, rfl, rfl⟩⟩ hhonest hrun
  exact ⟨es, hes, hrun'⟩

theorem refines_orderSession_quoted : ∃ (s : LiveSession ℚ) (es : List SessionEvent),
    quoted.foldlM step (new 1 .MAKER OrderSession.tenCfg RunningEngine.fiveClip RunningEngine.setBooks) = .ok s ∧
      s.toOrderSession.position 0 = 5 ∧
      es.foldlM OrderSession.step (.new 1 OrderSession.tenCfg) = .ok s.toOrderSession := by
  obtain ⟨s, hrun, hposition⟩ : ∃ s : LiveSession ℚ,
      quoted.foldlM step (new 1 .MAKER OrderSession.tenCfg RunningEngine.fiveClip RunningEngine.setBooks) = .ok s ∧
        s.toOrderSession.position 0 = 5 := Yields.exists_ok (by decide +kernel)
  obtain ⟨es, -, hes⟩ := refines_orderSession (by decide +kernel) hrun
  exact ⟨s, es, hrun, hposition, hes⟩

/-- The position, and what it becomes when all the orders of one side are filled, stay within the
limit, whatever the market does. -/
theorem live_position_limit
    (hcfg : (riskCfg tickerId).maxPosition + (riskCfg tickerId).maxOrderSize < 2 ^ 31)
    (hhonest : Guarded step Honest (new clientId algoType riskCfg tickerCfg tickerOrderBook) events)
    (hids : newsSent (new clientId algoType riskCfg tickerCfg tickerOrderBook) events < 2 ^ 64 - 1)
    (hrun : events.foldlM step (new clientId algoType riskCfg tickerCfg tickerOrderBook) = .ok s) :
    let limit : ℤ := (riskCfg tickerId).maxPosition
    s.toOrderSession.position tickerId + (s.toOrderSession.lane tickerId .BUY).unresolved ≤ limit ∧
      -limit ≤ s.toOrderSession.position tickerId -
        (s.toOrderSession.lane tickerId .SELL).unresolved := by
  dsimp only
  obtain ⟨es, t, hes, hrun', ⟨rfl, -⟩, hsum⟩ := simulates.run (t := .new clientId riskCfg)
    ⟨rfl, fun _ ↦ ⟨rfl, rfl, rfl⟩⟩ hhonest hrun
  have hids' : (OrderSession.new clientId riskCfg).newsSent es < 2 ^ 64 - 1 := hsum.trans_lt hids
  obtain ⟨hinv, hwithin⟩ :=
    OrderSession.within_of_run hcfg (hes.and (OrderSession.hasIds_of_newsSent hids')) hrun'
  exact hwithin.unresolved hinv

theorem live_position_limit_quoted : ∃ s : LiveSession ℚ,
    quoted.foldlM step (new 1 .MAKER OrderSession.tenCfg RunningEngine.fiveClip RunningEngine.setBooks) = .ok s ∧
      s.toOrderSession.position 0 + (s.toOrderSession.lane 0 .BUY).unresolved ≤ 10 := by
  obtain ⟨s, hrun, -⟩ : ∃ s : LiveSession ℚ,
      quoted.foldlM step (new 1 .MAKER OrderSession.tenCfg RunningEngine.fiveClip RunningEngine.setBooks) = .ok s ∧
        s.toOrderSession.position 0 = 5 := Yields.exists_ok (by decide +kernel)
  have hcfg : (OrderSession.tenCfg 0).maxPosition + (OrderSession.tenCfg 0).maxOrderSize < 2 ^ 31 := by
    decide
  exact ⟨s, hrun, (live_position_limit hcfg (by decide +kernel) (by decide +kernel) hrun).1⟩

end Run

end LiveSession

end LowLatency.Trading
