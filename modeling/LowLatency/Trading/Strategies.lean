import LowLatency.Trading.FeatureEngine
import LowLatency.Trading.Quoting

namespace LowLatency.Trading

open Common Exchange

/-- The members that both strategies have. Arguments that are only logged are left out below. -/
structure Strategy (D : Type) where
  featureEngine : FeatureEngine D
  orderManager : OrderManager
  tickerCfg : TickerId → TradeEngineCfg D

variable {D : Type} [Sub D] [IntCast D] [LT D] [DecidableLT D] [LE D] [DecidableLE D]

/-- `feature >= threshold`, which is false of a feature that is not a number. -/
def Reaches (threshold : D) : Option D → Prop
  | some feature => threshold ≤ feature
  | none => False

instance (threshold : D) : DecidablePred (Reaches threshold)
  | some _ => inferInstanceAs (Decidable (_ ≤ _))
  | none => inferInstanceAs (Decidable False)

/-- `m_ticker_cfg.at(ticker_id)` -/
def Strategy.cfg (s : Strategy D) (tickerId : TickerId) : Except Fault (TradeEngineCfg D) :=
  if tickerId < ME_MAX_TICKERS then .ok (s.tickerCfg tickerId) else .error .outOfRange

namespace MarketMaker

/-- The bid improves on nothing: it joins the best one, or stays one behind it. -/
def bidPrice (threshold : D) (fairPrice : Option D) (bbo : BBO) : Price :=
  toInt64 (bbo.bidPrice -
    if Reaches threshold (fairPrice.map (· - (bbo.bidPrice : D))) then 0 else 1)

def askPrice (threshold : D) (fairPrice : Option D) (bbo : BBO) : Price :=
  toInt64 (bbo.askPrice +
    if Reaches threshold (fairPrice.map ((bbo.askPrice : D) - ·)) then 0 else 1)

/-- The comparison of the fair price with `Feature_INVALID` is true of every value. -/
def onOrderBookUpdate (s : Strategy D) (clientId : ClientId) (risk : RiskManager D)
    (tickerId : TickerId) (bbo : BBO) : Except Fault (OrderManager × List MEClientRequest) :=
  if bbo.Valid then do
    let cfg ← s.cfg tickerId
    let fairPrice := s.featureEngine.mktPrice
    s.orderManager.moveOrders clientId risk tickerId (bidPrice cfg.threshold fairPrice bbo)
      (askPrice cfg.threshold fairPrice bbo) cfg.clip
  else .ok (s.orderManager, [])

end MarketMaker

namespace LiquidityTaker

def onTradeUpdate (s : Strategy D) (clientId : ClientId) (risk : RiskManager D)
    (u : MEMarketUpdate) (bbo : BBO) : Except Fault (OrderManager × List MEClientRequest) :=
  if bbo.Valid then do
    let cfg ← s.cfg u.tickerId
    if Reaches cfg.threshold s.featureEngine.aggTradeQtyRatio then
      if u.side = .BUY then
        s.orderManager.moveOrders clientId risk u.tickerId bbo.askPrice Price_INVALID cfg.clip
      else
        s.orderManager.moveOrders clientId risk u.tickerId Price_INVALID bbo.bidPrice cfg.clip
    else .ok (s.orderManager, [])
  else .ok (s.orderManager, [])

end LiquidityTaker

namespace MarketMaker

/-- The best bid is the smallest price there is, and the bid is to be one below it. -/
def Lowest (threshold : D) (fairPrice : Option D) (bbo : BBO) : Prop :=
  bbo.bidPrice = -2 ^ 63 ∧ ¬ Reaches threshold (fairPrice.map (· - (bbo.bidPrice : D)))

def Sells (s : Strategy D) (risk : RiskManager D) (tickerId : TickerId) (bbo : BBO) : Prop :=
  let cfg := s.tickerCfg tickerId
  tickerId < ME_MAX_TICKERS ∧ bbo.Valid ∧ s.orderManager.Ready risk tickerId .SELL cfg.clip ∧
    ¬ Lowest cfg.threshold s.featureEngine.mktPrice bbo

instance (s : Strategy D) (risk : RiskManager D) (tickerId : TickerId) (bbo : BBO) :
    Decidable (Sells s risk tickerId bbo) :=
  inferInstanceAs (Decidable (_ ∧ _ ∧ _ ∧ ¬ (_ ∧ _)))

end MarketMaker

namespace LiquidityTaker

/-- A new order of the side `SELL` is sent after a trade of a buyer. -/
def Sells (s : Strategy D) (risk : RiskManager D) (u : MEMarketUpdate) (bbo : BBO) : Prop :=
  let cfg := s.tickerCfg u.tickerId
  u.tickerId < ME_MAX_TICKERS ∧ bbo.Valid ∧ u.side = .BUY ∧
    Reaches cfg.threshold s.featureEngine.aggTradeQtyRatio ∧
    s.orderManager.Ready risk u.tickerId .SELL cfg.clip

instance (s : Strategy D) (risk : RiskManager D) (u : MEMarketUpdate) (bbo : BBO) :
    Decidable (Sells s risk u bbo) :=
  inferInstanceAs (Decidable (_ ∧ _ ∧ _ ∧ _ ∧ _))

end LiquidityTaker

/-- New orders that do not meet the other side of the book. -/
def Passive (bbo : BBO) (requests : List MEClientRequest) : Prop :=
  ∀ r ∈ requests, r.type = .NEW →
    (r.side = .SELL → bbo.askPrice ≤ r.price) ∧ (r.side = .BUY → r.price ≤ bbo.bidPrice)

def OneSided (side : Side) (requests : List MEClientRequest) : Prop :=
  ∀ r ∈ requests, r.type = .NEW → r.side = side

variable {s : Strategy D} {clientId : ClientId} {risk : RiskManager D} {tickerId : TickerId}
  {bbo : BBO} {u : MEMarketUpdate}

omit [Sub D] [IntCast D] [LT D] [DecidableLT D] [LE D] [DecidableLE D] in
theorem Strategy.eq_of_cfg {cfg : TradeEngineCfg D} (h : s.cfg tickerId = .ok cfg) :
    cfg = s.tickerCfg tickerId := by
  unfold Strategy.cfg at h
  split_ifs at h
  exact (Except.ok.inj h).symm

section MarketMaker

omit [LT D] [DecidableLT D] in
/-- One below the smallest price is the largest one, which is no price. -/
theorem bidPrice_cases (threshold : D) (fairPrice : Option D) (hlow : -2 ^ 63 ≤ bbo.bidPrice)
    (hhigh : bbo.bidPrice < 2 ^ 63) :
    (MarketMaker.Lowest threshold fairPrice bbo ∧
        MarketMaker.bidPrice threshold fairPrice bbo = Price_INVALID) ∨
      (¬ MarketMaker.Lowest threshold fairPrice bbo ∧
        MarketMaker.bidPrice threshold fairPrice bbo ≤ bbo.bidPrice ∧
        (bbo.bidPrice ≠ Price_INVALID →
          MarketMaker.bidPrice threshold fairPrice bbo ≠ Price_INVALID)) := by
  unfold MarketMaker.Lowest MarketMaker.bidPrice
  split_ifs with hreaches
  · have hsame : toInt64 (bbo.bidPrice - 0) = bbo.bidPrice := by
      rw [sub_zero]
      exact toInt64_of_fits ⟨hlow, hhigh⟩
    rw [hsame]
    exact .inr ⟨fun h ↦ h.2 hreaches, le_rfl, id⟩
  · by_cases hlowest : bbo.bidPrice = -2 ^ 63
    · refine .inl ⟨⟨hlowest, hreaches⟩, ?_⟩
      rw [hlowest]
      decide
    · have hbelow : toInt64 (bbo.bidPrice - 1) = bbo.bidPrice - 1 := by
        refine toInt64_of_fits ⟨?_, (sub_one_lt _).trans hhigh⟩
        exact Int.le_sub_one_of_lt (lt_of_le_of_ne hlow (Ne.symm hlowest))
      rw [hbelow]
      refine .inr ⟨fun h ↦ hlowest h.1, (sub_one_lt _).le, fun _ ↦ ?_⟩
      apply ne_of_lt
      exact (sub_lt_sub_right hhigh 1).trans_eq (by decide)

/-- New orders are passive unless the side `SELL` sends one, which it does at the bid. -/
theorem passive_iff (hlow : -2 ^ 63 ≤ bbo.bidPrice) (hhigh : bbo.askPrice < 2 ^ 63)
    (hcross : bbo.bidPrice < bbo.askPrice) :
    (∀ result, MarketMaker.onOrderBookUpdate s clientId risk tickerId bbo = .ok result →
      Passive bbo result.2) ↔ ¬ MarketMaker.Sells s risk tickerId bbo := by
  unfold MarketMaker.onOrderBookUpdate MarketMaker.Sells
  by_cases hvalid : bbo.Valid
  · by_cases ht : tickerId < ME_MAX_TICKERS
    · simp only [if_pos hvalid, Strategy.cfg, if_pos ht, ok_bind]
      refine (OrderManager.moveOrders_new_iff fun side price ↦
        (side = .SELL → bbo.askPrice ≤ price) ∧ (side = .BUY → price ≤ bbo.bidPrice)).trans ?_
      simp only [ht, hvalid, true_imp_iff, true_and, OrderManager.Admits, reduceCtorEq,
        false_imp_iff, and_true]
      rcases bidPrice_cases (s.tickerCfg tickerId).threshold s.featureEngine.mktPrice hlow
        (hcross.trans hhigh) with ⟨hlowest, hprice⟩ | ⟨hlowest, hle, hprice⟩
      · simp [hlowest, hprice]
      · have hne := hprice hvalid.1
        have habove := (hle.trans_lt hcross).not_ge
        simp [hlowest, hne, hle, habove]
    · simp [hvalid, ht, Strategy.cfg]
  · simp [hvalid, Passive]

end MarketMaker

section LiquidityTaker

omit [Sub D] [IntCast D] in
theorem oneSided_iff : (∀ result, LiquidityTaker.onTradeUpdate s clientId risk u bbo = .ok result →
    OneSided u.side result.2) ↔ ¬ LiquidityTaker.Sells s risk u bbo := by
  unfold LiquidityTaker.onTradeUpdate LiquidityTaker.Sells
  by_cases hvalid : bbo.Valid
  · by_cases ht : u.tickerId < ME_MAX_TICKERS
    · simp only [if_pos hvalid, Strategy.cfg, if_pos ht, ok_bind]
      split_ifs with hreaches hside
      · refine (OrderManager.moveOrders_new_iff fun side _ ↦ side = u.side).trans ?_
        simp [ht, hvalid, hside, hreaches, OrderManager.Admits, hvalid.2]
      · refine (OrderManager.moveOrders_new_iff fun side _ ↦ side = u.side).trans ?_
        simp [hside, OrderManager.Admits]
      · simp [hreaches, OneSided]
    · simp [hvalid, ht, Strategy.cfg]
  · simp [hvalid, OneSided]

end LiquidityTaker

section Quotes

variable {bidPrice askPrice : Price} {clip : Qty}

omit [Sub D] [IntCast D] [LE D] [DecidableLE D] in
theorem follows_iff {m : OrderManager} :
    (∀ result, m.moveOrders clientId risk tickerId bidPrice askPrice clip = .ok result →
      m.Follows clientId tickerId bidPrice askPrice clip result) ↔
    (tickerId < ME_MAX_TICKERS → m.Indifferent risk tickerId bidPrice askPrice clip) := by
  rw [OrderManager.indifferent_iff]
  constructor
  · intro hall ht
    obtain ⟨result, h⟩ := m.moveOrders_ok clientId risk bidPrice askPrice clip ht
    exact (OrderManager.follows_iff_sell h).mp (hall result h)
  · intro hsell result h
    exact (OrderManager.follows_iff_sell h).mpr (hsell (OrderManager.lt_of_moveOrders h))

/-- The prices of the strategies are those of their orders if and only if the order of the side
`SELL` does not depend on which of the two it gets. -/
theorem quotes_iff (s : Strategy D) (clientId : ClientId) (risk : RiskManager D) (tickerId : TickerId)
    (bidPrice askPrice : Price) (clip : Qty) (bbo : BBO) (u : MEMarketUpdate) :
    ((∀ result, s.orderManager.moveOrders clientId risk tickerId bidPrice askPrice clip = .ok result →
        s.orderManager.Follows clientId tickerId bidPrice askPrice clip result) ↔
      (tickerId < ME_MAX_TICKERS →
        s.orderManager.Indifferent risk tickerId bidPrice askPrice clip)) ∧
    (-2 ^ 63 ≤ bbo.bidPrice → bbo.askPrice < 2 ^ 63 → bbo.bidPrice < bbo.askPrice →
      ((∀ result, MarketMaker.onOrderBookUpdate s clientId risk tickerId bbo = .ok result →
        Passive bbo result.2) ↔ ¬ MarketMaker.Sells s risk tickerId bbo)) ∧
    ((∀ result, LiquidityTaker.onTradeUpdate s clientId risk u bbo = .ok result →
        OneSided u.side result.2) ↔ ¬ LiquidityTaker.Sells s risk u bbo) :=
  ⟨follows_iff, fun hlow hhigh hcross ↦ passive_iff hlow hhigh hcross, oneSided_iff⟩

def wide : BBO := ⟨100, 102, 10, 10⟩

def lenient : RiskManager ℚ := fun _ ↦ .limited 0 100 100

def quoting (m : OrderManager) : Strategy ℚ where
  featureEngine := ⟨some 101, some 5⟩
  orderManager := m
  tickerCfg := fun _ ↦ ⟨10, 1 / 2⟩

def sold : OrderManager := OrderManager.new.setOrder 0 .SELL ⟨0, 1, .SELL, 102, 10, .PENDING_NEW⟩

theorem quotes_sold :
    (∀ result, sold.moveOrders 1 lenient 0 100 102 10 = .ok result →
      sold.Follows 1 0 100 102 10 result) ∧
    (∀ result, MarketMaker.onOrderBookUpdate (quoting sold) 1 lenient 0 wide = .ok result →
      Passive wide result.2) ∧
    (∀ result, LiquidityTaker.onTradeUpdate (quoting sold) 1 lenient
        ⟨.TRADE, 1, 0, .BUY, 102, 50, 1⟩ wide = .ok result → OneSided .BUY result.2) := by
  obtain ⟨hfollows, hpassive, honeSided⟩ := quotes_iff (quoting sold) 1 lenient 0 100 102 10 wide
    ⟨.TRADE, 1, 0, .BUY, 102, 50, 1⟩
  exact ⟨hfollows.mpr fun _ ↦ .inr trivial, (hpassive (by decide) (by decide) (by decide)).mpr (by decide),
    honeSided.mpr (by decide +kernel)⟩

/-- A new order to sell at 102 is sent with the price 100. -/
theorem sell_at_bid : ¬ ∀ result, OrderManager.new.moveOrders 1 lenient 0 100 102 10 = .ok result →
    OrderManager.new.Follows 1 0 100 102 10 result := fun h ↦
  absurd ((h _ rfl).price ⟨.NEW, 1, 0, 2, .SELL, 100, 10⟩ (by decide +kernel) rfl) (by decide)

end Quotes

end LowLatency.Trading
