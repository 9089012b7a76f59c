import LowLatency.Trading.Strategies

namespace LowLatency.Trading

open Common Exchange

def mirrorSide : Side → Side
  | .BUY => .SELL
  | .SELL => .BUY
  | .INVALID => .INVALID

namespace BBO

def mirror (bbo : BBO) : BBO := { bbo with bidQty := bbo.askQty, askQty := bbo.bidQty }

/-- The quantity at the best level that the aggressor of a trade meets. -/
def restingQty (bbo : BBO) : Side → Qty
  | .BUY => bbo.askQty
  | .SELL | .INVALID => bbo.bidQty

end BBO

def mirrorTrade (u : MEMarketUpdate) : MEMarketUpdate := { u with side := mirrorSide u.side }

def OrderManager.mirror (m : OrderManager) : OrderManager :=
  { m with tickerSideOrder := fun tickerId side ↦ m.tickerSideOrder tickerId (mirrorSide side) }

def RiskInfo.mirror {D : Type} (i : RiskInfo D) : RiskInfo D :=
  { i with positionInfo := { i.positionInfo with position := -i.positionInfo.position } }

def mirrorRisk {D : Type} (risk : RiskManager D) : RiskManager D := fun tickerId ↦ (risk tickerId).mirror

def Strategy.mirror {D : Type} (s : Strategy D) : Strategy D :=
  { s with orderManager := s.orderManager.mirror }

namespace LiquidityTaker

/-- `TradeEngine::onTradeUpdate` where the algorithm is the taker: first the feature is computed. -/
def onTrade (s : Strategy ℚ) (clientId : ClientId) (risk : RiskManager ℚ) (u : MEMarketUpdate)
    (bbo : BBO) : Except Fault (OrderManager × List MEClientRequest) :=
  onTradeUpdate { s with featureEngine := s.featureEngine.onTradeUpdate u bbo } clientId risk u bbo

def Acts (s : Strategy ℚ) (u : MEMarketUpdate) (bbo : BBO) : Prop :=
  Reaches (s.tickerCfg u.tickerId).threshold (s.featureEngine.onTradeUpdate u bbo).aggTradeQtyRatio

structure Proportional (f : FeatureEngine ℚ) (u : MEMarketUpdate) (bbo : BBO) : Prop where
  divisor : bbo.aggressedQty u.side ≠ 0
  ratio : (f.onTradeUpdate u bbo).aggTradeQtyRatio = some ((u.qty : ℚ) / bbo.restingQty u.side)

def Sends (requests : List MEClientRequest) (side : Side) : Prop :=
  ∃ r ∈ requests, r.type = .NEW ∧ r.side = side

/-- A trade and its mirror image have the same ratio, and lead to the same decision and to new orders
of opposite sides. -/
structure Symmetric (s : Strategy ℚ) (clientId : ClientId) (risk : RiskManager ℚ)
    (u : MEMarketUpdate) (bbo : BBO) : Prop where
  proportional : Proportional s.featureEngine u bbo
  mirrored : Proportional s.featureEngine (mirrorTrade u) bbo.mirror
  ratio : (s.featureEngine.onTradeUpdate (mirrorTrade u) bbo.mirror).aggTradeQtyRatio =
    (s.featureEngine.onTradeUpdate u bbo).aggTradeQtyRatio
  acts : Acts s.mirror (mirrorTrade u) bbo.mirror ↔ Acts s u bbo
  orders : ∀ result result', onTrade s clientId risk u bbo = .ok result →
    onTrade s.mirror clientId (mirrorRisk risk) (mirrorTrade u) bbo.mirror = .ok result' →
    ∀ side, Sends result.2 side ↔ Sends result'.2 (mirrorSide side)

/-- The price of the bid is also the quantity that the trade met, and no new order comes of it. -/
structure Balanced (s : Strategy ℚ) (risk : RiskManager ℚ) (u : MEMarketUpdate) (bbo : BBO) : Prop where
  price : bbo.bidPrice ≠ 0
  qty : u.qty = 0 ∨ bbo.bidPrice = bbo.restingQty u.side
  still : (s.tickerCfg u.tickerId).threshold ≤ (u.qty : ℚ) / bbo.restingQty u.side →
    ∀ side, side ≠ .INVALID →
      ¬ s.orderManager.Ready risk u.tickerId side (s.tickerCfg u.tickerId).clip

end LiquidityTaker

section Mirror

variable {D : Type} [LT D] [DecidableLT D]

theorem mirrorSide_mirrorSide (side : Side) : mirrorSide (mirrorSide side) = side := by
  cases side <;> rfl

theorem checkPreTradeRisk_mirror (i : RiskInfo D) (side : Side) (qty : Qty) :
    i.mirror.checkPreTradeRisk (mirrorSide side) qty = i.checkPreTradeRisk side qty := by
  have hreach : i.mirror.reach (mirrorSide side) qty = -i.reach side qty := by
    unfold RiskInfo.reach RiskInfo.mirror
    cases side <;> simp only [mirrorSide, sideToValue] <;> ring
  unfold RiskInfo.checkPreTradeRisk
  rw [RiskInfo.toInt32_reach, RiskInfo.toInt32_reach, hreach, absInt32_toInt32_neg]
  rfl

theorem mirror_tickerSideOrder (m : OrderManager) (tickerId : TickerId) (side : Side) :
    m.mirror.tickerSideOrder tickerId (mirrorSide side) = m.tickerSideOrder tickerId side :=
  congrArg (m.tickerSideOrder tickerId) (mirrorSide_mirrorSide side)

theorem ready_mirror (m : OrderManager) (risk : RiskManager D) (tickerId : TickerId) (side : Side)
    (qty : Qty) : m.mirror.Ready (mirrorRisk risk) tickerId (mirrorSide side) qty ↔
      m.Ready risk tickerId side qty := by
  unfold OrderManager.Ready OrderManager.Vacant RiskManager.checkPreTradeRisk
  rw [mirrorRisk, checkPreTradeRisk_mirror, mirror_tickerSideOrder]

end Mirror

namespace LiquidityTaker

variable {s : Strategy ℚ} {f : FeatureEngine ℚ} {clientId : ClientId} {risk : RiskManager ℚ}
  {u : MEMarketUpdate} {bbo : BBO}

section Ratio

theorem aggTradeQtyRatio_eq (hvalid : bbo.Valid) : (f.onTradeUpdate u bbo).aggTradeQtyRatio =
    some ((u.qty : ℚ) / (bbo.aggressedQty u.side : ℚ)) := by
  rw [FeatureEngine.onTradeUpdate, if_pos hvalid, Int.cast_natCast]

/-- The ratio is right after a trade of a buyer, and after one of a seller if the price of the bid
happens to be the quantity of the bid. -/
theorem proportional_iff (hvalid : bbo.Valid) (hask : 0 < bbo.askQty)
    (hside : u.side ≠ .INVALID) : Proportional f u bbo ↔
      u.side = .BUY ∨ (bbo.bidPrice ≠ 0 ∧ (u.qty = 0 ∨ bbo.bidPrice = bbo.bidQty)) := by
  cases hu : u.side with
  | INVALID => exact absurd hu hside
  | BUY =>
    have haggressed : bbo.aggressedQty .BUY = bbo.askQty := rfl
    refine iff_of_true ⟨?_, ?_⟩ (.inl rfl)
    · rw [hu, haggressed]
      exact_mod_cast hask.ne'
    · rw [aggTradeQtyRatio_eq hvalid, hu, haggressed, Int.cast_natCast, BBO.restingQty]
  | SELL =>
    have haggressed : bbo.aggressedQty .SELL = bbo.bidPrice := rfl
    have hratio : (u.qty : ℚ) / (bbo.bidPrice : ℚ) = u.qty / bbo.bidQty ↔
        u.qty = 0 ∨ bbo.bidPrice = bbo.bidQty := by
      by_cases hqty : u.qty = 0
      · simp [hqty]
      · have hqty' : (u.qty : ℚ) ≠ 0 := by exact_mod_cast hqty
        rw [div_eq_mul_inv, div_eq_mul_inv, mul_right_inj' hqty', inv_inj]
        simp only [hqty, false_or]
        norm_cast
    constructor
    · rintro ⟨hdivisor, heq⟩
      rw [aggTradeQtyRatio_eq hvalid, hu, haggressed, Option.some.injEq] at heq
      rw [hu, haggressed] at hdivisor
      exact .inr ⟨hdivisor, hratio.mp heq⟩
    · rintro (h | ⟨hdivisor, heq⟩)
      · cases h
      · refine ⟨hu ▸ hdivisor, ?_⟩
        rw [aggTradeQtyRatio_eq hvalid, hu, haggressed]
        exact congrArg some (hratio.mpr heq)

theorem proportional_both_iff (hvalid : bbo.Valid) (hbid : 0 < bbo.bidQty) (hask : 0 < bbo.askQty)
    (hside : u.side ≠ .INVALID) :
    Proportional f u bbo ∧ Proportional f (mirrorTrade u) bbo.mirror ↔
      bbo.bidPrice ≠ 0 ∧ (u.qty = 0 ∨ bbo.bidPrice = bbo.restingQty u.side) := by
  have hvalid' : bbo.mirror.Valid := hvalid
  have hside' : (mirrorTrade u).side ≠ .INVALID := by
    intro h
    exact hside ((mirrorSide_mirrorSide u.side).symm.trans (congrArg mirrorSide h))
  rw [proportional_iff hvalid hask hside, proportional_iff hvalid' hbid hside']
  cases hu : u.side with
  | INVALID => exact absurd hu hside
  | BUY => simp [mirrorTrade, hu, mirrorSide, BBO.mirror, BBO.restingQty]
  | SELL => simp [mirrorTrade, hu, mirrorSide, BBO.restingQty]

end Ratio

section Orders

variable {result : OrderManager × List MEClientRequest}

theorem sends_iff (hvalid : bbo.Valid) (h : onTrade s clientId risk u bbo = .ok result) (side : Side) :
    Sends result.2 side ↔ u.side = .BUY ∧ Acts s u bbo ∧ side ≠ .INVALID ∧
      s.orderManager.Ready risk u.tickerId side (s.tickerCfg u.tickerId).clip := by
  unfold onTrade onTradeUpdate at h
  rw [if_pos hvalid] at h
  obtain ⟨cfg, hcfg, h⟩ := bind_eq_ok h
  obtain rfl := Strategy.eq_of_cfg hcfg
  have hnone : Sends result.2 side ↔ ¬ ∀ r ∈ result.2, r.type = .NEW → r.side ≠ side := by
    unfold Sends
    push Not
    rfl
  rw [hnone]
  split_ifs at h with hreaches hbuy
  · have hacts : Acts s u bbo := hreaches
    have hprice := hvalid.2
    rw [OrderManager.forall_new_iff h fun side' _ ↦ side' ≠ side]
    cases side with
    | INVALID => simp
    | BUY => simp [OrderManager.Admits, hprice, hbuy, hacts]
    | SELL => simp [OrderManager.Admits, hprice, hbuy, hacts]
  · rw [OrderManager.forall_new_iff h fun side' _ ↦ side' ≠ side]
    simp [hbuy, OrderManager.Admits]
  · have hacts : ¬ Acts s u bbo := hreaches
    cases h
    simp [hacts]

theorem onTrade_ok (s : Strategy ℚ) (clientId : ClientId) (risk : RiskManager ℚ)
    (hvalid : bbo.Valid) (ht : u.tickerId < ME_MAX_TICKERS) :
    ∃ result, onTrade s clientId risk u bbo = .ok result := by
  unfold onTrade onTradeUpdate
  rw [if_pos hvalid, Strategy.cfg, if_pos ht, ok_bind]
  split_ifs
  · exact OrderManager.moveOrders_ok _ clientId risk _ _ _ ht
  · exact OrderManager.moveOrders_ok _ clientId risk _ _ _ ht
  · exact ⟨_, rfl⟩

theorem sends_mirror_iff {result' : OrderManager × List MEClientRequest} (hvalid : bbo.Valid)
    (hside : u.side ≠ .INVALID) (hacts : Acts s.mirror (mirrorTrade u) bbo.mirror ↔ Acts s u bbo)
    (h : onTrade s clientId risk u bbo = .ok result)
    (h' : onTrade s.mirror clientId (mirrorRisk risk) (mirrorTrade u) bbo.mirror = .ok result')
    (side : Side) : (Sends result.2 side ↔ Sends result'.2 (mirrorSide side)) ↔
      ¬ (Acts s u bbo ∧ side ≠ .INVALID ∧
        s.orderManager.Ready risk u.tickerId side (s.tickerCfg u.tickerId).clip) := by
  have hvalid' : bbo.mirror.Valid := hvalid
  have hready := ready_mirror s.orderManager risk u.tickerId side (s.tickerCfg u.tickerId).clip
  have hne : mirrorSide side ≠ .INVALID ↔ side ≠ .INVALID := by cases side <;> simp [mirrorSide]
  rw [sends_iff hvalid h, sends_iff hvalid' h', hacts, hne]
  simp only [Strategy.mirror, mirrorTrade]
  rw [hready]
  cases hu : u.side with
  | INVALID => exact absurd hu hside
  | BUY => simp [mirrorSide]
  | SELL => simp [mirrorSide]

theorem restingQty_mirror (bbo : BBO) (hside : u.side ≠ .INVALID) :
    bbo.mirror.restingQty (mirrorTrade u).side = bbo.restingQty u.side := by
  cases hu : u.side with
  | INVALID => exact absurd hu hside
  | BUY | SELL => simp [mirrorTrade, hu, mirrorSide, BBO.restingQty, BBO.mirror]

theorem Proportional.acts_iff (h : Proportional s.featureEngine u bbo) : Acts s u bbo ↔
    (s.tickerCfg u.tickerId).threshold ≤ (u.qty : ℚ) / bbo.restingQty u.side := by
  rw [Acts, h.ratio]
  rfl

theorem symmetric_iff (hvalid : bbo.Valid) (hbid : 0 < bbo.bidQty) (hask : 0 < bbo.askQty)
    (hside : u.side ≠ .INVALID) (ht : u.tickerId < ME_MAX_TICKERS) :
    Symmetric s clientId risk u bbo ↔ Balanced s risk u bbo := by
  have hboth := proportional_both_iff (f := s.featureEngine) hvalid hbid hask hside
  constructor
  · rintro ⟨hp, hp', -, hacts, horders⟩
    obtain ⟨hprice, hqty⟩ := hboth.mp ⟨hp, hp'⟩
    refine ⟨hprice, hqty, fun hreaches side hne hready ↦ ?_⟩
    obtain ⟨result, h⟩ := onTrade_ok s clientId risk hvalid ht
    obtain ⟨result', h'⟩ : ∃ result', onTrade s.mirror clientId (mirrorRisk risk) (mirrorTrade u)
        bbo.mirror = .ok result' := onTrade_ok s.mirror clientId (mirrorRisk risk) hvalid ht
    have hsends := horders result result' h h' side
    rw [sends_mirror_iff hvalid hside hacts h h' side] at hsends
    exact hsends ⟨hp.acts_iff.mpr hreaches, hne, hready⟩
  · rintro ⟨hprice, hqty, hstill⟩
    obtain ⟨hp, hp'⟩ := hboth.mpr ⟨hprice, hqty⟩
    have hratio : (s.featureEngine.onTradeUpdate (mirrorTrade u) bbo.mirror).aggTradeQtyRatio =
        (s.featureEngine.onTradeUpdate u bbo).aggTradeQtyRatio := by
      rw [hp.ratio, hp'.ratio, restingQty_mirror bbo hside]
      rfl
    have hacts : Acts s.mirror (mirrorTrade u) bbo.mirror ↔ Acts s u bbo := by
      unfold Acts
      rw [← hratio]
      rfl
    refine ⟨hp, hp', hratio, hacts, fun result result' h h' side ↦ ?_⟩
    rw [sends_mirror_iff hvalid hside hacts h h' side]
    rintro ⟨hreaches, hne, hready⟩
    exact hstill (hp.acts_iff.mp hreaches) side hne hready

end Orders

/-- Which trades have the right ratio, and which are treated as their mirror images are. -/
theorem aggressor_iff (s : Strategy ℚ) (clientId : ClientId) (risk : RiskManager ℚ)
    (u : MEMarketUpdate) (bbo : BBO) (hvalid : bbo.Valid) (hbid : 0 < bbo.bidQty)
    (hask : 0 < bbo.askQty) (hside : u.side ≠ .INVALID) (ht : u.tickerId < ME_MAX_TICKERS) :
    (Proportional s.featureEngine u bbo ↔
      u.side = .BUY ∨ (bbo.bidPrice ≠ 0 ∧ (u.qty = 0 ∨ bbo.bidPrice = bbo.bidQty))) ∧
    (Symmetric s clientId risk u bbo ↔ Balanced s risk u bbo) :=
  ⟨proportional_iff hvalid hask hside, symmetric_iff hvalid hbid hask hside ht⟩

def settled : OrderManager := sold.setOrder 0 .BUY ⟨0, 2, .BUY, 12, 10, .LIVE⟩

theorem aggressor_settled : Proportional (quoting settled).featureEngine
      ⟨.TRADE, 1, 0, .SELL, 10, 50, 1⟩ ⟨10, 12, 10, 5⟩ ∧
    Symmetric (quoting settled) 1 lenient ⟨.TRADE, 1, 0, .SELL, 10, 50, 1⟩ ⟨10, 12, 10, 5⟩ := by
  obtain ⟨hproportional, hsymmetric⟩ := aggressor_iff (quoting settled) 1 lenient
    ⟨.TRADE, 1, 0, .SELL, 10, 50, 1⟩ ⟨10, 12, 10, 5⟩ (by decide) (by decide) (by decide) (by decide)
    (by decide)
  refine ⟨hproportional.mpr (.inr ⟨by decide, .inr rfl⟩),
    hsymmetric.mpr ⟨by decide, .inr rfl, fun _ side hne hready ↦ ?_⟩⟩
  cases side with
  | INVALID => exact hne rfl
  | BUY | SELL => exact absurd hready (by decide)

/-- Fifty that meet ten at the price 100 have the ratio one half. -/
theorem not_proportional_sell :
    ¬ Proportional .new ⟨.TRADE, 1, 0, .SELL, 100, 50, 1⟩ ⟨100, 102, 10, 10⟩ := fun h ↦
  absurd h.ratio (by decide +kernel)

end LiquidityTaker

end LowLatency.Trading
