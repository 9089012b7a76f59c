import LowLatency.Trading.SessionLanes

namespace LowLatency.Trading

open Common Exchange

/-- What a slot may yet add to the position. -/
def OMOrder.exposure (order : OMOrder) : Qty :=
  match order.orderState with
  | .INVALID | .DEAD => 0
  | .PENDING_NEW | .LIVE | .PENDING_CANCEL => order.qty

/-- The quantity on its way to the exchange, open there, and on its way back. -/
def Lane.unresolved (l : Lane) : Qty :=
  (l.news.map (·.qty)).sum + leavesSum l.opens + execSum l.resps

namespace Lane.Phase

variable {l : Lane} {r : MEClientResponse} {resps : List MEClientResponse}

theorem unresolved_le (h : l.Phase) : l.unresolved ≤ l.order.exposure := by
  unfold unresolved OMOrder.exposure
  cases h with
  | idle _ hnews hopens hresps => simp [hnews, hopens, hresps, leavesSum, execSum]
  | sent hstate hnews _ hqty hopens hresps =>
    simp [hstate, hnews, hqty, hopens, hresps, leavesSum, execSum]
  | accepted hstate hnews hresps ht _ hf =>
    have hskip : execSum l.resps = execSum (l.resps.tail) := by simp [hresps, execSum, ht]
    rw [hstate, hnews, hskip, hresps, add_comm]
    simpa [add_comm] using hf.sum_le
  | live hstate hnews hf | canceling hstate hnews hf =>
    rw [hstate, hnews]
    simpa [add_comm] using hf.sum_le

theorem exposure_applyResponse (h : l.Phase) (hresps : l.resps = r :: resps) :
    let order := OrderManager.applyResponse l.order r
    order.exposure ≤ l.order.exposure ∧
      (r.type = .FILLED → r.execQty + order.exposure = l.order.exposure) := by
  dsimp only
  cases h with
  | accepted hstate _ hresps' ht =>
    obtain ⟨rfl, -⟩ := List.cons.inj (hresps.symm.trans hresps')
    rw [OrderManager.applyResponse_accepted ht]
    exact ⟨by simp [OMOrder.exposure, hstate], fun ht' ↦ by simp [ht] at ht'⟩
  | live hstate _ hf | canceling hstate _ hf =>
    have hexposure : l.order.exposure = l.order.qty := by simp [OMOrder.exposure, hstate]
    rw [hresps] at hf
    rw [hexposure]
    rcases hf.deliver with ⟨ht, h0, hqty, -⟩ | ⟨⟨ht, h0, hqty⟩ | ht, -, -⟩
    · rw [OrderManager.applyResponse_fill ht h0, ← hqty]
      simp [OMOrder.exposure, hstate]
    · rw [OrderManager.applyResponse_filled ht h0, ← hqty]
      simp [OMOrder.exposure]
    · rw [OrderManager.applyResponse_canceled ht]
      simp [OMOrder.exposure, ht]
  | idle _ _ _ hresps' => simp [hresps'] at hresps
  | sent _ _ _ _ _ hresps' => simp [hresps'] at hresps

end Lane.Phase

namespace OrderSession

variable {D : Type} {s s' : OrderSession D} {riskCfg : TickerId → RiskCfg D}
  {tickerId : TickerId}

/-- The order manager keeps to the limit, whatever becomes of the orders that are not resolved. -/
structure Within (riskCfg : TickerId → RiskCfg D) (tickerId : TickerId) (s : OrderSession D) : Prop where
  cfg : s.engine.riskCfg = riskCfg
  limit : ∀ side ≠ Side.INVALID, sideToValue side * s.position tickerId +
    (s.slot tickerId side).exposure ≤ ((riskCfg tickerId).maxPosition : ℤ)

theorem Within.put (h : Within riskCfg tickerId s) {m : OrderManager} {r : MEClientRequest}
    {ticker : TickerId} {side : Side} {order : OMOrder}
    (hm : ∀ t side', m.tickerSideOrder t side' =
      if t = ticker ∧ side' = side then order else s.slot t side')
    (hslot : tickerId = ticker → side ≠ .INVALID → sideToValue side * s.position tickerId +
      order.exposure ≤ ((riskCfg tickerId).maxPosition : ℤ)) : Within riskCfg tickerId (s.put m r) := by
  refine ⟨h.cfg, fun side' hside ↦ ?_⟩
  have hslot' : (s.put m r).slot tickerId side' =
      if tickerId = ticker ∧ side' = side then order else s.slot tickerId side' := hm tickerId side'
  rw [hslot']
  split_ifs with hkey
  · obtain ⟨rfl, rfl⟩ := hkey
    exact hslot rfl hside
  · exact h.limit side' hside

theorem Within.of_eq (h : Within riskCfg tickerId s) (hcfg : s'.engine.riskCfg = s.engine.riskCfg)
    (hposition : s'.position tickerId = s.position tickerId)
    (hslot : ∀ side, s'.slot tickerId side = s.slot tickerId side) : Within riskCfg tickerId s' := by
  refine ⟨hcfg.trans h.cfg, fun side hside ↦ ?_⟩
  rw [hposition, hslot]
  exact h.limit side hside

section Step

variable (hcfg : (riskCfg tickerId).maxPosition + (riskCfg tickerId).maxOrderSize < 2 ^ 31)

include hcfg

theorem Within.filled (h : Within riskCfg tickerId s) {side : Side} {execQty : Qty} {order : OMOrder}
    (hfill : execQty + order.exposure = (s.slot tickerId side).exposure) :
    toInt32 (s.position tickerId + execQty * sideToValue side) =
        s.position tickerId + execQty * sideToValue side ∧
      ∀ side' ≠ Side.INVALID,
        sideToValue side' * (s.position tickerId + execQty * sideToValue side) +
          (if side' = side then order else s.slot tickerId side').exposure ≤
            ((riskCfg tickerId).maxPosition : ℤ) := by
  have hcfg' : ((riskCfg tickerId).maxPosition : ℤ) < 2 ^ 31 := by
    exact_mod_cast (Nat.le_add_right _ _).trans_lt hcfg
  have hbuy := h.limit .BUY (by decide)
  have hsell := h.limit .SELL (by decide)
  have hfill' : (execQty : ℤ) + order.exposure = (s.slot tickerId side).exposure := by
    exact_mod_cast hfill
  simp only [sideToValue] at hbuy hsell
  cases side with
  | INVALID =>
    simp only [sideToValue, mul_zero, add_zero]
    refine ⟨toInt32_of_fits ⟨by omega, by omega⟩, fun side' hside ↦ ?_⟩
    rw [if_neg hside]
    exact h.limit side' hside
  | BUY =>
    simp only [sideToValue]
    refine ⟨toInt32_of_fits ⟨by omega, by omega⟩, fun side' hside ↦ ?_⟩
    cases side' with
    | INVALID => exact absurd rfl hside
    | BUY => simp only [if_true]; omega
    | SELL => simp only [reduceCtorEq, if_false]; omega
  | SELL =>
    simp only [sideToValue]
    refine ⟨toInt32_of_fits ⟨by omega, by omega⟩, fun side' hside ↦ ?_⟩
    cases side' with
    | INVALID => exact absurd rfl hside
    | BUY => simp only [reduceCtorEq, if_false]; omega
    | SELL => simp only [if_true]; omega

theorem Within.handles (h : Within riskCfg tickerId s) (hinv : Inv s) {r : MEClientResponse}
    (hs : Handles s s' r) : Within riskCfg tickerId s' := by
  refine ⟨hs.riskCfg.trans h.cfg, fun side hside ↦ ?_⟩
  have hlimit := h.limit side hside
  rw [hs.position]
  by_cases ht : r.tickerId = tickerId
  swap
  · rw [hs.slot, if_neg fun h ↦ ht h.2.symm, if_neg fun h ↦ ht h.1.symm]
    exact hlimit
  subst ht
  by_cases hrej : r.type = .CANCEL_REJECTED
  · rw [hs.slot_rejected hrej, if_neg (by simp [hrej])]
    exact hlimit
  obtain ⟨hle, hfill⟩ := (hinv.sound r.tickerId r.side).phase.exposure_applyResponse (hs.resps_self hrej)
  have hslot : s'.slot r.tickerId side = if side = r.side then
      OrderManager.applyResponse (s.slot r.tickerId r.side) r else s.slot r.tickerId side := by
    rw [hs.slot]
    simp
  rw [hslot]
  by_cases htype : r.type = .FILLED
  · obtain ⟨hfits, hlimit'⟩ := h.filled hcfg (hfill htype)
    rw [if_pos ⟨htype, rfl⟩, hfits]
    exact hlimit' side hside
  · rw [if_neg fun h ↦ htype h.1]
    split_ifs with hkey
    · subst hkey
      have hle' : ((OrderManager.applyResponse (s.slot r.tickerId r.side) r).exposure : ℤ) ≤
          (s.slot r.tickerId r.side).exposure := by exact_mod_cast hle
      exact (Int.add_le_add_left hle' _).trans hlimit
    · exact hlimit

variable [Double D]

theorem Within.submits (h : Within riskCfg tickerId s) {price : Price} {side : Side} {qty : Qty}
    (hside : side ≠ .INVALID) (hsub : s.Submits tickerId price side qty) :
    sideToValue side * s.position tickerId + qty ≤ ((riskCfg tickerId).maxPosition : ℤ) := by
  obtain ⟨hsize, hpos, -⟩ := RiskInfo.allowed_iff.mp hsub.2.2
  have hrisk : (s.engine.riskManager tickerId).riskCfg = riskCfg tickerId := congrFun h.cfg tickerId
  rw [hrisk] at hsize hpos
  have hcfg' : ((riskCfg tickerId).maxPosition : ℤ) + (riskCfg tickerId).maxOrderSize < 2 ^ 31 := by
    exact_mod_cast hcfg
  have hsize' : (qty : ℤ) ≤ (riskCfg tickerId).maxOrderSize := by exact_mod_cast hsize
  have hbuy := h.limit .BUY (by decide)
  have hsell := h.limit .SELL (by decide)
  simp only [sideToValue] at hbuy hsell
  have hreach : (s.engine.riskManager tickerId).reach side qty =
      s.position tickerId + sideToValue side * qty := rfl
  have hfits : -2 ^ 31 < s.position tickerId + sideToValue side * qty ∧
      s.position tickerId + sideToValue side * qty < 2 ^ 31 := by
    rcases sideToValue_eq hside with hv | hv <;> rw [hv] <;> omega
  rw [hreach, toInt32_of_fits ⟨hfits.1.le, hfits.2⟩, absInt32_eq ⟨hfits.1.le, hfits.2⟩,
    if_neg hfits.1.ne', toInt32_of_fits ⟨by omega, by omega⟩] at hpos
  obtain ⟨hlower, hupper⟩ := abs_le.mp hpos
  rcases sideToValue_eq hside with hv | hv <;> rw [hv] at hlower hupper ⊢ <;> omega

theorem Within.moveOrder (h : Within riskCfg tickerId s) {ticker : TickerId} {price : Price}
    {side : Side} {qty : Qty} : Within riskCfg tickerId (s.moveOrder ticker price side qty) := by
  rcases s.moveOrder_cases ticker price side qty with heq | ⟨hlive, heq⟩ | ⟨hsub, heq⟩
  · rw [heq]
    exact h
  · rw [heq]
    refine h.put (OrderManager.setOrder_apply _ _ _ _) fun ht hside ↦ ?_
    subst ht
    have hlimit := h.limit side hside
    simpa [OMOrder.exposure, hlive] using hlimit
  · rw [heq]
    refine h.put (OrderManager.setOrder_apply _ _ _ _) fun ht hside ↦ ?_
    subst ht
    exact h.submits hcfg hside hsub

theorem Within.step (h : Within riskCfg tickerId s) (hinv : Inv s) {e : SessionEvent}
    (hs : s.step e = .ok s') : Within riskCfg tickerId s' := by
  cases e with
  | moveOrders ticker bidPrice askPrice clip =>
    rw [moveOrders_eq hs]
    exact (h.moveOrder hcfg).moveOrder hcfg
  | updateBBO ticker bbo =>
    rw [updateBBO_cases hs]
    refine h.of_eq rfl ?_ fun _ ↦ rfl
    by_cases ht : tickerId = ticker
    · subst ht
      simp [position]
    · simp [position, ht]
  | process rests cancels =>
    cases hs
    obtain ⟨requests, hengine⟩ := s.process_engine rests cancels
    exact h.of_eq (by rw [hengine]) (by simp only [position, hengine])
      (by simp only [slot, hengine, implies_true])
  | fill ticker orderId price execQty =>
    cases hs
    have hengine := s.fill_engine ticker orderId price execQty
    exact h.of_eq (by rw [hengine]) (by simp only [position, hengine])
      (by simp only [slot, hengine, implies_true])
  | deliver =>
    rcases deliver_cases hs with rfl | ⟨r, hr⟩
    · exact h
    · exact h.handles hcfg hinv hr

end Step

section Run

theorem Within.unresolved (h : Within riskCfg tickerId s) (hinv : Inv s) :
    s.position tickerId + (s.lane tickerId .BUY).unresolved ≤ ((riskCfg tickerId).maxPosition : ℤ) ∧
      -((riskCfg tickerId).maxPosition : ℤ) ≤
        s.position tickerId - (s.lane tickerId .SELL).unresolved := by
  have hbuy := h.limit .BUY (by decide)
  have hsell := h.limit .SELL (by decide)
  have hbuy' : ((s.lane tickerId .BUY).unresolved : ℤ) ≤ (s.slot tickerId .BUY).exposure := by
    exact_mod_cast (hinv.sound tickerId .BUY).phase.unresolved_le
  have hsell' : ((s.lane tickerId .SELL).unresolved : ℤ) ≤ (s.slot tickerId .SELL).exposure := by
    exact_mod_cast (hinv.sound tickerId .SELL).phase.unresolved_le
  simp only [sideToValue] at hbuy hsell
  exact ⟨by omega, by omega⟩

variable [Double D] {clientId : ClientId} {events : List SessionEvent}

theorem within_new : Within riskCfg tickerId (new clientId riskCfg) := by
  refine ⟨rfl, fun side _ ↦ ?_⟩
  have hposition : (new clientId riskCfg).position tickerId = 0 := rfl
  have hexposure : ((new clientId riskCfg).slot tickerId side).exposure = 0 := rfl
  rw [hposition, hexposure]
  simp

theorem within_of_run (hcfg : (riskCfg tickerId).maxPosition + (riskCfg tickerId).maxOrderSize < 2 ^ 31)
    (hok : Guarded step (fun s e ↦ s.Honest e ∧ s.HasIds e) (new clientId riskCfg) events)
    (hrun : events.foldlM step (new clientId riskCfg) = .ok s) :
    Inv s ∧ Within riskCfg tickerId s := by
  refine hok.invariant (I := fun s ↦ Inv s ∧ Within riskCfg tickerId s) ?_
    ⟨inv_new clientId riskCfg, within_new⟩ hrun
  intro s e s' ⟨hinv, hwithin⟩ he hs
  exact ⟨hinv.step he hs, hwithin.step hcfg hinv hs⟩

/-- As long as the exchange cancels only open orders, neither the position nor what it becomes when
all the orders of one side are filled goes beyond the limit. -/
theorem position_limit
    (hcfg : (riskCfg tickerId).maxPosition + (riskCfg tickerId).maxOrderSize < 2 ^ 31)
    (hhonest : Guarded step Honest (new clientId riskCfg) events)
    (hids : newsSent (new clientId riskCfg) events < 2 ^ 64 - 1)
    (hrun : events.foldlM step (new clientId riskCfg) = .ok s) :
    let limit : ℤ := (riskCfg tickerId).maxPosition
    (-limit ≤ s.position tickerId ∧ s.position tickerId ≤ limit) ∧
      s.position tickerId + (s.lane tickerId .BUY).unresolved ≤ limit ∧
      -limit ≤ s.position tickerId - (s.lane tickerId .SELL).unresolved := by
  dsimp only
  obtain ⟨hinv, hwithin⟩ := within_of_run hcfg (hhonest.and (hasIds_of_newsSent hids)) hrun
  obtain ⟨hbuy, hsell⟩ := hwithin.unresolved hinv
  exact ⟨⟨by omega, by omega⟩, hbuy, hsell⟩

def tenCfg : TickerId → RiskCfg ℚ := fun _ ↦ ⟨10, 10, -1000000⟩

def halfFilled : List SessionEvent :=
  [.moveOrders 0 100 101 10, .process false false, .deliver, .moveOrders 0 101 102 10, .fill 0 1 100 5,
    .process false false, .process false true, .deliver, .deliver]

theorem position_limit_half_filled : ∃ s : OrderSession ℚ,
    halfFilled.foldlM step (new 1 tenCfg) = .ok s ∧ s.position 0 = 5 ∧
      s.position 0 + (s.lane 0 .BUY).unresolved ≤ 10 := by
  obtain ⟨s, hrun, hposition⟩ : ∃ s : OrderSession ℚ,
      halfFilled.foldlM step (new 1 tenCfg) = .ok s ∧ s.position 0 = 5 :=
    Yields.exists_ok (by decide +kernel)
  have hhonest : Guarded step Honest (new 1 tenCfg) halfFilled := by decide +kernel
  have hids : newsSent (new 1 tenCfg) halfFilled < 2 ^ 64 - 1 := by decide +kernel
  exact ⟨s, hrun, hposition, (position_limit (by decide) hhonest hids hrun).2.1⟩

/-- The exchange tells of an order that is filled that it is canceled; by then the slot is that of the
next order, and is given up for one more. -/
def overfilled : List SessionEvent :=
  [.moveOrders 0 100 101 5, .process false false, .process false false, .deliver, .deliver,
    .fill 0 1 100 5, .moveOrders 0 101 102 5, .deliver, .moveOrders 0 100 101 5, .process false true,
    .process false true, .process false false, .deliver, .moveOrders 0 100 101 5, .process false false,
    .fill 0 3 100 5, .fill 0 4 100 5, .deliver, .deliver, .deliver, .deliver, .deliver]

theorem position_limit_exceeded : ¬∀ (riskCfg : TickerId → RiskCfg ℚ) (events : List SessionEvent)
    (s : OrderSession ℚ), (riskCfg 0).maxPosition + (riskCfg 0).maxOrderSize < 2 ^ 31 →
    events.foldlM step (new 1 riskCfg) = .ok s → s.position 0 ≤ (riskCfg 0).maxPosition := by
  intro h
  obtain ⟨s, hrun, hposition⟩ : ∃ s : OrderSession ℚ,
      overfilled.foldlM step (new 1 tenCfg) = .ok s ∧ s.position 0 = 15 :=
    Yields.exists_ok (by decide +kernel)
  have hlimit := h tenCfg overfilled s (by decide) hrun
  rw [hposition] at hlimit
  exact absurd hlimit (by decide)

end Run

end OrderSession

end LowLatency.Trading
