import LowLatency.Trading.PositionLimit

namespace LowLatency.Trading

open Common Exchange

namespace Lane

variable {fresh : OrderId → Prop} {tickerId : TickerId} {side : Side} {l l' : Lane}

/-- The ids of the orders on their way, open, or told of by a response on its way. -/
def unresolvedIds (l : Lane) : List OrderId :=
  l.news.map (·.orderId) ++ l.opens.map (·.orderId) ++ l.resps.map (·.clientOrderId)

theorem Phase.news_id (h : l.Phase) : ∀ r ∈ l.news, r.orderId = l.order.orderId := by
  cases h with
  | sent _ hnews hid => simpa [hnews] using hid
  | idle _ hnews | accepted _ hnews | live _ hnews | canceling _ hnews => simp [hnews]

theorem Phase.single (h : l.Phase) : (∀ id ∈ l.unresolvedIds, id = l.order.orderId) ∧
    l.news.length + l.opens.length ≤ 1 := by
  refine ⟨fun id hid ↦ ?_, ?_⟩
  · simp only [unresolvedIds, List.mem_append, List.mem_map] at hid
    rcases hid with (⟨r, hr, rfl⟩ | ⟨o, ho, rfl⟩) | ⟨r, hr, rfl⟩
    · exact h.news_id r hr
    · exact (h.of_open ho).2.1
    · exact h.of_resp hr
  · cases h with
    | idle _ hnews hopens => simp [hnews, hopens]
    | sent _ hnews _ _ hopens => simp [hnews, hopens]
    | accepted _ hnews _ _ _ hf => simpa [hnews] using hf.length_opens
    | live _ hnews hf | canceling _ hnews hf => simpa [hnews] using hf.length_opens

structure Settles (l : Lane) : Prop where
  canceling : l.order.orderState = .PENDING_CANCEL →
    (∃ r ∈ l.cancels, r.orderId = l.order.orderId) ∨ l.opens = []
  qty : l.order.orderState ≠ .INVALID → l.order.orderState ≠ .DEAD → l.order.qty ≠ 0

theorem applyResponse_settles {order : OMOrder} {r : MEClientResponse} (hqty : order.qty ≠ 0) :
    ((OrderManager.applyResponse order r).orderState ≠ .DEAD →
      (OrderManager.applyResponse order r).qty ≠ 0) ∧
    ((OrderManager.applyResponse order r).orderState = .PENDING_CANCEL →
      order.orderState = .PENDING_CANCEL) := by
  cases ht : r.type with
  | ACCEPTED =>
    rw [OrderManager.applyResponse_accepted ht]
    exact ⟨fun _ ↦ hqty, fun h ↦ by cases h⟩
  | CANCELED =>
    rw [OrderManager.applyResponse_canceled ht]
    exact ⟨fun h ↦ absurd rfl h, fun h ↦ by cases h⟩
  | FILLED =>
    by_cases h0 : r.leavesQty = 0
    · rw [OrderManager.applyResponse_filled ht h0]
      exact ⟨fun h ↦ absurd rfl h, fun h ↦ by cases h⟩
    · rw [OrderManager.applyResponse_fill ht h0]
      exact ⟨fun _ ↦ h0, id⟩
  | CANCEL_REJECTED | INVALID =>
    simp only [OrderManager.applyResponse, ht]
    exact ⟨fun _ ↦ hqty, id⟩

theorem Settles.step (h : l.Settles) (hsound : l.Sound tickerId side)
    (hs : Step True fresh tickerId side l l') : l'.Settles := by
  cases hs with
  | submit hidle hstate hkey hid hqty hfresh hcancels hstrict =>
    exact ⟨fun h ↦ by simp [hstate] at h, fun _ _ ↦ hstrict trivial⟩
  | @cancel r hlive hid =>
    exact ⟨fun _ ↦ .inl ⟨r, by simp, hid⟩, fun _ _ ↦ h.qty (by simp [hlive]) (by simp [hlive])⟩
  | accept hnews =>
    refine ⟨fun hstate ↦ ?_, h.qty⟩
    have hcanceling : l.order.orderState = .PENDING_CANCEL := hstate
    cases hsound.phase with
    | canceling _ hnews' => simp [hnews'] at hnews
    | idle hstate' | sent hstate' | accepted hstate' | live hstate' => simp [hcanceling] at hstate'
  | @refuse r cancels hcancels hstrict =>
    refine ⟨fun hstate ↦ ?_, h.qty⟩
    rcases h.canceling hstate with ⟨c, hc, hid⟩ | hopens
    · rw [hcancels] at hc
      rcases List.mem_cons.mp hc with rfl | hc
      · refine .inr (List.eq_nil_iff_forall_not_mem.mpr fun o ho ↦ hstrict trivial o ho ?_)
        exact (hsound.phase.of_open ho).2.1.trans hid.symm
      · exact .inl ⟨c, hc, hid⟩
    · exact .inr hopens
  | close => exact ⟨fun _ ↦ .inr rfl, h.qty⟩
  | exec resp hopens =>
    refine ⟨fun hstate ↦ .inl ((h.canceling hstate).resolve_right ?_), h.qty⟩
    simp [hopens]
  | @deliver r resps hresps =>
    have hactive : ¬(l.order.orderState = .INVALID ∨ l.order.orderState = .DEAD) := by
      intro hidle
      simp [(hsound.phase.of_idle hidle).2.2] at hresps
    obtain ⟨hinvalid, hdead⟩ := not_or.mp hactive
    obtain ⟨hqty, hstate⟩ := applyResponse_settles (r := r) (h.qty hinvalid hdead)
    refine ⟨fun hpending ↦ ?_, fun _ ↦ hqty⟩
    rw [(OrderManager.applyResponse_frame l.order r).2.2]
    exact h.canceling (hstate hpending)

/-- A slot agrees with the exchange: it is free and no order is open, or it shows the open one. -/
def Rests (l : Lane) : Prop :=
  (l.order.orderState = .INVALID ∨ l.order.orderState = .DEAD) ∧ l.opens = [] ∨
    l.order.orderState = .LIVE ∧
      ∃ o, l.opens = [o] ∧ o.orderId = l.order.orderId ∧ o.leavesQty = l.order.qty

theorem Settles.rests (h : l.Settles) (hsound : l.Sound tickerId side) (hnews : l.news = [])
    (hcancels : l.cancels = []) (hresps : l.resps = []) : l.Rests := by
  cases hsound.phase with
  | idle hstate _ hopens => exact .inl ⟨hstate, hopens⟩
  | sent _ hnews' => simp [hnews] at hnews'
  | accepted _ _ hresps' => simp [hresps] at hresps'
  | live hstate _ hf =>
    have hqty := h.qty (by simp [hstate]) (by simp [hstate])
    refine .inr ⟨hstate, ?_⟩
    generalize l.order.qty = qty, l.opens = opens at hf hqty ⊢
    rw [hresps] at hf
    cases hf with
    | resting o ho => exact ⟨o, rfl, ho, rfl⟩
    | empty => exact absurd rfl hqty
  | canceling hstate _ hf =>
    have hqty := h.qty (by simp [hstate]) (by simp [hstate])
    have hopens : l.opens = [] := by
      refine (h.canceling hstate).resolve_left ?_
      simp [hcancels]
    generalize l.order.qty = qty at hf hqty
    rw [hresps, hopens] at hf
    cases hf with
    | empty => exact absurd rfl hqty

end Lane

namespace OrderSession

variable {D : Type} {s s' : OrderSession D}

def Settled (s : OrderSession D) : Prop := ∀ tickerId side, (s.lane tickerId side).Settles

theorem Settled.change (h : Settled s) (hinv : Inv s) (hchange : Change True s s') : Settled s' := by
  intro tickerId side
  cases hchange with
  | still _ hlane =>
    rw [hlane]
    exact h tickerId side
  | moves t side' hmoves =>
    by_cases hkey : tickerId = t ∧ side = side'
    · obtain ⟨rfl, rfl⟩ := hkey
      exact (h tickerId side).step (hinv.sound tickerId side) hmoves.self
    · rw [hmoves.other _ _ hkey]
      exact h tickerId side

variable [Double D] {clientId : ClientId} {riskCfg : TickerId → RiskCfg D} {events : List SessionEvent}

/-- Of each ticker and side at most one order is unresolved, that of the slot, and every response to
come finds it there. -/
theorem single_unresolved (hhonest : Guarded step Honest (new clientId riskCfg) events)
    (hids : newsSent (new clientId riskCfg) events < 2 ^ 64 - 1)
    (hrun : events.foldlM step (new clientId riskCfg) = .ok s) (tickerId : TickerId) (side : Side) :
    (∀ id ∈ (s.lane tickerId side).unresolvedIds, id = (s.slot tickerId side).orderId) ∧
      (s.lane tickerId side).news.length + (s.lane tickerId side).opens.length ≤ 1 ∧
      ∀ r ∈ s.responses, r.type = .ACCEPTED ∨ r.type = .FILLED ∨ r.type = .CANCELED →
        (s.slot r.tickerId r.side).orderId = r.clientOrderId := by
  have hok := hhonest.and (hasIds_of_newsSent hids)
  have hinv : Inv s := hok.invariant (fun s e s' h he hs ↦ h.step he hs) (inv_new clientId riskCfg) hrun
  obtain ⟨hids, hlength⟩ := (hinv.sound tickerId side).phase.single
  refine ⟨hids, hlength, fun r hr ht ↦ ?_⟩
  have hresp : r ∈ (s.lane r.tickerId r.side).resps := by
    rcases ht with ht | ht | ht <;> simp [lane, hr, ht]
  exact ((hinv.sound r.tickerId r.side).phase.of_resp hresp).symm

def raced : List SessionEvent :=
  [.moveOrders 0 100 101 5, .process false false, .process false false, .deliver, .deliver,
    .fill 0 1 100 5, .moveOrders 0 101 102 5, .deliver, .moveOrders 0 101 102 5, .process false false,
    .process false true, .process false false, .deliver, .deliver, .deliver]

theorem single_unresolved_raced : ∃ s : OrderSession ℚ,
    (raced.take 12).foldlM step (new 1 tenCfg) = .ok s ∧ s.responses.length = 3 ∧
      ∀ id ∈ (s.lane 0 .BUY).unresolvedIds, id = (s.slot 0 .BUY).orderId := by
  obtain ⟨s, hrun, hlength⟩ : ∃ s : OrderSession ℚ,
      (raced.take 12).foldlM step (new 1 tenCfg) = .ok s ∧ s.responses.length = 3 :=
    Yields.exists_ok (by decide +kernel)
  have hhonest : Guarded step Honest (new 1 tenCfg) (raced.take 12) := by decide +kernel
  have hids : newsSent (new 1 tenCfg) (raced.take 12) < 2 ^ 64 - 1 := by decide +kernel
  exact ⟨s, hrun, hlength, (single_unresolved hhonest hids hrun 0 .BUY).1⟩

/-- When nothing is on its way, every slot agrees with the exchange, if no order without a quantity was
ever sent. -/
theorem rests_of_quiet
    (hok : Guarded step (fun s e ↦ s.Follows e ∧ ¬s.SendsEmpty e) (new clientId riskCfg) events)
    (hids : newsSent (new clientId riskCfg) events < 2 ^ 64 - 1)
    (hrun : events.foldlM step (new clientId riskCfg) = .ok s) (hrequests : s.requests = [])
    (hresponses : s.responses = []) (tickerId : TickerId) (side : Side) :
    (s.lane tickerId side).Rests := by
  have hkeep : ∀ (s : OrderSession D) e s', Inv s ∧ Settled s →
      (s.Follows e ∧ ¬s.SendsEmpty e) ∧ s.HasIds e → s.step e = .ok s' → Inv s' ∧ Settled s' := by
    intro s e s' ⟨hinv, hsettled⟩ ⟨hok, hids⟩ hs
    have hchanges : ∃ s₁, Change True s s₁ ∧ Change True s₁ s' :=
      step_changes hinv hok.1.honest hids (fun _ ↦ hok) hs
    obtain ⟨s₁, h₁, h₂⟩ := hchanges
    have hinv₁ := hinv.change h₁
    exact ⟨hinv₁.change h₂, (hsettled.change hinv h₁).change hinv₁ h₂⟩
  have hnew : Settled (new clientId riskCfg) :=
    fun _ _ ↦ ⟨fun h ↦ (by cases h), fun h ↦ absurd rfl h⟩
  obtain ⟨hinv, hsettled⟩ := (hok.and (hasIds_of_newsSent hids)).invariant hkeep
    ⟨inv_new clientId riskCfg, hnew⟩ hrun
  refine (hsettled tickerId side).rests (hinv.sound tickerId side) ?_ ?_ ?_
  · simp [lane, hrequests]
  · simp [lane, hrequests]
  · simp [lane, hresponses]

theorem rests_of_quiet_raced : ∃ s : OrderSession ℚ, raced.foldlM step (new 1 tenCfg) = .ok s ∧
    (s.slot 0 .BUY).orderState = .LIVE ∧ (s.lane 0 .BUY).Rests := by
  obtain ⟨s, hrun, hlive, hrequests, hresponses⟩ : ∃ s : OrderSession ℚ,
      raced.foldlM step (new 1 tenCfg) = .ok s ∧ (s.slot 0 .BUY).orderState = .LIVE ∧
        s.requests = [] ∧ s.responses = [] := Yields.exists_ok (by decide +kernel)
  have hok : Guarded step (fun s e ↦ s.Follows e ∧ ¬s.SendsEmpty e) (new 1 tenCfg) raced := by
    decide +kernel
  have hids : newsSent (new 1 tenCfg) raced < 2 ^ 64 - 1 := by decide +kernel
  exact ⟨s, hrun, hlive, rests_of_quiet hok hids hrun hrequests hresponses 0 .BUY⟩

/-- Orders without a quantity are accepted and never heard of again. -/
def emptyOrders : List SessionEvent :=
  [.moveOrders 0 100 101 0, .process false false, .process false false, .deliver, .deliver]

theorem not_rests_empty : ¬∀ (riskCfg : TickerId → RiskCfg ℚ) (events : List SessionEvent)
    (s : OrderSession ℚ), Guarded step Follows (new 1 riskCfg) events →
    events.foldlM step (new 1 riskCfg) = .ok s → s.requests = [] → s.responses = [] →
    ∀ tickerId side, (s.lane tickerId side).Rests := by
  intro h
  obtain ⟨s, hrun, hlive, hopens, hrequests, hresponses⟩ : ∃ s : OrderSession ℚ,
      emptyOrders.foldlM step (new 1 tenCfg) = .ok s ∧ (s.lane 0 .BUY).order.orderState = .LIVE ∧
        (s.lane 0 .BUY).opens = [] ∧ s.requests = [] ∧ s.responses = [] :=
    Yields.exists_ok (by decide +kernel)
  have hfollows : Guarded step Follows (new 1 tenCfg) emptyOrders := by decide +kernel
  rcases h tenCfg emptyOrders s hfollows hrun hrequests hresponses 0 .BUY with
    ⟨hidle, -⟩ | ⟨-, o, ho, -⟩
  · simp [hlive] at hidle
  · simp [hopens] at ho

end OrderSession

end LowLatency.Trading
