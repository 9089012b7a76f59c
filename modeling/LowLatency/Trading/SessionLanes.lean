import LowLatency.Trading.Lane
import LowLatency.Trading.Quoting

namespace LowLatency.Trading.OrderSession

open Common Exchange

section Defs

variable {D : Type}

def lane (s : OrderSession D) (tickerId : TickerId) (side : Side) : Lane where
  order := s.slot tickerId side
  news := s.requests.filter fun r ↦ r.type = .NEW ∧ r.tickerId = tickerId ∧ r.side = side
  cancels := s.requests.filter fun r ↦ r.type = .CANCEL ∧ r.tickerId = tickerId ∧ r.side = side
  opens := s.openOrders.filter fun o ↦ o.tickerId = tickerId ∧ o.side = side
  resps := s.responses.filter fun r ↦
    r.type ≠ .CANCEL_REJECTED ∧ r.tickerId = tickerId ∧ r.side = side

def nextId (s : OrderSession D) : ℕ := s.engine.orderManager.nextOrderId

/-- One lane moves, and the others are left alone. -/
structure Moves (strict : Prop) (s s' : OrderSession D) (tickerId : TickerId) (side : Side) : Prop where
  nextId_le : s.nextId ≤ s'.nextId
  self : Lane.Step strict (fun id ↦ s.nextId ≤ id ∧ id < s'.nextId) tickerId side
    (s.lane tickerId side) (s'.lane tickerId side)
  other : ∀ tickerId' side', ¬(tickerId' = tickerId ∧ side' = side) →
    s'.lane tickerId' side' = s.lane tickerId' side'

inductive Change (strict : Prop) (s s' : OrderSession D) : Prop
  | still (hnext : s'.nextId = s.nextId) (h : ∀ tickerId side, s'.lane tickerId side = s.lane tickerId side)
  | moves (tickerId : TickerId) (side : Side) (h : Moves strict s s' tickerId side)

/-- Every lane is sound, and no two lanes know of the same order id. -/
structure Inv (s : OrderSession D) : Prop where
  sound : ∀ tickerId side, (s.lane tickerId side).Sound tickerId side
  bound : ∀ tickerId side id, (s.lane tickerId side).Names id → id < s.nextId
  own : ∀ tickerId side tickerId' side' id, (s.lane tickerId side).Names id →
    (s.lane tickerId' side').Names id → tickerId' = tickerId ∧ side' = side

end Defs

section Inv

variable {D : Type} {strict : Prop} {s s' : OrderSession D} {tickerId : TickerId} {side : Side}

theorem Moves.names (h : Moves strict s s' tickerId side) (hinv : Inv s) {tickerId' : TickerId}
    {side' : Side} {id : OrderId} (hid : (s'.lane tickerId' side').Names id) :
    (s.lane tickerId' side').Names id ∨
      (tickerId' = tickerId ∧ side' = side) ∧ s.nextId ≤ id ∧ id < s'.nextId := by
  by_cases hkey : tickerId' = tickerId ∧ side' = side
  · obtain ⟨rfl, rfl⟩ := hkey
    exact (Lane.Names.step (hinv.sound tickerId' side') h.self hid).imp_right fun h ↦ ⟨⟨rfl, rfl⟩, h⟩
  · rw [h.other _ _ hkey] at hid
    exact .inl hid

theorem Inv.moves (hinv : Inv s) (h : Moves strict s s' tickerId side) : Inv s' := by
  refine ⟨fun t' side' ↦ ?_, fun t' side' id hid ↦ ?_, fun t₁ side₁ t₂ side₂ id h₁ h₂ ↦ ?_⟩
  · by_cases hkey : t' = tickerId ∧ side' = side
    · obtain ⟨rfl, rfl⟩ := hkey
      exact (hinv.sound t' side').step h.self
    · rw [h.other _ _ hkey]
      exact hinv.sound t' side'
  · rcases h.names hinv hid with hid | ⟨-, -, hlt⟩
    · exact (hinv.bound _ _ _ hid).trans_le h.nextId_le
    · exact hlt
  · rcases h.names hinv h₁ with h₁ | ⟨⟨rfl, rfl⟩, hge₁, -⟩ <;>
      rcases h.names hinv h₂ with h₂ | ⟨⟨rfl, rfl⟩, hge₂, -⟩
    · exact hinv.own _ _ _ _ _ h₁ h₂
    · exact absurd (hinv.bound _ _ _ h₁) hge₂.not_gt
    · exact absurd (hinv.bound _ _ _ h₂) hge₁.not_gt
    · exact ⟨rfl, rfl⟩

theorem Inv.change (hinv : Inv s) (h : Change strict s s') : Inv s' := by
  cases h with
  | still hnext h =>
    refine ⟨fun t side ↦ ?_, fun t side id hid ↦ ?_, fun t₁ side₁ t₂ side₂ id h₁ h₂ ↦ ?_⟩
    · rw [h]
      exact hinv.sound t side
    · rw [h] at hid
      rw [hnext]
      exact hinv.bound t side id hid
    · rw [h] at h₁ h₂
      exact hinv.own _ _ _ _ _ h₁ h₂
  | moves _ _ h => exact hinv.moves h

theorem inv_new [Double D] (clientId : ClientId) (riskCfg : TickerId → RiskCfg D) :
    Inv (new clientId riskCfg) := by
  refine ⟨fun t side ↦ ⟨fun h ↦ absurd rfl h, .idle (.inl rfl) rfl rfl rfl, fun r hr ↦ ?_⟩, ?_, ?_⟩
  · exact absurd hr (List.not_mem_nil)
  · rintro t side id (⟨h, -⟩ | ⟨r, hr, -⟩)
    · exact absurd rfl h
    · exact absurd hr (List.not_mem_nil)
  · rintro t side t' side' id (⟨h, -⟩ | ⟨r, hr, -⟩)
    · exact absurd rfl h
    · exact absurd hr (List.not_mem_nil)

end Inv

section Engine

variable {D : Type} {strict : Prop} {s s' : OrderSession D}

def put (s : OrderSession D) (m : OrderManager) (r : MEClientRequest) : OrderSession D :=
  { s with engine :=
    { s.engine with orderManager := m, outgoingOgwRequests := s.requests ++ [r] } }

section Put

variable {m : OrderManager} {r : MEClientRequest} {tickerId tickerId' : TickerId} {side side' : Side}

theorem lane_put_self (ht : r.tickerId = tickerId) (hside : r.side = side) :
    (s.put m r).lane tickerId side = { s.lane tickerId side with
      order := m.tickerSideOrder tickerId side
      news := (s.lane tickerId side).news ++ if r.type = .NEW then [r] else []
      cancels := (s.lane tickerId side).cancels ++ if r.type = .CANCEL then [r] else [] } := by
  simp [lane, put, slot, requests, List.filter_singleton, ht, hside]

theorem lane_put_of_ne (ht : r.tickerId = tickerId) (hside : r.side = side)
    (hne : ¬(tickerId' = tickerId ∧ side' = side))
    (hm : m.tickerSideOrder tickerId' side' = s.slot tickerId' side') :
    (s.put m r).lane tickerId' side' = s.lane tickerId' side' := by
  have hne' : ¬(r.tickerId = tickerId' ∧ r.side = side') :=
    fun h ↦ hne ⟨h.1.symm.trans ht, h.2.symm.trans hside⟩
  simpa [lane, put, slot, requests, hne'] using hm

theorem news_put (s : OrderSession D) (m : OrderManager) (r : MEClientRequest) :
    (news (s.put m r).requests).length =
      (news s.requests).length + if r.type = .NEW then 1 else 0 := by
  by_cases ht : r.type = .NEW <;> simp [put, news, requests, ht]

end Put

variable [Double D]

def moveOrder (s : OrderSession D) (tickerId : TickerId) (price : Price) (side : Side) (qty : Qty) :
    OrderSession D :=
  { s with engine := s.engine.moveOrder tickerId price side qty }

/-- The order manager sends a new order for a slot that is free, if price and risk allow it. -/
def Submits (s : OrderSession D) (tickerId : TickerId) (price : Price) (side : Side) (qty : Qty) : Prop :=
  ((s.slot tickerId side).orderState = .INVALID ∨ (s.slot tickerId side).orderState = .DEAD) ∧
    price ≠ Price_INVALID ∧ s.engine.riskManager.checkPreTradeRisk tickerId side qty = .ALLOWED

instance (s : OrderSession D) (tickerId : TickerId) (price : Price) (side : Side) (qty : Qty) :
    Decidable (s.Submits tickerId price side qty) := inferInstanceAs (Decidable (_ ∧ _))

theorem moveOrder_cases (s : OrderSession D) (tickerId : TickerId) (price : Price) (side : Side)
    (qty : Qty) : s.moveOrder tickerId price side qty = s ∨
      ((s.slot tickerId side).orderState = .LIVE ∧ s.moveOrder tickerId price side qty =
        let order := s.slot tickerId side
        s.put (s.engine.orderManager.setOrder tickerId side { order with orderState := .PENDING_CANCEL })
          ⟨.CANCEL, s.engine.clientId, order.tickerId, order.orderId, order.side, order.price, order.qty⟩) ∨
      (s.Submits tickerId price side qty ∧ s.moveOrder tickerId price side qty =
        s.put { s.engine.orderManager.setOrder tickerId side
            ⟨tickerId, s.nextId, side, price, qty, .PENDING_NEW⟩ with
            nextOrderId := (s.nextId + 1) % 2 ^ 64 }
          ⟨.NEW, s.engine.clientId, tickerId, s.nextId, side, price, qty⟩) := by
  have hsubmits : s.Submits tickerId price side qty ↔
      s.engine.orderManager.Admits s.engine.riskManager tickerId price side qty := by
    unfold Submits OrderManager.Admits OrderManager.Ready
    rw [and_comm (a := price ≠ Price_INVALID), ← and_assoc]
    rfl
  simp only [moveOrder, TradeEngine.moveOrder, OrderManager.moveOrder_eq, hsubmits]
  split_ifs with hadmits hcancels
  · exact .inr (.inr ⟨hadmits, rfl⟩)
  · exact .inr (.inl ⟨hcancels.1, rfl⟩)
  · exact .inl (by simp)

theorem moveOrder_news (s : OrderSession D) (tickerId : TickerId) (price : Price) (side : Side)
    (qty : Qty) : ∃ n, (news (s.moveOrder tickerId price side qty).requests).length =
        (news s.requests).length + n ∧
      (s.moveOrder tickerId price side qty).nextId ≤ s.nextId + n := by
  rcases s.moveOrder_cases tickerId price side qty with h | ⟨-, h⟩ | ⟨-, h⟩
  · rw [h]
    exact ⟨0, rfl, le_rfl⟩
  · rw [h]
    exact ⟨0, news_put s _ _, le_rfl⟩
  · rw [h]
    exact ⟨1, news_put s _ _, Nat.mod_le _ _⟩

theorem moveOrder_change (hinv : Inv s) {tickerId : TickerId} {price : Price} {side : Side} {qty : Qty}
    (hstrict : strict → s.Submits tickerId price side qty → qty ≠ 0)
    (hids : s.nextId + sentNews s (s.moveOrder tickerId price side qty) < 2 ^ 64) :
    Change strict s (s.moveOrder tickerId price side qty) := by
  have hsound := hinv.sound tickerId side
  rcases s.moveOrder_cases tickerId price side qty with h | ⟨hlive, h⟩ | ⟨hsub, h⟩
  · rw [h]
    exact .still rfl fun _ _ ↦ rfl
  · rw [h]
    have hlive' : (s.lane tickerId side).order.orderState = .LIVE := hlive
    obtain ⟨ht, hside⟩ := hsound.named (by simp [hlive'])
    refine .moves tickerId side ⟨le_rfl, ?_, fun t' side' hne ↦ ?_⟩
    · rw [lane_put_self ht hside, OrderManager.setOrder_self]
      simp only [reduceCtorEq, if_false, if_true, List.append_nil]
      exact .cancel hlive' rfl
    · exact lane_put_of_ne ht hside hne (OrderManager.setOrder_of_ne _ _ _ _ hne)
  · rw [h] at hids ⊢
    rw [sentNews, news_put, if_pos rfl, Nat.add_sub_cancel_left] at hids
    refine .moves tickerId side ⟨?_, ?_, fun t' side' hne ↦ ?_⟩
    · exact (Nat.le_succ s.nextId).trans_eq (Nat.mod_eq_of_lt hids).symm
    · rw [lane_put_self rfl rfl]
      simp only [OrderManager.setOrder_self, reduceCtorEq, if_false, if_true, List.append_nil]
      refine .submit hsub.1 rfl ⟨rfl, rfl⟩ rfl rfl ⟨le_rfl, ?_⟩ (fun c hc ↦ ?_) fun h ↦ hstrict h hsub
      · exact (Nat.lt_succ_self s.nextId).trans_eq (Nat.mod_eq_of_lt hids).symm
      · exact (hinv.bound _ _ _ (.inr ⟨c, hc, rfl⟩)).ne
    · exact lane_put_of_ne rfl rfl hne (OrderManager.setOrder_of_ne _ _ _ _ hne)

end Engine

section Exchange

variable {D : Type} {strict : Prop} {s s' : OrderSession D} {tickerId tickerId' : TickerId}
  {side side' : Side} {orderId : OrderId} {o : OpenOrder}
  {r : MEClientRequest} {resp : MEClientResponse} {requests : List MEClientRequest}
  {f : OpenOrder → Option OpenOrder}

def Keeps (f : OpenOrder → Option OpenOrder) : Prop :=
  ∀ o o', f o = some o' → o'.tickerId = o.tickerId ∧ o'.side = o.side

theorem filter_updateOpen (hf : Keeps f) (orders : List OpenOrder) :
    (updateOpen tickerId orderId f orders).filter (fun o ↦ o.tickerId = tickerId' ∧ o.side = side') =
      updateOpen tickerId orderId f (orders.filter fun o ↦ o.tickerId = tickerId' ∧ o.side = side') := by
  unfold updateOpen
  rw [List.filter_filterMap, List.filterMap_filter]
  refine List.filterMap_congr fun o _ ↦ ?_
  split_ifs with his hkey
  · cases hfo : f o with
    | none => rfl
    | some o' =>
      obtain ⟨ht, hside⟩ := hf o o' hfo
      simpa [Option.filter, ht, hside] using hkey
  · cases hfo : f o with
    | none => rfl
    | some o' =>
      obtain ⟨ht, hside⟩ := hf o o' hfo
      simpa [Option.filter, ht, hside] using hkey
  · simp_all [Option.filter]
  · simp_all [Option.filter]

theorem updateOpen_of_forall {orders : List OpenOrder} (h : ∀ o ∈ orders, ¬o.Is tickerId orderId) :
    updateOpen tickerId orderId f orders = orders :=
  (List.filterMap_congr fun o ho ↦ if_neg (h o ho)).trans List.filterMap_some

theorem updateOpen_singleton (h : o.Is tickerId orderId) :
    updateOpen tickerId orderId f [o] = (f o).toList := by
  simp only [updateOpen, List.filterMap_cons, if_pos h]
  cases f o <;> rfl

theorem mem_lane_opens (ho : o ∈ s.openOrders) : o ∈ (s.lane o.tickerId o.side).opens := by
  simpa [lane] using ho

theorem Inv.open_unique (hinv : Inv s) (ho : o ∈ s.openOrders) (his : o.Is tickerId orderId) :
    (s.lane tickerId o.side).opens = [o] ∧ ∀ tickerId' side', ¬(tickerId' = tickerId ∧ side' = o.side) →
      ∀ o' ∈ (s.lane tickerId' side').opens, ¬o'.Is tickerId orderId := by
  obtain ⟨rfl, rfl⟩ := his
  have hmem := mem_lane_opens ho
  obtain ⟨hopens, hid, hstate, -⟩ := (hinv.sound o.tickerId o.side).phase.of_open hmem
  refine ⟨hopens, fun t' side' hne o' ho' his ↦ hne ?_⟩
  obtain ⟨-, hid', hstate', -⟩ := (hinv.sound t' side').phase.of_open ho'
  exact hinv.own _ _ _ _ _ (.inl ⟨hstate, rfl⟩) (.inl ⟨hstate', hid'.symm.trans (his.2.trans hid)⟩)

def pop (s : OrderSession D) (requests : List MEClientRequest) : OrderSession D :=
  { s with engine := { s.engine with outgoingOgwRequests := requests } }

theorem lane_pop_of_ne (hreq : s.requests = r :: requests)
    (hne : ¬(tickerId = r.tickerId ∧ side = r.side)) :
    (s.pop requests).lane tickerId side = s.lane tickerId side := by
  have hne' : ¬(r.tickerId = tickerId ∧ r.side = side) := fun h ↦ hne ⟨h.1.symm, h.2.symm⟩
  have hpop : (s.pop requests).requests = requests := rfl
  simp only [lane, hreq, hpop, List.filter_cons, hne', and_false, decide_false]
  rfl

theorem lane_pop_new (hreq : s.requests = r :: requests) (ht : r.type = .NEW) :
    ∃ news, (s.lane r.tickerId r.side).news = r :: news ∧ (s.pop requests).lane r.tickerId r.side =
      { s.lane r.tickerId r.side with news := news } := by
  have hpop : (s.pop requests).requests = requests := rfl
  have hcancels : ((s.pop requests).lane r.tickerId r.side).cancels =
      (s.lane r.tickerId r.side).cancels := by
    simp [lane, hreq, hpop, ht]
  refine ⟨((s.pop requests).lane r.tickerId r.side).news, ?_, Lane.ext rfl rfl hcancels rfl rfl⟩
  simp [lane, hreq, hpop, ht]

theorem lane_pop_cancel (hreq : s.requests = r :: requests) (ht : r.type = .CANCEL) :
    ∃ cancels, (s.lane r.tickerId r.side).cancels = r :: cancels ∧
      (s.pop requests).lane r.tickerId r.side = { s.lane r.tickerId r.side with cancels := cancels } := by
  have hpop : (s.pop requests).requests = requests := rfl
  have hnews : ((s.pop requests).lane r.tickerId r.side).news = (s.lane r.tickerId r.side).news := by
    simp [lane, hreq, hpop, ht]
  refine ⟨((s.pop requests).lane r.tickerId r.side).cancels, ?_, Lane.ext rfl hnews rfl rfl rfl⟩
  simp [lane, hreq, hpop, ht]

theorem lane_send (s : OrderSession D) (resp : MEClientResponse) (tickerId : TickerId) (side : Side) :
    (s.send resp).lane tickerId side = { s.lane tickerId side with
      resps := (s.lane tickerId side).resps ++
        if resp.type ≠ .CANCEL_REJECTED ∧ resp.tickerId = tickerId ∧ resp.side = side then [resp] else [] } := by
  simp [lane, send, slot, OrderSession.requests, List.filter_singleton]

theorem lane_accept_self (s : OrderSession D) (r : MEClientRequest) (rests : Bool) :
    ∃ opened resp, (s.accept r rests).lane r.tickerId r.side = { s.lane r.tickerId r.side with
        opens := (s.lane r.tickerId r.side).opens ++ opened
        resps := (s.lane r.tickerId r.side).resps ++ [resp] } ∧
      resp.type = .ACCEPTED ∧ resp.clientOrderId = r.orderId ∧ (opened = [] ∧ r.qty = 0 ∨
        ∃ o : OpenOrder, opened = [o] ∧ o.orderId = r.orderId ∧ o.leavesQty = r.qty) := by
  let order : OpenOrder := ⟨r.tickerId, r.orderId, s.nextMarketOrderId, r.side, r.price, r.qty⟩
  let response : MEClientResponse :=
    ⟨.ACCEPTED, r.clientId, r.tickerId, r.orderId, s.nextMarketOrderId, r.side, r.price, 0, r.qty⟩
  by_cases hopen : r.qty ≠ 0 ∨ rests
  · refine ⟨[order], response, ?_, rfl, rfl, .inr ⟨order, rfl, rfl, rfl⟩⟩
    simp only [accept, if_pos hopen]
    simp [lane, send, slot, OrderSession.requests, order, response]
  · refine ⟨[], response, ?_, rfl, rfl, .inl ⟨rfl, not_not.mp (not_or.mp hopen).1⟩⟩
    simp only [accept, if_neg hopen]
    simp [lane, send, slot, OrderSession.requests, response]

theorem lane_accept_of_ne (rests : Bool) (hne : ¬(tickerId = r.tickerId ∧ side = r.side)) :
    (s.accept r rests).lane tickerId side = s.lane tickerId side := by
  have hne' : ¬(r.tickerId = tickerId ∧ r.side = side) := fun h ↦ hne ⟨h.1.symm, h.2.symm⟩
  unfold accept
  split_ifs <;> simp [lane, send, slot, OrderSession.requests, hne']

theorem accept_change (hreq : s.requests = r :: requests) (ht : r.type = .NEW) (rests : Bool) :
    Change strict s ((s.pop requests).accept r rests) := by
  obtain ⟨news, hnews, hpop⟩ := lane_pop_new hreq ht
  obtain ⟨opened, resp, hlane, ht', hid, hopened⟩ := (s.pop requests).lane_accept_self r rests
  refine .moves r.tickerId r.side ⟨le_rfl, ?_, fun t side hne ↦ ?_⟩
  · rw [hlane, hpop]
    exact .accept hnews ht' hid hopened
  · rw [lane_accept_of_ne rests hne, lane_pop_of_ne hreq hne]

section Answer

def answer (s : OrderSession D) (resp : MEClientResponse) (f : OpenOrder → Option OpenOrder) :
    OrderSession D :=
  { s.send resp with openOrders := updateOpen resp.tickerId resp.clientOrderId f s.openOrders }

theorem lane_answer_self (resp : MEClientResponse) (hf : Keeps f) (ht : resp.type ≠ .CANCEL_REJECTED)
    (hopens : (s.lane resp.tickerId resp.side).opens = [o])
    (his : o.Is resp.tickerId resp.clientOrderId) : (s.answer resp f).lane resp.tickerId resp.side =
      { s.lane resp.tickerId resp.side with
        opens := (f o).toList
        resps := (s.lane resp.tickerId resp.side).resps ++ [resp] } := by
  refine Lane.ext rfl rfl rfl ?_ ?_
  · rw [← updateOpen_singleton his, ← hopens]
    exact filter_updateOpen hf s.openOrders
  · simp [lane, answer, send, ht]

theorem lane_answer_of_ne (resp : MEClientResponse) (hf : Keeps f)
    (hne : ¬(tickerId = resp.tickerId ∧ side = resp.side))
    (hother : ∀ o ∈ (s.lane tickerId side).opens, ¬o.Is resp.tickerId resp.clientOrderId) :
    (s.answer resp f).lane tickerId side = s.lane tickerId side := by
  have hne' : ¬(resp.tickerId = tickerId ∧ resp.side = side) := fun h ↦ hne ⟨h.1.symm, h.2.symm⟩
  refine Lane.ext rfl rfl rfl ?_ ?_
  · exact (filter_updateOpen hf s.openOrders).trans (updateOpen_of_forall hother)
  · simp [lane, answer, send, hne']

end Answer

theorem findOpen_mem (h : s.findOpen tickerId orderId = some o) :
    o ∈ s.openOrders ∧ o.Is tickerId orderId :=
  ⟨List.mem_of_find?_eq_some h, by simpa using List.find?_some h⟩

def leave (leavesQty : Qty) (o : OpenOrder) : Option OpenOrder :=
  if leavesQty = 0 then none else some { o with leavesQty := leavesQty }

theorem leave_keeps (leavesQty : Qty) : Keeps (leave leavesQty) := by
  intro o o' h
  unfold leave at h
  split_ifs at h
  cases h
  exact ⟨rfl, rfl⟩

theorem fill_cases (s : OrderSession D) (tickerId : TickerId) (orderId : OrderId) (price : Price)
    (execQty : Qty) : s.fill tickerId orderId price execQty = s ∨
      ∃ o resp, s.findOpen tickerId orderId = some o ∧
        s.fill tickerId orderId price execQty = s.answer resp (leave resp.leavesQty) ∧
        resp.tickerId = tickerId ∧ resp.clientOrderId = orderId ∧ resp.side = o.side ∧
        resp.type = .FILLED ∧ resp.execQty + resp.leavesQty = o.leavesQty := by
  cases hfind : s.findOpen tickerId orderId with
  | none => exact .inl (by simp [fill, hfind])
  | some o =>
    by_cases hle : execQty ≤ o.leavesQty
    · refine .inr ⟨o, ⟨.FILLED, s.engine.clientId, tickerId, orderId, o.marketOrderId, o.side, price, execQty,
        o.leavesQty - execQty⟩, rfl, ?_, rfl, rfl, rfl, rfl, Nat.add_sub_cancel' hle⟩
      simp only [fill, hfind, if_pos hle]
      rfl
    · exact .inl (by simp only [fill, hfind, if_neg hle])

theorem fill_change (hinv : Inv s) (tickerId : TickerId) (orderId : OrderId) (price : Price)
    (execQty : Qty) : Change strict s (s.fill tickerId orderId price execQty) := by
  rcases s.fill_cases tickerId orderId price execQty with
    h | ⟨o, resp, hfind, h, rfl, rfl, hside, ht, hqty⟩
  · rw [h]
    exact .still rfl fun _ _ ↦ rfl
  · obtain ⟨ho, his⟩ := findOpen_mem hfind
    obtain ⟨hopens, hother⟩ := hinv.open_unique ho his
    rw [← hside] at hopens hother
    rw [h]
    refine .moves resp.tickerId resp.side ⟨le_rfl, ?_, fun t side hne ↦ ?_⟩
    · rw [lane_answer_self _ (leave_keeps _) (by simp [ht]) hopens his, leave, apply_ite Option.toList,
        Option.toList_none, Option.toList_some]
      exact .exec resp hopens ht his.2.symm hqty
    · exact lane_answer_of_ne _ (leave_keeps _) hne (hother t side hne)

theorem cancel_cases (s : OrderSession D) (hfind : s.findOpen r.tickerId r.orderId = some o) : ∃ resp,
    s.cancel r = s.answer resp (fun _ ↦ none) ∧ resp.tickerId = r.tickerId ∧
      resp.clientOrderId = r.orderId ∧ resp.side = o.side ∧ resp.type = .CANCELED := by
  refine ⟨⟨.CANCELED, r.clientId, r.tickerId, r.orderId, o.marketOrderId, o.side, o.price, Qty_INVALID,
    o.leavesQty⟩, ?_, rfl, rfl, rfl, rfl⟩
  simp only [cancel, hfind]
  rfl

theorem cancel_change (hinv : Inv s) (hreq : s.requests = r :: requests) (ht : r.type = .CANCEL)
    (hfind : (s.findOpen r.tickerId r.orderId).isSome) : Change strict s ((s.pop requests).cancel r) := by
  obtain ⟨o, hfind⟩ := Option.isSome_iff_exists.mp hfind
  obtain ⟨ho, his⟩ := findOpen_mem hfind
  obtain ⟨hopens, hother⟩ := hinv.open_unique ho his
  obtain ⟨cancels, hcancels, hpop⟩ := lane_pop_cancel hreq ht
  obtain ⟨resp, hcancel, ht', hid', hside', htype⟩ := (s.pop requests).cancel_cases hfind
  -- the id that is asked for belongs to one side only
  have hside : o.side = r.side := by
    have hmem : o ∈ (s.lane r.tickerId o.side).opens := hopens ▸ List.mem_singleton_self o
    obtain ⟨-, hid, hstate, -⟩ := (hinv.sound r.tickerId o.side).phase.of_open hmem
    exact (hinv.own _ _ _ _ _ (.inr ⟨r, hcancels ▸ List.mem_cons_self, rfl⟩)
      (.inl ⟨hstate, hid.symm.trans his.2⟩)).2
  rw [hside] at hopens hother hside'
  have hkeep : Keeps fun _ ↦ none := fun _ _ h ↦ by cases h
  rw [hcancel]
  refine .moves r.tickerId r.side ⟨le_rfl, ?_, fun t side hne ↦ ?_⟩
  · have hopens' : ((s.pop requests).lane resp.tickerId resp.side).opens = [o] := by
      rw [ht', hside']
      exact hopens
    have hlane := lane_answer_self resp hkeep (by simp [htype]) hopens' (by rwa [ht', hid'])
    rw [ht', hside', hpop] at hlane
    rw [hlane]
    exact .close hcancels hopens his.2 htype hid'
  · rw [lane_answer_of_ne resp hkeep (by rwa [ht', hside']) (by rw [ht', hid']; exact hother t side hne),
      lane_pop_of_ne hreq hne]

theorem process_engine (s : OrderSession D) (rests cancels : Bool) : ∃ requests,
    (s.process rests cancels).engine = { s.engine with outgoingOgwRequests := requests } := by
  unfold process
  cases hreq : s.requests with
  | nil => exact ⟨s.requests, rfl⟩
  | cons r requests =>
    refine ⟨requests, ?_⟩
    dsimp only
    cases r.type with
    | NEW | INVALID => rfl
    | CANCEL => cases cancels <;> rfl

theorem fill_engine (s : OrderSession D) (tickerId : TickerId) (orderId : OrderId) (price : Price)
    (execQty : Qty) : (s.fill tickerId orderId price execQty).engine = s.engine := by
  rcases s.fill_cases tickerId orderId price execQty with h | ⟨o, resp, -, h, -⟩
  · rw [h]
  · rw [h]
    rfl

theorem refuse_change (hreq : s.requests = r :: requests) (ht : r.type = .CANCEL)
    (hstrict : strict → ¬(s.findOpen r.tickerId r.orderId).isSome) :
    Change strict s ((s.pop requests).refuse r) := by
  obtain ⟨cancels, hcancels, hpop⟩ := lane_pop_cancel hreq ht
  have hlane : ∀ t side, ((s.pop requests).refuse r).lane t side = (s.pop requests).lane t side := by
    intro t side
    unfold refuse
    rw [lane_send]
    simp
  refine .moves r.tickerId r.side ⟨le_rfl, ?_, fun t side hne ↦ ?_⟩
  · rw [hlane, hpop]
    refine .refuse hcancels fun h o ho hid ↦ hstrict h (List.find?_isSome.mpr ⟨o, ?_, ?_⟩)
    · exact List.mem_of_mem_filter ho
    · have hkey := (List.mem_filter.mp ho).2
      simp only [decide_eq_true_eq] at hkey ⊢
      exact ⟨hkey.1, hid⟩
  · rw [hlane, lane_pop_of_ne hreq hne]

end Exchange

section Step

variable {D : Type} {strict : Prop} {s s' : OrderSession D}

/-- The exchange cancels only orders that are open. -/
def Honest (s : OrderSession D) : SessionEvent → Prop
  | .process _ cancels => ∀ r ∈ s.requests.head?, r.type = .CANCEL → cancels = true →
      (s.findOpen r.tickerId r.orderId).isSome
  | _ => True

instance (s : OrderSession D) (e : SessionEvent) : Decidable (s.Honest e) := by
  cases e <;> unfold Honest <;> infer_instance

/-- The exchange cancels the orders that are open, and keeps none open without a quantity. -/
def Follows (s : OrderSession D) : SessionEvent → Prop
  | .process rests cancels => rests = false ∧ ∀ r ∈ s.requests.head?, r.type = .CANCEL →
      (cancels = true ↔ (s.findOpen r.tickerId r.orderId).isSome)
  | _ => True

instance (s : OrderSession D) (e : SessionEvent) : Decidable (s.Follows e) := by
  cases e <;> unfold Follows <;> infer_instance

theorem Follows.honest {e : SessionEvent} (h : s.Follows e) : s.Honest e := by
  cases e with
  | process rests cancels => exact fun r hr ht hc ↦ (h.2 r hr ht).mp hc
  | moveOrders | updateBBO | fill | deliver => trivial

theorem process_change (hinv : Inv s) {rests cancels : Bool}
    (hhonest : s.Honest (.process rests cancels))
    (hstrict : strict → s.Follows (.process rests cancels)) :
    Change strict s (s.process rests cancels) := by
  cases hreq : s.requests with
  | nil =>
    simp only [process, hreq]
    exact .still rfl fun _ _ ↦ rfl
  | cons r requests =>
    have hhead : r ∈ s.requests.head? := by simp [hreq]
    cases ht : r.type with
    | NEW =>
      simp only [process, hreq, ht]
      exact accept_change hreq ht rests
    | CANCEL =>
      cases cancels with
      | true =>
        simp only [process, hreq, ht, if_true]
        exact cancel_change hinv hreq ht (hhonest r hhead ht rfl)
      | false =>
        simp only [process, hreq, ht, Bool.false_eq_true, if_false]
        exact refuse_change hreq ht fun h hopen ↦
          Bool.false_ne_true (((hstrict h).2 r hhead ht).mpr hopen)
    | INVALID =>
      have hreq' : s.engine.outgoingOgwRequests = r :: requests := hreq
      simp only [process, hreq, ht]
      refine .still rfl fun t side ↦ Lane.ext rfl ?_ ?_ rfl rfl
      · simp [lane, hreq', ht, OrderSession.requests]
      · simp [lane, hreq', ht, OrderSession.requests]

/-- What the response `r`, the next one of the queue, does to the session. -/
structure Handles (s s' : OrderSession D) (r : MEClientResponse) : Prop where
  responses : s.responses = r :: s'.responses
  requests : s'.requests = s.requests
  openOrders : s'.openOrders = s.openOrders
  nextId : s'.nextId = s.nextId
  riskCfg : s'.engine.riskCfg = s.engine.riskCfg
  slot : ∀ t side, s'.slot t side =
    if t = r.tickerId ∧ side = r.side then OrderManager.applyResponse (s.slot r.tickerId r.side) r
    else s.slot t side
  position : ∀ t, s'.position t =
    if r.type = .FILLED ∧ t = r.tickerId then
      toInt32 (s.position t + r.execQty * sideToValue r.side)
    else s.position t

theorem deliver_cases [Double D] (h : s.deliver = .ok s') : s' = s ∨ ∃ r, Handles s s' r := by
  unfold deliver at h
  split at h
  · exact .inl (Except.ok.inj h).symm
  · next r responses hresp =>
    obtain ⟨e, he, hs⟩ := bind_eq_ok h
    obtain rfl := Except.ok.inj hs
    obtain rfl := TradeEngine.onOrderUpdate_eq he
    refine .inr ⟨r, hresp, rfl, rfl, rfl, rfl, fun t side ↦ ?_, fun t ↦ ?_⟩
    · exact OrderManager.setOrder_apply _ _ _ _ t side
    · simp only [position]
      by_cases ht : r.type = .FILLED <;> by_cases hkey : t = r.tickerId
      · subst hkey
        simp [ht, PositionInfo.newPosition]
      · simp [ht, hkey]
      · simp [ht]
      · simp [ht]

namespace Handles

variable {r : MEClientResponse}

theorem lane (h : Handles s s' r) (tickerId : TickerId) (side : Side) :
    s'.lane tickerId side = { s.lane tickerId side with
      order := s'.slot tickerId side
      resps := (s'.lane tickerId side).resps } :=
  Lane.ext rfl (by simp [OrderSession.lane, h.requests]) (by simp [OrderSession.lane, h.requests])
    (by simp [OrderSession.lane, h.openOrders]) rfl

theorem resps_self (h : Handles s s' r) (ht : r.type ≠ .CANCEL_REJECTED) :
    (s.lane r.tickerId r.side).resps = r :: (s'.lane r.tickerId r.side).resps := by
  simp [OrderSession.lane, h.responses, ht]

theorem resps_other (h : Handles s s' r) {tickerId : TickerId} {side : Side}
    (hne : r.type = .CANCEL_REJECTED ∨ ¬(r.tickerId = tickerId ∧ r.side = side)) :
    (s'.lane tickerId side).resps = (s.lane tickerId side).resps := by
  rcases hne with ht | hne
  · simp [OrderSession.lane, h.responses, ht]
  · simp [OrderSession.lane, h.responses, hne]

theorem slot_rejected (h : Handles s s' r) (ht : r.type = .CANCEL_REJECTED) (tickerId : TickerId)
    (side : Side) : s'.slot tickerId side = s.slot tickerId side := by
  rw [h.slot]
  split_ifs with hkey
  · obtain ⟨rfl, rfl⟩ := hkey
    exact OrderManager.applyResponse_cancelRejected ht
  · rfl

theorem change (h : Handles s s' r) : Change strict s s' := by
  by_cases ht : r.type = .CANCEL_REJECTED
  · refine .still h.nextId fun t side ↦ ?_
    rw [h.lane, h.resps_other (.inl ht), h.slot_rejected ht]
    rfl
  · refine .moves r.tickerId r.side ⟨h.nextId.ge, ?_, fun t side hne ↦ ?_⟩
    · rw [h.lane, h.slot, if_pos ⟨rfl, rfl⟩]
      exact .deliver (h.resps_self ht)
    · have hne' : ¬(r.tickerId = t ∧ r.side = side) := fun h ↦ hne ⟨h.1.symm, h.2.symm⟩
      rw [h.lane, h.resps_other (.inr hne'), h.slot, if_neg hne]
      rfl

end Handles

variable [Double D]

def SendsEmpty (s : OrderSession D) : SessionEvent → Prop
  | .moveOrders tickerId bidPrice _ clip =>
    clip = 0 ∧ (s.Submits tickerId bidPrice .BUY clip ∨ s.Submits tickerId bidPrice .SELL clip)
  | _ => False

instance (s : OrderSession D) (e : SessionEvent) : Decidable (s.SendsEmpty e) := by
  cases e <;> unfold SendsEmpty <;> infer_instance

theorem moveOrders_eq {tickerId : TickerId} {bidPrice askPrice : Price} {clip : Qty}
    (h : s.step (.moveOrders tickerId bidPrice askPrice clip) = .ok s') :
    s' = (s.moveOrder tickerId bidPrice .BUY clip).moveOrder tickerId bidPrice .SELL clip := by
  by_cases ht : tickerId < ME_MAX_TICKERS
  · simp only [step, TradeEngine.moveOrders_eq _ ht, ok_bind] at h
    exact (Except.ok.inj h).symm
  · simp [step, TradeEngine.moveOrders, OrderManager.moveOrders, ht] at h

theorem submits_moveOrder {tickerId : TickerId} {price : Price} {side side' : Side} {qty : Qty}
    (hne : side' ≠ side) : (s.moveOrder tickerId price side qty).Submits tickerId price side' qty →
      s.Submits tickerId price side' qty := by
  have hslot : (s.moveOrder tickerId price side qty).slot tickerId side' = s.slot tickerId side' :=
    OrderManager.moveOrder_frame hne
  unfold Submits
  rw [hslot]
  exact id

theorem updateBBO_cases {tickerId : TickerId} {bbo : BBO} (h : s.step (.updateBBO tickerId bbo) = .ok s') :
    let positions := s.engine.positionKeeper
    s' = { s with engine := { s.engine with
      positionKeeper := Function.update positions tickerId ((positions tickerId).updateBBO bbo) } } := by
  simp only [step, TradeEngine.updateBBO, PositionKeeper.updateBBO] at h
  split_ifs at h with ht
  · exact (Except.ok.inj h).symm
  · cases h

theorem nextId_step {e : SessionEvent} (h : s.step e = .ok s') : s'.nextId ≤ s.nextId + sentNews s s' := by
  have hsame : ∀ {s' : OrderSession D}, s'.nextId = s.nextId → s'.nextId ≤ s.nextId + sentNews s s' :=
    fun h ↦ h.trans_le (Nat.le_add_right _ _)
  cases e with
  | moveOrders tickerId bidPrice askPrice clip =>
    rw [moveOrders_eq h]
    obtain ⟨n₁, hnews₁, hid₁⟩ := s.moveOrder_news tickerId bidPrice .BUY clip
    obtain ⟨n₂, hnews₂, hid₂⟩ :=
      (s.moveOrder tickerId bidPrice .BUY clip).moveOrder_news tickerId bidPrice .SELL clip
    unfold sentNews
    omega
  | updateBBO tickerId bbo =>
    rw [updateBBO_cases h]
    exact hsame rfl
  | process rests cancels =>
    obtain rfl := Except.ok.inj h
    obtain ⟨requests, hengine⟩ := s.process_engine rests cancels
    exact hsame (by rw [nextId, hengine, nextId])
  | fill tickerId orderId price execQty =>
    obtain rfl := Except.ok.inj h
    exact hsame (by rw [nextId, fill_engine, nextId])
  | deliver =>
    rcases deliver_cases h with rfl | ⟨r, hr⟩
    · exact hsame rfl
    · exact hsame hr.nextId

/-- The ids do not run out in this step. -/
def HasIds (s : OrderSession D) (e : SessionEvent) : Prop :=
  ∀ s', s.step e = .ok s' → s.nextId + sentNews s s' < 2 ^ 64

theorem hasIds_of_newsSent {clientId : ClientId} {riskCfg : TickerId → RiskCfg D}
    {events : List SessionEvent} (h : newsSent (new clientId riskCfg) events < 2 ^ 64 - 1) :
    Guarded step HasIds (new clientId riskCfg) events := by
  refine .of_runSum (fun s e s' hs ↦ nextId_step hs) ?_
  have hfirst : (new clientId riskCfg).nextId = 1 := rfl
  unfold newsSent at h
  omega

/-- An event moves at most the two lanes of a ticker, one after the other. -/
theorem step_changes (hinv : Inv s) {e : SessionEvent} (hhonest : s.Honest e) (hids : s.HasIds e)
    (hstrict : strict → s.Follows e ∧ ¬s.SendsEmpty e) (h : s.step e = .ok s') :
    ∃ s₁, Change strict s s₁ ∧ Change strict s₁ s' := by
  have hstill : ∀ s : OrderSession D, Change strict s s := fun s ↦ .still rfl fun _ _ ↦ rfl
  cases e with
  | moveOrders tickerId bidPrice askPrice clip =>
    have hids := hids s' h
    rw [moveOrders_eq h] at hids ⊢
    obtain ⟨n₁, hnews₁, hid₁⟩ := s.moveOrder_news tickerId bidPrice .BUY clip
    obtain ⟨n₂, hnews₂, hid₂⟩ :=
      (s.moveOrder tickerId bidPrice .BUY clip).moveOrder_news tickerId bidPrice .SELL clip
    unfold sentNews at hids
    have hfirst : Change strict s (s.moveOrder tickerId bidPrice .BUY clip) := by
      refine moveOrder_change hinv (fun hs hsub h0 ↦ (hstrict hs).2 ⟨h0, .inl hsub⟩) ?_
      unfold sentNews
      omega
    refine ⟨_, hfirst, moveOrder_change (hinv.change hfirst) (fun hs hsub h0 ↦ ?_) ?_⟩
    · exact (hstrict hs).2 ⟨h0, .inr (submits_moveOrder (by decide) hsub)⟩
    · unfold sentNews
      omega
  | updateBBO tickerId bbo =>
    rw [updateBBO_cases h]
    exact ⟨_, hstill s, .still rfl fun _ _ ↦ rfl⟩
  | process rests cancels =>
    cases h
    exact ⟨_, hstill s, process_change hinv hhonest fun hs ↦ (hstrict hs).1⟩
  | fill tickerId orderId price execQty =>
    cases h
    exact ⟨_, hstill s, fill_change hinv tickerId orderId price execQty⟩
  | deliver =>
    rcases deliver_cases h with rfl | ⟨r, hr⟩
    · exact ⟨_, hstill s', hstill s'⟩
    · exact ⟨_, hstill s, hr.change⟩

theorem Inv.step (hinv : Inv s) {e : SessionEvent} (hok : s.Honest e ∧ s.HasIds e)
    (h : s.step e = .ok s') : Inv s' := by
  have hchanges : ∃ s₁, Change False s s₁ ∧ Change False s₁ s' :=
    step_changes hinv hok.1 hok.2 (fun h ↦ h.elim) h
  obtain ⟨s₁, h₁, h₂⟩ := hchanges
  exact (hinv.change h₁).change h₂

end Step

end LowLatency.Trading.OrderSession
