import LowLatency.Book.Sweep
import LowLatency.Exchange.MEOrderBook
import LowLatency.GuardedRun

namespace LowLatency.Exchange

open Common Book

/-- The messages about one trade, and the resting order that it was with. -/
structure Execution where
  itr : Ptr
  aggressor : MEClientResponse
  passive : MEClientResponse
  trade : MEMarketUpdate
  after : MEMarketUpdate

def Execution.outputs (x : Execution) : List Output :=
  [.response x.aggressor, .response x.passive, .update x.trade, .update x.after]

theorem Execution.update_mem_outputs {xs : List Execution} {u : MEMarketUpdate}
    (h : .update u ∈ xs.flatMap Execution.outputs) : ∃ x ∈ xs, u = x.trade ∨ u = x.after := by
  obtain ⟨x, hx, hu⟩ := List.mem_flatMap.mp h
  refine ⟨x, hx, ?_⟩
  simpa [Execution.outputs] using hu

namespace MEOrderBook

variable {s : MEOrderBook} {o : NewOrder}

@[simp] theorem onBook_ok {α : Type} (s : MEOrderBook) (x : α) : s.onBook (.ok x) = .ok x := rfl

@[simp] theorem onBook_error {α : Type} (s : MEOrderBook) (f : Fault) :
    s.onBook (.error f : Except Fault α) = .error ⟨f, s.sent⟩ := rfl

theorem outputsOf_ok {c : Call} {s' : MEOrderBook} {outs : List Output} (hrun : s.step c = .ok s')
    (h : s'.sent = s.sent ++ outs) : s.outputsOf c = outs := by
  simp only [outputsOf, hrun, h, List.drop_left]

theorem outputsOf_error {c : Call} {h : Halt} {outs : List Output} (hrun : s.step c = .error h)
    (hsent : h.sent = s.sent ++ outs) : s.outputsOf c = outs := by
  simp only [outputsOf, hrun, hsent, List.drop_left]

theorem onBook_bind {α β : Type} (s : MEOrderBook) (x : Except Fault α) (f : α → Except Fault β) :
    s.onBook (x >>= f) = s.onBook x >>= fun y ↦ s.onBook (f y) := by
  cases x <;> rfl

def fillQty (s : MEOrderBook) (itr : Ptr) (leavesQty : Qty) : Qty :=
  min leavesQty (s.book.order itr).qty

/-- What `match` reports of a trade with the order at `itr`. -/
def execution (s : MEOrderBook) (o : NewOrder) (id : OrderId) (itr : Ptr) (leavesQty : Qty) :
    Execution :=
  let order := s.book.order itr
  let fillQty := s.fillQty itr leavesQty
  { itr := itr
    aggressor := ⟨.FILLED, o.clientId, o.tickerId, o.clientOrderId, id, o.side, order.price, fillQty,
      leavesQty - fillQty⟩
    passive := ⟨.FILLED, order.key.clientId, o.tickerId, order.key.clientOrderId,
      order.key.marketOrderId, order.side, order.price, fillQty, order.qty - fillQty⟩
    trade := ⟨.TRADE, OrderId_INVALID, o.tickerId, o.side, order.price, fillQty, Priority_INVALID⟩
    after := if order.qty - fillQty = 0 then
        ⟨.CANCEL, order.key.marketOrderId, o.tickerId, order.side, order.price, order.qty,
          Priority_INVALID⟩
      else
        ⟨.MODIFY, order.key.marketOrderId, o.tickerId, order.side, order.price, order.qty - fillQty,
          order.priority⟩ }

theorem execution_order (s : MEOrderBook) (o : NewOrder) (id : OrderId) (itr : Ptr) (leavesQty : Qty) :
    (s.execution o id itr leavesQty).after.orderId =
      (s.execution o id itr leavesQty).passive.marketOrderId := by
  simp only [execution]
  split <;> rfl

/-- The book when the trade is made and reported, before a filled order is removed. -/
def reported (s : MEOrderBook) (o : NewOrder) (id : OrderId) (itr : Ptr) (leavesQty : Qty) :
    MEOrderBook :=
  { s with
    book := s.book.setQty itr ((s.book.order itr).qty - s.fillQty itr leavesQty)
    sent := s.sent ++ (s.execution o id itr leavesQty).outputs }

theorem order_setQty (s : MEOrderBook) (itr : Ptr) (qty : Qty) :
    (s.book.setQty itr qty).order itr = { s.book.order itr with qty := qty } := by
  simp [LevelBook.order, LevelBook.writeOrder, MemPool.get_modify]

theorem matchOrder_eq (s : MEOrderBook) (o : NewOrder) (id : OrderId) (itr : Ptr) (leavesQty : Qty) :
    s.matchOrder o.tickerId o.clientId o.side o.clientOrderId id itr leavesQty =
      if (s.book.order itr).qty - s.fillQty itr leavesQty = 0 then
        (s.reported o id itr leavesQty).onBook ((s.reported o id itr leavesQty).book.removeOrder itr)
          >>= fun b ↦ .ok ({ s.reported o id itr leavesQty with book := b },
            leavesQty - s.fillQty itr leavesQty)
      else .ok (s.reported o id itr leavesQty, leavesQty - s.fillQty itr leavesQty) := by
  by_cases h : (s.book.order itr).qty - s.fillQty itr leavesQty = 0
  · have h' : (s.book.order itr).qty - min leavesQty (s.book.order itr).qty = 0 := h
    simp only [if_pos h, reported, execution, Execution.outputs, matchOrder, order_setQty, if_pos h',
      sendClientResponse, sendMarketUpdate, List.append_assoc, List.cons_append, List.nil_append]
    rfl
  · have h' : ¬ (s.book.order itr).qty - min leavesQty (s.book.order itr).qty = 0 := h
    simp only [if_neg h, reported, execution, Execution.outputs, matchOrder, order_setQty, if_neg h',
      sendClientResponse, sendMarketUpdate, List.append_assoc, List.cons_append, List.nil_append]
    rfl

/-- What has been sent when a computation ends, whether or not it returns. -/
def sentOf {α : Type} (x : Except Halt (MEOrderBook × α)) : List Output :=
  match x with
  | .ok r => r.1.sent
  | .error h => h.sent

theorem sentOf_matchOrder (s : MEOrderBook) (o : NewOrder) (id : OrderId) (itr : Ptr)
    (leavesQty : Qty) :
    sentOf (s.matchOrder o.tickerId o.clientId o.side o.clientOrderId id itr leavesQty) =
      s.sent ++ (s.execution o id itr leavesQty).outputs := by
  rw [matchOrder_eq]
  split
  · cases (s.reported o id itr leavesQty).book.removeOrder itr <;> rfl
  · rfl

/-- The trades that the loop makes, also those before it breaks off. -/
def trades (o : NewOrder) (id : OrderId) (other : Side) : ℕ → MEOrderBook → Qty → List Execution
  | 0, _, _ => []
  | fuel + 1, s, leavesQty =>
    match s.nextMatch o.price other leavesQty with
    | .ok (some itr) => s.execution o id itr leavesQty ::
      match s.matchOrder o.tickerId o.clientId o.side o.clientOrderId id itr leavesQty with
      | .ok (s', leavesQty') => trades o id other fuel s' leavesQty'
      | .error _ => []
    | _ => []

theorem nextMatch_error {price : Price} {other : Side} {leavesQty : Qty} {h : Halt}
    (hn : s.nextMatch price other leavesQty = .error h) : h.sent = s.sent := by
  unfold nextMatch at hn
  split at hn
  · cases hn
  · split at hn
    · cases hn
    · next l _ =>
      cases hf : deref (s.book.firstOrder l) with
      | error f =>
        rw [hf] at hn
        cases hn
        rfl
      | ok itr =>
        rw [hf, onBook_ok, ok_bind] at hn
        split at hn <;> cases hn

theorem sentOf_matchLoop (o : NewOrder) (id : OrderId) (other : Side) (fuel : ℕ) (s : MEOrderBook)
    (leavesQty : Qty) :
    sentOf (matchLoop o.tickerId o.clientId o.side o.clientOrderId id o.price other fuel s leavesQty) =
      s.sent ++ (trades o id other fuel s leavesQty).flatMap Execution.outputs := by
  induction fuel generalizing s leavesQty with
  | zero => exact (List.append_nil _).symm
  | succ fuel ih =>
    rw [matchLoop, trades]
    cases hn : s.nextMatch o.price other leavesQty with
    | error h => exact (nextMatch_error hn).trans (List.append_nil _).symm
    | ok next =>
      rw [ok_bind]
      cases next with
      | none => exact (List.append_nil _).symm
      | some itr =>
        have hsent := sentOf_matchOrder s o id itr leavesQty
        dsimp only
        cases hm : s.matchOrder o.tickerId o.clientId o.side o.clientOrderId id itr leavesQty with
        | error h =>
          rw [hm] at hsent
          simpa using hsent
        | ok r =>
          rw [hm] at hsent
          rw [ok_bind, ih, List.flatMap_cons, ← List.append_assoc, ← hsent]
          rfl

theorem mem_trades {o : NewOrder} {id : OrderId} {other : Side} {fuel : ℕ} {leavesQty : Qty}
    {x : Execution} (hx : x ∈ trades o id other fuel s leavesQty) :
    ∃ (s' : MEOrderBook) (itr : Ptr) (leavesQty' : Qty), x = s'.execution o id itr leavesQty' := by
  induction fuel generalizing s leavesQty with
  | zero => cases hx
  | succ fuel ih =>
    rw [trades] at hx
    split at hx
    · next itr _ =>
      rcases List.mem_cons.mp hx with rfl | hx
      · exact ⟨s, itr, leavesQty, rfl⟩
      · split at hx
        · exact ih hx
        · cases hx
    · cases hx

def acceptance (s : MEOrderBook) (o : NewOrder) : MEClientResponse :=
  ⟨.ACCEPTED, o.clientId, o.tickerId, o.clientOrderId, s.nextMarketOrderId, o.side, o.price, 0, o.qty⟩

def accepted (s : MEOrderBook) (o : NewOrder) : MEOrderBook :=
  s.generateNewMarketOrderId.2.sendClientResponse (s.acceptance o)

theorem step_add (s : MEOrderBook) (o : NewOrder) : s.step (.add o) =
    (s.accepted o).checkForMatch o.clientId o.clientOrderId o.tickerId o.side o.price o.qty
      s.nextMarketOrderId >>= fun r ↦
        if r.2 ≠ 0 then
          r.1.addResidual o.clientId o.clientOrderId o.tickerId o.side o.price s.nextMarketOrderId r.2
        else .ok r.1 := rfl

/-- The trades of `checkForMatch`, under the id that it reports for the incoming order. -/
def tradesOf (s : MEOrderBook) (o : NewOrder) : List Execution :=
  match o.side with
  | .INVALID => []
  | _ => trades o (s.nextMarketOrderId % 2 ^ 32) (against o.side) (s.book.orderPool.size + 2)
      (s.accepted o) o.qty

theorem checkForMatch_eq (s : MEOrderBook) (hs : o.side ≠ .INVALID) (id : OrderId) :
    s.checkForMatch o.clientId o.clientOrderId o.tickerId o.side o.price o.qty id =
      matchLoop o.tickerId o.clientId o.side o.clientOrderId (id % 2 ^ 32) o.price (against o.side)
        (s.book.orderPool.size + 2) s o.qty := by
  unfold checkForMatch
  cases hside : o.side with
  | INVALID => exact absurd hside hs
  | BUY => rfl
  | SELL => rfl

theorem tradesOf_eq (s : MEOrderBook) (hs : o.side ≠ .INVALID) : s.tradesOf o =
    trades o (s.nextMarketOrderId % 2 ^ 32) (against o.side) (s.book.orderPool.size + 2) (s.accepted o)
      o.qty := by
  unfold tradesOf
  cases hside : o.side with
  | INVALID => exact absurd hside hs
  | BUY => rfl
  | SELL => rfl

theorem mem_tradesOf {x : Execution} (hx : x ∈ s.tradesOf o) :
    ∃ (s' : MEOrderBook) (itr : Ptr) (leavesQty : Qty),
      x = s'.execution o (s.nextMarketOrderId % 2 ^ 32) itr leavesQty := by
  by_cases hs : o.side = .INVALID
  · rw [tradesOf, hs] at hx
    cases hx
  · rw [tradesOf_eq s hs] at hx
    exact mem_trades hx

theorem sentOf_checkForMatch (s : MEOrderBook) (o : NewOrder) :
    sentOf ((s.accepted o).checkForMatch o.clientId o.clientOrderId o.tickerId o.side o.price o.qty
      s.nextMarketOrderId) =
        (s.accepted o).sent ++ (s.tradesOf o).flatMap Execution.outputs := by
  by_cases hs : o.side = .INVALID
  · simp only [checkForMatch, tradesOf, hs]
    exact (List.append_nil _).symm
  · rw [checkForMatch_eq _ hs, sentOf_matchLoop, tradesOf_eq _ hs]
    rfl

theorem ends_onBook_sent {α : Type} (s : MEOrderBook) (x : Except Fault α) :
    Ends (s.onBook x) (fun _ ↦ True) fun h ↦ h.sent = s.sent := by
  cases x with
  | ok a => trivial
  | error f => exact (rfl : _ = _)

theorem ends_addResidual_sent (s : MEOrderBook) (clientId : ClientId) (clientOrderId : OrderId)
    (tickerId : TickerId) (side : Side) (price : Price) (newMarketOrderId : OrderId) (leavesQty : Qty) :
    Ends (s.addResidual clientId clientOrderId tickerId side price newMarketOrderId leavesQty)
      (fun s' ↦ ∃ u : MEMarketUpdate, s'.sent = s.sent ++ [.update u] ∧ u.type = .ADD ∧
        u.orderId = newMarketOrderId)
      fun h ↦ h.sent = s.sent := by
  unfold addResidual
  refine (ends_onBook_sent s _).bind fun priority _ ↦ (ends_onBook_sent s _).bind ?_
  rintro ⟨order, pool⟩ -
  exact (ends_onBook_sent s _).bind fun b _ ↦ ⟨_, rfl, rfl, rfl⟩

/-- What there is to send behind `s` and this order: the acceptance, the executions, and then nothing or
the update that adds the rest. -/
def SentByAdd (s : MEOrderBook) (o : NewOrder) (outs : List Output) : Prop :=
  ∃ rest, outs = s.sent ++
      (.response (s.acceptance o) :: (s.tradesOf o).flatMap Execution.outputs ++ rest) ∧
    ∀ out ∈ rest, ∃ u : MEMarketUpdate, out = .update u ∧ u.type = .ADD ∧
      u.orderId = s.nextMarketOrderId

theorem ends_checkForMatch_sent (s : MEOrderBook) (o : NewOrder) :
    Ends ((s.accepted o).checkForMatch o.clientId o.clientOrderId o.tickerId o.side o.price o.qty
        s.nextMarketOrderId)
      (fun r ↦ r.1.sent = s.sent ++
        (.response (s.acceptance o) :: (s.tradesOf o).flatMap Execution.outputs))
      fun h ↦ h.sent = s.sent ++
        (.response (s.acceptance o) :: (s.tradesOf o).flatMap Execution.outputs) := by
  have hsent := (sentOf_checkForMatch s o).trans (List.append_assoc ..)
  cases hm : (s.accepted o).checkForMatch o.clientId o.clientOrderId o.tickerId o.side o.price o.qty
    s.nextMarketOrderId with
  | ok r =>
    rw [hm] at hsent
    exact hsent
  | error h =>
    rw [hm] at hsent
    exact hsent

theorem ends_add_sent (s : MEOrderBook) (o : NewOrder) :
    Ends (s.step (.add o)) (fun s' ↦ s.SentByAdd o s'.sent) fun h ↦ s.SentByAdd o h.sent := by
  have hnone : ∀ outs, outs = s.sent ++ (.response (s.acceptance o) ::
      (s.tradesOf o).flatMap Execution.outputs) → s.SentByAdd o outs := fun outs h ↦
    ⟨[], by rw [h, List.append_nil], List.forall_mem_nil _⟩
  rw [step_add]
  refine ((ends_checkForMatch_sent s o).imp_error fun h ↦ hnone h.sent).bind fun r hr ↦ ?_
  split
  · refine ((ends_addResidual_sent r.1 ..).imp_error fun h hh ↦ hnone _ (hh.trans hr)).imp ?_
    rintro s' ⟨u, hu, htype, hid⟩
    refine ⟨[.update u], by rw [hu, hr, List.append_assoc], ?_⟩
    exact List.forall_mem_singleton.mpr ⟨u, rfl, htype, hid⟩
  · exact hnone _ hr

theorem exists_outputsOf_add (s : MEOrderBook) (o : NewOrder) : ∃ rest : List Output,
    s.outputsOf (.add o) =
      .response (s.acceptance o) :: (s.tradesOf o).flatMap Execution.outputs ++ rest ∧
    ∀ out ∈ rest, ∃ u, out = .update u ∧ u.type = .ADD ∧ u.orderId = s.nextMarketOrderId := by
  have hsent := ends_add_sent s o
  cases hrun : s.step (.add o) with
  | ok s' =>
    obtain ⟨rest, hs', hrest⟩ := hsent.of_ok hrun
    exact ⟨rest, outputsOf_ok hrun hs', hrest⟩
  | error h =>
    obtain ⟨rest, hh, hrest⟩ := hsent.of_error hrun
    exact ⟨rest, outputsOf_error hrun hh, hrest⟩

theorem ends_cancel_sent (s : MEOrderBook) (clientId : ClientId) (orderId : OrderId)
    (tickerId : TickerId) :
    Ends (s.step (.cancel clientId orderId tickerId))
      (fun s' ↦ ∃ outs, s'.sent = s.sent ++ outs ∧ ∀ u ∈ updates outs, ∃ p,
        s.findCancelable clientId orderId = .ok (some p) ∧
        u.orderId = (s.book.order p).key.marketOrderId)
      fun h ↦ h.sent = s.sent := by
  rw [step, cancel]
  cases hf : s.findCancelable clientId orderId with
  | error f => exact (rfl : _ = _)
  | ok r =>
    cases r with
    | none => exact ⟨_, rfl, List.forall_mem_nil _⟩
    | some p =>
      refine (ends_onBook_sent s (s.book.removeOrder p)).bind fun b _ ↦ ?_
      exact ⟨_, List.append_assoc .., List.forall_mem_singleton.mpr ⟨p, rfl, rfl⟩⟩

end MEOrderBook

end LowLatency.Exchange
