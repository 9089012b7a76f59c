import LowLatency.Exchange.OrderServer
import LowLatency.Exchange.OrderTable
import LowLatency.Exchange.PriceTime

namespace LowLatency.Exchange

open Common Book MEOrderBook

/-- The responses for resting orders: `match` sends each directly before its `TRADE`. -/
def passiveFills : List Output → List MEClientResponse
  | .response r :: .update u :: outs =>
    (if u.type = .TRADE then [r] else []) ++ passiveFills (.update u :: outs)
  | _ :: outs => passiveFills outs
  | [] => []

def passiveFill (o : NewOrder) (f : Fill MEOrderKey) : MEClientResponse :=
  ⟨.FILLED, f.entry.key.clientId, o.tickerId, f.entry.key.clientOrderId, f.entry.key.marketOrderId,
    f.entry.side, f.entry.price, f.qty, f.entry.qty - f.qty⟩

theorem passiveFills_fillOutputs (o : NewOrder) (id : OrderId) (f : Fill MEOrderKey)
    (outs : List Output) :
    passiveFills (fillOutputs o id f ++ outs) = passiveFill o f :: passiveFills outs := by
  by_cases h : f.entry.qty = f.qty <;> simp [fillOutputs, passiveFills, passiveFill, h]

theorem passiveFills_flatMap (o : NewOrder) (id : OrderId) (fs : List (Fill MEOrderKey))
    (outs : List Output) : passiveFills (fs.flatMap (fillOutputs o id) ++ outs) =
      fs.map (passiveFill o) ++ passiveFills outs := by
  induction fs with
  | nil => rfl
  | cons f fs ih =>
    rw [List.flatMap_cons, List.append_assoc, passiveFills_fillOutputs, ih]
    rfl

theorem passiveFills_tradeOutputs (a : Ladder MEOrderKey) (o : NewOrder) (id : OrderId)
    {outs : List Output} (h : outs = [] ∨ ∃ e, outs = [restOutput o e]) :
    passiveFills (tradeOutputs a o id ++ outs) =
      (a.fills o.side o.price o.qty).map (passiveFill o) := by
  have hflat := passiveFills_flatMap o (id % 2 ^ 32) (a.fills o.side o.price o.qty) outs
  have hnil : passiveFills outs = [] := by obtain rfl | ⟨e, rfl⟩ := h <;> rfl
  rw [hnil, List.append_nil] at hflat
  rw [tradeOutputs, List.cons_append]
  cases hf : a.fills o.side o.price o.qty with
  | nil =>
    rcases h with rfl | ⟨e, rfl⟩
    · rfl
    · simp [passiveFills, restOutput]
  | cons f fs =>
    rw [hf] at hflat
    rw [← hflat, List.flatMap_cons]
    rfl

def MEOrderBook.Call.clientId : Call → ClientId
  | .add o => o.clientId
  | .cancel clientId _ _ => clientId

/-- An order is for the ticker of the book, to which the matching engine hands no others. -/
def MEOrderBook.OwnBook (s : MEOrderBook) : Call → Prop
  | .add o => o.tickerId = s.tickerId
  | .cancel _ _ _ => True

instance : DecidableRel OwnBook
  | _, .add _ => inferInstanceAs (Decidable (_ = _))
  | _, .cancel _ _ _ => inferInstanceAs (Decidable True)

/-- The response is for the order at `p`: it names the client that added it, its order id and its
ticker. -/
def AddressedTo (arrivals : List (Ptr × NewOrder)) (r : MEClientResponse) (p : Ptr) : Prop :=
  ∃ o, (p, o) ∈ arrivals ∧ r.clientId = o.clientId ∧ r.clientOrderId = o.clientOrderId ∧
    r.tickerId = o.tickerId

/-- The responses of `c` for resting orders go, one for each execution, to whom added the orders. -/
def Session.RoutesFills (x : Session) (c : Call) : Prop :=
  List.Forall₂ (AddressedTo x.arrivals) (passiveFills (x.book.outputsOf c))
    ((x.book.executions c).map Prod.snd)

namespace Session

variable {x x' : Session} {c : Call} {cs : List Call} {tickerId : TickerId}

structure Named (x : Session) (tickerId : TickerId) : Prop where
  sound : x.book.Sound
  ticker : x.book.tickerId = tickerId
  logged : Logged x.arrivals x.book.ladder
  own : ∀ e ∈ x.book.ladder.entries, e.key.clientId = e.key.tickerId
  tickers : ∀ q ∈ x.arrivals, q.2.tickerId = tickerId

theorem named_start (tickerId : TickerId) : (start tickerId).Named tickerId where
  sound := sound_new tickerId
  ticker := rfl
  logged := logged_start tickerId
  own := fun e he ↦ by
    have hnil : (start tickerId).book.ladder.entries = [] := rfl
    simp [hnil] at he
  tickers := fun q hq ↦ by simp [start] at hq

theorem Named.step (h : x.Named tickerId) (hadm : x.book.Admitted c) (hown : x.book.OwnTicker c)
    (hbook : x.book.OwnBook c) (hrun : x.step c = .ok x') : x'.Named tickerId := by
  obtain ⟨hstep, harr⟩ := step_ok.mp hrun
  refine ⟨h.sound.step hadm hstep, ?_, h.logged.step h.sound hadm hrun,
    own_step h.sound hadm hown hstep h.own, fun q hq ↦ ?_⟩
  · exact (step_spec h.sound hadm hstep).2.1.trans h.ticker
  · rw [harr] at hq
    rcases mem_arrive hq with hq | rfl
    · exact h.tickers q hq
    · exact Eq.trans hbook h.ticker

theorem Named.exists_arrival (h : x.Named tickerId) {e : Entry MEOrderKey}
    (he : e ∈ x.book.ladder.entries) : ∃ o, (e.ptr, o) ∈ x.arrivals ∧ e.key.clientId = o.clientId ∧
      e.key.clientOrderId = o.clientOrderId ∧ o.tickerId = tickerId := by
  obtain ⟨⟨p, o⟩, ho, rfl⟩ := List.mem_map.mp ((h.logged.mem_iff e.ptr).mpr ⟨e, he, rfl⟩)
  obtain ⟨-, hk, hk', -, -⟩ := h.logged.made e he o ho
  exact ⟨o, ho, (h.own e he).trans hk, hk', h.tickers _ ho⟩

theorem fill_entry_mem {a : Ladder MEOrderKey} {o : NewOrder} (hs : o.side ≠ .INVALID)
    {f : Fill MEOrderKey} (hf : f ∈ a.fills o.side o.price o.qty) : f.entry ∈ a.entries :=
  Ladder.mem_entries.mpr ⟨against o.side, by simpa using hs,
    (List.takeWhile_sublist _).mem (sweep_entry_mem hf)⟩

theorem Named.routesFills (h : x.Named tickerId) (hadm : x.book.Admitted c)
    (hbook : x.book.OwnBook c) : x.RoutesFills c := by
  cases c with
  | cancel clientId orderId tickerId =>
    have hnil : passiveFills (x.book.outputsOf (.cancel clientId orderId tickerId)) = [] := by
      rcases outputsOf_cancel h.sound clientId orderId tickerId with
        ⟨e, -, -, -, hout⟩ | hout | ⟨-, hout⟩ <;> rw [hout] <;> rfl
    rw [RoutesFills, hnil]
    exact .nil
  | add o =>
    have hpassive : passiveFills (x.book.outputsOf (.add o)) =
        (x.book.ladder.fills o.side o.price o.qty).map (passiveFill o) := by
      rcases outputsOf_add h.sound hadm with hout | hout
      · rw [hout, ← List.append_nil (tradeOutputs _ _ _), passiveFills_tradeOutputs _ _ _ (.inl rfl)]
      · rw [hout, passiveFills_tradeOutputs _ _ _ (.inr ⟨_, rfl⟩)]
    rw [RoutesFills, hpassive, executions_ptrs h.sound hadm.1, List.forall₂_map_left_iff,
      List.forall₂_map_right_iff, List.forall₂_same]
    intro f hf
    obtain ⟨o', ho', hc, hc', ht⟩ := h.exists_arrival (fill_entry_mem hadm.1 hf)
    exact ⟨o', ho', hc, hc', (Eq.trans hbook h.ticker).trans ht.symm⟩

theorem Named.clients (h : x.Named tickerId) (hadm : x.book.Admitted c) {r : MEClientResponse}
    (hr : .response r ∈ x.book.outputsOf c) :
    r.clientId = c.clientId ∨ ∃ q ∈ x.arrivals, r.clientId = q.2.clientId := by
  cases c with
  | cancel clientId orderId tickerId =>
    left
    rcases outputsOf_cancel h.sound clientId orderId tickerId with
        ⟨e, -, -, -, hout⟩ | hout | ⟨-, hout⟩
    all_goals simp [hout, canceledOutputs, rejection] at hr
    all_goals rw [hr]; rfl
  | add o =>
    have hmem : .response r ∈ tradeOutputs x.book.ladder o x.book.nextMarketOrderId := by
      rcases outputsOf_add h.sound hadm with hout | hout
      · exact hout ▸ hr
      · simpa [hout, restOutput] using hr
    rcases List.mem_cons.mp hmem with hacc | hfill
    · exact .inl (by rw [Output.response.inj hacc]; rfl)
    · obtain ⟨f, hf, hout⟩ := List.mem_flatMap.mp hfill
      simp only [fillOutputs, List.mem_cons, Output.response.injEq, reduceCtorEq, List.not_mem_nil,
        or_false] at hout
      rcases hout with rfl | rfl
      · exact .inl rfl
      · obtain ⟨o', ho', hc, -⟩ := h.exists_arrival (fill_entry_mem hadm.1 hf)
        exact .inr ⟨_, ho', hc⟩

theorem responses_routed (hg : Guarded Session.step (fun x c ↦
      x.book.Admitted c ∧ x.book.OwnTicker c ∧ x.book.OwnBook c) (start tickerId) (cs ++ [c]))
    (hrun : (start tickerId).run cs = .ok x) : x.RoutesFills c ∧
    ∀ v : OrderServer, (∀ c' ∈ cs ++ [c], v.Bound c'.clientId) →
      ∃ v', v.sendResponses (responses (x.book.sent ++ x.book.outputsOf c)) = .ok v' := by
  obtain ⟨hcs, hc⟩ := hg.append
  obtain ⟨hadm, -, hbook⟩ := (hc x hrun).head
  have hinv := hcs.history (I := fun cs x ↦ x.Named tickerId ∧ (∀ q ∈ x.arrivals, .add q.2 ∈ cs) ∧
    ∀ r, .response r ∈ x.book.sent → ∃ c ∈ cs, r.clientId = c.clientId) ?_ ?_ hrun
  · obtain ⟨h, harr, hsent⟩ := hinv
    refine ⟨h.routesFills hadm hbook, fun v hv ↦ OrderServer.sendResponses_of_bound fun r hr ↦ ?_⟩
    rcases List.mem_append.mp (mem_responses.mp hr) with hr | hr
    · obtain ⟨c', hc', heq⟩ := hsent r hr
      exact heq ▸ hv c' (List.mem_append_left _ hc')
    · rcases h.clients hadm hr with heq | ⟨q, hq, heq⟩
      · exact heq ▸ hv c (by simp)
      · exact heq ▸ hv (.add q.2) (List.mem_append_left _ (harr q hq))
  · exact ⟨named_start tickerId, by simp [start], by simp [start, MEOrderBook.new]⟩
  · rintro cs c x₁ x₂ ⟨h, harr, hsent⟩ ⟨hadm, hown, hbook⟩ hstep
    obtain ⟨hbookstep, harr'⟩ := step_ok.mp hstep
    refine ⟨h.step hadm hown hbook hstep, fun q hq ↦ ?_, fun r hr ↦ ?_⟩
    · rw [harr'] at hq
      rw [List.mem_append, List.mem_singleton]
      exact (mem_arrive hq).imp (harr q) Eq.symm
    · rw [sent_eq h.sound hadm hbookstep, List.mem_append] at hr
      rcases hr with hr | hr
      · obtain ⟨c', hc', heq⟩ := hsent r hr
        exact ⟨c', List.mem_append_left _ hc', heq⟩
      · rcases h.clients hadm hr with heq | ⟨q, hq, heq⟩
        · exact ⟨c, by simp, heq⟩
        · exact ⟨.add q.2, List.mem_append_left _ (harr q hq), heq⟩

theorem responses_routed_two_clients : ∃ x, (start 2).run restedByTwo = .ok x ∧ x.RoutesFills (.add ⟨5, 1, 2, .BUY, 101, 12⟩) ∧
    ∀ v : OrderServer, v.Bound 2 → v.Bound 5 → ∃ v', v.sendResponses
      (responses (x.book.sent ++ x.book.outputsOf (.add ⟨5, 1, 2, .BUY, 101, 12⟩))) = .ok v' := by
  obtain ⟨x, hx⟩ : ∃ x, (start 2).run restedByTwo = .ok x := exists_ok (by decide +kernel)
  obtain ⟨hroutes, hsends⟩ := responses_routed
    (c := .add ⟨5, 1, 2, .BUY, 101, 12⟩) (by decide +kernel) hx
  refine ⟨x, hx, hroutes, fun v h₂ h₅ ↦ hsends v fun c hc ↦ ?_⟩
  simp only [restedByTwo, List.cons_append, List.nil_append, List.mem_cons, List.not_mem_nil,
    or_false] at hc
  rcases hc with rfl | rfl | rfl
  · exact h₂
  · exact h₂
  · exact h₅

/-- The fill of client 7's order is addressed to client 0, which is the id of the ticker. -/
theorem fill_sent_to_ticker : ∃ x, (start 0).run [.add ⟨7, 1, 0, .BUY, 100, 10⟩] = .ok x ∧
    ¬ x.RoutesFills (.add ⟨8, 1, 0, .SELL, 100, 4⟩) := by
  obtain ⟨x, hx, harr, hfills, hptrs⟩ := Yields.exists_ok (show Yields ((start 0).run
    [.add ⟨7, 1, 0, .BUY, 100, 10⟩]) fun x ↦ x.arrivals = [(0, ⟨7, 1, 0, .BUY, 100, 10⟩)] ∧
      passiveFills (x.book.outputsOf (.add ⟨8, 1, 0, .SELL, 100, 4⟩)) =
        [⟨.FILLED, 0, 0, 1, 1, .BUY, 100, 4, 6⟩] ∧
      (x.book.executions (.add ⟨8, 1, 0, .SELL, 100, 4⟩)).map Prod.snd = [0] by decide +kernel)
  refine ⟨x, hx, fun h ↦ ?_⟩
  rw [RoutesFills, harr, hfills, hptrs] at h
  obtain ⟨⟨o, ho, hclient, -⟩, -⟩ := List.forall₂_cons.mp h
  rw [List.mem_singleton, Prod.mk.injEq] at ho
  rw [ho.2] at hclient
  cases hclient

end Session

end LowLatency.Exchange
