import LowLatency.Exchange.PriorityRefinement
import LowLatency.Exchange.TickerBooks
import LowLatency.Trading.Agreement

namespace LowLatency.Trading

open Common Book Exchange MatchingEngine

/-- The orders of a client book, by their prices and as they arrived. -/
def MarketOrderBook.shows (m : MarketOrderBook) : PriorityBook OrderId :=
  ⟨(queue m.ladder.bids).map fun e ↦ ⟨e.key.orderId, e.price, e.qty⟩,
    (queue m.ladder.asks).map fun e ↦ ⟨e.key.orderId, e.price, e.qty⟩⟩

variable {tickerId : TickerId} {cs : List MEOrderBook.Call} {s : MEOrderBook} {m : MarketOrderBook}

theorem bookOrders_relabel (ls : List (Level MEOrderKey)) :
    (queue (ls.map (Level.relabel MEOrderKey.marketOrderId))).map (fun e ↦ (⟨e.ptr, e.price, e.qty⟩ : BookOrder ℕ)) =
      bookOrders ls := by
  rw [queue_relabel, List.map_map]
  rfl

theorem shows_of_view (h : m.view = published s.ladder) : m.shows = priorityBook s.ladder := by
  have hshows : ∀ ls : List (Level MarketOrderKey),
      (queue (ls.map (Level.relabel MarketOrderKey.orderId))).map
        (fun e ↦ (⟨e.ptr, e.price, e.qty⟩ : BookOrder ℕ)) =
      (queue ls).map fun e ↦ ⟨e.key.orderId, e.price, e.qty⟩ := fun ls ↦ by
    rw [queue_relabel, List.map_map]
    rfl
  have hbids := congrArg Ladder.bids h
  have hasks := congrArg Ladder.asks h
  simp only [MarketOrderBook.view, published, Ladder.relabel] at hbids hasks
  rw [MarketOrderBook.shows, priorityBook, ← hshows, ← hshows, hbids, hasks, bookOrders_relabel, bookOrders_relabel]

/-- A client that has had all updates shows the market: the orders that are open, the best prices first, and
at a price those first that came first. -/
theorem client_shows_market (hg : Guarded MEOrderBook.step MEOrderBook.Fair (.new tickerId) cs)
    (hfew : (adds cs).length < ME_MAX_ORDER_IDS) (hrun : (MEOrderBook.new tickerId).run cs = .ok s)
    (engine : Ptr) :
    ∃ m, ((MarketOrderBook.new tickerId).setTradeEngine (some engine)).run (updates s.sent) = .ok m ∧
      m.shows = (PriorityBook.replay ((MEOrderBook.new tickerId).acts cs)).1 := by
  have hadmitted := hg.imp fun _ _ h ↦ h.admitted
  have hpublished := hadmitted.history (I := fun cs s ↦ s.Sound ∧
    ((adds cs).length < ME_MAX_ORDER_IDS → s.Published (adds cs).length)) ?_ ?_ hrun
  · have hmarket := (MEOrderBook.stands_new tickerId).run hg hrun
    obtain ⟨m, hm, -, hview⟩ := MarketOrderBook.follows (MarketOrderBook.sound_new tickerId engine)
      (hpublished.2 hfew).feed
    exact ⟨m, hm, (shows_of_view hview).trans hmarket.book.symm⟩
  · exact ⟨MEOrderBook.sound_new tickerId, fun _ ↦ MEOrderBook.published_new tickerId⟩
  · rintro cs c s s' ⟨hs, h⟩ hadm hstep
    refine ⟨hs.step hadm hstep, fun hlt ↦ ?_⟩
    rw [adds_append, List.length_append] at hlt ⊢
    exact (h (lt_of_le_of_lt (Nat.le_add_right _ _) hlt)).step hs hadm hlt hstep

theorem client_shows_market_calls : ∃ s m, (MEOrderBook.new 0).run MEOrderBook.fairCalls = .ok s ∧
    ((MarketOrderBook.new 0).setTradeEngine (some 0)).run (updates s.sent) = .ok m ∧
      m.shows = (PriorityBook.replay ((MEOrderBook.new 0).acts MEOrderBook.fairCalls)).1 := by
  obtain ⟨s, hs⟩ : ∃ s, (MEOrderBook.new 0).run MEOrderBook.fairCalls = .ok s :=
    exists_ok (by decide +kernel)
  obtain ⟨m, hm, hshows⟩ := client_shows_market (by decide +kernel) (by decide) hs 0
  exact ⟨s, m, hs, hm, hshows⟩

theorem updates_outputsOn (tickerId : TickerId) (outs : List Output) :
    updates (outputsOn tickerId outs) = (updates outs).filter fun u ↦ u.tickerId = tickerId := by
  induction outs with
  | nil => rfl
  | cons out outs ih =>
    cases out with
    | response r =>
      rw [outputsOn, List.filter_cons]
      split_ifs <;> exact ih
    | update u =>
      change _ = List.filter _ (u :: updates outs)
      rw [outputsOn, List.filter_cons, List.filter_cons]
      change (updates (if decide (u.tickerId = tickerId) then _ else _)) = _
      split_ifs with hticker
      · exact congrArg (u :: ·) ih
      · exact ih

/-- Whatever the order of the requests for all tickers: the updates for a ticker, taken from all that the
engine sends, bring a client to the market of the ticker. -/
theorem engine_shows_markets {rs : List MEClientRequest} {e : MatchingEngine}
    (hrun : MatchingEngine.new.run rs = .ok e)
    (hg : ∀ tickerId, Guarded MEOrderBook.step MEOrderBook.Fair (.new tickerId) (callsOn tickerId rs))
    (hfew : ∀ tickerId, (adds (callsOn tickerId rs)).length < ME_MAX_ORDER_IDS) (engine : Ptr) (tickerId : TickerId) :
    ∃ m, ((MarketOrderBook.new tickerId).setTradeEngine (some engine)).run
        ((updates e.outgoing).filter fun u ↦ u.tickerId = tickerId) = .ok m ∧
      m.shows = (PriorityBook.replay ((MEOrderBook.new tickerId).acts (callsOn tickerId rs))).1 := by
  obtain ⟨hbook, hsent⟩ := MatchingEngine.hasBook_of_run hrun tickerId
  rw [run_callsOn] at hbook
  rw [← updates_outputsOn, hsent]
  exact client_shows_market (hg tickerId) (hfew tickerId) hbook engine

theorem engine_shows_markets_two : ∃ e m, MatchingEngine.new.run MatchingEngine.twoTickers = .ok e ∧
    ((MarketOrderBook.new 3).setTradeEngine (some 0)).run ((updates e.outgoing).filter fun u ↦ u.tickerId = 3) =
      .ok m ∧
    m.shows = (PriorityBook.replay ((MEOrderBook.new 3).acts (callsOn 3 MatchingEngine.twoTickers))).1 := by
  obtain ⟨e, he⟩ := MatchingEngine.run_twoTickers
  obtain ⟨m, hm, hshows⟩ := engine_shows_markets he
    (fun tickerId ↦ by
      rcases callsOn_twoTickers tickerId with rfl | rfl | hnone
      · decide +kernel
      · decide +kernel
      · rw [hnone]
        trivial)
    (fun tickerId ↦ by
      rcases callsOn_twoTickers tickerId with rfl | rfl | hnone
      · decide
      · decide
      · rw [hnone]
        decide) 0 3
  exact ⟨e, m, he, hm, hshows⟩

end LowLatency.Trading
