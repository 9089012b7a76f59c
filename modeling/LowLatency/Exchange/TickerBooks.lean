import LowLatency.Simulation
import LowLatency.Exchange.Executions
import LowLatency.Exchange.MatchingEngine

namespace LowLatency.Exchange

open Common Function MEOrderBook

def Output.tickerId : Output → TickerId
  | .response r => r.tickerId
  | .update u => u.tickerId

def outputsOn (tickerId : TickerId) (outs : List Output) : List Output :=
  outs.filter fun out ↦ out.tickerId = tickerId

namespace MEOrderBook

variable {s s' : MEOrderBook} {o : NewOrder} {tickerId : TickerId}

def SentOn (s : MEOrderBook) (tickerId : TickerId) (sent : List Output) : Prop :=
  ∃ outs, sent = s.sent ++ outs ∧ ∀ out ∈ outs, out.tickerId = tickerId

theorem SentOn.trans {sent : List Output} (h : s.SentOn tickerId s'.sent) (h' : s'.SentOn tickerId sent) :
    s.SentOn tickerId sent := by
  obtain ⟨outs, hs', houts⟩ := h
  obtain ⟨outs', rfl, houts'⟩ := h'
  refine ⟨outs ++ outs', ?_, List.forall_mem_append.mpr ⟨houts, houts'⟩⟩
  rw [hs', List.append_assoc]

theorem execution_tickerId {x : Execution} (hx : x ∈ s.tradesOf o) {out : Output} (hout : out ∈ x.outputs) :
    out.tickerId = o.tickerId := by
  obtain ⟨s', itr, leavesQty, rfl⟩ := mem_tradesOf hx
  simp only [Execution.outputs, List.mem_cons, List.not_mem_nil, or_false] at hout
  rcases hout with rfl | rfl | rfl | rfl
  · rfl
  · rfl
  · rfl
  · simp only [execution, Output.tickerId]
    split <;> rfl

theorem sentOn_matched (s : MEOrderBook) (o : NewOrder) : s.SentOn o.tickerId
    (s.sent ++ (.response (s.acceptance o) :: (s.tradesOf o).flatMap Execution.outputs)) := by
  refine ⟨_, rfl, List.forall_mem_cons.mpr ⟨rfl, fun out hout ↦ ?_⟩⟩
  obtain ⟨x, hx, hout⟩ := List.mem_flatMap.mp hout
  exact execution_tickerId hx hout

theorem ends_addResidual_sentOn (s : MEOrderBook) (clientId : ClientId) (clientOrderId : OrderId)
    (tickerId : TickerId) (side : Side) (price : Price) (newMarketOrderId : OrderId) (leavesQty : Qty) :
    Ends (s.addResidual clientId clientOrderId tickerId side price newMarketOrderId leavesQty)
      (fun s' ↦ s.SentOn tickerId s'.sent) fun _ ↦ True := by
  have hbook : ∀ {α : Type} (x : Except Fault α), Ends (s.onBook x) (fun _ ↦ True) fun _ ↦ True :=
    fun x ↦ by cases x <;> trivial
  unfold addResidual
  refine (hbook _).bind fun priority _ ↦ (hbook _).bind ?_
  rintro ⟨order, pool⟩ -
  exact (hbook _).bind fun b _ ↦ ⟨_, rfl, List.forall_mem_singleton.mpr rfl⟩

theorem ends_add_sentOn (s : MEOrderBook) (o : NewOrder) :
    Ends (s.step (.add o)) (fun s' ↦ s.SentOn o.tickerId s'.sent) fun _ ↦ True := by
  rw [step_add]
  refine ((ends_checkForMatch_sent s o).imp_error fun _ _ ↦ trivial).bind fun r hr ↦ ?_
  have hmatched : s.SentOn o.tickerId r.1.sent := hr ▸ sentOn_matched s o
  split
  · exact (ends_addResidual_sentOn r.1 ..).imp fun s' hs' ↦ hmatched.trans hs'
  · exact hmatched

end MEOrderBook

namespace MatchingEngine

variable {e e' : MatchingEngine} {r : MEClientRequest} {rs rs' : List MEClientRequest} {tickerId : TickerId}

theorem processClientRequest_ok (h : e.processClientRequest r = .ok e') :
    r.type = .NEW ∧ r.tickerId < ME_MAX_TICKERS ∧ ∃ s,
      (e.tickerOrderBook r.tickerId).step (.add r.newOrder) = .ok s ∧
      e' = ⟨update e.tickerOrderBook r.tickerId s,
        e.outgoing ++ (e.tickerOrderBook r.tickerId).outputsOf (.add r.newOrder)⟩ := by
  cases htype : r.type with
  | CANCEL => exact absurd h (cancel_exits htype)
  | INVALID =>
    simp only [processClientRequest, htype] at h
    split_ifs at h
  | NEW =>
    simp only [processClientRequest, htype, call] at h
    split_ifs at h with hticker
    cases hstep : (e.tickerOrderBook r.tickerId).step (.add r.newOrder) with
    | error halt =>
      rw [hstep] at h
      cases h
    | ok s =>
      rw [hstep] at h
      exact ⟨rfl, hticker, s, rfl, (Except.ok.inj h).symm⟩

theorem processClientRequest_of_ok (htype : r.type = .NEW) (hticker : r.tickerId < ME_MAX_TICKERS)
    {s : MEOrderBook} (hstep : (e.tickerOrderBook r.tickerId).step (.add r.newOrder) = .ok s) :
    ∃ e', e.processClientRequest r = .ok e' := by
  simp only [processClientRequest, htype, if_pos hticker, call, hstep]
  exact ⟨_, rfl⟩

/-- The call that a request makes on the book of its ticker. -/
def request (s : MEOrderBook) (r : MEClientRequest) : Except Halt MEOrderBook := s.step (.add r.newOrder)

/-- The engine has this book for the ticker, and has sent for it what the book has sent. -/
def HasBook (tickerId : TickerId) (e : MatchingEngine) (s : MEOrderBook) : Prop :=
  e.tickerOrderBook tickerId = s ∧ outputsOn tickerId e.outgoing = s.sent

theorem projects_ticker (tickerId : TickerId) :
    Projects processClientRequest request (·.tickerId = tickerId) (HasBook tickerId) where
  own {e r e' s} hr h hrun := by
    subst hr
    obtain ⟨rfl, hsent⟩ := h
    obtain ⟨-, -, s', hstep, rfl⟩ := processClientRequest_ok hrun
    obtain ⟨outs, hs', houts⟩ := (ends_add_sentOn _ r.newOrder).of_ok hstep
    have hall : outputsOn r.tickerId outs = outs := List.filter_eq_self.mpr fun out hout ↦
      decide_eq_true (houts out hout)
    refine ⟨s', hstep, update_self .., ?_⟩
    rw [outputsOf_ok hstep hs', outputsOn, List.filter_append]
    exact (congrArg₂ (· ++ ·) hsent hall).trans hs'.symm
  other {e r e' s} hr h hrun := by
    obtain ⟨rfl, hsent⟩ := h
    obtain ⟨-, -, s', hstep, rfl⟩ := processClientRequest_ok hrun
    obtain ⟨outs, hs', houts⟩ := (ends_add_sentOn _ r.newOrder).of_ok hstep
    have hnone : outputsOn tickerId outs = [] := List.filter_eq_nil_iff.mpr fun out hout hsame ↦
      hr ((houts out hout).symm.trans (of_decide_eq_true hsame))
    refine ⟨update_of_ne (Ne.symm hr) .., ?_⟩
    rw [outputsOf_ok hstep hs', outputsOn, List.filter_append]
    exact (congrArg₂ (· ++ ·) hsent hnone).trans (List.append_nil _)

def runOn (tickerId : TickerId) (rs : List MEClientRequest) : Except Halt MEOrderBook :=
  (rs.filter fun r ↦ r.tickerId = tickerId).foldlM request (MEOrderBook.new tickerId)

def callsOn (tickerId : TickerId) (rs : List MEClientRequest) : List Call :=
  (rs.filter fun r ↦ r.tickerId = tickerId).map fun r ↦ .add r.newOrder

theorem run_callsOn (tickerId : TickerId) (rs : List MEClientRequest) :
    runOn tickerId rs = (MEOrderBook.new tickerId).run (callsOn tickerId rs) := by
  rw [runOn, MEOrderBook.run, callsOn, List.foldlM_map]
  rfl

theorem hasBook_of_run (hrun : new.run rs = .ok e) (tickerId : TickerId) :
    runOn tickerId rs = .ok (e.tickerOrderBook tickerId) ∧
      outputsOn tickerId e.outgoing = (e.tickerOrderBook tickerId).sent := by
  obtain ⟨s, hs, rfl, hsent⟩ := (projects_ticker tickerId).run
    (show HasBook tickerId new (MEOrderBook.new tickerId) from ⟨rfl, rfl⟩) hrun
  exact ⟨hs, hsent⟩

theorem runOn_concat_self : runOn r.tickerId (rs ++ [r]) = runOn r.tickerId rs >>= fun s ↦ request s r := by
  have hone : [r].filter (fun r' ↦ r'.tickerId = r.tickerId) = [r] := by simp
  rw [runOn, List.filter_append, hone, List.foldlM_append, runOn]
  congr 1
  exact funext fun s ↦ foldlM_singleton request s r

theorem returns_of_books (hnew : ∀ r ∈ rs, r.type = .NEW ∧ r.tickerId < ME_MAX_TICKERS)
    (hbooks : ∀ tickerId, ∃ s, runOn tickerId rs = .ok s) : ∃ e, new.run rs = .ok e := by
  induction rs using List.reverseRecOn with
  | nil => exact ⟨new, rfl⟩
  | append_singleton rs r ih =>
    have hprefix : ∀ tickerId, ∃ s, runOn tickerId rs = .ok s := by
      intro tickerId
      obtain ⟨s, hs⟩ := hbooks tickerId
      rw [runOn, List.filter_append, List.foldlM_append] at hs
      obtain ⟨s', hs', -⟩ := bind_eq_ok hs
      exact ⟨s', hs'⟩
    obtain ⟨e, he⟩ := ih (fun r' hr' ↦ hnew r' (List.mem_append_left _ hr')) hprefix
    obtain ⟨htype, hticker⟩ := hnew r (List.mem_append_right rs List.mem_cons_self)
    obtain ⟨s, hs⟩ := hbooks r.tickerId
    rw [runOn_concat_self, (hasBook_of_run he r.tickerId).1, ok_bind] at hs
    obtain ⟨e', he'⟩ := processClientRequest_of_ok htype hticker hs
    exact ⟨e', (foldlM_concat processClientRequest new rs r he).trans he'⟩

theorem new_of_run (hrun : new.run rs = .ok e) : ∀ r ∈ rs, r.type = .NEW ∧ r.tickerId < ME_MAX_TICKERS := by
  refine run_history (I := fun rs _ ↦ ∀ r ∈ rs, r.type = .NEW ∧ r.tickerId < ME_MAX_TICKERS)
    (List.forall_mem_nil _) (fun rs r e₁ e₂ h hstep ↦ ?_) hrun
  obtain ⟨htype, hticker, -⟩ := processClientRequest_ok hstep
  exact List.forall_mem_append.mpr ⟨h, List.forall_mem_singleton.mpr ⟨htype, hticker⟩⟩

/-- The engine is its books: it comes to the end of a sequence of requests exactly if all are NEWs and
each book comes to the end of those for its ticker, and then it has these books and has sent for each
ticker what the book has sent. -/
theorem runs_by_ticker (rs : List MEClientRequest) :
    ((∃ e, new.run rs = .ok e) ↔ (∀ r ∈ rs, r.type = .NEW ∧ r.tickerId < ME_MAX_TICKERS) ∧
      ∀ tickerId, ∃ s, runOn tickerId rs = .ok s) ∧
    ∀ e, new.run rs = .ok e → ∀ tickerId, runOn tickerId rs = .ok (e.tickerOrderBook tickerId) ∧
      outputsOn tickerId e.outgoing = (e.tickerOrderBook tickerId).sent :=
  ⟨⟨fun ⟨_, he⟩ ↦ ⟨new_of_run he, fun tickerId ↦ ⟨_, (hasBook_of_run he tickerId).1⟩⟩,
    fun ⟨hnew, hbooks⟩ ↦ returns_of_books hnew hbooks⟩, fun _ he ↦ hasBook_of_run he⟩

def twoTickers : List MEClientRequest :=
  [⟨.NEW, 1, 0, 1, .SELL, 100, 10⟩, ⟨.NEW, 2, 3, 1, .BUY, 7, 5⟩, ⟨.NEW, 2, 0, 2, .BUY, 100, 4⟩]

theorem callsOn_twoTickers (tickerId : TickerId) : tickerId = 0 ∨ tickerId = 3 ∨
    callsOn tickerId twoTickers = [] := by
  by_cases h0 : 0 = tickerId
  · exact .inl h0.symm
  · by_cases h3 : 3 = tickerId
    · exact .inr (.inl h3.symm)
    · exact .inr (.inr (by simp [callsOn, twoTickers, h0, h3]))

theorem run_twoTickers : ∃ e, new.run twoTickers = .ok e := exists_ok (by decide +kernel)

theorem runs_by_ticker_two : ∃ e, new.run twoTickers = .ok e ∧
    runOn 3 twoTickers = .ok (e.tickerOrderBook 3) ∧
      outputsOn 3 e.outgoing = (e.tickerOrderBook 3).sent := by
  obtain ⟨e, he⟩ := run_twoTickers
  exact ⟨e, he, (runs_by_ticker twoTickers).2 e he 3⟩

/-- Only the order of the requests for one ticker matters. -/
theorem runs_reordered (hrun : new.run rs = .ok e) (hperm : ∀ tickerId,
      (rs'.filter fun r ↦ r.tickerId = tickerId) = rs.filter fun r ↦ r.tickerId = tickerId) :
    ∃ e', new.run rs' = .ok e' ∧ e'.tickerOrderBook = e.tickerOrderBook ∧
      ∀ tickerId, outputsOn tickerId e'.outgoing = outputsOn tickerId e.outgoing := by
  have hsame : ∀ tickerId, runOn tickerId rs' = runOn tickerId rs := fun tickerId ↦ by
    rw [runOn, hperm tickerId, runOn]
  have hnew : ∀ r ∈ rs', r.type = .NEW ∧ r.tickerId < ME_MAX_TICKERS := by
    intro r hr
    have hmem : r ∈ rs'.filter fun r' ↦ r'.tickerId = r.tickerId :=
      List.mem_filter.mpr ⟨hr, decide_eq_true rfl⟩
    rw [hperm] at hmem
    exact new_of_run hrun r (List.mem_of_mem_filter hmem)
  obtain ⟨e', he'⟩ := returns_of_books hnew fun tickerId ↦
    ⟨_, (hsame tickerId).trans (hasBook_of_run hrun tickerId).1⟩
  have hbook : ∀ tickerId, e'.tickerOrderBook tickerId = e.tickerOrderBook tickerId := fun tickerId ↦
    Except.ok.inj ((hasBook_of_run he' tickerId).1.symm.trans
      ((hsame tickerId).trans (hasBook_of_run hrun tickerId).1))
  refine ⟨e', he', funext hbook, fun tickerId ↦ ?_⟩
  rw [(hasBook_of_run he' tickerId).2, hbook, (hasBook_of_run hrun tickerId).2]

theorem runs_reordered_two : ∃ e e', new.run twoTickers = .ok e ∧
    new.run [⟨.NEW, 1, 0, 1, .SELL, 100, 10⟩, ⟨.NEW, 2, 0, 2, .BUY, 100, 4⟩, ⟨.NEW, 2, 3, 1, .BUY, 7, 5⟩] =
      .ok e' ∧ e'.tickerOrderBook = e.tickerOrderBook := by
  obtain ⟨e, he⟩ := run_twoTickers
  have hperm : ∀ tickerId, [⟨.NEW, 1, 0, 1, .SELL, 100, 10⟩, ⟨.NEW, 2, 0, 2, .BUY, 100, 4⟩,
        ⟨.NEW, 2, 3, 1, .BUY, 7, 5⟩].filter (fun r : MEClientRequest ↦ r.tickerId = tickerId) =
      twoTickers.filter fun r ↦ r.tickerId = tickerId := by
    intro tickerId
    by_cases h0 : 0 = tickerId <;> by_cases h3 : 3 = tickerId
    · exact absurd (h0.trans h3.symm) (by decide)
    · simp [twoTickers, h0, h3]
    · simp [twoTickers, h0, h3]
    · simp [twoTickers, h0, h3]
  obtain ⟨e', he', hbooks, -⟩ := runs_reordered he hperm
  exact ⟨e, e', he, he', hbooks⟩

end MatchingEngine

end LowLatency.Exchange
