import LowLatency.Exchange.Runs

namespace LowLatency.Exchange

open Common Book Function MEOrderBook

/-- The order book of each ticker, and the two outgoing queues taken together. -/
structure MatchingEngine where
  tickerOrderBook : TickerId → MEOrderBook
  outgoing : List Output

def MEClientRequest.newOrder (r : MEClientRequest) : NewOrder :=
  ⟨r.clientId, r.orderId, r.tickerId, r.side, r.price, r.qty⟩

namespace MatchingEngine

def new : MatchingEngine where
  tickerOrderBook := MEOrderBook.new
  outgoing := []

/-- A call of the book of a ticker, which sends through the engine. -/
def call (e : MatchingEngine) (tickerId : TickerId) (c : Call) : Except Halt MatchingEngine :=
  let book := e.tickerOrderBook tickerId
  let outgoing := e.outgoing ++ book.outputsOf c
  match book.step c with
  | .ok book => .ok ⟨update e.tickerOrderBook tickerId book, outgoing⟩
  | .error h => .error ⟨h.fault, outgoing⟩

/-- The `case` of `CANCEL` has no `break` and runs into the `default`. -/
def processClientRequest (e : MatchingEngine) (r : MEClientRequest) : Except Halt MatchingEngine :=
  let fatal := Fault.fatal ("Receive invalid client-request-type: " ++ clientRequestTypeToString r.type)
  if r.tickerId < ME_MAX_TICKERS then
    match r.type with
    | .NEW => e.call r.tickerId (.add r.newOrder)
    | .CANCEL => do
      let e ← e.call r.tickerId (.cancel r.clientId r.orderId r.tickerId)
      .error ⟨fatal, e.outgoing⟩
    | .INVALID => .error ⟨fatal, e.outgoing⟩
  else .error ⟨.outOfBounds, e.outgoing⟩

def run (e : MatchingEngine) (rs : List MEClientRequest) : Except Halt MatchingEngine :=
  rs.foldlM processClientRequest e

variable {e e' : MatchingEngine} {r : MEClientRequest}

/-- A CANCEL is not processed to its end in any state. -/
theorem cancel_exits (h : r.type = .CANCEL) : e.processClientRequest r ≠ .ok e' := by
  unfold processClientRequest
  simp only [h]
  split_ifs
  · cases e.call r.tickerId (.cancel r.clientId r.orderId r.tickerId) <;> nofun
  · nofun

theorem outgoing_of_ok (h : e.processClientRequest r = .ok e') : e'.outgoing =
    e.outgoing ++ (e.tickerOrderBook r.tickerId).outputsOf (.add r.newOrder) := by
  cases ht : r.type with
  | CANCEL => exact absurd h (cancel_exits ht)
  | INVALID =>
    simp only [processClientRequest, ht] at h
    split_ifs at h
  | NEW =>
    simp only [processClientRequest, ht, call] at h
    split_ifs at h
    cases hs : (e.tickerOrderBook r.tickerId).step (.add r.newOrder) with
    | error halt =>
      rw [hs] at h
      cases h
    | ok s =>
      rw [hs] at h
      rw [← Except.ok.inj h]

end MatchingEngine

end LowLatency.Exchange
