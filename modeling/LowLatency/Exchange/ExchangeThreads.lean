import LowLatency.Common.Passage
import LowLatency.Exchange.MatchingEngine
import LowLatency.Exchange.ServerLoop

namespace LowLatency.Exchange

open Common

/-- The order server, the matching engine and the publisher, each in a thread of its own, with the queues
between them. `sending` is what the engine has yet to send for the request in hand, and `published` what
the publisher has got hold of. -/
structure ExchangeThreads where
  entry : OrderEntry
  requests : Passage MEClientRequest
  engine : MatchingEngine
  sending : List Output
  responses : Passage MEClientResponse
  updates : Passage MEMarketUpdate
  published : List MEMarketUpdate

/-- What the order server does next, unless it has a request to write or a slot to release. -/
inductive ServerMove
  | sendAndRecv (p : Ptr) (chunk : List UInt8) (rxTime : Nanos) (result : SendResult)
  | recvFinished
  | response

inductive ExchangeMove
  | orderServer (m : ServerMove)
  | matchingEngine
  | marketDataPublisher

structure QueueSizes where
  requests : ℕ
  responses : ℕ
  updates : ℕ

structure QueueSizes.Ok (n : QueueSizes) : Prop where
  requests : 0 < n.requests ∧ n.requests < 2 ^ 64
  responses : 0 < n.responses ∧ n.responses < 2 ^ 64
  updates : 0 < n.updates ∧ n.updates < 2 ^ 64

namespace ExchangeThreads

def start (n : QueueSizes) : ExchangeThreads where
  entry := .new
  requests := .new n.requests ⟨.INVALID, 2 ^ 32 - 1, 2 ^ 32 - 1, OrderId_INVALID, .INVALID, Price_INVALID,
    Qty_INVALID⟩
  engine := .new
  sending := []
  responses := .new n.responses ⟨.INVALID, 2 ^ 32 - 1, 2 ^ 32 - 1, OrderId_INVALID, OrderId_INVALID,
    .INVALID, Price_INVALID, Qty_INVALID, Qty_INVALID⟩
  updates := .new n.updates .invalid
  published := []

section OrderServer

/-- The loop over the responses, which ends where there is none. -/
def response (s : ExchangeThreads) : Except Fault ExchangeThreads := do
  match ← s.responses.next with
  | none => return s
  | some r =>
    if s.responses.queue.size = 0 then return s
    else do
      let entry ← s.entry.sendResponse r
      return { s with entry := entry, responses := s.responses.take }

/-- What the sequencer publishes is written one request after the other. -/
def orderServer (sort : List RecvTimeClientRequest → List RecvTimeClientRequest) (pthreadSelf : ℕ)
    (s : ExchangeThreads) (m : ServerMove) : Except Fault ExchangeThreads :=
  if s.requests.unwritten.isEmpty then
    if s.responses.inHand then do
      let responses ← s.responses.release pthreadSelf
      return { s with responses := responses }
    else match m with
      | .sendAndRecv p chunk rxTime result => do
        let (entry, _) ← s.entry.sendAndRecv p chunk rxTime result
        return { s with entry := entry }
      | .recvFinished =>
        let entry := s.entry.recvFinishedCallback sort
        .ok { s with
          entry := entry
          requests := s.requests.produce (entry.fifoSequencer.incomingRequests.drop
            s.entry.fifoSequencer.incomingRequests.length) }
      | .response => s.response
  else .ok { s with requests := s.requests.write }

end OrderServer

/-- The next step of `run`. The outputs are those of the book, in their order. -/
def matchingEngine (pthreadSelf : ℕ) (s : ExchangeThreads) : Except Fault ExchangeThreads :=
  match s.sending with
  | .response r :: outs => .ok { s with responses := s.responses.send r, sending := outs }
  | .update u :: outs => .ok { s with updates := s.updates.send u, sending := outs }
  | [] =>
    if s.requests.inHand then do
      let requests ← s.requests.release pthreadSelf
      return { s with requests := requests }
    else do
      match ← s.requests.next with
      | none => return s
      | some r => do
        let engine ← (s.engine.processClientRequest r).mapError Halt.fault
        return { s with
          engine := engine
          requests := s.requests.take
          sending := engine.outgoing.drop s.engine.outgoing.length }

/-- The loop over the updates. What becomes of an update is left open. -/
def update (s : ExchangeThreads) : Except Fault ExchangeThreads := do
  match ← s.updates.next with
  | none => return s
  | some u =>
    if s.updates.queue.size = 0 then return s
    else return { s with updates := s.updates.take, published := s.published ++ [u] }

def marketDataPublisher (pthreadSelf : ℕ) (s : ExchangeThreads) : Except Fault ExchangeThreads :=
  if s.updates.inHand then do
    let updates ← s.updates.release pthreadSelf
    return { s with updates := updates }
  else s.update

def step (sort : List RecvTimeClientRequest → List RecvTimeClientRequest) (pthreadSelf : ℕ)
    (s : ExchangeThreads) : ExchangeMove → Except Fault ExchangeThreads
  | .orderServer m => s.orderServer sort pthreadSelf m
  | .matchingEngine => s.matchingEngine pthreadSelf
  | .marketDataPublisher => s.marketDataPublisher pthreadSelf

def HasRoom (s : ExchangeThreads) : ExchangeMove → Prop
  | .orderServer _ => s.requests.HasRoom
  | .matchingEngine => match s.sending with
    | .response r :: _ => (s.responses.produce [r]).HasRoom
    | .update u :: _ => (s.updates.produce [u]).HasRoom
    | [] => True
  | .marketDataPublisher => True

instance (s : ExchangeThreads) : DecidablePred s.HasRoom := fun m ↦ by
  unfold HasRoom
  cases m with
  | orderServer m => infer_instance
  | marketDataPublisher => infer_instance
  | matchingEngine => cases s.sending with
    | nil => infer_instance
    | cons out outs => cases out <;> infer_instance

def Quiet (s : ExchangeThreads) : Prop :=
  s.requests.Quiet ∧ s.sending.isEmpty ∧ s.responses.Quiet ∧ s.updates.Quiet

instance : DecidablePred Quiet := fun _ ↦ inferInstanceAs (Decidable (_ ∧ _))

/-- The engine is where the requests that it has got hold of lead it, and these have come through their
queue, as has what was sent through the other two. -/
structure Inv (n : QueueSizes) (processed : List MEClientRequest) (sent : List Output)
    (s : ExchangeThreads) : Prop where
  requests : s.requests.Passes n.requests s.entry.fifoSequencer.incomingRequests processed
  engine : MatchingEngine.new.run processed = .ok s.engine
  outgoing : s.engine.outgoing = sent ++ s.sending
  responses : s.responses.Passes n.responses (Exchange.responses sent) (s.entry.written.map (·.2.2))
  updates : s.updates.Passes n.updates (Exchange.updates sent) s.published

variable {sort : List RecvTimeClientRequest → List RecvTimeClientRequest} {pthreadSelf : ℕ} {n : QueueSizes}
  {s s' : ExchangeThreads} {processed : List MEClientRequest} {sent : List Output} {ms : List ExchangeMove}

theorem inv_start (n : QueueSizes) : (start n).Inv n [] [] :=
  ⟨Passage.passes_new _ _, rfl, rfl, Passage.passes_new _ _, Passage.passes_new _ _⟩

section OrderServer

variable {v v' : OrderEntry}

theorem sendAndRecv_frame {p : Ptr} {chunk : List UInt8} {rxTime : Nanos} {result : SendResult}
    (hrun : v.step sort (.sendAndRecv p chunk rxTime result) = .ok v') :
    v'.fifoSequencer.incomingRequests = v.fifoSequencer.incomingRequests ∧ v'.written = v.written := by
  refine OrderEntry.invariant_sendAndRecv (I := fun v' ↦
    v'.fifoSequencer.incomingRequests = v.fifoSequencer.incomingRequests ∧ v'.written = v.written)
    (fun v₁ m v₂ h hrequest ↦ ?_) (fun _ _ h ↦ h) ⟨rfl, rfl⟩ hrun
  have hbind : (v₁.bind m.meClientRequest.clientId p).written = v₁.written := by
    unfold OrderEntry.bind
    split_ifs <;> rfl
  obtain ⟨-, -, -, hfifo, -⟩ := OrderEntry.bind_frame v₁ m.meClientRequest.clientId p
  rcases OrderEntry.onRequest_cases hrequest with rfl | ⟨-, -, rfl⟩
  · rw [hfifo, hbind]
    exact h
  · exact ⟨(congrArg FIFOSequencer.incomingRequests hfifo).trans h.1, hbind.trans h.2⟩

theorem sendResponse_written {r : MEClientResponse} (hrun : v.sendResponse r = .ok v') :
    v'.fifoSequencer = v.fifoSequencer ∧ v'.written.map (·.2.2) = v.written.map (·.2.2) ++ [r] := by
  obtain ⟨q, -, rfl⟩ := ServerLoop.sendResponse_ok hrun
  exact ⟨rfl, List.map_append⟩

variable (sort) in
theorem recvFinished_incoming (v : OrderEntry) : ∃ more,
    (v.recvFinishedCallback sort).fifoSequencer.incomingRequests =
      v.fifoSequencer.incomingRequests ++ more := by
  unfold OrderEntry.recvFinishedCallback FIFOSequencer.sequenceAndPublish
  dsimp only
  split_ifs
  · exact ⟨[], (List.append_nil _).symm⟩
  · exact ⟨_, rfl⟩

end OrderServer

theorem Inv.response (h : s.Inv n processed sent) (hfree : s.responses.inHand = false)
    (hrun : s.response = .ok s') : s'.Inv n processed sent := by
  obtain ⟨next, hnext, hrun⟩ := bind_eq_ok hrun
  cases next with
  | none => exact Except.ok.inj hrun ▸ h
  | some r =>
    dsimp only at hrun
    split_ifs at hrun with hsize
    · exact Except.ok.inj hrun ▸ h
    · obtain ⟨entry, hsend, hrun⟩ := bind_eq_ok hrun
      obtain rfl := Except.ok.inj hrun
      obtain ⟨hfifo, hwritten⟩ := sendResponse_written hsend
      refine ⟨?_, h.engine, h.outgoing, ?_, h.updates⟩
      · rw [hfifo]
        exact h.requests
      · rw [hwritten]
        exact h.responses.take hfree hnext

theorem Inv.orderServer {m : ServerMove} (h : s.Inv n processed sent) (hn : n.Ok)
    (hroom : s.requests.HasRoom) (hrun : s.orderServer sort pthreadSelf m = .ok s') :
    s'.Inv n processed sent := by
  unfold ExchangeThreads.orderServer at hrun
  split_ifs at hrun with hwritten hheld
  · obtain ⟨responses, hrelease, hrun⟩ := bind_eq_ok hrun
    obtain rfl := Except.ok.inj hrun
    exact ⟨h.requests, h.engine, h.outgoing, h.responses.release hheld hrelease, h.updates⟩
  · cases m with
    | sendAndRecv p chunk rxTime result =>
      obtain ⟨r, hserve, hrun⟩ := bind_eq_ok hrun
      obtain rfl := Except.ok.inj hrun
      have hstep : s.entry.step sort (.sendAndRecv p chunk rxTime result) = .ok r.1 := by
        rw [OrderEntry.step, hserve]
        rfl
      obtain ⟨hincoming, hwritten⟩ := sendAndRecv_frame hstep
      refine ⟨?_, h.engine, h.outgoing, ?_, h.updates⟩
      · rw [hincoming]
        exact h.requests
      · rw [hwritten]
        exact h.responses
    | recvFinished =>
      obtain rfl := Except.ok.inj hrun
      obtain ⟨more, hmore⟩ := recvFinished_incoming sort s.entry
      refine ⟨h.requests.produce ?_, h.engine, h.outgoing, h.responses, h.updates⟩
      rw [hmore]
      exact List.prefix_append _ _
    | response => exact h.response (Bool.eq_false_iff.mpr hheld) hrun
  · obtain rfl := Except.ok.inj hrun
    exact ⟨h.requests.write hn.requests.1 hn.requests.2 hroom, h.engine, h.outgoing, h.responses, h.updates⟩

section MatchingEngine

theorem Inv.sendResponse {r : MEClientResponse} {outs : List Output} (h : s.Inv n processed sent)
    (hn : n.Ok) (hsending : s.sending = .response r :: outs)
    (hroom : (s.responses.produce [r]).HasRoom) :
    ({ s with responses := s.responses.send r, sending := outs } : ExchangeThreads).Inv n processed
      (sent ++ [.response r]) := by
  have hresponses : Exchange.responses (sent ++ [.response r]) = Exchange.responses sent ++ [r] :=
    List.filterMap_append
  have hupdates : Exchange.updates (sent ++ [.response r]) = Exchange.updates sent :=
    List.filterMap_append.trans (List.append_nil _)
  refine ⟨h.requests, h.engine, ?_, ?_, ?_⟩
  · rw [h.outgoing, hsending]
    exact List.append_cons ..
  · rw [hresponses]
    exact h.responses.send hn.responses.1 hn.responses.2 hroom
  · rw [hupdates]
    exact h.updates

theorem Inv.sendUpdate {u : MEMarketUpdate} {outs : List Output} (h : s.Inv n processed sent)
    (hn : n.Ok) (hsending : s.sending = .update u :: outs) (hroom : (s.updates.produce [u]).HasRoom) :
    ({ s with updates := s.updates.send u, sending := outs } : ExchangeThreads).Inv n processed
      (sent ++ [.update u]) := by
  have hresponses : Exchange.responses (sent ++ [.update u]) = Exchange.responses sent :=
    List.filterMap_append.trans (List.append_nil _)
  have hupdates : Exchange.updates (sent ++ [.update u]) = Exchange.updates sent ++ [u] :=
    List.filterMap_append
  refine ⟨h.requests, h.engine, ?_, ?_, ?_⟩
  · rw [h.outgoing, hsending]
    exact List.append_cons ..
  · rw [hresponses]
    exact h.responses
  · rw [hupdates]
    exact h.updates.send hn.updates.1 hn.updates.2 hroom

theorem Inv.process {r : MEClientRequest} {engine : MatchingEngine} (h : s.Inv n processed sent)
    (hsending : s.sending = []) (hfree : s.requests.inHand = false) (hnext : s.requests.next = .ok (some r))
    (hengine : s.engine.processClientRequest r = .ok engine) :
    ({ s with
      engine := engine
      requests := s.requests.take
      sending := engine.outgoing.drop s.engine.outgoing.length } : ExchangeThreads).Inv n
        (processed ++ [r]) sent := by
  have hsent := h.outgoing
  rw [hsending, List.append_nil] at hsent
  refine ⟨h.requests.take hfree hnext, ?_, ?_, h.responses, h.updates⟩
  · exact (foldlM_concat MatchingEngine.processClientRequest _ _ _ h.engine).trans hengine
  · rw [MatchingEngine.outgoing_of_ok hengine, List.drop_left, hsent]

theorem Inv.matchingEngine (h : s.Inv n processed sent) (hn : n.Ok) (hroom : s.HasRoom .matchingEngine)
    (hrun : s.matchingEngine pthreadSelf = .ok s') : ∃ processed sent, s'.Inv n processed sent := by
  unfold ExchangeThreads.matchingEngine at hrun
  unfold HasRoom at hroom
  cases hsending : s.sending with
  | cons out outs =>
    simp only [hsending] at hrun hroom
    cases out with
    | response r => exact ⟨_, _, Except.ok.inj hrun ▸ h.sendResponse hn hsending hroom⟩
    | update u => exact ⟨_, _, Except.ok.inj hrun ▸ h.sendUpdate hn hsending hroom⟩
  | nil =>
    simp only [hsending] at hrun
    split_ifs at hrun with hheld
    · obtain ⟨requests, hrelease, hrun⟩ := bind_eq_ok hrun
      obtain rfl := Except.ok.inj hrun
      exact ⟨processed, sent, h.requests.release hheld hrelease, h.engine, hsending ▸ h.outgoing,
        h.responses, h.updates⟩
    · obtain ⟨next, hnext, hrun⟩ := bind_eq_ok hrun
      cases next with
      | none => exact ⟨processed, sent, Except.ok.inj hrun ▸ h⟩
      | some r =>
        obtain ⟨engine, hengine, hrun⟩ := bind_eq_ok hrun
        obtain rfl := Except.ok.inj hrun
        cases hprocess : s.engine.processClientRequest r with
        | error halt =>
          rw [hprocess] at hengine
          cases hengine
        | ok engine' =>
          rw [hprocess] at hengine
          obtain rfl := Except.ok.inj hengine
          exact ⟨_, _, h.process hsending (Bool.eq_false_iff.mpr hheld) hnext hprocess⟩

end MatchingEngine

theorem Inv.update (h : s.Inv n processed sent) (hfree : s.updates.inHand = false)
    (hrun : s.update = .ok s') : s'.Inv n processed sent := by
  obtain ⟨next, hnext, hrun⟩ := bind_eq_ok hrun
  cases next with
  | none => exact Except.ok.inj hrun ▸ h
  | some u =>
    dsimp only at hrun
    split_ifs at hrun with hsize
    · exact Except.ok.inj hrun ▸ h
    · obtain rfl := Except.ok.inj hrun
      exact ⟨h.requests, h.engine, h.outgoing, h.responses, h.updates.take hfree hnext⟩

theorem Inv.marketDataPublisher (h : s.Inv n processed sent)
    (hrun : s.marketDataPublisher pthreadSelf = .ok s') : s'.Inv n processed sent := by
  unfold ExchangeThreads.marketDataPublisher at hrun
  split_ifs at hrun with hheld
  · obtain ⟨updates, hrelease, hrun⟩ := bind_eq_ok hrun
    obtain rfl := Except.ok.inj hrun
    exact ⟨h.requests, h.engine, h.outgoing, h.responses, h.updates.release hheld hrelease⟩
  · exact h.update (Bool.eq_false_iff.mpr hheld) hrun

theorem Inv.step {m : ExchangeMove} (h : s.Inv n processed sent) (hn : n.Ok) (hroom : s.HasRoom m)
    (hrun : s.step sort pthreadSelf m = .ok s') : ∃ processed sent, s'.Inv n processed sent := by
  cases m with
  | orderServer m => exact ⟨processed, sent, h.orderServer hn hroom hrun⟩
  | matchingEngine => exact h.matchingEngine hn hroom hrun
  | marketDataPublisher => exact ⟨processed, sent, h.marketDataPublisher hrun⟩

/-- However the threads take their turns, the engine is at every point where it would be without them,
having processed the first of the requests that were published, in their order; what has been sent to the
clients and what the publisher has got hold of is the beginning of what it has sent, and all of it when
nothing is under way. -/
theorem threads_in_order (hn : n.Ok) (hroom : Guarded (step sort pthreadSelf) HasRoom (start n) ms)
    (hrun : ms.foldlM (step sort pthreadSelf) (start n) = .ok s) :
    ∃ processed, processed <+: s.entry.fifoSequencer.incomingRequests ∧
      MatchingEngine.new.run processed = .ok s.engine ∧
      s.entry.written.map (·.2.2) <+: Exchange.responses s.engine.outgoing ∧
      s.published <+: Exchange.updates s.engine.outgoing ∧
      (s.Quiet → processed = s.entry.fifoSequencer.incomingRequests ∧
        s.entry.written.map (·.2.2) = Exchange.responses s.engine.outgoing ∧
        s.published = Exchange.updates s.engine.outgoing) := by
  obtain ⟨processed, sent, h⟩ := hroom.invariant (I := fun s ↦ ∃ processed sent, s.Inv n processed sent)
    (fun _ _ _ ⟨_, _, h⟩ hroom hstep ↦ h.step hn hroom hstep) ⟨[], [], inv_start n⟩ hrun
  have hresponses : Exchange.responses sent <+: Exchange.responses s.engine.outgoing := by
    rw [h.outgoing]
    exact ⟨_, List.filterMap_append.symm⟩
  have hupdates : Exchange.updates sent <+: Exchange.updates s.engine.outgoing := by
    rw [h.outgoing]
    exact ⟨_, List.filterMap_append.symm⟩
  refine ⟨processed, h.requests.taken_prefix, h.engine, h.responses.taken_prefix.trans hresponses,
    h.updates.taken_prefix.trans hupdates, ?_⟩
  rintro ⟨hquiet, hsending, hquiet', hquiet''⟩
  have hsent : s.engine.outgoing = sent := by
    rw [h.outgoing, List.isEmpty_iff.mp hsending, List.append_nil]
  rw [hsent]
  exact ⟨h.requests.eq_of_quiet hquiet, h.responses.eq_of_quiet hquiet', h.updates.eq_of_quiet hquiet''⟩

def oneRequest : List ExchangeMove :=
  [.orderServer (.sendAndRecv 1 (OrderEntry.order 1) 5 (.sent 0)), .orderServer .recvFinished,
    .orderServer .response, .matchingEngine, .marketDataPublisher, .matchingEngine, .matchingEngine,
    .marketDataPublisher, .orderServer .response, .matchingEngine, .orderServer .response,
    .marketDataPublisher]

theorem yields_oneRequest : Yields (oneRequest.foldlM (step id 7) (start ⟨2, 4, 4⟩)) fun s ↦
    s.Quiet ∧ s.entry.written.length = 1 ∧ s.published.length = 1 := by decide +kernel

theorem threads_in_order_one : ∃ s, oneRequest.foldlM (step id 7) (start ⟨2, 4, 4⟩) = .ok s ∧
    s.entry.written.length = 1 ∧ s.published.length = 1 ∧
      s.entry.written.map (·.2.2) = Exchange.responses s.engine.outgoing ∧
      s.published = Exchange.updates s.engine.outgoing := by
  obtain ⟨s, hrun, hquiet, hwritten, hpublished⟩ := yields_oneRequest.exists_ok
  obtain ⟨_, -, -, -, -, hall⟩ := threads_in_order (n := ⟨2, 4, 4⟩) ⟨by decide, by decide, by decide⟩
    (show Guarded (step id 7) HasRoom (start ⟨2, 4, 4⟩) oneRequest by decide +kernel) hrun
  exact ⟨s, hrun, hwritten, hpublished, (hall hquiet).2⟩

end ExchangeThreads

end LowLatency.Exchange
