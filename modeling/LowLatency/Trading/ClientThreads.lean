import LowLatency.Common.Passage
import LowLatency.Trading.ConsumerSockets
import LowLatency.Trading.OrderGateway
import LowLatency.Trading.RunningEngine

namespace LowLatency.Trading

open Common Exchange

namespace OrderGateway

inductive Event
  | sendAndRecv (chunk : List UInt8) (result : SendResult)
  | request (r : MEClientRequest)
  deriving DecidableEq, Repr

def step (g : OrderGateway) : Event → Except Fault OrderGateway
  | .sendAndRecv chunk result => (g.sendAndRecv chunk result).map Prod.fst
  | .request r => g.sendRequest r

end OrderGateway

inductive EngineLoop
  | responses
  | updates
  deriving DecidableEq, Repr

/-- The gateway, the consumer and the engine, each in a thread of its own, with the queues by which they
are connected and the bytes that the kernel has taken from the gateway. -/
structure ClientThreads (D : Type) where
  gateway : OrderGateway
  toServer : List UInt8
  consumer : ConsumerSockets
  engine : RunningEngine D
  loop : EngineLoop
  responses : Passage MEClientResponse
  updates : Passage MEMarketUpdate
  requests : Passage MEClientRequest

/-- What the gateway does next, unless it has a response to write or a slot to release. -/
inductive GatewayMove
  | sendAndRecv (chunk : List UInt8) (result : SendResult)
  | request

inductive ClientMove
  | orderGateway (m : GatewayMove)
  | marketDataConsumer (arrival : MarketDataConsumer.Channel × List UInt8)
  | tradeEngine

structure Capacities where
  responses : ℕ
  updates : ℕ
  requests : ℕ

structure Capacities.Ok (n : Capacities) : Prop where
  responses : 0 < n.responses ∧ n.responses < 2 ^ 64
  updates : 0 < n.updates ∧ n.updates < 2 ^ 64
  requests : 0 < n.requests ∧ n.requests < 2 ^ 64

namespace ClientThreads

variable {D : Type}

def start (n : Capacities) (clientId : ClientId) (consumer : ConsumerSockets) (engine : RunningEngine D) :
    ClientThreads D where
  gateway := .new clientId
  toServer := []
  consumer := consumer
  engine := engine
  loop := .responses
  responses := .new n.responses ⟨.INVALID, ClientId_INVALID, TickerId_INVALID, OrderId_INVALID,
    OrderId_INVALID, .INVALID, Price_INVALID, Qty_INVALID, Qty_INVALID⟩
  updates := .new n.updates .invalid
  requests := .new n.requests ⟨.INVALID, ClientId_INVALID, TickerId_INVALID, OrderId_INVALID, .INVALID,
    Price_INVALID, Qty_INVALID⟩

section Gateway

/-- The responses that have been received are written one after the other. -/
def sendAndRecv (s : ClientThreads D) (chunk : List UInt8) (result : SendResult) :
    Except Fault (ClientThreads D) := do
  let (gateway, taken) ← s.gateway.sendAndRecv chunk result
  return { s with
    gateway := gateway
    toServer := s.toServer ++ taken
    responses := s.responses.produce (gateway.incomingResponses.drop s.gateway.incomingResponses.length) }

/-- The loop over the requests, which ends where there is none. -/
def sendRequest (s : ClientThreads D) : Except Fault (ClientThreads D) := do
  match ← s.requests.next with
  | none => return s
  | some r => do
    let gateway ← s.gateway.sendRequest r
    return { s with gateway := gateway, requests := s.requests.take }

def orderGateway (pthreadSelf : ℕ) (s : ClientThreads D) (m : GatewayMove) : Except Fault (ClientThreads D) :=
  if s.responses.unwritten.isEmpty then
    if s.requests.inHand then do
      let requests ← s.requests.release pthreadSelf
      return { s with requests := requests }
    else match m with
      | .sendAndRecv chunk result => s.sendAndRecv chunk result
      | .request => s.sendRequest
  else .ok { s with responses := s.responses.write }

end Gateway

def marketDataConsumer (os : Os) (s : ClientThreads D) (arrival : MarketDataConsumer.Channel × List UInt8) :
    Except Fault (ClientThreads D) :=
  if s.updates.unwritten.isEmpty then do
    let consumer ← s.consumer.sendAndRecv os arrival
    return { s with
      consumer := consumer
      updates := s.updates.produce
        (consumer.consumer.incomingMdUpdates.drop s.consumer.consumer.incomingMdUpdates.length) }
  else .ok { s with updates := s.updates.write }

section Engine

variable [Double D] [LE D] [DecidableLE D]

/-- The requests that the engine makes are written one after the other. -/
def handle (s : ClientThreads D) (e : EngineEvent) : Except Fault (ClientThreads D) := do
  let engine ← s.engine.step e
  return { s with
    engine := engine
    requests := s.requests.produce
      (engine.outgoingOgwRequests.drop s.engine.outgoingOgwRequests.length) }

def onResponses (pthreadSelf : ℕ) (s : ClientThreads D) : Except Fault (ClientThreads D) :=
  if s.responses.inHand then do
    let responses ← s.responses.release pthreadSelf
    return { s with responses := responses }
  else do
    match ← s.responses.next with
    | none => return { s with loop := .updates }
    | some r => handle { s with responses := s.responses.take } (.response r)

def onUpdates (pthreadSelf : ℕ) (s : ClientThreads D) : Except Fault (ClientThreads D) :=
  if s.updates.inHand then do
    let updates ← s.updates.release pthreadSelf
    return { s with updates := updates }
  else do
    match ← s.updates.next with
    | none => return { s with loop := .responses }
    | some u => handle { s with updates := s.updates.take } (.marketUpdate u)

def tradeEngine (pthreadSelf : ℕ) (s : ClientThreads D) : Except Fault (ClientThreads D) :=
  if s.requests.unwritten.isEmpty then
    match s.loop with
    | .responses => s.onResponses pthreadSelf
    | .updates => s.onUpdates pthreadSelf
  else .ok { s with requests := s.requests.write }

def step (os : Os) (pthreadSelf : ℕ) (s : ClientThreads D) : ClientMove → Except Fault (ClientThreads D)
  | .orderGateway m => s.orderGateway pthreadSelf m
  | .marketDataConsumer arrival => s.marketDataConsumer os arrival
  | .tradeEngine => s.tradeEngine pthreadSelf

end Engine

def HasRoom (s : ClientThreads D) : ClientMove → Prop
  | .orderGateway _ => s.responses.HasRoom
  | .marketDataConsumer _ => s.updates.HasRoom
  | .tradeEngine => s.requests.HasRoom

instance (s : ClientThreads D) : DecidablePred s.HasRoom := fun m ↦ by
  cases m <;> unfold HasRoom <;> infer_instance

def Quiet (s : ClientThreads D) : Prop := s.responses.Quiet ∧ s.updates.Quiet ∧ s.requests.Quiet

instance : DecidablePred (Quiet (D := D)) := fun _ ↦ inferInstanceAs (Decidable (_ ∧ _))

end ClientThreads

namespace ClientThreads

def requestsSent (gs : List OrderGateway.Event) : List MEClientRequest :=
  gs.filterMap fun
    | .request r => some r
    | .sendAndRecv _ _ => none

def responsesHandled (es : List EngineEvent) : List MEClientResponse :=
  es.filterMap fun
    | .response r => some r
    | .marketUpdate _ => none

def updatesHandled (es : List EngineEvent) : List MEMarketUpdate :=
  es.filterMap fun
    | .marketUpdate u => some u
    | .response _ => none

variable {D : Type} [Double D] [LE D] [DecidableLE D] {os : Os} {n : Capacities} {pthreadSelf : ℕ}
  {x s s' : ClientThreads D} {gs : List OrderGateway.Event} {es : List EngineEvent}
  {arrivals : List (MarketDataConsumer.Channel × List UInt8)} {ms : List ClientMove}

/-- Each of the three is where its own inputs have led it, and these have come through the queues. -/
structure Inv (os : Os) (n : Capacities) (x : ClientThreads D) (gs : List OrderGateway.Event)
    (es : List EngineEvent) (arrivals : List (MarketDataConsumer.Channel × List UInt8))
    (s : ClientThreads D) : Prop where
  gateway : gs.foldlM OrderGateway.step x.gateway = .ok s.gateway
  consumer : arrivals.foldlM (ConsumerSockets.sendAndRecv os) x.consumer = .ok s.consumer
  engine : es.foldlM RunningEngine.step x.engine = .ok s.engine
  responses : s.responses.Passes n.responses s.gateway.incomingResponses (responsesHandled es)
  updates : s.updates.Passes n.updates s.consumer.consumer.incomingMdUpdates (updatesHandled es)
  requests : s.requests.Passes n.requests s.engine.outgoingOgwRequests (requestsSent gs)

theorem requestsSent_concat (gs : List OrderGateway.Event) (c : OrderGateway.Event) :
    requestsSent (gs ++ [c]) = requestsSent gs ++ requestsSent [c] := List.filterMap_append

section Steps

theorem Inv.sendAndRecv {chunk : List UInt8} {result : SendResult} (h : Inv os n x gs es arrivals s)
    (hrun : s.sendAndRecv chunk result = .ok s') :
    Inv os n x (gs ++ [.sendAndRecv chunk result]) es arrivals s' := by
  obtain ⟨⟨gateway, taken⟩, hgateway, hrun⟩ := bind_eq_ok hrun
  obtain rfl := Except.ok.inj hrun
  have hstep : s.gateway.step (.sendAndRecv chunk result) = .ok gateway := by
    rw [OrderGateway.step, hgateway]
    rfl
  refine ⟨(foldlM_concat _ _ _ _ h.gateway).trans hstep, h.consumer, h.engine,
    h.responses.produce (OrderGateway.sendAndRecv_frame hgateway).1, h.updates, ?_⟩
  rw [requestsSent_concat]
  exact (List.append_nil (requestsSent gs)).symm ▸ h.requests

theorem Inv.sendRequest (h : Inv os n x gs es arrivals s) (hfree : s.requests.inHand = false)
    (hrun : s.sendRequest = .ok s') : ∃ gs', Inv os n x gs' es arrivals s' := by
  obtain ⟨next, hnext, hrun⟩ := bind_eq_ok hrun
  cases next with
  | none => exact ⟨gs, Except.ok.inj hrun ▸ h⟩
  | some r =>
    obtain ⟨gateway, hsend, hrun⟩ := bind_eq_ok hrun
    obtain rfl := Except.ok.inj hrun
    have hstep : s.gateway.step (.request r) = .ok gateway := hsend
    refine ⟨gs ++ [.request r], (foldlM_concat _ _ _ _ h.gateway).trans hstep, h.consumer, h.engine, ?_,
      h.updates, ?_⟩
    · rw [OrderGateway.sendRequest_incoming hsend]
      exact h.responses
    · rw [requestsSent_concat]
      exact h.requests.take hfree hnext

theorem Inv.orderGateway {m : GatewayMove} (h : Inv os n x gs es arrivals s) (hn : n.Ok)
    (hroom : s.responses.HasRoom) (hrun : s.orderGateway pthreadSelf m = .ok s') :
    ∃ gs', Inv os n x gs' es arrivals s' := by
  unfold ClientThreads.orderGateway at hrun
  split_ifs at hrun with hwritten hheld
  · obtain ⟨requests, hrelease, hrun⟩ := bind_eq_ok hrun
    obtain rfl := Except.ok.inj hrun
    exact ⟨gs, h.gateway, h.consumer, h.engine, h.responses, h.updates, h.requests.release hheld hrelease⟩
  · cases m with
    | sendAndRecv chunk result => exact ⟨_, h.sendAndRecv hrun⟩
    | request => exact h.sendRequest (Bool.eq_false_iff.mpr hheld) hrun
  · obtain rfl := Except.ok.inj hrun
    exact ⟨gs, h.gateway, h.consumer, h.engine, h.responses.write hn.responses.1 hn.responses.2 hroom,
      h.updates, h.requests⟩

theorem Inv.marketDataConsumer {a : MarketDataConsumer.Channel × List UInt8}
    (h : Inv os n x gs es arrivals s) (hn : n.Ok) (hroom : s.updates.HasRoom)
    (hrun : s.marketDataConsumer os a = .ok s') : ∃ arrivals', Inv os n x gs es arrivals' s' := by
  unfold ClientThreads.marketDataConsumer at hrun
  split_ifs at hrun with hwritten
  · obtain ⟨consumer, hreceive, hrun⟩ := bind_eq_ok hrun
    obtain rfl := Except.ok.inj hrun
    exact ⟨arrivals ++ [a], h.gateway, (foldlM_concat _ _ _ _ h.consumer).trans hreceive, h.engine,
      h.responses, h.updates.produce (ConsumerSockets.sendAndRecv_incoming hreceive), h.requests⟩
  · obtain rfl := Except.ok.inj hrun
    exact ⟨arrivals, h.gateway, h.consumer, h.engine, h.responses,
      h.updates.write hn.updates.1 hn.updates.2 hroom, h.requests⟩

theorem Inv.handle {e : EngineEvent} {responses : Passage MEClientResponse}
    {updates : Passage MEMarketUpdate} (h : Inv os n x gs es arrivals s)
    (hresponses : responses.Passes n.responses s.gateway.incomingResponses (responsesHandled (es ++ [e])))
    (hupdates : updates.Passes n.updates s.consumer.consumer.incomingMdUpdates (updatesHandled (es ++ [e])))
    (hrun : ClientThreads.handle { s with responses := responses, updates := updates } e = .ok s') :
    Inv os n x gs (es ++ [e]) arrivals s' := by
  obtain ⟨engine, hstep, hrun⟩ := bind_eq_ok hrun
  obtain rfl := Except.ok.inj hrun
  exact ⟨h.gateway, h.consumer, (foldlM_concat _ _ _ _ h.engine).trans hstep, hresponses, hupdates,
    h.requests.produce (RunningEngine.step_outgoing hstep)⟩

theorem Inv.onResponses (h : Inv os n x gs es arrivals s) (hrun : s.onResponses pthreadSelf = .ok s') :
    ∃ es', Inv os n x gs es' arrivals s' := by
  unfold ClientThreads.onResponses at hrun
  split_ifs at hrun with hheld
  · obtain ⟨responses, hrelease, hrun⟩ := bind_eq_ok hrun
    obtain rfl := Except.ok.inj hrun
    exact ⟨es, h.gateway, h.consumer, h.engine, h.responses.release hheld hrelease, h.updates, h.requests⟩
  · obtain ⟨next, hnext, hrun⟩ := bind_eq_ok hrun
    cases next with
    | none =>
      obtain rfl := Except.ok.inj hrun
      exact ⟨es, h.gateway, h.consumer, h.engine, h.responses, h.updates, h.requests⟩
    | some r =>
      have hresponses : responsesHandled (es ++ [.response r]) = responsesHandled es ++ [r] :=
        List.filterMap_append
      have hupdates : updatesHandled (es ++ [.response r]) = updatesHandled es :=
        List.filterMap_append.trans (List.append_nil _)
      refine ⟨es ++ [.response r], h.handle ?_ ?_ hrun⟩
      · rw [hresponses]
        exact h.responses.take (Bool.eq_false_iff.mpr hheld) hnext
      · rw [hupdates]
        exact h.updates

theorem Inv.onUpdates (h : Inv os n x gs es arrivals s) (hrun : s.onUpdates pthreadSelf = .ok s') :
    ∃ es', Inv os n x gs es' arrivals s' := by
  unfold ClientThreads.onUpdates at hrun
  split_ifs at hrun with hheld
  · obtain ⟨updates, hrelease, hrun⟩ := bind_eq_ok hrun
    obtain rfl := Except.ok.inj hrun
    exact ⟨es, h.gateway, h.consumer, h.engine, h.responses, h.updates.release hheld hrelease, h.requests⟩
  · obtain ⟨next, hnext, hrun⟩ := bind_eq_ok hrun
    cases next with
    | none =>
      obtain rfl := Except.ok.inj hrun
      exact ⟨es, h.gateway, h.consumer, h.engine, h.responses, h.updates, h.requests⟩
    | some u =>
      have hupdates : updatesHandled (es ++ [.marketUpdate u]) = updatesHandled es ++ [u] :=
        List.filterMap_append
      have hresponses : responsesHandled (es ++ [.marketUpdate u]) = responsesHandled es :=
        List.filterMap_append.trans (List.append_nil _)
      refine ⟨es ++ [.marketUpdate u], h.handle ?_ ?_ hrun⟩
      · rw [hresponses]
        exact h.responses
      · rw [hupdates]
        exact h.updates.take (Bool.eq_false_iff.mpr hheld) hnext

theorem Inv.tradeEngine (h : Inv os n x gs es arrivals s) (hn : n.Ok) (hroom : s.requests.HasRoom)
    (hrun : s.tradeEngine pthreadSelf = .ok s') : ∃ es', Inv os n x gs es' arrivals s' := by
  unfold ClientThreads.tradeEngine at hrun
  split_ifs at hrun with hwritten
  · cases hloop : s.loop with
    | responses =>
      rw [hloop] at hrun
      exact h.onResponses hrun
    | updates =>
      rw [hloop] at hrun
      exact h.onUpdates hrun
  · obtain rfl := Except.ok.inj hrun
    exact ⟨es, h.gateway, h.consumer, h.engine, h.responses, h.updates,
      h.requests.write hn.requests.1 hn.requests.2 hroom⟩

end Steps

section Run

variable {clientId : ClientId} {c₀ : ConsumerSockets} {e₀ : RunningEngine D} {m : ClientMove}

theorem inv_start (os : Os) (n : Capacities) (clientId : ClientId)
    (hconsumer : c₀.consumer.incomingMdUpdates = []) (hengine : e₀.outgoingOgwRequests = []) :
    Inv os n (start n clientId c₀ e₀) [] [] [] (start n clientId c₀ e₀) := by
  refine ⟨rfl, rfl, rfl, Passage.passes_new _ _, ?_, ?_⟩
  · rw [start, hconsumer]
    exact Passage.passes_new _ _
  · rw [start, hengine]
    exact Passage.passes_new _ _

theorem Inv.step (h : Inv os n x gs es arrivals s) (hn : n.Ok) (hroom : s.HasRoom m)
    (hrun : s.step os pthreadSelf m = .ok s') : ∃ gs es arrivals, Inv os n x gs es arrivals s' := by
  cases m with
  | orderGateway m =>
    obtain ⟨gs', h'⟩ := h.orderGateway hn hroom hrun
    exact ⟨gs', es, arrivals, h'⟩
  | marketDataConsumer a =>
    obtain ⟨arrivals', h'⟩ := h.marketDataConsumer hn hroom hrun
    exact ⟨gs, es, arrivals', h'⟩
  | tradeEngine =>
    obtain ⟨es', h'⟩ := h.tradeEngine hn hroom hrun
    exact ⟨gs, es', arrivals, h'⟩

/-- However the three threads take their turns, each of them is where it would be on its own, on inputs of
which the others' outputs, in their order, are the beginning; with nothing on the way, they are all of it. -/
theorem client_threads_in_order (hn : n.Ok) (hconsumer : c₀.consumer.incomingMdUpdates = [])
    (hengine : e₀.outgoingOgwRequests = [])
    (hroom : Guarded (step os pthreadSelf) HasRoom (start n clientId c₀ e₀) ms)
    (hrun : ms.foldlM (step os pthreadSelf) (start n clientId c₀ e₀) = .ok s) :
    ∃ (gs : List OrderGateway.Event) (es : List EngineEvent)
      (arrivals : List (MarketDataConsumer.Channel × List UInt8)),
      gs.foldlM OrderGateway.step (.new clientId) = .ok s.gateway ∧
      arrivals.foldlM (ConsumerSockets.sendAndRecv os) c₀ = .ok s.consumer ∧
      es.foldlM RunningEngine.step e₀ = .ok s.engine ∧
      responsesHandled es <+: s.gateway.incomingResponses ∧
      updatesHandled es <+: s.consumer.consumer.incomingMdUpdates ∧
      requestsSent gs <+: s.engine.outgoingOgwRequests ∧
      (s.Quiet → responsesHandled es = s.gateway.incomingResponses ∧
        updatesHandled es = s.consumer.consumer.incomingMdUpdates ∧
        requestsSent gs = s.engine.outgoingOgwRequests) := by
  obtain ⟨gs, es, arrivals, h⟩ := hroom.invariant
    (I := fun s ↦ ∃ gs es arrivals, Inv os n (start n clientId c₀ e₀) gs es arrivals s)
    (fun _ _ _ ⟨_, _, _, h⟩ hroom hstep ↦ h.step hn hroom hstep)
    ⟨[], [], [], inv_start os n clientId hconsumer hengine⟩ hrun
  refine ⟨gs, es, arrivals, h.gateway, h.consumer, h.engine, h.responses.taken_prefix,
    h.updates.taken_prefix, h.requests.taken_prefix, ?_⟩
  rintro ⟨hresponses, hupdates, hrequests⟩
  exact ⟨h.responses.eq_of_quiet hresponses, h.updates.eq_of_quiet hupdates,
    h.requests.eq_of_quiet hrequests⟩

def quoting : ClientThreads ℚ :=
  start ⟨2, 4, 4⟩ 1 ⟨{ MarketDataConsumer.started with inRecovery := false }, fun _ ↦ []⟩
    (.new 1 .MAKER RunningEngine.fiveCfg RunningEngine.fiveClip RunningEngine.setBooks)

def quotingMoves : List ClientMove :=
  [.marketDataConsumer (.incremental, Layout.mdpMarketUpdate.stream
    [⟨1, ⟨.ADD, 1, 0, .BUY, 100, 10, 1⟩⟩, ⟨2, ⟨.ADD, 2, 0, .BUY, 100, 10, 2⟩⟩,
      ⟨3, ⟨.ADD, 3, 0, .SELL, 104, 10, 1⟩⟩, ⟨4, ⟨.ADD, 4, 0, .SELL, 104, 10, 2⟩⟩])] ++
    List.replicate 2 (.marketDataConsumer (.incremental, [])) ++ List.replicate 4 .tradeEngine ++
    List.replicate 2 (.marketDataConsumer (.incremental, [])) ++ List.replicate 7 .tradeEngine ++
    List.replicate 4 (.orderGateway .request) ++ [.orderGateway (.sendAndRecv [] (.sent 76))]

theorem yields_quotingMoves : Yields (quotingMoves.foldlM (step MarketDataConsumer.sameFd 7) quoting) fun s ↦
    s.Quiet ∧ s.toServer.length = 76 ∧ s.engine.outgoingOgwRequests.length = 2 := by decide +kernel

theorem client_threads_in_order_quoting : ∃ s gs,
    quotingMoves.foldlM (step MarketDataConsumer.sameFd 7) quoting = .ok s ∧ s.toServer.length = 76 ∧
      gs.foldlM OrderGateway.step (.new 1) = .ok s.gateway ∧
      requestsSent gs = s.engine.outgoingOgwRequests ∧ s.engine.outgoingOgwRequests.length = 2 := by
  obtain ⟨s, hrun, hquiet, hbytes, hlength⟩ := yields_quotingMoves.exists_ok
  obtain ⟨gs, es, arrivals, hgateway, -, -, -, -, -, hall⟩ := client_threads_in_order
    (n := ⟨2, 4, 4⟩) ⟨by decide, by decide, by decide⟩ rfl rfl
    (show Guarded (step MarketDataConsumer.sameFd 7) HasRoom quoting quotingMoves by decide +kernel) hrun
  exact ⟨s, gs, hrun, hbytes, hgateway, (hall hquiet).2.2, hlength⟩

end Run

section Idle

variable {snapshotGroup incrementalGroup : Group} {books : TickerId → Option MarketOrderBook}

structure Idle (incrementalGroup : Group) (books : TickerId → Option MarketOrderBook) (s : ClientThreads D) :
    Prop where
  deaf : s.consumer.consumer.Deaf incrementalGroup
  updates : s.updates.Unused
  requests : s.requests.Unused
  outgoing : s.engine.outgoingOgwRequests = []
  books : s.engine.tickerOrderBook = books
  sendBuffer : s.gateway.tcpSocket.sendBuffer = []
  nextOutgoing : s.gateway.nextOutgoingSeqNum = 1
  toServer : s.toServer = []

section Gateway

omit [Double D] [LE D] [DecidableLE D]

theorem Idle.frame (h : s.Idle incrementalGroup books) (loop : EngineLoop)
    (responses : Passage MEClientResponse) :
    ({ s with loop := loop, responses := responses } : ClientThreads D).Idle incrementalGroup books :=
  ⟨h.deaf, h.updates, h.requests, h.outgoing, h.books, h.sendBuffer, h.nextOutgoing, h.toServer⟩

theorem Idle.sendAndRecv {chunk : List UInt8} {result : SendResult} (h : s.Idle incrementalGroup books)
    (hrun : s.sendAndRecv chunk result = .ok s') : s'.Idle incrementalGroup books := by
  obtain ⟨⟨gateway, taken⟩, hgateway, hrun⟩ := bind_eq_ok hrun
  obtain rfl := Except.ok.inj hrun
  obtain ⟨-, hnext, hsent⟩ := OrderGateway.sendAndRecv_frame hgateway
  obtain ⟨hbuffer, rfl⟩ := hsent h.sendBuffer
  exact ⟨h.deaf, h.updates, h.requests, h.outgoing, h.books, hbuffer, hnext.trans h.nextOutgoing,
    (List.append_nil _).trans h.toServer⟩

theorem Idle.sendRequest (h : s.Idle incrementalGroup books) : s.sendRequest = .ok s := by
  rw [ClientThreads.sendRequest, h.requests.next]
  rfl

theorem Idle.orderGateway {m : GatewayMove} (h : s.Idle incrementalGroup books)
    (hrun : s.orderGateway pthreadSelf m = .ok s') : s'.Idle incrementalGroup books := by
  unfold ClientThreads.orderGateway at hrun
  rw [h.requests.inHand, if_neg Bool.false_ne_true] at hrun
  split_ifs at hrun with hwritten
  · cases m with
    | sendAndRecv chunk result => exact h.sendAndRecv hrun
    | request =>
      obtain rfl := Except.ok.inj (h.sendRequest.symm.trans hrun)
      exact h
  · obtain rfl := Except.ok.inj hrun
    exact h.frame _ _

theorem Idle.marketDataConsumer {a : MarketDataConsumer.Channel × List UInt8}
    (h : s.Idle incrementalGroup books) (hrun : s.marketDataConsumer os a = .ok s') :
    s'.Idle incrementalGroup books := by
  unfold ClientThreads.marketDataConsumer at hrun
  rw [h.updates.unwritten, List.isEmpty_nil, if_pos rfl] at hrun
  obtain ⟨consumer, hreceive, hrun⟩ := bind_eq_ok hrun
  obtain rfl := Except.ok.inj hrun
  have hdeaf := ConsumerSockets.sendAndRecv_deaf h.deaf hreceive
  refine ⟨hdeaf, ?_, h.requests, h.outgoing, h.books, h.sendBuffer, h.nextOutgoing, h.toServer⟩
  dsimp only
  rw [hdeaf.written, List.drop_nil]
  exact h.updates.produce

end Gateway

theorem Idle.onResponses (h : s.Idle incrementalGroup books) (hrun : s.onResponses pthreadSelf = .ok s') :
    s'.Idle incrementalGroup books := by
  unfold ClientThreads.onResponses at hrun
  split_ifs at hrun with hheld
  · obtain ⟨responses, -, hrun⟩ := bind_eq_ok hrun
    obtain rfl := Except.ok.inj hrun
    exact h.frame _ _
  · obtain ⟨next, -, hrun⟩ := bind_eq_ok hrun
    cases next with
    | none =>
      obtain rfl := Except.ok.inj hrun
      exact h.frame _ _
    | some r =>
      obtain ⟨engine, hstep, hrun⟩ := bind_eq_ok hrun
      obtain rfl := Except.ok.inj hrun
      obtain ⟨houtgoing, hbooks⟩ := RunningEngine.onOrderUpdate_outgoing hstep
      have hnone : engine.outgoingOgwRequests = [] := houtgoing.trans h.outgoing
      refine ⟨h.deaf, h.updates, ?_, hnone, hbooks.trans h.books, h.sendBuffer, h.nextOutgoing, h.toServer⟩
      dsimp only
      rw [hnone, List.drop_nil]
      exact h.requests.produce

theorem Idle.tradeEngine (h : s.Idle incrementalGroup books) (hrun : s.tradeEngine pthreadSelf = .ok s') :
    s'.Idle incrementalGroup books := by
  unfold ClientThreads.tradeEngine at hrun
  rw [h.requests.unwritten, List.isEmpty_nil, if_pos rfl] at hrun
  cases hloop : s.loop with
  | responses =>
    rw [hloop] at hrun
    exact h.onResponses hrun
  | updates =>
    rw [hloop] at hrun
    dsimp only at hrun
    unfold ClientThreads.onUpdates at hrun
    rw [h.updates.inHand, if_neg Bool.false_ne_true, h.updates.next] at hrun
    obtain rfl := Except.ok.inj hrun
    exact h.frame _ _

variable {clientId : ClientId} {algoType : AlgoType} {riskCfg : TickerId → RiskCfg D}
  {tickerCfg : TickerId → TradeEngineCfg D} {c₀ : ConsumerSockets}

omit [LE D] [DecidableLE D] in
theorem idle_start (hnew : ConsumerSockets.new os snapshotGroup incrementalGroup = .ok c₀) :
    (start n clientId c₀ (.new clientId algoType riskCfg tickerCfg books)).Idle incrementalGroup books :=
  ⟨(ConsumerSockets.Waits.of_new hnew).deaf, ⟨_, _, rfl⟩, ⟨_, _, rfl⟩, rfl, rfl, rfl, rfl, rfl⟩

/-- Whatever the network brings, and however the threads of a new client take their turns: the engine
learns of no update and makes no request, and not a byte leaves the gateway. -/
theorem never_trades (hnew : ConsumerSockets.new os snapshotGroup incrementalGroup = .ok c₀)
    (hrun : ms.foldlM (step os pthreadSelf)
      (start n clientId c₀ (.new clientId algoType riskCfg tickerCfg books)) = .ok s) :
    s.updates.Unused ∧ s.engine.tickerOrderBook = books ∧ s.engine.outgoingOgwRequests = [] ∧
      s.requests.Unused ∧ s.gateway.nextOutgoingSeqNum = 1 ∧ s.gateway.tcpSocket.sendBuffer = [] ∧
      s.toServer = [] := by
  have hidle : s.Idle incrementalGroup books := by
    refine run_invariant (fun s m s' h hstep ↦ ?_) (idle_start hnew) hrun
    cases m with
    | orderGateway m => exact h.orderGateway hstep
    | marketDataConsumer a => exact h.marketDataConsumer hstep
    | tradeEngine => exact h.tradeEngine hstep
  exact ⟨hidle.updates, hidle.books, hidle.outgoing, hidle.requests, hidle.nextOutgoing, hidle.sendBuffer,
    hidle.toServer⟩

theorem never_trades_quoting : ∃ c₀ s,
    ConsumerSockets.new MarketDataConsumer.sameFd ⟨"233.252.14.1", 20000⟩ ⟨"233.252.14.3", 20001⟩ = .ok c₀ ∧
      quotingMoves.foldlM (step MarketDataConsumer.sameFd 7) (start ⟨2, 4, 4⟩ 1 c₀ (.new 1 .MAKER
        RunningEngine.fiveCfg RunningEngine.fiveClip RunningEngine.setBooks)) = .ok s ∧
      s.engine.outgoingOgwRequests = [] ∧ s.toServer = [] := by
  have hnew : ConsumerSockets.new MarketDataConsumer.sameFd ⟨"233.252.14.1", 20000⟩
      ⟨"233.252.14.3", 20001⟩ = .ok ⟨MarketDataConsumer.started, fun _ ↦ []⟩ := rfl
  obtain ⟨s, hrun, -⟩ : ∃ s, quotingMoves.foldlM (step MarketDataConsumer.sameFd 7)
      (start ⟨2, 4, 4⟩ 1 ⟨MarketDataConsumer.started, fun _ ↦ []⟩ (.new 1 .MAKER RunningEngine.fiveCfg
        RunningEngine.fiveClip RunningEngine.setBooks)) = .ok s ∧ s.toServer.length = 0 :=
    Yields.exists_ok (by decide +kernel)
  obtain ⟨-, -, hnone, -, -, -, hbytes⟩ := never_trades hnew hrun
  exact ⟨_, s, hnew, hrun, hnone, hbytes⟩

end Idle

end ClientThreads

end LowLatency.Trading
