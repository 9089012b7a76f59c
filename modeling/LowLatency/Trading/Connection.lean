import LowLatency.Exchange.ClientSession
import LowLatency.GuardedRun
import LowLatency.Trading.OrderGateway

namespace LowLatency.Trading

open Common Exchange

/-- An order gateway, the order server, and the bytes that the kernel has under way between the
gateway's socket and the one at which the server has accepted it. -/
structure Connection where
  gateway : OrderGateway
  server : OrderEntry
  toServer : List UInt8
  toGateway : List UInt8

/-- One round of a loop of the gateway or of the server. The kernel hands `n` bytes over, as far as
they have arrived and the buffer has room for them; a peer is at any other socket. -/
inductive ConnectionEvent
  | request (r : MEClientRequest)
  | gateway (n : ℕ) (result : SendResult)
  | server (n : ℕ) (rxTime : Nanos) (result : SendResult)
  | response (r : MEClientResponse)
  | publish
  | peer (q : Ptr) (chunk : List UInt8) (rxTime : Nanos) (result : SendResult)

namespace Connection

def start (clientId : ClientId) : Connection := ⟨.new clientId, .new, [], []⟩

def gatewayChunk (s : Connection) (n : ℕ) : List UInt8 :=
  s.gateway.tcpSocket.received n s.toGateway

def serverChunk (p : Ptr) (s : Connection) (n : ℕ) : List UInt8 :=
  (s.server.sockets p).received n s.toServer

def step (sort : List RecvTimeClientRequest → List RecvTimeClientRequest) (p : Ptr) (s : Connection) :
    ConnectionEvent → Except Fault Connection
  | .request r => do
    let gateway ← s.gateway.sendRequest r
    return { s with gateway := gateway }
  | .gateway n result => do
    let chunk := s.gatewayChunk n
    let (gateway, taken) ← s.gateway.sendAndRecv chunk result
    return { s with
      gateway := gateway
      toServer := s.toServer ++ taken
      toGateway := s.toGateway.drop chunk.length }
  | .server n rxTime result => do
    let chunk := s.serverChunk p n
    let (server, taken) ← s.server.sendAndRecv p chunk rxTime result
    return { s with
      server := server
      toServer := s.toServer.drop chunk.length
      toGateway := s.toGateway ++ taken }
  | .response r => do
    let server ← s.server.sendResponse r
    return { s with server := server }
  | .publish => return { s with server := s.server.recvFinishedCallback sort }
  | .peer q chunk rxTime result => do
    let (server, _) ← s.server.sendAndRecv q chunk rxTime result
    return { s with server := server }

def messagesAt (s : Connection) (q : Ptr) (chunk : List UInt8) : List OMClientRequest :=
  Layout.omClientRequest.messages ((s.server.sockets q).recvBuffer ++ chunk)

/-- No send buffer overflows, the kernel takes every byte of this connection, and the sequencer has
room for what is received. Peers do not use the client's id. -/
def Regular (p : Ptr) (s : Connection) : ConnectionEvent → Prop
  | .request r => r.Fits ∧ r.clientId = s.gateway.clientId ∧
      s.gateway.tcpSocket.sendBuffer.length + Layout.omClientRequest.size ≤ TCPBufferSize
  | .gateway _ result => result = .sent s.gateway.tcpSocket.sendBuffer.length
  | .server n _ result => result = .sent (s.server.sockets p).sendBuffer.length ∧
      s.server.HasRoom (s.messagesAt p (s.serverChunk p n)).length
  | .response r => r.Fits ∧ s.server.Bound r.clientId ∧ ∀ q ∈ s.server.cidTcpSocket r.clientId,
      (s.server.sockets q).sendBuffer.length + Layout.omClientResponse.size ≤ TCPBufferSize
  | .publish => True
  | .peer q chunk _ result => q ≠ p ∧
      (∀ m ∈ s.messagesAt q chunk, m.meClientRequest.clientId < ME_MAX_NUM_CLIENTS ∧
        m.meClientRequest.clientId ≠ s.gateway.clientId) ∧
      s.server.HasRoom (s.messagesAt q chunk).length ∧
      result ∈ [.sent (s.server.sockets q).sendBuffer.length, .wouldBlock, .failed]

instance (p : Ptr) (s : Connection) (e : ConnectionEvent) : Decidable (s.Regular p e) := by
  cases e <;> unfold Regular <;> infer_instance

def requests (es : List ConnectionEvent) : List MEClientRequest :=
  es.filterMap fun
    | .request r => some r
    | _ => none

def responses (c : ClientId) (es : List ConnectionEvent) : List MEClientResponse :=
  es.filterMap fun
    | .response r => if r.clientId = c then some r else none
    | _ => none

structure Inv (c : ClientId) (p : Ptr) (es : List ConnectionEvent) (s : Connection) : Prop where
  clientId : s.gateway.clientId = c
  requests_fit : ∀ r ∈ requests es, r.Fits ∧ r.clientId = c
  responses_fit : ∀ r ∈ responses c es, r.Fits ∧ r.clientId = c
  serving : s.server.Serving c p (requests es) (responses c es).length
    (s.toServer ++ s.gateway.tcpSocket.sendBuffer)
  joined : s.gateway.Joined (requests es).length (responses c es)
    (s.toGateway ++ (s.server.sockets p).sendBuffer)

variable {sort : List RecvTimeClientRequest → List RecvTimeClientRequest} {c : ClientId} {p : Ptr}
  {es : List ConnectionEvent} {s : Connection}

theorem inv_start (c : ClientId) (p : Ptr) : Inv c p [] (start c) :=
  ⟨rfl, fun _ h ↦ (by cases h), fun _ h ↦ (by cases h), .new c p, .new c⟩

theorem requests_concat (es : List ConnectionEvent) (e : ConnectionEvent) :
    requests (es ++ [e]) = requests es ++ requests [e] := List.filterMap_append

theorem responses_concat (c : ClientId) (es : List ConnectionEvent) (e : ConnectionEvent) :
    responses c (es ++ [e]) = responses c es ++ responses c [e] := List.filterMap_append

theorem Inv.request {r : MEClientRequest} (h : Inv c p es s) (hok : s.Regular p (.request r)) :
    ∃ s', s.step sort p (.request r) = .ok s' ∧ Inv c p (es ++ [.request r]) s' := by
  obtain ⟨hfits, hid, hroom⟩ := hok
  obtain ⟨g, hsend, hjoined, hclient, hbuffer⟩ := h.joined.sendRequest (r := r) hroom
  have hrequests : requests (es ++ [.request r]) = requests es ++ [r] := requests_concat es _
  have hresponses : responses c (es ++ [.request r]) = responses c es :=
    (responses_concat c es _).trans (List.append_nil _)
  refine ⟨{ s with gateway := g }, by rw [step, hsend]; rfl, hclient.trans h.clientId, ?_, ?_, ?_, ?_⟩
  · intro r' hr'
    rw [hrequests, List.mem_append, List.mem_singleton] at hr'
    rcases hr' with hr' | rfl
    · exact h.requests_fit r' hr'
    · exact ⟨hfits, hid.trans h.clientId⟩
  · rw [hresponses]
    exact h.responses_fit
  · rw [hrequests, hresponses, hbuffer, ← List.append_assoc]
    exact h.serving.request r
  · rw [hrequests, hresponses, List.length_append]
    exact hjoined

theorem Inv.quiet {e : ConnectionEvent} {s' : Connection} (hrequests : requests [e] = [])
    (hresponses : responses c [e] = []) (h : Inv c p es s) (hclient : s'.gateway.clientId = c)
    (hserving : s'.server.Serving c p (requests es) (responses c es).length
      (s'.toServer ++ s'.gateway.tcpSocket.sendBuffer))
    (hjoined : s'.gateway.Joined (requests es).length (responses c es)
      (s'.toGateway ++ (s'.server.sockets p).sendBuffer)) : Inv c p (es ++ [e]) s' := by
  have hreqs : requests (es ++ [e]) = requests es := by
    rw [requests_concat, hrequests, List.append_nil]
  have hresps : responses c (es ++ [e]) = responses c es := by
    rw [responses_concat, hresponses, List.append_nil]
  constructor
  · exact hclient
  · rw [hreqs]
    exact h.requests_fit
  · rw [hresps]
    exact h.responses_fit
  · rw [hreqs, hresps]
    exact hserving
  · rw [hreqs, hresps]
    exact hjoined

theorem Inv.gateway {n : ℕ} {result : SendResult} (h : Inv c p es s)
    (hok : s.Regular p (.gateway n result)) :
    ∃ s', s.step sort p (.gateway n result) = .ok s' ∧ Inv c p (es ++ [.gateway n result]) s' := by
  have hsent : result = .sent s.gateway.tcpSocket.sendBuffer.length := hok
  subst hsent
  have happend : s.gatewayChunk n ++ s.toGateway.drop (s.gatewayChunk n).length = s.toGateway :=
    s.gateway.tcpSocket.received_append n s.toGateway
  have hjoined := h.joined
  rw [← happend, List.append_assoc] at hjoined
  obtain ⟨g, hrun, hjoined', hclient, hbuffer⟩ :=
    hjoined.sendAndRecv (h.clientId ▸ h.responses_fit)
  refine ⟨{ s with
    gateway := g
    toServer := s.toServer ++ s.gateway.tcpSocket.sendBuffer
    toGateway := s.toGateway.drop (s.gatewayChunk n).length }, ?_, ?_⟩
  · simp only [step, hrun, ok_bind]
    rfl
  · refine h.quiet rfl rfl (hclient.trans h.clientId) ?_ hjoined'
    rw [hbuffer, List.append_nil]
    exact h.serving

theorem Inv.server (hc : c < ME_MAX_NUM_CLIENTS) {n : ℕ} {rxTime : Nanos} {result : SendResult}
    (h : Inv c p es s) (hok : s.Regular p (.server n rxTime result)) :
    ∃ s', s.step sort p (.server n rxTime result) = .ok s' ∧
      Inv c p (es ++ [.server n rxTime result]) s' := by
  obtain ⟨rfl, hroom⟩ := hok
  have happend : s.serverChunk p n ++ s.toServer.drop (s.serverChunk p n).length = s.toServer :=
    (s.server.sockets p).received_append n s.toServer
  have hserving := h.serving
  rw [← happend, List.append_assoc] at hserving
  obtain ⟨v, hrun, hserving', hbuffer⟩ :=
    hserving.sendAndRecv rxTime hc h.requests_fit hroom
  refine ⟨{ s with
    server := v
    toServer := s.toServer.drop (s.serverChunk p n).length
    toGateway := s.toGateway ++ (s.server.sockets p).sendBuffer }, ?_, ?_⟩
  · simp only [step, hrun, ok_bind]
    rfl
  · refine h.quiet rfl rfl h.clientId hserving' ?_
    rw [hbuffer, List.append_nil]
    exact h.joined

theorem Inv.response (hc : c < ME_MAX_NUM_CLIENTS) {r : MEClientResponse} (h : Inv c p es s)
    (hok : s.Regular p (.response r)) :
    ∃ s', s.step sort p (.response r) = .ok s' ∧ Inv c p (es ++ [.response r]) s' := by
  obtain ⟨hfits, ⟨hid, hbound⟩, hroom⟩ := hok
  obtain ⟨q, hq⟩ := Option.isSome_iff_exists.mp hbound
  have hroom' := hroom q hq
  by_cases hr : r.clientId = c
  · have hqp : q = p := by
      rw [hr] at hq
      rcases h.serving.owns.client with hnone | hsome
      · cases hnone.symm.trans hq
      · exact Option.some.inj (hq.symm.trans hsome)
    subst hqp
    obtain ⟨v, hrun, hserving, hbuffer⟩ := h.serving.sendResponse hc hr (hr ▸ hq) hroom'
    have hrequests : requests (es ++ [.response r]) = requests es :=
      (requests_concat es _).trans (List.append_nil _)
    have hone : responses c [.response r] = [r] := by
      simp [responses, hr]
    have hresponses : responses c (es ++ [.response r]) = responses c es ++ [r] := by
      rw [responses_concat, hone]
    refine ⟨{ s with server := v }, by rw [step, hrun]; rfl, h.clientId, ?_, ?_, ?_, ?_⟩
    · rw [hrequests]
      exact h.requests_fit
    · intro r' hr'
      rw [hresponses, List.mem_append, List.mem_singleton] at hr'
      rcases hr' with hr' | rfl
      · exact h.responses_fit r' hr'
      · exact ⟨hfits, hr⟩
    · rw [hrequests, hresponses, List.length_append]
      exact hserving
    · rw [hrequests, hresponses, hbuffer, ← List.append_assoc]
      exact h.joined.response r
  · obtain ⟨v, hrun, hserving, hsocket⟩ := h.serving.sendResponse_peer hid hr hq hroom'
    have hnone : responses c [.response r] = [] := by
      simp [responses, hr]
    refine ⟨{ s with server := v }, by rw [step, hrun]; rfl,
      h.quiet rfl hnone h.clientId hserving ?_⟩
    rw [hsocket]
    exact h.joined

theorem Inv.peer {q : Ptr} {chunk : List UInt8} {rxTime : Nanos} {result : SendResult}
    (h : Inv c p es s) (hok : s.Regular p (.peer q chunk rxTime result)) :
    ∃ s', s.step sort p (.peer q chunk rxTime result) = .ok s' ∧
      Inv c p (es ++ [.peer q chunk rxTime result]) s' := by
  obtain ⟨hq, hms, hroom, hresult⟩ := hok
  have hsent (n : ℕ) (hn : result = .sent n) : n = (s.server.sockets q).sendBuffer.length := by
    subst hn
    simpa using hresult
  obtain ⟨v, taken, hrun, hserving, hsocket⟩ :=
    h.serving.sendAndRecv_peer rxTime hq (h.clientId ▸ hms) hroom hsent
  refine ⟨{ s with server := v }, by simp only [step, hrun, ok_bind]; rfl,
    h.quiet rfl rfl h.clientId hserving ?_⟩
  rw [hsocket]
  exact h.joined

theorem Inv.step (hc : c < ME_MAX_NUM_CLIENTS) {e : ConnectionEvent} (h : Inv c p es s)
    (hok : s.Regular p e) : ∃ s', s.step sort p e = .ok s' ∧ Inv c p (es ++ [e]) s' := by
  cases e with
  | request r => exact h.request hok
  | gateway n result => exact h.gateway hok
  | server n rxTime result => exact h.server hc hok
  | response r => exact h.response hc hok
  | publish => exact ⟨_, rfl, h.quiet rfl rfl h.clientId (h.serving.recvFinishedCallback sort) h.joined⟩
  | peer q chunk rxTime result => exact h.peer hok

/-- Whatever the chunks in which the bytes arrive, the server passes on the requests that the
gateway has taken from its queue, and the gateway writes the responses that the server has sent to
its client; each side holds the part of the next message that has arrived. -/
theorem round_trip (sort : List RecvTimeClientRequest → List RecvTimeClientRequest)
    (hc : c < ME_MAX_NUM_CLIENTS) (p : Ptr) (h : Guarded (step sort p) (Regular p) (start c) es) :
    ∃ s, es.foldlM (step sort p) (start c) = .ok s ∧
      (Carries Layout.omClientRequest OMClientRequest.mk (requests es) (s.server.passed c)
          (s.server.sockets p).recvBuffer (s.toServer ++ s.gateway.tcpSocket.sendBuffer) ∧
        (s.toServer ++ s.gateway.tcpSocket.sendBuffer = [] → s.server.passed c = requests es)) ∧
      Carries Layout.omClientResponse OMClientResponse.mk (responses c es)
          s.gateway.incomingResponses s.gateway.tcpSocket.recvBuffer
          (s.toGateway ++ (s.server.sockets p).sendBuffer) ∧
        (s.toGateway ++ (s.server.sockets p).sendBuffer = [] →
          s.gateway.incomingResponses = responses c es) := by
  obtain ⟨s, hrun, hinv⟩ := h.returns_history (inv_start c p) fun _ _ _ hinv hok ↦ hinv.step hc hok
  have hrequests := hinv.serving.requests
  have hresponses := hinv.joined.responses
  refine ⟨s, hrun, ⟨hrequests, fun hnil ↦ ?_⟩, hresponses, fun hnil ↦ ?_⟩
  · rw [hnil] at hrequests
    exact hrequests.complete.1
  · rw [hnil] at hresponses
    exact hresponses.complete.1

def splitRun : List ConnectionEvent :=
  [.request ⟨.NEW, 3, 1, 7, .SELL, -100, 20⟩, .gateway 0 (.sent 38), .server 5 0 (.sent 0),
    .server 100 1 (.sent 0), .publish, .response ⟨.ACCEPTED, 3, 1, 7, 1, .SELL, -100, 0, 20⟩,
    .server 0 2 (.sent 50), .gateway 45 (.sent 0), .gateway 5 (.sent 0)]

theorem round_trip_split : ∃ s, splitRun.foldlM (step id 8) (start 3) = .ok s ∧
    s.server.passed 3 = [⟨.NEW, 3, 1, 7, .SELL, -100, 20⟩] ∧
    s.gateway.incomingResponses = [⟨.ACCEPTED, 3, 1, 7, 1, .SELL, -100, 0, 20⟩] := by
  have h : Guarded (step id 8) (Regular 8) (start 3) splitRun := by decide +kernel
  obtain ⟨s, hrun, ⟨-, hrequests⟩, -, hresponses⟩ := round_trip id (by decide) 8 h
  obtain ⟨s', hrun', hserver, hgateway⟩ : ∃ s, splitRun.foldlM (step id 8) (start 3) = .ok s ∧
      s.toServer ++ s.gateway.tcpSocket.sendBuffer = [] ∧
      s.toGateway ++ (s.server.sockets 8).sendBuffer = [] :=
    Yields.exists_ok (by decide +kernel)
  obtain rfl := Except.ok.inj (hrun.symm.trans hrun')
  exact ⟨s, hrun, hrequests hserver, hresponses hgateway⟩

end Connection

end LowLatency.Trading
