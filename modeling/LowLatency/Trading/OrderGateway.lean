import LowLatency.Common.TCPSocket
import LowLatency.Exchange.Wire
import LowLatency.Framing

namespace LowLatency.Trading

open Common Exchange

/-- `incomingResponses` is all that has been written to the queue. -/
structure OrderGateway where
  clientId : ClientId
  nextOutgoingSeqNum : ℕ
  nextExpSeqNum : ℕ
  tcpSocket : TCPSocket
  incomingResponses : List MEClientResponse

namespace OrderGateway

def new (clientId : ClientId) : OrderGateway := ⟨clientId, 1, 1, .new, []⟩

/-- The body of the loop of `run` over the outgoing requests. -/
def sendRequest (g : OrderGateway) (r : MEClientRequest) : Except Fault OrderGateway := do
  let socket ← g.tcpSocket.send (Layout.sizeT.encode g.nextOutgoingSeqNum)
  let socket ← socket.send (Layout.meClientRequest.encode r)
  return { g with
    tcpSocket := socket
    nextOutgoingSeqNum := (g.nextOutgoingSeqNum + 1) % 2 ^ 64 }

/-- The body of the loop of `recvCallback` over the complete messages. -/
def onResponse (g : OrderGateway) (response : OMClientResponse) : OrderGateway :=
  if response.meClientResponse.clientId ≠ g.clientId then g
  else if response.seqNum ≠ g.nextExpSeqNum then g
  else
    { g with
      nextExpSeqNum := (g.nextExpSeqNum + 1) % 2 ^ 64
      incomingResponses := g.incomingResponses ++ [response.meClientResponse] }

def recvCallback (g : OrderGateway) : OrderGateway :=
  let size := Layout.omClientResponse.size
  let buffer := g.tcpSocket.recvBuffer
  if buffer.length ≥ size then
    let g := (Layout.omClientResponse.messages buffer).foldl onResponse g
    { g with tcpSocket := { g.tcpSocket with recvBuffer := leftover size buffer } }
  else g

/-- The callback is called if there is something to receive. -/
def receive (g : OrderGateway) (chunk : List UInt8) : OrderGateway :=
  if chunk = [] then g else { g with tcpSocket := g.tcpSocket.receive chunk }.recvCallback

/-- `TCPSocket::sendAndRecv` of the gateway's socket, with the bytes that the kernel has taken. -/
def sendAndRecv (g : OrderGateway) (chunk : List UInt8) (result : SendResult) :
    Except Fault (OrderGateway × List UInt8) := do
  let g := g.receive chunk
  let (socket, taken) ← g.tcpSocket.flush result
  return ({ g with tcpSocket := socket }, taken)

variable {g : OrderGateway}

theorem sendRequest_of_room {r : MEClientRequest}
    (h : g.tcpSocket.sendBuffer.length + Layout.omClientRequest.size ≤ TCPBufferSize) :
    g.sendRequest r = .ok { g with
      tcpSocket := { g.tcpSocket with
        sendBuffer := g.tcpSocket.sendBuffer ++
          Layout.omClientRequest.encode ⟨g.nextOutgoingSeqNum, r⟩ }
      nextOutgoingSeqNum := (g.nextOutgoingSeqNum + 1) % 2 ^ 64 } := by
  have hsize : Layout.omClientRequest.size = Layout.sizeT.size + Layout.meClientRequest.size := rfl
  refine TCPSocket.send_bind_send ?_ _
  rwa [Layout.sizeT.length_encode, Layout.meClientRequest.length_encode, ← hsize]

theorem foldl_onResponse {rs : List MEClientResponse} {k : ℕ} (hk : g.nextExpSeqNum = k % 2 ^ 64)
    (hrs : ∀ r ∈ rs, r.clientId = g.clientId) :
    (numberFrom OMClientResponse.mk k rs).foldl onResponse g = { g with
      nextExpSeqNum := (k + rs.length) % 2 ^ 64
      incomingResponses := g.incomingResponses ++ rs } := by
  induction rs generalizing g k with
  | nil => rw [List.append_nil, List.length_nil, Nat.add_zero, ← hk, numberFrom, List.foldl_nil]
  | cons r rs ih =>
    have hr := hrs r List.mem_cons_self
    have hone : g.onResponse ⟨k % 2 ^ 64, r⟩ = { g with
        nextExpSeqNum := (g.nextExpSeqNum + 1) % 2 ^ 64
        incomingResponses := g.incomingResponses ++ [r] } := by
      rw [onResponse, if_neg (not_not.mpr hr), if_neg (not_not.mpr hk.symm)]
    have hnext : (g.nextExpSeqNum + 1) % 2 ^ 64 = (k + 1) % 2 ^ 64 := by
      rw [hk, Nat.mod_add_mod]
    have htail := ih (g := g.onResponse ⟨k % 2 ^ 64, r⟩) (k := k + 1) (by rw [hone]; exact hnext)
      fun r' hr' ↦ by rw [hone]; exact hrs r' (List.mem_cons_of_mem r hr')
    rw [numberFrom, List.foldl_cons, htail, hone, List.length_cons, List.append_assoc,
      Nat.add_right_comm, Nat.add_assoc]
    rfl

theorem recvCallback_eq (g : OrderGateway) :
    let g' := (Layout.omClientResponse.messages g.tcpSocket.recvBuffer).foldl onResponse g
    g.recvCallback = { g' with tcpSocket := { g'.tcpSocket with
      recvBuffer := leftover Layout.omClientResponse.size g.tcpSocket.recvBuffer } } := by
  intro g'
  by_cases h : g.tcpSocket.recvBuffer.length ≥ Layout.omClientResponse.size
  · exact if_pos h
  · have hlt := Nat.not_le.mp h
    have hg : g' = g := by
      change (Layout.omClientResponse.messages _).foldl onResponse g = g
      rw [Packed.messages, frames_of_lt hlt]
      rfl
    rw [hg, leftover_of_lt hlt]
    exact if_neg h

theorem receive_numbered {chunk : List UInt8} {rs : List MEClientResponse} {k : ℕ} (hchunk : chunk ≠ [])
    (hmessages : Layout.omClientResponse.messages (g.tcpSocket.recvBuffer ++ chunk) =
      numberFrom OMClientResponse.mk k rs)
    (hk : g.nextExpSeqNum = k % 2 ^ 64) (hrs : ∀ r ∈ rs, r.clientId = g.clientId) :
    g.receive chunk = { g with
      nextExpSeqNum := (k + rs.length) % 2 ^ 64
      tcpSocket := { g.tcpSocket with
        recvBuffer := leftover Layout.omClientResponse.size (g.tcpSocket.recvBuffer ++ chunk) }
      incomingResponses := g.incomingResponses ++ rs } := by
  have hfold := foldl_onResponse (g := { g with tcpSocket := g.tcpSocket.receive chunk }) hk hrs
  rw [← hmessages] at hfold
  rw [receive, if_neg hchunk, recvCallback_eq]
  exact congrArg (fun g' : OrderGateway ↦ { g' with
    tcpSocket := { g'.tcpSocket with
      recvBuffer := leftover Layout.omClientResponse.size (g.tcpSocket.recvBuffer ++ chunk) } }) hfold

section Frame

variable {g' : OrderGateway}

theorem onResponse_frame (g : OrderGateway) (m : OMClientResponse) :
    g.incomingResponses <+: (g.onResponse m).incomingResponses ∧ (g.onResponse m).tcpSocket = g.tcpSocket ∧
      (g.onResponse m).nextOutgoingSeqNum = g.nextOutgoingSeqNum := by
  unfold onResponse
  split_ifs
  · exact ⟨List.prefix_rfl, rfl, rfl⟩
  · exact ⟨List.prefix_rfl, rfl, rfl⟩
  · exact ⟨List.prefix_append _ _, rfl, rfl⟩

theorem foldl_onResponse_frame (g : OrderGateway) (ms : List OMClientResponse) :
    g.incomingResponses <+: (ms.foldl onResponse g).incomingResponses ∧
      (ms.foldl onResponse g).tcpSocket = g.tcpSocket ∧
      (ms.foldl onResponse g).nextOutgoingSeqNum = g.nextOutgoingSeqNum := by
  induction ms generalizing g with
  | nil => exact ⟨List.prefix_rfl, rfl, rfl⟩
  | cons m ms ih =>
    obtain ⟨hincoming, hsocket, hnext⟩ := ih (g.onResponse m)
    obtain ⟨hincoming', hsocket', hnext'⟩ := g.onResponse_frame m
    exact ⟨hincoming'.trans hincoming, hsocket.trans hsocket', hnext.trans hnext'⟩

theorem receive_frame (g : OrderGateway) (chunk : List UInt8) :
    g.incomingResponses <+: (g.receive chunk).incomingResponses ∧
      (g.receive chunk).tcpSocket.sendBuffer = g.tcpSocket.sendBuffer ∧
      (g.receive chunk).nextOutgoingSeqNum = g.nextOutgoingSeqNum := by
  unfold receive
  split_ifs
  · exact ⟨List.prefix_rfl, rfl, rfl⟩
  · rw [recvCallback_eq]
    obtain ⟨hincoming, hsocket, hnext⟩ := foldl_onResponse_frame
      { g with tcpSocket := g.tcpSocket.receive chunk }
      (Layout.omClientResponse.messages (g.tcpSocket.receive chunk).recvBuffer)
    refine ⟨hincoming, ?_, hnext⟩
    dsimp only
    rw [hsocket]
    rfl

theorem sendAndRecv_frame {chunk taken : List UInt8} {result : SendResult}
    (h : g.sendAndRecv chunk result = .ok (g', taken)) : g.incomingResponses <+: g'.incomingResponses ∧
      g'.nextOutgoingSeqNum = g.nextOutgoingSeqNum ∧
      (g.tcpSocket.sendBuffer = [] → g'.tcpSocket.sendBuffer = [] ∧ taken = []) := by
  obtain ⟨hincoming, hbuffer, hnext⟩ := g.receive_frame chunk
  obtain ⟨⟨socket, sent⟩, hflush, h⟩ := bind_eq_ok h
  obtain ⟨rfl, rfl⟩ := Prod.mk.inj (Except.ok.inj h)
  refine ⟨hincoming, hnext, fun hempty ↦ ?_⟩
  rw [← hbuffer] at hempty
  unfold TCPSocket.flush at hflush
  rw [if_pos hempty] at hflush
  obtain ⟨rfl, rfl⟩ := Prod.mk.inj (Except.ok.inj hflush)
  exact ⟨hempty, rfl⟩

theorem sendRequest_incoming {r : MEClientRequest} (h : g.sendRequest r = .ok g') :
    g'.incomingResponses = g.incomingResponses := by
  obtain ⟨socket, -, h⟩ := bind_eq_ok h
  obtain ⟨socket', -, h⟩ := bind_eq_ok h
  obtain rfl := Except.ok.inj h
  rfl

end Frame

/-- The gateway's part of a connection: it has sent `sent` requests, and of the responses `answered`
those that it has not written to the queue are in the socket's buffer or in `underway`. -/
structure Joined (sent : ℕ) (answered : List MEClientResponse) (underway : List UInt8)
    (g : OrderGateway) : Prop where
  outgoing : g.nextOutgoingSeqNum = (sent + 1) % 2 ^ 64
  exp : g.nextExpSeqNum = (g.incomingResponses.length + 1) % 2 ^ 64
  responses : Carries Layout.omClientResponse OMClientResponse.mk answered g.incomingResponses
    g.tcpSocket.recvBuffer underway

namespace Joined

variable {sent : ℕ} {answered : List MEClientResponse} {chunk underway : List UInt8}

theorem new (c : ClientId) : (OrderGateway.new c).Joined 0 [] [] :=
  ⟨rfl, rfl, .start (by decide)⟩

theorem response (h : g.Joined sent answered underway) (r : MEClientResponse) :
    g.Joined sent (answered ++ [r])
      (underway ++ Layout.omClientResponse.encode ⟨(answered.length + 1) % 2 ^ 64, r⟩) :=
  ⟨h.outgoing, h.exp, h.responses.send r⟩

theorem sendRequest {r : MEClientRequest}
    (hroom : g.tcpSocket.sendBuffer.length + Layout.omClientRequest.size ≤ TCPBufferSize)
    (h : g.Joined sent answered underway) :
    ∃ g', g.sendRequest r = .ok g' ∧ g'.Joined (sent + 1) answered underway ∧
      g'.clientId = g.clientId ∧ g'.tcpSocket.sendBuffer = g.tcpSocket.sendBuffer ++
        Layout.omClientRequest.encode ⟨(sent + 1) % 2 ^ 64, r⟩ := by
  refine ⟨_, sendRequest_of_room hroom, ⟨?_, h.exp, h.responses⟩, rfl, ?_⟩
  · rw [h.outgoing, Nat.mod_add_mod]
  · rw [h.outgoing]

theorem receive (hanswered : ∀ r ∈ answered, r.Fits ∧ r.clientId = g.clientId)
    (h : g.Joined sent answered (chunk ++ underway)) :
    (g.receive chunk).Joined sent answered underway ∧ (g.receive chunk).clientId = g.clientId ∧
      (g.receive chunk).tcpSocket.sendBuffer = g.tcpSocket.sendBuffer := by
  by_cases hchunk : chunk = []
  · subst hchunk
    rw [OrderGateway.receive, if_pos rfl]
    exact ⟨h, rfl, rfl⟩
  · obtain ⟨rs, hrs, hsub, hcarries⟩ :=
      h.responses.receive fun r hr _ hn ↦ Layout.omClientResponse_fits (hanswered r hr).1 hn
    rw [receive_numbered hchunk hrs h.exp fun r hr ↦ (hanswered r (hsub hr)).2]
    refine ⟨⟨h.outgoing, ?_, hcarries⟩, rfl, rfl⟩
    rw [List.length_append, Nat.add_right_comm]

theorem sendAndRecv (hanswered : ∀ r ∈ answered, r.Fits ∧ r.clientId = g.clientId)
    (h : g.Joined sent answered (chunk ++ underway)) :
    ∃ g', g.sendAndRecv chunk (.sent g.tcpSocket.sendBuffer.length) =
        .ok (g', g.tcpSocket.sendBuffer) ∧
      g'.Joined sent answered underway ∧ g'.clientId = g.clientId ∧ g'.tcpSocket.sendBuffer = [] := by
  obtain ⟨h', hid, hsend⟩ := h.receive hanswered
  refine ⟨{ g.receive chunk with
    tcpSocket := { (g.receive chunk).tcpSocket with sendBuffer := [] } }, ?_,
    ⟨h'.outgoing, h'.exp, h'.responses⟩, hid, rfl⟩
  rw [OrderGateway.sendAndRecv, ← hsend, TCPSocket.flush_sent]
  rfl

end Joined

end OrderGateway

end LowLatency.Trading
