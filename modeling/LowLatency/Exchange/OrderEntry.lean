import LowLatency.Exchange.FIFOSequencer
import LowLatency.Exchange.OrderServer
import LowLatency.Exchange.Wire
import LowLatency.Framing

namespace LowLatency.Exchange

open Common Function

/-- `OrderServer` with its sockets, what it expects from its clients, and the requests that it has
passed to the sequencer, each with the socket it came from and its number. -/
structure OrderEntry extends OrderServer where
  cidNextExpSeqNum : ClientId → ℕ
  sockets : Ptr → TCPSocket
  fifoSequencer : FIFOSequencer
  forwarded : List (Ptr × OMClientRequest)

namespace OrderEntry

def new : OrderEntry where
  cidNextOutgoingSeqNum _ := 1
  cidTcpSocket _ := none
  written := []
  cidNextExpSeqNum _ := 1
  sockets _ := .new
  fifoSequencer := ⟨[], []⟩
  forwarded := []

def setSocket (v : OrderEntry) (p : Ptr) (socket : TCPSocket) : OrderEntry :=
  { v with sockets := update v.sockets p socket }

/-- The first message with the id of a client binds it to the socket. -/
def bind (v : OrderEntry) (clientId : ClientId) (p : Ptr) : OrderEntry :=
  if v.cidTcpSocket clientId = none then
    { v with cidTcpSocket := update v.cidTcpSocket clientId (some p) }
  else v

/-- The body of the loop of `recvCallback` over the complete messages. -/
def onRequest (p : Ptr) (rxTime : Nanos) (v : OrderEntry) (request : OMClientRequest) :
    Except Fault OrderEntry :=
  let clientId := request.meClientRequest.clientId
  if clientId < ME_MAX_NUM_CLIENTS then
    let v := v.bind clientId p
    if v.cidTcpSocket clientId ≠ some p then .ok v
    else if request.seqNum ≠ v.cidNextExpSeqNum clientId then .ok v
    else do
      let fifoSequencer ← v.fifoSequencer.addClientRequest rxTime request.meClientRequest
      return { v with
        cidNextExpSeqNum :=
          update v.cidNextExpSeqNum clientId ((v.cidNextExpSeqNum clientId + 1) % 2 ^ 64)
        fifoSequencer := fifoSequencer
        forwarded := v.forwarded ++ [(p, request)] }
  else .error .outOfBounds

def recvCallback (p : Ptr) (rxTime : Nanos) (v : OrderEntry) : Except Fault OrderEntry :=
  let size := Layout.omClientRequest.size
  let buffer := (v.sockets p).recvBuffer
  if buffer.length ≥ size then do
    let v ← (Layout.omClientRequest.messages buffer).foldlM (onRequest p rxTime) v
    return v.setSocket p { v.sockets p with recvBuffer := leftover size buffer }
  else return v

def recvFinishedCallback (sort : List RecvTimeClientRequest → List RecvTimeClientRequest)
    (v : OrderEntry) : OrderEntry :=
  { v with fifoSequencer := v.fifoSequencer.sequenceAndPublish sort }

/-- The callback is called if there is something to receive. -/
def receive (p : Ptr) (chunk : List UInt8) (rxTime : Nanos) (v : OrderEntry) : Except Fault OrderEntry :=
  if chunk = [] then .ok v
  else (v.setSocket p ((v.sockets p).receive chunk)).recvCallback p rxTime

/-- `TCPSocket::sendAndRecv` of the socket at `p`, with the bytes that the kernel has taken. -/
def sendAndRecv (p : Ptr) (chunk : List UInt8) (rxTime : Nanos) (result : SendResult)
    (v : OrderEntry) : Except Fault (OrderEntry × List UInt8) := do
  let v ← v.receive p chunk rxTime
  let (socket, taken) ← (v.sockets p).flush result
  return (v.setSocket p socket, taken)

/-- The body of the loop of `run` over the outgoing responses, with the bytes that it sends. -/
def sendResponse (v : OrderEntry) (r : MEClientResponse) : Except Fault OrderEntry := do
  let server ← v.toOrderServer.processResponse r
  let p ← deref (v.cidTcpSocket r.clientId)
  let socket ← (v.sockets p).send (Layout.sizeT.encode (v.cidNextOutgoingSeqNum r.clientId))
  let socket ← socket.send (Layout.meClientResponse.encode r)
  return { v with toOrderServer := server, sockets := update v.sockets p socket }

def passed (v : OrderEntry) (clientId : ClientId) : List MEClientRequest :=
  (v.forwarded.map fun f ↦ f.2.meClientRequest).filter (·.clientId = clientId)

def forward (v : OrderEntry) (p : Ptr) (rxTime : Nanos) (request : OMClientRequest) : OrderEntry :=
  let clientId := request.meClientRequest.clientId
  { v with
    cidNextExpSeqNum :=
      update v.cidNextExpSeqNum clientId ((v.cidNextExpSeqNum clientId + 1) % 2 ^ 64)
    fifoSequencer := { v.fifoSequencer with
      pendingClientRequests :=
        v.fifoSequencer.pendingClientRequests ++ [⟨rxTime, request.meClientRequest⟩] }
    forwarded := v.forwarded ++ [(p, request)] }

def answer (v : OrderEntry) (p : Ptr) (r : MEClientResponse) : OrderEntry :=
  { v with
    written := v.written ++ [(p, v.cidNextOutgoingSeqNum r.clientId, r)]
    cidNextOutgoingSeqNum := update v.cidNextOutgoingSeqNum r.clientId
      ((v.cidNextOutgoingSeqNum r.clientId + 1) % 2 ^ 64) }

def HasRoom (v : OrderEntry) (n : ℕ) : Prop :=
  v.fifoSequencer.pendingClientRequests.length + n ≤ ME_MAX_PENDING_REQUESTS

instance (v : OrderEntry) (n : ℕ) : Decidable (v.HasRoom n) := inferInstanceAs (Decidable (_ ≤ _))

section Step

variable {v v' : OrderEntry} {p q : Ptr} {c c' : ClientId} {rxTime : Nanos} {m : OMClientRequest}

theorem bind_frame (v : OrderEntry) (c : ClientId) (p : Ptr) :
    (v.bind c p).cidNextExpSeqNum = v.cidNextExpSeqNum ∧
      (v.bind c p).cidNextOutgoingSeqNum = v.cidNextOutgoingSeqNum ∧
      (v.bind c p).sockets = v.sockets ∧ (v.bind c p).fifoSequencer = v.fifoSequencer ∧
      (v.bind c p).forwarded = v.forwarded := by
  unfold bind
  split_ifs <;> exact ⟨rfl, rfl, rfl, rfl, rfl⟩

theorem onRequest_taken (hid : m.meClientRequest.clientId < ME_MAX_NUM_CLIENTS) (hroom : v.HasRoom 1)
    (hsocket : (v.bind m.meClientRequest.clientId p).cidTcpSocket m.meClientRequest.clientId = some p)
    (hseq : m.seqNum = v.cidNextExpSeqNum m.meClientRequest.clientId) :
    onRequest p rxTime v m = .ok ((v.bind m.meClientRequest.clientId p).forward p rxTime m) := by
  obtain ⟨hexp, -, -, hfifo, -⟩ := bind_frame v m.meClientRequest.clientId p
  simp only [onRequest, if_pos hid]
  rw [if_neg (not_not.mpr hsocket), if_neg (not_not.mpr (by rw [hexp]; exact hseq)),
    FIFOSequencer.addClientRequest_of_room (by rw [hfifo]; exact hroom)]
  rfl

theorem onRequest_dropped (hid : m.meClientRequest.clientId < ME_MAX_NUM_CLIENTS)
    (h : ¬((v.bind m.meClientRequest.clientId p).cidTcpSocket m.meClientRequest.clientId = some p ∧
      m.seqNum = v.cidNextExpSeqNum m.meClientRequest.clientId)) :
    onRequest p rxTime v m = .ok (v.bind m.meClientRequest.clientId p) := by
  obtain ⟨hexp, -⟩ := bind_frame v m.meClientRequest.clientId p
  simp only [onRequest, if_pos hid]
  split_ifs with hsocket hseq
  · rfl
  · rfl
  · rw [hexp] at hseq
    exact absurd ⟨not_not.mp hsocket, not_not.mp hseq⟩ h

theorem onRequest_cases (h : onRequest p rxTime v m = .ok v') :
    v' = v.bind m.meClientRequest.clientId p ∨
      (v.bind m.meClientRequest.clientId p).cidTcpSocket m.meClientRequest.clientId = some p ∧
        m.seqNum = v.cidNextExpSeqNum m.meClientRequest.clientId ∧
        v' = (v.bind m.meClientRequest.clientId p).forward p rxTime m := by
  obtain ⟨hexp, -⟩ := bind_frame v m.meClientRequest.clientId p
  simp only [onRequest] at h
  split_ifs at h with hid hsocket hseq
  · exact .inl (Except.ok.inj h).symm
  · exact .inl (Except.ok.inj h).symm
  · obtain ⟨f, hadd, hv'⟩ := bind_eq_ok h
    refine .inr ⟨not_not.mp hsocket, ?_, ?_⟩
    · rw [← hexp]
      exact not_not.mp hseq
    · rw [← Except.ok.inj hv', FIFOSequencer.eq_of_addClientRequest hadd]
      rfl

theorem HasRoom.mono {n k : ℕ} (h : v.HasRoom n) (hle : k ≤ n) : v.HasRoom k :=
  (Nat.add_le_add_left hle _).trans h

theorem HasRoom.bind {n : ℕ} (h : v.HasRoom n) : (v.bind c p).HasRoom n := by
  obtain ⟨-, -, -, hfifo, -⟩ := bind_frame v c p
  rwa [HasRoom, hfifo]

theorem HasRoom.forward {n : ℕ} (h : v.HasRoom (n + 1)) : (v.forward p rxTime m).HasRoom n := by
  have hlen : (v.forward p rxTime m).fifoSequencer.pendingClientRequests.length =
      v.fifoSequencer.pendingClientRequests.length + 1 := List.length_append
  rw [HasRoom, hlen, Nat.add_assoc, Nat.add_comm 1]
  exact h

theorem bind_self (h : v.cidTcpSocket c = none ∨ v.cidTcpSocket c = some p) :
    (v.bind c p).cidTcpSocket c = some p := by
  unfold bind
  split_ifs with hnone
  · exact update_self ..
  · exact h.resolve_left hnone

theorem bind_of_eq_some (h : v.cidTcpSocket c' = some q) : (v.bind c p).cidTcpSocket c' = some q := by
  unfold bind
  split_ifs with hnone
  · have hne : c' ≠ c := fun hc ↦ by
      rw [hc, hnone] at h
      cases h
    exact (update_of_ne hne ..).trans h
  · exact h

theorem bind_of_ne (h : c' ≠ c) : (v.bind c p).cidTcpSocket c' = v.cidTcpSocket c' := by
  unfold bind
  split_ifs
  · exact update_of_ne h ..
  · rfl

theorem bind_eq_some (hq : q ≠ p) (h : (v.bind c q).cidTcpSocket c' = some p) :
    v.cidTcpSocket c' = some p := by
  by_cases hsame : c' = c
  · subst hsame
    unfold bind at h
    split_ifs at h
    · have hself : update v.cidTcpSocket c' (some q) c' = some p := h
      rw [update_self] at hself
      exact absurd (Option.some.inj hself) hq
    · exact h
  · rwa [bind_of_ne hsame] at h

theorem passed_forward :
    (v.forward p rxTime m).passed c = v.passed c ++
      if m.meClientRequest.clientId = c then [m.meClientRequest] else [] := by
  simp [passed, forward, List.filter_cons]

theorem recvCallback_eq (v : OrderEntry) (p : Ptr) (rxTime : Nanos) :
    let buffer := (v.sockets p).recvBuffer
    v.recvCallback p rxTime =
      (Layout.omClientRequest.messages buffer).foldlM (onRequest p rxTime) v >>= fun v' ↦
        .ok (v'.setSocket p { v'.sockets p with
          recvBuffer := leftover Layout.omClientRequest.size buffer }) := by
  intro buffer
  by_cases h : buffer.length ≥ Layout.omClientRequest.size
  · exact if_pos h
  · have hlt := Nat.not_le.mp h
    rw [Packed.messages, frames_of_lt hlt, leftover_of_lt hlt]
    have hsame : v.setSocket p (v.sockets p) = v := by
      rw [setSocket, update_eq_self]
    exact (if_neg h).trans (congrArg _ hsame.symm)

@[simp] theorem setSocket_self (v : OrderEntry) (p : Ptr) (s : TCPSocket) :
    (v.setSocket p s).sockets p = s := update_self ..

theorem setSocket_of_ne (h : p ≠ q) (s : TCPSocket) : (v.setSocket q s).sockets p = v.sockets p :=
  update_of_ne h ..

theorem receive_bind {chunk : List UInt8} (hchunk : chunk ≠ []) : v.receive p chunk rxTime =
    (Layout.omClientRequest.messages ((v.sockets p).recvBuffer ++ chunk)).foldlM (onRequest p rxTime)
      (v.setSocket p ((v.sockets p).receive chunk)) >>= fun v' ↦ .ok (v'.setSocket p { v'.sockets p with
        recvBuffer := leftover Layout.omClientRequest.size ((v.sockets p).recvBuffer ++ chunk) }) := by
  have hbuffer : ((v.setSocket p ((v.sockets p).receive chunk)).sockets p).recvBuffer =
      (v.sockets p).recvBuffer ++ chunk := by
    rw [setSocket_self, TCPSocket.receive]
  rw [receive, if_neg hchunk, recvCallback_eq, hbuffer]

theorem receive_eq {chunk : List UInt8} (hchunk : chunk ≠ [])
    (hrun : (Layout.omClientRequest.messages ((v.sockets p).recvBuffer ++ chunk)).foldlM
      (onRequest p rxTime) (v.setSocket p ((v.sockets p).receive chunk)) = .ok v') :
    v.receive p chunk rxTime = .ok (v'.setSocket p { v'.sockets p with
      recvBuffer := leftover Layout.omClientRequest.size ((v.sockets p).recvBuffer ++ chunk) }) := by
  rw [receive_bind hchunk, hrun, ok_bind]

theorem answer_outgoing (v : OrderEntry) (p : Ptr) (r : MEClientResponse) :
    (v.answer p r).cidNextOutgoingSeqNum = update v.cidNextOutgoingSeqNum r.clientId
      ((v.cidNextOutgoingSeqNum r.clientId + 1) % 2 ^ 64) := rfl

theorem forward_exp : (v.forward p rxTime m).cidNextExpSeqNum =
    update v.cidNextExpSeqNum m.meClientRequest.clientId
      ((v.cidNextExpSeqNum m.meClientRequest.clientId + 1) % 2 ^ 64) := rfl

theorem sendResponse_of_bound {r : MEClientResponse} (hid : r.clientId < ME_MAX_NUM_CLIENTS)
    (hp : v.cidTcpSocket r.clientId = some p)
    (hroom : (v.sockets p).sendBuffer.length + Layout.omClientResponse.size ≤ TCPBufferSize) :
    v.sendResponse r = .ok ((v.answer p r).setSocket p { v.sockets p with
      sendBuffer := (v.sockets p).sendBuffer ++
        Layout.omClientResponse.encode ⟨v.cidNextOutgoingSeqNum r.clientId, r⟩ }) := by
  have hsize : Layout.omClientResponse.size = Layout.sizeT.size + Layout.meClientResponse.size := rfl
  simp only [sendResponse, OrderServer.processResponse, if_pos hid, hp, ok_bind, deref_some]
  refine TCPSocket.send_bind_send ?_ _
  rwa [Layout.sizeT.length_encode, Layout.meClientResponse.length_encode, ← hsize]

end Step

end OrderEntry

end LowLatency.Exchange
