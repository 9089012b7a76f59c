import LowLatency.Exchange.Sequencing

namespace LowLatency.Exchange.OrderEntry

open Common Function

structure Read where
  socket : Ptr
  chunk : List UInt8
  rxTime : Nanos

/-- A loop of `TCPServer::sendAndRecv`; `results` is what the kernel answers to the calls of `send`. -/
def serveSockets (results : Ptr → SendResult) (v : OrderEntry) (reads : List Read) :
    Except Fault OrderEntry :=
  reads.foldlM (fun v r ↦ do
    let (v, _) ← v.sendAndRecv r.socket r.chunk r.rxTime (results r.socket)
    return v) v

/-- `TCPServer::sendAndRecv` over `m_receive_sockets` and `m_send_sockets`. -/
def serverSendAndRecv (sort : List RecvTimeClientRequest → List RecvTimeClientRequest)
    (results : Ptr → SendResult) (v : OrderEntry) (receiveSockets sendSockets : List Read) :
    Except Fault OrderEntry := do
  let v ← v.serveSockets results receiveSockets
  let v := if receiveSockets.any (·.chunk ≠ []) then v.recvFinishedCallback sort else v
  v.serveSockets results sendSockets

def requests (v : OrderEntry) (r : Read) : List OMClientRequest :=
  if r.chunk = [] then []
  else Layout.omClientRequest.messages ((v.sockets r.socket).recvBuffer ++ r.chunk)

def roundRequests (v : OrderEntry) (reads : List Read) : List (Ptr × OMClientRequest) :=
  reads.flatMap fun r ↦ (v.requests r).map (r.socket, ·)

/-- Every request comes from the socket of its client, with the number that is expected next. -/
def Sequenced : (ClientId → ℕ) → (ClientId → Option Ptr) → List (Ptr × OMClientRequest) → Prop
  | _, _, [] => True
  | exp, socket, (p, m) :: ms =>
    let c := m.meClientRequest.clientId
    c < ME_MAX_NUM_CLIENTS ∧ (socket c = none ∨ socket c = some p) ∧ m.seqNum = exp c ∧
      Sequenced (update exp c ((exp c + 1) % 2 ^ 64)) (update socket c (some p)) ms

instance Sequenced.decidable : ∀ exp socket ms, Decidable (Sequenced exp socket ms)
  | _, _, [] => isTrue trivial
  | _, _, (_, _) :: ms => @instDecidableAnd _ _ inferInstance (@instDecidableAnd _ _ inferInstance
      (@instDecidableAnd _ _ inferInstance (Sequenced.decidable _ _ ms)))

/-- `addClientRequest` does not come to its `FATAL`, whatever the kernel answers. -/
def StaysInBounds (v : OrderEntry) (reads : List Read) : Prop :=
  ∀ results, v.serveSockets results reads ≠ .error (.fatal "Too many pending requests")

variable {v v₁ : OrderEntry} {p : Ptr} {rxTime : Nanos} {m : OMClientRequest} {ms : List OMClientRequest}
  {rest : List (Ptr × OMClientRequest)} {r : Read} {reads : List Read} {chunk : List UInt8}

section Requests

theorem cidTcpSocket_bind (h : v.cidTcpSocket m.meClientRequest.clientId = none ∨
    v.cidTcpSocket m.meClientRequest.clientId = some p) :
    (v.bind m.meClientRequest.clientId p).cidTcpSocket =
      update v.cidTcpSocket m.meClientRequest.clientId (some p) := by
  unfold bind
  split_ifs with hnone
  · rfl
  · rw [← h.resolve_left hnone, update_eq_self]

structure Took (p : Ptr) (rxTime : Nanos) (ms : List OMClientRequest) (v v' : OrderEntry) : Prop where
  sockets : v'.sockets = v.sockets
  pending : v'.fifoSequencer.pendingClientRequests = v.fifoSequencer.pendingClientRequests ++
    ms.map fun m ↦ ⟨rxTime, m.meClientRequest⟩

theorem onRequest_sequenced {t : Nanos}
    (h : Sequenced v.cidNextExpSeqNum v.cidTcpSocket ((p, m) :: rest)) (hroom : v.HasRoom 1) :
    ∃ v', onRequest p t v m = .ok v' ∧ Took p t [m] v v' ∧
      Sequenced v'.cidNextExpSeqNum v'.cidTcpSocket rest := by
  obtain ⟨hid, hsocket, hseq, hrest⟩ := h
  obtain ⟨hexp, -, hsockets, hfifo, -⟩ := bind_frame v m.meClientRequest.clientId p
  refine ⟨_, onRequest_taken hid hroom (bind_self hsocket) hseq, ⟨hsockets, ?_⟩, ?_⟩
  · change (v.bind _ p).fifoSequencer.pendingClientRequests ++ _ = _
    rw [hfifo]
    rfl
  · change Sequenced _ (v.bind _ p).cidTcpSocket rest
    rw [forward_exp, hexp, cidTcpSocket_bind hsocket]
    exact hrest

theorem onRequest_full
    (h : Sequenced v.cidNextExpSeqNum v.cidTcpSocket ((p, m) :: rest)) (hfull : ¬ v.HasRoom 1) :
    onRequest p rxTime v m = .error (.fatal "Too many pending requests") := by
  obtain ⟨hid, hsocket, hseq, -⟩ := h
  obtain ⟨hexp, -, -, hfifo, -⟩ := bind_frame v m.meClientRequest.clientId p
  have hge : v.fifoSequencer.pendingClientRequests.length ≥ ME_MAX_PENDING_REQUESTS :=
    Nat.lt_succ_iff.mp (not_le.mp hfull)
  simp only [onRequest, if_pos hid]
  rw [if_neg (not_not.mpr (bind_self hsocket)), if_neg (not_not.mpr (by rw [hexp]; exact hseq)), hfifo,
    FIFOSequencer.addClientRequest, if_pos hge]
  rfl

theorem hasRoom_of_took {v' : OrderEntry} (h : Took p rxTime ms v v') (n : ℕ) :
    v'.HasRoom n ↔ v.HasRoom (ms.length + n) := by
  simp only [HasRoom, h.pending, List.length_append, List.length_map, Nat.add_assoc]

theorem loop_sequenced {t : Nanos} (hv : v.HasRoom 0)
    (h : Sequenced v.cidNextExpSeqNum v.cidTcpSocket (ms.map (p, ·) ++ rest)) :
    (v.HasRoom ms.length → ∃ v', ms.foldlM (onRequest p t) v = .ok v' ∧ Took p t ms v v' ∧
      Sequenced v'.cidNextExpSeqNum v'.cidTcpSocket rest) ∧
    (¬ v.HasRoom ms.length →
      ms.foldlM (onRequest p t) v = .error (.fatal "Too many pending requests")) := by
  induction ms generalizing v with
  | nil => exact ⟨fun _ ↦ ⟨v, rfl, ⟨rfl, (List.append_nil _).symm⟩, h⟩, fun hfull ↦ absurd hv hfull⟩
  | cons m ms ih =>
    rw [List.foldlM_cons]
    by_cases hroom : v.HasRoom 1
    · obtain ⟨v₁, hrun, htook, hrest⟩ := onRequest_sequenced (t := t) h hroom
      have hiff : v₁.HasRoom ms.length ↔ v.HasRoom (ms.length + 1) := by
        rw [hasRoom_of_took htook, List.length_singleton, Nat.add_comm]
      obtain ⟨hok, hfull⟩ := ih ((hasRoom_of_took htook 0).mpr hroom) hrest
      rw [hrun, List.length_cons, ← hiff]
      refine ⟨fun hroom ↦ ?_, hfull⟩
      obtain ⟨v', hrun', htook', hrest'⟩ := hok hroom
      refine ⟨v', hrun', ⟨htook'.sockets.trans htook.sockets, ?_⟩, hrest'⟩
      rw [htook'.pending, htook.pending, List.append_assoc]
      rfl
    · rw [onRequest_full h hroom]
      refine ⟨fun hall ↦ absurd (hall.mono (Nat.le_add_left 1 ms.length)) hroom, fun _ ↦ rfl⟩

end Requests

section Round

structure Served (r : Read) (v v' : OrderEntry) : Prop where
  sockets : ∀ q ≠ r.socket, v'.sockets q = v.sockets q
  pending : v'.fifoSequencer.pendingClientRequests = v.fifoSequencer.pendingClientRequests ++
    (v.requests r).map fun m ↦ ⟨r.rxTime, m.meClientRequest⟩

theorem receive_sequenced (hv : v.HasRoom 0)
    (h : Sequenced v.cidNextExpSeqNum v.cidTcpSocket ((v.requests r).map (r.socket, ·) ++ rest)) :
    (v.HasRoom (v.requests r).length → ∃ v', v.receive r.socket r.chunk r.rxTime = .ok v' ∧
      Served r v v' ∧ Sequenced v'.cidNextExpSeqNum v'.cidTcpSocket rest) ∧
    (¬ v.HasRoom (v.requests r).length →
      v.receive r.socket r.chunk r.rxTime = .error (.fatal "Too many pending requests")) := by
  unfold requests at h ⊢
  split_ifs at h ⊢ with hchunk
  · refine ⟨fun _ ↦ ⟨v, if_pos hchunk, ⟨fun _ _ ↦ rfl, ?_⟩, h⟩, fun hfull ↦ absurd hv hfull⟩
    rw [requests, if_pos hchunk]
    exact (List.append_nil _).symm
  · obtain ⟨hok, hfull⟩ := loop_sequenced (t := r.rxTime)
      (v := v.setSocket r.socket ((v.sockets r.socket).receive r.chunk)) hv h
    refine ⟨fun hroom ↦ ?_, fun hno ↦ ?_⟩
    · obtain ⟨v', hrun, htook, hrest⟩ := hok hroom
      refine ⟨_, receive_eq hchunk hrun, ⟨fun q hq ↦ ?_, ?_⟩, hrest⟩
      · rw [setSocket_of_ne hq, htook.sockets, setSocket_of_ne hq]
      · rw [requests, if_neg hchunk]
        exact htook.pending
    · have hbuffer : ((v.setSocket r.socket ((v.sockets r.socket).receive r.chunk)).sockets
          r.socket).recvBuffer = (v.sockets r.socket).recvBuffer ++ r.chunk := by
        rw [setSocket_self, TCPSocket.receive]
      rw [receive, if_neg hchunk, recvCallback_eq, hbuffer, hfull hno]
      rfl

theorem requests_congr {v' : OrderEntry} (h : v'.sockets r.socket = v.sockets r.socket) :
    v'.requests r = v.requests r := by
  rw [requests, requests, h]

theorem roundRequests_congr {v' : OrderEntry} (h : ∀ r ∈ reads, v'.sockets r.socket = v.sockets r.socket) :
    v'.roundRequests reads = v.roundRequests reads := by
  unfold roundRequests
  refine List.flatMap_congr fun r hr ↦ ?_
  rw [requests_congr (h r hr)]

theorem roundRequests_cons (v : OrderEntry) (r : Read) (reads : List Read) :
    v.roundRequests (r :: reads) = (v.requests r).map (r.socket, ·) ++ v.roundRequests reads :=
  List.flatMap_cons

theorem Served.hasRoom {v' : OrderEntry} (h : Served r v v') (n : ℕ) :
    v'.HasRoom n ↔ v.HasRoom ((v.requests r).length + n) := by
  simp only [HasRoom, h.pending, List.length_append, List.length_map, Nat.add_assoc]

theorem Served.after (h : Served r v v₁) (hnodup : ((r :: reads).map Read.socket).Nodup) (s : TCPSocket) :
    (v₁.setSocket r.socket s).roundRequests reads = v.roundRequests reads := by
  apply roundRequests_congr
  intro r' hr'
  have hne : r'.socket ≠ r.socket := fun heq ↦
    (List.nodup_cons.mp hnodup).1 (heq ▸ List.mem_map_of_mem hr')
  rw [setSocket_of_ne hne, h.sockets _ hne]

theorem serveSockets_cons (results : Ptr → SendResult) :
    v.serveSockets results (r :: reads) =
      v.receive r.socket r.chunk r.rxTime >>= fun v₁ ↦
        (v₁.sockets r.socket).flush (results r.socket) >>= fun f ↦
          (v₁.setSocket r.socket f.1).serveSockets results reads := by
  rw [serveSockets, List.foldlM_cons, sendAndRecv]
  cases v.receive r.socket r.chunk r.rxTime with
  | error e => rfl
  | ok v₁ =>
    simp only [ok_bind]
    cases (v₁.sockets r.socket).flush (results r.socket) <;> rfl

theorem flush_ne_fatal (s : TCPSocket) (result : SendResult) (text : String) :
    s.flush result ≠ .error (.fatal text) := by
  intro h
  unfold TCPSocket.flush at h
  split_ifs at h
  cases result with
  | sent n =>
    simp only at h
    split_ifs at h
    cases h
  | wouldBlock | failed => cases h

theorem serveSockets_of_room (results : Ptr → SendResult) (hnodup : (reads.map Read.socket).Nodup)
    (h : Sequenced v.cidNextExpSeqNum v.cidTcpSocket (v.roundRequests reads))
    (hroom : v.HasRoom (v.roundRequests reads).length) (text : String) :
    v.serveSockets results reads ≠ .error (.fatal text) := by
  induction reads generalizing v with
  | nil =>
    intro h
    cases h
  | cons r reads ih =>
    rw [roundRequests_cons] at h hroom
    rw [List.length_append, List.length_map] at hroom
    obtain ⟨v₁, hrun, hserved, hrest⟩ :=
      (receive_sequenced (hroom.mono (Nat.zero_le _)) h).1 (hroom.mono (Nat.le_add_right _ _))
    rw [serveSockets_cons, hrun, ok_bind]
    cases hflush : (v₁.sockets r.socket).flush (results r.socket) with
    | error e =>
      intro herr
      exact flush_ne_fatal _ _ text (hflush.trans (congrArg _ (Except.error.inj herr)))
    | ok f =>
      have hsame := hserved.after hnodup f.1
      rw [← hsame] at hrest hroom
      exact ih (List.nodup_cons.mp hnodup).2 hrest ((hserved.hasRoom _).mpr hroom)

theorem serveSockets_full (hnodup : (reads.map Read.socket).Nodup) (hv : v.HasRoom 0)
    (h : Sequenced v.cidNextExpSeqNum v.cidTcpSocket (v.roundRequests reads))
    (hfull : ¬ v.HasRoom (v.roundRequests reads).length) :
    v.serveSockets (fun _ ↦ .wouldBlock) reads = .error (.fatal "Too many pending requests") := by
  induction reads generalizing v with
  | nil => exact absurd hv hfull
  | cons r reads ih =>
    rw [roundRequests_cons] at h hfull
    rw [List.length_append, List.length_map] at hfull
    obtain ⟨hok, herr⟩ := receive_sequenced hv h
    rw [serveSockets_cons]
    by_cases hroom : v.HasRoom (v.requests r).length
    · obtain ⟨v₁, hrun, hserved, hrest⟩ := hok hroom
      obtain ⟨s, taken, hflush⟩ :
          ∃ s taken, (v₁.sockets r.socket).flush .wouldBlock = .ok (s, taken) :=
        TCPSocket.flush_returns (by simp)
      have hsame := hserved.after hnodup s
      rw [← hsame] at hrest hfull
      rw [hrun, ok_bind, hflush, ok_bind]
      exact ih (List.nodup_cons.mp hnodup).2 ((hserved.hasRoom 0).mpr hroom) hrest
        fun hroom' ↦ hfull ((hserved.hasRoom _).mp hroom')
    · rw [herr hroom]
      rfl

/-- The `FATAL` of `addClientRequest` is out of reach in a round, over any number of sockets, if and
only if the requests of the round fit into the sequencer. -/
theorem stays_in_bounds_iff (hnodup : (reads.map Read.socket).Nodup) (hv : v.HasRoom 0)
    (h : Sequenced v.cidNextExpSeqNum v.cidTcpSocket (v.roundRequests reads)) :
    v.StaysInBounds reads ↔ v.fifoSequencer.pendingClientRequests.length +
      (v.roundRequests reads).length ≤ ME_MAX_PENDING_REQUESTS := by
  refine ⟨fun hsafe ↦ ?_, fun hroom results ↦ serveSockets_of_room results hnodup h hroom _⟩
  by_contra hfull
  exact hsafe _ (serveSockets_full hnodup hv h hfull)

theorem stays_in_bounds_two : new.StaysInBounds [⟨1, order 1 ++ order 2, 5⟩] :=
  (stays_in_bounds_iff (by decide) (by decide) (by decide +kernel)).mpr (by decide +kernel)

end Round

section Burst

theorem sequenced_numberFrom {c k : ℕ} {p : Ptr} {rs : List MEClientRequest} {exp : ClientId → ℕ}
    {socket : ClientId → Option Ptr} (hc : c < ME_MAX_NUM_CLIENTS) (hrs : ∀ r ∈ rs, r.clientId = c)
    (hexp : exp c = k % 2 ^ 64) (hsocket : socket c = none ∨ socket c = some p) :
    Sequenced exp socket ((numberFrom OMClientRequest.mk k rs).map (p, ·)) := by
  induction rs generalizing k exp socket with
  | nil => trivial
  | cons r rs ih =>
    obtain rfl := hrs r List.mem_cons_self
    refine ⟨hc, hsocket, hexp.symm, ?_⟩
    apply ih fun r' hr' ↦ hrs r' (List.mem_cons_of_mem r hr')
    · rw [update_self, hexp, Nat.mod_add_mod]
    · exact .inr (update_self ..)

def openingRead (p : Ptr) (rs : List MEClientRequest) (rxTime : Nanos) : Read :=
  ⟨p, Layout.omClientRequest.stream (numberFrom OMClientRequest.mk 1 rs), rxTime⟩

theorem requests_openingRead {t : Nanos} {rs : List MEClientRequest} (hfits : ∀ r ∈ rs, r.Fits) :
    new.requests (openingRead p rs t) = numberFrom OMClientRequest.mk 1 rs := by
  rw [requests]
  split_ifs with hnil
  · cases rs with
    | nil => rfl
    | cons r rs =>
      have hlen := congrArg List.length hnil
      rw [openingRead, Packed.length_stream, length_numberFrom] at hlen
      exact absurd hlen (Nat.mul_pos (Nat.succ_pos _) (by decide)).ne'
  · apply Layout.omClientRequest.messages_stream (by decide)
    intro m hm
    obtain ⟨n, hn, r, hr, rfl⟩ := exists_of_mem_numberFrom hm
    exact Layout.omClientRequest_fits (hfits r hr) hn

theorem roundRequests_openingRead {t : Nanos} {rs : List MEClientRequest} (hfits : ∀ r ∈ rs, r.Fits) :
    new.roundRequests [openingRead p rs t] = (numberFrom OMClientRequest.mk 1 rs).map (p, ·) := by
  rw [roundRequests_cons, requests_openingRead hfits]
  exact List.append_nil _

theorem openingRead_sequenced {c : ℕ} {t : Nanos} {rs : List MEClientRequest}
    (hc : c < ME_MAX_NUM_CLIENTS) (hrs : ∀ r ∈ rs, r.clientId = c ∧ r.Fits) :
    Sequenced new.cidNextExpSeqNum new.cidTcpSocket (new.roundRequests [openingRead p rs t]) := by
  rw [roundRequests_openingRead fun r hr ↦ (hrs r hr).2]
  exact sequenced_numberFrom hc (fun r hr ↦ (hrs r hr).1) rfl (.inl rfl)

theorem openingRead_full {c : ℕ} {t : Nanos} {rs : List MEClientRequest} (hc : c < ME_MAX_NUM_CLIENTS)
    (hrs : ∀ r ∈ rs, r.clientId = c ∧ r.Fits) (hlong : ME_MAX_PENDING_REQUESTS < rs.length) :
    new.serveSockets (fun _ ↦ .wouldBlock) [openingRead p rs t] =
      .error (.fatal "Too many pending requests") := by
  apply @serveSockets_full _ [openingRead p rs t] (List.nodup_singleton p) (Nat.zero_le _)
    (openingRead_sequenced hc hrs)
  rw [roundRequests_openingRead fun r hr ↦ (hrs r hr).2, HasRoom, List.length_map, length_numberFrom]
  intro hroom
  exact absurd ((Nat.le_add_left ..).trans hroom) (Nat.not_le.mpr hlong)

theorem openingRead_overflows {c : ℕ} {t : Nanos} {rs : List MEClientRequest}
    (hc : c < ME_MAX_NUM_CLIENTS) (hrs : ∀ r ∈ rs, r.clientId = c ∧ r.Fits)
    (hlong : ME_MAX_PENDING_REQUESTS < rs.length)
    (hshort : rs.length * Layout.omClientRequest.size ≤ TCPBufferSize) :
    (openingRead p rs t).chunk.length ≤ TCPBufferSize ∧
      Sequenced new.cidNextExpSeqNum new.cidTcpSocket (new.roundRequests [openingRead p rs t]) ∧
      ¬ new.StaysInBounds [openingRead p rs t] ∧
      new.serverSendAndRecv id (fun _ ↦ .wouldBlock) [openingRead p rs t] [] =
        .error (.fatal "Too many pending requests") := by
  have hfatal := openingRead_full (p := p) (t := t) hc hrs hlong
  refine ⟨?_, openingRead_sequenced hc hrs, fun hsafe ↦ hsafe _ hfatal, ?_⟩
  · rwa [openingRead, Packed.length_stream, length_numberFrom]
  · rw [serverSendAndRecv, hfatal]
    rfl

def burst : List MEClientRequest :=
  List.replicate (ME_MAX_PENDING_REQUESTS + 1) ⟨.NEW, 3, 0, 1, .BUY, 100, 10⟩

theorem round_overflows : (openingRead 1 burst 5).chunk.length ≤ TCPBufferSize ∧
    Sequenced new.cidNextExpSeqNum new.cidTcpSocket (new.roundRequests [openingRead 1 burst 5]) ∧
    ¬ new.StaysInBounds [openingRead 1 burst 5] ∧
    new.serverSendAndRecv id (fun _ ↦ .wouldBlock) [openingRead 1 burst 5] [] =
      .error (.fatal "Too many pending requests") := by
  have hlen : burst.length = ME_MAX_PENDING_REQUESTS + 1 := List.length_replicate
  apply openingRead_overflows (by decide : 3 < ME_MAX_NUM_CLIENTS)
  · intro r hr
    rw [List.eq_of_mem_replicate hr]
    decide
  · rw [hlen]
    decide
  · rw [hlen]
    decide

end Burst

end LowLatency.Exchange.OrderEntry
