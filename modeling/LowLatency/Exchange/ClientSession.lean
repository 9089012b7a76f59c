import LowLatency.Exchange.OrderEntry

namespace LowLatency.Exchange.OrderEntry

open Common Function

variable {v v' v'' : OrderEntry} {p q : Ptr} {c : ClientId} (rxTime : Nanos) {n k : ℕ}
  {rs rs' : List MEClientRequest}

/-- No socket but `p` belongs to the client `c`, and `p` to no other client. -/
structure Owns (c : ClientId) (p : Ptr) (v : OrderEntry) : Prop where
  client : v.cidTcpSocket c = none ∨ v.cidTcpSocket c = some p
  alone : ∀ c', v.cidTcpSocket c' = some p → c' = c

/-- The server has passed on the requests `rs` of the client `c`, whose socket is `p`. -/
structure Advances (c : ClientId) (p : Ptr) (rs : List MEClientRequest) (v v' : OrderEntry) : Prop where
  owns : v.Owns c p → v'.Owns c p
  exp : ∀ k, v.cidNextExpSeqNum c = k % 2 ^ 64 → v'.cidNextExpSeqNum c = (k + rs.length) % 2 ^ 64
  outgoing : v'.cidNextOutgoingSeqNum = v.cidNextOutgoingSeqNum
  passed : v'.passed c = v.passed c ++ rs
  sockets : v'.sockets = v.sockets

theorem Advances.refl (c : ClientId) (p : Ptr) (v : OrderEntry) : Advances c p [] v v :=
  ⟨id, fun _ h ↦ h, rfl, (List.append_nil _).symm, rfl⟩

theorem Advances.trans (h : Advances c p rs v v') (h' : Advances c p rs' v' v'') :
    Advances c p (rs ++ rs') v v'' where
  owns := h'.owns ∘ h.owns
  exp k hk := by
    rw [List.length_append, ← Nat.add_assoc]
    exact h'.exp _ (h.exp k hk)
  outgoing := h'.outgoing.trans h.outgoing
  passed := by rw [h'.passed, h.passed, List.append_assoc]
  sockets := h'.sockets.trans h.sockets

theorem Owns.setSocket (h : v.Owns c p) {s : TCPSocket} : (v.setSocket q s).Owns c p :=
  ⟨h.client, h.alone⟩

theorem Owns.bind (h : v.Owns c p) : (v.bind c p).Owns c p := by
  refine ⟨.inr (bind_self h.client), fun c' hc' ↦ ?_⟩
  by_contra hne
  rw [bind_of_ne hne] at hc'
  exact hne (h.alone c' hc')

theorem advances_bind_self : Advances c p [] v (v.bind c p) := by
  obtain ⟨hexp, hout, hsockets, -, hforwarded⟩ := bind_frame v c p
  refine ⟨Owns.bind, fun k hk ↦ by rw [hexp]; exact hk, hout, ?_, hsockets⟩
  rw [passed, hforwarded, List.append_nil, passed]

theorem onRequest_own (hc : c < ME_MAX_NUM_CLIENTS) (howns : v.Owns c p) (hroom : v.HasRoom (n + 1))
    (hk : v.cidNextExpSeqNum c = k % 2 ^ 64) {r : MEClientRequest} (hr : r.clientId = c) :
    ∃ v', onRequest p rxTime v ⟨k % 2 ^ 64, r⟩ = .ok v' ∧ Advances c p [r] v v' ∧ v'.HasRoom n := by
  subst hr
  have hbind : Advances r.clientId p [] v (v.bind r.clientId p) := advances_bind_self
  obtain ⟨hexp, -⟩ := bind_frame v r.clientId p
  have hone : onRequest p rxTime v ⟨k % 2 ^ 64, r⟩ =
      .ok ((v.bind r.clientId p).forward p rxTime ⟨k % 2 ^ 64, r⟩) :=
    onRequest_taken hc (hroom.mono (by omega)) (bind_self howns.client) hk.symm
  refine ⟨_, hone, ⟨fun h ↦ ⟨h.bind.client, h.bind.alone⟩, fun k' hk' ↦ ?_, hbind.outgoing, ?_,
    hbind.sockets⟩, hroom.bind.forward⟩
  · rw [forward_exp, update_self, hexp, hk', Nat.mod_add_mod]
    rfl
  · rw [passed_forward, if_pos rfl, hbind.passed, List.append_nil]

theorem foldlM_own (hc : c < ME_MAX_NUM_CLIENTS) (howns : v.Owns c p)
    (hk : v.cidNextExpSeqNum c = k % 2 ^ 64) (hrs : ∀ r ∈ rs, r.clientId = c)
    (hroom : v.HasRoom rs.length) :
    ∃ v', (numberFrom OMClientRequest.mk k rs).foldlM (onRequest p rxTime) v = .ok v' ∧
      Advances c p rs v v' := by
  induction rs generalizing v k with
  | nil => exact ⟨v, rfl, .refl c p v⟩
  | cons r rs ih =>
    obtain ⟨v₁, hone, hadv, hroom₁⟩ :=
      onRequest_own rxTime hc howns hroom hk (hrs r List.mem_cons_self)
    obtain ⟨v', hrun, hadv'⟩ := ih (hadv.owns howns) (hadv.exp k hk)
      (fun r' hr' ↦ hrs r' (List.mem_cons_of_mem r hr')) hroom₁
    refine ⟨v', ?_, hadv.trans hadv'⟩
    rw [numberFrom, List.foldlM_cons, hone]
    exact hrun

theorem onRequest_peer (hq : q ≠ p) {m : OMClientRequest}
    (hid : m.meClientRequest.clientId < ME_MAX_NUM_CLIENTS) (hne : m.meClientRequest.clientId ≠ c)
    (hroom : v.HasRoom (n + 1)) :
    ∃ v', onRequest q rxTime v m = .ok v' ∧ Advances c p [] v v' ∧ v'.HasRoom n := by
  obtain ⟨hexp, hout, hsockets, -, hforwarded⟩ := bind_frame v m.meClientRequest.clientId q
  have hbind : Advances c p [] v (v.bind m.meClientRequest.clientId q) := by
    refine ⟨fun h ↦ ⟨?_, fun c' hc' ↦ h.alone c' (bind_eq_some hq hc')⟩,
      fun k hk ↦ by rw [hexp]; exact hk, hout, ?_, hsockets⟩
    · rw [bind_of_ne hne.symm]
      exact h.client
    · rw [passed, hforwarded, List.append_nil, passed]
  by_cases h : (v.bind m.meClientRequest.clientId q).cidTcpSocket m.meClientRequest.clientId = some q ∧
      m.seqNum = v.cidNextExpSeqNum m.meClientRequest.clientId
  · refine ⟨_, onRequest_taken hid (hroom.mono (by omega)) h.1 h.2,
      ⟨fun howns ↦ ⟨(hbind.owns howns).client, (hbind.owns howns).alone⟩, fun k hk ↦ ?_,
        hout, ?_, hsockets⟩, hroom.bind.forward⟩
    · rw [forward_exp, update_of_ne hne.symm]
      exact hbind.exp k hk
    · rw [passed_forward, if_neg hne, hbind.passed, List.append_nil]
  · exact ⟨_, onRequest_dropped hid h, hbind, (hroom.mono (by omega)).bind⟩

theorem foldlM_peer (hq : q ≠ p) {ms : List OMClientRequest}
    (hms : ∀ m ∈ ms, m.meClientRequest.clientId < ME_MAX_NUM_CLIENTS ∧ m.meClientRequest.clientId ≠ c)
    (hroom : v.HasRoom ms.length) :
    ∃ v', ms.foldlM (onRequest q rxTime) v = .ok v' ∧ Advances c p [] v v' := by
  induction ms generalizing v with
  | nil => exact ⟨v, rfl, .refl c p v⟩
  | cons m ms ih =>
    obtain ⟨hid, hne⟩ := hms m List.mem_cons_self
    obtain ⟨v₁, hone, hadv, hroom₁⟩ := onRequest_peer rxTime hq hid hne hroom
    obtain ⟨v', hrun, hadv'⟩ := ih (fun m' hm' ↦ hms m' (List.mem_cons_of_mem m hm')) hroom₁
    refine ⟨v', ?_, hadv.trans hadv'⟩
    rw [List.foldlM_cons, hone]
    exact hrun

/-- The server's part of a connection: the client `c` is on the socket `p`, has been sent
`answered` responses, and of the requests `sent` those that it has not passed on are in the
socket's buffer or in `underway`. -/
structure Serving (c : ClientId) (p : Ptr) (sent : List MEClientRequest) (answered : ℕ)
    (underway : List UInt8) (v : OrderEntry) : Prop where
  owns : v.Owns c p
  exp : v.cidNextExpSeqNum c = ((v.passed c).length + 1) % 2 ^ 64
  outgoing : v.cidNextOutgoingSeqNum c = (answered + 1) % 2 ^ 64
  requests : Carries Layout.omClientRequest OMClientRequest.mk sent (v.passed c)
    (v.sockets p).recvBuffer underway

namespace Serving

variable {sent : List MEClientRequest} {answered : ℕ} {chunk underway : List UInt8}

theorem new (c : ClientId) (p : Ptr) : OrderEntry.new.Serving c p [] 0 [] :=
  ⟨⟨.inl rfl, fun _ h ↦ by cases h⟩, rfl, rfl, .start (by decide)⟩

theorem request (h : v.Serving c p sent answered underway) (r : MEClientRequest) :
    v.Serving c p (sent ++ [r]) answered
      (underway ++ Layout.omClientRequest.encode ⟨(sent.length + 1) % 2 ^ 64, r⟩) :=
  ⟨h.owns, h.exp, h.outgoing, h.requests.send r⟩

theorem receive (hc : c < ME_MAX_NUM_CLIENTS) (hsent : ∀ r ∈ sent, r.Fits ∧ r.clientId = c)
    (hroom : v.HasRoom
      (Layout.omClientRequest.messages ((v.sockets p).recvBuffer ++ chunk)).length)
    (h : v.Serving c p sent answered (chunk ++ underway)) :
    ∃ v', v.receive p chunk rxTime = .ok v' ∧ v'.Serving c p sent answered underway ∧
      (v'.sockets p).sendBuffer = (v.sockets p).sendBuffer := by
  by_cases hchunk : chunk = []
  · subst hchunk
    exact ⟨v, if_pos rfl, h, rfl⟩
  · obtain ⟨rs, hrs, hsub, hcarries⟩ :=
      h.requests.receive fun r hr _ hn ↦ Layout.omClientRequest_fits (hsent r hr).1 hn
    rw [hrs, length_numberFrom] at hroom
    obtain ⟨v₁, hrun, hadv⟩ := foldlM_own rxTime
      (v := v.setSocket p ((v.sockets p).receive chunk)) hc h.owns.setSocket h.exp
      (fun r hr ↦ (hsent r (hsub hr)).2) hroom
    have hpassed : v₁.passed c = v.passed c ++ rs := hadv.passed
    rw [← hrs] at hrun
    refine ⟨_, receive_eq hchunk hrun, ⟨(hadv.owns h.owns.setSocket).setSocket, ?_, ?_, ?_⟩, ?_⟩
    · change v₁.cidNextExpSeqNum c = ((v₁.passed c).length + 1) % 2 ^ 64
      rw [hpassed, List.length_append, Nat.add_right_comm]
      exact hadv.exp _ h.exp
    · exact (congrFun hadv.outgoing c).trans h.outgoing
    · rw [setSocket_self]
      change Carries _ _ sent (v₁.passed c) _ underway
      rw [hpassed]
      exact hcarries
    · rw [setSocket_self, hadv.sockets, setSocket_self]
      rfl

theorem receive_peer (hq : q ≠ p)
    (hms : ∀ m ∈ Layout.omClientRequest.messages ((v.sockets q).recvBuffer ++ chunk),
      m.meClientRequest.clientId < ME_MAX_NUM_CLIENTS ∧ m.meClientRequest.clientId ≠ c)
    (hroom : v.HasRoom
      (Layout.omClientRequest.messages ((v.sockets q).recvBuffer ++ chunk)).length)
    (h : v.Serving c p sent answered underway) :
    ∃ v', v.receive q chunk rxTime = .ok v' ∧ v'.Serving c p sent answered underway ∧
      v'.sockets p = v.sockets p ∧ (v'.sockets q).sendBuffer = (v.sockets q).sendBuffer := by
  by_cases hchunk : chunk = []
  · subst hchunk
    exact ⟨v, if_pos rfl, h, rfl, rfl⟩
  · obtain ⟨v₁, hrun, hadv⟩ := foldlM_peer rxTime
      (v := v.setSocket q ((v.sockets q).receive chunk)) hq hms hroom
    have hsocket (s : TCPSocket) : (v₁.setSocket q s).sockets p = v.sockets p := by
      rw [setSocket_of_ne hq.symm, hadv.sockets, setSocket_of_ne hq.symm]
    have hpassed : v₁.passed c = v.passed c := by
      rw [hadv.passed, List.append_nil]
      rfl
    refine ⟨_, receive_eq hchunk hrun, ⟨(hadv.owns h.owns.setSocket).setSocket, ?_, ?_, ?_⟩,
      hsocket _, ?_⟩
    · change v₁.cidNextExpSeqNum c = ((v₁.passed c).length + 1) % 2 ^ 64
      rw [hpassed]
      exact hadv.exp _ h.exp
    · exact (congrFun hadv.outgoing c).trans h.outgoing
    · rw [hsocket]
      change Carries _ _ sent (v₁.passed c) _ underway
      rw [hpassed]
      exact h.requests
    · rw [setSocket_self, hadv.sockets, setSocket_self]
      rfl

theorem setSocket (h : v.Serving c p sent answered underway) {s : TCPSocket}
    (hs : q = p → s.recvBuffer = (v.sockets p).recvBuffer) :
    (v.setSocket q s).Serving c p sent answered underway := by
  refine ⟨h.owns.setSocket, h.exp, h.outgoing, ?_⟩
  have hbuffer : ((v.setSocket q s).sockets p).recvBuffer = (v.sockets p).recvBuffer := by
    by_cases hq : q = p
    · subst hq
      rw [setSocket_self]
      exact hs rfl
    · rw [setSocket_of_ne fun hp ↦ hq hp.symm]
  rw [hbuffer]
  exact h.requests

theorem sendAndRecv (hc : c < ME_MAX_NUM_CLIENTS) (hsent : ∀ r ∈ sent, r.Fits ∧ r.clientId = c)
    (hroom : v.HasRoom
      (Layout.omClientRequest.messages ((v.sockets p).recvBuffer ++ chunk)).length)
    (h : v.Serving c p sent answered (chunk ++ underway)) :
    ∃ v', v.sendAndRecv p chunk rxTime (.sent (v.sockets p).sendBuffer.length) =
        .ok (v', (v.sockets p).sendBuffer) ∧
      v'.Serving c p sent answered underway ∧ (v'.sockets p).sendBuffer = [] := by
  obtain ⟨v₁, hreceive, h₁, hsend⟩ := h.receive rxTime hc hsent hroom
  refine ⟨v₁.setSocket p { v₁.sockets p with sendBuffer := [] }, ?_, h₁.setSocket fun _ ↦ rfl, ?_⟩
  · rw [OrderEntry.sendAndRecv, hreceive, ok_bind, ← hsend, TCPSocket.flush_sent]
    rfl
  · rw [setSocket_self]

theorem sendAndRecv_peer (hq : q ≠ p) {result : SendResult}
    (hms : ∀ m ∈ Layout.omClientRequest.messages ((v.sockets q).recvBuffer ++ chunk),
      m.meClientRequest.clientId < ME_MAX_NUM_CLIENTS ∧ m.meClientRequest.clientId ≠ c)
    (hroom : v.HasRoom
      (Layout.omClientRequest.messages ((v.sockets q).recvBuffer ++ chunk)).length)
    (hresult : ∀ n, result = .sent n → n = (v.sockets q).sendBuffer.length)
    (h : v.Serving c p sent answered underway) :
    ∃ v' taken, v.sendAndRecv q chunk rxTime result = .ok (v', taken) ∧
      v'.Serving c p sent answered underway ∧ v'.sockets p = v.sockets p := by
  obtain ⟨v₁, hreceive, h₁, hsocket, hsend⟩ := h.receive_peer rxTime hq hms hroom
  rw [← hsend] at hresult
  obtain ⟨s, taken, hflush⟩ := TCPSocket.flush_returns hresult
  refine ⟨v₁.setSocket q s, taken, ?_, h₁.setSocket fun hp ↦ absurd hp hq, ?_⟩
  · rw [OrderEntry.sendAndRecv, hreceive, ok_bind, hflush]
    rfl
  · rw [setSocket_of_ne hq.symm, hsocket]

theorem recvFinishedCallback (h : v.Serving c p sent answered underway)
    (sort : List RecvTimeClientRequest → List RecvTimeClientRequest) :
    (v.recvFinishedCallback sort).Serving c p sent answered underway :=
  ⟨⟨h.owns.client, h.owns.alone⟩, h.exp, h.outgoing, h.requests⟩

theorem sendResponse {r : MEClientResponse} (hc : c < ME_MAX_NUM_CLIENTS) (hr : r.clientId = c)
    (hp : v.cidTcpSocket c = some p)
    (hroom : (v.sockets p).sendBuffer.length + Layout.omClientResponse.size ≤ TCPBufferSize)
    (h : v.Serving c p sent answered underway) :
    ∃ v', v.sendResponse r = .ok v' ∧ v'.Serving c p sent (answered + 1) underway ∧
      (v'.sockets p).sendBuffer = (v.sockets p).sendBuffer ++
        Layout.omClientResponse.encode ⟨(answered + 1) % 2 ^ 64, r⟩ := by
  subst hr
  have hanswer : (v.answer p r).Serving r.clientId p sent (answered + 1) underway := by
    refine ⟨⟨h.owns.client, h.owns.alone⟩, h.exp, ?_, h.requests⟩
    rw [answer_outgoing, update_self, h.outgoing, Nat.mod_add_mod]
  refine ⟨_, sendResponse_of_bound hc hp hroom, hanswer.setSocket fun _ ↦ rfl, ?_⟩
  rw [setSocket_self, ← h.outgoing]

theorem sendResponse_peer {r : MEClientResponse} (hid : r.clientId < ME_MAX_NUM_CLIENTS)
    (hne : r.clientId ≠ c) (hq : v.cidTcpSocket r.clientId = some q)
    (hroom : (v.sockets q).sendBuffer.length + Layout.omClientResponse.size ≤ TCPBufferSize)
    (h : v.Serving c p sent answered underway) :
    ∃ v', v.sendResponse r = .ok v' ∧ v'.Serving c p sent answered underway ∧
      v'.sockets p = v.sockets p := by
  have hqp : q ≠ p := fun hqp ↦ hne (h.owns.alone _ (hqp ▸ hq))
  have hanswer : (v.answer q r).Serving c p sent answered underway := by
    refine ⟨⟨h.owns.client, h.owns.alone⟩, h.exp, ?_, h.requests⟩
    rw [answer_outgoing, update_of_ne hne.symm]
    exact h.outgoing
  exact ⟨_, sendResponse_of_bound hid hq hroom, hanswer.setSocket fun hp ↦ absurd hp hqp,
    setSocket_of_ne hqp.symm _⟩

end Serving

end LowLatency.Exchange.OrderEntry
