import LowLatency.Common.TCPServer
import LowLatency.Exchange.ReceiveRound
import LowLatency.Simulation

namespace LowLatency.Exchange

open Common Function

/-- One pass of the loop: what the kernel reports, what each socket has to receive and what its call of
`send` returns, and the responses that are in the queue. -/
structure Round where
  polled : Polled
  arrived : Ptr → List UInt8
  rxTime : Ptr → Nanos
  results : Ptr → SendResult
  responses : List MEClientResponse

structure ServerLoop where
  tcpServer : TCPServer
  entry : OrderEntry

namespace ServerLoop

open OrderEntry (Event Read)

def new : ServerLoop := ⟨.new, .new⟩

def reads (x : Round) (sockets : List Ptr) : List Read := sockets.map fun p ↦ ⟨p, x.arrived p, x.rxTime p⟩

variable (sort : List RecvTimeClientRequest → List RecvTimeClientRequest)

def step (s : ServerLoop) (x : Round) : Except Fault ServerLoop := do
  let tcpServer ← s.tcpServer.poll x.polled
  let entry ← s.entry.serverSendAndRecv sort x.results (reads x tcpServer.receiveSockets)
    (reads x tcpServer.sendSockets)
  let entry ← x.responses.foldlM OrderEntry.sendResponse entry
  return ⟨tcpServer, entry⟩

def Reports (s : ServerLoop) (x : Round) : Prop := s.tcpServer.Reports x.polled

instance (s : ServerLoop) : DecidablePred s.Reports := fun _ ↦ inferInstanceAs (Decidable (s.tcpServer.Reports _))

/-- What is done in a round in which these sockets are served. -/
def roundEvents (sockets : List Ptr) (x : Round) : List Event :=
  sockets.map (fun p ↦ .sendAndRecv p (x.arrived p) (x.rxTime p) (x.results p)) ++
    (if ∃ p ∈ sockets, x.arrived p ≠ [] then [.publish] else []) ++ x.responses.map .response

/-- The sockets that have been accepted by then, but for those that were reported in a round before. -/
def served (before : List Round) (x : Round) : List Ptr :=
  (List.range' 1 (TCPServer.accepted ((before ++ [x]).map Round.polled))).filter
    (· ∉ TCPServer.reported (before.map Round.polled))

/-- What the loop does in some rounds, by what the kernel reports. -/
def trace : List Round → List Round → List Event
  | _, [] => []
  | before, x :: xs => roundEvents (served before x) x ++ trace (before ++ [x]) xs

variable {sort} {s s' : ServerLoop} {x : Round} {xs : List Round} {v v' : OrderEntry}

theorem trace_append (before xs ys : List Round) :
    trace before (xs ++ ys) = trace before xs ++ trace (before ++ xs) ys := by
  induction xs generalizing before with
  | nil => simp [trace]
  | cons x xs ih => simp [trace, ih, List.append_assoc]

theorem foldlM_reads (sockets : List Ptr) : v.serveSockets x.results (reads x sockets) =
    (sockets.map fun p ↦ Event.sendAndRecv p (x.arrived p) (x.rxTime p) (x.results p)).foldlM
      (OrderEntry.step sort) v := by
  rw [OrderEntry.serveSockets, reads, List.foldlM_map, List.foldlM_map]
  rfl

/-- As long as no socket is in `m_send_sockets` a round is made up of its `roundEvents`. -/
theorem step_of_poll {tcpServer : TCPServer} (hpoll : s.tcpServer.poll x.polled = .ok tcpServer)
    (hsend : tcpServer.sendSockets = []) : s.step sort x =
      (roundEvents tcpServer.receiveSockets x).foldlM (OrderEntry.step sort) s.entry >>= fun entry ↦
        .ok ⟨tcpServer, entry⟩ := by
  have hany : (reads x tcpServer.receiveSockets).any (·.chunk ≠ []) =
      decide (∃ p ∈ tcpServer.receiveSockets, x.arrived p ≠ []) := by
    rw [reads, List.any_map, List.any_eq]
    simp
  have hresponses : ∀ v : OrderEntry, (x.responses.map Event.response).foldlM (OrderEntry.step sort) v =
      x.responses.foldlM OrderEntry.sendResponse v := by
    intro v
    rw [List.foldlM_map]
    rfl
  rw [step, hpoll, ok_bind, roundEvents, List.foldlM_append, List.foldlM_append, hsend,
    OrderEntry.serverSendAndRecv, foldlM_reads, hany]
  cases hserve : (tcpServer.receiveSockets.map fun p ↦
      Event.sendAndRecv p (x.arrived p) (x.rxTime p) (x.results p)).foldlM (OrderEntry.step sort) s.entry with
  | error e => rfl
  | ok v =>
    have hnone : ∀ v : OrderEntry, v.serveSockets x.results (reads x []) = .ok v := fun _ ↦ rfl
    simp only [ok_bind, hnone]
    by_cases hreceived : ∃ p ∈ tcpServer.receiveSockets, x.arrived p ≠ []
    · have hpublish : v.step sort .publish = .ok (v.recvFinishedCallback sort) := rfl
      rw [if_pos hreceived, if_pos (decide_eq_true hreceived), foldlM_singleton, hpublish, ok_bind,
        hresponses]
      rfl
    · have hstill : ([] : List Event).foldlM (OrderEntry.step sort) v = .ok v := rfl
      rw [if_neg hreceived, if_neg (by simpa using hreceived), hstill, ok_bind, hresponses]
      rfl

structure Traced (sort : List RecvTimeClientRequest → List RecvTimeClientRequest) (xs : List Round)
    (s : ServerLoop) : Prop where
  after : TCPServer.After (xs.map Round.polled) s.tcpServer
  run : (trace [] xs).foldlM (OrderEntry.step sort) .new = .ok s.entry

theorem Traced.round (h : Traced sort xs s) (hx : s.Reports x) (hrun : s.step sort x = .ok s') :
    s'.tcpServer.receiveSockets = served xs x ∧
      (roundEvents (served xs x) x).foldlM (OrderEntry.step sort) s.entry = .ok s'.entry ∧
      TCPServer.After ((xs ++ [x]).map Round.polled) s'.tcpServer := by
  obtain ⟨tcpServer, hpoll, -⟩ := bind_eq_ok hrun
  have hafter : TCPServer.After ((xs ++ [x]).map Round.polled) tcpServer := by
    rw [List.map_append]
    exact h.after.poll hx hpoll
  have hserved : tcpServer.receiveSockets = served xs x := by
    rw [hafter.stands.receive, hafter.stands.sockets, served, List.map_append, List.map_singleton,
      List.dropLast_concat]
  rw [step_of_poll hpoll hafter.stands.send, hserved] at hrun
  obtain ⟨entry, hentry, hrun⟩ := bind_eq_ok hrun
  obtain rfl := Except.ok.inj hrun
  exact ⟨hserved, hentry, hafter⟩

theorem Traced.step (h : Traced sort xs s) (hx : s.Reports x) (hrun : s.step sort x = .ok s') :
    Traced sort (xs ++ [x]) s' := by
  obtain ⟨-, hentry, hafter⟩ := h.round hx hrun
  refine ⟨hafter, ?_⟩
  rw [trace_append]
  refine foldlM_append_ok h.run ?_
  simpa [trace] using hentry

theorem traced_new : Traced sort [] new := ⟨TCPServer.after_new, rfl⟩

/-- Over any run the loop serves in each round the sockets that were accepted and not reported before
it, then publishes if one of them has received anything, and then sends the responses. -/
theorem run_trace (hreports : Guarded (step sort) Reports new xs) (hrun : xs.foldlM (step sort) new = .ok s) :
    (trace [] xs).foldlM (OrderEntry.step sort) .new = .ok s.entry :=
  (hreports.history traced_new (fun _ _ _ _ h hx hs ↦ h.step hx hs) hrun).run

def oneArrives (events : List EpollEvent) (accepted : ℕ) (p : Ptr) (chunk : List UInt8)
    (responses : List MEClientResponse) : Round where
  polled := ⟨events, accepted⟩
  arrived := update (fun _ ↦ []) p chunk
  rxTime := fun _ ↦ 5
  results := fun _ ↦ .wouldBlock
  responses := responses

def hangsUp : List Round :=
  [oneArrives [⟨listenerSocket, true, false, false, false⟩] 1 1 (OrderEntry.order 1) [],
    oneArrives [⟨1, true, false, false, true⟩] 0 1 [] []]

theorem run_trace_hangs_up : ∃ s, hangsUp.foldlM (step id) new = .ok s ∧
    (trace [] hangsUp).foldlM (OrderEntry.step id) .new = .ok s.entry := by
  obtain ⟨s, hrun, -⟩ : ∃ s, hangsUp.foldlM (step id) new = .ok s ∧ True :=
    Yields.exists_ok (by decide +kernel)
  exact ⟨s, hrun, run_trace (by decide +kernel) hrun⟩

section Frozen

open OrderEntry (forwardedOf)

variable {p q : Ptr} {rxTime : Nanos} {m : OMClientRequest} {e : Event} {es : List Event}

def pile (p : Ptr) (written : List (Ptr × ℕ × MEClientResponse)) : List UInt8 :=
  (written.filter (·.1 = p)).flatMap fun w ↦ Layout.omClientResponse.encode ⟨w.2.1, w.2.2⟩

/-- Nothing more is received on the socket, nothing is sent on it, and the clients on it stay there, while
these responses are written. -/
structure Frozen (p : Ptr) (rs : List MEClientResponse) (v v' : OrderEntry) : Prop where
  bound : ∀ c, v.cidTcpSocket c = some p → v'.cidTcpSocket c = some p
  passed : ∀ c, v.cidTcpSocket c = some p → v'.forwardedOf c = v.forwardedOf c
  received : (v'.sockets p).recvBuffer = (v.sockets p).recvBuffer
  piled : ∃ written, v'.written = v.written ++ written ∧ written.map (·.2.2) = rs ∧
    (∀ w ∈ written, v.cidTcpSocket w.2.2.clientId = some p → w.1 = p) ∧
    (v'.sockets p).sendBuffer = (v.sockets p).sendBuffer ++ pile p written

theorem Frozen.of_frame (hbound : ∀ c, v.cidTcpSocket c = some p → v'.cidTcpSocket c = some p)
    (hpassed : ∀ c, v.cidTcpSocket c = some p → v'.forwardedOf c = v.forwardedOf c)
    (hwritten : v'.written = v.written) (hsocket : v'.sockets p = v.sockets p) : Frozen p [] v v' := by
  refine ⟨hbound, hpassed, by rw [hsocket], [], ?_, rfl, ?_, ?_⟩
  · rw [hwritten, List.append_nil]
  · intro w hw
    cases hw
  · rw [hsocket]
    exact (List.append_nil _).symm

theorem Frozen.refl (p : Ptr) (v : OrderEntry) : Frozen p [] v v :=
  .of_frame (fun _ ↦ id) (fun _ _ ↦ rfl) rfl rfl

theorem Frozen.trans {v'' : OrderEntry} {rs rs' : List MEClientResponse} (h : Frozen p rs v v')
    (h' : Frozen p rs' v' v'') : Frozen p (rs ++ rs') v v'' := by
  obtain ⟨written, hwritten, hrs, hsocket, hbuffer⟩ := h.piled
  obtain ⟨written', hwritten', hrs', hsocket', hbuffer'⟩ := h'.piled
  refine ⟨fun c hc ↦ h'.bound c (h.bound c hc), fun c hc ↦ (h'.passed c (h.bound c hc)).trans (h.passed c hc),
    h'.received.trans h.received, written ++ written', ?_, ?_, fun w hw hbound ↦ ?_, ?_⟩
  · rw [hwritten', hwritten, List.append_assoc]
  · rw [List.map_append, hrs, hrs']
  · rcases List.mem_append.mp hw with hw | hw
    · exact hsocket w hw hbound
    · exact hsocket' w hw (h.bound _ hbound)
  · rw [hbuffer', hbuffer, List.append_assoc]
    simp [pile]

theorem Frozen.onRequest (hq : q ≠ p) (hrun : OrderEntry.onRequest q rxTime v m = .ok v') :
    Frozen p [] v v' := by
  have hbind : Frozen p [] v (v.bind m.meClientRequest.clientId q) := by
    obtain ⟨-, -, hsockets, -, hforwarded⟩ := OrderEntry.bind_frame v m.meClientRequest.clientId q
    refine .of_frame (fun c ↦ OrderEntry.bind_of_eq_some)
      (fun c _ ↦ by rw [forwardedOf, hforwarded, forwardedOf]) ?_ (by rw [hsockets])
    unfold OrderEntry.bind
    split_ifs <;> rfl
  rcases OrderEntry.onRequest_cases hrun with rfl | ⟨hsocket, -, rfl⟩
  · exact hbind
  · refine ⟨hbind.bound, fun c hc ↦ ?_, hbind.received, hbind.piled⟩
    have hne : m.meClientRequest.clientId ≠ c := by
      rintro rfl
      exact hq (Option.some.inj (hsocket.symm.trans (hbind.bound _ hc)))
    rw [OrderEntry.forwardedOf_forward, if_neg hne, List.append_nil]
    exact hbind.passed c hc

theorem send_ok {s s' : TCPSocket} {data : List UInt8} (h : s.send data = .ok s') :
    s' = { s with sendBuffer := s.sendBuffer ++ data } := by
  unfold TCPSocket.send at h
  split_ifs at h
  exact (Except.ok.inj h).symm

theorem sendResponse_ok {r : MEClientResponse} (hrun : v.sendResponse r = .ok v') :
    ∃ q, v.cidTcpSocket r.clientId = some q ∧ v' = (v.answer q r).setSocket q { v.sockets q with
      sendBuffer := (v.sockets q).sendBuffer ++
        Layout.omClientResponse.encode ⟨v.cidNextOutgoingSeqNum r.clientId, r⟩ } := by
  obtain ⟨server, hserver, hrun⟩ := bind_eq_ok hrun
  obtain ⟨q, hq, hrun⟩ := bind_eq_ok hrun
  obtain ⟨s₁, hs₁, hrun⟩ := bind_eq_ok hrun
  obtain ⟨s₂, hs₂, hrun⟩ := bind_eq_ok hrun
  obtain rfl := send_ok hs₁
  obtain rfl := send_ok hs₂
  obtain rfl := Except.ok.inj hrun
  have hbound : v.cidTcpSocket r.clientId = some q := by
    cases hsome : v.cidTcpSocket r.clientId with
    | none =>
      rw [hsome] at hq
      cases hq
    | some q' =>
      rw [hsome] at hq
      rw [Except.ok.inj hq]
  refine ⟨q, hbound, ?_⟩
  simp only [OrderServer.processResponse, hbound] at hserver
  split_ifs at hserver
  obtain rfl := Except.ok.inj hserver
  rw [List.append_assoc]
  rfl

theorem Frozen.setSocket (hq : q ≠ p) (h : Frozen p [] v v') (s : TCPSocket) :
    Frozen p [] v (v'.setSocket q s) := by
  have hsame : (v'.setSocket q s).sockets p = v'.sockets p := OrderEntry.setSocket_of_ne hq.symm s
  exact h.trans (.of_frame (fun _ ↦ id) (fun _ _ ↦ rfl) rfl hsame)

def Avoids (p : Ptr) : Event → Prop
  | .sendAndRecv q _ _ _ => q ≠ p
  | .publish | .response _ => True

def responsesIn (es : List Event) : List MEClientResponse :=
  es.flatMap fun
    | .response r => [r]
    | .sendAndRecv _ _ _ _ | .publish => []

theorem Frozen.event (he : Avoids p e) (hrun : v.step sort e = .ok v') :
    Frozen p (responsesIn [e]) v v' := by
  cases e with
  | sendAndRecv q chunk rxTime result =>
    exact OrderEntry.invariant_sendAndRecv (I := Frozen p [] v)
      (fun _ _ _ h hone ↦ h.trans (.onRequest he hone)) (fun _ s h ↦ h.setSocket he s) (.refl p v) hrun
  | publish =>
    obtain rfl := Except.ok.inj hrun
    exact .of_frame (fun _ ↦ id) (fun _ _ ↦ rfl) rfl rfl
  | response r =>
    obtain ⟨q, hbound, rfl⟩ := sendResponse_ok hrun
    refine ⟨fun _ ↦ id, fun _ _ ↦ rfl, ?_, [(q, v.cidNextOutgoingSeqNum r.clientId, r)], rfl, rfl,
      fun w hw hp ↦ ?_, ?_⟩
    · by_cases hq : p = q
      · subst hq
        rw [OrderEntry.setSocket_self]
      · rw [OrderEntry.setSocket_of_ne hq]
        rfl
    · rw [List.mem_singleton.mp hw] at hp ⊢
      exact Option.some.inj (hbound.symm.trans hp)
    · by_cases hq : p = q
      · subst hq
        rw [OrderEntry.setSocket_self]
        simp [pile]
      · rw [OrderEntry.setSocket_of_ne hq]
        simp [pile, Ne.symm hq, OrderEntry.answer]

theorem Frozen.events (he : ∀ e ∈ es, Avoids p e) (hrun : es.foldlM (OrderEntry.step sort) v = .ok v') :
    Frozen p (responsesIn es) v v' := by
  have hguard : Guarded (OrderEntry.step sort) (fun _ e ↦ Avoids p e) v es := .of_mem fun e hmem _ ↦ he e hmem
  refine hguard.history (I := fun es v' ↦ Frozen p (responsesIn es) v v') (.refl p v) ?_ hrun
  intro es e v₁ v₂ h havoids hs
  have hresponses : responsesIn (es ++ [e]) = responsesIn es ++ responsesIn [e] := List.flatMap_append
  rw [hresponses]
  exact h.trans (.event havoids hs)

theorem responsesIn_roundEvents (sockets : List Ptr) (x : Round) :
    responsesIn (roundEvents sockets x) = x.responses := by
  have hnone : ∀ ps : List Ptr, responsesIn (ps.map fun p ↦
      .sendAndRecv p (x.arrived p) (x.rxTime p) (x.results p)) = [] := by
    intro ps
    rw [responsesIn, List.flatMap_map]
    simp
  have hresponses : ∀ rs : List MEClientResponse, responsesIn (rs.map .response) = rs := by
    intro rs
    rw [responsesIn, List.flatMap_map]
    simp
  have hpublish : responsesIn (if ∃ p ∈ sockets, x.arrived p ≠ [] then [.publish] else []) = [] := by
    split_ifs <;> rfl
  unfold responsesIn at *
  rw [roundEvents, List.flatMap_append, List.flatMap_append, hnone, hpublish, hresponses]
  rfl

end Frozen

section LockOut

variable {p : Ptr} {ys : List Round}

theorem roundEvents_avoid {before : List Round} (hp : p ∈ TCPServer.reported (before.map Round.polled)) :
    ∀ e ∈ roundEvents (served before x) x, Avoids p e := by
  intro e he
  rcases List.mem_append.mp he with he | he
  · rcases List.mem_append.mp he with he | he
    · obtain ⟨q, hq, rfl⟩ := List.mem_map.mp he
      rintro rfl
      exact of_decide_eq_true (List.mem_filter.mp hq).2 hp
    · split_ifs at he
      · rw [List.mem_singleton.mp he]
        trivial
      · cases he
  · obtain ⟨r, -, rfl⟩ := List.mem_map.mp he
    trivial

theorem reported_append (xs ys : List Polled) :
    TCPServer.reported (xs ++ ys) = TCPServer.reported xs ++ TCPServer.reported ys := by
  simp [TCPServer.reported]

theorem Traced.frozen (h : Traced sort xs s) (hp : p ∈ s.tcpServer.disconnectedSockets)
    (hreports : Guarded (ServerLoop.step sort) Reports s ys)
    (hrun : ys.foldlM (ServerLoop.step sort) s = .ok s') :
    Frozen p (ys.flatMap Round.responses) s.entry s'.entry := by
  have hkeep : ∀ zs x s₁ s₂, (Traced sort (xs ++ zs) s₁ ∧
      Frozen p (zs.flatMap Round.responses) s.entry s₁.entry) → s₁.Reports x → s₁.step sort x = .ok s₂ →
      Traced sort (xs ++ (zs ++ [x])) s₂ ∧
        Frozen p ((zs ++ [x]).flatMap Round.responses) s.entry s₂.entry := by
    rintro zs x s₁ s₂ ⟨htraced, hfrozen⟩ hx hs
    have hmem : p ∈ TCPServer.reported ((xs ++ zs).map Round.polled) := by
      rw [List.map_append, reported_append]
      exact List.mem_append_left _ ((h.after.disconnected p).mp hp)
    obtain ⟨-, hentry, -⟩ := htraced.round hx hs
    have hround := Frozen.events (roundEvents_avoid hmem) hentry
    rw [responsesIn_roundEvents] at hround
    rw [← List.append_assoc, List.flatMap_append, List.flatMap_singleton]
    exact ⟨htraced.step hx hs, hfrozen.trans hround⟩
  exact (hreports.history (I := fun zs s₁ ↦ Traced sort (xs ++ zs) s₁ ∧
    Frozen p (zs.flatMap Round.responses) s.entry s₁.entry)
    ⟨by rwa [List.append_nil], .refl p s.entry⟩ hkeep hrun).2

/-- A client whose socket has been reported is locked out for good, on whatever socket it connects
again: it stays bound to that socket, none of its requests is passed on, and every response for it is
handed to the socket, in whose buffer it stays. -/
theorem locked_out (hreports : Guarded (step sort) Reports new xs) (hrun : xs.foldlM (step sort) new = .ok s)
    (hp : p ∈ s.tcpServer.disconnectedSockets) (hreports' : Guarded (step sort) Reports s ys)
    (hrun' : ys.foldlM (step sort) s = .ok s') :
    (∀ c, s.entry.cidTcpSocket c = some p → s'.entry.cidTcpSocket c = some p ∧
      s'.entry.forwardedOf c = s.entry.forwardedOf c) ∧
      ∃ written, s'.entry.written = s.entry.written ++ written ∧
        written.map (·.2.2) = ys.flatMap Round.responses ∧
        (∀ w ∈ written, s.entry.cidTcpSocket w.2.2.clientId = some p → w.1 = p) ∧
        (s'.entry.sockets p).sendBuffer = (s.entry.sockets p).sendBuffer ++ pile p written := by
  have htraced := hreports.history traced_new (fun _ _ _ _ h hx hs ↦ h.step hx hs) hrun
  have hfrozen := htraced.frozen hp hreports' hrun'
  exact ⟨fun c hc ↦ ⟨hfrozen.bound c hc, hfrozen.passed c hc⟩, hfrozen.piled⟩

def connectsAgain : List Round :=
  [oneArrives [⟨listenerSocket, true, false, false, false⟩] 1 2 (OrderEntry.order 2)
    [⟨.ACCEPTED, 3, 0, 1, 1, .BUY, 100, 0, 10⟩]]

theorem locked_out_connects_again : ∃ s s', hangsUp.foldlM (step id) new = .ok s ∧
    connectsAgain.foldlM (step id) s = .ok s' ∧ s'.tcpServer.sockets = [2] ∧
      s'.entry.cidTcpSocket 3 = some 1 ∧ (s'.entry.forwardedOf 3).length = 1 ∧
      s'.entry.written = s.entry.written ++ [(1, 1, ⟨.ACCEPTED, 3, 0, 1, 1, .BUY, 100, 0, 10⟩)] ∧
      (s'.entry.sockets 1).sendBuffer = (s.entry.sockets 1).sendBuffer ++
        Layout.omClientResponse.encode ⟨1, ⟨.ACCEPTED, 3, 0, 1, 1, .BUY, 100, 0, 10⟩⟩ := by
  obtain ⟨s, hrun, hp, hbound, hone, hreports, hagain⟩ := Yields.exists_ok (show
    Yields (hangsUp.foldlM (step id) new) fun s ↦ 1 ∈ s.tcpServer.disconnectedSockets ∧
      s.entry.cidTcpSocket 3 = some 1 ∧ (s.entry.forwardedOf 3).length = 1 ∧
      Guarded (step id) Reports s connectsAgain ∧
      Yields (connectsAgain.foldlM (step id) s) fun s' ↦ s'.tcpServer.sockets = [2] ∧
        s'.entry.written = s.entry.written ++ [(1, 1, ⟨.ACCEPTED, 3, 0, 1, 1, .BUY, 100, 0, 10⟩)] by
    decide +kernel)
  obtain ⟨s', hrun', hsockets, hwritten⟩ := hagain.exists_ok
  obtain ⟨hclients, written, hmore, -, -, hpile⟩ :=
    locked_out (by decide +kernel) hrun hp hreports hrun'
  obtain ⟨hstays, hpassed⟩ := hclients 3 hbound
  obtain rfl := List.append_cancel_left (hmore.symm.trans hwritten)
  exact ⟨s, s', hrun, hrun', hsockets, hstays, by rw [hpassed, hone], hwritten, hpile⟩

end LockOut

end ServerLoop

end LowLatency.Exchange
