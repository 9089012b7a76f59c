import LowLatency.Exchange.Sequencing

namespace LowLatency.Exchange.OrderEntry

open Common Function

/-- The request comes on a socket other than that of its client, or under a number other than the one
that is expected of the client. -/
structure Drops (v : OrderEntry) (p : Ptr) (m : OMClientRequest) : Prop where
  inRange : m.meClientRequest.clientId < ME_MAX_NUM_CLIENTS
  mismatch : (∃ q ≠ p, v.cidTcpSocket m.meClientRequest.clientId = some q) ∨
    m.seqNum ≠ v.cidNextExpSeqNum m.meClientRequest.clientId

def Accepts (v : OrderEntry) (p : Ptr) (rxTime : Nanos) (m : OMClientRequest) : Prop :=
  ∃ v', onRequest p rxTime v m = .ok v' ∧ v'.forwarded = v.forwarded ++ [(p, m)]

/-- The tables of the clients and the sequencer are as before the request, and the first request of
its client, from whatever socket, is accepted as before. -/
structure Traceless (v v' : OrderEntry) (m : OMClientRequest) : Prop where
  socket : v'.cidTcpSocket = v.cidTcpSocket
  exp : v'.cidNextExpSeqNum = v.cidNextExpSeqNum
  outgoing : v'.cidNextOutgoingSeqNum = v.cidNextOutgoingSeqNum
  sequencer : v'.fifoSequencer = v.fifoSequencer
  first : ∀ q rxTime m', m'.meClientRequest.clientId = m.meClientRequest.clientId →
    v.cidTcpSocket m.meClientRequest.clientId = none → v.Accepts q rxTime m' →
    v'.Accepts q rxTime m'

variable {v v' : OrderEntry} {p q : Ptr} {c : ClientId} {rxTime : Nanos} {m : OMClientRequest}
  {sort : List RecvTimeClientRequest → List RecvTimeClientRequest} {es : List Event}

theorem Drops.onRequest_eq (h : v.Drops p m) (rxTime : Nanos) :
    onRequest p rxTime v m = .ok (v.bind m.meClientRequest.clientId p) := by
  apply onRequest_dropped h.inRange
  intro ⟨hsocket, hseq⟩
  rcases h.mismatch with ⟨q, hne, hq⟩ | hne
  · rw [bind_of_eq_some hq] at hsocket
    exact hne (Option.some.inj hsocket)
  · exact hne hseq

theorem bind_of_bound (h : v.cidTcpSocket c ≠ none) : v.bind c p = v := if_neg h

theorem bind_unbound (h : v.cidTcpSocket c = none) : (v.bind c p).cidTcpSocket c = some p :=
  bind_self (.inl h)

theorem Accepts.socket (h : v.Accepts p rxTime m) (hq : v.cidTcpSocket m.meClientRequest.clientId = some q) :
    q = p := by
  obtain ⟨v', hrun, hforwarded⟩ := h
  obtain ⟨-, -, -, -, hsame⟩ := bind_frame v m.meClientRequest.clientId p
  rcases onRequest_cases hrun with rfl | ⟨hsocket, -, -⟩
  · rw [hsame] at hforwarded
    simp at hforwarded
  · rw [bind_of_eq_some hq] at hsocket
    exact Option.some.inj hsocket

section Bound

theorem bound_onRequest (h : v.cidTcpSocket c = some q) (hrun : onRequest p rxTime v m = .ok v') :
    v'.cidTcpSocket c = some q := by
  rcases onRequest_cases hrun with rfl | ⟨-, -, rfl⟩
  · exact bind_of_eq_some h
  · exact bind_of_eq_some h

theorem bound_step {e : Event} (h : v.cidTcpSocket c = some q) (hrun : v.step sort e = .ok v') :
    v'.cidTcpSocket c = some q := by
  cases e with
  | sendAndRecv p chunk rxTime result =>
    exact invariant_sendAndRecv (fun _ _ _ h ↦ bound_onRequest h) (fun _ _ h ↦ h) h hrun
  | publish => exact Except.ok.inj hrun ▸ h
  | response r => exact (congrFun (sendResponse_frame hrun).2.2.2 c).trans h

theorem bound_of_run (h : v.cidTcpSocket c = some q) (hrun : es.foldlM (step sort) v = .ok v') :
    v'.cidTcpSocket c = some q :=
  run_invariant (I := fun v ↦ v.cidTcpSocket c = some q) (fun _ _ _ h hrun ↦ bound_step h hrun) h hrun

end Bound

/-- A dropped request leaves no trace if and only if its client has a socket already. Otherwise the
client is bound to the socket of the dropped request, and in no later state of any run is one of its
requests accepted from another socket. -/
theorem leaves_no_trace_iff (h : v.Drops p m) (rxTime : Nanos) :
    ((∃ v', onRequest p rxTime v m = .ok v' ∧ Traceless v v' m) ↔
      v.cidTcpSocket m.meClientRequest.clientId ≠ none) ∧
    (v.cidTcpSocket m.meClientRequest.clientId = none →
      ∃ v₁, onRequest p rxTime v m = .ok v₁ ∧
        ∀ (es : List Event) (v₂ : OrderEntry) q rxTime' m', es.foldlM (step sort) v₁ = .ok v₂ → q ≠ p →
          m'.meClientRequest.clientId = m.meClientRequest.clientId → ¬ v₂.Accepts q rxTime' m') := by
  have hrun := h.onRequest_eq rxTime
  refine ⟨⟨fun ⟨v', hv', hsame⟩ hnone ↦ ?_, fun hbound ↦ ?_⟩, fun hnone ↦ ⟨_, hrun, ?_⟩⟩
  · obtain rfl := Except.ok.inj (hrun.symm.trans hv')
    have hsocket := congrFun hsame.socket m.meClientRequest.clientId
    rw [bind_unbound hnone, hnone] at hsocket
    cases hsocket
  · rw [bind_of_bound hbound] at hrun
    exact ⟨v, hrun, rfl, rfl, rfl, rfl, fun _ _ _ _ _ ↦ id⟩
  · intro es v₂ q rxTime' m' hes hne hclient haccepts
    have hsocket := bound_of_run (bind_unbound hnone) hes
    rw [← hclient] at hsocket
    exact hne (haccepts.socket hsocket).symm

theorem leaves_no_trace_other_socket :
    ∃ v', onRequest 2 5 (new.bind 3 1) ⟨1, ⟨.NEW, 3, 0, 1, .BUY, 100, 10⟩⟩ = .ok v' ∧
      Traceless (new.bind 3 1) v' ⟨1, ⟨.NEW, 3, 0, 1, .BUY, 100, 10⟩⟩ :=
  (@leaves_no_trace_iff (new.bind 3 1) 2 _ id ⟨by decide, .inl ⟨1, by decide, rfl⟩⟩ 5).1.mpr
    (show (new.bind 3 1).cidTcpSocket 3 ≠ none by
      rw [bind_unbound rfl]
      exact Option.some_ne_none 1)

/-- A message with the number 7 and the id of a client that has not connected yet. The client's own
first request, which would have been accepted, is not accepted any more. -/
theorem stray_request_binds : ∃ v, new.receive 2 (order 7) 5 = .ok v ∧ v.forwarded = [] ∧
    v.cidTcpSocket 3 ≠ new.cidTcpSocket 3 ∧
    new.Accepts 1 6 ⟨1, ⟨.NEW, 3, 0, 1, .BUY, 100, 10⟩⟩ ∧
    ¬ v.Accepts 1 6 ⟨1, ⟨.NEW, 3, 0, 1, .BUY, 100, 10⟩⟩ := by
  obtain ⟨v, hrun, hforwarded, hsocket⟩ := Yields.exists_ok (show Yields (new.receive 2 (order 7) 5)
    fun v ↦ v.forwarded = [] ∧ v.cidTcpSocket 3 = some 2 by decide +kernel)
  refine ⟨v, hrun, hforwarded, by rw [hsocket]; exact Option.some_ne_none 2, ⟨_, rfl, rfl⟩, fun haccepts ↦ ?_⟩
  cases haccepts.socket hsocket

end LowLatency.Exchange.OrderEntry
