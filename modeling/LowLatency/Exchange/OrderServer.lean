import LowLatency.Exchange.Messages

namespace LowLatency.Exchange

open Common Function

/-- The tables that `OrderServer` keeps of its clients, indexed without a check, and what it has
handed to their sockets. -/
structure OrderServer where
  cidNextOutgoingSeqNum : ClientId → ℕ
  cidTcpSocket : ClientId → Option Ptr
  written : List (Ptr × ℕ × MEClientResponse)

namespace OrderServer

/-- The body of the loop of `run` over the outgoing responses. -/
def processResponse (v : OrderServer) (r : MEClientResponse) : Except Fault OrderServer :=
  let clientId := r.clientId
  if clientId < ME_MAX_NUM_CLIENTS then
    match v.cidTcpSocket clientId with
    | none => .error (.assertion ("Don't have a TCPSocket for ClientId:" ++ toString clientId))
    | some socket =>
      let nextOutgoingSeqNum := v.cidNextOutgoingSeqNum clientId
      .ok { v with
        written := v.written ++ [(socket, nextOutgoingSeqNum, r)]
        cidNextOutgoingSeqNum :=
          update v.cidNextOutgoingSeqNum clientId ((nextOutgoingSeqNum + 1) % 2 ^ 64) }
  else .error .outOfBounds

def sendResponses (v : OrderServer) (rs : List MEClientResponse) : Except Fault OrderServer :=
  rs.foldlM processResponse v

def Bound (v : OrderServer) (clientId : ClientId) : Prop :=
  clientId < ME_MAX_NUM_CLIENTS ∧ (v.cidTcpSocket clientId).isSome

instance (v : OrderServer) : DecidablePred v.Bound := fun _ ↦ inferInstanceAs (Decidable (_ ∧ _))

variable {v v' : OrderServer} {r : MEClientResponse} {rs : List MEClientResponse}

theorem processResponse_of_bound (h : v.Bound r.clientId) :
    ∃ v', v.processResponse r = .ok v' ∧ v'.cidTcpSocket = v.cidTcpSocket := by
  obtain ⟨hlt, hsome⟩ := h
  obtain ⟨socket, hs⟩ := Option.isSome_iff_exists.mp hsome
  simp only [processResponse, if_pos hlt, hs]
  exact ⟨_, rfl, rfl⟩

theorem processResponse_cidTcpSocket (h : v.processResponse r = .ok v') :
    v'.cidTcpSocket = v.cidTcpSocket := by
  simp only [processResponse] at h
  split_ifs at h
  cases hs : v.cidTcpSocket r.clientId with
  | none =>
    rw [hs] at h
    cases h
  | some socket =>
    rw [hs] at h
    rw [← Except.ok.inj h]

theorem sendResponses_of_bound (h : ∀ r ∈ rs, v.Bound r.clientId) :
    ∃ v', v.sendResponses rs = .ok v' := by
  induction rs generalizing v with
  | nil => exact ⟨v, rfl⟩
  | cons r rs ih =>
    obtain ⟨v₁, hrun, hsame⟩ := processResponse_of_bound (h r List.mem_cons_self)
    obtain ⟨v', hv⟩ := ih (v := v₁) fun r' hr' ↦ by
      rw [Bound, hsame]
      exact h r' (List.mem_cons_of_mem r hr')
    refine ⟨v', ?_⟩
    rw [sendResponses, List.foldlM_cons, hrun]
    exact hv

end OrderServer

end LowLatency.Exchange
