import LowLatency.Common.TCPSocket
import LowLatency.Exchange.Messages

namespace LowLatency.Exchange

open Common

def ME_MAX_PENDING_REQUESTS : ℕ := 1024

structure RecvTimeClientRequest where
  recvTime : Nanos
  request : MEClientRequest
  deriving DecidableEq, Repr

/-- The requests up to `m_pending_size`, and all that has been written to the queue. -/
structure FIFOSequencer where
  pendingClientRequests : List RecvTimeClientRequest
  incomingRequests : List MEClientRequest

namespace FIFOSequencer

def addClientRequest (f : FIFOSequencer) (rxTime : Nanos) (request : MEClientRequest) :
    Except Fault FIFOSequencer :=
  if f.pendingClientRequests.length ≥ ME_MAX_PENDING_REQUESTS then
    .error (.fatal "Too many pending requests")
  else .ok { f with pendingClientRequests := f.pendingClientRequests ++ [⟨rxTime, request⟩] }

/-- `sort` stands for `std::sort`, which may order requests of the same time as it likes. -/
def sequenceAndPublish (sort : List RecvTimeClientRequest → List RecvTimeClientRequest)
    (f : FIFOSequencer) : FIFOSequencer :=
  if f.pendingClientRequests = [] then f
  else
    { pendingClientRequests := []
      incomingRequests :=
        f.incomingRequests ++ (sort f.pendingClientRequests).map RecvTimeClientRequest.request }

theorem addClientRequest_of_room {f : FIFOSequencer} {rxTime : Nanos} {request : MEClientRequest}
    (h : f.pendingClientRequests.length < ME_MAX_PENDING_REQUESTS) :
    f.addClientRequest rxTime request =
      .ok { f with pendingClientRequests := f.pendingClientRequests ++ [⟨rxTime, request⟩] } :=
  if_neg (Nat.not_le.mpr h)

theorem eq_of_addClientRequest {f f' : FIFOSequencer} {rxTime : Nanos} {request : MEClientRequest}
    (h : f.addClientRequest rxTime request = .ok f') :
    f' = { f with pendingClientRequests := f.pendingClientRequests ++ [⟨rxTime, request⟩] } := by
  unfold addClientRequest at h
  split_ifs at h
  exact (Except.ok.inj h).symm

end FIFOSequencer

end LowLatency.Exchange
