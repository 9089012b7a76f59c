import LowLatency.Common.Types

namespace LowLatency.Common

def McastBufferSize : ℕ := 64 * 1024 * 1024

/-- The outgoing side of `McastSocket`: the buffer up to its valid index, and the packets that have
been handed to the kernel. -/
structure McastSender where
  outboundData : List UInt8
  packets : List (List UInt8)
  deriving DecidableEq, Repr

namespace McastSender

def new : McastSender := ⟨[], []⟩

/-- The assertion comes after the copy, which is not checked. -/
def send (s : McastSender) (data : List UInt8) : Except Fault McastSender :=
  if s.outboundData.length + data.length > McastBufferSize then .error .outOfBounds
  else if s.outboundData.length + data.length < McastBufferSize then
    .ok { s with outboundData := s.outboundData ++ data }
  else .error (.assertion "Mcast socket buffer filled up and sendAndRecv() not called.")

/-- Whatever the kernel answers, the buffer is empty afterwards. -/
def sendAndRecv (s : McastSender) : McastSender :=
  { outboundData := []
    packets := if s.outboundData = [] then s.packets else s.packets ++ [s.outboundData] }

def placed (s : McastSender) : List UInt8 := s.packets.flatten ++ s.outboundData

variable {s s' : McastSender} {data : List UInt8}

theorem placed_sendAndRecv (s : McastSender) : s.sendAndRecv.placed = s.placed := by
  unfold placed sendAndRecv
  split_ifs with h <;> simp [h]

theorem placed_append (s : McastSender) (data : List UInt8) :
    ({ s with outboundData := s.outboundData ++ data } : McastSender).placed = s.placed ++ data :=
  (List.append_assoc ..).symm

theorem send_of_room (h : s.outboundData.length + data.length < McastBufferSize) :
    s.send data = .ok { s with outboundData := s.outboundData ++ data } := by
  rw [send, if_neg h.not_gt, if_pos h]

theorem send_ok (h : s.send data = .ok s') :
    s.outboundData.length + data.length < McastBufferSize ∧
      s' = { s with outboundData := s.outboundData ++ data } := by
  unfold send at h
  split_ifs at h with hover hroom
  exact ⟨hroom, (Except.ok.inj h).symm⟩

end McastSender

end LowLatency.Common
