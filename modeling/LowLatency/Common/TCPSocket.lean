import LowLatency.Common.Types

namespace LowLatency.Common

abbrev Nanos := ℤ

def TCPBufferSize : ℕ := 64 * 1024 * 1024

/-- The outcome of the kernel's `send`: the number of bytes it has taken, or the error. -/
inductive SendResult
  | sent (n : ℕ)
  | wouldBlock
  | failed
  deriving DecidableEq, Repr

structure TCPSocket where
  sendBuffer : List UInt8
  recvBuffer : List UInt8
  sendDisconnected : Bool
  deriving DecidableEq, Repr

namespace TCPSocket

def new : TCPSocket := ⟨[], [], false⟩

/-- The index into the buffer is not checked. -/
def send (s : TCPSocket) (data : List UInt8) : Except Fault TCPSocket :=
  if s.sendBuffer.length + data.length ≤ TCPBufferSize then
    .ok { s with sendBuffer := s.sendBuffer ++ data }
  else .error .outOfBounds

/-- What `recvmsg` takes of the bytes that have arrived, if it is handed `n` of them. -/
def received (s : TCPSocket) (n : ℕ) (arrived : List UInt8) : List UInt8 :=
  arrived.take (min n (TCPBufferSize - s.recvBuffer.length))

/-- The part of `sendAndRecv` before the call of the callback. -/
def receive (s : TCPSocket) (chunk : List UInt8) : TCPSocket :=
  { s with recvBuffer := s.recvBuffer ++ chunk }

/-- The part of `sendAndRecv` after the call of the callback, with the bytes that the kernel has
taken. The loop is left after one call of `send`. -/
def flush (s : TCPSocket) (result : SendResult) : Except Fault (TCPSocket × List UInt8) :=
  if s.sendBuffer = [] then .ok (s, [])
  else match result with
  | .sent n =>
    if n = s.sendBuffer.length then .ok ({ s with sendBuffer := [] }, s.sendBuffer)
    else .error (.assertion "Don't support partial send lengths yet.")
  | .wouldBlock => .ok ({ s with sendBuffer := [] }, [])
  | .failed => .ok ({ s with sendBuffer := [], sendDisconnected := true }, [])

variable {s : TCPSocket} {data : List UInt8}

theorem received_append (s : TCPSocket) (n : ℕ) (arrived : List UInt8) :
    s.received n arrived ++ arrived.drop (s.received n arrived).length = arrived :=
  List.prefix_iff_eq_append.mp (List.take_prefix _ arrived)

theorem send_of_room (h : s.sendBuffer.length + data.length ≤ TCPBufferSize) :
    s.send data = .ok { s with sendBuffer := s.sendBuffer ++ data } := if_pos h

theorem send_bind_send {α : Type} {a b : List UInt8}
    (h : s.sendBuffer.length + (a.length + b.length) ≤ TCPBufferSize) (f : TCPSocket → Except Fault α) :
    (s.send a >>= fun s' ↦ s'.send b >>= f) = f { s with sendBuffer := s.sendBuffer ++ (a ++ b) } := by
  rw [send_of_room (by omega), ok_bind, send_of_room, ok_bind, List.append_assoc]
  rw [List.length_append]
  omega

theorem flush_returns {result : SendResult} (h : ∀ n, result = .sent n → n = s.sendBuffer.length) :
    ∃ s' taken, s.flush result = .ok (s', taken) := by
  unfold flush
  split_ifs
  · exact ⟨s, [], rfl⟩
  · cases result with
    | sent n => exact ⟨_, _, if_pos (h n rfl)⟩
    | wouldBlock | failed => exact ⟨_, _, rfl⟩

theorem flush_sent (s : TCPSocket) :
    s.flush (.sent s.sendBuffer.length) = .ok ({ s with sendBuffer := [] }, s.sendBuffer) := by
  unfold flush
  split_ifs with h
  · cases s
    cases h
    rfl
  · simp

end TCPSocket

end LowLatency.Common
