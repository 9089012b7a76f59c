import LowLatency.Common.Types

namespace LowLatency.Common

/-- What the operating system answers to the calls that set sockets up, by the number of the call. -/
structure Os where
  createSocket : ℕ → ℤ
  join : ℕ → Bool
  strerror : ℕ → String

structure Group where
  ip : String
  port : ℕ
  deriving DecidableEq, Repr

structure McastSocket where
  socketFd : ℤ
  /-- What the descriptor was created for. -/
  bound : Option Group
  /-- The address that was joined with this descriptor. -/
  joined : Option String
  deriving DecidableEq, Repr

namespace McastSocket

def new : McastSocket := ⟨-1, none, none⟩

def init (s : McastSocket) (os : Os) (call : ℕ) (group : Group) : McastSocket :=
  { s with socketFd := os.createSocket call, bound := some group, joined := none }

def join (s : McastSocket) (ip : String) : McastSocket := { s with joined := some ip }

def leave (_ : McastSocket) : McastSocket := ⟨-1, none, none⟩

def Subscribed (s : McastSocket) (group : Group) : Prop :=
  0 ≤ s.socketFd ∧ s.bound = some group ∧ s.joined = some group.ip

instance (s : McastSocket) (group : Group) : Decidable (s.Subscribed group) :=
  inferInstanceAs (Decidable (_ ∧ _))

/-- A socket is initialised and joined, or the process ends with one of the two messages. -/
def subscribe (s : McastSocket) (os : Os) (call : ℕ) (group : Group) (msg : String) :
    Except Fault McastSocket :=
  let s := s.init os call group
  if ¬ 0 ≤ s.socketFd then .error (.assertion (msg ++ " error:" ++ os.strerror call))
  else if os.join call then .ok (s.join group.ip)
  else .error (.assertion ("Join failed on: " ++ toString s.socketFd ++ " error: " ++ os.strerror call))

theorem subscribe_ok {s s' : McastSocket} {os : Os} {call : ℕ} {group : Group} {msg : String}
    (h : s.subscribe os call group msg = .ok s') : s'.Subscribed group := by
  simp only [subscribe] at h
  split_ifs at h with hfd hjoin
  · obtain rfl := Except.ok.inj h
    exact ⟨hfd, rfl, rfl⟩

end McastSocket

end LowLatency.Common
