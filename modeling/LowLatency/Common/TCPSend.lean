import LowLatency.Common.TCPSocket
import LowLatency.GuardedRun

namespace LowLatency.Common.TCPSocket

/-- The calls that concern the send buffer; the kernel either takes all of it or would block. -/
inductive SendCall
  | send (data : List UInt8)
  | sendAndRecv (blocked : Bool)
  deriving DecidableEq, Repr

def sendStep (s : TCPSocket × List UInt8) : SendCall → Except Fault (TCPSocket × List UInt8)
  | .send data => do
    let socket ← s.1.send data
    return (socket, s.2)
  | .sendAndRecv blocked => do
    let (socket, taken) ← s.1.flush (if blocked then .wouldBlock else .sent s.1.sendBuffer.length)
    return (socket, s.2 ++ taken)

def sentData (cs : List SendCall) : List UInt8 :=
  cs.flatMap fun
    | .send data => data
    | .sendAndRecv _ => []

def held (s : TCPSocket × List UInt8) : List UInt8 := s.2 ++ s.1.sendBuffer

def HasRoom (s : TCPSocket × List UInt8) : SendCall → Prop
  | .send data => s.1.sendBuffer.length + data.length ≤ TCPBufferSize
  | .sendAndRecv _ => True

/-- The kernel does not block while bytes are pending. -/
def Unblocked (s : TCPSocket × List UInt8) : SendCall → Prop
  | .send _ => True
  | .sendAndRecv blocked => blocked = true → s.1.sendBuffer = []

variable {s : TCPSocket × List UInt8} {c : SendCall} {cs : List SendCall}

theorem sendStep_unblocked (hroom : HasRoom s c) (h : Unblocked s c) :
    ∃ s', sendStep s c = .ok s' ∧ held s' = held s ++ sentData [c] := by
  cases c with
  | send data =>
    refine ⟨_, by rw [sendStep, send_of_room hroom]; rfl, ?_⟩
    simp [held, sentData]
  | sendAndRecv blocked =>
    cases blocked with
    | true =>
      have hnil : s.1.sendBuffer = [] := h rfl
      have hflush : s.1.flush .wouldBlock = .ok (s.1, []) := if_pos hnil
      refine ⟨(s.1, s.2 ++ []), ?_, by simp [held, sentData]⟩
      simp only [sendStep, if_true, hflush, ok_bind]
      rfl
    | false =>
      refine ⟨_, by simp only [sendStep, Bool.false_eq_true, if_false, flush_sent, ok_bind]; rfl, ?_⟩
      simp [held, sentData]

theorem sendStep_blocked (h : ¬ Unblocked s c) :
    ∃ s', sendStep s c = .ok s' ∧ (held s').length < (held s ++ sentData [c]).length := by
  cases c with
  | send data => exact absurd trivial h
  | sendAndRecv blocked =>
    obtain ⟨rfl, hpending⟩ := not_forall.mp h
    have hpos := List.length_pos_iff.mpr hpending
    refine ⟨_, by simp only [sendStep, if_true, flush, if_neg hpending, ok_bind]; rfl, ?_⟩
    simp only [held, sentData, List.length_append, List.length_nil, List.flatMap_singleton]
    omega

theorem sendStep_returns (hroom : HasRoom s c) :
    ∃ s', sendStep s c = .ok s' ∧ (held s').length ≤ (held s ++ sentData [c]).length := by
  by_cases h : Unblocked s c
  · obtain ⟨s', hc, hheld⟩ := sendStep_unblocked hroom h
    exact ⟨s', hc, hheld ▸ le_rfl⟩
  · obtain ⟨s', hc, hlt⟩ := sendStep_blocked h
    exact ⟨s', hc, hlt.le⟩

theorem sendRun_length_le (h : Guarded sendStep HasRoom s cs) :
    ∃ s', cs.foldlM sendStep s = .ok s' ∧ (held s').length ≤ (held s ++ sentData cs).length := by
  induction cs generalizing s with
  | nil => exact ⟨s, rfl, by simp [sentData]⟩
  | cons c cs ih =>
    obtain ⟨s₁, hc, hle⟩ := sendStep_returns h.head
    obtain ⟨s', hrun, hle'⟩ := ih ((Guarded.cons_ok hc).mp h).2
    refine ⟨s', by rw [List.foldlM_cons, hc]; exact hrun, ?_⟩
    simp only [sentData, List.length_append, List.flatMap_cons, List.flatMap_nil,
      List.append_nil] at hle hle' ⊢
    omega

theorem sendRun_iff (h : Guarded sendStep HasRoom s cs) :
    ∃ s', cs.foldlM sendStep s = .ok s' ∧
      (held s' = held s ++ sentData cs ↔ Guarded sendStep Unblocked s cs) := by
  induction cs generalizing s with
  | nil => exact ⟨s, rfl, iff_of_true (by simp [sentData]) trivial⟩
  | cons c cs ih =>
    have hsplit : sentData (c :: cs) = sentData [c] ++ sentData cs := by
      simp [sentData]
    rw [List.foldlM_cons]
    by_cases hc : Unblocked s c
    · obtain ⟨s₁, hstep, hheld⟩ := sendStep_unblocked h.head hc
      obtain ⟨s', hrun, hiff⟩ := ih ((Guarded.cons_ok hstep).mp h).2
      refine ⟨s', by rw [hstep]; exact hrun, ?_⟩
      rw [Guarded.cons_ok hstep, hsplit, ← List.append_assoc, ← hheld, hiff]
      exact (and_iff_right hc).symm
    · obtain ⟨s₁, hstep, hlt⟩ := sendStep_blocked hc
      obtain ⟨s', hrun, hle⟩ := sendRun_length_le ((Guarded.cons_ok hstep).mp h).2
      refine ⟨s', by rw [hstep]; exact hrun, iff_of_false (fun heq ↦ ?_) fun hg ↦ hc hg.head⟩
      rw [heq, hsplit] at hle
      simp only [List.length_append] at hle hlt
      omega

/-- No byte is lost exactly if the kernel never blocks while bytes are pending. -/
theorem nothing_lost_iff (h : Guarded sendStep HasRoom (new, []) cs) :
    ∃ s, cs.foldlM sendStep (new, []) = .ok s ∧
      (s.2 ++ s.1.sendBuffer = sentData cs ↔ Guarded sendStep Unblocked (new, []) cs) :=
  sendRun_iff h

instance (s : TCPSocket × List UInt8) : DecidablePred (HasRoom s) := fun c ↦ by
  cases c <;> unfold HasRoom <;> infer_instance

instance (s : TCPSocket × List UInt8) : DecidablePred (Unblocked s) := fun c ↦ by
  unfold Unblocked
  cases c <;> infer_instance

def idleCalls : List SendCall := [.send [1, 2], .sendAndRecv false, .sendAndRecv true, .send [3]]

theorem nothing_lost_idle : ∃ s, idleCalls.foldlM sendStep (new, []) = .ok s ∧
    s.2 ++ s.1.sendBuffer = [1, 2, 3] := by
  have hroom : Guarded sendStep HasRoom (new, []) idleCalls := by decide +kernel
  obtain ⟨s, hrun, hiff⟩ := nothing_lost_iff hroom
  exact ⟨s, hrun, hiff.mpr (by decide +kernel)⟩

def blockedCalls : List SendCall := [.send [1, 2], .sendAndRecv true, .send [3]]

theorem blocked_send_drops : Guarded sendStep HasRoom (new, []) blockedCalls ∧
    ∃ s, blockedCalls.foldlM sendStep (new, []) = .ok s ∧ s.2 ++ s.1.sendBuffer = [3] ∧
      s.2 ++ s.1.sendBuffer ≠ sentData blockedCalls :=
  ⟨by decide +kernel, _, rfl, rfl, by decide⟩

end LowLatency.Common.TCPSocket
