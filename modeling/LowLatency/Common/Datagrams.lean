import LowLatency.Common.McastSender
import LowLatency.Framing

namespace LowLatency.Common.McastSender

variable {M : Type} (P : Packed M)

/-- A message is placed in the buffer, and `sendAndRecv` is called if it says so. -/
def sendItem (s : McastSender) (item : M × Bool) : Except Fault McastSender := do
  let s ← s.send (P.encode item.1)
  return if item.2 then s.sendAndRecv else s

/-- The messages of each datagram; `pending` are those in the buffer. -/
def datagrams : List M → List (M × Bool) → List (List M)
  | _, [] => []
  | pending, (m, true) :: items => (pending ++ [m]) :: datagrams [] items
  | pending, (m, false) :: items => datagrams (pending ++ [m]) items

def unsent : List M → List (M × Bool) → List M
  | pending, [] => pending
  | _, (_, true) :: items => unsent [] items
  | pending, (m, false) :: items => unsent (pending ++ [m]) items

def unflushed (items : List (M × Bool)) : ℕ := items.countP (¬ ·.2)

variable {P} {s : McastSender} {pending : List M} {items : List (M × Bool)}

theorem datagrams_flatten (pending : List M) (items : List (M × Bool)) :
    (datagrams pending items).flatten ++ unsent pending items = pending ++ items.map Prod.fst := by
  induction items generalizing pending with
  | nil => simp [datagrams, unsent]
  | cons item items ih =>
    obtain ⟨m, flush⟩ := item
    cases flush with
    | true =>
      rw [datagrams, unsent, List.flatten_cons, List.append_assoc, ih, List.nil_append, List.append_assoc]
      rfl
    | false => simp only [datagrams, unsent, ih, List.append_assoc, List.map_cons, List.singleton_append]

theorem unsent_concat (pending : List M) (items : List (M × Bool)) (m : M) :
    unsent pending (items ++ [(m, true)]) = [] := by
  induction items generalizing pending with
  | nil => rfl
  | cons item items ih =>
    obtain ⟨m', flush⟩ := item
    cases flush <;> exact ih _

theorem length_datagrams (pending : List M) (items : List (M × Bool)) :
    (datagrams pending items).length = items.countP (·.2) := by
  induction items generalizing pending with
  | nil => rfl
  | cons item items ih =>
    obtain ⟨m, flush⟩ := item
    cases flush with
    | true => simp [datagrams, ih]
    | false => simp [datagrams, ih]

theorem mem_datagrams {k : ℕ} (h : pending.length + unflushed items ≤ k) :
    ∀ d ∈ datagrams pending items, 0 < d.length ∧ d.length ≤ k + 1 := by
  induction items generalizing pending with
  | nil => exact fun d hd ↦ by cases hd
  | cons item items ih =>
    obtain ⟨m, flush⟩ := item
    cases flush with
    | true =>
      have hrest : unflushed ((m, true) :: items) = unflushed items := by simp [unflushed]
      rw [hrest] at h
      intro d hd
      rcases List.mem_cons.mp hd with rfl | hd
      · rw [List.length_append]
        exact ⟨Nat.succ_pos _, Nat.succ_le_succ ((Nat.le_add_right _ _).trans h)⟩
      · have hempty : ([] : List M).length + unflushed items ≤ k :=
          (Nat.add_le_add_right (Nat.zero_le _) _).trans h
        exact ih hempty d hd
    | false =>
      have hrest : unflushed ((m, false) :: items) = unflushed items + 1 := by simp [unflushed]
      rw [hrest] at h
      refine ih ?_
      rw [List.length_append, List.length_singleton]
      omega

theorem sendItem_of_room (hpos : 0 < P.size) (hbuffer : s.outboundData = P.stream pending)
    (hroom : (pending.length + 1) * P.size < McastBufferSize) (m : M) (flush : Bool) :
    s.sendItem P (m, flush) = .ok (if flush then ⟨[], s.packets ++ [P.stream (pending ++ [m])]⟩
      else ⟨P.stream (pending ++ [m]), s.packets⟩) := by
  have hlength : s.outboundData.length + (P.encode m).length < McastBufferSize := by
    rwa [hbuffer, P.length_stream, P.length_encode, ← Nat.succ_mul]
  have hstream : P.stream pending ++ P.encode m = P.stream (pending ++ [m]) := by simp [Packed.stream]
  have hne : P.stream (pending ++ [m]) ≠ [] := by
    refine List.ne_nil_of_length_pos ?_
    rw [P.length_stream, List.length_append]
    exact Nat.mul_pos (Nat.succ_pos _) hpos
  rw [sendItem, send_of_room hlength, ok_bind, hbuffer, hstream]
  cases flush with
  | true => exact congrArg _ (congrArg (McastSender.mk []) (if_neg hne))
  | false => rfl

/-- As long as the messages after which the socket is not flushed have room in the buffer, the rest
is sent, in these datagrams. -/
theorem foldlM_sendItem {k : ℕ} (hk : (k + 1) * P.size < McastBufferSize) (hpos : 0 < P.size)
    (hbuffer : s.outboundData = P.stream pending) (h : pending.length + unflushed items ≤ k) :
    items.foldlM (sendItem P) s = .ok
      ⟨P.stream (unsent pending items), s.packets ++ (datagrams pending items).map P.stream⟩ := by
  induction items generalizing s pending with
  | nil =>
    obtain ⟨outboundData, packets⟩ := s
    obtain rfl : outboundData = P.stream pending := hbuffer
    rw [datagrams, unsent, List.map_nil, List.append_nil]
    rfl
  | cons item items ih =>
    obtain ⟨m, flush⟩ := item
    have hroom : (pending.length + 1) * P.size < McastBufferSize :=
      (Nat.mul_le_mul_right _ (Nat.succ_le_succ ((Nat.le_add_right _ _).trans h))).trans_lt hk
    rw [List.foldlM_cons, sendItem_of_room hpos hbuffer hroom, ok_bind]
    cases flush with
    | true =>
      have hrest : unflushed ((m, true) :: items) = unflushed items := by simp [unflushed]
      rw [hrest] at h
      have hempty : ([] : List M).length + unflushed items ≤ k :=
        (Nat.add_le_add_right (Nat.zero_le _) _).trans h
      rw [if_pos rfl, ih rfl hempty, unsent, datagrams, List.map_cons, List.append_assoc]
      rfl
    | false =>
      have hrest : unflushed ((m, false) :: items) = unflushed items + 1 := by simp [unflushed]
      rw [hrest] at h
      have hlength : (pending ++ [m]).length + unflushed items ≤ k := by
        rw [List.length_append, List.length_singleton]
        omega
      exact ih (s := ⟨P.stream (pending ++ [m]), s.packets⟩) rfl hlength

end LowLatency.Common.McastSender
