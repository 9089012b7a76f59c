import LowLatency.Common.LFQueue

namespace LowLatency.Common

/-- `unwritten` is what the one thread has yet to write. `inHand` tells whether the other has got hold of
the element at the read index, whose slot it releases later. -/
structure Passage (T : Type) where
  unwritten : List T
  queue : LFQueue T
  inHand : Bool

namespace Passage

variable {T : Type}

def new (n : ℕ) (init : T) : Passage T := ⟨[], .new n init, false⟩

def produce (p : Passage T) (xs : List T) : Passage T := { p with unwritten := p.unwritten ++ xs }

def write (p : Passage T) : Passage T :=
  match p.unwritten with
  | [] => p
  | x :: xs => { p with unwritten := xs, queue := p.queue.write x }

def send (p : Passage T) (x : T) : Passage T := (p.produce [x]).write

def next (p : Passage T) : Except Fault (Option T) :=
  match p.queue.getNextToRead with
  | none => .ok none
  | some slot => (p.queue.element slot).map some

def take (p : Passage T) : Passage T := { p with inHand := true }

def release (pthreadSelf : ℕ) (p : Passage T) : Except Fault (Passage T) := do
  let queue ← p.queue.updateReadIndex pthreadSelf
  return { p with queue := queue, inHand := false }

def HasRoom (p : Passage T) : Prop := p.unwritten ≠ [] → p.queue.size < p.queue.store.length

def Quiet (p : Passage T) : Prop := p.unwritten = [] ∧ p.inHand = false ∧ p.queue.size = 0

instance : DecidablePred (HasRoom (T := T)) := fun p ↦
  decidable_of_iff (p.unwritten.isEmpty = false → p.queue.size < p.queue.store.length) (by simp [HasRoom])

instance : DecidablePred (Quiet (T := T)) := fun p ↦
  decidable_of_iff (p.unwritten.isEmpty ∧ p.inHand = false ∧ p.queue.size = 0) (by simp [Quiet])

/-- Of what the one thread has to write in all, the other has got hold of the first elements. -/
def Passes (n : ℕ) (produced taken : List T) (p : Passage T) : Prop :=
  ∃ written k, produced = written ++ p.unwritten ∧ p.queue.Holds n written k ∧
    k + p.inHand.toNat ≤ written.length ∧ taken = written.take (k + p.inHand.toNat)

variable {n pthreadSelf : ℕ} {produced taken : List T} {x : T} {p p' : Passage T}

theorem passes_new (n : ℕ) (init : T) : (new n init).Passes n [] [] :=
  ⟨[], 0, rfl, LFQueue.holds_new n init, le_rfl, rfl⟩

namespace Passes

theorem produce {produced' : List T} (h : p.Passes n produced taken) (hmore : produced <+: produced') :
    (p.produce (produced'.drop produced.length)).Passes n produced' taken := by
  obtain ⟨more, rfl⟩ := hmore
  obtain ⟨written, k, rfl, hqueue, hle, htaken⟩ := h
  refine ⟨written, k, ?_, hqueue, hle, htaken⟩
  rw [List.drop_left]
  exact List.append_assoc ..

theorem write (h : p.Passes n produced taken) (hn : 0 < n) (hn' : n < 2 ^ 64) (hroom : p.HasRoom) :
    p.write.Passes n produced taken := by
  obtain ⟨unwritten, queue, inHand⟩ := p
  cases unwritten with
  | nil => exact h
  | cons x xs =>
    obtain ⟨written, k, rfl, hqueue, hle, rfl⟩ := h
    have hsize : queue.numElements < n := (hroom (List.cons_ne_nil x xs)).trans_eq hqueue.capacity
    have hnum : queue.numElements + k = written.length := hqueue.numElements
    refine ⟨written ++ [x], k, List.append_cons .., hqueue.write hn hn' (by omega), ?_, ?_⟩
    · rw [List.length_append]
      exact hle.trans (Nat.le_add_right _ _)
    · exact (List.take_append_of_le_length hle).symm

theorem send (h : p.Passes n produced taken) (hn : 0 < n) (hn' : n < 2 ^ 64)
    (hroom : (p.produce [x]).HasRoom) : (p.send x).Passes n (produced ++ [x]) taken := by
  have hmore : (produced ++ [x]).drop produced.length = [x] := List.drop_left
  have h' := h.produce (List.prefix_append produced [x])
  rw [hmore] at h'
  exact h'.write hn hn' hroom

theorem take (h : p.Passes n produced taken) (hfree : p.inHand = false) (hnext : p.next = .ok (some x)) :
    p.take.Passes n produced (taken ++ [x]) := by
  obtain ⟨written, k, hproduced, hqueue, -, rfl⟩ := h
  unfold next at hnext
  cases hslot : p.queue.getNextToRead with
  | none =>
    rw [hslot] at hnext
    cases hnext
  | some slot =>
    obtain ⟨rfl, hlt, -⟩ := hqueue.eq_of_getNextToRead hslot
    rw [hslot] at hnext
    dsimp only at hnext
    rw [LFQueue.element_of_slot (hqueue.slot hlt)] at hnext
    obtain rfl := Option.some.inj (Except.ok.inj hnext)
    refine ⟨written, k, hproduced, hqueue, hlt, ?_⟩
    rw [hfree]
    exact List.take_concat_get' written k hlt

theorem release (h : p.Passes n produced taken) (hheld : p.inHand = true)
    (hrelease : p.release pthreadSelf = .ok p') : p'.Passes n produced taken := by
  obtain ⟨written, k, hproduced, hqueue, hle, htaken⟩ := h
  obtain ⟨queue, hupdate, hrelease⟩ := bind_eq_ok hrelease
  obtain rfl := Except.ok.inj hrelease
  rw [hheld] at hle htaken
  obtain ⟨queue', hupdate', hcounts, hstore⟩ := hqueue.updateReadIndex pthreadSelf hle
  obtain rfl := Except.ok.inj (hupdate'.symm.trans hupdate)
  exact ⟨written, k + 1, hproduced, ⟨hcounts, hstore ▸ hqueue.slots.mono k.le_succ⟩, hle, htaken⟩

theorem taken_prefix (h : p.Passes n produced taken) : taken <+: produced := by
  obtain ⟨written, k, rfl, -, -, rfl⟩ := h
  exact (List.take_prefix _ _).trans (List.prefix_append _ _)

theorem eq_of_quiet (h : p.Passes n produced taken) (hquiet : p.Quiet) : taken = produced := by
  obtain ⟨written, k, rfl, hqueue, -, rfl⟩ := h
  obtain ⟨hunwritten, hfree, hsize⟩ := hquiet
  have hnum := hqueue.numElements
  rw [show p.queue.numElements = 0 from hsize, Nat.zero_add] at hnum
  rw [hunwritten, hfree, hnum, List.append_nil]
  exact List.take_length

end Passes

def Unused (p : Passage T) : Prop := ∃ n init, p = new n init

namespace Unused

theorem next (h : p.Unused) : p.next = .ok none := by
  obtain ⟨n, init, rfl⟩ := h
  rfl

theorem unwritten (h : p.Unused) : p.unwritten = [] := by
  obtain ⟨n, init, rfl⟩ := h
  rfl

theorem inHand (h : p.Unused) : p.inHand = false := by
  obtain ⟨n, init, rfl⟩ := h
  rfl

theorem produce (h : p.Unused) : (p.produce []).Unused := by
  obtain ⟨n, init, rfl⟩ := h
  exact ⟨n, init, rfl⟩

end Unused

end Passage

end LowLatency.Common
