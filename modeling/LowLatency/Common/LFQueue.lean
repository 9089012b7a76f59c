import LowLatency.Common.Types
import LowLatency.GuardedRun
import LowLatency.RingSlots

namespace LowLatency.Common

/-- A pointer to an element is the index of its slot. -/
structure LFQueue (T : Type) where
  store : List T
  nextWriteIndex : ℕ
  nextReadIndex : ℕ
  numElements : ℕ
  deriving DecidableEq, Repr

namespace LFQueue

variable {T : Type}

def new (numElems : ℕ) (init : T) : LFQueue T := ⟨List.replicate numElems init, 0, 0, 0⟩

def getNextToWriteTo (q : LFQueue T) : ℕ := q.nextWriteIndex

def assign (q : LFQueue T) (slot : ℕ) (x : T) : LFQueue T := { q with store := q.store.set slot x }

def updateWriteIndex (q : LFQueue T) : LFQueue T :=
  { q with
    nextWriteIndex := (q.nextWriteIndex + 1) % q.store.length
    numElements := (q.numElements + 1) % 2 ^ 64 }

def getNextToRead (q : LFQueue T) : Option ℕ :=
  if q.nextReadIndex = q.nextWriteIndex then none else some q.nextReadIndex

def element (q : LFQueue T) (slot : ℕ) : Except Fault T :=
  match q.store[slot]? with
  | some x => .ok x
  | none => .error .outOfBounds

/-- The text of the failed assertion names the thread. -/
def updateReadIndex (pthreadSelf : ℕ) (q : LFQueue T) : Except Fault (LFQueue T) :=
  let q := { q with nextReadIndex := (q.nextReadIndex + 1) % q.store.length }
  if q.numElements ≠ 0 then .ok { q with numElements := q.numElements - 1 }
  else .error (.assertion ("Read and invalid element in: " ++ toString pthreadSelf))

def size (q : LFQueue T) : ℕ := q.numElements

def unread (q : LFQueue T) : List T :=
  (List.range q.numElements).filterMap fun i ↦ q.store[(q.nextReadIndex + i) % q.store.length]?

/-- A complete write or read. -/
inductive Access (T : Type)
  | write (x : T)
  | read
  deriving DecidableEq, Repr

def write (q : LFQueue T) (x : T) : LFQueue T := (q.assign q.getNextToWriteTo x).updateWriteIndex

def read (pthreadSelf : ℕ) (q : LFQueue T) : Except Fault (LFQueue T × T) :=
  match q.getNextToRead with
  | none => .error .nullPointer
  | some slot => do
    let x ← q.element slot
    let q ← q.updateReadIndex pthreadSelf
    return (q, x)

def writes (q : LFQueue T) (xs : List T) : LFQueue T := xs.foldl write q

def step (pthreadSelf : ℕ) (s : LFQueue T × List T) : Access T → Except Fault (LFQueue T × List T)
  | .write x => .ok (s.1.write x, s.2)
  | .read => do
    let (q, x) ← s.1.read pthreadSelf
    return (q, s.2 ++ [x])

def written (cs : List (Access T)) : List T :=
  cs.filterMap fun
    | .write x => some x
    | .read => none

def reads (cs : List (Access T)) : ℕ :=
  cs.countP fun
    | .write _ => false
    | .read => true

def Within (n : ℕ) (cs : List (Access T)) : Prop :=
  ∀ cs', cs' <+: cs → reads cs' ≤ (written cs').length ∧ (written cs').length ≤ reads cs' + n

/-- What has been read is what was written first, and the queue looks empty if it is. -/
structure Delivers (cs : List (Access T)) (s : LFQueue T × List T) : Prop where
  received : s.2 = (written cs).take (reads cs)
  null_iff : s.1.getNextToRead = none ↔ s.1.size = 0
  size_iff : s.1.size = 0 ↔ (written cs).length = reads cs

/-- The write index has been advanced `w` times, and the read index `r` times. -/
structure Counts (n w r : ℕ) (q : LFQueue T) : Prop where
  capacity : q.store.length = n
  nextWriteIndex : q.nextWriteIndex = w % n
  nextReadIndex : q.nextReadIndex = r % n
  numElements : q.numElements + r = w

/-- The queue has been written `xs`, of which `r` elements have been read. -/
structure Holds (n : ℕ) (xs : List T) (r : ℕ) (q : LFQueue T) : Prop extends
    Counts n xs.length r q where
  slots : InSlots q.store xs r

variable {q q' : LFQueue T} {n w r : ℕ} {xs : List T} {x : T} {pthreadSelf : ℕ}

namespace Counts

theorem le (h : q.Counts n w r) : r ≤ w := Nat.le.intro ((Nat.add_comm r _).trans h.numElements)

theorem assign (h : q.Counts n w r) (slot : ℕ) (x : T) : (q.assign slot x).Counts n w r :=
  ⟨(List.length_set ..).trans h.capacity, h.nextWriteIndex, h.nextReadIndex, h.numElements⟩

theorem updateWriteIndex (h : q.Counts n w r) (hn' : n < 2 ^ 64) (hroom : w < r + n) :
    q.updateWriteIndex.Counts n (w + 1) r := by
  have hnum := h.numElements
  refine ⟨h.capacity, ?_, h.nextReadIndex, ?_⟩
  · change (q.nextWriteIndex + 1) % q.store.length = _
    rw [h.capacity, h.nextWriteIndex, Nat.mod_add_mod]
  · change (q.numElements + 1) % 2 ^ 64 + r = _
    rw [Nat.mod_eq_of_lt] <;> omega

theorem updateReadIndex (h : q.Counts n w r) (pthreadSelf : ℕ) (hr : r < w) : ∃ q',
    q.updateReadIndex pthreadSelf = .ok q' ∧ q'.Counts n w (r + 1) ∧ q'.store = q.store := by
  have hnum := h.numElements
  have hpos : q.numElements ≠ 0 := by omega
  refine ⟨_, if_pos hpos, ⟨h.capacity, h.nextWriteIndex, ?_, ?_⟩, rfl⟩
  · change (q.nextReadIndex + 1) % q.store.length = _
    rw [h.capacity, h.nextReadIndex, Nat.mod_add_mod]
  · change q.numElements - 1 + (r + 1) = w
    omega

/-- The queue looks empty also if it is full. -/
theorem getNextToRead_eq_none_iff (h : q.Counts n w r) (hn : 0 < n) (hroom : w ≤ r + n) :
    q.getNextToRead = none ↔ w = r ∨ w = r + n := by
  rw [← mod_eq_mod_iff hn h.le hroom, ← h.nextReadIndex, ← h.nextWriteIndex, getNextToRead]
  split_ifs with hsame
  · exact iff_of_true rfl hsame
  · exact iff_of_false (by simp) hsame

theorem eq_of_getNextToRead (h : q.Counts n w r) {slot : ℕ} (hsome : q.getNextToRead = some slot) :
    slot = r % n ∧ r < w ∧ w ≠ r + n := by
  unfold getNextToRead at hsome
  split_ifs at hsome with hsame
  rw [h.nextReadIndex, h.nextWriteIndex] at hsame
  refine ⟨(Option.some.inj hsome).symm.trans h.nextReadIndex, lt_of_le_of_ne h.le ?_, ?_⟩
  · exact fun heq ↦ hsame (congrArg (· % n) heq)
  · exact fun heq ↦ hsame (by rw [heq, Nat.add_mod_right])

end Counts

theorem element_of_slot {slot : ℕ} (h : q.store[slot]? = some x) : q.element slot = .ok x := by
  rw [element, h]

theorem writes_cons (q : LFQueue T) (x : T) (xs : List T) :
    q.writes (x :: xs) = (q.write x).writes xs := rfl

theorem writes_append (q : LFQueue T) (xs ys : List T) :
    q.writes (xs ++ ys) = (q.writes xs).writes ys := List.foldl_append

theorem holds_new (n : ℕ) (init : T) : (new n init).Holds n [] 0 where
  capacity := List.length_replicate
  nextWriteIndex := (Nat.zero_mod n).symm
  nextReadIndex := (Nat.zero_mod n).symm
  numElements := rfl
  slots := inSlots_nil _ _

namespace Holds

theorem slot (h : q.Holds n xs r) (hr : r < xs.length) : q.store[r % n]? = some xs[r] := by
  rw [← List.getElem?_eq_getElem hr, ← h.slots.getElem? hr, h.capacity]

theorem unread_eq_drop (h : q.Holds n xs r) : q.unread = xs.drop r := by
  have hnum := h.numElements
  have hindex (i : ℕ) : (q.nextReadIndex + i) % q.store.length = (r + i) % q.store.length := by
    rw [h.nextReadIndex, ← h.capacity, Nat.mod_add_mod]
  simp only [unread, hindex]
  rw [h.slots.walk (by omega), List.take_of_length_le]
  rw [List.length_drop]
  omega

theorem write (h : q.Holds n xs r) (hn : 0 < n) (hn' : n < 2 ^ 64) (hroom : xs.length < r + n) :
    (q.write x).Holds n (xs ++ [x]) r := by
  have hcounts := (h.assign q.nextWriteIndex x).updateWriteIndex hn' hroom
  have hset := h.slots.set (x := x) (h.capacity ▸ hn) (h.capacity ▸ hroom)
  have hslot := getElem?_set_slot (h.capacity ▸ hn) xs.length x
  rw [h.capacity, ← h.nextWriteIndex] at hset hslot
  refine ⟨List.length_append ▸ hcounts, hset.concat ?_⟩
  rw [List.length_set, h.capacity, ← h.nextWriteIndex]
  exact hslot

theorem writes {ys : List T} (h : q.Holds n xs r) (hn' : n < 2 ^ 64)
    (hroom : xs.length + ys.length ≤ r + n) : (q.writes ys).Holds n (xs ++ ys) r := by
  induction ys generalizing q xs with
  | nil =>
    rw [List.append_nil]
    exact h
  | cons y ys ih =>
    have hle := h.le
    rw [List.length_cons] at hroom
    rw [List.append_cons, writes_cons]
    apply ih (h.write (by omega) hn' (by omega))
    rw [List.length_append, List.length_singleton]
    omega

theorem read (h : q.Holds n xs r) (pthreadSelf : ℕ) (hn : 0 < n) (hr : r < xs.length)
    (hroom : xs.length < r + n) :
    ∃ q', q.read pthreadSelf = .ok (q', xs[r]) ∧ q'.Holds n xs (r + 1) := by
  obtain ⟨slot, hsome⟩ : ∃ slot, q.getNextToRead = some slot := by
    apply Option.ne_none_iff_exists'.mp
    intro hnone
    rcases (h.getNextToRead_eq_none_iff hn hroom.le).mp hnone with heq | heq <;> omega
  obtain ⟨rfl, -, -⟩ := h.eq_of_getNextToRead hsome
  obtain ⟨q', hupdate, hcounts, hstore⟩ := h.updateReadIndex pthreadSelf hr
  refine ⟨q', ?_, hcounts, hstore ▸ h.slots.mono r.le_succ⟩
  simp only [LFQueue.read, hsome, element_of_slot (h.slot hr), hupdate, ok_bind, pure_eq_ok]

end Holds

section Run

variable {cs : List (Access T)} {c : Access T} {s s' : LFQueue T × List T} {init : T}

theorem written_concat (cs : List (Access T)) (c : Access T) :
    written (cs ++ [c]) = written cs ++ written [c] := List.filterMap_append

theorem reads_concat (cs : List (Access T)) (c : Access T) :
    reads (cs ++ [c]) = reads cs + reads [c] := List.countP_append

theorem Within.of_prefix {ds : List (Access T)} (h : Within n cs) (hds : ds <+: cs) : Within n ds :=
  fun cs' hcs' ↦ h cs' (hcs'.trans hds)

structure Served (n : ℕ) (cs : List (Access T)) (s : LFQueue T × List T) : Prop where
  holds : s.1.Holds n (written cs) (reads cs)
  received : s.2 = (written cs).take (reads cs)

theorem Served.step (h : Served n cs s) (pthreadSelf : ℕ) (hn : 0 < n) (hn' : n < 2 ^ 64)
    (hw : Within n (cs ++ [c])) (hread : c = .read → (written cs).length < reads cs + n) :
    ∃ s', step pthreadSelf s c = .ok s' ∧ Served n (cs ++ [c]) s' := by
  obtain ⟨hle, hroom⟩ := hw _ List.prefix_rfl
  cases c with
  | write x =>
    have hwritten : written (cs ++ [.write x]) = written cs ++ [x] := written_concat cs _
    have hreads : reads (cs ++ [.write x]) = reads cs := reads_concat cs _
    rw [hwritten, hreads, List.length_append, List.length_singleton] at hroom
    have hkept := h.holds.le
    refine ⟨_, rfl, ?_, ?_⟩
    · rw [hwritten, hreads]
      exact h.holds.write hn hn' hroom
    · rw [hwritten, hreads, List.take_append_of_le_length hkept]
      exact h.received
  | read =>
    have hwritten : written (cs ++ [.read]) = written cs :=
      (written_concat cs _).trans (List.append_nil _)
    have hreads : reads (cs ++ [.read]) = reads cs + 1 := reads_concat cs _
    rw [hwritten, hreads] at hle
    obtain ⟨q', hrun, hholds⟩ := h.holds.read pthreadSelf hn hle (hread rfl)
    refine ⟨(q', s.2 ++ [(written cs)[reads cs]]), ?_, ?_, ?_⟩
    · simp only [LFQueue.step, hrun, ok_bind, pure_eq_ok]
    · rw [hwritten, hreads]
      exact hholds
    · rw [hwritten, hreads, h.received, List.take_concat_get']

theorem served_new (n : ℕ) (init : T) : Served n [] (new n init, []) := ⟨holds_new n init, rfl⟩

theorem room_of_read (h : Served n cs s) (hn : 0 < n) (hroom : (written cs).length ≤ reads cs + n)
    (hrun : LFQueue.step pthreadSelf s .read = .ok s') : (written cs).length < reads cs + n := by
  apply lt_of_le_of_ne hroom
  intro hfull
  have hnone := (h.holds.getNextToRead_eq_none_iff hn hroom).mpr (.inr hfull)
  obtain ⟨_, hread, -⟩ := bind_eq_ok hrun
  rw [LFQueue.read, hnone] at hread
  cases hread

theorem served_of_run (hn : 0 < n) (hn' : n < 2 ^ 64) (hw : Within n cs)
    (hrun : cs.foldlM (step pthreadSelf) (new n init, []) = .ok s) : Served n cs s := by
  have h := run_history (I := fun cs s ↦ Within n cs → Served n cs s)
    (fun _ ↦ served_new n init) ?_ hrun
  · exact h hw
  · intro cs c s₁ s₂ h hc hw
    have hcs := hw.of_prefix (List.prefix_append cs [c])
    have hs := h hcs
    obtain ⟨s₂', hc', hserved⟩ := hs.step pthreadSelf hn hn' hw fun hread ↦
      room_of_read hs hn (hcs cs List.prefix_rfl).2 (hread ▸ hc)
    rw [hc] at hc'
    exact Except.ok.inj hc' ▸ hserved

theorem run_of_room (init : T) (pthreadSelf : ℕ) (hn : 0 < n) (hn' : n < 2 ^ 64) (hw : Within n cs)
    (hroom : ∀ cs', cs' <+: cs → (written cs').length < reads cs' + n) :
    ∃ s, cs.foldlM (step pthreadSelf) (new n init, []) = .ok s ∧ Served n cs s := by
  induction cs using List.reverseRecOn with
  | nil => exact ⟨_, rfl, served_new n init⟩
  | append_singleton cs c ih =>
    have hcs := List.prefix_append cs [c]
    obtain ⟨s, hrun, hs⟩ := ih (hw.of_prefix hcs) fun cs' hcs' ↦ hroom cs' (hcs'.trans hcs)
    obtain ⟨s', hc, hs'⟩ := hs.step pthreadSelf hn hn' hw fun _ ↦ hroom cs hcs
    exact ⟨s', (foldlM_concat _ _ cs c hrun).trans hc, hs'⟩

/-- The queue delivers as long as it is not full: with `n` unread elements it looks empty. -/
theorem delivers_iff (hn : 0 < n) (hn' : n < 2 ^ 64) (hw : Within n cs) (init : T)
    (pthreadSelf : ℕ) :
    (∀ cs', cs' <+: cs → ∃ s, cs'.foldlM (step pthreadSelf) (new n init, []) = .ok s ∧
      Delivers cs' s) ↔
    ∀ cs', cs' <+: cs → (written cs').length < reads cs' + n := by
  constructor
  · intro h cs' hcs'
    obtain ⟨s, hrun, hs⟩ := h cs' hcs'
    have hserved := served_of_run hn hn' (hw.of_prefix hcs') hrun
    have hroom := (hw cs' hcs').2
    apply lt_of_le_of_ne hroom
    intro hfull
    have hnone := (hserved.holds.getNextToRead_eq_none_iff hn hroom).mpr (.inr hfull)
    have hempty := hs.size_iff.mp (hs.null_iff.mp hnone)
    omega
  · intro h cs' hcs'
    obtain ⟨s, hrun, hs⟩ := run_of_room init pthreadSelf hn hn'
      (hw.of_prefix hcs') fun cs'' hcs'' ↦ h cs'' (hcs''.trans hcs')
    have hroom := h cs' hcs'
    have hnum := hs.holds.numElements
    have hsize : s.1.size = 0 ↔ (written cs').length = reads cs' := by
      rw [size]
      omega
    refine ⟨s, hrun, hs.received, ?_, hsize⟩
    rw [hsize, hs.holds.getNextToRead_eq_none_iff hn hroom.le]
    omega

theorem forall_prefix_iff {α : Type} {P : List α → Prop} {l : List α} :
    (∀ l', l' <+: l → P l') ↔ ∀ l' ∈ l.inits, P l' := by
  simp only [List.mem_inits]

instance (n : ℕ) (cs : List (Access T)) : Decidable (Within n cs) :=
  decidable_of_iff _ forall_prefix_iff.symm

def aroundCalls : List (Access ℕ) := [.write 5, .read, .write 6, .read, .write 7]

theorem delivers_around : ∃ s, aroundCalls.foldlM (step 1) (new 2 0, []) = .ok s ∧
    Delivers aroundCalls s :=
  (delivers_iff (by decide) (by decide) (by decide) 0 1).mpr (forall_prefix_iff.mpr (by decide))
    aroundCalls List.prefix_rfl

/-- Two elements fill the ring, and the next read finds none. -/
theorem full_looks_empty : Within 2 [Access.write 5, .write 6] ∧
    ∃ s, [Access.write 5, .write 6].foldlM (step 1) (new 2 0, []) = .ok s ∧
      s.1.getNextToRead = none ∧ s.1.size = 2 ∧ ¬ Delivers [Access.write 5, .write 6] s := by
  refine ⟨by decide, _, rfl, rfl, rfl, fun h ↦ ?_⟩
  cases h.null_iff.mp rfl

end Run

end LFQueue

end LowLatency.Common
