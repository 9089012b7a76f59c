import LowLatency.Common.LFQueue

namespace LowLatency.Common.LFQueue

variable {T : Type}

/-- How far the producer is with `getNextToWriteTo`, the store of the element `x` and
`updateWriteIndex`. -/
inductive Producer (T : Type)
  | idle
  | hasSlot (slot : ℕ)
  | hasStored (x : T)
  | hasLoaded (x : T) (index : ℕ)
  | hasPublished
  deriving DecidableEq, Repr

/-- How far the consumer is with `getNextToRead`, the use of the element and `updateReadIndex`. -/
inductive Consumer
  | idle
  | hasCompared (index : ℕ)
  | mayRead
  | hasSlot (slot : ℕ)
  | hasUsed
  | hasLoaded (index : ℕ)
  | hasReleased
  | hasAsserted
  deriving DecidableEq, Repr

def Producer.uncounted : Producer T → ℕ
  | .hasPublished => 1
  | _ => 0

def Consumer.undeducted : Consumer → ℕ
  | .hasReleased | .hasAsserted => 1
  | _ => 0

/-- `published` and `released` say how often the indices have been advanced. -/
structure Threads (T : Type) where
  queue : LFQueue T
  producer : Producer T
  consumer : Consumer
  published : List T
  released : ℕ
  received : List T

/-- The next access of one of the threads to an atomic member or to an element; `x` is what the producer
has to store. -/
inductive Move (T : Type)
  | producer (x : T)
  | consumer
  deriving DecidableEq, Repr

namespace Threads

def start (n : ℕ) (init : T) : Threads T := ⟨.new n init, .idle, .idle, [], 0, []⟩

def produce (t : Threads T) (x : T) : Threads T :=
  match t.producer with
  | .idle => { t with producer := .hasSlot t.queue.nextWriteIndex }
  | .hasSlot slot => { t with queue := t.queue.assign slot x, producer := .hasStored x }
  | .hasStored x => { t with producer := .hasLoaded x t.queue.nextWriteIndex }
  | .hasLoaded x index =>
    { t with
      queue := { t.queue with nextWriteIndex := (index + 1) % t.queue.store.length }
      producer := .hasPublished
      published := t.published ++ [x] }
  | .hasPublished =>
    { t with
      queue := { t.queue with numElements := (t.queue.numElements + 1) % 2 ^ 64 }
      producer := .idle }

def consume (pthreadSelf : ℕ) (t : Threads T) : Except Fault (Threads T) :=
  match t.consumer with
  | .idle => .ok { t with consumer := .hasCompared t.queue.nextReadIndex }
  | .hasCompared index =>
    .ok { t with consumer := if index = t.queue.nextWriteIndex then .idle else .mayRead }
  | .mayRead => .ok { t with consumer := .hasSlot t.queue.nextReadIndex }
  | .hasSlot slot => do
    let x ← t.queue.element slot
    return { t with consumer := .hasUsed, received := t.received ++ [x] }
  | .hasUsed => .ok { t with consumer := .hasLoaded t.queue.nextReadIndex }
  | .hasLoaded index =>
    .ok { t with
      queue := { t.queue with nextReadIndex := (index + 1) % t.queue.store.length }
      consumer := .hasReleased
      released := t.released + 1 }
  | .hasReleased =>
    if t.queue.numElements ≠ 0 then .ok { t with consumer := .hasAsserted }
    else .error (.assertion ("Read and invalid element in: " ++ toString pthreadSelf))
  | .hasAsserted =>
    .ok { t with
      queue := { t.queue with numElements := t.queue.numElements - 1 }
      consumer := .idle }

def step (pthreadSelf : ℕ) (t : Threads T) : Move T → Except Fault (Threads T)
  | .producer x => .ok (t.produce x)
  | .consumer => t.consume pthreadSelf

theorem produce_alone {t : Threads T} (h : t.producer = .idle) (x : T) :
    (((((t.produce x).produce x).produce x).produce x).produce x) =
      { t with queue := t.queue.write x, published := t.published ++ [x] } := by
  simp only [produce, h]
  rfl

theorem consume_alone {pthreadSelf : ℕ} {t : Threads T} (h : t.consumer = .idle) {q : LFQueue T}
    {x : T} (hread : t.queue.read pthreadSelf = .ok (q, x)) :
    (List.replicate 8 Move.consumer).foldlM (step pthreadSelf) t =
      .ok { t with queue := q, released := t.released + 1, received := t.received ++ [x] } := by
  unfold LFQueue.read getNextToRead at hread
  by_cases hsame : t.queue.nextReadIndex = t.queue.nextWriteIndex
  · rw [if_pos hsame] at hread
    cases hread
  · rw [if_neg hsame] at hread
    obtain ⟨y, helement, hread⟩ := bind_eq_ok hread
    obtain ⟨q', hupdate, hread⟩ := bind_eq_ok hread
    obtain ⟨rfl, rfl⟩ := Prod.mk.inj (Except.ok.inj hread)
    unfold updateReadIndex at hupdate
    by_cases hpos : t.queue.numElements ≠ 0
    · obtain rfl := Except.ok.inj ((if_pos hpos).symm.trans hupdate)
      simp only [List.replicate, List.foldlM_cons, List.foldlM_nil, step, consume, h, ok_bind,
        if_neg hsame, helement, pure_eq_ok, if_pos hpos]
    · cases (if_neg hpos).symm.trans hupdate

def HasRoom (n : ℕ) (t : Threads T) : Move T → Prop
  | .producer _ => match t.producer with
    | .hasLoaded _ _ => t.published.length + 1 < t.released + n
    | _ => True
  | .consumer => True

/-- The consumer has released all there is, and the producer has not counted the last of it. -/
def Uncounted (t : Threads T) : Prop :=
  t.consumer = .hasReleased ∧ t.published.length = t.released ∧ match t.producer with
    | .hasPublished => True
    | _ => False

def Counted (t : Threads T) : Move T → Prop
  | .producer _ => True
  | .consumer => ¬ t.Uncounted

def ProducerOk (n : ℕ) (t : Threads T) : Prop :=
  match t.producer with
  | .idle | .hasPublished => True
  | .hasSlot slot => slot = t.published.length % n
  | .hasStored x => t.queue.store[t.published.length % n]? = some x
  | .hasLoaded x index =>
    index = t.published.length % n ∧ t.queue.store[t.published.length % n]? = some x

def ConsumerOk (n : ℕ) (t : Threads T) : Prop :=
  match t.consumer with
  | .idle | .hasReleased => t.received = t.published.take t.released
  | .hasCompared index => index = t.released % n ∧ t.received = t.published.take t.released
  | .mayRead => t.released < t.published.length ∧ t.received = t.published.take t.released
  | .hasSlot slot => slot = t.released % n ∧ t.released < t.published.length ∧
      t.received = t.published.take t.released
  | .hasUsed => t.released < t.published.length ∧
      t.received = t.published.take (t.released + 1)
  | .hasLoaded index => index = t.released % n ∧ t.released < t.published.length ∧
      t.received = t.published.take (t.released + 1)
  | .hasAsserted => t.queue.numElements ≠ 0 ∧ t.received = t.published.take t.released

structure Inv (n : ℕ) (t : Threads T) : Prop where
  capacity : t.queue.store.length = n
  nextWriteIndex : t.queue.nextWriteIndex = t.published.length % n
  nextReadIndex : t.queue.nextReadIndex = t.released % n
  numElements : t.queue.numElements + t.producer.uncounted + t.released =
    t.published.length + t.consumer.undeducted
  released_le : t.released ≤ t.published.length
  room : t.published.length < t.released + n
  slots : InSlots t.queue.store t.published t.released
  producer : ProducerOk n t
  consumer : ConsumerOk n t

variable {n pthreadSelf : ℕ} {t t' : Threads T} {x : T} {m : Move T} {ms : List (Move T)} {init : T}

theorem inv_start (hn : 0 < n) (init : T) : (start n init).Inv n where
  capacity := List.length_replicate
  nextWriteIndex := (Nat.zero_mod n).symm
  nextReadIndex := (Nat.zero_mod n).symm
  numElements := rfl
  released_le := le_rfl
  room := (Nat.zero_add n).symm ▸ hn
  slots := inSlots_nil _ _
  producer := trivial
  consumer := rfl

theorem ConsumerOk.publish (h : ConsumerOk n t) (hle : t.released ≤ t.published.length)
    (hnum : t.queue.numElements ≠ 0 → t'.queue.numElements ≠ 0)
    (hconsumer : t'.consumer = t.consumer) (hreleased : t'.released = t.released)
    (hreceived : t'.received = t.received) (hpublished : t.published <+: t'.published) :
    ConsumerOk n t' := by
  obtain ⟨more, hmore⟩ := hpublished
  have htake {k : ℕ} (hk : k ≤ t.published.length) :
      (t.published ++ more).take k = t.published.take k := List.take_append_of_le_length hk
  unfold ConsumerOk at h ⊢
  rw [hconsumer, hreleased, hreceived, ← hmore, List.length_append, htake hle]
  cases hc : t.consumer <;> simp only [hc] at h ⊢
  case idle | hasReleased | hasCompared => exact h
  case mayRead => exact ⟨by omega, h.2⟩
  case hasSlot => exact ⟨h.1, by omega, h.2.2⟩
  case hasUsed => exact ⟨by omega, htake (k := t.released + 1) (by omega) ▸ h.2⟩
  case hasLoaded => exact ⟨h.1, by omega, htake (k := t.released + 1) (by omega) ▸ h.2.2⟩
  case hasAsserted => exact ⟨hnum h.1, h.2⟩

theorem Inv.produce (h : t.Inv n) (hn : 0 < n) (hn' : n < 2 ^ 64) (hroom : HasRoom n t (.producer x)) :
    (t.produce x).Inv n := by
  have hnum := h.numElements
  have hproducer := h.producer
  unfold ProducerOk at hproducer
  unfold HasRoom at hroom
  unfold Threads.produce
  cases hp : t.producer <;> simp only [hp, Producer.uncounted] at hproducer hroom hnum ⊢
  case idle =>
    exact ⟨h.capacity, h.nextWriteIndex, h.nextReadIndex, hnum, h.released_le, h.room, h.slots,
      h.nextWriteIndex, h.consumer⟩
  case hasSlot slot =>
    have hlen : (t.queue.store.set slot x).length = n := (List.length_set ..).trans h.capacity
    have hset := h.slots.set (x := x) (h.capacity ▸ hn) (h.capacity ▸ h.room)
    have hslot := getElem?_set_slot (h.capacity ▸ hn) t.published.length x
    rw [h.capacity, ← hproducer] at hset hslot
    refine ⟨hlen, h.nextWriteIndex, h.nextReadIndex, hnum, h.released_le, h.room, hset, ?_,
      h.consumer⟩
    exact hproducer ▸ hslot
  case hasStored y =>
    exact ⟨h.capacity, h.nextWriteIndex, h.nextReadIndex, hnum, h.released_le, h.room, h.slots,
      ⟨h.nextWriteIndex, hproducer⟩, h.consumer⟩
  case hasLoaded y index =>
    obtain ⟨rfl, hslot⟩ := hproducer
    have hlen : (t.published ++ [y]).length = t.published.length + 1 := List.length_append
    refine ⟨h.capacity, ?_, h.nextReadIndex, ?_, ?_, hlen ▸ hroom, ?_, trivial, ?_⟩
    · rw [h.capacity, Nat.mod_add_mod, hlen]
    · rw [hlen]
      simp only [Producer.uncounted]
      omega
    · rw [hlen]
      exact h.released_le.trans (Nat.le_succ _)
    · exact h.slots.concat (h.capacity.symm ▸ hslot)
    · exact h.consumer.publish h.released_le id rfl rfl rfl (List.prefix_append _ _)
  case hasPublished =>
    have hle : t.consumer.undeducted ≤ 1 := by
      cases t.consumer <;> simp [Consumer.undeducted]
    have hmod : (t.queue.numElements + 1) % 2 ^ 64 = t.queue.numElements + 1 := by
      have := h.room
      exact Nat.mod_eq_of_lt (by omega)
    refine ⟨h.capacity, h.nextWriteIndex, h.nextReadIndex, ?_, h.released_le, h.room, h.slots,
      trivial, ?_⟩
    · simp only [Producer.uncounted, hmod]
      omega
    · refine h.consumer.publish h.released_le (fun _ ↦ ?_) rfl rfl rfl List.prefix_rfl
      simp only [hmod]
      omega

theorem ProducerOk.congr (h : ProducerOk n t) (hproducer : t'.producer = t.producer)
    (hstore : t'.queue.store = t.queue.store) (hpublished : t'.published = t.published) :
    ProducerOk n t' := by
  unfold ProducerOk at h ⊢
  rw [hproducer, hstore, hpublished]
  exact h

theorem Inv.numElements_ne_zero (h : t.Inv n) (hc : t.consumer = .hasReleased)
    (hcounted : ¬ t.Uncounted) : t.queue.numElements ≠ 0 := by
  intro hzero
  have hnum := h.numElements
  have hreleased := h.released_le
  rw [hzero, hc] at hnum
  simp only [Consumer.undeducted] at hnum
  cases hp : t.producer <;> rw [hp] at hnum <;> simp only [Producer.uncounted] at hnum
  case hasPublished => exact hcounted ⟨hc, by omega, by rw [hp]; trivial⟩
  all_goals omega

theorem Inv.turn (h : t.Inv n) (hqueue : t'.queue = t.queue) (hproducer : t'.producer = t.producer)
    (hpublished : t'.published = t.published) (hreleased : t'.released = t.released)
    (hdue : t'.consumer.undeducted = t.consumer.undeducted) (hconsumer : ConsumerOk n t') :
    t'.Inv n := by
  obtain ⟨hcap, hwrite, hread, hnum, hle, hroom, hslots, hprod, -⟩ := h
  refine ⟨?_, ?_, ?_, ?_, ?_, ?_, ?_, hprod.congr hproducer (by rw [hqueue]) hpublished, hconsumer⟩ <;>
    simpa only [hqueue, hpublished, hreleased, hproducer, hdue]

theorem Inv.consume (h : t.Inv n) (hcounted : ¬ t.Uncounted) :
    ∃ t', t.consume pthreadSelf = .ok t' ∧ t'.Inv n := by
  have hnum := h.numElements
  have hconsumer := h.consumer
  unfold ConsumerOk at hconsumer
  unfold Threads.consume
  cases hc : t.consumer <;> simp only [hc, Consumer.undeducted] at hconsumer hnum ⊢
  case idle =>
    exact ⟨_, rfl, h.turn rfl rfl rfl rfl (by rw [hc]; rfl) ⟨h.nextReadIndex, hconsumer⟩⟩
  case hasCompared index =>
    obtain ⟨rfl, hreceived⟩ := hconsumer
    split_ifs with hsame
    · exact ⟨_, rfl, h.turn rfl rfl rfl rfl (by rw [hc]; rfl) hreceived⟩
    · have hne : t.released ≠ t.published.length := fun heq ↦ by
        rw [h.nextWriteIndex, heq] at hsame
        exact hsame rfl
      exact ⟨_, rfl, h.turn rfl rfl rfl rfl (by rw [hc]; rfl)
        ⟨lt_of_le_of_ne h.released_le hne, hreceived⟩⟩
  case mayRead =>
    exact ⟨_, rfl, h.turn rfl rfl rfl rfl (by rw [hc]; rfl) ⟨h.nextReadIndex, hconsumer⟩⟩
  case hasSlot slot =>
    obtain ⟨rfl, hlt, hreceived⟩ := hconsumer
    have hslot := h.slots.getElem? hlt
    rw [h.capacity, List.getElem?_eq_getElem hlt] at hslot
    rw [element_of_slot hslot, ok_bind]
    refine ⟨_, rfl, h.turn rfl rfl rfl rfl (by rw [hc]; rfl) ⟨hlt, ?_⟩⟩
    rw [hreceived, List.take_concat_get']
  case hasUsed =>
    exact ⟨_, rfl, h.turn rfl rfl rfl rfl (by rw [hc]; rfl) ⟨h.nextReadIndex, hconsumer⟩⟩
  case hasLoaded index =>
    obtain ⟨rfl, hlt, hreceived⟩ := hconsumer
    have hroom := h.room
    refine ⟨_, rfl, h.capacity, h.nextWriteIndex, ?_, ?_, hlt, ?_, h.slots.mono (Nat.le_succ _),
      h.producer.congr rfl rfl rfl, hreceived⟩
    · rw [h.capacity, Nat.mod_add_mod]
    · simp only [Consumer.undeducted]
      omega
    · change t.published.length < t.released + 1 + n
      omega
  case hasReleased =>
    rw [if_pos (h.numElements_ne_zero hc hcounted)]
    exact ⟨_, rfl, h.turn rfl rfl rfl rfl (by rw [hc]; rfl)
      ⟨h.numElements_ne_zero hc hcounted, hconsumer⟩⟩
  case hasAsserted =>
    obtain ⟨hpos, hreceived⟩ := hconsumer
    refine ⟨_, rfl, h.capacity, h.nextWriteIndex, h.nextReadIndex, ?_, h.released_le, h.room,
      h.slots, h.producer.congr rfl rfl rfl, hreceived⟩
    simp only [Consumer.undeducted]
    omega

theorem Inv.consume_uncounted (h : t.Inv n) (hu : t.Uncounted) : t.consume pthreadSelf =
    .error (.assertion ("Read and invalid element in: " ++ toString pthreadSelf)) := by
  obtain ⟨hc, hall, hp⟩ := hu
  have hnum := h.numElements
  have hzero : t.queue.numElements = 0 := by
    cases hp' : t.producer <;> simp only [hp'] at hp
    simp only [hp', hc, Producer.uncounted, Consumer.undeducted] at hnum
    omega
  simp only [Threads.consume, hc, hzero]
  rfl

theorem Inv.step (h : t.Inv n) (pthreadSelf : ℕ) (hn : 0 < n) (hn' : n < 2 ^ 64) (hroom : HasRoom n t m)
    (hcounted : Counted t m) : ∃ t', t.step pthreadSelf m = .ok t' ∧ t'.Inv n := by
  cases m with
  | producer x => exact ⟨_, rfl, h.produce hn hn' hroom⟩
  | consumer => exact h.consume hcounted

theorem Inv.received (h : t.Inv n) : t.received <+: t.published := by
  have hconsumer := h.consumer
  unfold ConsumerOk at hconsumer
  cases hc : t.consumer <;> simp only [hc] at hconsumer
  case idle | hasReleased => exact hconsumer ▸ List.take_prefix _ _
  case hasSlot | hasLoaded => exact hconsumer.2.2 ▸ List.take_prefix _ _
  all_goals exact hconsumer.2 ▸ List.take_prefix _ _

/-- Whatever the order of the steps, the consumer receives what the producer has published. -/
theorem received_of_run (hn : 0 < n) (hn' : n < 2 ^ 64)
    (h : Guarded (step pthreadSelf) (HasRoom n) (start n init) ms)
    (hrun : ms.foldlM (step pthreadSelf) (start n init) = .ok t) : t.received <+: t.published := by
  refine (h.invariant (I := Inv n) (fun t m t' hinv hroom hstep ↦ ?_) (inv_start hn init) hrun).received
  by_cases hcounted : Counted t m
  · obtain ⟨_, hok, hinv'⟩ := hinv.step pthreadSelf hn hn' hroom hcounted
    exact Except.ok.inj (hok.symm.trans hstep) ▸ hinv'
  · cases m with
    | producer x => exact absurd trivial hcounted
    | consumer => cases (hinv.consume_uncounted (not_not.mp hcounted)).symm.trans hstep

/-- The threads go on as long as the consumer does not come to the assertion for an element that
the producer has published but not counted. -/
theorem runs_iff_counted (hn : 0 < n) (hn' : n < 2 ^ 64) (init : T) (pthreadSelf : ℕ)
    (h : Guarded (step pthreadSelf) (HasRoom n) (start n init) ms) :
    (∃ t, ms.foldlM (step pthreadSelf) (start n init) = .ok t) ↔
      Guarded (step pthreadSelf) Counted (start n init) ms := by
  refine h.returns_iff (I := Inv n) (fun t m hinv hroom hcounted ↦ ?_) (fun t m hinv _ hu ↦ ?_)
    (inv_start hn init)
  · exact hinv.step pthreadSelf hn hn' hroom hcounted
  · cases m with
    | producer x => exact absurd trivial hu
    | consumer => exact ⟨_, hinv.consume_uncounted (not_not.mp hu)⟩

instance (t : Threads T) : Decidable t.Uncounted := by
  unfold Uncounted
  cases t.producer <;> infer_instance

instance (t : Threads T) : DecidablePred (Counted t) := fun m ↦ by
  cases m <;> unfold Counted <;> infer_instance

instance (n : ℕ) (t : Threads T) : DecidablePred (HasRoom n t) := fun m ↦ by
  unfold HasRoom
  cases m <;> cases t.producer <;> infer_instance

theorem runs_counted : ∃ t, (List.replicate 5 (Move.producer 7) ++
    List.replicate 8 Move.consumer).foldlM (step 1) (start 2 0) = .ok t :=
  (runs_iff_counted (by decide) (by decide) 0 1 (by decide)).mpr (by decide)

/-- The consumer overtakes the producer between its last two steps. -/
theorem assertion_fails : Guarded (step 1) (HasRoom 2) (start 2 0)
      (List.replicate 4 (Move.producer 7) ++ List.replicate 7 Move.consumer) ∧
    (List.replicate 4 (Move.producer 7) ++ List.replicate 7 Move.consumer).foldlM (step 1)
      (start 2 0) = .error (.assertion "Read and invalid element in: 1") :=
  ⟨by decide, rfl⟩

end Threads

end LowLatency.Common.LFQueue
