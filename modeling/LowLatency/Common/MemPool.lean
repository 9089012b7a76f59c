import LowLatency.Common.Types

namespace LowLatency.Common

open Function

structure ObjectBlock (T : Type) where
  object : T
  isFree : Bool

structure MemPool (T : Type) where
  store : ℕ → ObjectBlock T
  size : ℕ
  nextFreeIndex : ℕ

namespace MemPool

variable {T : Type}

def new (numElems : ℕ) (t : T) : MemPool T where
  store := fun _ ↦ ⟨t, true⟩
  size := numElems
  nextFreeIndex := 0

/-- The loop of `updateNextFreeIndex`, which started its search at `initial`. -/
def scan (m : MemPool T) (initial : ℕ) : ℕ → ℕ → Except Fault ℕ
  | 0, _ => .error .diverges
  | fuel + 1, i =>
    if (m.store i).isFree then .ok i
    else
      let j := if i + 1 = m.size then 0 else i + 1
      if j = initial then .error (.assertion "Memory Pool out of space.")
      else m.scan initial fuel j

def updateNextFreeIndex (m : MemPool T) : Except Fault (MemPool T) := do
  let i ← m.scan m.nextFreeIndex (m.size + 1) m.nextFreeIndex
  return { m with nextFreeIndex := i }

def allocate (m : MemPool T) (t : T) : Except Fault (Ptr × MemPool T) :=
  let i := m.nextFreeIndex
  if (m.store i).isFree then do
    let m ← updateNextFreeIndex { m with store := update m.store i ⟨t, false⟩ }
    return (i, m)
  else .error (.assertion ("Expected free ObjectBlock at index: " ++ toString i))

def deallocate (m : MemPool T) (p : Ptr) : Except Fault (MemPool T) :=
  if ¬ p < m.size then
    .error (.assertion "Element being deallocated does not belong to this memory pool.")
  else if (m.store p).isFree then
    .error (.assertion ("Expected in-use ObjectoBlock at index: " ++ toString p))
  else .ok { m with store := update m.store p { m.store p with isFree := true } }

def modify (m : MemPool T) (p : Ptr) (f : T → T) : MemPool T :=
  { m with store := update m.store p { m.store p with object := f (m.store p).object } }

def get (m : MemPool T) (p : Ptr) : T := (m.store p).object

def Live (m : MemPool T) (p : Ptr) : Prop := (m.store p).isFree = false

instance (m : MemPool T) : DecidablePred m.Live := fun _ ↦ inferInstanceAs (Decidable (_ = _))

theorem get_modify (m : MemPool T) (p q : Ptr) (f : T → T) :
    (m.modify p f).get q = if q = p then f (m.get p) else m.get q := by
  unfold modify get
  by_cases h : q = p
  · subst h; simp
  · simp [h]

@[simp] theorem live_modify (m : MemPool T) (p q : Ptr) (f : T → T) :
    (m.modify p f).Live q ↔ m.Live q := by
  unfold modify Live
  by_cases h : q = p
  · subst h; simp
  · simp [h]

@[simp] theorem Live_modify (m : MemPool T) (p : Ptr) (f : T → T) : (m.modify p f).Live = m.Live :=
  funext fun q ↦ propext (live_modify m p q f)

@[simp] theorem size_modify (m : MemPool T) (p : Ptr) (f : T → T) : (m.modify p f).size = m.size := rfl

theorem get_allocate {m m' : MemPool T} {t : T} {p : Ptr} (h : m.allocate t = .ok (p, m')) :
    m'.get = update m.get p t := by
  unfold allocate at h
  dsimp only at h
  split_ifs at h
  obtain ⟨m₁, hrun, h⟩ := bind_eq_ok h
  obtain ⟨rfl, rfl⟩ := Prod.mk.inj (Except.ok.inj h)
  obtain ⟨i, -, h⟩ := bind_eq_ok hrun
  obtain rfl := Except.ok.inj h
  funext q
  by_cases hq : q = m.nextFreeIndex <;> simp [get, hq]

theorem get_deallocate {m m' : MemPool T} {p : Ptr} (h : m.deallocate p = .ok m') : m'.get = m.get := by
  unfold deallocate at h
  split_ifs at h
  obtain rfl := Except.ok.inj h
  funext q
  by_cases hq : q = p <;> simp [get, hq]

/-- Between two operations the next free index designates a free block of the pool. -/
structure Ok (m : MemPool T) : Prop where
  next_lt : m.nextFreeIndex < m.size
  next_free : ¬ m.Live m.nextFreeIndex
  bounded : ∀ p, m.Live p → p < m.size

theorem Ok.of_eq {m m' : MemPool T} (h : m.Ok) (hn : m'.nextFreeIndex = m.nextFreeIndex)
    (hs : m'.size = m.size) (hl : m'.Live = m.Live) : m'.Ok :=
  ⟨hn ▸ hs ▸ h.next_lt, by rw [hl, hn]; exact h.next_free, by rw [hl, hs]; exact h.bounded⟩

@[simp] theorem ok_modify {m : MemPool T} {p : Ptr} {f : T → T} : (m.modify p f).Ok ↔ m.Ok :=
  ⟨fun h ↦ h.of_eq rfl rfl (Live_modify m p f).symm, fun h ↦ h.of_eq rfl rfl (Live_modify m p f)⟩

structure SameBlocks (m m' : MemPool T) : Prop where
  size : m'.size = m.size
  nextFreeIndex : m'.nextFreeIndex = m.nextFreeIndex
  live : m'.Live = m.Live

@[simp] theorem SameBlocks.refl (m : MemPool T) : SameBlocks m m := ⟨rfl, rfl, rfl⟩

@[simp] theorem sameBlocks_modify {m m' : MemPool T} {p : Ptr} {f : T → T} :
    SameBlocks m (m'.modify p f) ↔ SameBlocks m m' :=
  ⟨fun h ↦ ⟨h.size, h.nextFreeIndex, (Live_modify m' p f).symm.trans h.live⟩,
    fun h ↦ ⟨h.size, h.nextFreeIndex, (Live_modify m' p f).trans h.live⟩⟩

theorem SameBlocks.ok {m m' : MemPool T} (h : SameBlocks m m') : m'.Ok ↔ m.Ok :=
  ⟨fun ho ↦ ho.of_eq h.nextFreeIndex.symm h.size.symm h.live.symm,
    fun ho ↦ ho.of_eq h.nextFreeIndex h.size h.live⟩

theorem new_ok (n : ℕ) (hn : 0 < n) (t : T) : (new n t).Ok where
  next_lt := hn
  next_free := by simp [new, Live]
  bounded := by simp [new, Live]

def ahead (size initial i : ℕ) : ℕ := if i < initial then initial - i else size - i + initial

theorem scan_cases (m : MemPool T) (initial i fuel : ℕ) (hi : i < m.size) (hinit : initial < m.size)
    (hfuel : ahead m.size initial i < fuel) :
    (∃ j, m.scan initial fuel i = .ok j ∧ j < m.size ∧ ¬ m.Live j) ∨
      (m.scan initial fuel i = .error (.assertion "Memory Pool out of space.") ∧
        ∀ j < m.size, ¬ m.Live j → i < initial ∧ (j < i ∨ initial ≤ j) ∨
          initial ≤ i ∧ initial ≤ j ∧ j < i) := by
  induction fuel generalizing i with
  | zero => omega
  | succ fuel ih =>
    unfold ahead at hfuel ih
    by_cases hfree : (m.store i).isFree
    · exact .inl ⟨i, by simp [scan, hfree], hi, by simp [Live, hfree]⟩
    · have hlive : m.Live i := by simpa [Live] using hfree
      have hne : ∀ {j : ℕ}, ¬ m.Live j → j ≠ i := fun hj e ↦ hj (e ▸ hlive)
      simp only [scan, hfree, Bool.false_eq_true, if_false]
      -- the next block, with the wrap-around at the end of the store
      obtain ⟨k, hk⟩ : ∃ k, k = if i + 1 = m.size then 0 else i + 1 := ⟨_, rfl⟩
      rw [← hk]
      by_cases hstop : k = initial
      · refine .inr ⟨by simp [hstop], fun j hj hjl ↦ ?_⟩
        have := hne hjl
        split_ifs at hk <;> omega
      · rw [if_neg hstop]
        have hk' : k < m.size := by split_ifs at hk <;> omega
        refine (ih k hk' (by split_ifs at hk hfuel ⊢ <;> omega)).imp id fun ⟨he, hall⟩ ↦ ⟨he, ?_⟩
        intro j hj hjl
        have := hall j hj hjl
        have := hne hjl
        split_ifs at hk <;> omega

theorem allocate_cases {m : MemPool T} (h : m.Ok) (t : T) :
    (∃ m', m.allocate t = .ok (m.nextFreeIndex, m') ∧ m'.Ok ∧ m'.size = m.size ∧
        m'.get = update m.get m.nextFreeIndex t ∧ ∀ p, m'.Live p ↔ p = m.nextFreeIndex ∨ m.Live p) ∨
      (m.allocate t = .error (.assertion "Memory Pool out of space.") ∧
        ∀ p < m.size, p ≠ m.nextFreeIndex → m.Live p) := by
  have hfree : (m.store m.nextFreeIndex).isFree = true := by simpa [Live] using h.next_free
  let m₁ : MemPool T := { m with store := update m.store m.nextFreeIndex ⟨t, false⟩ }
  have hlive : ∀ p, m₁.Live p ↔ p = m.nextFreeIndex ∨ m.Live p := by
    intro p
    by_cases hp : p = m.nextFreeIndex
    · subst hp; simp [m₁, Live]
    · simp [m₁, Live, hp]
  have hscan := m₁.scan_cases m.nextFreeIndex m.nextFreeIndex (m.size + 1) h.next_lt h.next_lt
    (by have := h.next_lt; simp only [ahead, m₁]; split_ifs <;> omega)
  have halloc : m.allocate t = (m₁.scan m.nextFreeIndex (m.size + 1) m.nextFreeIndex).map
      fun j ↦ (m.nextFreeIndex, { m₁ with nextFreeIndex := j }) := by
    simp only [allocate, hfree, if_true, updateNextFreeIndex, m₁]
    cases scan _ m.nextFreeIndex (m.size + 1) m.nextFreeIndex <;> rfl
  rw [halloc]
  rcases hscan with ⟨j, hj, hlt, hjl⟩ | ⟨he, hall⟩
  · refine .inl ⟨{ m₁ with nextFreeIndex := j }, by rw [hj]; rfl, ⟨hlt, hjl, ?_⟩, rfl, ?_, hlive⟩
    · intro p hp
      rcases (hlive p).mp hp with rfl | hp
      · exact h.next_lt
      · exact h.bounded p hp
    · funext p
      simp only [get, m₁, update_apply]
      split <;> rfl
  · refine .inr ⟨by rw [he]; rfl, fun p hp hne ↦ ?_⟩
    by_contra hpl
    have := hall p hp fun hl ↦ ((hlive p).mp hl).elim hne hpl
    omega

theorem size_le_of_full {m : MemPool T} (h : m.Ok) (ps : List Ptr) (hps : ∀ p, m.Live p → p ∈ ps)
    (hfull : ∀ p < m.size, p ≠ m.nextFreeIndex → m.Live p) : m.size ≤ ps.length + 1 := by
  have hsub : (Finset.range m.size).erase m.nextFreeIndex ⊆ ps.toFinset := by
    intro p hp
    obtain ⟨hne, hlt⟩ := Finset.mem_erase.mp hp
    exact List.mem_toFinset.mpr (hps p (hfull p (Finset.mem_range.mp hlt) hne))
  have hcard := (Finset.card_le_card hsub).trans (List.toFinset_card_le ps)
  rw [Finset.card_erase_of_mem (Finset.mem_range.mpr h.next_lt), Finset.card_range] at hcard
  omega

theorem deallocate_live {m : MemPool T} {p : Ptr} (hlt : p < m.size) (hp : m.Live p) :
    m.deallocate p = .ok { m with store := update m.store p { m.store p with isFree := true } } := by
  unfold Live at hp
  simp [deallocate, hlt, hp]

theorem deallocate_spec {m : MemPool T} {p : Ptr} (hlt : p < m.size) (hp : m.Live p) :
    ∃ m', m.deallocate p = .ok m' ∧ (m.Ok → m'.Ok) ∧ m'.size = m.size ∧
      m'.nextFreeIndex = m.nextFreeIndex ∧ (∀ q, m'.get q = m.get q) ∧
      ∀ q, m'.Live q ↔ m.Live q ∧ q ≠ p := by
  refine ⟨_, deallocate_live hlt hp, ?_, rfl, rfl, ?_, ?_⟩
  case refine_2 =>
    intro q
    by_cases hq : q = p
    · subst hq; simp [get]
    · simp [get, hq]
  case refine_3 =>
    intro q
    by_cases hq : q = p
    · subst hq; simp [Live]
    · simp [Live, hq]
  intro h
  refine ⟨h.next_lt, fun hl ↦ h.next_free ?_, fun q hq ↦ h.bounded q ?_⟩
  · by_cases hq : m.nextFreeIndex = p
    · simp [hq, Live] at hl
    · simpa [Live, hq] using hl
  · by_cases hpq : q = p
    · simp [hpq, Live] at hq
    · simpa [Live, hpq] using hq

/-- Two blocks are free, so that one can be handed out and another found to be the next. -/
structure Spare (m : MemPool T) : Prop where
  ok : m.Ok
  free : ∃ p < m.size, ∃ q < m.size, p ≠ q ∧ ¬ m.Live p ∧ ¬ m.Live q

theorem Spare.allocate {m : MemPool T} (h : m.Spare) (t : T) :
    ∃ m', m.allocate t = .ok (m.nextFreeIndex, m') ∧ m'.get = update m.get m.nextFreeIndex t ∧
      m'.size = m.size ∧ ∀ p, m'.Live p ↔ p = m.nextFreeIndex ∨ m.Live p := by
  rcases allocate_cases h.ok t with ⟨m', hrun, -, hsize, hget, hlive⟩ | ⟨-, hfull⟩
  · exact ⟨m', hrun, hget, hsize, hlive⟩
  · obtain ⟨p, hp, q, hq, hne, hpl, hql⟩ := h.free
    have hpn : p = m.nextFreeIndex := by_contra fun hn ↦ hpl (hfull p hp hn)
    have hqn : q = m.nextFreeIndex := by_contra fun hn ↦ hql (hfull q hq hn)
    exact absurd (hpn.trans hqn.symm) hne

structure Eased (m m' : MemPool T) : Prop where
  ok : m.Ok → m'.Ok
  size : m'.size = m.size
  live : ∀ p, m'.Live p → m.Live p

theorem Eased.refl (m : MemPool T) : Eased m m := ⟨id, rfl, fun _ ↦ id⟩

theorem Eased.trans {m₁ m₂ m₃ : MemPool T} (h : Eased m₁ m₂) (h' : Eased m₂ m₃) : Eased m₁ m₃ :=
  ⟨fun ho ↦ h'.ok (h.ok ho), h'.size.trans h.size, fun p hp ↦ h.live p (h'.live p hp)⟩

theorem Spare.eased {m m' : MemPool T} (h : m.Spare) (he : Eased m m') : m'.Spare := by
  obtain ⟨p, hp, q, hq, hne, hpl, hql⟩ := h.free
  exact ⟨he.ok h.ok, p, he.size ▸ hp, q, he.size ▸ hq, hne, fun hl ↦ hpl (he.live p hl),
    fun hl ↦ hql (he.live q hl)⟩

end MemPool

end LowLatency.Common
