import LowLatency.Common.MemPool
import LowLatency.Relational

namespace LowLatency.Common.MemPool

open Function

variable {T : Type}

/-- The two pools have the same blocks in use, `shift` places apart; `P` relates addresses that
stand for each other. -/
structure Rotated (shift : ℕ) (P : Ptr → Ptr → Prop) (m m' : MemPool T) : Prop where
  size : m'.size = m.size
  next_lt : m.nextFreeIndex < m.size
  next : m'.nextFreeIndex = (m.nextFreeIndex + shift) % m.size
  next_free : ¬ m.Live m.nextFreeIndex
  free : ∀ i < m.size, (m'.store ((i + shift) % m.size)).isFree = (m.store i).isFree
  ptr : ∀ p q, P p q → p < m.size ∧ q = (p + shift) % m.size

variable {shift n i j : ℕ} {P P' : Ptr → Ptr → Prop} {m m' : MemPool T} {p q : Ptr}

theorem rotate_inj (hi : i < n) (hj : j < n) (h : (i + shift) % n = (j + shift) % n) : i = j := by
  have hmod : i ≡ j [MOD n] := Nat.ModEq.add_right_cancel' shift h
  exact Nat.ModEq.eq_of_lt_of_lt hmod hi hj

theorem rotate_succ (hi : i < n) : (if (i + shift) % n + 1 = n then 0 else (i + shift) % n + 1) =
    ((if i + 1 = n then 0 else i + 1) + shift) % n := by
  have hwrap : ∀ k < n, (if k + 1 = n then 0 else k + 1) = (k + 1) % n := fun k hk ↦ by
    split_ifs with hn
    · rw [hn, Nat.mod_self]
    · exact (Nat.mod_eq_of_lt (by omega)).symm
  rw [hwrap i hi, hwrap _ (Nat.mod_lt _ (by omega)), Nat.mod_add_mod, Nat.mod_add_mod,
    Nat.add_right_comm]

theorem Rotated.biUnique (h : Rotated shift P m m') : Relator.BiUnique P := by
  constructor
  · intro p p' q hpq hpq'
    obtain ⟨hp, rfl⟩ := h.ptr p q hpq
    obtain ⟨hp', heq⟩ := h.ptr p' _ hpq'
    exact rotate_inj hp hp' heq
  · intro p q q' hpq hpq'
    exact (h.ptr p q hpq).2.trans (h.ptr p q' hpq').2.symm

theorem Rotated.scan (hsize : m'.size = m.size)
    (hfree : ∀ i < m.size, (m'.store ((i + shift) % m.size)).isFree = (m.store i).isFree)
    {initial : ℕ} (hinit : initial < m.size) (fuel : ℕ) (hi : i < m.size) :
    Matched (fun j j' ↦ j < m.size ∧ j' = (j + shift) % m.size ∧ ¬ m.Live j) (m.scan initial fuel i)
      (m'.scan ((initial + shift) % m.size) fuel ((i + shift) % m.size)) := by
  induction fuel generalizing i with
  | zero => exact .error
  | succ fuel ih =>
    rw [MemPool.scan, MemPool.scan, hfree i hi, hsize, rotate_succ hi]
    obtain ⟨j, hj⟩ : ∃ j, j = if i + 1 = m.size then 0 else i + 1 := ⟨_, rfl⟩
    rw [← hj]
    have hjlt : j < m.size := by split_ifs at hj <;> omega
    have hstop : (j + shift) % m.size = (initial + shift) % m.size ↔ j = initial :=
      ⟨rotate_inj hjlt hinit, fun h ↦ by rw [h]⟩
    simp only [hstop]
    by_cases hlive : (m.store i).isFree
    · rw [if_pos hlive, if_pos hlive]
      exact .ok ⟨hi, rfl, by simp [Live, hlive]⟩
    · rw [if_neg hlive, if_neg hlive]
      split_ifs
      · exact .error
      · exact ih hjlt

theorem get_of_allocate {t : T} (h : m.allocate t = .ok (p, m')) : m'.get p = t := by
  unfold MemPool.allocate at h
  dsimp only at h
  split at h
  · obtain ⟨m₁, hupdate, h⟩ := bind_eq_ok h
    obtain ⟨j, -, hj⟩ := bind_eq_ok hupdate
    cases hj
    cases h
    simp [get]
  · cases h

theorem Rotated.allocate (h : Rotated shift P m m') (t t' : T) :
    Matched (fun r r' ↦ r.1 = m.nextFreeIndex ∧ r'.1 = m'.nextFreeIndex ∧
        r.2.get = update m.get r.1 t ∧ r'.2.get = update m'.get r'.1 t' ∧
        Rotated shift (fun p q ↦ P p q ∨ p = r.1 ∧ q = r'.1) r.2 r'.2)
      (m.allocate t) (m'.allocate t') := by
  have hnext : (m.store m.nextFreeIndex).isFree = true := by simpa [Live] using h.next_free
  have hnext' : (m'.store m'.nextFreeIndex).isFree = true := by
    rw [h.next, h.free _ h.next_lt, hnext]
  have hget : ∀ (m : MemPool T) (t : T) (n : ℕ), get { m with
      store := update m.store m.nextFreeIndex ⟨t, false⟩, nextFreeIndex := n } =
        update m.get m.nextFreeIndex t := fun m t n ↦ by
    funext p
    simp only [get, update_apply]
    split <;> rfl
  let m₁ : MemPool T := { m with store := update m.store m.nextFreeIndex ⟨t, false⟩ }
  let m₁' : MemPool T := { m' with store := update m'.store m'.nextFreeIndex ⟨t', false⟩ }
  have hfree : ∀ i < m₁.size, (m₁'.store ((i + shift) % m₁.size)).isFree = (m₁.store i).isFree := by
    intro i hi
    simp only [m₁, m₁', h.next, update_apply]
    by_cases hin : i = m.nextFreeIndex
    · rw [if_pos hin, if_pos (by rw [hin])]
    · rw [if_neg hin, if_neg fun he ↦ hin (rotate_inj hi h.next_lt he)]
      exact h.free i hi
  have hsize : m₁'.size = m₁.size := h.size
  have hscan := Rotated.scan hsize hfree h.next_lt (m.size + 1) h.next_lt
  rw [MemPool.allocate, MemPool.allocate, if_pos hnext, if_pos hnext']
  rw [show (m₁.nextFreeIndex + shift) % m₁.size = m'.nextFreeIndex from h.next.symm] at hscan
  have hupdate : Matched (fun r r' ↦ ∃ j, r = { m₁ with nextFreeIndex := j } ∧ j < m.size ∧
      r' = { m₁' with nextFreeIndex := (j + shift) % m.size } ∧ ¬ m₁.Live j)
      m₁.updateNextFreeIndex m₁'.updateNextFreeIndex := by
    rw [updateNextFreeIndex, updateNextFreeIndex, show m₁'.size = m.size from h.size]
    refine hscan.bind ?_
    rintro j _ ⟨hj, rfl, hjl⟩
    exact .ok ⟨j, rfl, hj, rfl, hjl⟩
  refine hupdate.bind ?_
  rintro r r' ⟨j, rfl, hj, rfl, hjl⟩
  refine .ok ⟨rfl, rfl, hget m t j, hget m' t' _, h.size, hj, rfl, hjl, hfree, ?_⟩
  rintro p q (hpq | ⟨rfl, rfl⟩)
  · exact h.ptr p q hpq
  · exact ⟨h.next_lt, h.next⟩

theorem Rotated.deallocate (h : Rotated shift P m m') (hpq : P p q) :
    Matched (fun r r' ↦ Rotated shift P r r' ∧ r.get = m.get ∧ r'.get = m'.get)
      (m.deallocate p) (m'.deallocate q) := by
  have hget : ∀ (m : MemPool T) (p : Ptr), get { m with
      store := update m.store p { m.store p with isFree := true } } = m.get := fun m p ↦ by
    funext i
    simp only [get, update_apply]
    split
    · next hi => rw [hi]
    · rfl
  obtain ⟨hp, hq⟩ := h.ptr p q hpq
  have hq' : q < m'.size := by
    rw [hq, h.size]
    exact Nat.mod_lt _ (Nat.zero_lt_of_lt hp)
  have hfree : (m'.store q).isFree = (m.store p).isFree := by rw [hq, h.free p hp]
  rw [MemPool.deallocate, MemPool.deallocate, if_neg (not_not.mpr hp), if_neg (not_not.mpr hq'), hfree]
  split_ifs
  · exact .error
  · refine .ok ⟨⟨h.size, h.next_lt, h.next, ?_, fun i hi ↦ ?_, h.ptr⟩, hget m p, hget m' q⟩
    · by_cases hn : m.nextFreeIndex = p
      · simp [Live, hn]
      · simpa [Live, hn] using h.next_free
    · simp only [update_apply]
      by_cases hip : i = p
      · rw [if_pos hip, if_pos (by rw [hip, hq])]
      · rw [if_neg hip, if_neg fun he ↦ hip (rotate_inj hi hp (he.trans hq))]
        exact h.free i hi

theorem Rotated.modify (h : Rotated shift P m m') (f g : T → T) :
    Rotated shift P (m.modify p f) (m'.modify q g) where
  size := h.size
  next_lt := h.next_lt
  next := h.next
  next_free := fun hl ↦ h.next_free ((live_modify _ _ _ _).mp hl)
  free := fun i hi ↦ by
    have hsame : ∀ (m : MemPool T) (p : Ptr) (f : T → T) (i : ℕ),
        ((m.modify p f).store i).isFree = (m.store i).isFree := fun m p f i ↦ by
      simp only [MemPool.modify, update_apply]
      split
      · next hi => rw [hi]
      · rfl
    exact (hsame m' q g _).trans ((h.free i hi).trans (hsame m p f i).symm)
  ptr := h.ptr

section Free

variable {m'' : MemPool T} {ps qs : List Ptr}

structure Freed (m m' : MemPool T) (ps : List Ptr) : Prop where
  ok : m'.Ok
  size : m'.size = m.size
  get : m'.get = m.get
  live : ∀ q, m'.Live q ↔ m.Live q ∧ q ∉ ps

theorem Freed.nil (h : m.Ok) : Freed m m [] := ⟨h, rfl, rfl, by simp⟩

theorem Freed.trans (h : Freed m m' ps) (h' : Freed m' m'' qs) : Freed m m'' (ps ++ qs) where
  ok := h'.ok
  size := h'.size.trans h.size
  get := h'.get.trans h.get
  live := fun q ↦ by rw [h'.live, h.live, List.mem_append, not_or, and_assoc]

theorem exists_freed (h : m.Ok) (hp : m.Live p) : ∃ m', m.deallocate p = .ok m' ∧ Freed m m' [p] := by
  obtain ⟨m', hrun, hok, hsize, -, hget, hlive⟩ := deallocate_spec (h.bounded p hp) hp
  exact ⟨m', hrun, hok h, hsize, funext hget, by simpa using hlive⟩

structure Vacant (m : MemPool T) (n : ℕ) : Prop where
  size : m.size = n
  next_lt : m.nextFreeIndex < n
  free : ∀ p < n, ¬ m.Live p

theorem exists_rotate (shift : ℕ) {n q : ℕ} (hq : q < n) : ∃ p < n, (p + shift) % n = q := by
  refine ⟨(q + (n - shift % n)) % n, Nat.mod_lt _ (Nat.zero_lt_of_lt hq), ?_⟩
  have hlt : shift % n < n := Nat.mod_lt _ (Nat.zero_lt_of_lt hq)
  have hdiv : q + (n - shift % n) + shift = q + n * (1 + shift / n) := by
    have := Nat.div_add_mod shift n
    rw [Nat.mul_add]
    omega
  rw [Nat.mod_add_mod, hdiv, Nat.add_mul_mod_self_left, Nat.mod_eq_of_lt hq]

theorem Rotated.vacant {shift n : ℕ} {P : Ptr → Ptr → Prop} (h : Rotated shift P m m')
    (hm : m.Vacant n) : m'.Vacant n where
  size := h.size.trans hm.size
  next_lt := by
    rw [h.next, hm.size]
    exact Nat.mod_lt _ (Nat.zero_lt_of_lt hm.next_lt)
  free := fun q hq ↦ by
    obtain ⟨p, hp, rfl⟩ := exists_rotate shift hq
    have hfree := h.free p (hm.size ▸ hp)
    rw [hm.size] at hfree
    unfold Live
    rw [hfree]
    exact hm.free p hp

/-- A pool with all blocks free hands them out as a new one does, from another block on. -/
theorem Vacant.rotated {n : ℕ} (h : m.Vacant n) (t : T) :
    Rotated m.nextFreeIndex (fun _ _ ↦ False) (new n t) m where
  size := h.size
  next_lt := Nat.zero_lt_of_lt h.next_lt
  next := by rw [new, Nat.zero_add, Nat.mod_eq_of_lt h.next_lt]
  next_free := by simp [new, Live]
  free := fun i _ ↦ by
    have hfree := h.free ((i + m.nextFreeIndex) % n) (Nat.mod_lt _ (Nat.zero_lt_of_lt h.next_lt))
    simpa [Live, new] using hfree
  ptr := fun _ _ ↦ False.elim

end Free

end LowLatency.Common.MemPool
