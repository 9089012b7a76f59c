import LowLatency.Common.MemPool
import LowLatency.GuardedRun

namespace LowLatency.Common

inductive PoolCall (T : Type)
  | allocate (t : T)
  | deallocate (p : Ptr)

/-- A pool, and the addresses that were handed out and not given back. -/
structure Lease (T : Type) where
  pool : MemPool T
  live : List Ptr

namespace Lease

variable {T : Type}

def new (numElems : ℕ) (t : T) : Lease T := ⟨.new numElems t, []⟩

def step (s : Lease T) : PoolCall T → Except Fault (Lease T)
  | .allocate t => do
    let (p, pool) ← s.pool.allocate t
    return ⟨pool, p :: s.live⟩
  | .deallocate p => do
    let pool ← s.pool.deallocate p
    return ⟨pool, s.live.erase p⟩

structure Inv (n : ℕ) (s : Lease T) : Prop where
  ok : s.pool.Ok
  size : s.pool.size = n
  nodup : s.live.Nodup
  live_iff : ∀ p, s.pool.Live p ↔ p ∈ s.live

/-- The users give back what they hold, and hold no more than `n` objects. -/
def Within (n : ℕ) (s : Lease T) : PoolCall T → Prop
  | .allocate _ => s.live.length < n
  | .deallocate p => p ∈ s.live

def Room (n : ℕ) (s : Lease T) : PoolCall T → Prop
  | .allocate _ => s.live.length + 1 < n
  | .deallocate _ => True

instance (n : ℕ) (s : Lease T) : DecidablePred (s.Within n)
  | .allocate _ => inferInstanceAs (Decidable (_ < _))
  | .deallocate _ => inferInstanceAs (Decidable (_ ∈ _))

instance (n : ℕ) (s : Lease T) : DecidablePred (s.Room n)
  | .allocate _ => inferInstanceAs (Decidable (_ < _))
  | .deallocate _ => inferInstanceAs (Decidable True)

variable {n : ℕ} {s s' : Lease T} {t : T} {p : Ptr} {c : PoolCall T} {cs : List (PoolCall T)}

theorem inv_new (hn : 0 < n) (t : T) : (new n t).Inv n where
  ok := MemPool.new_ok n hn t
  size := rfl
  nodup := List.nodup_nil
  live_iff := fun p ↦ by simp [new, MemPool.new, MemPool.Live]

section Step

theorem Inv.next_notMem (h : s.Inv n) : s.pool.nextFreeIndex ∉ s.live :=
  mt (h.live_iff _).mpr h.ok.next_free

theorem Inv.live_lt (h : s.Inv n) (hp : p ∈ s.live) : p < n :=
  h.size ▸ h.ok.bounded p ((h.live_iff p).mpr hp)

theorem Inv.allocate {pool : MemPool T} (h : s.Inv n) (hrun : s.pool.allocate t = .ok (p, pool)) :
    p = s.pool.nextFreeIndex ∧ Inv n ⟨pool, p :: s.live⟩ := by
  rcases MemPool.allocate_cases h.ok t with ⟨m, hm, hok, hsize, -, hlive⟩ | ⟨he, -⟩
  · obtain ⟨rfl, rfl⟩ := Prod.mk.inj (Except.ok.inj (hm.symm.trans hrun))
    refine ⟨rfl, hok, hsize.trans h.size, List.nodup_cons.mpr ⟨h.next_notMem, h.nodup⟩, fun q ↦ ?_⟩
    rw [hlive, h.live_iff, List.mem_cons]
  · rw [hrun] at he
    cases he

theorem Inv.deallocate_notMem (h : s.Inv n) (hp : p ∉ s.live) :
    ∃ msg, s.pool.deallocate p = .error (.assertion msg) := by
  have hfree : (s.pool.store p).isFree = true := by
    have hlive := mt (h.live_iff p).mp hp
    simpa [MemPool.Live] using hlive
  unfold MemPool.deallocate
  rw [hfree]
  by_cases hlt : p < s.pool.size
  · exact ⟨_, by rw [if_neg (not_not.mpr hlt), if_pos rfl]⟩
  · exact ⟨_, if_pos hlt⟩

theorem Inv.deallocate (h : s.Inv n) (hp : p ∈ s.live) : ∃ pool, s.pool.deallocate p = .ok pool ∧
    Inv n ⟨pool, s.live.erase p⟩ := by
  obtain ⟨pool, hrun, hok, hsize, -, -, hlive⟩ :=
    MemPool.deallocate_spec (h.size ▸ h.live_lt hp) ((h.live_iff p).mpr hp)
  refine ⟨pool, hrun, hok h.ok, hsize.trans h.size, h.nodup.erase p, fun q ↦ ?_⟩
  rw [hlive, h.live_iff, h.nodup.mem_erase_iff, and_comm]

theorem Inv.step (h : s.Inv n) (hstep : s.step c = .ok s') : s'.Inv n := by
  cases c with
  | allocate t =>
    obtain ⟨⟨p, pool⟩, hrun, hs'⟩ := bind_eq_ok hstep
    exact Except.ok.inj hs' ▸ (h.allocate hrun).2
  | deallocate p =>
    obtain ⟨pool, hrun, hs'⟩ := bind_eq_ok hstep
    by_cases hp : p ∈ s.live
    · obtain ⟨pool', hrun', hinv⟩ := h.deallocate hp
      obtain rfl := Except.ok.inj (hrun.symm.trans hrun')
      exact Except.ok.inj hs' ▸ hinv
    · obtain ⟨msg, he⟩ := h.deallocate_notMem hp
      rw [hrun] at he
      cases he

theorem Inv.allocate_iff (h : s.Inv n) (t : T) :
    (∃ s', s.step (.allocate t) = .ok s') ↔ s.live.length + 1 < n := by
  constructor
  · rintro ⟨s', hstep⟩
    have hinv := h.step hstep
    obtain ⟨⟨p, pool⟩, hrun, hs'⟩ := bind_eq_ok hstep
    obtain rfl := Except.ok.inj hs'
    have hnext : pool.nextFreeIndex < n := hinv.size ▸ hinv.ok.next_lt
    have hle := length_le_of_lt (List.nodup_cons.mpr ⟨hinv.next_notMem, hinv.nodup⟩)
      (List.forall_mem_cons.mpr ⟨hnext, fun q hq ↦ hinv.live_lt hq⟩)
    exact hle
  · intro hroom
    rcases MemPool.allocate_cases h.ok t with ⟨m, hm, -⟩ | ⟨-, hfull⟩
    · exact ⟨⟨m, s.pool.nextFreeIndex :: s.live⟩, by rw [Lease.step, hm]; rfl⟩
    · have hsize := MemPool.size_le_of_full h.ok s.live (fun p ↦ (h.live_iff p).mp) hfull
      rw [h.size] at hsize
      exact absurd hroom hsize.not_gt

end Step

/-- Every block is held by one user at most, and what nobody holds is not given back. -/
theorem never_aliases (hn : 0 < n) (hrun : cs.foldlM step (new n t) = .ok s) :
    (∀ t' p pool, s.pool.allocate t' = .ok (p, pool) → p ∉ s.live) ∧
    (∀ p, (s.pool.store p).isFree = false ↔ p ∈ s.live) ∧
    (s.pool.nextFreeIndex < n ∧ (s.pool.store s.pool.nextFreeIndex).isFree = true) ∧
    ∀ p ∉ s.live, ∃ msg, s.pool.deallocate p = .error (.assertion msg) := by
  have h : s.Inv n := run_invariant (fun _ _ _ h ↦ h.step) (inv_new hn t) hrun
  refine ⟨fun t' p pool halloc ↦ ?_, h.live_iff, ⟨h.size ▸ h.ok.next_lt, ?_⟩,
    fun p ↦ h.deallocate_notMem⟩
  · rw [(h.allocate halloc).1]
    exact h.next_notMem
  · simpa [MemPool.Live] using h.ok.next_free

theorem never_aliases_round : ∃ s, [PoolCall.allocate 'a', .allocate 'b', .deallocate 0, .allocate 'c',
    .deallocate 1].foldlM step (new 3 'x') = .ok s ∧ s.live = [2] ∧
      ∀ t' p pool, s.pool.allocate t' = .ok (p, pool) → p ∉ s.live := by
  obtain ⟨s, hs, hlive⟩ := Yields.exists_ok (show Yields ([PoolCall.allocate 'a', .allocate 'b',
    .deallocate 0, .allocate 'c', .deallocate 1].foldlM step (new 3 'x')) fun s ↦ s.live = [2] by
      decide +kernel)
  exact ⟨s, hs, hlive, (never_aliases (by decide) hs).1⟩

/-- Users that give back what they hold, and hold no more than there are blocks, are served throughout if
and only if no object is allocated when one block is left. -/
theorem served_iff (hn : 0 < n) (hg : Guarded step (Within n) (new n t) cs) :
    (∃ s, cs.foldlM step (new n t) = .ok s) ↔ Guarded step (Room n) (new n t) cs := by
  refine hg.returns_iff (I := Inv n) (fun s c h hwithin hroom ↦ ?_) (fun s c h hwithin hroom ↦ ?_)
    (inv_new hn t)
  · cases c with
    | allocate t =>
      obtain ⟨s', hs'⟩ := (h.allocate_iff t).mpr hroom
      exact ⟨s', hs', h.step hs'⟩
    | deallocate p =>
      obtain ⟨pool, hrun, hinv⟩ := h.deallocate hwithin
      exact ⟨_, by rw [step, hrun]; rfl, hinv⟩
  · cases c with
    | allocate t =>
      cases hs : s.step (.allocate t) with
      | ok s' => exact absurd ((h.allocate_iff t).mp ⟨s', hs⟩) hroom
      | error e => exact ⟨e, rfl⟩
    | deallocate p => exact absurd trivial hroom

theorem served_two : ∃ s, [PoolCall.allocate 'a', .allocate 'b', .deallocate 0, .allocate 'c',
    .deallocate 1].foldlM step (new 3 'x') = .ok s :=
  (served_iff (by decide) (by decide +kernel)).mpr (by decide +kernel)

theorem not_served_one : ¬ ∀ (n : ℕ) (cs : List (PoolCall Char)), 0 < n →
    Guarded step (Within n) (new n 'x') cs → ∃ s, cs.foldlM step (new n 'x') = .ok s := by
  intro h
  obtain ⟨s, hs⟩ := h 1 [.allocate 'a'] (by decide) (by decide +kernel)
  cases hs

end Lease

end LowLatency.Common
