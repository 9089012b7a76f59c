import LowLatency.Book.Walk

namespace LowLatency.Book

open Common LinkedRing LevelBook

variable {κ τ : Type}

/-- Following `nextEntry` from the best level leads once through the live levels of the side and
back, following `prevEntry` the other way round. -/
structure LevelBook.LevelsLinked (b : LevelBook κ τ) (side : Side) : Prop where
  best_eq_none : b.best side = none ↔ ∀ l, b.ordersAtPricePool.Live l → b.levelSide l ≠ side
  reachable : ∀ best, b.best side = some best → ∀ l,
    Relation.ReflTransGen (fun l l' ↦ b.nextEntry l = some l') best l ↔
      b.ordersAtPricePool.Live l ∧ b.levelSide l = side
  inverse : ∀ l, b.ordersAtPricePool.Live l → b.levelSide l = side →
    (∃ n, b.nextEntry l = some n ∧ b.prevEntry n = some l) ∧
    ∃ p, b.prevEntry l = some p ∧ b.nextEntry p = some l
  cycle : ∀ best, b.best side = some best → ∃ ls, (best :: ls).Nodup ∧
    IsRing b.nextEntry b.prevEntry (best :: ls) ∧
    ∀ l, l ∈ best :: ls ↔ b.ordersAtPricePool.Live l ∧ b.levelSide l = side

variable [TableKey κ τ] {b : LevelBook κ τ} {a : Ladder κ} {side : Side}

theorem Represents.mem_on_iff (h : Represents b a) (hs : side ≠ .INVALID) (l : Ptr) :
    l ∈ (a.on side).map Level.ptr ↔ b.ordersAtPricePool.Live l ∧ b.levelSide l = side := by
  constructor
  · intro hl
    obtain ⟨m, hm, rfl⟩ := List.mem_map.mp hl
    exact ⟨(h.level_live _).mpr ⟨m, Ladder.mem_levels.mpr ⟨side, hs, hm⟩, rfl⟩,
      ((h.linked.side_rep side hs).level_rep m hm).side_eq⟩
  · rintro ⟨hlive, rfl⟩
    obtain ⟨m, hm, rfl⟩ := (h.level_live l).mp hlive
    obtain ⟨side, hside, hm⟩ := Ladder.mem_levels.mp hm
    rw [((h.linked.side_rep side hside).level_rep m hm).side_eq]
    exact List.mem_map_of_mem hm

theorem Represents.levelsLinked (h : Represents b a) (hs : side ≠ .INVALID) : b.LevelsLinked side := by
  have hrep := h.linked.side_rep side hs
  have hmem := h.mem_on_iff hs
  have hbest : ∀ best, b.best side = some best → ∃ ls, (a.on side).map Level.ptr = best :: ls := by
    intro best hb
    rw [hrep.best_eq] at hb
    cases hls : a.on side with
    | nil => simp [hls] at hb
    | cons m ls => exact ⟨ls.map Level.ptr, by simpa [hls] using hb⟩
  constructor
  · constructor
    · intro hb l hlive hl
      have hin := (hmem l).mpr ⟨hlive, hl⟩
      rw [hrep.best_eq] at hb
      cases hls : a.on side <;> simp [hls] at hb hin
    · intro hnone
      rw [hrep.best_eq]
      cases hls : a.on side with
      | nil => rfl
      | cons m ls =>
        obtain ⟨hlive, hl⟩ := (hmem m.ptr).mp (by simp [hls])
        exact absurd hl (hnone _ hlive)
  · intro best hb l
    obtain ⟨ls, hls⟩ := hbest best hb
    rw [hrep.ring.reachable_iff (by simp [hls]), hmem]
  · intro l hlive hl
    have hin := (hmem l).mpr ⟨hlive, hl⟩
    obtain ⟨n, -, hn⟩ := hrep.ring.exists_next hin
    obtain ⟨p, -, hp⟩ := hrep.ring.exists_prev hin
    exact ⟨⟨n, hn⟩, p, hp.2, hp.1⟩
  · intro best hb
    obtain ⟨ls, hls⟩ := hbest best hb
    refine ⟨ls, hls ▸ hrep.levels_nodup, hls ▸ hrep.ring, fun l ↦ ?_⟩
    rw [← hls, hmem]

end LowLatency.Book
