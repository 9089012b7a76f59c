import LowLatency.Book.Insert
import LowLatency.Book.Shrinks

namespace LowLatency.Book

open Common

variable {κ : Type} (f : κ → ℕ)

def Entry.relabel (e : Entry κ) : Entry Unit := ⟨f e.key, (), e.side, e.price, e.qty, e.priority⟩

def Level.relabel (l : Level κ) : Level Unit := ⟨0, l.price, l.orders.map (Entry.relabel f)⟩

def Ladder.relabel (a : Ladder κ) : Ladder Unit :=
  ⟨a.bids.map (Level.relabel f), a.asks.map (Level.relabel f)⟩

/-- The numbers tell the orders apart as their addresses do. -/
def Labels (a : Ladder κ) : Prop :=
  ∀ e ∈ a.entries, ∀ e' ∈ a.entries, f e.key = f e'.key ↔ e.ptr = e'.ptr

variable {f} {a : Ladder κ} {e : Entry κ}

theorem Labels.shrinks {a' : Ladder κ} (h : Labels f a) (hs : a'.Shrinks a) : Labels f a' := by
  intro e he e' he'
  obtain ⟨e₀, he₀, hf⟩ := hs.exists_entry he
  obtain ⟨e₀', he₀', hf'⟩ := hs.exists_entry he'
  rw [(Entry.fixed_eq hf).1, (Entry.fixed_eq hf).2.1, (Entry.fixed_eq hf').1,
    (Entry.fixed_eq hf').2.1]
  exact h e₀ he₀ e₀' he₀'

theorem queue_relabel (ls : List (Level κ)) :
    queue (ls.map (Level.relabel f)) = (queue ls).map (Entry.relabel f) := by
  simp only [queue, List.flatMap_map, List.map_flatMap, Level.relabel]

theorem removeFrom_relabel {ls : List (Level κ)} {p : Ptr} {n : ℕ}
    (h : ∀ e ∈ queue ls, f e.key = n ↔ e.ptr = p) :
    removeFrom n (ls.map (Level.relabel f)) = (removeFrom p ls).map (Level.relabel f) := by
  induction ls with
  | nil => rfl
  | cons l ls ih =>
    have hl : (l.orders.map (Entry.relabel f)).filter (·.ptr ≠ n) =
        (l.orders.filter (·.ptr ≠ p)).map (Entry.relabel f) := by
      rw [List.filter_map]
      refine congrArg _ (List.filter_congr fun e he ↦ ?_)
      simp only [Function.comp_apply, Entry.relabel, ne_eq, h e (by simp [he])]
    have hrest := ih fun e he ↦ h e (by simp [he])
    rw [List.map_cons, removeFrom_cons, removeFrom_cons, List.map_append, hrest]
    simp only [Level.relabel, hl, List.map_eq_nil_iff]
    split_ifs <;> rfl

theorem setQtyIn_relabel {ls : List (Level κ)} {p : Ptr} {n : ℕ} (qty : ℕ)
    (h : ∀ e ∈ queue ls, f e.key = n ↔ e.ptr = p) :
    setQtyIn n qty (ls.map (Level.relabel f)) = (setQtyIn p qty ls).map (Level.relabel f) := by
  simp only [setQtyIn, List.map_map]
  refine List.map_congr_left fun l hl ↦ ?_
  simp only [Function.comp_apply, Level.relabel, List.map_map]
  refine congrArg (Level.mk 0 l.price) (List.map_congr_left fun e he ↦ ?_)
  have hiff := h e (mem_queue.mpr ⟨l, hl, he⟩)
  simp only [Function.comp_apply, withQty, Entry.relabel, hiff]
  split <;> rfl

theorem restIn_relabel (lp : Ptr) (e : Entry κ) (ls : List (Level κ)) :
    restIn 0 (e.relabel f) (ls.map (Level.relabel f)) = (restIn lp e ls).map (Level.relabel f) := by
  have hex : (∃ l ∈ ls.map (Level.relabel f), priceToIndex l.price = priceToIndex (e.relabel f).price) ↔
      ∃ l ∈ ls, priceToIndex l.price = priceToIndex e.price := by
    simp [Level.relabel, Entry.relabel]
  unfold restIn
  simp only [hex]
  split_ifs
  · simp only [List.map_map]
    refine List.map_congr_left fun l _ ↦ ?_
    change (if priceToIndex l.price = priceToIndex e.price then
      { l.relabel f with orders := (l.relabel f).orders ++ [e.relabel f] } else l.relabel f) = _
    simp only [Function.comp_apply]
    split <;> simp [Level.relabel]
  · simp [Level.relabel, Entry.relabel]

namespace Ladder

theorem on_relabel (a : Ladder κ) (side : Side) :
    (a.relabel f).on side = (a.on side).map (Level.relabel f) := by
  unfold on relabel
  split <;> rfl

theorem entries_relabel (a : Ladder κ) :
    (a.relabel f).entries = a.entries.map (Entry.relabel f) := by
  rw [entries, entries, ← queue_relabel, levels, levels, List.map_append]
  rfl

theorem relabel_remove (h : Labels f a) (he : e ∈ a.entries) :
    (a.remove e.ptr).relabel f = (a.relabel f).remove (f e.key) :=
  ext_on fun side hs ↦ by
    rw [on_relabel, on_remove, on_remove, on_relabel, removeFrom_relabel fun e' he' ↦
      h e' (mem_entries.mpr ⟨side, hs, he'⟩) e he]

theorem relabel_setQty (h : Labels f a) (he : e ∈ a.entries) (qty : ℕ) :
    (a.setQty e.ptr qty).relabel f = (a.relabel f).setQty (f e.key) qty :=
  ext_on fun side hs ↦ by
    rw [on_relabel, on_setQty, on_setQty, on_relabel, setQtyIn_relabel qty fun e' he' ↦
      h e' (mem_entries.mpr ⟨side, hs, he'⟩) e he]

theorem relabel_rest (hs : e.side ≠ .INVALID) (lp : Ptr) :
    (a.rest lp e).relabel f = (a.relabel f).rest 0 (e.relabel f) :=
  ext_on fun side hs' ↦ by
    have hs₁ : (e.relabel f).side ≠ .INVALID := hs
    rw [on_relabel, rest, rest, on_setOn hs hs', on_setOn hs₁ hs', on_relabel, on_relabel,
      restIn_relabel lp]
    change _ = if side = e.side then _ else _
    split <;> rfl

theorem Admits.relabel {side : Side} {price : ℤ} (h : a.Admits side price) :
    (a.relabel f).Admits side price := by
  obtain ⟨hfree, hback⟩ := h
  constructor
  · intro l' hl' hslot
    obtain ⟨side', hs, hl'⟩ := mem_levels.mp hl'
    rw [on_relabel] at hl' ⊢
    obtain ⟨l, hl, rfl⟩ := List.mem_map.mp hl'
    exact List.mem_map_of_mem (hfree l (mem_levels.mpr ⟨side', hs, hl⟩) hslot)
  · rw [on_relabel]
    exact hback.imp (fun ⟨l, hl, hslot⟩ ↦ ⟨_, List.mem_map_of_mem hl, hslot⟩)
      fun hall l' hl' ↦ by
        obtain ⟨l, hl, rfl⟩ := List.mem_map.mp hl'
        exact hall l hl

theorem Admits.of_relabel {τ : Type} {b : LevelBook κ τ} (hb : Linked b a) {side : Side} {price : ℤ}
    (hs : side ≠ .INVALID) (h : (a.relabel f).Admits side price) : a.Admits side price := by
  obtain ⟨hfree, hback⟩ := h
  constructor
  · intro l hl hslot
    obtain ⟨side', hs', hl'⟩ := mem_levels.mp hl
    have hmem := hfree (l.relabel f) (mem_levels.mpr ⟨side', hs', by
      rw [on_relabel]; exact List.mem_map_of_mem hl'⟩) hslot
    rw [on_relabel] at hmem
    obtain ⟨m, hm, heq⟩ := List.mem_map.mp hmem
    have hprice : m.price = l.price :=
      (congrArg Level.price heq : (m.relabel f).price = (l.relabel f).price)
    exact hb.slot_inj (mem_levels.mpr ⟨side, hs, hm⟩) hl (by rw [hprice]) ▸ hm
  · rw [on_relabel] at hback
    refine hback.imp (fun ⟨l', hl', hslot⟩ ↦ ?_) fun hall l hl ↦ hall _ (List.mem_map_of_mem hl)
    obtain ⟨l, hl, rfl⟩ := List.mem_map.mp hl'
    exact ⟨l, hl, hslot⟩

end Ladder

end LowLatency.Book
