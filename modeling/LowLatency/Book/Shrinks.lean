import LowLatency.Book.Sweep
import Mathlib.Data.List.Forall2

namespace LowLatency.Book

open Common List

variable {κ : Type}

/-- An order without its quantity, which is all that trading changes. -/
def Entry.fixed (e : Entry κ) : Entry κ := { e with qty := 0 }

theorem Entry.fixed_eq {e e' : Entry κ} (h : e'.fixed = e.fixed) : e'.ptr = e.ptr ∧ e'.key = e.key ∧
    e'.side = e.side ∧ e'.price = e.price ∧ e'.priority = e.priority := by
  simpa [Entry.fixed] using h

@[simp] theorem fixed_withQty (p : Ptr) (qty : ℕ) (e : Entry κ) :
    (withQty p qty e).fixed = e.fixed := by
  unfold withQty
  split <;> rfl

structure LevelShrinks (l' l : Level κ) : Prop where
  ptr : l'.ptr = l.ptr
  price : l'.price = l.price
  orders : (l'.orders.map Entry.fixed).Sublist (l.orders.map Entry.fixed)

instance : Std.Refl (LevelShrinks (κ := κ)) := ⟨fun _ ↦ ⟨rfl, rfl, .refl _⟩⟩

instance : IsTrans (Level κ) LevelShrinks :=
  ⟨fun _ _ _ h h' ↦ ⟨h.ptr.trans h'.ptr, h.price.trans h'.price, h.orders.trans h'.orders⟩⟩

theorem dropOrders_shrinks (ps : List Ptr) (ls : List (Level κ)) :
    SublistForall₂ LevelShrinks (dropOrders ps ls) ls := by
  induction ls with
  | nil => exact .nil
  | cons l ls ih =>
    unfold dropOrders at ih ⊢
    rw [map_cons, filter_cons]
    split
    · exact .cons ⟨rfl, rfl, filter_sublist.map _⟩ ih
    · exact .cons_right ih

theorem removeFrom_shrinks (p : Ptr) (ls : List (Level κ)) :
    SublistForall₂ LevelShrinks (removeFrom p ls) ls := by
  have h : removeFrom p ls = dropOrders [p] ls := by simp [removeFrom, dropOrders]
  exact h ▸ dropOrders_shrinks [p] ls

theorem setQtyIn_shrinks (p : Ptr) (qty : ℕ) (ls : List (Level κ)) :
    SublistForall₂ LevelShrinks (setQtyIn p qty ls) ls := by
  induction ls with
  | nil => exact .nil
  | cons l ls ih =>
    refine .cons ⟨rfl, rfl, ?_⟩ ih
    rw [map_map]
    exact (map_congr_left fun e _ ↦ fixed_withQty p qty e) ▸ .refl _

section Lists

variable {ls' ls : List (Level κ)}

theorem levels_sublist_of_shrinks (h : SublistForall₂ LevelShrinks ls' ls) :
    (ls'.map fun l ↦ (l.ptr, l.price)).Sublist (ls.map fun l ↦ (l.ptr, l.price)) := by
  induction h with
  | nil => exact nil_sublist _
  | cons hl _ ih =>
    rw [map_cons, map_cons, hl.ptr, hl.price]
    exact ih.cons_cons _
  | cons_right _ ih => exact ih.cons _

theorem exists_level_of_shrinks (h : SublistForall₂ LevelShrinks ls' ls) {l' : Level κ}
    (hl : l' ∈ ls') : ∃ l ∈ ls, LevelShrinks l' l := by
  induction h with
  | nil => cases hl
  | cons hr _ ih =>
    rcases mem_cons.mp hl with rfl | hl
    · exact ⟨_, mem_cons_self, hr⟩
    · obtain ⟨l, hm, hs⟩ := ih hl
      exact ⟨l, mem_cons_of_mem _ hm, hs⟩
  | cons_right _ ih =>
    obtain ⟨l, hm, hs⟩ := ih hl
    exact ⟨l, mem_cons_of_mem _ hm, hs⟩

theorem queue_sublist_of_shrinks (h : SublistForall₂ LevelShrinks ls' ls) :
    ((queue ls').map Entry.fixed).Sublist ((queue ls).map Entry.fixed) := by
  induction h with
  | nil => exact nil_sublist _
  | cons hl _ ih =>
    rw [queue_cons, queue_cons, map_append, map_append]
    exact hl.orders.append ih
  | cons_right _ ih =>
    rw [queue_cons, map_append]
    exact ih.trans (sublist_append_right _ _)

end Lists

/-- `a'` is `a` after some of its orders traded or left. -/
def Ladder.Shrinks (a' a : Ladder κ) : Prop :=
  ∀ side, SublistForall₂ LevelShrinks (a'.on side) (a.on side)

namespace Ladder

variable {a a' a'' : Ladder κ} {side : Side}

theorem Shrinks.refl (a : Ladder κ) : a.Shrinks a := fun _ ↦ SublistForall₂.is_refl.refl _

theorem Shrinks.trans (h : a''.Shrinks a') (h' : a'.Shrinks a) : a''.Shrinks a :=
  fun side ↦ SublistForall₂.is_trans.trans _ _ _ (h side) (h' side)

theorem shrinks_remove (a : Ladder κ) (p : Ptr) : (a.remove p).Shrinks a := fun side ↦ by
  rw [on_remove]
  exact removeFrom_shrinks p _

theorem shrinks_swept (a : Ladder κ) (side : Side) (price : ℤ) : (a.swept side price).Shrinks a :=
  fun side' ↦ by
    rw [on_swept]
    exact dropOrders_shrinks _ _

theorem shrinks_trade (a : Ladder κ) (f : Fill κ) : (a.trade f).Shrinks a := fun side ↦ by
  unfold trade
  split
  · exact shrinks_remove a _ side
  · rw [on_setQty]
    exact setQtyIn_shrinks _ _ _

theorem shrinks_traded (a : Ladder κ) (fs : List (Fill κ)) : (a.traded fs).Shrinks a := by
  induction fs generalizing a with
  | nil => exact .refl a
  | cons f fs ih => exact (ih (a.trade f)).trans (shrinks_trade a f)

theorem Shrinks.levels_sublist (h : a'.Shrinks a) (side : Side) :
    ((a'.on side).map fun l ↦ (l.ptr, l.price)).Sublist ((a.on side).map fun l ↦ (l.ptr, l.price)) :=
  levels_sublist_of_shrinks (h side)

theorem Shrinks.slots_nodup (h : a'.Shrinks a) {side : Side}
    (hd : ((a.on side).map fun l ↦ priceToIndex l.price).Nodup) :
    ((a'.on side).map fun l ↦ priceToIndex l.price).Nodup := by
  have hsub := (h.levels_sublist side).map fun q : Ptr × ℤ ↦ priceToIndex q.2
  rw [map_map, map_map] at hsub
  exact hd.sublist hsub

theorem Shrinks.levels_slots_nodup (h : a'.Shrinks a)
    (hd : (a.levels.map fun l ↦ priceToIndex l.price).Nodup) :
    (a'.levels.map fun l ↦ priceToIndex l.price).Nodup := by
  have hsub : (a'.levels.map fun l ↦ (l.ptr, l.price)).Sublist
      (a.levels.map fun l ↦ (l.ptr, l.price)) := by
    rw [levels, levels, map_append, map_append]
    exact (h.levels_sublist .BUY).append (h.levels_sublist .SELL)
  have hsub' := hsub.map fun q : Ptr × ℤ ↦ priceToIndex q.2
  rw [map_map, map_map] at hsub'
  exact hd.sublist hsub'

theorem Shrinks.exists_level (h : a'.Shrinks a) {l' : Level κ} (hl : l' ∈ a'.on side) :
    ∃ l ∈ a.on side, LevelShrinks l' l := exists_level_of_shrinks (h side) hl

theorem Shrinks.queue_sublist (h : a'.Shrinks a) (side : Side) :
    ((queue (a'.on side)).map Entry.fixed).Sublist ((queue (a.on side)).map Entry.fixed) :=
  queue_sublist_of_shrinks (h side)

theorem Shrinks.exists_entry_on (h : a'.Shrinks a) (side : Side) {e' : Entry κ}
    (he : e' ∈ queue (a'.on side)) :
    ∃ e ∈ queue (a.on side), e'.fixed = e.fixed := by
  obtain ⟨e, he, hf⟩ := mem_map.mp ((h.queue_sublist side).mem (mem_map_of_mem he))
  exact ⟨e, he, hf.symm⟩

theorem Shrinks.exists_entry (h : a'.Shrinks a) {e' : Entry κ} (he : e' ∈ a'.entries) :
    ∃ e ∈ a.entries, e'.fixed = e.fixed := by
  obtain ⟨side, hs, he⟩ := mem_entries.mp he
  obtain ⟨e, he, hf⟩ := h.exists_entry_on side he
  exact ⟨e, mem_entries.mpr ⟨side, hs, he⟩, hf⟩

theorem Shrinks.length_entries_le (h : a'.Shrinks a) : a'.entries.length ≤ a.entries.length := by
  have hlen := fun side ↦ (h.queue_sublist side).length_le
  simp only [length_map] at hlen
  simp only [entries, levels, queue_append, length_append]
  exact Nat.add_le_add (hlen .BUY) (hlen .SELL)

end Ladder

end LowLatency.Book
