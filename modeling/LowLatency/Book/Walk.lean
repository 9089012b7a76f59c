import LowLatency.Book.Rest

namespace LowLatency.Book

open Common Function LinkedRing LevelBook

variable {κ τ : Type} {b : LevelBook κ τ} {a : Ladder κ} {side : Side}

namespace LevelBook

/-- The orders met by following `nextOrder` once around from the level's first order. -/
def ordersOf (b : LevelBook κ τ) (l : Ptr) : List (Entry κ) :=
  match b.firstOrder l with
  | none => []
  | some p => (walk b.nextOrder p b.orderPool.size p).map b.entryAt

def levelsOf (b : LevelBook κ τ) (side : Side) : List (Level κ) :=
  match b.best side with
  | none => []
  | some l => (walk b.nextEntry l b.ordersAtPricePool.size l).map fun l ↦
    ⟨l, b.levelPrice l, b.ordersOf l⟩

/-- What one reads off the book by walking its lists. -/
def ladder (b : LevelBook κ τ) : Ladder κ := ⟨b.levelsOf .BUY, b.levelsOf .SELL⟩

end LevelBook

theorem LevelRep.ordersOf_eq {l : Level κ} (h : LevelRep b side l)
    (hd : (l.orders.map Entry.ptr).Nodup) (hb : ∀ e ∈ l.orders, e.ptr < b.orderPool.size) :
    b.ordersOf l.ptr = l.orders := by
  obtain ⟨o, os, hos⟩ := List.exists_cons_of_ne_nil h.orders_ne
  have hfirst := h.first_eq
  have hring := h.ring
  have hlen := length_le_of_lt hd (by simpa using hb)
  rw [hos, List.map_cons] at hring hd hlen
  rw [hos] at hfirst
  rw [LevelBook.ordersOf, hfirst]
  simp only [List.head?_cons, Option.map_some]
  rw [hring.walk_eq hd hlen, ← List.map_cons, ← hos, List.map_map]
  conv_rhs => rw [← List.map_id l.orders]
  exact List.map_congr_left fun e he ↦ h.entry_eq e he

theorem SideRep.levelsOf_eq {ls : List (Level κ)} (h : SideRep b side ls)
    (hl : ∀ l ∈ ls, l.ptr < b.ordersAtPricePool.size) (he : ∀ e ∈ queue ls, e.ptr < b.orderPool.size) :
    b.levelsOf side = ls := by
  have hbest := h.best_eq
  cases ls with
  | nil => rw [LevelBook.levelsOf, hbest]; rfl
  | cons m ls =>
    have hring := h.ring
    have hd := h.levels_nodup
    have hlen := length_le_of_lt hd (by simpa using hl)
    rw [List.map_cons] at hring hd hlen
    rw [LevelBook.levelsOf, hbest]
    simp only [List.head?_cons, Option.map_some]
    rw [hring.walk_eq hd hlen, ← List.map_cons, List.map_map]
    conv_rhs => rw [← List.map_id (m :: ls)]
    refine List.map_congr_left fun l hlm ↦ ?_
    have hrep := h.level_rep l hlm
    have hsub : l.orders.Sublist (queue (m :: ls)) :=
      List.sublist_flatten_of_mem (List.mem_map_of_mem hlm)
    simp only [comp_apply, id_eq, hrep.price_eq,
      hrep.ordersOf_eq (h.orders_nodup.sublist (hsub.map _)) fun e hel ↦ he e (hsub.mem hel)]

/-- A represented book has one ladder, the one that a walk along its links finds. -/
theorem Represents.ladder_eq [TableKey κ τ] (h : Represents b a) : b.ladder = a := by
  have hlevels : ∀ side, side ≠ .INVALID → b.levelsOf side = a.on side := fun side hs ↦
    (h.linked.side_rep side hs).levelsOf_eq
      (fun l hl ↦ h.level_pool.bounded _
        ((h.level_live _).mpr ⟨l, Ladder.mem_levels.mpr ⟨side, hs, hl⟩, rfl⟩))
      fun e he ↦ h.order_pool.bounded _
        ((h.order_live _).mpr ⟨e, Ladder.mem_entries.mpr ⟨side, hs, he⟩, rfl⟩)
  rw [LevelBook.ladder, hlevels .BUY (by decide), hlevels .SELL (by decide)]
  rfl

theorem Represents.ordersOf_eq [TableKey κ τ] (h : Represents b a) (hs : side ≠ .INVALID)
    {l : Level κ} (hl : l ∈ a.on side) : b.ordersOf l.ptr = l.orders := by
  have hside := h.linked.side_rep side hs
  have hsub : l.orders.Sublist (queue (a.on side)) :=
    List.sublist_flatten_of_mem (List.mem_map_of_mem hl)
  exact (hside.level_rep l hl).ordersOf_eq (hside.orders_nodup.sublist (hsub.map _)) fun e he ↦
    h.order_pool.bounded _ ((h.order_live _).mpr
      ⟨e, Ladder.mem_entries.mpr ⟨side, hs, hsub.mem he⟩, rfl⟩)

theorem represents_empty [TableKey κ τ] {n k : ℕ} (hn : 0 < n) (hk : 0 < k) (o : OrderNode κ)
    (l : OrdersAtPrice) : Represents
      (⟨.new n o, .new k l, none, none, fun _ ↦ none, fun _ ↦ none⟩ : LevelBook κ τ) ⟨[], []⟩ where
  linked :=
    { side_rep := fun side _ ↦ by
        have hon : (⟨[], []⟩ : Ladder κ).on side = [] := by cases side <;> rfl
        rw [hon]
        exact ⟨by cases side <;> rfl, Cycle.Chain.nil _, by simp, by simp, by simp⟩
      slot := fun i p ↦ by simp [Ladder.levels] }
  order_pool := MemPool.new_ok n hn o
  level_pool := MemPool.new_ok k hk l
  order_live := fun p ↦ by simp [MemPool.new, MemPool.Live, Ladder.entries, Ladder.levels]
  level_live := fun p ↦ by simp [MemPool.new, MemPool.Live, Ladder.levels]
  table := fun k p hp ↦ by simp at hp
  in_range := fun e he ↦ by simp [Ladder.entries, Ladder.levels] at he

def Ladder.nextPriority (a : Ladder κ) (price : Price) : Priority :=
  match a.levels.find? fun l ↦ priceToIndex l.price = priceToIndex price with
  | none => 1
  | some l => match l.orders.getLast? with
    | none => 1
    | some e => (e.priority + 1) % 2 ^ 64

theorem Ladder.lt_nextPriority {a : Ladder κ} {l : Level κ} {price : ℤ}
    (hinj : ∀ l' ∈ a.levels, priceToIndex l'.price = priceToIndex l.price → l' = l)
    (hl : l ∈ a.levels) (hi : priceToIndex l.price = priceToIndex price)
    (hinc : (l.orders.map Entry.priority).Pairwise (· < ·))
    (hmax : ∀ e ∈ l.orders, e.priority + 1 < 2 ^ 64) {e : Entry κ} (he : e ∈ l.orders) :
    e.priority < a.nextPriority price := by
  have hfind : (a.levels.find? fun l ↦ priceToIndex l.price = priceToIndex price) = some l := by
    cases h : a.levels.find? fun l ↦ priceToIndex l.price = priceToIndex price with
    | none => exact absurd hi (by simpa using List.find?_eq_none.mp h l hl)
    | some l' =>
      have hi' : priceToIndex l'.price = priceToIndex price := by simpa using List.find?_some h
      rw [hinj l' (List.mem_of_find?_eq_some h) (hi'.trans hi.symm)]
  obtain ⟨os, o, hos⟩ := (List.eq_nil_or_concat' l.orders).resolve_left (List.ne_nil_of_mem he)
  have hle : e.priority ≤ o.priority := by
    rw [hos] at he hinc
    rcases List.mem_append.mp he with he | he
    · rw [List.map_append, List.pairwise_append] at hinc
      exact (hinc.2.2 _ (List.mem_map_of_mem he) o.priority (by simp)).le
    · rw [List.mem_singleton.mp he]
  have ho := hmax o (by simp [hos])
  simp only [nextPriority, hfind, hos, List.getLast?_concat]
  rw [Nat.mod_eq_of_lt ho]
  omega

theorem getNextPriority_spec (h : Linked b a) (price : Price) :
    b.getNextPriority price = .ok (a.nextPriority price) := by
  unfold getNextPriority Ladder.nextPriority
  cases hfind : a.levels.find? fun l ↦ priceToIndex l.price = priceToIndex price with
  | none =>
    have hnone : b.getOrdersAtPrice price = none := by
      rw [Option.eq_none_iff_forall_ne_some]
      intro p hp
      obtain ⟨l, hl, -, hi⟩ := (h.slot _ _).mp hp
      simpa [hi] using List.find?_eq_none.mp hfind l hl
    rw [hnone]
  | some l =>
    have hl := List.mem_of_find?_eq_some hfind
    have hi : priceToIndex l.price = priceToIndex price := by
      simpa using List.find?_some hfind
    obtain ⟨side, hs, hls⟩ := Ladder.mem_levels.mp hl
    have hrep := (h.side_rep side hs).level_rep l hls
    obtain ⟨o, os, hos⟩ := List.exists_cons_of_ne_nil hrep.orders_ne
    have hring := hrep.ring
    have hfirst := hrep.first_eq
    rw [hos] at hfirst
    rw [hos, List.map_cons] at hring
    have hlast : b.prevOrder o.ptr = some ((o :: os).getLast (List.cons_ne_nil _ _)).ptr := by
      rw [hring.prev_head]
      exact congrArg some (List.getLast_map (f := Entry.ptr) (l := o :: os) (by simp))
    have hmem : (o :: os).getLast (List.cons_ne_nil _ _) ∈ l.orders := by
      rw [hos]
      exact List.getLast_mem (List.cons_ne_nil o os)
    rw [h.getOrdersAtPrice_eq hl hi.symm]
    simp only [hos, List.getLast?_eq_getLast_of_ne_nil (List.cons_ne_nil o os), hfirst,
      List.head?_cons, Option.map_some, deref_some, ok_bind, hlast]
    rw [(order_fields _ _).2.2.2.2.1, hrep.entry_eq _ hmem]
    rfl

end LowLatency.Book
