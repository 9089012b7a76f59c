import LowLatency.Book.Insert

namespace LowLatency.Book

open Common Function LinkedRing LevelBook

variable {κ τ : Type} {b : LevelBook κ τ} {a : Ladder κ} {side : Side}

def OrderNode.entry (o : OrderNode κ) (p : Ptr) : Entry κ :=
  ⟨p, o.key, o.side, o.price, o.qty, o.priority⟩

section Quantity

variable (p : Ptr) (qty : ℕ)

theorem setQty_entryAt {e : Entry κ} (he : b.entryAt e.ptr = e) :
    (b.setQty p qty).entryAt e.ptr = withQty p qty e := by
  unfold withQty
  by_cases hp : e.ptr = p
  · subst hp
    simp [he]
  · simp [hp, he]

theorem LevelRep.setQty {l : Level κ} (h : LevelRep b side l) :
    LevelRep (b.setQty p qty) side { l with orders := l.orders.map (withQty p qty) } := by
  refine ⟨by simpa using h.side_eq, by simpa using h.price_eq, ?_, by simpa using h.orders_ne, ?_,
    ?_, ?_, ?_⟩
  · rw [← List.head?_map, map_ptr_withQty, List.head?_map]
    simpa using h.first_eq
  · rw [map_ptr_withQty]
    simpa using h.ring
  · intro e' he'
    obtain ⟨e, he, rfl⟩ := List.mem_map.mp he'
    rw [(withQty_fields p qty e).1]
    exact setQty_entryAt p qty (h.entry_eq e he)
  · intro e' he'
    obtain ⟨e, he, rfl⟩ := List.mem_map.mp he'
    simpa using h.entry_side e he
  · intro e' he'
    obtain ⟨e, he, rfl⟩ := List.mem_map.mp he'
    simpa using h.entry_slot e he

theorem SideRep.setQty {ls : List (Level κ)} (h : SideRep b side ls) :
    SideRep (b.setQty p qty) side (setQtyIn p qty ls) := by
  have hptrs : (setQtyIn p qty ls).map Level.ptr = ls.map Level.ptr := by
    simp [setQtyIn, List.map_map, Function.comp_def]
  refine ⟨?_, ?_, ?_, by rw [hptrs]; exact h.levels_nodup, ?_⟩
  · rw [← List.head?_map, hptrs, List.head?_map]
    simpa using h.best_eq
  · rw [hptrs]
    simpa using h.ring
  · intro l' hl'
    obtain ⟨l, hl, rfl⟩ := List.mem_map.mp hl'
    exact (h.level_rep l hl).setQty p qty
  · rw [queue_setQtyIn, map_ptr_withQty]
    exact h.orders_nodup

theorem eased_setQty : b.orderPool.Eased (b.setQty p qty).orderPool where
  ok := by simp
  size := rfl
  live := by simp

theorem Linked.setQty (h : Linked b a) : Linked (b.setQty p qty) (a.setQty p qty) where
  side_rep := fun side hs ↦ by
    rw [Ladder.on_setQty]
    exact (h.side_rep side hs).setQty p qty
  slot := fun i q ↦ by
    rw [Ladder.exists_levels_setQty fun q' price ↦ q' = q ∧ priceToIndex price = i]
    exact h.slot i q

theorem Represents.setQty [TableKey κ τ] (h : Represents b a) :
    Represents (b.setQty p qty) (a.setQty p qty) := by
  refine ⟨h.linked.setQty p qty, ?_, h.level_pool, fun q ↦ ?_, fun q ↦ ?_, fun k q hq ↦ ?_, ?_⟩
  · simpa using h.order_pool
  · rw [Ladder.exists_entries_setQty fun q' _ ↦ q' = q]
    simpa using h.order_live q
  · rw [Ladder.exists_levels_setQty fun q' _ ↦ q' = q]
    exact h.level_live q
  · rw [Ladder.exists_entries_setQty fun q' key ↦ q' = q ∧ TableKey.entry key = some k]
    exact h.table k q hq
  · intro e' he'
    rw [Ladder.entries_setQty] at he'
    obtain ⟨e, he, rfl⟩ := List.mem_map.mp he'
    simpa using h.in_range e he

theorem WellFormed.setQty [TableKey κ τ] (h : WellFormed b a) :
    WellFormed (b.setQty p qty) (a.setQty p qty) := by
  refine ⟨h.linked.setQty p qty, ⟨fun e' he' ↦ ?_, fun l' hl' ↦ ?_⟩, fun k q ↦ ?_, fun e' he' ↦ ?_⟩
  · rw [Ladder.entries_setQty] at he'
    obtain ⟨e, he, rfl⟩ := List.mem_map.mp he'
    simpa [LevelBook.writeOrder] using h.in_use.order e he
  · obtain ⟨l, hl, hp⟩ := (Ladder.exists_levels_setQty fun q _ ↦ q = l'.ptr).mp ⟨l', hl', rfl⟩
    rw [← hp]
    exact h.in_use.level l hl
  · rw [Ladder.exists_entries_setQty fun q' key ↦ q' = q ∧ TableKey.entry key = some k]
    exact h.table k q
  · rw [Ladder.entries_setQty] at he'
    obtain ⟨e, he, rfl⟩ := List.mem_map.mp he'
    simpa using h.in_range e he

theorem Complete.setQty [TableKey κ τ] (h : Complete b a) :
    Complete (b.setQty p qty) (a.setQty p qty) := by
  intro e' he' k hk
  rw [Ladder.entries_setQty] at he'
  obtain ⟨e, he, rfl⟩ := List.mem_map.mp he'
  simpa using h e he k (by simpa using hk)

end Quantity

theorem Linked.construct (h : Linked b a) {p : Ptr} (hfresh : ∀ e ∈ a.entries, e.ptr ≠ p)
    {node : OrderNode κ} {pool : MemPool (OrderNode κ)}
    (hget : pool.get = update b.orderPool.get p node) :
    Linked { b with orderPool := pool } a ∧
      LevelBook.entryAt { b with orderPool := pool } p = node.entry p := by
  have horder : LevelBook.order { b with orderPool := pool } = update b.order p node := hget
  constructor
  · refine h.congr rfl rfl (fun _ _ ↦ rfl) fun e he ↦ ?_
    rw [horder, update_of_ne (hfresh e he)]
  · simp only [LevelBook.entryAt, horder, update_self]
    rfl

section Table

variable [TableKey κ τ]

theorem Represents.fresh (h : Represents b a) {e : Entry κ} (he : e ∈ a.entries) :
    e.ptr ≠ b.orderPool.nextFreeIndex := fun hp ↦
  h.order_pool.next_free ((h.order_live _).mpr ⟨e, he, hp⟩)

theorem Represents.orders_full (h : Represents b a)
    (hfull : ∀ p < b.orderPool.size, p ≠ b.orderPool.nextFreeIndex → b.orderPool.Live p) :
    b.orderPool.size ≤ a.entries.length + 1 := by
  have hle := MemPool.size_le_of_full h.order_pool (a.entries.map Entry.ptr) (fun p hp ↦ by
    obtain ⟨e, he, rfl⟩ := (h.order_live p).mp hp
    exact List.mem_map_of_mem he) hfull
  rwa [List.length_map] at hle

theorem Represents.levels_full (h : Represents b a)
    (hfull : ∀ p < b.ordersAtPricePool.size, p ≠ b.ordersAtPricePool.nextFreeIndex →
      b.ordersAtPricePool.Live p) : b.ordersAtPricePool.size ≤ a.levels.length + 1 := by
  have hle := MemPool.size_le_of_full h.level_pool (a.levels.map Level.ptr) (fun p hp ↦ by
    obtain ⟨l, hl, rfl⟩ := (h.level_live p).mp hp
    exact List.mem_map_of_mem hl) hfull
  rwa [List.length_map] at hle

variable [DecidableEq τ]

theorem Represents.rest (h : Represents b a) {b' : LevelBook κ τ} {e : Entry κ} {k : τ} {lp : Ptr}
    (hs : e.side ≠ .INVALID) (hk : TableKey.entry e.key = some k)
    (hlinked : Linked b' (a.rest lp e)) (htable : b'.orderTable = b.orderTable)
    (hok : b'.orderPool.Ok) (hlok : b'.ordersAtPricePool.Ok)
    (hlive : ∀ p, b'.orderPool.Live p ↔ p = e.ptr ∨ b.orderPool.Live p)
    (hllive : ∀ p, b'.ordersAtPricePool.Live p ↔ ∃ l ∈ (a.rest lp e).levels, l.ptr = p) :
    Represents { b' with orderTable := update b'.orderTable k (some e.ptr) } (a.rest lp e) := by
  have hmem : ∀ e', e' ∈ (a.rest lp e).entries ↔ e' ∈ a.entries ∨ e' = e := fun e' ↦
    Ladder.mem_entries_rest hs (h.linked.slots_nodup hs)
  refine ⟨(sameLists_table b' _).linked rfl hlinked, hok, hlok, fun p ↦ ?_, hllive, ?_, ?_⟩
  · rw [hlive, h.order_live]
    simp only [hmem]
    constructor
    · rintro (rfl | ⟨e', he', hp⟩)
      · exact ⟨e, .inr rfl, rfl⟩
      · exact ⟨e', .inl he', hp⟩
    · rintro ⟨e', he' | rfl, hp⟩
      · exact .inr ⟨e', he', hp⟩
      · exact .inl hp.symm
  · intro k' p hp
    simp only [update_apply, htable] at hp
    split_ifs at hp with hkk
    · exact ⟨e, (hmem e).mpr (.inr rfl), Option.some.inj hp, hkk ▸ hk⟩
    · obtain ⟨e', he', hep, hek⟩ := h.table k' p hp
      exact ⟨e', (hmem e').mpr (.inl he'), hep, hek⟩
  · intro e' he'
    rcases (hmem e').mp he' with he' | rfl
    · exact h.in_range e' he'
    · exact Option.isSome_iff_exists.mpr ⟨k, hk⟩

theorem addOrder_spec (h : Represents b a) {node : OrderNode κ} {pool : MemPool (OrderNode κ)}
    (hs : node.side ≠ .INVALID) (hadm : a.Admits node.side node.price) (hok : pool.Ok)
    (hget : pool.get = update b.orderPool.get b.orderPool.nextFreeIndex node)
    (hlive : ∀ p, pool.Live p ↔ p = b.orderPool.nextFreeIndex ∨ b.orderPool.Live p) :
    (∃ b' k, addOrder { b with orderPool := pool } b.orderPool.nextFreeIndex = .ok b' ∧
      Represents b' (a.rest b.ordersAtPricePool.nextFreeIndex (node.entry b.orderPool.nextFreeIndex)) ∧
      TableKey.entry node.key = some k ∧
      b'.orderTable = update b.orderTable k (some b.orderPool.nextFreeIndex) ∧
      b'.orderPool.size = pool.size ∧ b'.ordersAtPricePool.size = b.ordersAtPricePool.size) ∨
    ∃ f, addOrder { b with orderPool := pool } b.orderPool.nextFreeIndex = .error f ∧ f.Exits ∧
      ((∀ l ∈ a.levels, priceToIndex l.price ≠ priceToIndex node.price) ∧
        b.ordersAtPricePool.size ≤ a.levels.length + 1 ∨ TableKey.entry node.key = none) := by
  let e := node.entry b.orderPool.nextFreeIndex
  obtain ⟨hlinked, hstored⟩ := h.linked.construct (fun _ ↦ h.fresh) hget
  have hentry : LevelBook.entryAt { b with orderPool := pool } e.ptr = e := hstored
  rcases linkOrder_spec (e := e) hlinked h.level_pool h.level_live hs hentry (fun _ ↦ h.fresh) hadm with
      ⟨b', hrun, hl', hentry', htable, hblocks, hlsize, hlok, hllive⟩ | ⟨herr, hslot, hfull⟩
  · have hkey : (b'.order e.ptr).key = node.key := by
      rw [(order_fields _ _).1, hentry', hentry]
      rfl
    have hrun' : addOrder { b with orderPool := pool } e.ptr =
        b'.setTable node.key (some e.ptr) := by rw [addOrder, hrun, ok_bind, hkey]
    cases hk : (TableKey.entry node.key : Option τ) with
    | none =>
      rw [setTable, hk] at hrun'
      exact .inr ⟨.outOfRange, hrun', trivial, .inr rfl⟩
    | some k =>
      refine .inl ⟨{ b' with orderTable := update b'.orderTable k (some e.ptr) }, k, ?_, ?_, rfl,
        by rw [htable]; rfl, hblocks.size, hlsize⟩
      · rw [setTable, hk] at hrun'
        exact hrun'
      · exact h.rest hs hk hl' htable (hblocks.ok.mpr hok) hlok (fun p ↦ by rw [hblocks.live, hlive]; rfl)
          hllive
  · refine .inr ⟨.assertion "Memory Pool out of space.", ?_, trivial, .inl ⟨hslot, h.levels_full hfull⟩⟩
    change addOrder { b with orderPool := pool } e.ptr = _
    rw [addOrder, herr]
    rfl

/-- An order is allocated and rested, or the process ends because a pool is exhausted or the order
has no entry in the table. -/
theorem allocate_addOrder_spec (h : Represents b a) (node : OrderNode κ)
    (hs : node.side ≠ .INVALID) (hadm : a.Admits node.side node.price) :
    (∃ b' k, (b.orderPool.allocate node >>= fun r ↦ addOrder { b with orderPool := r.2 } r.1) =
        .ok b' ∧
      Represents b' (a.rest b.ordersAtPricePool.nextFreeIndex (node.entry b.orderPool.nextFreeIndex)) ∧
      TableKey.entry node.key = some k ∧
      b'.orderTable = update b.orderTable k (some b.orderPool.nextFreeIndex) ∧
      b'.orderPool.size = b.orderPool.size ∧
      b'.ordersAtPricePool.size = b.ordersAtPricePool.size) ∨
    ∃ f, (b.orderPool.allocate node >>= fun r ↦ addOrder { b with orderPool := r.2 } r.1) =
        .error f ∧ f.Exits ∧
      (b.orderPool.size ≤ a.entries.length + 1 ∨
        (∀ l ∈ a.levels, priceToIndex l.price ≠ priceToIndex node.price) ∧
          b.ordersAtPricePool.size ≤ a.levels.length + 1 ∨ TableKey.entry node.key = none) := by
  rcases MemPool.allocate_cases h.order_pool node with
      ⟨pool, halloc, hok, hsize, hget, hlive⟩ | ⟨herr, hfull⟩
  · rw [halloc, ok_bind]
    apply (addOrder_spec h hs hadm hok hget hlive).imp
    · rintro ⟨b', k, hrun, hrep, hk, htable, hsize', hlsize⟩
      exact ⟨b', k, hrun, hrep, hk, htable, hsize'.trans hsize, hlsize⟩
    · rintro ⟨f, hrun, hf, hwhy⟩
      exact ⟨f, hrun, hf, .inr hwhy⟩
  · exact .inr ⟨.assertion "Memory Pool out of space.", by rw [herr]; rfl, trivial,
      .inl (h.orders_full hfull)⟩

theorem Complete.rest (h : Complete b a) (hl : Linked b a) {b' : LevelBook κ τ} {e : Entry κ}
    {k : τ} {lp : Ptr} (hs : e.side ≠ .INVALID) (hk : TableKey.entry e.key = some k)
    (ht : b'.orderTable = update b.orderTable k (some e.ptr))
    (hfree : ∀ e' ∈ a.entries, TableKey.entry e'.key ≠ some k) : Complete b' (a.rest lp e) := by
  intro e' he' k' hk'
  rcases (Ladder.mem_entries_rest hs (hl.slots_nodup hs)).mp he' with he' | rfl
  · have hkk : k' ≠ k := fun c ↦ hfree e' he' (c ▸ hk')
    rw [ht, update_of_ne hkk, h e' he' k' hk']
  · obtain rfl : k' = k := Option.some.inj (hk'.symm.trans hk)
    rw [ht, update_self]

end Table

end LowLatency.Book
