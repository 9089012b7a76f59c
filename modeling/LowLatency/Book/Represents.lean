import LowLatency.Book.LevelBook
import LowLatency.Book.Ladder
import LowLatency.LinkedRing

namespace LowLatency.Book

open Common Function LinkedRing

namespace LevelBook

variable {κ τ : Type}

/-- What is stored at `p`, without its links. -/
def entryAt (b : LevelBook κ τ) (p : Ptr) : Entry κ :=
  ⟨p, (b.order p).key, (b.order p).side, (b.order p).price, (b.order p).qty, (b.order p).priority⟩

section Fields

variable (b : LevelBook κ τ) (p l : Ptr) (f : OrderNode κ → OrderNode κ)
  (g : OrdersAtPrice → OrdersAtPrice) (v : Option Ptr)

@[simp] theorem ptr_entryAt : (b.entryAt p).ptr = p := rfl

@[simp] theorem order_fields :
    (b.order p).key = (b.entryAt p).key ∧ (b.order p).side = (b.entryAt p).side ∧
    (b.order p).price = (b.entryAt p).price ∧ (b.order p).qty = (b.entryAt p).qty ∧
    (b.order p).priority = (b.entryAt p).priority ∧ (b.order p).prevOrder = b.prevOrder p ∧
    (b.order p).nextOrder = b.nextOrder p := ⟨rfl, rfl, rfl, rfl, rfl, rfl, rfl⟩

@[simp] theorem level_fields :
    (b.level l).side = b.levelSide l ∧ (b.level l).price = b.levelPrice l ∧
    (b.level l).firstOrder = b.firstOrder l ∧ (b.level l).prevEntry = b.prevEntry l ∧
    (b.level l).nextEntry = b.nextEntry l := ⟨rfl, rfl, rfl, rfl, rfl⟩

@[simp] theorem entry_eta : Entry.mk p (b.entryAt p).key (b.entryAt p).side (b.entryAt p).price
    (b.entryAt p).qty (b.entryAt p).priority = b.entryAt p := rfl

theorem field_writeOrder {α : Type} (h : Ptr → OrderNode κ → α) :
    (fun q ↦ h q ((b.writeOrder p f).order q)) =
      update (fun q ↦ h q (b.order q)) p (h p (f (b.order p))) := by
  funext q
  simp only [order, writeOrder, MemPool.get_modify, update_apply]
  split
  · next e => rw [e]
  · rfl

theorem field_writeLevel {α : Type} (h : OrdersAtPrice → α) :
    (fun q ↦ h ((b.writeLevel l g).level q)) =
      update (fun q ↦ h (b.level q)) l (h (g (b.level l))) := by
  funext q
  simp only [level, writeLevel, MemPool.get_modify, update_apply]
  split <;> rfl

@[simp] theorem writeOrder_orders :
    (b.writeOrder p f).prevOrder = update b.prevOrder p (f (b.order p)).prevOrder ∧
    (b.writeOrder p f).nextOrder = update b.nextOrder p (f (b.order p)).nextOrder ∧
    (b.writeOrder p f).entryAt = update b.entryAt p ⟨p, (f (b.order p)).key, (f (b.order p)).side,
      (f (b.order p)).price, (f (b.order p)).qty, (f (b.order p)).priority⟩ :=
  ⟨b.field_writeOrder p f fun _ ↦ OrderNode.prevOrder,
    b.field_writeOrder p f fun _ ↦ OrderNode.nextOrder,
    b.field_writeOrder p f fun q o ↦
      (⟨q, o.key, o.side, o.price, o.qty, o.priority⟩ : Entry κ)⟩

@[simp] theorem writeOrder_pool :
    (b.writeOrder p f).orderPool.Live = b.orderPool.Live ∧
    ((b.writeOrder p f).orderPool.Ok ↔ b.orderPool.Ok) :=
  ⟨MemPool.Live_modify _ _ _, MemPool.ok_modify⟩

@[simp] theorem sameBlocks_writeOrder (m : MemPool (OrderNode κ)) :
    m.SameBlocks (b.writeOrder p f).orderPool ↔ m.SameBlocks b.orderPool :=
  MemPool.sameBlocks_modify

@[simp] theorem writeOrder_frame :
    (b.writeOrder p f).levelSide = b.levelSide ∧ (b.writeOrder p f).levelPrice = b.levelPrice ∧
    (b.writeOrder p f).firstOrder = b.firstOrder ∧ (b.writeOrder p f).prevEntry = b.prevEntry ∧
    (b.writeOrder p f).nextEntry = b.nextEntry ∧ (b.writeOrder p f).best = b.best ∧
    (b.writeOrder p f).priceOrdersAtPrice = b.priceOrdersAtPrice ∧
    (b.writeOrder p f).orderTable = b.orderTable ∧
    (b.writeOrder p f).ordersAtPricePool = b.ordersAtPricePool :=
  ⟨rfl, rfl, rfl, rfl, rfl, rfl, rfl, rfl, rfl⟩

@[simp] theorem writeLevel_levels :
    (b.writeLevel l g).firstOrder = update b.firstOrder l (g (b.level l)).firstOrder ∧
    (b.writeLevel l g).prevEntry = update b.prevEntry l (g (b.level l)).prevEntry ∧
    (b.writeLevel l g).nextEntry = update b.nextEntry l (g (b.level l)).nextEntry ∧
    (b.writeLevel l g).levelSide = update b.levelSide l (g (b.level l)).side ∧
    (b.writeLevel l g).levelPrice = update b.levelPrice l (g (b.level l)).price :=
  ⟨b.field_writeLevel l g OrdersAtPrice.firstOrder, b.field_writeLevel l g OrdersAtPrice.prevEntry,
    b.field_writeLevel l g OrdersAtPrice.nextEntry, b.field_writeLevel l g OrdersAtPrice.side,
    b.field_writeLevel l g OrdersAtPrice.price⟩

@[simp] theorem writeLevel_pool :
    (b.writeLevel l g).ordersAtPricePool.size = b.ordersAtPricePool.size ∧
    (b.writeLevel l g).ordersAtPricePool.Live = b.ordersAtPricePool.Live ∧
    ((b.writeLevel l g).ordersAtPricePool.Ok ↔ b.ordersAtPricePool.Ok) :=
  ⟨rfl, MemPool.Live_modify _ _ _, MemPool.ok_modify⟩

@[simp] theorem writeLevel_frame :
    (b.writeLevel l g).prevOrder = b.prevOrder ∧ (b.writeLevel l g).nextOrder = b.nextOrder ∧
    (b.writeLevel l g).entryAt = b.entryAt ∧ (b.writeLevel l g).best = b.best ∧
    (b.writeLevel l g).priceOrdersAtPrice = b.priceOrdersAtPrice ∧
    (b.writeLevel l g).orderTable = b.orderTable ∧ (b.writeLevel l g).orderPool = b.orderPool :=
  ⟨rfl, rfl, rfl, rfl, rfl, rfl, rfl⟩

@[simp] theorem setBest_frame (side : Side) :
    (b.setBest side v).firstOrder = b.firstOrder ∧ (b.setBest side v).prevEntry = b.prevEntry ∧
    (b.setBest side v).nextEntry = b.nextEntry ∧ (b.setBest side v).levelSide = b.levelSide ∧
    (b.setBest side v).levelPrice = b.levelPrice ∧ (b.setBest side v).prevOrder = b.prevOrder ∧
    (b.setBest side v).nextOrder = b.nextOrder ∧ (b.setBest side v).entryAt = b.entryAt ∧
    (b.setBest side v).priceOrdersAtPrice = b.priceOrdersAtPrice ∧
    (b.setBest side v).orderTable = b.orderTable ∧ (b.setBest side v).orderPool = b.orderPool ∧
    (b.setBest side v).ordersAtPricePool = b.ordersAtPricePool := by
  unfold setBest
  split <;> exact ⟨rfl, rfl, rfl, rfl, rfl, rfl, rfl, rfl, rfl, rfl, rfl, rfl⟩

@[simp] theorem setPrice_frame (price : Price) :
    (b.setPrice price v).firstOrder = b.firstOrder ∧ (b.setPrice price v).prevEntry = b.prevEntry ∧
    (b.setPrice price v).nextEntry = b.nextEntry ∧ (b.setPrice price v).levelSide = b.levelSide ∧
    (b.setPrice price v).levelPrice = b.levelPrice ∧
    (b.setPrice price v).prevOrder = b.prevOrder ∧ (b.setPrice price v).nextOrder = b.nextOrder ∧
    (b.setPrice price v).entryAt = b.entryAt ∧ (b.setPrice price v).best = b.best ∧
    (b.setPrice price v).orderTable = b.orderTable ∧ (b.setPrice price v).orderPool = b.orderPool ∧
    (b.setPrice price v).ordersAtPricePool = b.ordersAtPricePool ∧
    (b.setPrice price v).priceOrdersAtPrice =
      update b.priceOrdersAtPrice (priceToIndex price) v :=
  ⟨rfl, rfl, rfl, rfl, rfl, rfl, rfl, rfl, rfl, rfl, rfl, rfl, rfl⟩

theorem best_setBest {side side' : Side} (hs : side ≠ .INVALID) (hs' : side' ≠ .INVALID) :
    (b.setBest side v).best side' = if side' = side then v else b.best side' := by
  cases side <;> cases side' <;> simp_all [best, setBest]

end Fields

end LevelBook

variable {κ τ : Type}

open LevelBook

structure LevelRep (b : LevelBook κ τ) (side : Side) (l : Level κ) : Prop where
  side_eq : b.levelSide l.ptr = side
  price_eq : b.levelPrice l.ptr = l.price
  first_eq : b.firstOrder l.ptr = l.orders.head?.map Entry.ptr
  orders_ne : l.orders ≠ []
  ring : IsRing b.nextOrder b.prevOrder (l.orders.map Entry.ptr)
  entry_eq : ∀ e ∈ l.orders, b.entryAt e.ptr = e
  entry_side : ∀ e ∈ l.orders, e.side = side
  entry_slot : ∀ e ∈ l.orders, priceToIndex e.price = priceToIndex l.price

structure SideRep (b : LevelBook κ τ) (side : Side) (ls : List (Level κ)) : Prop where
  best_eq : b.best side = ls.head?.map Level.ptr
  ring : IsRing b.nextEntry b.prevEntry (ls.map Level.ptr)
  level_rep : ∀ l ∈ ls, LevelRep b side l
  levels_nodup : (ls.map Level.ptr).Nodup
  orders_nodup : ((queue ls).map Entry.ptr).Nodup

/-- The linked lists and the price index of the book are those of the ladder `a`. -/
structure Linked (b : LevelBook κ τ) (a : Ladder κ) : Prop where
  side_rep : ∀ side, side ≠ .INVALID → SideRep b side (a.on side)
  slot : ∀ i p, b.priceOrdersAtPrice i = some p ↔
    ∃ l ∈ a.levels, l.ptr = p ∧ priceToIndex l.price = i

/-- `b` holds exactly the levels and orders of `a`: its lists are those of `a`, its pools have
nothing else in use, and the order table points at resting orders only. -/
structure Represents [TableKey κ τ] (b : LevelBook κ τ) (a : Ladder κ) : Prop where
  linked : Linked b a
  order_pool : b.orderPool.Ok
  level_pool : b.ordersAtPricePool.Ok
  order_live : ∀ p, b.orderPool.Live p ↔ ∃ e ∈ a.entries, e.ptr = p
  level_live : ∀ p, b.ordersAtPricePool.Live p ↔ ∃ l ∈ a.levels, l.ptr = p
  table : ∀ k p, b.orderTable k = some p → ∃ e ∈ a.entries, e.ptr = p ∧ TableKey.entry e.key = some k
  in_range : ∀ e ∈ a.entries, (TableKey.entry e.key).isSome

structure InUse (b : LevelBook κ τ) (a : Ladder κ) : Prop where
  order : ∀ e ∈ a.entries, e.ptr < b.orderPool.size ∧ b.orderPool.Live e.ptr
  level : ∀ l ∈ a.levels, l.ptr < b.ordersAtPricePool.size ∧ b.ordersAtPricePool.Live l.ptr

theorem Represents.inUse [TableKey κ τ] {b : LevelBook κ τ} {a : Ladder κ} (h : Represents b a) :
    InUse b a where
  order := fun e he ↦
    have hlive := (h.order_live _).mpr ⟨e, he, rfl⟩
    ⟨h.order_pool.bounded _ hlive, hlive⟩
  level := fun l hl ↦
    have hlive := (h.level_live _).mpr ⟨l, hl, rfl⟩
    ⟨h.level_pool.bounded _ hlive, hlive⟩

/-- `b` holds the levels and orders of `a`: the lists and the price index are those of `a`, and the
order table has each order under its own key and nothing else. The pools may hold more. -/
structure WellFormed [TableKey κ τ] (b : LevelBook κ τ) (a : Ladder κ) : Prop where
  linked : Linked b a
  in_use : InUse b a
  table : ∀ k p, b.orderTable k = some p ↔ ∃ e ∈ a.entries, e.ptr = p ∧ TableKey.entry e.key = some k
  in_range : ∀ e ∈ a.entries, (TableKey.entry e.key).isSome

def Complete [TableKey κ τ] (b : LevelBook κ τ) (a : Ladder κ) : Prop :=
  ∀ e ∈ a.entries, ∀ k, TableKey.entry e.key = some k → b.orderTable k = some e.ptr

theorem complete_of_stored [TableKey κ τ] {b : LevelBook κ τ} {a : Ladder κ}
    (h : ∀ e ∈ a.entries, (TableKey.entry e.key).bind b.orderTable = some e.ptr) : Complete b a :=
  fun e he k hk ↦ by
    have hstored := h e he
    rwa [hk, Option.bind_some] at hstored

theorem Represents.wellFormed [TableKey κ τ] {b : LevelBook κ τ} {a : Ladder κ}
    (h : Represents b a) (hc : Complete b a) : WellFormed b a where
  linked := h.linked
  in_use := h.inUse
  table := fun k p ↦ ⟨h.table k p, fun ⟨e, he, hp, hk⟩ ↦ hp ▸ hc e he k hk⟩
  in_range := h.in_range

section Congr

variable {b b' : LevelBook κ τ} {side : Side} {l : Level κ} {ls : List (Level κ)}

theorem LevelRep.congr (h : LevelRep b side l) (hs : b'.levelSide l.ptr = b.levelSide l.ptr)
    (hp : b'.levelPrice l.ptr = b.levelPrice l.ptr)
    (hf : b'.firstOrder l.ptr = b.firstOrder l.ptr)
    (hn : ∀ e ∈ l.orders, b'.nextOrder e.ptr = b.nextOrder e.ptr)
    (hv : ∀ e ∈ l.orders, b'.prevOrder e.ptr = b.prevOrder e.ptr)
    (he : ∀ e ∈ l.orders, b'.entryAt e.ptr = b.entryAt e.ptr) : LevelRep b' side l where
  side_eq := hs.trans h.side_eq
  price_eq := hp.trans h.price_eq
  first_eq := hf.trans h.first_eq
  orders_ne := h.orders_ne
  ring := h.ring.congr (by simpa using hn) (by simpa using hv)
  entry_eq := fun e hm ↦ (he e hm).trans (h.entry_eq e hm)
  entry_side := h.entry_side
  entry_slot := h.entry_slot

theorem SideRep.congr (h : SideRep b side ls) (hb : b'.best side = b.best side)
    (hnl : ∀ l ∈ ls, b'.nextEntry l.ptr = b.nextEntry l.ptr)
    (hvl : ∀ l ∈ ls, b'.prevEntry l.ptr = b.prevEntry l.ptr)
    (hl : ∀ l ∈ ls, LevelRep b' side l) : SideRep b' side ls where
  best_eq := hb.trans h.best_eq
  ring := h.ring.congr (by simpa using hnl) (by simpa using hvl)
  level_rep := hl
  levels_nodup := h.levels_nodup
  orders_nodup := h.orders_nodup

end Congr

structure SameLists (b b' : LevelBook κ τ) : Prop where
  entryAt : b'.entryAt = b.entryAt
  prevOrder : b'.prevOrder = b.prevOrder
  nextOrder : b'.nextOrder = b.nextOrder
  firstOrder : b'.firstOrder = b.firstOrder
  levelSide : b'.levelSide = b.levelSide
  levelPrice : b'.levelPrice = b.levelPrice
  prevEntry : b'.prevEntry = b.prevEntry
  nextEntry : b'.nextEntry = b.nextEntry
  best : b'.best = b.best

theorem SameLists.trans {b₁ b₂ b₃ : LevelBook κ τ} (h : SameLists b₁ b₂) (h' : SameLists b₂ b₃) :
    SameLists b₁ b₃ :=
  ⟨h'.entryAt.trans h.entryAt, h'.prevOrder.trans h.prevOrder, h'.nextOrder.trans h.nextOrder,
    h'.firstOrder.trans h.firstOrder, h'.levelSide.trans h.levelSide,
    h'.levelPrice.trans h.levelPrice, h'.prevEntry.trans h.prevEntry,
    h'.nextEntry.trans h.nextEntry, h'.best.trans h.best⟩

theorem sameLists_setPrice (b : LevelBook κ τ) (price : Price) (v : Option Ptr) :
    SameLists b (b.setPrice price v) := ⟨rfl, rfl, rfl, rfl, rfl, rfl, rfl, rfl, rfl⟩

theorem sameLists_table (b : LevelBook κ τ) (t : τ → Option Ptr) :
    SameLists b { b with orderTable := t } := ⟨rfl, rfl, rfl, rfl, rfl, rfl, rfl, rfl, rfl⟩

theorem sameLists_levelPool {b : LevelBook κ τ} {pool : MemPool OrdersAtPrice}
    (h : ∀ q, pool.get q = b.ordersAtPricePool.get q) :
    SameLists b { b with ordersAtPricePool := pool } := by
  have hl : level { b with ordersAtPricePool := pool } = b.level := funext h
  constructor <;> first | rfl | (funext q; exact congrArg _ (congrFun hl q))

theorem sameLists_orderPool {b : LevelBook κ τ} {pool : MemPool (OrderNode κ)}
    (h : ∀ q, pool.get q = b.orderPool.get q) : SameLists b { b with orderPool := pool } := by
  have ho : order { b with orderPool := pool } = b.order := funext h
  constructor
  case entryAt => funext q; simp only [LevelBook.entryAt, ho]
  all_goals first | rfl | (funext q; exact congrArg _ (congrFun ho q))

theorem SameLists.sideRep {b b' : LevelBook κ τ} {side : Side} {ls : List (Level κ)}
    (h : SameLists b b') (hs : SideRep b side ls) : SideRep b' side ls :=
  hs.congr (by rw [h.best]) (fun _ _ ↦ by rw [h.nextEntry]) (fun _ _ ↦ by rw [h.prevEntry])
    fun l hl ↦ (hs.level_rep l hl).congr (by rw [h.levelSide]) (by rw [h.levelPrice])
      (by rw [h.firstOrder]) (fun _ _ ↦ by rw [h.nextOrder]) (fun _ _ ↦ by rw [h.prevOrder])
      (fun _ _ ↦ by rw [h.entryAt])

theorem SameLists.linked {b b' : LevelBook κ τ} {a : Ladder κ} (h : SameLists b b')
    (hp : b'.priceOrdersAtPrice = b.priceOrdersAtPrice) (hl : Linked b a) : Linked b' a :=
  ⟨fun side hs ↦ h.sideRep (hl.side_rep side hs), by rw [hp]; exact hl.slot⟩

structure LevelFrame (b b' : LevelBook κ τ) (side : Side) : Prop where
  entryAt : b'.entryAt = b.entryAt
  prevOrder : b'.prevOrder = b.prevOrder
  nextOrder : b'.nextOrder = b.nextOrder
  firstOrder : b'.firstOrder = b.firstOrder
  levelSide : b'.levelSide = b.levelSide
  levelPrice : b'.levelPrice = b.levelPrice
  orderTable : b'.orderTable = b.orderTable
  orderPool : b'.orderPool = b.orderPool
  priceOrdersAtPrice : b'.priceOrdersAtPrice = b.priceOrdersAtPrice
  size : b'.ordersAtPricePool.size = b.ordersAtPricePool.size
  live : b'.ordersAtPricePool.Live = b.ordersAtPricePool.Live
  ok : b'.ordersAtPricePool.Ok ↔ b.ordersAtPricePool.Ok
  best : ∀ side', side' ≠ .INVALID → side' ≠ side → b'.best side' = b.best side'

theorem LevelFrame.levelRep {b b' : LevelBook κ τ} {side side' : Side} {l : Level κ}
    (h : LevelFrame b b' side) (hl : LevelRep b side' l) : LevelRep b' side' l :=
  hl.congr (by rw [h.levelSide]) (by rw [h.levelPrice]) (by rw [h.firstOrder])
    (fun _ _ ↦ by rw [h.nextOrder]) (fun _ _ ↦ by rw [h.prevOrder]) (fun _ _ ↦ by rw [h.entryAt])

structure OrderFrame (b b' : LevelBook κ τ) (lp : Ptr) : Prop where
  entryAt : b'.entryAt = b.entryAt
  levelSide : b'.levelSide = b.levelSide
  levelPrice : b'.levelPrice = b.levelPrice
  prevEntry : b'.prevEntry = b.prevEntry
  nextEntry : b'.nextEntry = b.nextEntry
  best : b'.best = b.best
  priceOrdersAtPrice : b'.priceOrdersAtPrice = b.priceOrdersAtPrice
  orderTable : b'.orderTable = b.orderTable
  orderPool : b.orderPool.SameBlocks b'.orderPool
  size : b'.ordersAtPricePool.size = b.ordersAtPricePool.size
  live : b'.ordersAtPricePool.Live = b.ordersAtPricePool.Live
  ok : b'.ordersAtPricePool.Ok ↔ b.ordersAtPricePool.Ok
  firstOrder : ∀ l, l ≠ lp → b'.firstOrder l = b.firstOrder l

theorem OrderFrame.levelRep {b b' : LevelBook κ τ} {side : Side} {l : Level κ} {os : List (Entry κ)}
    (hf : OrderFrame b b' l.ptr) (h : LevelRep b side l) (hne : os ≠ [])
    (hfirst : b'.firstOrder l.ptr = os.head?.map Entry.ptr)
    (hring : IsRing b'.nextOrder b'.prevOrder (os.map Entry.ptr))
    (hos : ∀ e ∈ os, e ∈ l.orders ∨
      b.entryAt e.ptr = e ∧ e.side = side ∧ priceToIndex e.price = priceToIndex l.price) :
    LevelRep b' side { l with orders := os } where
  side_eq := hf.levelSide ▸ h.side_eq
  price_eq := hf.levelPrice ▸ h.price_eq
  first_eq := hfirst
  orders_ne := hne
  ring := hring
  entry_eq := fun e he ↦ hf.entryAt ▸ (hos e he).elim (h.entry_eq e) And.left
  entry_side := fun e he ↦ (hos e he).elim (h.entry_side e) fun h ↦ h.2.1
  entry_slot := fun e he ↦ (hos e he).elim (h.entry_slot e) fun h ↦ h.2.2

section Facts

variable {b : LevelBook κ τ} {a : Ladder κ} {side side' : Side} {l l' : Level κ} {e e' : Entry κ}
  {ls : List (Level κ)}

theorem SideRep.entry_eq (h : SideRep b side ls) (he : e ∈ queue ls) : b.entryAt e.ptr = e := by
  obtain ⟨l, hl, he⟩ := mem_queue.mp he
  exact (h.level_rep l hl).entry_eq e he

theorem SideRep.entry_side (h : SideRep b side ls) (he : e ∈ queue ls) : e.side = side := by
  obtain ⟨l, hl, he⟩ := mem_queue.mp he
  exact (h.level_rep l hl).entry_side e he

theorem SideRep.side_of_level (h : SideRep b side ls) {ls' : List (Level κ)}
    (h' : SideRep b side' ls') (hl : l ∈ ls) (hl' : l' ∈ ls') (hp : l.ptr = l'.ptr) : side = side' :=
  (h.level_rep l hl).side_eq.symm.trans (hp ▸ (h'.level_rep l' hl').side_eq)

theorem Linked.notMem_other_side (h : Linked b a) (hs : side ≠ .INVALID) (hs' : side' ≠ .INVALID)
    (hne : side' ≠ side) (hl : l ∈ a.on side') : l.ptr ∉ (a.on side).map Level.ptr := fun hmem ↦ by
  obtain ⟨m, hm, hp⟩ := List.mem_map.mp hmem
  exact hne ((h.side_rep side' hs').side_of_level (h.side_rep side hs) hl hm hp.symm)

theorem SideRep.level_inj (h : SideRep b side ls) (hl : l ∈ ls) (hl' : l' ∈ ls)
    (hp : l.ptr = l'.ptr) : l = l' := List.inj_on_of_nodup_map h.levels_nodup hl hl' hp

theorem Linked.entry_eq (h : Linked b a) (he : e ∈ a.entries) : b.entryAt e.ptr = e := by
  obtain ⟨side, hs, he⟩ := Ladder.mem_entries.mp he
  exact (h.side_rep side hs).entry_eq he

theorem Linked.orders_ne (h : Linked b a) (hl : l ∈ a.levels) : l.orders ≠ [] := by
  obtain ⟨side, hs, hl⟩ := Ladder.mem_levels.mp hl
  exact ((h.side_rep side hs).level_rep l hl).orders_ne

theorem Linked.entry_inj (h : Linked b a) (he : e ∈ a.entries) (he' : e' ∈ a.entries)
    (hp : e.ptr = e'.ptr) : e = e' := by
  rw [← h.entry_eq he, ← h.entry_eq he', hp]

theorem Linked.entry_side (h : Linked b a) (hs : side ≠ .INVALID) (he : e ∈ queue (a.on side)) :
    e.side = side := (h.side_rep side hs).entry_side he

theorem Represents.entryAt_mem [TableKey κ τ] (h : Represents b a) {p : Ptr} (hp : b.orderPool.Live p) :
    b.entryAt p ∈ queue (a.on (b.order p).side) := by
  obtain ⟨e, he, rfl⟩ := (h.order_live p).mp hp
  obtain ⟨side, hs, he'⟩ := Ladder.mem_entries.mp he
  have hentry := h.linked.entry_eq he
  have hside : (b.order e.ptr).side = side :=
    (congrArg Entry.side hentry).trans (h.linked.entry_side hs he')
  rw [hentry, hside]
  exact he'

theorem Linked.length_queue_lt (h : Linked b a) (hu : InUse b a) (hs : side ≠ .INVALID) :
    (queue (a.on side)).length < b.orderPool.size + 2 := by
  have hle := length_le_of_lt (h.side_rep side hs).orders_nodup (n := b.orderPool.size) fun p hp ↦ by
    obtain ⟨e, he, rfl⟩ := List.mem_map.mp hp
    exact (hu.order e (Ladder.mem_entries.mpr ⟨side, hs, he⟩)).1
  rw [List.length_map] at hle
  omega

theorem Represents.length_queue_lt [TableKey κ τ] (h : Represents b a) (hs : side ≠ .INVALID) :
    (queue (a.on side)).length < b.orderPool.size + 2 := h.linked.length_queue_lt h.inUse hs

theorem Linked.level_inj (h : Linked b a) (hl : l ∈ a.levels) (hl' : l' ∈ a.levels)
    (hp : l.ptr = l'.ptr) : l = l' := by
  obtain ⟨side, hs, hl⟩ := Ladder.mem_levels.mp hl
  obtain ⟨side', hs', hl'⟩ := Ladder.mem_levels.mp hl'
  have := (h.side_rep side hs).side_of_level (h.side_rep side' hs') hl hl' hp
  subst this
  exact (h.side_rep side hs).level_inj hl hl' hp

theorem Linked.slot_inj (h : Linked b a) (hl : l ∈ a.levels) (hl' : l' ∈ a.levels)
    (hi : priceToIndex l.price = priceToIndex l'.price) : l = l' := by
  have h₁ := (h.slot _ _).mpr ⟨l, hl, rfl, rfl⟩
  have h₂ := (h.slot _ _).mpr ⟨l', hl', rfl, rfl⟩
  rw [hi, h₂] at h₁
  exact h.level_inj hl hl' (Option.some.inj h₁).symm

theorem Linked.getOrdersAtPrice_eq (h : Linked b a) (hl : l ∈ a.levels) {price : Price}
    (hi : priceToIndex price = priceToIndex l.price) : b.getOrdersAtPrice price = some l.ptr :=
  (h.slot _ _).mpr ⟨l, hl, rfl, hi.symm⟩

theorem Linked.congr (h : Linked b a) {b' : LevelBook κ τ} (hbest : b'.best = b.best)
    (hslots : b'.priceOrdersAtPrice = b.priceOrdersAtPrice)
    (hl : ∀ l ∈ a.levels, b'.level l.ptr = b.level l.ptr)
    (he : ∀ e ∈ a.entries, b'.order e.ptr = b.order e.ptr) : Linked b' a := by
  refine ⟨fun side hs ↦ ?_, by rw [hslots]; exact h.slot⟩
  have hside := h.side_rep side hs
  have hlev : ∀ l ∈ a.on side, b'.level l.ptr = b.level l.ptr := fun l hm ↦
    hl l (Ladder.mem_levels.mpr ⟨side, hs, hm⟩)
  refine hside.congr (by rw [hbest]) (fun l hm ↦ congrArg _ (hlev l hm))
    (fun l hm ↦ congrArg _ (hlev l hm)) fun l hm ↦ ?_
  have hord : ∀ e ∈ l.orders, b'.order e.ptr = b.order e.ptr := fun e hel ↦
    he e (Ladder.mem_entries.mpr ⟨side, hs, mem_queue.mpr ⟨l, hm, hel⟩⟩)
  exact (hside.level_rep l hm).congr (congrArg _ (hlev l hm)) (congrArg _ (hlev l hm))
    (congrArg _ (hlev l hm)) (fun e hel ↦ congrArg _ (hord e hel))
    (fun e hel ↦ congrArg _ (hord e hel)) fun e hel ↦ by simp only [LevelBook.entryAt, hord e hel]

theorem Linked.level_of_entry (h : Linked b a) (hl : l ∈ a.levels) (hl' : l' ∈ a.levels)
    (he : e ∈ l.orders) (he' : e ∈ l'.orders) : l = l' := by
  have hslot : ∀ m ∈ a.levels, e ∈ m.orders → priceToIndex e.price = priceToIndex m.price := by
    intro m hm hem
    obtain ⟨side, hs, hm⟩ := Ladder.mem_levels.mp hm
    exact ((h.side_rep side hs).level_rep m hm).entry_slot e hem
  exact h.slot_inj hl hl' ((hslot l hl he).symm.trans (hslot l' hl' he'))

theorem SideRep.level_orders_nodup (h : SideRep b side ls) (hl : l ∈ ls) :
    (l.orders.map Entry.ptr).Nodup :=
  h.orders_nodup.sublist ((List.sublist_flatten_of_mem (List.mem_map_of_mem hl)).map _)

section Replace

variable {b' : LevelBook κ τ} {ls₁ ls₂ : List (Level κ)} {os : List (Entry κ)}

theorem SideRep.replace_level (h : SideRep b side (ls₁ ++ l :: ls₂)) (hf : OrderFrame b b' l.ptr)
    (hl' : LevelRep b' side { l with orders := os })
    (hother : ∀ m ∈ ls₁ ++ l :: ls₂, m ≠ l → LevelRep b' side m)
    (hd : ((queue (ls₁ ++ { l with orders := os } :: ls₂)).map Entry.ptr).Nodup) :
    SideRep b' side (ls₁ ++ { l with orders := os } :: ls₂) := by
  have hptrs : (ls₁ ++ { l with orders := os } :: ls₂).map Level.ptr =
      (ls₁ ++ l :: ls₂).map Level.ptr := by simp
  have hnl : l ∉ ls₁ ++ ls₂ :=
    (List.nodup_cons.mp (List.perm_middle.nodup_iff.mp h.levels_nodup.of_map)).1
  refine ⟨?_, ?_, ?_, hptrs ▸ h.levels_nodup, hd⟩
  · rw [hf.best, h.best_eq]
    cases ls₁ <;> rfl
  · rw [hptrs, hf.nextEntry, hf.prevEntry]
    exact h.ring
  · intro m hm
    by_cases hml : m = { l with orders := os }
    · exact hml ▸ hl'
    · have hm' : m ∈ ls₁ ++ ls₂ := by
        simp only [List.mem_append, List.mem_cons] at hm ⊢
        tauto
      refine hother m ?_ fun e ↦ hnl (e ▸ hm')
      simp only [List.mem_append, List.mem_cons] at hm' ⊢
      tauto

theorem Linked.replace_level (h : Linked b a) (hs : side ≠ .INVALID)
    (hon : a.on side = ls₁ ++ l :: ls₂) (hf : OrderFrame b b' l.ptr)
    (hlinks : ∀ e ∈ a.entries, e.ptr ∉ l.orders.map Entry.ptr →
      b'.nextOrder e.ptr = b.nextOrder e.ptr ∧ b'.prevOrder e.ptr = b.prevOrder e.ptr)
    (hl' : LevelRep b' side { l with orders := os })
    (hd : ((queue (ls₁ ++ { l with orders := os } :: ls₂)).map Entry.ptr).Nodup) :
    Linked b' (a.setOn side (ls₁ ++ { l with orders := os } :: ls₂)) := by
  have hl : l ∈ a.on side := by simp [hon]
  have hlv : l ∈ a.levels := Ladder.mem_levels.mpr ⟨side, hs, hl⟩
  have hrep := h.side_rep side hs
  have hother : ∀ side', side' ≠ .INVALID → ∀ m ∈ a.on side', m ≠ l → LevelRep b' side' m := by
    intro side' hs' m hm hne
    have hml : m ∈ a.levels := Ladder.mem_levels.mpr ⟨side', hs', hm⟩
    have hsame : ∀ e ∈ m.orders, b'.nextOrder e.ptr = b.nextOrder e.ptr ∧
        b'.prevOrder e.ptr = b.prevOrder e.ptr := by
      intro e he
      have hea : e ∈ a.entries := Ladder.mem_entries.mpr ⟨side', hs', mem_queue.mpr ⟨m, hm, he⟩⟩
      refine hlinks e hea fun hp ↦ ?_
      obtain ⟨e', he', hpe⟩ := List.mem_map.mp hp
      have hea' : e' ∈ a.entries := Ladder.mem_entries.mpr ⟨side, hs, mem_queue.mpr ⟨l, hl, he'⟩⟩
      exact hne (h.level_of_entry hml hlv he (h.entry_inj hea' hea hpe ▸ he'))
    exact ((h.side_rep side' hs').level_rep m hm).congr (by rw [hf.levelSide]) (by rw [hf.levelPrice])
      (hf.firstOrder m.ptr fun e ↦ hne (h.level_inj hml hlv e)) (fun e he ↦ (hsame e he).1)
      (fun e he ↦ (hsame e he).2) (fun e _ ↦ by rw [hf.entryAt])
  constructor
  · intro side' hs'
    rw [Ladder.on_setOn hs hs']
    split_ifs with he
    · subst he
      rw [hon] at hrep
      exact hrep.replace_level hf hl' (fun m hm ↦ hother side' hs m (hon ▸ hm)) hd
    · have hrep' := h.side_rep side' hs'
      refine hrep'.congr (by rw [hf.best]) (fun _ _ ↦ by rw [hf.nextEntry])
        (fun _ _ ↦ by rw [hf.prevEntry]) fun m hm ↦ hother side' hs' m hm ?_
      rintro rfl
      exact he (hrep'.side_of_level hrep hm hl rfl)
  · intro i p
    rw [hf.priceOrdersAtPrice, h.slot, Ladder.exists_levels_setOn hs (by simp [hon])
      fun q price ↦ q = p ∧ priceToIndex price = i]

end Replace

end Facts

end LowLatency.Book
