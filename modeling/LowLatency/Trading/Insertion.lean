import LowLatency.Book.Opening
import LowLatency.Trading.LevelLists

namespace LowLatency.Exchange.MEOrderBook

open Common Book

/-- The book and the new level with which `add` comes to `addOrdersAtPrice`; `none` if it does not. -/
def insertion (s : MEOrderBook) (o : NewOrder) :
    Except Halt (Option (LevelBook MEOrderKey (ClientId × OrderId) × Ptr)) := do
  let (s', leavesQty) ← (s.accepted o).checkForMatch o.clientId o.clientOrderId o.tickerId o.side o.price
    o.qty s.nextMarketOrderId
  if leavesQty ≠ 0 then
    let priority ← s'.onBook (s'.book.getNextPriority o.price)
    let (order, pool) ← s'.onBook (s'.book.orderPool.allocate (MEOrder.mk o.tickerId o.clientId
      o.clientOrderId s.nextMarketOrderId o.side o.price leavesQty priority none none))
    s'.onBook (LevelBook.opening { s'.book with orderPool := pool } order)
  else return none

variable {s : MEOrderBook} {o : NewOrder} {b : LevelBook MEOrderKey (ClientId × OrderId)} {l : Ptr}

theorem exists_of_insertion (h : s.insertion o = .ok (some (b, l))) :
    ∃ (s' : MEOrderBook) (leavesQty : Qty) (priority : Priority) (order : Ptr) (pool : MemPool MEOrder),
      (s.accepted o).checkForMatch o.clientId o.clientOrderId o.tickerId o.side o.price o.qty
        s.nextMarketOrderId = .ok (s', leavesQty) ∧ leavesQty ≠ 0 ∧
      s'.book.getNextPriority o.price = .ok priority ∧
      s'.book.orderPool.allocate (MEOrder.mk o.tickerId o.clientId o.clientOrderId s.nextMarketOrderId
        o.side o.price leavesQty priority none none) = .ok (order, pool) ∧
      LevelBook.opening { s'.book with orderPool := pool } order = .ok (some (b, l)) := by
  have hok : ∀ {α : Type} {s : MEOrderBook} {x : Except Fault α} {a : α}, s.onBook x = .ok a → x = .ok a := by
    intro α s x a hx
    cases x with
    | ok a' => exact congrArg _ (Except.ok.inj hx)
    | error f => cases hx
  obtain ⟨⟨s', leavesQty⟩, hmatch, h⟩ := bind_eq_ok h
  dsimp only at h
  split at h
  · next hl =>
    obtain ⟨priority, hpriority, h⟩ := bind_eq_ok h
    obtain ⟨⟨order, pool⟩, halloc, h⟩ := bind_eq_ok h
    exact ⟨s', leavesQty, priority, order, pool, hmatch, hl, hok hpriority, hok halloc, hok h⟩
  · cases h

theorem step_of_insertion (h : s.insertion o = .ok (some (b, l))) :
    ∃ (s' : MEOrderBook) (f : LevelBook MEOrderKey (ClientId × OrderId) → Except Halt MEOrderBook),
      s.step (.add o) = s'.onBook (b.addOrdersAtPrice l) >>= f := by
  obtain ⟨s', leavesQty, priority, order, pool, hmatch, hl, hpriority, halloc, hopen⟩ :=
    exists_of_insertion h
  refine ⟨s', fun b' ↦ s'.onBook (b'.setTable (b'.order order).key (some order)) >>= fun b' ↦
    .ok ({ s' with book := b' }.sendMarketUpdate
      ⟨.ADD, s.nextMarketOrderId, o.tickerId, o.side, o.price, leavesQty, priority⟩), ?_⟩
  rw [step_add, hmatch, ok_bind]
  dsimp only
  rw [if_pos hl, addResidual, hpriority, onBook_ok, ok_bind, halloc, onBook_ok, ok_bind]
  dsimp only
  rw [LevelBook.addOrder, linkOrder_of_opening hopen, onBook_bind]
  cases b.addOrdersAtPrice l <;> rfl

theorem Sound.searchEnds (h : s.Sound) (hins : s.insertion o = .ok (some (b, l))) : b.SearchEnds l := by
  obtain ⟨s', leavesQty, priority, order, pool, hmatch, -, -, halloc, hopen⟩ := exists_of_insertion hins
  have hrep : ∃ a, Represents s'.book a := by
    by_cases hs : o.side = .INVALID
    · rw [hs] at hmatch
      obtain ⟨rfl, -⟩ := Prod.mk.inj (Except.ok.inj hmatch)
      exact ⟨_, h.represents⟩
    · obtain ⟨s₁, hmatch₁, htraded⟩ := checkForMatch_spec (s := s.accepted o) h.represents hs
        s.nextMarketOrderId
      obtain ⟨rfl, -⟩ := Prod.mk.inj (Except.ok.inj (hmatch₁.symm.trans hmatch))
      exact ⟨_, htraded.represents⟩
  obtain ⟨a, hrep⟩ := hrep
  exact hrep.searchEnds halloc hopen

end LowLatency.Exchange.MEOrderBook

namespace LowLatency.Trading

open Common Book LevelBook Exchange

/-- The book and the new level with which an update comes to `addOrdersAtPrice`; `none` if it does not. -/
def MarketOrderBook.insertion (m : MarketOrderBook) (u : MEMarketUpdate) :
    Except Fault (Option (LevelBook MarketOrderKey OrderId × Ptr)) :=
  match u.type with
  | .ADD => m.book.orderPool.allocate (MarketOrder.mk u.orderId u.side u.price u.qty u.priority none none)
      >>= fun r ↦ LevelBook.opening { m.book with orderPool := r.2 } r.1
  | _ => .ok none

theorem MarketOrderBook.applyUpdate_of_insertion {m : MarketOrderBook} {u : MEMarketUpdate}
    {b : LevelBook MarketOrderKey OrderId} {l : Ptr} (h : m.insertion u = .ok (some (b, l))) :
    ∃ f : LevelBook MarketOrderKey OrderId → Except Fault (LevelBook MarketOrderKey OrderId),
      applyUpdate m.book u = b.addOrdersAtPrice l >>= f := by
  unfold insertion at h
  split at h
  · next ht =>
    obtain ⟨⟨p, pool⟩, halloc, hopen⟩ := bind_eq_ok h
    refine ⟨fun b' ↦ b'.setTable (b'.order p).key (some p), ?_⟩
    simp only [applyUpdate, ht]
    rw [halloc, ok_bind, LevelBook.addOrder, linkOrder_of_opening hopen]
  · cases h

theorem MarketOrderBook.Sound.searchEnds {m : MarketOrderBook} (h : m.Sound) {u : MEMarketUpdate}
    {b : LevelBook MarketOrderKey OrderId} {l : Ptr} (hins : m.insertion u = .ok (some (b, l))) :
    b.SearchEnds l := by
  unfold MarketOrderBook.insertion at hins
  split at hins
  · obtain ⟨⟨p, pool⟩, halloc, hopen⟩ := bind_eq_ok hins
    exact h.represents.searchEnds halloc hopen
  · cases hins

/-- After every run of both books the search for the place of a new level ends, whatever is added. -/
theorem insertion_ends {tickerId : TickerId} {engine : Ptr} {cs : List MEOrderBook.Call}
    {us : List MEMarketUpdate} {s : MEOrderBook} {m : MarketOrderBook}
    (hcs : Guarded MEOrderBook.step MEOrderBook.Admitted (.new tickerId) cs)
    (hs : (MEOrderBook.new tickerId).run cs = .ok s)
    (hus : Guarded MarketOrderBook.onMarketUpdate (fun m u ↦ Valid m.ladder u)
      ((MarketOrderBook.new tickerId).setTradeEngine (some engine)) us)
    (hm : ((MarketOrderBook.new tickerId).setTradeEngine (some engine)).run us = .ok m) :
    (∀ o b l, s.insertion o = .ok (some (b, l)) → b.SearchEnds l) ∧
    ∀ u b l, m.insertion u = .ok (some (b, l)) → b.SearchEnds l :=
  ⟨fun _ _ _ ↦ (MEOrderBook.sound_of_run hcs hs).searchEnds,
    fun _ _ _ ↦ (MarketOrderBook.sound_of_run hus hm).searchEnds⟩

theorem insertion_ends_between : ∃ s m, (MEOrderBook.new 0).run [.add ⟨1, 1, 0, .SELL, 100, 10⟩,
      .add ⟨2, 2, 0, .SELL, 102, 10⟩, .add ⟨0, 3, 0, .BUY, 99, 4⟩] = .ok s ∧
    ((MarketOrderBook.new 0).setTradeEngine (some 0)).run [⟨.ADD, 7, 0, .SELL, 100, 10, 1⟩,
      ⟨.ADD, 8, 0, .SELL, 102, 10, 1⟩] = .ok m ∧
    (∃ b l, s.insertion ⟨4, 4, 0, .SELL, 101, 14⟩ = .ok (some (b, l)) ∧ b.SearchEnds l) ∧
    ∃ b l, m.insertion ⟨.ADD, 9, 0, .SELL, 101, 10, 1⟩ = .ok (some (b, l)) ∧ b.SearchEnds l := by
  obtain ⟨s, hs, hsins⟩ := Yields.exists_ok (show Yields ((MEOrderBook.new 0).run
    [.add ⟨1, 1, 0, .SELL, 100, 10⟩, .add ⟨2, 2, 0, .SELL, 102, 10⟩, .add ⟨0, 3, 0, .BUY, 99, 4⟩])
    fun s ↦ Yields (s.insertion ⟨4, 4, 0, .SELL, 101, 14⟩) (·.isSome) by decide +kernel)
  obtain ⟨m, hm, hmins⟩ := Yields.exists_ok (show Yields
    (((MarketOrderBook.new 0).setTradeEngine (some 0)).run [⟨.ADD, 7, 0, .SELL, 100, 10, 1⟩,
      ⟨.ADD, 8, 0, .SELL, 102, 10, 1⟩])
    fun m ↦ Yields (m.insertion ⟨.ADD, 9, 0, .SELL, 101, 10, 1⟩) (·.isSome) by decide +kernel)
  obtain ⟨r, hr, hsome⟩ := hsins.exists_ok
  obtain ⟨⟨b, l⟩, rfl⟩ := Option.isSome_iff_exists.mp hsome
  obtain ⟨r', hr', hsome'⟩ := hmins.exists_ok
  obtain ⟨⟨b', l'⟩, rfl⟩ := Option.isSome_iff_exists.mp hsome'
  have h := insertion_ends (by decide +kernel) hs (by decide +kernel) hm
  exact ⟨s, m, hs, hm, ⟨b, l, hr, h.1 _ b l hr⟩, b', l', hr', h.2 _ b' l' hr'⟩

/-- Levels opened at 3, 1 and 2: from the best of them, at 1, the links lead to the other two, which then
lead to each other. A level at 4 is looked for among these two without end. -/
theorem search_never_ends : ∃ s, (MEOrderBook.new 0).run [.add ⟨1, 1, 0, .SELL, 3, 10⟩,
      .add ⟨1, 2, 0, .SELL, 1, 10⟩, .add ⟨1, 3, 0, .SELL, 2, 10⟩] = .ok s ∧
    ∃ b l, s.insertion ⟨1, 4, 0, .SELL, 4, 10⟩ = .ok (some (b, l)) ∧ ¬ b.SearchEnds l := by
  obtain ⟨s, hs, hins⟩ := Yields.exists_ok (show Yields ((MEOrderBook.new 0).run
    [.add ⟨1, 1, 0, .SELL, 3, 10⟩, .add ⟨1, 2, 0, .SELL, 1, 10⟩, .add ⟨1, 3, 0, .SELL, 2, 10⟩])
    fun s ↦ Yields (s.insertion ⟨1, 4, 0, .SELL, 4, 10⟩) fun r ↦ ∃ x ∈ r, x.1.levelSide x.2 = .SELL ∧
      x.1.levelPrice x.2 = 4 ∧ x.1.best .SELL = some 1 ∧
      (x.1.nextEntry 1 = some 0 ∧ x.1.nextEntry 0 = some 2 ∧ x.1.nextEntry 2 = some 0) ∧
      x.1.levelPrice 1 < 4 ∧ x.1.levelPrice 0 < 4 ∧ x.1.levelPrice 2 < 4 by decide +kernel)
  obtain ⟨r, hr, ⟨b, l⟩, rfl, hside, hprice, hbest, ⟨hnext, hnext₀, hnext₂⟩, hlt, hlt₀, hlt₂⟩ :=
    hins.exists_ok
  refine ⟨s, hs, b, l, hr, fun h ↦ ?_⟩
  rw [LevelBook.SearchEnds, hside, hprice] at h
  obtain ⟨vs, r, hsearch, -⟩ := h 1 hbest
  have hafter : ∀ t, b.levelPrice t < 4 →
      addAfter .SELL 4 ((b.setPrice 4 (some l)).levelPrice t) := fun t ht ↦ by
    simpa [addAfter] using ht
  rw [LevelBook.Searches, if_pos (hafter 1 hlt)] at hsearch
  obtain ⟨target, htarget, hp⟩ := hsearch
  obtain rfl : 0 = target := Option.some.inj (hnext.symm.trans htarget)
  rw [hafter 0 hlt₀] at hp
  refine not_passes (S := fun t ↦ t = 0 ∨ t = 2) ?_ (.inl rfl) hp
  rintro t (rfl | rfl)
  · exact ⟨by decide, hafter 0 hlt₀, 2, hnext₀, .inr rfl⟩
  · exact ⟨by decide, hafter 2 hlt₂, 0, hnext₂, .inl rfl⟩

end LowLatency.Trading
