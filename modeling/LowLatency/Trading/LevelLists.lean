import LowLatency.Book.LevelList
import LowLatency.Exchange.Runs
import LowLatency.Trading.Updates

namespace LowLatency.Trading

open Common Book Exchange

theorem MarketOrderBook.sound_of_run {tickerId : TickerId} {engine : Ptr} {us : List MEMarketUpdate}
    {m : MarketOrderBook} (hg : Guarded onMarketUpdate (fun m u ↦ Valid m.ladder u)
      ((new tickerId).setTradeEngine (some engine)) us)
    (hrun : ((new tickerId).setTradeEngine (some engine)).run us = .ok m) : m.Sound :=
  hg.invariant (fun _ _ _ hs hv h ↦ (hs.update hv h).1) (sound_new tickerId engine) hrun

/-- In both books the level lists of both sides are intact after every run. -/
theorem levels_linked {tickerId : TickerId} {engine : Ptr} {cs : List MEOrderBook.Call}
    {us : List MEMarketUpdate} {s : MEOrderBook} {m : MarketOrderBook}
    (hcs : Guarded MEOrderBook.step MEOrderBook.Admitted (.new tickerId) cs)
    (hs : (MEOrderBook.new tickerId).run cs = .ok s)
    (hus : Guarded MarketOrderBook.onMarketUpdate (fun m u ↦ Valid m.ladder u)
      ((MarketOrderBook.new tickerId).setTradeEngine (some engine)) us)
    (hm : ((MarketOrderBook.new tickerId).setTradeEngine (some engine)).run us = .ok m)
    {side : Side} (hside : side ≠ .INVALID) :
    s.book.LevelsLinked side ∧ m.book.LevelsLinked side :=
  ⟨(MEOrderBook.sound_of_run hcs hs).represents.levelsLinked hside,
    (MarketOrderBook.sound_of_run hus hm).represents.levelsLinked hside⟩

def passingLevels : List MEOrderBook.Call :=
  [.add ⟨1, 1, 0, .SELL, 100, 10⟩, .add ⟨2, 2, 0, .SELL, 101, 10⟩, .add ⟨0, 3, 0, .BUY, 99, 4⟩,
    .add ⟨4, 4, 0, .BUY, 101, 14⟩, .cancel 0 3 0]

def passingOrders : List MEMarketUpdate :=
  [⟨.ADD, 7, 0, .SELL, 100, 10, 1⟩, ⟨.ADD, 8, 0, .SELL, 101, 10, 1⟩, ⟨.MODIFY, 7, 0, .SELL, 100, 3, 1⟩,
    ⟨.CANCEL, 7, 0, .SELL, 100, 3, 1⟩]

theorem levels_linked_both : ∃ s m, (MEOrderBook.new 0).run passingLevels = .ok s ∧
    ((MarketOrderBook.new 0).setTradeEngine (some 0)).run passingOrders = .ok m ∧
    ∀ side, side ≠ .INVALID → s.book.LevelsLinked side ∧ m.book.LevelsLinked side := by
  obtain ⟨s, hs⟩ : ∃ s, (MEOrderBook.new 0).run passingLevels = .ok s := exists_ok (by decide +kernel)
  obtain ⟨m, hm⟩ : ∃ m, ((MarketOrderBook.new 0).setTradeEngine (some 0)).run passingOrders = .ok m :=
    exists_ok (by decide +kernel)
  exact ⟨s, m, hs, hm, fun side hside ↦
    levels_linked (by decide +kernel) hs (by decide +kernel) hm hside⟩

/-- A level in front of another, which the new level's links do not survive. -/
def betterInFront : List MEOrderBook.Call :=
  [.add ⟨1, 1, 0, .SELL, 101, 10⟩, .add ⟨1, 2, 0, .SELL, 100, 10⟩]

theorem level_in_front : ∃ s, (MEOrderBook.new 0).run betterInFront = .ok s ∧
    ¬ s.book.LevelsLinked .SELL := by
  obtain ⟨s, hs, hlive, hside, hnext, hprev⟩ := Yields.exists_ok (show Yields
    ((MEOrderBook.new 0).run betterInFront) fun s ↦
      s.book.ordersAtPricePool.Live 1 ∧ s.book.levelSide 1 = .SELL ∧
      s.book.nextEntry 1 = some 0 ∧ s.book.prevEntry 0 ≠ some 1 by decide +kernel)
  refine ⟨s, hs, fun h ↦ ?_⟩
  obtain ⟨⟨n, hn, hp⟩, -⟩ := h.inverse 1 hlive hside
  obtain rfl := Option.some.inj (hnext.symm.trans hn)
  exact hprev hp

/-- In both books `removeOrder` takes out the one order and leaves everything else in place. -/
theorem removeOrder_frame :
    (∀ (b : LevelBook MEOrderKey (ClientId × OrderId)) (a : Ladder MEOrderKey), Book.WellFormed b a →
      b.RemovesOrders a) ∧
    ∀ (b : LevelBook MarketOrderKey OrderId) (a : Ladder MarketOrderKey), Book.WellFormed b a →
      b.RemovesOrders a :=
  ⟨fun _ _ h ↦ h.removesOrders, fun _ _ h ↦ h.removesOrders⟩

def twoAndOne : List MEOrderBook.Call :=
  [.add ⟨1, 1, 0, .SELL, 100, 10⟩, .add ⟨2, 2, 0, .SELL, 100, 10⟩, .add ⟨0, 3, 0, .SELL, 101, 4⟩]

def twoAndOneAdded : List MEMarketUpdate :=
  [⟨.ADD, 7, 0, .SELL, 100, 10, 1⟩, ⟨.ADD, 8, 0, .SELL, 100, 10, 2⟩, ⟨.ADD, 9, 0, .SELL, 101, 3, 1⟩]

theorem removeOrder_frame_both : ∃ s m, (MEOrderBook.new 0).run twoAndOne = .ok s ∧
    ((MarketOrderBook.new 0).setTradeEngine (some 0)).run twoAndOneAdded = .ok m ∧
    s.ladder.entries.length = 3 ∧ s.book.RemovesOrders s.ladder ∧
    m.ladder.entries.length = 3 ∧ m.book.RemovesOrders m.ladder := by
  obtain ⟨s, hs, hlen, htable⟩ := Yields.exists_ok (show Yields ((MEOrderBook.new 0).run twoAndOne)
    fun s ↦ s.ladder.entries.length = 3 ∧ ∀ e ∈ s.ladder.entries,
      (TableKey.entry e.key).bind s.book.orderTable = some e.ptr by decide +kernel)
  obtain ⟨m, hm, hlen'⟩ := Yields.exists_ok (show Yields
    (((MarketOrderBook.new 0).setTradeEngine (some 0)).run twoAndOneAdded)
    fun m ↦ m.ladder.entries.length = 3 by decide +kernel)
  have hsound : s.Sound := MEOrderBook.sound_of_run (by decide +kernel) hs
  have hmsound : m.Sound := MarketOrderBook.sound_of_run (by decide +kernel) hm
  exact ⟨s, m, hs, hm, hlen,
    removeOrder_frame.1 _ _ (hsound.represents.wellFormed (complete_of_stored htable)), hlen',
    removeOrder_frame.2 _ _ (hmsound.represents.wellFormed hmsound.complete)⟩

end LowLatency.Trading
