import LowLatency.Exchange.SnapshotSynthesizer
import LowLatency.Trading.LevelLists
import LowLatency.Trading.Resembles

namespace LowLatency.Trading

open Common Book Exchange MarketOrderBook
open MemPool (Freed exists_freed)

variable {b : LevelBook MarketOrderKey OrderId} {side : Side}

/-- Following `nextEntry` from the best level of the side leads through `ls` and back. -/
def Visits (b : LevelBook MarketOrderKey OrderId) (side : Side) : List Ptr → Prop
  | [] => b.best side = none
  | l :: ls => b.best side = some l ∧ (l :: ls ++ [l]).IsChain fun l n ↦ b.nextEntry l = some n

/-- Every order in use is stored under one id, and every level in use is met once by following
`nextEntry` from the best levels. -/
structure Clearable (b : LevelBook MarketOrderKey OrderId) : Prop where
  orders_ok : b.orderPool.Ok
  orders_size : b.orderPool.size = ME_MAX_ORDER_IDS
  levels_ok : b.ordersAtPricePool.Ok
  levels_size : b.ordersAtPricePool.size = ME_MAX_ORDER_IDS
  stored : ∀ p, b.orderPool.Live p ↔ ∃ k < ME_MAX_ORDER_IDS, b.orderTable k = some p
  once : ∀ k k' p, b.orderTable k = some p → b.orderTable k' = some p → k = k'
  lists : ∃ bids asks, Visits b .BUY bids ∧ Visits b .SELL asks ∧ (bids ++ asks).Nodup ∧
    ∀ l, b.ordersAtPricePool.Live l ↔ l ∈ bids ++ asks

structure Emptied (b : LevelBook MarketOrderKey OrderId) : Prop where
  orders : b.orderPool.Vacant ME_MAX_ORDER_IDS
  levels : b.ordersAtPricePool.Vacant ME_MAX_ORDER_IDS
  bids : b.bidsByPrice = none
  asks : b.asksByPrice = none
  table : ∀ k, b.orderTable k = none

theorem Emptied.best (h : Emptied b) (side : Side) : b.best side = none := by
  unfold LevelBook.best
  split
  · exact h.bids
  · exact h.asks

theorem Emptied.bestQuote (h : Emptied b) (side : Side) :
    bestQuote b side = .ok (Price_INVALID, Qty_INVALID) := by
  rw [Trading.bestQuote, h.best]

section Spec

theorem Visits.congr {b' : LevelBook MarketOrderKey OrderId} {ls : List Ptr} (h : Visits b side ls)
    (hbest : b'.best side = b.best side) (hnext : b'.nextEntry = b.nextEntry) : Visits b' side ls := by
  cases ls with
  | nil => exact hbest.trans h
  | cons l ls => exact ⟨hbest.trans h.1, hnext ▸ h.2⟩

theorem clear_orders {table : OrderId → Option Ptr} {pool : MemPool MarketOrder} {ids : List OrderId}
    (hok : pool.Ok) (hd : ids.Nodup) (hlive : ∀ k ∈ ids, ∀ p, table k = some p → pool.Live p)
    (honce : ∀ k k' p, table k = some p → table k' = some p → k = k') :
    ∃ pool', ids.foldlM (fun (pool : MemPool MarketOrder) orderId ↦ match table orderId with
        | none => Except.ok pool
        | some order => pool.deallocate order) pool = .ok pool' ∧
      Freed pool pool' (ids.filterMap table) := by
  induction ids using List.reverseRecOn with
  | nil => exact ⟨pool, rfl, .nil hok⟩
  | append_singleton ids k ih =>
    rw [List.nodup_append] at hd
    obtain ⟨pool', hrun, hfreed⟩ := ih hd.1 fun k hk ↦ hlive k (List.mem_append_left _ hk)
    rw [foldlM_concat _ _ _ _ hrun, List.filterMap_append]
    cases ht : table k with
    | none => exact ⟨pool', rfl, by simpa [ht] using hfreed⟩
    | some p =>
      have hp : pool'.Live p := by
        refine (hfreed.live p).mpr ⟨hlive k (by simp) p ht, fun hmem ↦ ?_⟩
        obtain ⟨k', hk', ht'⟩ := List.mem_filterMap.mp hmem
        exact hd.2.2 k' hk' k (by simp) (honce k' k p ht' ht)
      obtain ⟨pool'', hrun', hfreed'⟩ := exists_freed hfreed.ok hp
      exact ⟨pool'', hrun', by simpa [ht] using hfreed.trans hfreed'⟩

theorem clearLoop_spec {best : Ptr} {ps : List Ptr} {fuel : ℕ} (hok : b.ordersAtPricePool.Ok)
    (hchain : (ps ++ [best]).IsChain fun l n ↦ b.nextEntry l = some n) (hbest : best ∉ ps)
    (hd : ps.Nodup) (hlive : ∀ l ∈ ps, b.ordersAtPricePool.Live l) (hn : ps.length < fuel) {p : Ptr}
    (hp : (ps ++ [best]).head? = some p) :
    ∃ pool, clearLoop best fuel b p = .ok { b with ordersAtPricePool := pool } ∧
      Freed b.ordersAtPricePool pool ps := by
  induction ps generalizing b fuel p with
  | nil =>
    obtain rfl : best = p := by simpa using hp
    cases fuel with
    | zero => simp at hn
    | succ fuel => exact ⟨_, by rw [clearLoop, if_pos rfl], .nil hok⟩
  | cons q ps ih =>
    obtain rfl : q = p := by simpa using hp
    cases fuel with
    | zero => simp at hn
    | succ fuel =>
      obtain ⟨r, hr⟩ : ∃ r, (ps ++ [best]).head? = some r := by cases ps <;> simp
      obtain ⟨hq, hd⟩ := List.nodup_cons.mp hd
      rw [List.mem_cons, not_or] at hbest
      rw [List.cons_append, List.isChain_cons] at hchain
      obtain ⟨pool, hrun, hfreed⟩ := exists_freed hok (hlive q List.mem_cons_self)
      have hsame := (sameLists_levelPool (b := b) (congrFun hfreed.get)).nextEntry
      obtain ⟨pool', hrun', hfreed'⟩ := ih (b := { b with ordersAtPricePool := pool }) hfreed.ok
        (by rw [hsame]; exact hchain.2) hbest.2 hd (fun l hl ↦ (hfreed.live l).mpr
          ⟨hlive l (List.mem_cons_of_mem q hl), fun hlq ↦ hq (List.mem_singleton.mp hlq ▸ hl)⟩)
        (by simpa using hn) hr
      refine ⟨pool', ?_, hfreed.trans hfreed'⟩
      rw [clearLoop, if_neg (Ne.symm hbest.1), hrun, ok_bind]
      dsimp only
      rw [hsame, hchain.1 r hr]
      exact hrun'

theorem clearLevels_spec {ls : List Ptr} (hok : b.ordersAtPricePool.Ok) (hls : Visits b side ls)
    (hd : ls.Nodup) (hlive : ∀ l ∈ ls, b.ordersAtPricePool.Live l) :
    ∃ pool, clearLevels b side = .ok { b with ordersAtPricePool := pool } ∧
      Freed b.ordersAtPricePool pool ls := by
  cases ls with
  | nil =>
    have hbest : b.best side = none := hls
    exact ⟨_, by rw [clearLevels, hbest], .nil hok⟩
  | cons best ls =>
    obtain ⟨hbest, hchain⟩ := hls
    obtain ⟨hnot, hd⟩ := List.nodup_cons.mp hd
    rw [List.cons_append, List.isChain_cons] at hchain
    obtain ⟨r, hr⟩ : ∃ r, (ls ++ [best]).head? = some r := by cases ls <;> simp
    have hlen : ls.length ≤ b.ordersAtPricePool.size :=
      length_le_of_lt hd fun l hl ↦ hok.bounded l (hlive l (List.mem_cons_of_mem best hl))
    obtain ⟨pool, hrun, hfreed⟩ := clearLoop_spec hok hchain.2 hnot hd
      (fun l hl ↦ hlive l (List.mem_cons_of_mem best hl)) (Nat.lt_succ_of_le hlen) hr
    obtain ⟨pool', hrun', hfreed'⟩ := exists_freed hfreed.ok
      ((hfreed.live best).mpr ⟨hlive best List.mem_cons_self, hnot⟩)
    refine ⟨pool', ?_, hfreed'.ok, hfreed'.size.trans hfreed.size, hfreed'.get.trans hfreed.get,
      fun q ↦ ?_⟩
    · rw [clearLevels, hbest]
      simp only [hchain.1 r hr, deref_some, ok_bind, hrun, hrun']
      rfl
    · rw [hfreed'.live, hfreed.live, List.mem_singleton, List.mem_cons, not_or]
      tauto

theorem clear_spec (h : Clearable b) : ∃ b', clear b = .ok b' ∧ Emptied b' ∧
    b'.priceOrdersAtPrice = b.priceOrdersAtPrice := by
  obtain ⟨bids, asks, hbids, hasks, hd, hlevels⟩ := h.lists
  obtain ⟨hbd, had, hne⟩ := List.nodup_append.mp hd
  obtain ⟨pool, hrun, hpool⟩ := clear_orders h.orders_ok List.nodup_range
    (fun k hk p hp ↦ (h.stored p).mpr ⟨k, List.mem_range.mp hk, hp⟩) h.once
  let b₁ : LevelBook MarketOrderKey OrderId :=
    { b with orderPool := pool, orderTable := fun _ ↦ none }
  obtain ⟨lpool₁, hrun₁, hfreed₁⟩ := clearLevels_spec (b := b₁) h.levels_ok (hbids.congr rfl rfl) hbd
    fun l hl ↦ (hlevels l).mpr (List.mem_append_left _ hl)
  have hsame := sameLists_levelPool (b := b₁) (congrFun hfreed₁.get)
  obtain ⟨lpool, hrun₂, hfreed₂⟩ := clearLevels_spec (b := { b₁ with ordersAtPricePool := lpool₁ })
    hfreed₁.ok (hasks.congr rfl hsame.nextEntry) had fun l hl ↦ (hfreed₁.live l).mpr
      ⟨(hlevels l).mpr (List.mem_append_right _ hl), fun hl' ↦ hne l hl' l hl rfl⟩
  have hfreed := hfreed₁.trans hfreed₂
  have hsize := hpool.size.trans h.orders_size
  have hlsize := hfreed.size.trans h.levels_size
  let b' : LevelBook MarketOrderKey OrderId := { b with
    orderPool := pool
    ordersAtPricePool := lpool
    bidsByPrice := none
    asksByPrice := none
    orderTable := fun _ ↦ none }
  refine ⟨b', ?_, ⟨⟨hsize, hsize ▸ hpool.ok.next_lt, fun p _ hp ↦ ?_⟩,
    ⟨hlsize, hlsize ▸ hfreed.ok.next_lt, fun l _ hl ↦ ?_⟩, rfl, rfl, fun _ ↦ rfl⟩, rfl⟩
  · unfold clear
    refine (congrArg (· >>= _) hrun).trans ?_
    dsimp only [ok_bind]
    rw [hrun₁, ok_bind, hrun₂]
    rfl
  · obtain ⟨hlive, hnot⟩ := (hpool.live p).mp hp
    obtain ⟨k, hk, ht⟩ := (h.stored p).mp hlive
    exact hnot (List.mem_filterMap.mpr ⟨k, List.mem_range.mpr hk, ht⟩)
  · obtain ⟨hlive, hnot⟩ := (hfreed.live l).mp hl
    exact hnot ((hlevels l).mp hlive)

end Spec

section Moved

variable {G : MarketOrderKey → Price → Prop}

theorem Emptied.of_moved {b' : LevelBook MarketOrderKey OrderId} {P Q : Ptr → Ptr → Prop}
    (h : Emptied b) (hm : Moved G P Q b b') : Emptied b' where
  orders := hm.orderPool.elim fun _ hr ↦ hr.vacant h.orders
  levels := hm.levelPool.elim fun _ hr ↦ hr.vacant h.levels
  bids := (rel_none_iff (hm.best .BUY)).mp h.bids
  asks := (rel_none_iff (hm.best .SELL)).mp h.asks
  table := fun k ↦ (rel_none_iff (hm.table k)).mp (h.table k)

/-- A cleared book is a new one at other addresses, for the prices that the price index has nothing
for. -/
theorem Emptied.moved_new (h : Emptied b)
    (hG : ∀ key price, G key price → b.getOrdersAtPrice price = none) (tickerId : TickerId) :
    Moved G (fun _ _ ↦ False) (fun _ _ ↦ False) (new tickerId).book b where
  orderPool := ⟨_, h.orders.rotated _⟩
  levelPool := ⟨_, h.levels.rotated _⟩
  order := fun _ _ ↦ False.elim
  level := fun _ _ ↦ False.elim
  best := fun side ↦ by
    have hnew : (new tickerId).book.best side = none := by cases side <;> rfl
    rw [hnew, h.best]
    exact .none
  index := fun key price hkey ↦ by
    rw [hG key price hkey]
    exact .none
  table := fun k ↦ by
    rw [h.table k]
    exact .none

end Moved

namespace MarketOrderBook

variable {G : MarketOrderKey → Price → Prop} {m m' : MarketOrderBook} {c : MEMarketUpdate}
  {us : List MEMarketUpdate}

theorem Sound.visits (h : m.Sound) (hs : side ≠ .INVALID) :
    Visits m.book side ((m.ladder.on side).map Level.ptr) := by
  have hside := h.represents.linked.side_rep side hs
  have hbest := hside.best_eq
  have hring := hside.ring
  cases hls : m.ladder.on side with
  | nil =>
    rw [hls] at hbest
    exact hbest
  | cons l ls =>
    rw [hls] at hbest hring
    exact ⟨hbest, (LinkedRing.isRing_cons.mp hring).imp fun _ _ hn ↦ hn.1⟩

theorem Sound.clearable (h : m.Sound) : Clearable m.book where
  orders_ok := h.represents.order_pool
  orders_size := h.orders
  levels_ok := h.represents.level_pool
  levels_size := h.levels
  stored := fun p ↦ by
    rw [h.represents.order_live]
    constructor
    · rintro ⟨e, he, rfl⟩
      obtain ⟨k, hk⟩ := Option.isSome_iff_exists.mp (h.represents.in_range e he)
      exact ⟨k, (entry_eq_some hk).2, h.complete e he k hk⟩
    · rintro ⟨k, -, hk⟩
      obtain ⟨e, he, hp, -⟩ := h.represents.table k p hk
      exact ⟨e, he, hp⟩
  once := fun k k' p hk hk' ↦ by
    obtain ⟨e, he, hp, hek⟩ := h.represents.table k p hk
    obtain ⟨e', he', hp', hek'⟩ := h.represents.table k' p hk'
    rw [h.represents.linked.entry_inj he he' (hp.trans hp'.symm)] at hek
    exact Option.some.inj (hek.symm.trans hek')
  lists := by
    refine ⟨_, _, h.visits (show Side.BUY ≠ .INVALID by decide),
      h.visits (show Side.SELL ≠ .INVALID by decide), ?_, fun l ↦ ?_⟩
    · have hbids := h.represents.linked.side_rep .BUY (by decide)
      have hasks := h.represents.linked.side_rep .SELL (by decide)
      refine List.nodup_append.mpr ⟨hbids.levels_nodup, hasks.levels_nodup, fun l hl n hn heq ↦ ?_⟩
      obtain ⟨x, hx, rfl⟩ := List.mem_map.mp hl
      obtain ⟨y, hy, rfl⟩ := List.mem_map.mp hn
      exact absurd (hbids.side_of_level hasks hx hy heq) (by decide)
    · rw [h.represents.level_live, ← List.map_append]
      exact List.mem_map.symm

theorem clearable_of_run {tickerId : TickerId} {engine : Ptr}
    (hg : Guarded onMarketUpdate (fun m u ↦ Valid m.ladder u)
      ((new tickerId).setTradeEngine (some engine)) us)
    (hrun : ((new tickerId).setTradeEngine (some engine)).run us = .ok m) : Clearable m.book :=
  (sound_of_run hg hrun).clearable

/-- The `CLEAR` leaves no quote behind: none was shown, or the side is refreshed. -/
def Unquotes (m : MarketOrderBook) (c : MEMarketUpdate) : Prop :=
  ∀ side, side ≠ .INVALID → m.bbo.quote side = (Price_INVALID, Qty_INVALID) ∨ m.refreshes side c

theorem clear_returns (hm : Clearable m.book) (hengine : m.tradeEngine.isSome) (hc : c.type = .CLEAR) :
    ∃ m', m.onMarketUpdate c = .ok m' ∧ Emptied m'.book ∧
      m'.book.priceOrdersAtPrice = m.book.priceOrdersAtPrice := by
  have ht : c.type ≠ .TRADE := by simp [hc]
  obtain ⟨b, hclear, hb, hindex⟩ := clear_spec hm
  have happly : applyUpdate m.book c = .ok b := by simp only [applyUpdate, hc, hclear]
  obtain ⟨m', hrun⟩ : ∃ m', m.onMarketUpdate c = .ok m' := by
    obtain ⟨engine, he⟩ := Option.isSome_iff_exists.mp hengine
    rw [onMarketUpdate_eq ht, happly]
    cases m.refreshes .BUY c <;> cases m.refreshes .SELL c <;>
      simp only [ok_bind, updateBBO, hb.bestQuote, if_true, Bool.false_eq_true, if_false, pure_eq_ok,
        notify, he, deref_some] <;>
      exact ⟨_, rfl⟩
  obtain rfl := Except.ok.inj (happly.symm.trans (of_onMarketUpdate ht hrun).1)
  exact ⟨m', hrun, hb, hindex⟩

theorem resembles_new (hm : Clearable m.book) (hengine : m.tradeEngine.isSome) (hc : c.type = .CLEAR)
    (hquote : m.Unquotes c) (hG : ∀ key price, G key price → m.book.getOrdersAtPrice price = none) :
    ∃ m', m.onMarketUpdate c = .ok m' ∧
      Resembles G (· ≠ .INVALID) ((new m.tickerId).setTradeEngine m.tradeEngine) m' := by
  obtain ⟨m', hrun, hb, hindex⟩ := clear_returns hm hengine hc
  obtain ⟨-, hengine', -, hquotes⟩ := of_onMarketUpdate (by simp [hc]) hrun
  refine ⟨m', hrun, ⟨_, _, hb.moved_new (fun key price hkey ↦ ?_) m.tickerId⟩, hengine', ?_⟩
  · exact (congrFun hindex _).trans (hG key price hkey)
  · intro side hs
    have hnew : ((new m.tickerId).setTradeEngine m.tradeEngine).bbo.quote side =
        (Price_INVALID, Qty_INVALID) := by cases side <;> rfl
    have hside := hquotes side hs
    rw [hnew]
    split_ifs at hside with hr
    · exact Except.ok.inj (hside.symm.trans (hb.bestQuote side))
    · exact hside.trans ((hquote side hs).resolve_right hr)

/-- The updates after a `CLEAR` lead to the levels, orders and `BBO` to which they lead a new book, and
every order is theirs; or neither run returns. -/
def AsGoodAsNew (m : MarketOrderBook) (c : MEMarketUpdate) (us : List MEMarketUpdate) : Prop :=
  Matched (fun f m' ↦ m'.view = f.view ∧ m'.bbo = f.bbo ∧
      ∀ e ∈ m'.view.entries, ∃ u ∈ us, u.type = .ADD ∧ u.orderId = e.ptr)
    (((new m.tickerId).setTradeEngine m.tradeEngine).run us) (m.run (c :: us))

theorem clear_resets (hm : Clearable m.book) (hengine : m.tradeEngine.isSome) (hc : c.type = .CLEAR)
    (hquote : m.Unquotes c)
    (hus : ∀ u ∈ us, u.type = .ADD → m.book.getOrdersAtPrice u.price = none) : m.AsGoodAsNew c us := by
  obtain ⟨m₁, hrun, hsame⟩ := resembles_new (G := fun key price ↦
      m.book.getOrdersAtPrice price = none ∧ ∃ u ∈ us, u.type = .ADD ∧ u.orderId = key.orderId)
    hm hengine hc hquote fun _ _ hkey ↦ hkey.1
  have hrun' : m.run (c :: us) = m₁.run us := by rw [MarketOrderBook.run, List.foldlM_cons, hrun]; rfl
  rw [AsGoodAsNew, hrun']
  refine (hsame.run fun u hu hadd ↦ ⟨hus u hu hadd, u, hu, hadd, rfl⟩).imp fun f m' h ↦ ?_
  refine ⟨h.view_eq, h.bbo_eq, fun e he ↦ ?_⟩
  obtain ⟨P, Q, hb⟩ := h.book
  rw [h.view_eq, view, Ladder.entries_relabel] at he
  obtain ⟨e', he', rfl⟩ := List.mem_map.mp he
  exact (hb.known he').2

theorem clear_resets_other_slots : ∃ m, ((new 0).setTradeEngine (some 0)).run
      [⟨.ADD, 7, 0, .BUY, 100, 10, 1⟩] = .ok m ∧
    m.AsGoodAsNew (SnapshotSynthesizer.clear 0) [⟨.ADD, 8, 0, .BUY, 101, 5, 1⟩,
      ⟨.ADD, 9, 0, .BUY, 101, 6, 2⟩, ⟨.CANCEL, 8, 0, .BUY, 101, 5, 1⟩] := by
  obtain ⟨m, hm, hengine, hquote, hslot⟩ := Yields.exists_ok (show Yields
    (((new 0).setTradeEngine (some 0)).run [⟨.ADD, 7, 0, .BUY, 100, 10, 1⟩]) fun m ↦
      m.tradeEngine.isSome ∧ m.bbo = (new 0).bbo ∧ m.book.getOrdersAtPrice 101 = none by decide +kernel)
  refine ⟨m, hm, clear_resets (clearable_of_run (by decide +kernel) hm) hengine rfl
    (fun side _ ↦ .inl ?_) fun u hu _ ↦ ?_⟩
  · rw [hquote]
    cases side <;> rfl
  · have hprice : u.price = 101 := by
      simp only [List.mem_cons, List.not_mem_nil, or_false] at hu
      rcases hu with rfl | rfl | rfl <;> rfl
    rw [hprice, hslot]

theorem addOrder_best {b b' : LevelBook MarketOrderKey OrderId} {p l : Ptr}
    (hslot : b.getOrdersAtPrice (b.order p).price = some l) (h : b.addOrder p = .ok b') :
    b'.best = b.best := by
  obtain ⟨b₁, hlink, htable⟩ := bind_eq_ok h
  have hbest : b₁.best = b.best := by
    rw [LevelBook.linkOrder, hslot] at hlink
    obtain ⟨first, -, hlink⟩ := bind_eq_ok hlink
    obtain ⟨last, -, hlink⟩ := bind_eq_ok hlink
    obtain rfl := Except.ok.inj hlink
    simp
  unfold LevelBook.setTable at htable
  split at htable
  · cases htable
  · obtain rfl := Except.ok.inj htable
    exact hbest

theorem view_of_stale {u : MEMarketUpdate} {l : Ptr} (h : Emptied m.book) (hu : u.type = .ADD)
    (hslot : m.book.getOrdersAtPrice u.price = some l) (hrun : m.onMarketUpdate u = .ok m') :
    m'.view = ⟨[], []⟩ := by
  obtain ⟨happly, -⟩ := of_onMarketUpdate (by simp [hu]) hrun
  simp only [applyUpdate, hu] at happly
  obtain ⟨⟨p, pool⟩, halloc, hadd⟩ := bind_eq_ok happly
  have hprice : (({ m.book with orderPool := pool } : LevelBook _ _).order p).price = u.price := by
    rw [LevelBook.order, MemPool.get_of_allocate halloc]
    rfl
  have hbest := addOrder_best (hprice ▸ hslot) hadd
  have hnone : ∀ side, m'.book.levelsOf side = [] := fun side ↦ by
    have hside : m'.book.best side = none := (congrFun hbest side).trans (h.best side)
    rw [LevelBook.levelsOf, hside]
  rw [view, ladder, LevelBook.ladder, hnone, hnone]
  rfl

/-- The order joins the level that was given back with the `CLEAR`. -/
theorem joins_cleared_level : ∃ m, ((new 0).setTradeEngine (some 0)).run
      [⟨.ADD, 7, 0, .BUY, 100, 10, 1⟩] = .ok m ∧
    ¬ m.AsGoodAsNew (SnapshotSynthesizer.clear 0) [⟨.ADD, 8, 0, .BUY, 100, 5, 1⟩] := by
  obtain ⟨m, hm, hticker, hengine, hslot⟩ := Yields.exists_ok (show Yields
    (((new 0).setTradeEngine (some 0)).run [⟨.ADD, 7, 0, .BUY, 100, 10, 1⟩]) fun m ↦
      m.tickerId = 0 ∧ m.tradeEngine = some 0 ∧ m.book.getOrdersAtPrice 100 = some 0 by decide +kernel)
  obtain ⟨f, hf, hview⟩ := Yields.exists_ok (show Yields
    (((new 0).setTradeEngine (some 0)).run [⟨.ADD, 8, 0, .BUY, 100, 5, 1⟩]) fun f ↦
      f.view.bids ≠ [] by decide +kernel)
  refine ⟨m, hm, fun h ↦ ?_⟩
  rw [AsGoodAsNew, hticker, hengine, hf] at h
  obtain ⟨m', hrun, hsame, -⟩ := h.exists_right
  rw [MarketOrderBook.run, List.foldlM_cons] at hrun
  obtain ⟨m₁, hclear, hrun⟩ := bind_eq_ok hrun
  rw [foldlM_singleton] at hrun
  obtain ⟨b, hb, hempty, hindex⟩ := clear_spec (clearable_of_run (by decide +kernel) hm)
  obtain ⟨happly, -⟩ := of_onMarketUpdate (by decide) hclear
  obtain rfl := Except.ok.inj (hb.symm.trans happly)
  have hstale : m₁.book.getOrdersAtPrice 100 = some 0 := (congrFun hindex _).trans hslot
  rw [view_of_stale hempty rfl hstale hrun] at hsame
  exact hview (by rw [← hsame])

end MarketOrderBook

end LowLatency.Trading
