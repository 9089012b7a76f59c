import LowLatency.Book.Ranked
import LowLatency.Book.Remove
import LowLatency.Book.Walk
import LowLatency.Trading.MarketOrderBook

namespace LowLatency.Trading

open Common Book Exchange Function LinkedRing MarketOrderBook

section Quote

variable {b : LevelBook MarketOrderKey OrderId} {a : Ladder MarketOrderKey} {side : Side}

theorem sumQty_spec {first : Ptr} {ps : List Ptr} {fuel : ℕ} (qty : Qty)
    (hchain : (ps ++ [first]).IsChain (Neighbours b.nextOrder b.prevOrder)) (hf : first ∉ ps)
    (hn : ps.length < fuel) {p : Ptr} (hp : (ps ++ [first]).head? = some p) :
    sumQty b first fuel p qty = .ok (ps.foldl (fun q p ↦ (q + (b.order p).qty) % 2 ^ 32) qty) := by
  induction ps generalizing fuel p qty with
  | nil =>
    obtain rfl : first = p := by simpa using hp
    cases fuel with
    | zero => simp at hn
    | succ fuel => rw [sumQty, if_pos rfl]; rfl
  | cons q ps ih =>
    obtain rfl : q = p := by simpa using hp
    cases fuel with
    | zero => simp at hn
    | succ fuel =>
      obtain ⟨r, hr⟩ : ∃ r, (ps ++ [first]).head? = some r := by cases ps <;> simp
      have hnext : b.nextOrder q = some r := (List.isChain_cons.mp hchain).1 r hr |>.1
      rw [List.mem_cons, not_or] at hf
      rw [sumQty, if_neg (Ne.symm hf.1), hnext, deref_some, ok_bind,
        ih _ (List.isChain_cons.mp hchain).2 hf.2 (by simpa using hn) hr]
      rfl

theorem bestQuote_spec (h : Represents b a) (hs : side ≠ .INVALID) :
    (a.on side = [] ∧ bestQuote b side = .ok (Price_INVALID, Qty_INVALID)) ∨
    ∃ l ls o os, a.on side = l :: ls ∧ l.orders = o :: os ∧ bestQuote b side =
      .ok (l.price, os.foldl (fun q e ↦ (q + e.qty) % 2 ^ 32) o.qty) := by
  have hside := h.linked.side_rep side hs
  cases hls : a.on side with
  | nil =>
    have hbest : b.best side = none := by rw [hside.best_eq, hls]; rfl
    exact .inl ⟨rfl, by rw [bestQuote, hbest]⟩
  | cons l ls =>
    have hl : l ∈ a.on side := by simp [hls]
    have hrep := hside.level_rep l hl
    obtain ⟨o, os, hos⟩ := List.exists_cons_of_ne_nil hrep.orders_ne
    have hsub : l.orders.Sublist (queue (a.on side)) :=
      List.sublist_flatten_of_mem (List.mem_map_of_mem hl)
    have hd := hside.orders_nodup.sublist (hsub.map Entry.ptr)
    have hlen := length_le_of_lt hd (n := b.orderPool.size) fun p hp ↦ by
      obtain ⟨e, he, rfl⟩ := List.mem_map.mp hp
      exact h.order_pool.bounded _ ((h.order_live _).mpr
        ⟨e, Ladder.mem_entries.mpr ⟨side, hs, hsub.mem he⟩, rfl⟩)
    have hring := hrep.ring
    have hbest : b.best side = some l.ptr := by rw [hside.best_eq, hls]; rfl
    have hfirst : b.firstOrder l.ptr = some o.ptr := by rw [hrep.first_eq, hos]; rfl
    have hentry := fun e he ↦ hrep.entry_eq e he
    rw [hos] at hd hlen hring hentry
    rw [List.map_cons, isRing_cons, List.cons_append, List.isChain_cons] at hring
    rw [List.map_cons] at hd hlen
    obtain ⟨r, hr⟩ : ∃ r, (os.map Entry.ptr ++ [o.ptr]).head? = some r := by cases os <;> simp
    refine .inr ⟨l, ls, o, os, rfl, hos, ?_⟩
    have hqty : ∀ e ∈ o :: os, (b.order e.ptr).qty = e.qty := fun e he ↦
      congrArg Entry.qty (hentry e he)
    have hfuel : (os.map Entry.ptr).length < b.orderPool.size + 1 := by
      simp only [List.length_cons] at hlen
      omega
    have hsum := sumQty_spec (b.order o.ptr).qty hring.2 (List.nodup_cons.mp hd).1 hfuel hr
    rw [List.foldl_map, hqty o (by simp)] at hsum
    have hfold : os.foldl (fun q e ↦ (q + (b.order e.ptr).qty) % 2 ^ 32) o.qty =
        os.foldl (fun q e ↦ (q + e.qty) % 2 ^ 32) o.qty :=
      List.foldl_ext _ _ _ fun q e he ↦ by rw [hqty e (by simp [he])]
    rw [bestQuote, hbest]
    simp only [hfirst, deref_some, ok_bind, (hring.1 r hr).1, hrep.price_eq, hqty o (by simp)]
    rw [hsum, hfold]
    rfl

end Quote

section Apply

variable {b : LevelBook MarketOrderKey OrderId} {a : Ladder MarketOrderKey} {u : MEMarketUpdate}

def Updated (a : Ladder MarketOrderKey) (u : MEMarketUpdate) (a' : Ladder MarketOrderKey) : Prop :=
  match u.type with
  | .ADD => ∃ lp p, (∀ e ∈ a.entries, e.ptr ≠ p) ∧
      a' = a.rest lp ⟨p, ⟨u.orderId⟩, u.side, u.price, u.qty, u.priority⟩
  | .MODIFY => ∃ e ∈ a.entries, e.key.orderId = u.orderId ∧ a' = a.setQty e.ptr u.qty
  | .CANCEL => ∃ e ∈ a.entries, e.key.orderId = u.orderId ∧ a' = a.remove e.ptr
  | _ => a' = a

/-- A new id can be rested without tripping over the price index or the insertion in front of a
level; a modified or canceled id rests. -/
def Valid (a : Ladder MarketOrderKey) (u : MEMarketUpdate) : Prop :=
  match u.type with
  | .ADD => u.side ≠ .INVALID ∧ (∀ e ∈ a.entries, e.key.orderId ≠ u.orderId) ∧ a.Admits u.side u.price
  | .MODIFY | .CANCEL => ∃ e ∈ a.entries, e.key.orderId = u.orderId
  | .CLEAR => False
  | _ => True

instance (a : Ladder MarketOrderKey) (u : MEMarketUpdate) : Decidable (Valid a u) := by
  unfold Valid
  cases u.type <;> infer_instance

theorem entry_eq_some {key : MarketOrderKey} {k : OrderId} (h : TableKey.entry key = some k) :
    key.orderId = k ∧ k < ME_MAX_ORDER_IDS := by
  simp only [TableKey.entry] at h
  split_ifs at h with hlt
  exact ⟨Option.some.inj h, Option.some.inj h ▸ hlt⟩

theorem orderAt_spec (h : Represents b a) (hc : Complete b a) {e : Entry MarketOrderKey}
    (he : e ∈ a.entries) : orderAt b e.key.orderId = .ok e.ptr := by
  obtain ⟨k, hk⟩ := Option.isSome_iff_exists.mp (h.in_range e he)
  obtain ⟨hid, hlt⟩ := entry_eq_some hk
  rw [orderAt, hid, if_pos hlt, hc e he k hk]
  rfl

/-- A valid update is applied; only the resting of a new order can end the process. -/
theorem applyUpdate_spec (h : Represents b a) (hc : Complete b a) (hv : Valid a u) :
    (∃ b' a', applyUpdate b u = .ok b' ∧ Represents b' a' ∧ Complete b' a' ∧ Updated a u a' ∧
      b'.orderPool.size = b.orderPool.size ∧
      b'.ordersAtPricePool.size = b.ordersAtPricePool.size) ∨
    u.type = .ADD ∧ ∃ f, applyUpdate b u = .error f ∧ f.Exits ∧
      (b.orderPool.size ≤ a.entries.length + 1 ∨ b.ordersAtPricePool.size ≤ a.levels.length + 1 ∨
        ¬ u.orderId < ME_MAX_ORDER_IDS) := by
  unfold Valid at hv
  unfold applyUpdate Updated
  cases ht : u.type <;> simp only [ht] at hv ⊢
  case ADD =>
    obtain ⟨hs, hfresh, hadm⟩ := hv
    obtain ⟨b', k, hrun, hrep, hk, htable, hsize, hlsize⟩ | ⟨f, herr, hf, hwhy⟩ :=
      allocate_addOrder_spec h (MarketOrder.mk u.orderId u.side u.price u.qty u.priority none none) hs
        hadm
    · have hk' : u.orderId = k := (entry_eq_some hk).1
      refine .inl ⟨b', _, hrun, hrep, hc.rest h.linked hs hk htable fun e he hek ↦ ?_,
        ⟨_, _, fun e he ↦ ?_, rfl⟩, hsize, hlsize⟩
      · exact hfresh e he ((entry_eq_some hek).1.trans hk'.symm)
      · exact fun hp ↦ h.order_pool.next_free ((h.order_live _).mpr ⟨e, he, hp⟩)
    · refine .inr ⟨trivial, f, herr, hf, hwhy.imp_right (Or.imp And.right fun hnone hlt ↦ ?_)⟩
      have hsome : TableKey.entry (⟨u.orderId⟩ : MarketOrderKey) = some u.orderId := if_pos hlt
      cases hsome.symm.trans hnone
  case MODIFY =>
    obtain ⟨e, he, hid⟩ := hv
    rw [← hid, orderAt_spec h hc he]
    exact .inl ⟨_, _, rfl, h.setQty _ _, hc.setQty _ _, ⟨e, he, rfl, rfl⟩, rfl, rfl⟩
  case CANCEL =>
    obtain ⟨e, he, hid⟩ := hv
    obtain ⟨b', k, hrun, hrep, hk, htable, hsize, -, hlsize⟩ := removeOrder_spec h he
    rw [← hid, orderAt_spec h hc he]
    exact .inl ⟨b', _, hrun, hrep, hc.remove he hk htable, ⟨e, he, rfl, rfl⟩, hsize, hlsize⟩
  all_goals exact .inl ⟨b, a, rfl, h, hc, rfl, rfl, rfl⟩

end Apply

def BBO.quote (bbo : BBO) (side : Side) : Price × Qty :=
  if side = .BUY then (bbo.bidPrice, bbo.bidQty) else (bbo.askPrice, bbo.askQty)

theorem BBO.ext_quote {x y : BBO} (h : ∀ side, side ≠ .INVALID → x.quote side = y.quote side) :
    x = y := by
  cases x
  cases y
  simpa [quote, and_comm, and_assoc, and_left_comm] using And.intro (h .BUY (by decide))
    (h .SELL (by decide))

namespace MarketOrderBook

/-- The resting orders, read off by walking the links of the book. -/
def ladder (m : MarketOrderBook) : Ladder MarketOrderKey := m.book.ladder

/-- `bid_updated` and `ask_updated`, which are computed before the update is applied. -/
def refreshes (m : MarketOrderBook) (side : Side) (u : MEMarketUpdate) : Bool :=
  match m.book.best side with
  | none => false
  | some l => u.side = side && ¬ Better side (m.book.levelPrice l) u.price

/-- The book is linked, every order is found under its id, and there is a trade engine to call. -/
structure Sound (m : MarketOrderBook) : Prop where
  represents : Represents m.book m.ladder
  complete : Complete m.book m.ladder
  orders : m.book.orderPool.size = ME_MAX_ORDER_IDS
  levels : m.book.ordersAtPricePool.size = ME_MAX_ORDER_IDS
  engine : m.tradeEngine.isSome

variable {m m' : MarketOrderBook} {u : MEMarketUpdate} {us : List MEMarketUpdate}

theorem sound_new (tickerId : TickerId) (engine : Ptr) :
    ((new tickerId).setTradeEngine (some engine)).Sound where
  represents := represents_empty (by decide) (by decide) _ _
  complete := fun e he ↦ by cases he
  orders := rfl
  levels := rfl
  engine := rfl

theorem bestQuote_ok (h : m.Sound) {side : Side} (hs : side ≠ .INVALID) :
    ∃ q, bestQuote m.book side = .ok q := by
  rcases bestQuote_spec h.represents hs with ⟨-, h⟩ | ⟨l, ls, o, os, -, -, h⟩ <;> exact ⟨_, h⟩

theorem updateBBO_spec (h : m.Sound) (updateBid updateAsk : Bool) :
    ∃ bbo, m.updateBBO updateBid updateAsk = .ok { m with bbo := bbo } := by
  obtain ⟨bid, hbid⟩ := bestQuote_ok h (show Side.BUY ≠ .INVALID by decide)
  obtain ⟨ask, hask⟩ := bestQuote_ok h (show Side.SELL ≠ .INVALID by decide)
  unfold updateBBO
  cases updateBid <;> cases updateAsk <;>
    simp only [hbid, hask, ok_bind, pure_eq_ok, if_true, Bool.false_eq_true, if_false] <;>
    exact ⟨_, rfl⟩

theorem notify_spec (h : m.tradeEngine.isSome) (n : Notification) :
    m.notify n = .ok { m with notified := m.notified ++ [n] } := by
  obtain ⟨engine, he⟩ := Option.isSome_iff_exists.mp h
  rw [notify, he]
  rfl

theorem onMarketUpdate_eq (ht : u.type ≠ .TRADE) : m.onMarketUpdate u =
    applyUpdate m.book u >>= fun b ↦
      { m with book := b }.updateBBO (m.refreshes .BUY u) (m.refreshes .SELL u) >>= fun m ↦
        m.notify (.onOrderBookUpdate u.tickerId u.price u.side) := by
  have hbid : m.refreshes .BUY u = match m.book.bidsByPrice with
      | none => false
      | some l => u.side = .BUY && u.price ≥ m.book.levelPrice l := by
    simp [refreshes, LevelBook.best, Better]
  have hask : m.refreshes .SELL u = match m.book.asksByPrice with
      | none => false
      | some l => u.side = .SELL && u.price ≤ m.book.levelPrice l := by
    simp [refreshes, LevelBook.best, Better]
  rw [hbid, hask]
  unfold onMarketUpdate
  cases hu : u.type <;> first | exact absurd hu ht | rfl

theorem eq_of_updateBBO {bid ask : Bool} (h : m.updateBBO bid ask = .ok m') :
    ∃ bbo, m' = { m with bbo := bbo } ∧
      (if bid then bestQuote m.book .BUY = .ok (bbo.quote .BUY)
        else bbo.quote .BUY = m.bbo.quote .BUY) ∧
      (if ask then bestQuote m.book .SELL = .ok (bbo.quote .SELL)
        else bbo.quote .SELL = m.bbo.quote .SELL) := by
  unfold updateBBO at h
  cases hbid : bestQuote m.book .BUY <;> cases hask : bestQuote m.book .SELL <;>
    cases bid <;> cases ask <;>
    simp only [hbid, hask, ok_bind, error_bind, pure_eq_ok, if_true, Bool.false_eq_true, if_false,
      Except.ok.injEq, reduceCtorEq] at h <;>
    exact ⟨_, h.symm, by simp [BBO.quote], by simp [BBO.quote]⟩

theorem of_onMarketUpdate (ht : u.type ≠ .TRADE) (h : m.onMarketUpdate u = .ok m') :
    applyUpdate m.book u = .ok m'.book ∧ m'.tradeEngine = m.tradeEngine ∧ m.tradeEngine.isSome ∧
      ∀ side, side ≠ .INVALID → if m.refreshes side u then
        bestQuote m'.book side = .ok (m'.bbo.quote side) else m'.bbo.quote side = m.bbo.quote side := by
  rw [onMarketUpdate_eq ht] at h
  obtain ⟨b, hb, h⟩ := bind_eq_ok h
  obtain ⟨m₁, hbbo, h⟩ := bind_eq_ok h
  obtain ⟨bbo, rfl, hbid, hask⟩ := eq_of_updateBBO hbbo
  obtain ⟨engine, hengine, h⟩ := bind_eq_ok h
  obtain rfl := Except.ok.inj h
  refine ⟨hb, rfl, ?_, fun side hs ↦ ?_⟩
  · cases he : m.tradeEngine with
    | none => simp only [he] at hengine; cases hengine
    | some p => rfl
  · cases side with
    | INVALID => exact absurd rfl hs
    | BUY => exact hbid
    | SELL => exact hask

theorem onMarketUpdate_unset (h : m.tradeEngine = none) (u : MEMarketUpdate) :
    m.onMarketUpdate u ≠ .ok m' := by
  by_cases ht : u.type = .TRADE
  · simp only [onMarketUpdate, ht, notify, h]
    nofun
  intro hrun
  obtain ⟨-, -, hsome, -⟩ := of_onMarketUpdate ht hrun
  simp [h] at hsome

theorem onMarketUpdate_spec (h : m.Sound) (hv : Valid m.ladder u) :
    (∃ m', m.onMarketUpdate u = .ok m' ∧ m'.Sound ∧ Updated m.ladder u m'.ladder) ∨
    u.type = .ADD ∧ ∃ f, m.onMarketUpdate u = .error f ∧ f.Exits ∧
      (ME_MAX_ORDER_IDS ≤ m.ladder.entries.length + 1 ∨
        ME_MAX_ORDER_IDS ≤ m.ladder.levels.length + 1 ∨ ¬ u.orderId < ME_MAX_ORDER_IDS) := by
  by_cases ht : u.type = .TRADE
  · have hrun : m.onMarketUpdate u = m.notify (.onTradeUpdate u) := by simp only [onMarketUpdate, ht]
    rw [hrun, notify_spec h.engine]
    refine .inl ⟨_, rfl, ⟨h.represents, h.complete, h.orders, h.levels, h.engine⟩, ?_⟩
    simp only [Updated, ht]
    rfl
  have hrun := onMarketUpdate_eq (m := m) ht
  rcases applyUpdate_spec h.represents h.complete hv with
      ⟨b', a', happ, hrep, hc, hupd, hsize, hlsize⟩ | ⟨hadd, f, herr, hf, hwhy⟩
  · obtain rfl : b'.ladder = a' := hrep.ladder_eq
    have hs : ({ m with book := b' } : MarketOrderBook).Sound :=
      ⟨hrep, hc, hsize.trans h.orders, hlsize.trans h.levels, h.engine⟩
    obtain ⟨bbo, hbbo⟩ := updateBBO_spec hs (m.refreshes .BUY u) (m.refreshes .SELL u)
    have hnotify := notify_spec (m := { m with book := b', bbo := bbo }) h.engine
      (.onOrderBookUpdate u.tickerId u.price u.side)
    rw [hrun, happ, ok_bind, hbbo, ok_bind, hnotify]
    exact .inl ⟨_, rfl, ⟨hs.represents, hs.complete, hs.orders, hs.levels, h.engine⟩, hupd⟩
  · rw [h.orders, h.levels] at hwhy
    exact .inr ⟨hadd, f, by rw [hrun, herr]; rfl, hf, hwhy⟩

theorem Sound.update (h : m.Sound) (hv : Valid m.ladder u) (hrun : m.onMarketUpdate u = .ok m') :
    m'.Sound ∧ Updated m.ladder u m'.ladder := by
  rcases onMarketUpdate_spec h hv with ⟨m₁, hok, hs, hupd⟩ | ⟨-, f, herr, -⟩
  · obtain rfl := Except.ok.inj (hok.symm.trans hrun)
    exact ⟨hs, hupd⟩
  · cases herr.symm.trans hrun

end MarketOrderBook

end LowLatency.Trading
