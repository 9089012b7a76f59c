import LowLatency.Book.Search
import LowLatency.Exchange.Runs

namespace LowLatency.Exchange

open Common Book Function MEOrderBook

/-- The two responses, the trade and the update behind it tell the same of one execution. -/
structure Execution.Agrees (x : Execution) (o : NewOrder) : Prop where
  types : x.aggressor.type = .FILLED ∧ x.passive.type = .FILLED ∧ x.trade.type = .TRADE
  aggressor : x.aggressor.clientId = o.clientId ∧ x.aggressor.clientOrderId = o.clientOrderId
  price : x.passive.price = x.aggressor.price ∧ x.trade.price = x.aggressor.price
  qty : x.passive.execQty = x.aggressor.execQty ∧ x.trade.qty = x.aggressor.execQty
  order : x.after.orderId = x.passive.marketOrderId
  gone : x.after.type = .CANCEL ↔ x.passive.leavesQty = 0
  stays : x.passive.leavesQty ≠ 0 → x.after.type = .MODIFY ∧ x.after.qty = x.passive.leavesQty

def tradedQty (xs : List Execution) : ℕ := (xs.map fun x ↦ x.trade.qty).sum

@[simp] theorem tradedQty_nil : tradedQty [] = 0 := rfl

@[simp] theorem tradedQty_cons (x : Execution) (xs : List Execution) :
    tradedQty (x :: xs) = x.trade.qty + tradedQty xs := by simp [tradedQty]

namespace MEOrderBook

variable {s s' : MEOrderBook} {a : Ladder MEOrderKey} {o : NewOrder}

/-- `add` returns, and what it sends is one story: the acceptance, the executions with quantities that
run down from that of the order, and an ADD of what is left, if anything is. -/
def FeedsAgree (s : MEOrderBook) (o : NewOrder) : Prop :=
  ∃ s' xs leaves priority, s.step (.add o) = .ok s' ∧
    s.outputsOf (.add o) = .response (s.acceptance o) :: xs.flatMap Execution.outputs ++
      (if leaves = 0 then [] else [.update
        ⟨.ADD, s.nextMarketOrderId, o.tickerId, o.side, o.price, leaves, priority⟩]) ∧
    leaves + tradedQty xs = o.qty ∧
    ∀ ys x zs, xs = ys ++ x :: zs →
      x.Agrees o ∧ x.aggressor.leavesQty + tradedQty (ys ++ [x]) = o.qty

section Quantities

variable {id : OrderId} {other : Side} {fuel : ℕ} {leaves leaves' : ℕ}

theorem execution_agrees (s : MEOrderBook) (o : NewOrder) (id : OrderId) (itr : Ptr) (leaves : ℕ) :
    (s.execution o id itr leaves).Agrees o := by
  refine ⟨⟨rfl, rfl, rfl⟩, ⟨rfl, rfl⟩, ⟨rfl, rfl⟩, ⟨rfl, rfl⟩, execution_order .., ?_, ?_⟩ <;>
    simp only [execution] <;> split <;> simp_all

theorem execution_qty (s : MEOrderBook) (o : NewOrder) (id : OrderId) (itr : Ptr) (leaves : ℕ) :
    (s.execution o id itr leaves).aggressor.leavesQty + (s.execution o id itr leaves).trade.qty =
      leaves := Nat.sub_add_cancel (Nat.min_le_left _ _)

theorem matchOrder_leaves {itr : Ptr}
    (h : s.matchOrder o.tickerId o.clientId o.side o.clientOrderId id itr leaves = .ok (s', leaves')) :
    leaves' = (s.execution o id itr leaves).aggressor.leavesQty := by
  rw [matchOrder_eq] at h
  split at h
  · obtain ⟨b, -, hb⟩ := bind_eq_ok h
    cases hb
    rfl
  · cases h
    rfl

theorem trades_leaves {ys zs : List Execution} {x : Execution}
    (h : trades o id other fuel s leaves = ys ++ x :: zs) :
    x.aggressor.leavesQty + tradedQty (ys ++ [x]) = leaves := by
  induction fuel generalizing s leaves ys with
  | zero => simp [trades] at h
  | succ fuel ih =>
    rw [trades] at h
    split at h
    · next itr _ =>
      have hqty := execution_qty s o id itr leaves
      cases ys with
      | nil =>
        obtain ⟨rfl, -⟩ := List.cons.inj h
        simpa using hqty
      | cons y ys =>
        obtain ⟨rfl, hrest⟩ := List.cons.inj h
        split at hrest
        · next s₁ leaves₁ hm =>
          have hxs := ih hrest
          rw [matchOrder_leaves hm] at hxs
          rw [List.cons_append, tradedQty_cons, Nat.add_left_comm, hxs, Nat.add_comm]
          exact hqty
        · simp at hrest
    · simp at h

theorem matchLoop_leaves
    (h : matchLoop o.tickerId o.clientId o.side o.clientOrderId id o.price other fuel s leaves =
      .ok (s', leaves')) : leaves' + tradedQty (trades o id other fuel s leaves) = leaves := by
  induction fuel generalizing s leaves with
  | zero => cases h
  | succ fuel ih =>
    rw [matchLoop] at h
    obtain ⟨next, hn, h⟩ := bind_eq_ok h
    rw [trades, hn]
    cases next with
    | none =>
      cases h
      rfl
    | some itr =>
      obtain ⟨⟨s₁, leaves₁⟩, hm, h⟩ := bind_eq_ok h
      have hqty := execution_qty s o id itr leaves
      have hrest := ih h
      rw [matchOrder_leaves hm] at hrest
      simp only [hm, tradedQty_cons, matchOrder_leaves hm]
      rw [Nat.add_left_comm, hrest, Nat.add_comm]
      exact hqty

end Quantities

section Returns

theorem tradable_wellFormed (b₀ : LevelBook MEOrderKey (ClientId × OrderId)) :
    Tradable fun b a ↦ Book.WellFormed b a ∧ b₀.orderPool.Eased b.orderPool ∧
      b₀.ordersAtPricePool.Eased b.ordersAtPricePool where
  linked := fun h ↦ h.1.linked
  setQty := fun p qty ⟨h, ho, hl⟩ ↦ ⟨h.setQty p qty, ho.trans (eased_setQty p qty), hl⟩
  remove := fun ⟨h, ho, hl⟩ he ↦ by
    obtain ⟨b', hrun, hwf, hr⟩ := h.removeOrder he
    exact ⟨b', hrun, hwf, ho.trans ⟨hr.orders_ok, hr.orders_size, fun q hq ↦ ((hr.order_live q).mp hq).1⟩,
      hl.trans ⟨hr.levels_ok, hr.levels_size, fun q hq ↦ ((hr.level_live q).mp hq).1⟩⟩

theorem addResidual_returns (h : Book.WellFormed s.book a) (ho : s.book.orderPool.Spare)
    (hl : s.book.ordersAtPricePool.Spare) (hs : o.side ≠ .INVALID)
    (hrange : o.tickerId < ME_MAX_NUM_CLIENTS ∧ o.clientOrderId < ME_MAX_ORDER_IDS) (id : OrderId)
    (qty : Qty) :
    ∃ s' priority, s.addResidual o.clientId o.clientOrderId o.tickerId o.side o.price id qty = .ok s' ∧
      s'.sent = s.sent ++ [.update ⟨.ADD, id, o.tickerId, o.side, o.price, qty, priority⟩] := by
  obtain ⟨node, hnode⟩ : ∃ node, node = MEOrder.mk o.tickerId o.clientId o.clientOrderId id o.side o.price
    qty (a.nextPriority o.price) none none := ⟨_, rfl⟩
  obtain ⟨pool, halloc, hget, -, -⟩ := ho.allocate node
  have hfresh : ∀ e ∈ a.entries, e.ptr ≠ s.book.orderPool.nextFreeIndex := fun e he hp ↦
    ho.ok.next_free (hp ▸ (h.in_use.order e he).2)
  obtain ⟨hlinked, hstored⟩ := h.linked.construct hfresh hget
  have hside : (LevelBook.order { s.book with orderPool := pool }
      s.book.orderPool.nextFreeIndex).side = o.side :=
    (congrArg Entry.side hstored).trans (by rw [hnode]; rfl)
  have hkey : LevelBook.keyAt { s.book with orderPool := pool } s.book.orderPool.nextFreeIndex =
      ⟨o.tickerId, o.clientId, o.clientOrderId, id⟩ :=
    (congrArg Entry.key hstored).trans (by rw [hnode]; rfl)
  obtain ⟨b', hadd⟩ := addOrder_returns hlinked h.in_use.level hl hfresh (hside ▸ hs) (by
    rw [hkey]
    simp only [TableKey.entry, if_pos hrange]
    rfl)
  refine ⟨{ s with book := b' }.sendMarketUpdate ⟨.ADD, id, o.tickerId, o.side, o.price, qty,
    a.nextPriority o.price⟩, a.nextPriority o.price, ?_, rfl⟩
  rw [addResidual, getNextPriority_spec h.linked, onBook_ok, ok_bind, ← hnode, halloc, onBook_ok,
    ok_bind]
  dsimp only
  rw [hadd]
  rfl

end Returns

/-- A well-formed book that has room tells both feeds the same of every new order. -/
theorem feeds_agree (h : Book.WellFormed s.book a) (ho : s.book.orderPool.Spare)
    (hl : s.book.ordersAtPricePool.Spare) (hs : o.side ≠ .INVALID) (hticker : o.tickerId < ME_MAX_TICKERS)
    (hid : o.clientOrderId < ME_MAX_ORDER_IDS) : s.FeedsAgree o := by
  have hside : against o.side ≠ .INVALID := by simpa using hs
  have hlen := h.linked.length_queue_lt h.in_use hside
  have hticker' : o.tickerId < ME_MAX_NUM_CLIENTS := hticker.trans (by decide)
  obtain ⟨s₁, hloop, ⟨hwf, heo, hel⟩, hsent, -, -⟩ := matchLoop_of (s := s.accepted o) o
    (s.nextMarketOrderId % 2 ^ 32) (tradable_wellFormed s.book) hs (s.book.orderPool.size + 2) o.qty
    ⟨h, .refl _, .refl _⟩ (.inr hlen)
  obtain ⟨leaves, hleaves⟩ : ∃ leaves, leaves = o.qty - offered (a.crossing o.side o.price) := ⟨_, rfl⟩
  rw [← hleaves] at hloop
  have hmatch := (checkForMatch_eq (s.accepted o) hs s.nextMarketOrderId).trans hloop
  have hstep : s.step (.add o) = if leaves ≠ 0 then
      s₁.addResidual o.clientId o.clientOrderId o.tickerId o.side o.price s.nextMarketOrderId leaves
      else .ok s₁ := by rw [step_add, hmatch]; rfl
  have hsent₁ : s₁.sent = s.sent ++
      (.response (s.acceptance o) :: (s.tradesOf o).flatMap Execution.outputs) := by
    have hout := sentOf_checkForMatch s o
    rw [hmatch] at hout
    exact hout.trans (List.append_assoc ..)
  have htrades := tradesOf_eq s hs
  have hsum := matchLoop_leaves hloop
  rw [← htrades] at hsum
  have hall : ∀ ys x zs, s.tradesOf o = ys ++ x :: zs →
      x.Agrees o ∧ x.aggressor.leavesQty + tradedQty (ys ++ [x]) = o.qty := by
    intro ys x zs hxs
    obtain ⟨s', itr, leaves', rfl⟩ := mem_tradesOf (hxs ▸ List.mem_append_cons_self)
    exact ⟨execution_agrees .., trades_leaves (htrades.symm.trans hxs)⟩
  by_cases hzero : leaves = 0
  · rw [if_neg (not_not.mpr hzero)] at hstep
    refine ⟨s₁, s.tradesOf o, leaves, 0, hstep, ?_, hsum, hall⟩
    rw [if_pos hzero, List.append_nil]
    exact outputsOf_ok hstep hsent₁
  · obtain ⟨s', priority, hrun, hsent'⟩ := addResidual_returns hwf (ho.eased heo) (hl.eased hel) hs
      ⟨hticker', hid⟩ s.nextMarketOrderId leaves
    rw [if_pos hzero] at hstep
    refine ⟨s', s.tradesOf o, leaves, priority, hstep.trans hrun, ?_, hsum, hall⟩
    rw [if_neg hzero]
    exact outputsOf_ok (hstep.trans hrun) (by rw [hsent', hsent₁, List.append_assoc])

def twoAsks : List Call := [.add ⟨1, 1, 0, .SELL, 100, 10⟩, .add ⟨2, 2, 0, .SELL, 101, 10⟩]

theorem feeds_agree_partial : ∃ s, (new 0).run twoAsks = .ok s ∧
    (updates (s.outputsOf (.add ⟨3, 9, 0, .BUY, 101, 14⟩))).map (fun u ↦ (u.type, u.price, u.qty)) =
      [(.TRADE, 100, 10), (.CANCEL, 100, 10), (.TRADE, 101, 4), (.MODIFY, 101, 6)] ∧
    s.FeedsAgree ⟨3, 9, 0, .BUY, 101, 14⟩ := by
  obtain ⟨s, hs, hupdates, htable, ho₅, ho₆, hl₅, hl₆⟩ := Yields.exists_ok
    (show Yields ((new 0).run twoAsks) fun s ↦
      (updates (s.outputsOf (.add ⟨3, 9, 0, .BUY, 101, 14⟩))).map (fun u ↦ (u.type, u.price, u.qty)) =
        [(.TRADE, 100, 10), (.CANCEL, 100, 10), (.TRADE, 101, 4), (.MODIFY, 101, 6)] ∧
      (∀ e ∈ s.ladder.entries, (TableKey.entry e.key).bind s.book.orderTable = some e.ptr) ∧
      ¬ s.book.orderPool.Live 5 ∧ ¬ s.book.orderPool.Live 6 ∧
      ¬ s.book.ordersAtPricePool.Live 5 ∧ ¬ s.book.ordersAtPricePool.Live 6 by decide +kernel)
  have hsound : s.Sound := sound_of_run (by decide +kernel) hs
  refine ⟨s, hs, hupdates, feeds_agree (hsound.represents.wellFormed (complete_of_stored htable))
    ⟨hsound.represents.order_pool, 5, ?_, 6, ?_, by decide, ho₅, ho₆⟩
    ⟨hsound.represents.level_pool, 5, ?_, 6, ?_, by decide, hl₅, hl₆⟩ (by decide) (by decide) (by decide)⟩
  all_goals first | rw [hsound.orders] | rw [hsound.levels]
  all_goals decide

end MEOrderBook

end LowLatency.Exchange
