import LowLatency.Exchange.Matching

namespace LowLatency.Exchange

open Common Book Function MEOrderBook

def tradeOutputs (a : Ladder MEOrderKey) (o : NewOrder) (id : OrderId) : List Output :=
  .response ⟨.ACCEPTED, o.clientId, o.tickerId, o.clientOrderId, id, o.side, o.price, 0, o.qty⟩ ::
    (a.fills o.side o.price o.qty).flatMap (fillOutputs o (id % 2 ^ 32))

/-- The order that `add` rests. Its `clientId` is the ticker and its `tickerId` the client. -/
def restingEntry (s : MEOrderBook) (a : Ladder MEOrderKey) (o : NewOrder) : Entry MEOrderKey where
  ptr := s.book.orderPool.nextFreeIndex
  key := ⟨o.tickerId, o.clientId, o.clientOrderId, s.nextMarketOrderId⟩
  side := o.side
  price := o.price
  qty := o.qty - offered (a.crossing o.side o.price)
  priority := (a.swept o.side o.price).nextPriority o.price

def restOutput (o : NewOrder) (e : Entry MEOrderKey) : Output :=
  .update ⟨.ADD, e.key.marketOrderId, o.tickerId, e.side, e.price, e.qty, e.priority⟩

def rejection (clientId : ClientId) (orderId : OrderId) (tickerId : TickerId) : MEClientResponse :=
  ⟨.CANCEL_REJECTED, clientId, tickerId, orderId, OrderId_INVALID, .INVALID, Price_INVALID,
    Qty_INVALID, Qty_INVALID⟩

def canceledOutputs (clientId : ClientId) (orderId : OrderId) (tickerId : TickerId)
    (e : Entry MEOrderKey) : List Output :=
  [.update ⟨.CANCEL, e.key.marketOrderId, tickerId, e.side, e.price, 0, e.priority⟩,
    .response ⟨.CANCELED, clientId, tickerId, orderId, e.key.marketOrderId, e.side, e.price,
      Qty_INVALID, e.qty⟩]

/-- `s'` is the book after a call that left the orders `a'` and sent `outs`. -/
structure Called (s s' : MEOrderBook) (a' : Ladder MEOrderKey) (outs : List Output) : Prop where
  represents : Represents s'.book a'
  sent : s'.sent = s.sent ++ outs
  tickerId : s'.tickerId = s.tickerId
  orders : s'.book.orderPool.size = s.book.orderPool.size
  levels : s'.book.ordersAtPricePool.size = s.book.ordersAtPricePool.size

namespace MEOrderBook

variable {s s' : MEOrderBook} {a : Ladder MEOrderKey} {o : NewOrder}

theorem checkForMatch_spec (h : Represents s.book a) (hs : o.side ≠ .INVALID) (id : OrderId) :
    ∃ s', s.checkForMatch o.clientId o.clientOrderId o.tickerId o.side o.price o.qty id =
        .ok (s', o.qty - offered (a.crossing o.side o.price)) ∧
      Traded s s' a (a.traded (a.fills o.side o.price o.qty)) ((a.fills o.side o.price o.qty).flatMap
        (fillOutputs o (id % 2 ^ 32))) := by
  have ho : against o.side ≠ .INVALID := by simpa using hs
  have hfuel := h.length_queue_lt ho
  obtain ⟨s', hloop, ht⟩ := matchLoop_spec o (id % 2 ^ 32) hs (s.book.orderPool.size + 2) o.qty h
    (.inr hfuel)
  exact ⟨s', (checkForMatch_eq s hs id).trans hloop, ht⟩

/-- Why an order could not be rested: a pool is exhausted, or `at` throws. -/
def NoRoom (s : MEOrderBook) (a : Ladder MEOrderKey) (o : NewOrder) : Prop :=
  s.book.orderPool.size ≤ (a.swept o.side o.price).entries.length + 1 ∨
  (∀ l ∈ (a.swept o.side o.price).levels, priceToIndex l.price ≠ priceToIndex o.price) ∧
    s.book.ordersAtPricePool.size ≤ (a.swept o.side o.price).levels.length + 1 ∨
  ¬ (o.tickerId < ME_MAX_NUM_CLIENTS ∧ o.clientOrderId < ME_MAX_ORDER_IDS)

theorem addResidual_spec {a' : Ladder MEOrderKey} {node : MEOrder} (qty : ℕ) (id : OrderId)
    (h : Represents s.book a') (hs : o.side ≠ .INVALID) (hadm : a'.Admits o.side o.price)
    (hnode : node = MEOrder.mk o.tickerId o.clientId o.clientOrderId id o.side o.price qty
      (a'.nextPriority o.price) none none) :
    (∃ b', s.addResidual o.clientId o.clientOrderId o.tickerId o.side o.price id qty =
        .ok ({ s with book := b' }.sendMarketUpdate
          ⟨.ADD, id, o.tickerId, o.side, o.price, qty, a'.nextPriority o.price⟩) ∧
      Represents b' (a'.rest s.book.ordersAtPricePool.nextFreeIndex
        (node.entry s.book.orderPool.nextFreeIndex)) ∧
      TableKey.entry node.key = some (o.tickerId, o.clientOrderId) ∧
      b'.orderTable = update s.book.orderTable (o.tickerId, o.clientOrderId)
        (some s.book.orderPool.nextFreeIndex) ∧
      b'.orderPool.size = s.book.orderPool.size ∧
      b'.ordersAtPricePool.size = s.book.ordersAtPricePool.size) ∨
    ∃ f, s.addResidual o.clientId o.clientOrderId o.tickerId o.side o.price id qty =
        .error ⟨f, s.sent⟩ ∧ f.Exits ∧
      (s.book.orderPool.size ≤ a'.entries.length + 1 ∨
        (∀ l ∈ a'.levels, priceToIndex l.price ≠ priceToIndex o.price) ∧
          s.book.ordersAtPricePool.size ≤ a'.levels.length + 1 ∨
        ¬ (o.tickerId < ME_MAX_NUM_CLIENTS ∧ o.clientOrderId < ME_MAX_ORDER_IDS)) := by
  have hside : node.side = o.side := by rw [hnode]; rfl
  have hprice : node.price = o.price := by rw [hnode]; rfl
  have hentry : (TableKey.entry node.key : Option (ClientId × OrderId)) =
      if o.tickerId < ME_MAX_NUM_CLIENTS ∧ o.clientOrderId < ME_MAX_ORDER_IDS then
        some (o.tickerId, o.clientOrderId) else none := by rw [hnode]; rfl
  have hrun : s.addResidual o.clientId o.clientOrderId o.tickerId o.side o.price id qty =
      (s.onBook (s.book.orderPool.allocate node >>= fun r ↦
        LevelBook.addOrder { s.book with orderPool := r.2 } r.1)) >>= fun b ↦
          .ok ({ s with book := b }.sendMarketUpdate
            ⟨.ADD, id, o.tickerId, o.side, o.price, qty, a'.nextPriority o.price⟩) := by
    rw [addResidual, getNextPriority_spec h.linked, onBook_ok, ok_bind, onBook_bind, hnode]
    cases s.onBook (s.book.orderPool.allocate _) <;> rfl
  obtain ⟨b', k, hadd, hrep, hk, ht, hsize, hlsize⟩ | ⟨f, herr, hf, hwhy⟩ :=
    allocate_addOrder_spec h node (hside ▸ hs) (by rwa [hside, hprice])
  · left
    have hk' := hk
    rw [hentry] at hk'
    split_ifs at hk' with hrange
    obtain rfl := Option.some.inj hk'
    exact ⟨b', by rw [hrun, hadd]; rfl, hrep, hk, ht, hsize, hlsize⟩
  · refine .inr ⟨f, by rw [hrun, herr]; rfl, hf, ?_⟩
    rw [hentry, hprice] at hwhy
    refine hwhy.imp_right (Or.imp_right fun hnone ↦ ?_)
    split_ifs at hnone with hrange
    exact hrange

/-- A new order is matched and what is left of it rests, or the process ends because there is no
room to rest it. -/
theorem add_spec (h : Represents s.book a) (hs : o.side ≠ .INVALID)
    (hadm : a.Rests o.side o.price o.qty → (a.swept o.side o.price).Admits o.side o.price) :
    (¬ a.Rests o.side o.price o.qty ∧ ∃ s', s.step (.add o) = .ok s' ∧
      Called s s' (a.traded (a.fills o.side o.price o.qty)) (tradeOutputs a o s.nextMarketOrderId) ∧
      s'.nextMarketOrderId = (s.nextMarketOrderId + 1) % 2 ^ 64 ∧
      (Complete s.book a → Complete s'.book (a.traded (a.fills o.side o.price o.qty)))) ∨
    (a.Rests o.side o.price o.qty ∧ ∃ s' lp, s.step (.add o) = .ok s' ∧
      Called s s' ((a.swept o.side o.price).rest lp (restingEntry s a o))
        (tradeOutputs a o s.nextMarketOrderId ++ [restOutput o (restingEntry s a o)]) ∧
      s'.nextMarketOrderId = (s.nextMarketOrderId + 1) % 2 ^ 64 ∧
      (Complete s.book a → (∀ e ∈ (a.swept o.side o.price).entries,
          ¬ (e.key.clientId = o.tickerId ∧ e.key.clientOrderId = o.clientOrderId)) →
        Complete s'.book ((a.swept o.side o.price).rest lp (restingEntry s a o)))) ∨
    (a.Rests o.side o.price o.qty ∧ ∃ f, s.step (.add o) =
      .error ⟨f, s.sent ++ tradeOutputs a o s.nextMarketOrderId⟩ ∧ f.Exits ∧ s.NoRoom a o) := by
  let s₁ := { s with nextMarketOrderId := (s.nextMarketOrderId + 1) % 2 ^ 64 }.sendClientResponse
    ⟨.ACCEPTED, o.clientId, o.tickerId, o.clientOrderId, s.nextMarketOrderId, o.side, o.price, 0, o.qty⟩
  obtain ⟨s₂, hmatch, ht⟩ := checkForMatch_spec (s := s₁) h hs s.nextMarketOrderId
  have hsent : s₂.sent = s.sent ++ tradeOutputs a o s.nextMarketOrderId := by
    rw [ht.sent]
    simp [s₁, sendClientResponse, tradeOutputs]
  have hrun : s.step (.add o) = if o.qty - offered (a.crossing o.side o.price) ≠ 0 then
      s₂.addResidual o.clientId o.clientOrderId o.tickerId o.side o.price s.nextMarketOrderId
        (o.qty - offered (a.crossing o.side o.price)) else .ok s₂ := by
    change (s₁.checkForMatch _ _ _ _ _ _ _ >>= _) = _
    rw [hmatch]
    rfl
  by_cases hr : a.Rests o.side o.price o.qty
  · have hleaves : o.qty - offered (a.crossing o.side o.price) ≠ 0 := Nat.sub_ne_zero_of_lt hr
    have hrep := ht.represents
    have hcomp := ht.complete
    rw [Ladder.traded_fills (fun _ ↦ h.linked.orders_ne) hr] at hrep hcomp
    have hnode : (MEOrder.mk o.tickerId o.clientId o.clientOrderId s.nextMarketOrderId o.side o.price
        (o.qty - offered (a.crossing o.side o.price)) ((a.swept o.side o.price).nextPriority o.price)
        none none).entry s₂.book.orderPool.nextFreeIndex = restingEntry s a o := by
      rw [ht.nextFree]
      rfl
    rw [if_pos hleaves] at hrun
    obtain ⟨b', hok, hrep', hk, htable, hsize, hlsize⟩ | ⟨f, herr, hf, hwhy⟩ :=
      addResidual_spec (o.qty - offered (a.crossing o.side o.price)) s.nextMarketOrderId hrep hs
        (hadm hr) rfl
    · rw [hnode] at hrep'
      refine .inr (.inl ⟨hr, _, _, hrun.trans hok, ⟨hrep', ?_, ht.tickerId, hsize.trans ht.orders,
        hlsize.trans ht.levels⟩, ht.nextMarketOrderId, fun hc hfree ↦ ?_⟩)
      · change s₂.sent ++ _ = _
        rw [hsent, List.append_assoc]
        rfl
      · refine (hcomp hc).rest hrep.linked hs hk (htable.trans ?_) fun e he hke ↦ hfree e he ?_
        · rw [ht.nextFree]
          rfl
        · simp only [TableKey.entry] at hke
          split_ifs at hke
          simpa using hke
    · refine .inr (.inr ⟨hr, f, by rw [hrun, herr, hsent], hf, ?_⟩)
      rw [ht.orders, ht.levels] at hwhy
      exact hwhy
  · have hleaves : ¬ o.qty - offered (a.crossing o.side o.price) ≠ 0 :=
      not_not.mpr (Nat.sub_eq_zero_of_le (Nat.not_lt.mp hr))
    rw [if_neg hleaves] at hrun
    exact .inl ⟨hr, s₂, hrun, ⟨ht.represents, hsent, ht.tickerId, ht.orders, ht.levels⟩,
      ht.nextMarketOrderId, ht.complete⟩

theorem cancel_spec (h : Represents s.book a) (clientId orderId tickerId : ℕ) :
    (∃ e ∈ a.entries, e.key.clientId = clientId ∧ e.key.clientOrderId = orderId ∧
      s.book.orderTable (clientId, orderId) = some e.ptr ∧
      ∃ s', s.step (.cancel clientId orderId tickerId) = .ok s' ∧
        Called s s' (a.remove e.ptr) (canceledOutputs clientId orderId tickerId e) ∧
        s'.nextMarketOrderId = s.nextMarketOrderId ∧
        (Complete s.book a → Complete s'.book (a.remove e.ptr))) ∨
    (s.book.orderTable (clientId, orderId) = none ∨ ¬ clientId < ME_MAX_NUM_CLIENTS) ∧
      s.step (.cancel clientId orderId tickerId) =
        .ok (s.sendClientResponse (rejection clientId orderId tickerId)) ∨
    ¬ orderId < ME_MAX_ORDER_IDS ∧
      s.step (.cancel clientId orderId tickerId) = .error ⟨.outOfRange, s.sent⟩ := by
  change _ ∨ _ ∧ s.cancel _ _ _ = _ ∨ _ ∧ s.cancel _ _ _ = _
  by_cases hc : clientId < ME_MAX_NUM_CLIENTS
  · by_cases ho : orderId < ME_MAX_ORDER_IDS
    · cases ht : s.book.orderTable (clientId, orderId) with
      | none =>
        refine .inr (.inl ⟨.inl rfl, ?_⟩)
        simp only [cancel, findCancelable, if_pos hc, if_pos ho, ht]
        rfl
      | some p =>
        obtain ⟨e, he, rfl, hk⟩ := h.table _ _ ht
        obtain ⟨b', k, hrun, hrep, hk', htable, hsize, -, hlsize⟩ := removeOrder_spec h he
        have hkey : e.key.clientId = clientId ∧ e.key.clientOrderId = orderId := by
          simp only [TableKey.entry] at hk
          split_ifs at hk
          simpa using hk
        have hentry := h.linked.entry_eq he
        have hqty : (s.book.order e.ptr).qty = e.qty := congrArg Entry.qty hentry
        have hord : (s.book.order e.ptr).key = e.key ∧ (s.book.order e.ptr).side = e.side ∧
            (s.book.order e.ptr).price = e.price ∧ (s.book.order e.ptr).priority = e.priority :=
          ⟨congrArg Entry.key hentry, congrArg Entry.side hentry, congrArg Entry.price hentry,
            congrArg Entry.priority hentry⟩
        refine .inl ⟨e, he, hkey.1, hkey.2, rfl, { s with
          book := b', sent := s.sent ++ canceledOutputs clientId orderId tickerId e }, ?_, ?_, rfl,
          fun hcomp ↦ hcomp.remove he hk' htable⟩
        · change s.cancel _ _ _ = _
          simp only [cancel, findCancelable, if_pos hc, if_pos ho, ht, onBook_ok, ok_bind, hrun, hord,
            hqty, sendMarketUpdate, sendClientResponse, List.append_assoc]
          rfl
        · exact ⟨hrep, rfl, rfl, hsize, hlsize⟩
    · refine .inr (.inr ⟨ho, ?_⟩)
      simp only [cancel, findCancelable, if_pos hc, if_neg ho]
      rfl
  · refine .inr (.inl ⟨.inr hc, ?_⟩)
    simp only [cancel, findCancelable, if_neg hc]
    rfl

end MEOrderBook

end LowLatency.Exchange
