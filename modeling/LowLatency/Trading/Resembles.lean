import LowLatency.Book.Moved
import LowLatency.Trading.Agreement

namespace LowLatency.Trading

open Common Book Exchange MarketOrderBook

variable {G : MarketOrderKey → Price → Prop} {P Q : Ptr → Ptr → Prop}
  {b b' : LevelBook MarketOrderKey OrderId} {u : MEMarketUpdate}

section Quote

theorem matched_sumQty (h : Moved G P Q b b') {first first' p q : Ptr} (hf : P first first') (fuel : ℕ)
    (hp : P p q) (qty : Qty) :
    Matched Eq (sumQty b first fuel p qty) (sumQty b' first' fuel q qty) := by
  induction fuel generalizing p q qty with
  | zero => exact .error
  | succ fuel ih =>
    have hiff : q = first' ↔ p = first := (Relator.rel_eq h.order_biUnique hp hf).symm
    simp only [sumQty, hiff, (h.order p q hp).qty]
    split
    · exact .ok rfl
    · exact (matched_deref (h.nextOrder hp)).bind fun _ _ hn ↦ ih hn _

theorem matched_bestQuote (h : Moved G P Q b b') (side : Side) :
    Matched Eq (bestQuote b side) (bestQuote b' side) := by
  unfold bestQuote
  rcases rel_cases (h.best side) with ⟨hb, hb'⟩ | ⟨l, n, hb, hb', hl⟩
  · rw [hb, hb']
    exact .ok rfl
  · simp only [hb, hb', h.levelPrice hl, h.orders_size]
    refine (matched_deref (h.firstOrder hl)).bind fun first first' hf ↦ ?_
    refine (matched_deref (h.nextOrder hf)).bind fun next next' hn ↦ ?_
    rw [(h.order _ _ hf).qty]
    exact (matched_sumQty h hf _ hn _).bind fun _ _ hqty ↦ .ok (by rw [hqty])

end Quote

section Apply

theorem matched_orderAt (h : Moved G P Q b b') (orderId : OrderId) :
    Matched P (orderAt b orderId) (orderAt b' orderId) := by
  unfold orderAt
  split
  · exact matched_deref (h.table orderId)
  · exact .error

theorem matched_clearLoop {best best' : Ptr} (hbest : Q best best') (fuel : ℕ)
    {l n : Ptr} (h : Moved G P Q b b') (hl : Q l n) :
    Matched (Moved G P Q) (clearLoop best fuel b l) (clearLoop best' fuel b' n) := by
  induction fuel generalizing b b' l n with
  | zero => exact .error
  | succ fuel ih =>
    have hiff : n = best' ↔ l = best := (Relator.rel_eq h.level_biUnique hl hbest).symm
    simp only [clearLoop, hiff]
    split
    · exact .ok h
    · refine (h.deallocateLevel hl).bind fun pool pool' h₁ ↦ ?_
      exact (matched_deref (h₁.nextEntry hl)).bind fun _ _ hn ↦ ih h₁ hn

theorem matched_clearLevels (h : Moved G P Q b b') (side : Side) :
    Matched (Moved G P Q) (clearLevels b side) (clearLevels b' side) := by
  unfold clearLevels
  rcases rel_cases (h.best side) with ⟨hb, hb'⟩ | ⟨l, n, hb, hb', hl⟩
  · rw [hb, hb']
    exact .ok h
  · simp only [hb, hb', h.levels_size]
    refine (matched_deref (h.nextEntry hl)).bind fun _ _ hn ↦ ?_
    refine (matched_clearLoop hl _ h hn).bind fun _ _ h₁ ↦ ?_
    exact (h₁.deallocateLevel hl).bind fun _ _ h₂ ↦ .ok h₂

theorem matched_clear (h : Moved G P Q b b') : Matched (Moved G P Q) (clear b) (clear b') := by
  unfold clear
  generalize List.range ME_MAX_ORDER_IDS = ids
  refine Matched.bind (R := fun pool pool' ↦
    Moved G P Q { b with orderPool := pool } { b' with orderPool := pool' })
    (Matched.foldlM (fun orderId _ pool pool' h₁ ↦ ?_) h) fun pool pool' h₁ ↦ ?_
  · rcases rel_cases (h.table orderId) with ⟨ht, ht'⟩ | ⟨p, q, ht, ht', hp⟩
    · rw [ht, ht']
      exact .ok h₁
    · rw [ht, ht']
      exact h₁.deallocateOrder hp
  have h₂ : Moved G P Q { b with orderPool := pool, orderTable := fun _ : OrderId ↦ none }
      { b' with orderPool := pool', orderTable := fun _ : OrderId ↦ none } :=
    { h₁ with table := fun _ ↦ .none }
  refine (matched_clearLevels h₂ .BUY).bind fun _ _ h₃ ↦ ?_
  refine (matched_clearLevels h₃ .SELL).bind fun _ _ h₄ ↦ ?_
  exact .ok { h₄ with best := fun side ↦ by unfold LevelBook.best; split <;> exact .none }

theorem matched_applyUpdate (h : Moved G P Q b b') (hu : u.type = .ADD → G ⟨u.orderId⟩ u.price) :
    Matched (fun r r' ↦ ∃ P Q, Moved G P Q r r') (applyUpdate b u) (applyUpdate b' u) := by
  unfold applyUpdate
  cases ht : u.type <;> dsimp only
  case ADD =>
    have hnew : SameOrder G P (MarketOrder.mk u.orderId u.side u.price u.qty u.priority none none)
        (MarketOrder.mk u.orderId u.side u.price u.qty u.priority none none) :=
      ⟨rfl, rfl, rfl, rfl, rfl, .none, .none, hu ht⟩
    refine (h.allocateOrder hnew).bind ?_
    rintro ⟨p, pool⟩ ⟨q, pool'⟩ ⟨P', hp, -, h₁⟩
    exact (h₁.addOrder hp).imp fun _ _ ⟨Q', h₂⟩ ↦ ⟨P', Q', h₂⟩
  case MODIFY =>
    exact (matched_orderAt h u.orderId).bind fun _ _ hp ↦ .ok ⟨P, Q, h.setQty hp u.qty⟩
  case CANCEL =>
    exact ((matched_orderAt h u.orderId).bind fun _ _ hp ↦ h.removeOrder hp).imp
      fun _ _ h₁ ↦ ⟨P, Q, h₁⟩
  case CLEAR => exact (matched_clear h).imp fun _ _ h₁ ↦ ⟨P, Q, h₁⟩
  all_goals exact .ok ⟨P, Q, h⟩

end Apply

namespace MarketOrderBook

/-- The books are the same up to addresses, and so are the sides of the `BBO` that `shown` admits. -/
structure Resembles (G : MarketOrderKey → Price → Prop) (shown : Side → Prop) (m m' : MarketOrderBook) :
    Prop where
  book : ∃ P Q, Moved G P Q m.book m'.book
  engine : m'.tradeEngine = m.tradeEngine
  quote : ∀ side, shown side → m'.bbo.quote side = m.bbo.quote side

variable {shown : Side → Prop} {m m' : MarketOrderBook} {us : List MEMarketUpdate}

theorem Resembles.refreshes (h : m.Resembles G shown m') (side : Side) (u : MEMarketUpdate) :
    m'.refreshes side u = m.refreshes side u := by
  obtain ⟨P, Q, hb⟩ := h.book
  unfold MarketOrderBook.refreshes
  rcases rel_cases (hb.best side) with ⟨hn, hn'⟩ | ⟨l, n, hn, hn', hl⟩
  · rw [hn, hn']
  · rw [hn, hn']
    simp only [hb.levelPrice hl]

theorem Resembles.view_eq (h : m.Resembles G shown m') : m'.view = m.view := by
  obtain ⟨P, Q, hb⟩ := h.book
  exact hb.relabel_ladder MarketOrderKey.orderId

theorem Resembles.bbo_eq (h : m.Resembles G (· ≠ .INVALID) m') : m'.bbo = m.bbo :=
  BBO.ext_quote h.quote

theorem Resembles.notify (h : m.Resembles G shown m') (n : Notification) :
    Matched (Resembles G shown) (m.notify n) (m'.notify n) := by
  unfold MarketOrderBook.notify
  rw [h.engine]
  cases deref m.tradeEngine with
  | error f => exact .error
  | ok engine => exact .ok ⟨h.book, rfl, h.quote⟩

theorem Resembles.updateBBO (h : m.Resembles G shown m') (bid ask : Bool) :
    Matched (Resembles G shown) (m.updateBBO bid ask) (m'.updateBBO bid ask) := by
  obtain ⟨P, Q, hb⟩ := h.book
  have hbid : ∀ {q : Price × Qty}, Resembles G shown
      { m with bbo := { m.bbo with bidPrice := q.1, bidQty := q.2 } }
      { m' with bbo := { m'.bbo with bidPrice := q.1, bidQty := q.2 } } := fun {q} ↦
    ⟨h.book, h.engine, fun side hs ↦ by cases side <;> first | rfl | exact h.quote _ hs⟩
  have hask : ∀ {n n' : MarketOrderBook} {q : Price × Qty}, Resembles G shown n n' → Resembles G shown
      { n with bbo := { n.bbo with askPrice := q.1, askQty := q.2 } }
      { n' with bbo := { n'.bbo with askPrice := q.1, askQty := q.2 } } := fun {n n' q} hn ↦
    ⟨hn.book, hn.engine, fun side hs ↦ by cases side <;> first | rfl | exact hn.quote _ hs⟩
  unfold MarketOrderBook.updateBBO
  cases bid <;> cases ask <;> simp only [if_true, Bool.false_eq_true, if_false, pure_eq_ok, ok_bind]
  · exact .ok h
  · exact (matched_bestQuote hb .SELL).bind fun _ _ hq ↦ .ok (hq ▸ hask h)
  · exact (matched_bestQuote hb .BUY).bind fun _ _ hq ↦ .ok (hq ▸ hbid)
  · exact (matched_bestQuote hb .BUY).bind fun _ _ hq ↦
      (matched_bestQuote hb .SELL).bind fun _ _ hq' ↦ .ok (hq ▸ hq' ▸ hask hbid)

theorem Resembles.onMarketUpdate (h : m.Resembles G shown m')
    (hu : u.type = .ADD → G ⟨u.orderId⟩ u.price) :
    Matched (Resembles G shown) (m.onMarketUpdate u) (m'.onMarketUpdate u) := by
  by_cases ht : u.type = .TRADE
  · simp only [MarketOrderBook.onMarketUpdate, ht]
    exact h.notify _
  obtain ⟨P, Q, hb⟩ := h.book
  rw [onMarketUpdate_eq ht, onMarketUpdate_eq ht, h.refreshes, h.refreshes]
  refine (matched_applyUpdate hb hu).bind fun b₁ b₁' hb₁ ↦ ?_
  have h₁ : Resembles G shown { m with book := b₁ } { m' with book := b₁' } := ⟨hb₁, h.engine, h.quote⟩
  exact (h₁.updateBBO _ _).bind fun _ _ h₂ ↦ h₂.notify _

theorem Resembles.run (h : m.Resembles G shown m')
    (hus : ∀ u ∈ us, u.type = .ADD → G ⟨u.orderId⟩ u.price) :
    Matched (Resembles G shown) (m.run us) (m'.run us) :=
  Matched.foldlM (fun u hu _ _ h ↦ h.onMarketUpdate (hus u hu)) h

end MarketOrderBook

end LowLatency.Trading
