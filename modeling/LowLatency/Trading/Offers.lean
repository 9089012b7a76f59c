import LowLatency.Trading.Clear

namespace LowLatency.Trading

open Common Book Exchange MarketOrderBook

/-- The orders that are live after some updates, with their current quantities, and those that were
live when a `CLEAR` came. -/
structure LiveBook where
  orders : List MEMarketUpdate
  cleared : List MEMarketUpdate
  deriving DecidableEq

def LiveBook.update (v : LiveBook) (u : MEMarketUpdate) : LiveBook :=
  match u.type with
  | .ADD => { v with orders := v.orders ++ [u] }
  | .MODIFY => { v with
      orders := v.orders.map fun o ↦ if o.orderId = u.orderId then { o with qty := u.qty } else o }
  | .CANCEL => { v with orders := v.orders.filter (·.orderId ≠ u.orderId) }
  | .CLEAR => ⟨[], v.cleared ++ v.orders⟩
  | _ => v

def replay (us : List MEMarketUpdate) : LiveBook := us.foldl LiveBook.update ⟨[], []⟩

theorem replay_concat (us : List MEMarketUpdate) (u : MEMarketUpdate) :
    replay (us ++ [u]) = (replay us).update u := by
  simp [replay]

section Quote

variable {os : List MEMarketUpdate} {side : Side} {p : Price}

def prices (side : Side) (os : List MEMarketUpdate) : List Price :=
  (os.filter (·.side = side)).map (·.price)

def bestPrice (side : Side) (os : List MEMarketUpdate) : Option Price :=
  if side = .BUY then (prices side os).max? else (prices side os).min?

def totalAt (side : Side) (price : Price) (os : List MEMarketUpdate) : ℕ :=
  ((os.filter fun o ↦ o.side = side ∧ o.price = price).map (·.qty)).sum

def bestOffer (side : Side) (os : List MEMarketUpdate) : Price × Qty :=
  match bestPrice side os with
  | none => (Price_INVALID, Qty_INVALID)
  | some p => (p, totalAt side p os)

theorem mem_prices : p ∈ prices side os ↔ ∃ o ∈ os, o.side = side ∧ o.price = p := by
  simp [prices, and_assoc]

theorem bestPrice_eq_none : bestPrice side os = none ↔ ∀ o ∈ os, o.side ≠ side := by
  have hnil : prices side os = [] ↔ ∀ o ∈ os, o.side ≠ side := by simp [prices]
  rw [← hnil, bestPrice]
  split
  · exact List.max?_eq_none_iff
  · exact List.min?_eq_none_iff

theorem bestPrice_eq_some (hs : side ≠ .INVALID) : bestPrice side os = some p ↔
    (∃ o ∈ os, o.side = side ∧ o.price = p) ∧
      ∀ o ∈ os, o.side = side → ¬ Better side o.price p := by
  have hall : ∀ R : Price → Prop, (∀ q ∈ prices side os, R q) ↔
      ∀ o ∈ os, o.side = side → R o.price := fun R ↦ by
    simp only [mem_prices]
    exact ⟨fun h o ho hos ↦ h _ ⟨o, ho, hos, rfl⟩, fun h q ⟨o, ho, hos, hq⟩ ↦ hq ▸ h o ho hos⟩
  unfold bestPrice
  cases side with
  | INVALID => exact absurd rfl hs
  | BUY =>
    rw [if_pos rfl, List.max?_eq_some_iff, mem_prices, hall]
    simp [Better]
  | SELL =>
    rw [if_neg (by decide), List.min?_eq_some_iff, mem_prices, hall]
    simp [Better]

end Quote

/-- The update makes `onMarketUpdate` refresh the side: it names the side, whose orders do not have a
better price. -/
def Refreshes (side : Side) (os : List MEMarketUpdate) (u : MEMarketUpdate) : Prop :=
  u.type ≠ .TRADE ∧ u.side = side ∧ ∃ p ∈ bestPrice side os, ¬ Better side p u.price

instance (side : Side) (os : List MEMarketUpdate) (u : MEMarketUpdate) :
    Decidable (Refreshes side os u) := inferInstanceAs (Decidable (_ ∧ _ ∧ _))

/-- The updates up to the last one that refreshed the side. -/
def lastRefresh (side : Side) (us : List MEMarketUpdate) : List MEMarketUpdate :=
  ((us.inits.filter fun before ↦ match before.getLast? with
    | none => false
    | some u => decide (Refreshes side (replay before.dropLast).orders u)).getLast?).getD []

theorem lastRefresh_concat (side : Side) (us : List MEMarketUpdate) (u : MEMarketUpdate) :
    lastRefresh side (us ++ [u]) =
      if Refreshes side (replay us).orders u then us ++ [u] else lastRefresh side us := by
  simp only [lastRefresh, List.inits_append, List.filter_append]
  split_ifs with h <;> simp [List.inits, h]

/-- What the next update may be when these orders are live. An added order has a new id within the
tables, its slot of the price index is free or holds its own side and price, and a new price goes
behind the others of its side. A modified or canceled order is live. -/
def Tidy (v : LiveBook) (u : MEMarketUpdate) : Prop :=
  match u.type with
  | .ADD => u.side ≠ .INVALID ∧ u.orderId < ME_MAX_ORDER_IDS ∧
      v.orders.length + 1 < ME_MAX_ORDER_IDS ∧ (∀ o ∈ v.orders, o.orderId ≠ u.orderId) ∧
      (∀ o ∈ v.orders, priceToIndex o.price = priceToIndex u.price →
        o.side = u.side ∧ o.price = u.price) ∧
      (∀ o ∈ v.cleared, priceToIndex o.price ≠ priceToIndex u.price) ∧
      ((∃ o ∈ v.orders, o.side = u.side ∧ o.price = u.price) ∨ ∀ o ∈ v.orders, o.side = u.side →
        Better u.side o.price u.price ∧ LevelBook.addAfter u.side u.price o.price)
  | .MODIFY | .CANCEL => ∃ o ∈ v.orders, o.orderId = u.orderId
  | _ => True

instance : DecidableRel Tidy
  | _, ⟨.ADD, _, _, _, _, _, _⟩ =>
    inferInstanceAs (Decidable (_ ∧ _ ∧ _ ∧ _ ∧ (∀ o ∈ _, _ → _) ∧ _ ∧ (_ ∨ ∀ o ∈ _, _ → _)))
  | _, ⟨.MODIFY, _, _, _, _, _, _⟩ | _, ⟨.CANCEL, _, _, _, _, _, _⟩ =>
    inferInstanceAs (Decidable (∃ o ∈ _, _))
  | _, ⟨.CLEAR, _, _, _, _, _, _⟩ | _, ⟨.TRADE, _, _, _, _, _, _⟩ | _, ⟨.INVALID, _, _, _, _, _, _⟩
  | _, ⟨.SNAPSHOT_START, _, _, _, _, _, _⟩ | _, ⟨.SNAPSHOT_END, _, _, _, _, _, _⟩ =>
    inferInstanceAs (Decidable True)

section Listed

def asEntry (o : MEMarketUpdate) : Entry Unit := ⟨o.orderId, (), o.side, o.price, o.qty, o.priority⟩

structure Lists (v : Ladder Unit) (os : List MEMarketUpdate) : Prop where
  entries : v.entries.Perm (os.map asEntry)
  ranked : ∀ side, side ≠ .INVALID → Ranked side (v.on side)
  uniform : ∀ side, side ≠ .INVALID → Uniform (v.on side)

structure Filed (v : Ladder Unit) : Prop where
  orders_ne : ∀ side, side ≠ .INVALID → ∀ l ∈ v.on side, l.orders ≠ []
  entry_side : ∀ side, side ≠ .INVALID → ∀ e ∈ queue (v.on side), e.side = side
  slots : ∀ side, side ≠ .INVALID → ((v.on side).map fun l ↦ priceToIndex l.price).Nodup

variable {v : Ladder Unit} {os : List MEMarketUpdate} {u : MEMarketUpdate} {side : Side}
  {l : Level Unit} {ls : List (Level Unit)}

theorem MarketOrderBook.Sound.filed {m : MarketOrderBook} (h : m.Sound) : Filed m.view where
  orders_ne := fun side hs l hl ↦ by
    rw [view, Ladder.on_relabel] at hl
    obtain ⟨l₀, hl₀, rfl⟩ := List.mem_map.mp hl
    have hne := h.represents.linked.orders_ne (Ladder.mem_levels.mpr ⟨side, hs, hl₀⟩)
    simpa [Level.relabel] using hne
  entry_side := fun side hs e he ↦ by
    rw [view, Ladder.on_relabel, queue_relabel] at he
    obtain ⟨e₀, he₀, rfl⟩ := List.mem_map.mp he
    exact h.represents.linked.entry_side hs he₀
  slots := fun side hs ↦ by
    rw [view, Ladder.on_relabel, List.map_map]
    exact h.represents.linked.slots_nodup hs

theorem Filed.queue_eq (h : Filed v) (hs : side ≠ .INVALID) :
    queue (v.on side) = v.entries.filter (·.side = side) := by
  have hall : ∀ side', side' ≠ .INVALID → (queue (v.on side')).filter (·.side = side) =
      if side' = side then queue (v.on side') else [] := fun side' hs' ↦ by
    split_ifs with heq
    · exact List.filter_eq_self.mpr fun e he ↦ by simpa [heq] using h.entry_side side' hs' e he
    · refine List.filter_eq_nil_iff.mpr fun e he ↦ ?_
      simpa [h.entry_side side' hs' e he] using heq
  have hbids := hall .BUY (by decide)
  have hasks := hall .SELL (by decide)
  rw [Ladder.on_BUY] at hbids
  rw [Ladder.on_SELL] at hasks
  rw [Ladder.entries, Ladder.levels, queue_append, List.filter_append, hbids, hasks]
  cases side with
  | INVALID => exact absurd rfl hs
  | BUY => simp
  | SELL => simp

namespace Lists

theorem queue_perm (h : Lists v os) (hv : Filed v) (hs : side ≠ .INVALID) :
    (queue (v.on side)).Perm ((os.filter (·.side = side)).map asEntry) := by
  rw [hv.queue_eq hs]
  refine (h.entries.filter _).trans ?_
  rw [List.filter_map]
  rfl

theorem mem_queue_iff (h : Lists v os) (hv : Filed v) (hs : side ≠ .INVALID) {e : Entry Unit} :
    e ∈ queue (v.on side) ↔ ∃ o ∈ os, o.side = side ∧ asEntry o = e := by
  rw [(h.queue_perm hv hs).mem_iff]
  simp [and_assoc]

theorem exists_of_level (h : Lists v os) (hv : Filed v) (hs : side ≠ .INVALID) (hl : l ∈ v.on side) :
    ∃ o ∈ os, o.side = side ∧ o.price = l.price := by
  obtain ⟨e, he⟩ := List.exists_mem_of_ne_nil _ (hv.orders_ne side hs l hl)
  obtain ⟨o, ho, hos, rfl⟩ := (h.mem_queue_iff hv hs).mp (mem_queue.mpr ⟨l, hl, he⟩)
  exact ⟨o, ho, hos, h.uniform side hs l hl _ he⟩

theorem exists_level (h : Lists v os) (hv : Filed v) {o : MEMarketUpdate} (ho : o ∈ os)
    (hs : o.side ≠ .INVALID) : ∃ l ∈ v.on o.side, l.price = o.price := by
  obtain ⟨l, hl, he⟩ := mem_queue.mp ((h.mem_queue_iff hv hs).mpr ⟨o, ho, rfl, rfl⟩)
  exact ⟨l, hl, (h.uniform o.side hs l hl _ he).symm⟩

theorem bestPrice_eq_head (h : Lists v os) (hv : Filed v) (hs : side ≠ .INVALID) :
    bestPrice side os = (v.on side).head?.map Level.price := by
  cases hls : v.on side with
  | nil =>
    refine bestPrice_eq_none.mpr fun o ho hos ↦ ?_
    have hmem := (h.mem_queue_iff hv hs).mpr ⟨o, ho, hos, rfl⟩
    rw [hls] at hmem
    cases hmem
  | cons l ls =>
    refine (bestPrice_eq_some hs).mpr ⟨h.exists_of_level hv hs (by simp [hls]), fun o ho hos ↦ ?_⟩
    obtain ⟨n, hn, hp⟩ := h.exists_level hv ho (hos ▸ hs)
    have hranked := h.ranked side hs
    rw [hos, hls] at hn
    rw [hls] at hranked
    rw [← hp]
    rcases List.mem_cons.mp hn with rfl | hn
    · exact fun hbetter ↦ hbetter.ne rfl
    · exact ((List.pairwise_cons.mp hranked).1 _ (List.mem_map_of_mem hn)).asymm

theorem totalAt_eq_sum (h : Lists v os) (hv : Filed v) (hs : side ≠ .INVALID)
    (hls : v.on side = l :: ls) : totalAt side l.price os = (l.orders.map Entry.qty).sum := by
  have hranked := h.ranked side hs
  have huniform := h.uniform side hs
  rw [hls] at hranked huniform
  have hbest : (queue (v.on side)).filter (·.price = l.price) = l.orders := by
    rw [hls, queue_cons, List.filter_append, List.filter_eq_self.mpr, List.filter_eq_nil_iff.mpr,
      List.append_nil]
    · intro e he hp
      obtain ⟨n, hn, he⟩ := mem_queue.mp he
      have hbetter := (List.pairwise_cons.mp hranked).1 _ (List.mem_map_of_mem hn)
      have hprice := huniform n (List.mem_cons_of_mem l hn) e he
      exact hbetter.ne (hprice.symm.trans (of_decide_eq_true hp))
    · exact fun e he ↦ decide_eq_true (huniform l List.mem_cons_self e he)
  have hperm := (h.queue_perm hv hs).filter (·.price = l.price)
  rw [hbest, List.filter_map, List.filter_filter] at hperm
  have hfilter : (os.filter fun o ↦ o.side = side ∧ o.price = l.price) =
      os.filter fun o ↦ (asEntry o).price = l.price && o.side = side :=
    List.filter_congr fun o _ ↦ by
      rw [← Bool.decide_and]
      exact decide_eq_decide.mpr and_comm
  rw [(hperm.map Entry.qty).sum_eq, List.map_map, totalAt, hfilter]
  rfl

theorem bestOffer_eq (h : Lists v os) (hv : Filed v) (hs : side ≠ .INVALID) :
    bestOffer side os = match v.on side with
      | [] => (Price_INVALID, Qty_INVALID)
      | l :: _ => (l.price, (l.orders.map Entry.qty).sum) := by
  rw [bestOffer, h.bestPrice_eq_head hv hs]
  cases hls : v.on side with
  | nil => rfl
  | cons l ls => simp [h.totalAt_eq_sum hv hs hls]

theorem exists_order (h : Lists v os) {e : Entry Unit} (he : e ∈ v.entries) :
    ∃ o ∈ os, asEntry o = e := List.mem_map.mp (h.entries.mem_iff.mp he)

theorem exists_entry (h : Lists v os) {id : OrderId} (ho : ∃ o ∈ os, o.orderId = id) :
    ∃ e ∈ v.entries, e.ptr = id := by
  obtain ⟨o, ho, rfl⟩ := ho
  exact ⟨asEntry o, h.entries.mem_iff.mpr (List.mem_map_of_mem ho), rfl⟩

section Add

variable {lv : LiveBook}

theorem level_of_slot (h : Lists v lv.orders) (hv : Filed v) (hu : Tidy lv u) (ht : u.type = .ADD)
    (hs : side ≠ .INVALID) (hl : l ∈ v.on side) (hi : priceToIndex l.price = priceToIndex u.price) :
    side = u.side ∧ l.price = u.price := by
  simp only [Tidy, ht] at hu
  obtain ⟨o, ho, rfl, hp⟩ := h.exists_of_level hv hs hl
  obtain ⟨hside, hprice⟩ := hu.2.2.2.2.1 o ho (hp ▸ hi)
  exact ⟨hside, hp ▸ hprice⟩

theorem joins_or_behind (h : Lists v lv.orders) (hv : Filed v) (hu : Tidy lv u) (ht : u.type = .ADD) :
    (∃ l ∈ v.on u.side, priceToIndex l.price = priceToIndex u.price) ∨
      ∀ l ∈ v.on u.side, Better u.side l.price u.price ∧ LevelBook.addAfter u.side u.price l.price := by
  simp only [Tidy, ht] at hu
  obtain ⟨hs, -, -, -, -, -, ⟨o, ho, hos, hp⟩ | hall⟩ := hu
  · obtain ⟨l, hl, hlp⟩ := h.exists_level hv ho (hos ▸ hs)
    exact .inl ⟨l, hos ▸ hl, by rw [hlp, hp]⟩
  · refine .inr fun l hl ↦ ?_
    obtain ⟨o, ho, hos, hp⟩ := h.exists_of_level hv hs hl
    exact hp ▸ hall o ho hos

theorem rest (h : Lists v lv.orders) (hv : Filed v) (hu : Tidy lv u) (ht : u.type = .ADD) :
    Lists (v.rest 0 (asEntry u)) (lv.orders ++ [u]) := by
  have hs : (asEntry u).side ≠ .INVALID := by
    simp only [Tidy, ht] at hu
    exact hu.1
  refine ⟨?_, fun side hside ↦ ?_, fun side hside ↦ ?_⟩
  · rw [List.map_append]
    exact (Ladder.entries_rest_perm hs (hv.slots _ hs)).trans (h.entries.append_right _)
  · rw [Ladder.rest, Ladder.on_setOn hs hside]
    split_ifs with heq
    · subst heq
      exact (h.ranked _ hside).restIn ((h.joins_or_behind hv hu ht).imp_right
        fun hall l hl ↦ (hall l hl).1)
    · exact h.ranked side hside
  · rw [Ladder.rest, Ladder.on_setOn hs hside]
    split_ifs with heq
    · subst heq
      exact (h.uniform _ hside).restIn fun l hl hi ↦ (h.level_of_slot hv hu ht hs hl hi).2
    · exact h.uniform side hside

end Add

theorem applicable {lv : LiveBook} (h : Lists v lv.orders) (hv : Filed v) (hu : Tidy lv u)
    (hc : u.type ≠ .CLEAR) : Applicable v u := by
  have htidy := hu
  unfold Tidy at hu
  unfold Applicable
  cases ht : u.type <;> simp only [ht] at hu hc ⊢
  case ADD =>
    obtain ⟨hs, hid, hroom, hfresh, -, -, -⟩ := hu
    refine ⟨hs, fun e he ↦ ?_, ⟨fun l hl hi ↦ ?_, ?_⟩, ?_, hid⟩
    · obtain ⟨o, ho, rfl⟩ := h.exists_order he
      exact hfresh o ho
    · obtain ⟨side, hside, hl⟩ := Ladder.mem_levels.mp hl
      rw [← (h.level_of_slot hv htidy ht hside hl hi).1]
      exact hl
    · exact (h.joins_or_behind hv htidy ht).imp_right fun hall l hl ↦ (hall l hl).2
    · rwa [h.entries.length_eq, List.length_map]
  case MODIFY => exact h.exists_entry hu
  case CANCEL => exact h.exists_entry hu
  case CLEAR => exact hc rfl

theorem shrink {v' : Ladder Unit} {os' : List MEMarketUpdate} (h : Lists v os) (hs : v'.Shrinks v)
    (hp : v'.entries.Perm (os'.map asEntry)) : Lists v' os' where
  entries := hp
  ranked := fun side hside ↦ (h.ranked side hside).shrink (hs side)
  uniform := fun side hside ↦ (h.uniform side hside).shrink (hs side)

theorem update {lv : LiveBook} (h : Lists v lv.orders) (hv : Filed v) (hu : Tidy lv u)
    (hc : u.type ≠ .CLEAR) : Lists (applyTo v u) (lv.update u).orders := by
  unfold applyTo LiveBook.update
  cases ht : u.type <;> dsimp only
  case ADD => exact h.rest hv hu ht
  case MODIFY =>
    refine h.shrink (fun side ↦ ?_) ?_
    · rw [Ladder.on_setQty]
      exact setQtyIn_shrinks _ _ _
    · rw [Ladder.entries_setQty]
      refine (h.entries.map _).trans (.of_eq ?_)
      rw [List.map_map, List.map_map]
      refine List.map_congr_left fun o _ ↦ ?_
      by_cases ho : o.orderId = u.orderId <;> simp [withQty, asEntry, ho]
  case CANCEL =>
    refine h.shrink (Ladder.shrinks_remove v _) ?_
    rw [Ladder.entries_remove]
    refine (h.entries.filter _).trans (.of_eq ?_)
    rw [List.filter_map]
    rfl
  case CLEAR => exact absurd ht hc
  all_goals exact h

end Lists

end Listed

end LowLatency.Trading
