import LowLatency.Book.Remove
import LowLatency.Book.Walk
import LowLatency.Exchange.Executions

namespace LowLatency.Exchange

open Common Book Function MEOrderBook

/-- The messages about one trade of the incoming order `o`, which is reported under `id`. -/
def fillOutputs (o : NewOrder) (id : OrderId) (f : Fill MEOrderKey) : List Output :=
  let e := f.entry
  [.response ⟨.FILLED, o.clientId, o.tickerId, o.clientOrderId, id, o.side, e.price, f.qty,
      f.leaves⟩,
    .response ⟨.FILLED, e.key.clientId, o.tickerId, e.key.clientOrderId, e.key.marketOrderId, e.side,
      e.price, f.qty, e.qty - f.qty⟩,
    .update ⟨.TRADE, OrderId_INVALID, o.tickerId, o.side, e.price, f.qty, Priority_INVALID⟩,
    .update (if e.qty = f.qty then
        ⟨.CANCEL, e.key.marketOrderId, o.tickerId, e.side, e.price, e.qty, Priority_INVALID⟩
      else
        ⟨.MODIFY, e.key.marketOrderId, o.tickerId, e.side, e.price, e.qty - f.qty, e.priority⟩)]

/-- `s'` holds `a'` and has sent `outs` more than `s`; what matching does not touch is as in `s`. -/
structure Traded (s s' : MEOrderBook) (a a' : Ladder MEOrderKey) (outs : List Output) : Prop where
  represents : Represents s'.book a'
  complete : Complete s.book a → Complete s'.book a'
  sent : s'.sent = s.sent ++ outs
  tickerId : s'.tickerId = s.tickerId
  nextMarketOrderId : s'.nextMarketOrderId = s.nextMarketOrderId
  orders : s'.book.orderPool.size = s.book.orderPool.size
  nextFree : s'.book.orderPool.nextFreeIndex = s.book.orderPool.nextFreeIndex
  levels : s'.book.ordersAtPricePool.size = s.book.ordersAtPricePool.size

namespace MEOrderBook

variable {s s' : MEOrderBook} {a : Ladder MEOrderKey}

section Head

variable {side : Side} {price : ℤ} {leaves : ℕ}

theorem nextMatch_nil (h : Linked s.book a) (hs : against side ≠ .INVALID)
    (hq : queue (a.on (against side)) = []) :
    s.nextMatch price (against side) leaves = .ok none := by
  have hside := h.side_rep _ hs
  have hbest : s.book.best (against side) = none := by
    rw [hside.best_eq]
    cases hls : a.on (against side) with
    | nil => rfl
    | cons l ls => simp [hls, (hside.level_rep l (by simp [hls])).orders_ne] at hq
  rw [nextMatch, hbest]
  split_ifs <;> rfl

theorem nextMatch_cons (h : Linked s.book a) (hs : against side ≠ .INVALID)
    {e : Entry MEOrderKey} {es : List (Entry MEOrderKey)}
    (hq : queue (a.on (against side)) = e :: es) (hl : leaves ≠ 0) :
    s.nextMatch price (against side) leaves = .ok (if price < e.price then none else some e.ptr) := by
  have hside := h.side_rep _ hs
  cases hls : a.on (against side) with
  | nil => simp [hls] at hq
  | cons l ls =>
    have hrep := hside.level_rep l (by simp [hls])
    obtain ⟨o, os, hos⟩ := List.exists_cons_of_ne_nil hrep.orders_ne
    obtain ⟨rfl, -⟩ : o = e ∧ os ++ queue ls = es := by simpa [hls, hos] using hq
    have hbest : s.book.best (against side) = some l.ptr := by rw [hside.best_eq, hls]; rfl
    have hfirst : s.book.firstOrder l.ptr = some o.ptr := by rw [hrep.first_eq, hos]; rfl
    have hprice : (s.book.order o.ptr).price = o.price :=
      congrArg Entry.price (hrep.entry_eq o (by simp [hos]))
    rw [nextMatch, if_neg hl, hbest]
    simp only [hfirst, deref_some, onBook_ok, ok_bind, hprice]
    split <;> rfl

theorem nextMatch_spec (h : Linked s.book a) (hs : side ≠ .INVALID) :
    (a.Stops side price leaves ∧ s.nextMatch price (against side) leaves = .ok none) ∨
    ∃ e es, queue (a.on (against side)) = e :: es ∧ ¬ price < e.price ∧ leaves ≠ 0 ∧
      s.nextMatch price (against side) leaves = .ok (some e.ptr) := by
  have ho : against side ≠ .INVALID := by simpa using hs
  by_cases hl : leaves = 0
  · exact .inl ⟨.inl hl, by rw [nextMatch, if_pos hl]⟩
  cases hq : queue (a.on (against side)) with
  | nil => exact .inl ⟨.inr (.inl hq), nextMatch_nil h ho hq⟩
  | cons e es =>
    have hnext : s.nextMatch price (against side) leaves = _ := nextMatch_cons h ho hq hl
    by_cases hp : price < e.price
    · exact .inl ⟨.inr (.inr ⟨e, es, hq, hp⟩), by rw [hnext, if_pos hp]⟩
    · exact .inr ⟨e, es, rfl, hp, hl, by rw [hnext, if_neg hp]⟩

end Head

section Loop

variable (o : NewOrder) (id : OrderId)

theorem outputs_execution {e : Entry MEOrderKey} (he : s.book.entryAt e.ptr = e) (leaves : ℕ) :
    (s.execution o id e.ptr leaves).outputs =
      fillOutputs o id ⟨e, min leaves e.qty, leaves - min leaves e.qty⟩ := by
  have hqty : (s.book.order e.ptr).qty = e.qty := congrArg Entry.qty he
  have hord : (s.book.order e.ptr).key = e.key ∧ (s.book.order e.ptr).side = e.side ∧
      (s.book.order e.ptr).price = e.price ∧ (s.book.order e.ptr).priority = e.priority :=
    ⟨congrArg Entry.key he, congrArg Entry.side he, congrArg Entry.price he, congrArg Entry.priority he⟩
  have hzero : e.qty - min leaves e.qty = 0 ↔ e.qty = min leaves e.qty := by omega
  simp only [execution, Execution.outputs, fillOutputs, fillQty, hqty, hord, hzero]

structure Tradable (I : LevelBook MEOrderKey (ClientId × OrderId) → Ladder MEOrderKey → Prop) :
    Prop where
  linked : ∀ {b a}, I b a → Linked b a
  setQty : ∀ {b a} p qty, I b a → I (b.setQty p qty) (a.setQty p qty)
  remove : ∀ {b a e}, I b a → e ∈ a.entries → ∃ b', b.removeOrder e.ptr = .ok b' ∧ I b' (a.remove e.ptr)

variable {I : LevelBook MEOrderKey (ClientId × OrderId) → Ladder MEOrderKey → Prop}

theorem matchOrder_of (hI : Tradable I) (h : I s.book a) {e : Entry MEOrderKey} (he : e ∈ a.entries)
    (leaves : ℕ) :
    ∃ s', s.matchOrder o.tickerId o.clientId o.side o.clientOrderId id e.ptr leaves =
        .ok (s', leaves - min leaves e.qty) ∧
      I s'.book (a.trade ⟨e, min leaves e.qty, leaves - min leaves e.qty⟩) ∧
      s'.sent = s.sent ++ fillOutputs o id ⟨e, min leaves e.qty, leaves - min leaves e.qty⟩ ∧
      s'.tickerId = s.tickerId ∧ s'.nextMarketOrderId = s.nextMarketOrderId := by
  have hentry := (hI.linked h).entry_eq he
  have hqty : (s.book.order e.ptr).qty = e.qty := congrArg Entry.qty hentry
  have hfill : s.fillQty e.ptr leaves = min leaves e.qty := by rw [fillQty, hqty]
  have hsent : (s.reported o id e.ptr leaves).sent =
      s.sent ++ fillOutputs o id ⟨e, min leaves e.qty, leaves - min leaves e.qty⟩ := by
    rw [reported, outputs_execution o id hentry]
  have hbook : (s.reported o id e.ptr leaves).book =
      s.book.setQty e.ptr (e.qty - min leaves e.qty) := by rw [reported, hqty, hfill]
  have hkept : I (s.reported o id e.ptr leaves).book (a.setQty e.ptr (e.qty - min leaves e.qty)) :=
    hbook ▸ hI.setQty _ _ h
  have hzero : e.qty - min leaves e.qty = 0 ↔ e.qty = min leaves e.qty := by omega
  rw [matchOrder_eq, hfill, hqty]
  by_cases hf : e.qty = min leaves e.qty
  · -- the order is filled and leaves the book
    obtain ⟨e₁, he₁, hp₁⟩ : ∃ e₁ ∈ (a.setQty e.ptr (e.qty - min leaves e.qty)).entries,
        e₁.ptr = e.ptr :=
      ⟨withQty e.ptr (e.qty - min leaves e.qty) e, by
        rw [Ladder.entries_setQty]; exact List.mem_map_of_mem he, by simp⟩
    obtain ⟨b₂, hrun, hkept₂⟩ := hI.remove hkept he₁
    rw [hp₁] at hrun hkept₂
    rw [Ladder.remove_setQty] at hkept₂
    have htrade : a.trade ⟨e, min leaves e.qty, leaves - min leaves e.qty⟩ = a.remove e.ptr := if_pos hf
    rw [if_pos (hzero.mpr hf), hrun, htrade]
    exact ⟨_, rfl, hkept₂, hsent, rfl, rfl⟩
  · have htrade : a.trade ⟨e, min leaves e.qty, leaves - min leaves e.qty⟩ =
        a.setQty e.ptr (e.qty - min leaves e.qty) := if_neg hf
    rw [if_neg (mt hzero.mp hf), htrade]
    exact ⟨_, rfl, hkept, hsent, rfl, rfl⟩

theorem matchLoop_of (hI : Tradable I) (hs : o.side ≠ .INVALID) (fuel leaves : ℕ) (h : I s.book a)
    (hfuel : leaves = 0 ∧ 0 < fuel ∨ (queue (a.on (against o.side))).length < fuel) :
    ∃ s', matchLoop o.tickerId o.clientId o.side o.clientOrderId id o.price (against o.side) fuel s
        leaves = .ok (s', leaves - offered (a.crossing o.side o.price)) ∧
      I s'.book (a.traded (a.fills o.side o.price leaves)) ∧
      s'.sent = s.sent ++ (a.fills o.side o.price leaves).flatMap (fillOutputs o id) ∧
      s'.tickerId = s.tickerId ∧ s'.nextMarketOrderId = s.nextMarketOrderId := by
  have ho : against o.side ≠ .INVALID := by simpa using hs
  induction fuel generalizing s a leaves with
  | zero => omega
  | succ fuel ih =>
    rcases nextMatch_spec (hI.linked h) hs with ⟨hstop, hnext⟩ | ⟨e, es, hq, hp, hl, hnext⟩
    · refine ⟨s, ?_, ?_⟩
      · rw [matchLoop, hnext, Ladder.leaves_stops hstop]
        rfl
      · rw [Ladder.fills_nil hstop]
        exact ⟨h, (List.append_nil _).symm, rfl, rfl⟩
    · -- one order is matched, the rest of the loop is the induction hypothesis
      have hd := ((hI.linked h).side_rep _ ho).orders_nodup
      have he : e ∈ a.entries := Ladder.mem_entries.mpr ⟨_, ho, by simp [hq]⟩
      obtain ⟨s₁, hmatch, hkept, hsent, hticker, hid⟩ := matchOrder_of o id hI h he leaves
      obtain ⟨s₂, hloop, hkept₂, hsent₂, hticker₂, hid₂⟩ := ih (leaves - min leaves e.qty) hkept
        (Ladder.fuel_trade hq hd hl hfuel)
      rw [Ladder.leaves_trade hq hd hp] at hloop
      rw [Ladder.fills_cons hq hd hp hl, Ladder.traded_cons, List.flatMap_cons]
      refine ⟨s₂, ?_, hkept₂, ?_, hticker₂.trans hticker, hid₂.trans hid⟩
      · rw [matchLoop, hnext]
        simp only [ok_bind, hmatch, hloop]
      · rw [hsent₂, hsent, List.append_assoc]

theorem tradable_represents (b₀ : LevelBook MEOrderKey (ClientId × OrderId)) (a₀ : Ladder MEOrderKey) :
    Tradable fun b a ↦ Represents b a ∧ (Complete b₀ a₀ → Complete b a) ∧
      b.orderPool.size = b₀.orderPool.size ∧
      b.orderPool.nextFreeIndex = b₀.orderPool.nextFreeIndex ∧
      b.ordersAtPricePool.size = b₀.ordersAtPricePool.size where
  linked := fun h ↦ h.1.linked
  setQty := fun p qty ⟨h, hc, ho, hn, hl⟩ ↦
    ⟨h.setQty p qty, fun hc₀ ↦ (hc hc₀).setQty p qty, ho, hn, hl⟩
  remove := fun ⟨h, hc, ho, hn, hl⟩ he ↦ by
    obtain ⟨b', k, hrun, hrep, hk, ht, hsize, hnext, hlsize⟩ := removeOrder_spec h he
    exact ⟨b', hrun, hrep, fun hc₀ ↦ Complete.remove (hc hc₀) he hk ht, hsize.trans ho, hnext.trans hn,
      hlsize.trans hl⟩

theorem matchOrder_spec (h : Represents s.book a) {e : Entry MEOrderKey} (he : e ∈ a.entries)
    (leaves : ℕ) :
    ∃ s', s.matchOrder o.tickerId o.clientId o.side o.clientOrderId id e.ptr leaves =
        .ok (s', leaves - min leaves e.qty) ∧
      Traded s s' a (a.trade ⟨e, min leaves e.qty, leaves - min leaves e.qty⟩)
        (fillOutputs o id ⟨e, min leaves e.qty, leaves - min leaves e.qty⟩) := by
  obtain ⟨s', hrun, ⟨hrep, hcomp, ho, hn, hl⟩, hsent, hticker, hid⟩ :=
    matchOrder_of o id (tradable_represents s.book a) ⟨h, fun hc ↦ hc, rfl, rfl, rfl⟩ he leaves
  exact ⟨s', hrun, hrep, hcomp, hsent, hticker, hid, ho, hn, hl⟩

theorem matchLoop_spec (hs : o.side ≠ .INVALID) (fuel leaves : ℕ)
    (h : Represents s.book a)
    (hfuel : leaves = 0 ∧ 0 < fuel ∨ (queue (a.on (against o.side))).length < fuel) :
    ∃ s', matchLoop o.tickerId o.clientId o.side o.clientOrderId id o.price (against o.side) fuel s
        leaves = .ok (s', leaves - offered (a.crossing o.side o.price)) ∧
      Traded s s' a (a.traded (a.fills o.side o.price leaves)) ((a.fills o.side o.price leaves).flatMap
        (fillOutputs o id)) := by
  obtain ⟨s', hrun, ⟨hrep, hcomp, ho, hn, hl⟩, hsent, hticker, hid⟩ :=
    matchLoop_of o id (tradable_represents s.book a) hs fuel leaves ⟨h, fun hc ↦ hc, rfl, rfl, rfl⟩ hfuel
  exact ⟨s', hrun, hrep, hcomp, hsent, hticker, hid, ho, hn, hl⟩

end Loop

end MEOrderBook

end LowLatency.Exchange
