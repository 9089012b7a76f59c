import LowLatency.Exchange.PriceTime
import LowLatency.Exchange.TickerBooks
import Mathlib.Data.String.Defs

namespace LowLatency.Exchange

open Common Book LinkedRing

/-- What `sprintf` makes of a level and of those before and behind it. -/
def levelHead (price prev next : Price) (qty : Qty) (numOrders : ℕ) : String :=
  " <px:" ++ (priceToString price).leftpad 3 ' ' ++ " p:" ++ (priceToString prev).leftpad 3 ' ' ++
    " n:" ++ (priceToString next).leftpad 3 ' ' ++ "> " ++ (priceToString price).rightpad 3 ' ' ++
    " @ " ++ (qtyToString qty).rightpad 5 ' ' ++ "(" ++ (toString numOrders).rightpad 4 ' ' ++ ")"

def orderDetail (orderId : OrderId) (qty : Qty) (prev next : OrderId) : String :=
  "[oid:" ++ orderIdToString orderId ++ " q:" ++ qtyToString qty ++ " p:" ++ orderIdToString prev ++
    " n:" ++ orderIdToString next ++ "] "

def levelTitle (title : String) (count : ℕ) : String := title ++ toString count ++ " => "

def notSorted (last : Price) (itr : String) : String :=
  "Bids/Asks not sorted by ascending/descending prices last:" ++ priceToString last ++ " itr:" ++ itr

namespace MEOrderBook

def marketOrderIdAt (s : MEOrderBook) : Option Ptr → OrderId
  | some p => (s.book.order p).key.marketOrderId
  | none => OrderId_INVALID

def priceAt (s : MEOrderBook) : Option Ptr → Price
  | some l => s.book.levelPrice l
  | none => Price_INVALID

/-- `MEOrder::toString` -/
def orderToString (s : MEOrderBook) (p : Ptr) : String :=
  let o := s.book.order p
  "MEOrder [ client:" ++ clientIdToString o.key.clientId ++ " ticker:" ++ tickerIdToString o.key.tickerId ++
    " coid:" ++ orderIdToString o.key.clientOrderId ++ " moid:" ++ orderIdToString o.key.marketOrderId ++
    " side:" ++ sideToString o.side ++ " exec_qty:" ++ qtyToString o.qty ++
    " price:" ++ priceToString o.price ++ " priority:" ++ priorityToString o.priority ++
    " prev:" ++ orderIdToString (s.marketOrderIdAt o.prevOrder) ++
    " next:" ++ orderIdToString (s.marketOrderIdAt o.nextOrder) ++ "]"

/-- `MEOrderAtPrice::toString` -/
def levelToString (s : MEOrderBook) (l : Ptr) : String :=
  "MEOrdersAtPrice[side:" ++ sideToString (s.book.levelSide l) ++
    " price:" ++ priceToString (s.book.levelPrice l) ++
    " first_me_order:" ++ (match s.book.firstOrder l with
      | some p => s.orderToString p
      | none => "null") ++
    " prev:" ++ priceToString (s.priceAt (s.book.prevEntry l)) ++
    " next:" ++ priceToString (s.priceAt (s.book.nextEntry l)) ++ "]"

/-- The loop over the orders of a level, which is left where the next order is the first one. -/
def forOrders {α : Type} (s : MEOrderBook) (first : Option Ptr) (body : α → Ptr → α) :
    ℕ → Option Ptr → α → Except Fault α
  | 0, _, _ => .error .diverges
  | fuel + 1, oItr, x => do
    let o ← deref oItr
    let x := body x o
    if s.book.nextOrder o = first then return x
    else s.forOrders first body fuel (s.book.nextOrder o) x

def printer (s : MEOrderBook) (detailed : Bool) (itr : Ptr) (side : Side) (sanityCheck : Bool)
    (ss : String) (lastPrice : Price) : Except Fault (String × Price) := do
  let fuel := s.book.orderPool.size + 1
  let first := s.book.firstOrder itr
  let price := s.book.levelPrice itr
  let (qty, numOrders) ← s.forOrders first
    (fun x o ↦ ((x.1 + (s.book.order o).qty) % 2 ^ 32, x.2 + 1)) fuel first (0, 0)
  let prev ← deref (s.book.prevEntry itr)
  let next ← deref (s.book.nextEntry itr)
  let ss := ss ++ levelHead price (s.book.levelPrice prev) (s.book.levelPrice next) qty numOrders
  let ss ← s.forOrders first
    (fun ss o ↦ if detailed then ss ++ orderDetail (s.book.order o).key.marketOrderId (s.book.order o).qty
      (s.marketOrderIdAt (s.book.prevOrder o)) (s.marketOrderIdAt (s.book.nextOrder o)) else ss)
    fuel first ss
  let ss := ss ++ "\n"
  if sanityCheck then
    if (side = .SELL ∧ lastPrice ≥ price) ∨ (side = .BUY ∧ lastPrice ≤ price) then
      .error (.fatal (notSorted lastPrice (s.levelToString itr)))
    else return (ss, price)
  else return (ss, lastPrice)

def printSide (s : MEOrderBook) (detailed sanityCheck : Bool) (side : Side) (title : String) :
    ℕ → ℕ → Option Ptr → String → Price → Except Fault String
  | 0, _, _, _, _ => .error .diverges
  | _ + 1, _, none, ss, _ => .ok ss
  | fuel + 1, count, some itr, ss, lastPrice => do
    let ss := ss ++ levelTitle title count
    let next := if s.book.nextEntry itr = s.book.best side then none else s.book.nextEntry itr
    let (ss, lastPrice) ← s.printer detailed itr side sanityCheck ss lastPrice
    s.printSide detailed sanityCheck side title fuel (count + 1) next ss lastPrice

/-- The price that the check puts in front of a side. -/
def edge (side : Side) : Price := if side = .BUY then 2 ^ 63 - 1 else -2 ^ 63

end MEOrderBook

def MEOrderBook.toString (s : MEOrderBook) (detailed validityCheck : Bool) : Except Fault String := do
  let fuel := s.book.ordersAtPricePool.size + 1
  let ss := "Ticker:" ++ tickerIdToString s.tickerId ++ "\n"
  let ss ← s.printSide detailed validityCheck .SELL "ASKS L:" fuel 0 s.book.asksByPrice ss (edge .SELL)
  let ss := ss ++ "\n                          X\n\n"
  s.printSide detailed validityCheck .BUY "BIDS L:" fuel 0 s.book.bidsByPrice ss (edge .BUY)

section Abstract

variable {κ : Type}

def ordersText (detailed : Bool) (es : List (Entry MEOrderKey)) : String :=
  if detailed then String.join ((flanks es).map fun e ↦ orderDetail e.2.1.key.marketOrderId e.2.1.qty
    e.1.key.marketOrderId e.2.2.key.marketOrderId)
  else ""

def levelText (detailed : Bool) (t : Level MEOrderKey × Level MEOrderKey × Level MEOrderKey) : String :=
  levelHead t.2.1.price t.1.price t.2.2.price ((t.2.1.orders.map Entry.qty).sum % 2 ^ 32) t.2.1.orders.length ++
    ordersText detailed t.2.1.orders ++ "\n"

/-- A line for each level, with its number and its neighbours in the ring. -/
def linesText (detailed : Bool) (title : String) (count : ℕ)
    (ts : List (Level MEOrderKey × Level MEOrderKey × Level MEOrderKey)) : String :=
  String.join ((ts.zipIdx count).map fun x ↦ levelTitle title x.2 ++ levelText detailed x.1)

def ladderText (detailed : Bool) (tickerId : TickerId) (a : Ladder MEOrderKey) : String :=
  "Ticker:" ++ tickerIdToString tickerId ++ "\n" ++ linesText detailed "ASKS L:" 0 (flanks a.asks) ++
    "\n                          X\n\n" ++ linesText detailed "BIDS L:" 0 (flanks a.bids)

/-- The first level that is not beyond the price in front of it, with that price. -/
def misplaced (side : Side) : Price → List (Level κ) → Option (Price × Level κ)
  | _, [] => none
  | last, l :: ls => if Better side last l.price then misplaced side l.price ls else some (last, l)

def firstMisplaced (a : Ladder κ) : Option (Price × Level κ) :=
  (misplaced .SELL (MEOrderBook.edge .SELL) a.asks).or (misplaced .BUY (MEOrderBook.edge .BUY) a.bids)

/-- Both sides are sorted, and no price is the one that the check starts from. -/
def InOrder (a : Ladder κ) : Prop :=
  ∀ side, side ≠ .INVALID → (MEOrderBook.edge side :: (a.on side).map Level.price).Pairwise (Better side)

theorem misplaced_eq_none_iff {side : Side} {last : Price} {ls : List (Level κ)} :
    misplaced side last ls = none ↔ (last :: ls.map Level.price).Pairwise (Better side) := by
  induction ls generalizing last with
  | nil => exact iff_of_true rfl (List.pairwise_singleton _ _)
  | cons l ls ih =>
    rw [misplaced, List.map_cons]
    split_ifs with hbetter
    · rw [ih, List.pairwise_cons (a := last)]
      refine ⟨fun h ↦ ⟨List.forall_mem_cons.mpr ⟨hbetter, fun p hp ↦ ?_⟩, h⟩, And.right⟩
      exact hbetter.trans (List.rel_of_pairwise_cons h hp)
    · refine iff_of_false id fun h ↦ hbetter ?_
      exact List.rel_of_pairwise_cons h List.mem_cons_self

theorem firstMisplaced_eq_none_iff {a : Ladder κ} : firstMisplaced a = none ↔ InOrder a := by
  rw [firstMisplaced, Option.or_eq_none_iff, misplaced_eq_none_iff, misplaced_eq_none_iff]
  refine ⟨fun ⟨hasks, hbids⟩ side hs ↦ ?_, fun h ↦ ⟨h .SELL (by decide), h .BUY (by decide)⟩⟩
  cases side with
  | INVALID => exact absurd rfl hs
  | BUY => exact hbids
  | SELL => exact hasks

end Abstract

theorem foldl_append_text {α : Type} (f : α → String) (ss : String) (xs : List α) :
    xs.foldl (fun ss x ↦ ss ++ f x) ss = ss ++ String.join (xs.map f) := by
  induction xs generalizing ss with
  | nil => exact String.append_empty.symm
  | cons x xs ih => rw [List.foldl_cons, ih, List.map_cons, String.join_cons, String.append_assoc]

namespace MEOrderBook

variable {s : MEOrderBook} {side : Side} {l : Level MEOrderKey} {ls : List (Level MEOrderKey)} {fuel : ℕ}

def textUnless (s : MEOrderBook) (text : String) : Option (Price × Level MEOrderKey) → Except Fault String
  | none => .ok text
  | some (last, l) => .error (.fatal (notSorted last (s.levelToString l.ptr)))

section Orders

variable {α : Type} {body : α → Ptr → α} {x : α}

theorem forOrders_chain {stop p : Ptr} {ps : List Ptr}
    (h : (p :: ps ++ [stop]).IsChain (Neighbours s.book.nextOrder s.book.prevOrder)) (hs : stop ∉ ps)
    (hn : ps.length < fuel) :
    s.forOrders (some stop) body fuel (some p) x = .ok ((p :: ps).foldl body x) := by
  induction ps generalizing p fuel x with
  | nil =>
    obtain ⟨n, rfl⟩ := Nat.exists_eq_succ_of_ne_zero (Nat.ne_of_gt hn)
    rw [forOrders, deref_some, ok_bind]
    exact if_pos (List.isChain_pair.mp h).1
  | cons q ps ih =>
    obtain ⟨n, rfl⟩ := Nat.exists_eq_succ_of_ne_zero (Nat.ne_of_gt (Nat.zero_lt_of_lt hn))
    obtain ⟨hpq, hchain⟩ := List.isChain_cons_cons.mp h
    have hne : s.book.nextOrder p ≠ some stop := fun hstop ↦
      hs (Option.some.inj (hpq.1.symm.trans hstop) ▸ List.mem_cons_self)
    rw [forOrders, deref_some, ok_bind]
    dsimp only
    rw [if_neg hne, hpq.1]
    exact ih hchain (fun hmem ↦ hs (List.mem_cons_of_mem q hmem)) (Nat.lt_of_succ_lt_succ hn)

theorem forOrders_level (h : LevelRep s.book side l) (hd : (l.orders.map Entry.ptr).Nodup)
    (hn : l.orders.length ≤ fuel) :
    s.forOrders (s.book.firstOrder l.ptr) body fuel (s.book.firstOrder l.ptr) x =
      .ok ((l.orders.map Entry.ptr).foldl body x) := by
  obtain ⟨e, es, hes⟩ := List.exists_cons_of_ne_nil h.orders_ne
  have hring := h.ring
  rw [hes, List.map_cons] at hring hd ⊢
  rw [h.first_eq, hes]
  refine forOrders_chain (isRing_cons.mp hring) (List.nodup_cons.mp hd).1 ?_
  rw [List.length_map]
  rwa [hes] at hn

theorem foldl_count {es : List (Entry MEOrderKey)} (h : ∀ e ∈ es, s.book.entryAt e.ptr = e) {qty : ℕ}
    (hqty : qty < 2 ^ 32) (n : ℕ) :
    (es.map Entry.ptr).foldl (fun x o ↦ ((x.1 + (s.book.order o).qty) % 2 ^ 32, x.2 + 1)) (qty, n) =
      ((qty + (es.map Entry.qty).sum) % 2 ^ 32, n + es.length) := by
  induction es generalizing qty n with
  | nil => exact congrArg (·, n) (Nat.mod_eq_of_lt hqty).symm
  | cons e es ih =>
    obtain ⟨he, hes⟩ := List.forall_mem_cons.mp h
    have hq : (s.book.order e.ptr).qty = e.qty := congrArg Entry.qty he
    rw [List.map_cons, List.foldl_cons, ih hes (Nat.mod_lt _ (by decide)), hq, Nat.mod_add_mod, List.map_cons,
      List.sum_cons, List.length_cons, Nat.add_assoc, Nat.add_assoc, Nat.add_comm 1]

theorem foldl_detail (h : LevelRep s.book side l) (detailed : Bool) (ss : String) :
    (l.orders.map Entry.ptr).foldl (fun ss o ↦
      if detailed then ss ++ orderDetail (s.book.order o).key.marketOrderId (s.book.order o).qty
        (s.marketOrderIdAt (s.book.prevOrder o)) (s.marketOrderIdAt (s.book.nextOrder o)) else ss) ss =
      ss ++ ordersText detailed l.orders := by
  cases detailed with
  | false => exact (List.foldl_fixed _).trans String.append_empty.symm
  | true =>
    refine (foldl_append_text _ ss _).trans (congrArg (fun ts ↦ ss ++ String.join ts) ?_)
    have hring := h.ring.neighbours_flanks
    rw [flanks_map, List.forall_mem_map] at hring
    conv_lhs => rw [← nodes_flanks l.orders]
    rw [List.map_map, List.map_map]
    refine List.map_congr_left fun e he ↦ ?_
    obtain ⟨hprev, hnext⟩ := hring e he
    obtain ⟨h₁, h₂, h₃⟩ := forall_flanks h.entry_eq e he
    have hid : ∀ e : Entry MEOrderKey, s.book.entryAt e.ptr = e →
        (s.book.order e.ptr).key.marketOrderId = e.key.marketOrderId := fun e he ↦
      congrArg (fun e ↦ e.key.marketOrderId) he
    have hqty : (s.book.order e.2.1.ptr).qty = e.2.1.qty := congrArg Entry.qty h₂
    simp only [Function.comp_apply, Prod.map_fst, Prod.map_snd] at hprev hnext ⊢
    rw [hprev, hnext, marketOrderIdAt, marketOrderIdAt, hid _ h₁, hid _ h₂, hid _ h₃, hqty]

end Orders

section Levels

variable {detailed check : Bool} {t : Level MEOrderKey × Level MEOrderKey × Level MEOrderKey} {ss title : String}
  {last : Price}

theorem printer_level (h : ∀ l ∈ ls, LevelRep s.book side l) (hs : side ≠ .INVALID) (ht : t ∈ flanks ls)
    (hlinks : s.book.prevEntry t.2.1.ptr = some t.1.ptr ∧ s.book.nextEntry t.2.1.ptr = some t.2.2.ptr)
    (hd : (t.2.1.orders.map Entry.ptr).Nodup) (hn : t.2.1.orders.length ≤ s.book.orderPool.size + 1) :
    s.printer detailed t.2.1.ptr side check ss last =
      if check ∧ ¬ Better side last t.2.1.price then .error (.fatal (notSorted last (s.levelToString t.2.1.ptr)))
      else .ok (ss ++ levelText detailed t, if check then t.2.1.price else last) := by
  obtain ⟨hprev, hlevel, hnext⟩ := forall_flanks h t ht
  have hsort : (side = .SELL ∧ last ≥ t.2.1.price) ∨ (side = .BUY ∧ last ≤ t.2.1.price) ↔
      ¬ Better side last t.2.1.price := by
    cases side with
    | INVALID => exact absurd rfl hs
    | BUY => simp [Better]
    | SELL => simp [Better]
  have htext : ss ++ levelHead t.2.1.price t.1.price t.2.2.price ((t.2.1.orders.map Entry.qty).sum % 2 ^ 32)
      t.2.1.orders.length ++ ordersText detailed t.2.1.orders ++ "\n" = ss ++ levelText detailed t := by
    simp only [levelText, String.append_assoc]
  unfold printer
  dsimp only
  rw [forOrders_level hlevel hd hn, ok_bind, foldl_count hlevel.entry_eq (by decide), Nat.zero_add, Nat.zero_add,
    hlinks.1, deref_some, ok_bind, hlinks.2, deref_some, ok_bind]
  dsimp only
  rw [forOrders_level hlevel hd hn, ok_bind, hlevel.price_eq, hprev.price_eq, hnext.price_eq, foldl_detail hlevel,
    htext]
  cases check with
  | false => rfl
  | true =>
    by_cases hbetter : Better side last t.2.1.price
    · simp [hsort, hbetter]
    · simp [hsort, hbetter]

structure Prints (s : MEOrderBook) (detailed check : Bool) (side : Side)
    (t : Level MEOrderKey × Level MEOrderKey × Level MEOrderKey) : Prop where
  next : s.book.nextEntry t.2.1.ptr = some t.2.2.ptr
  line : ∀ ss last, s.printer detailed t.2.1.ptr side check ss last =
    if check ∧ ¬ Better side last t.2.1.price then .error (.fatal (notSorted last (s.levelToString t.2.1.ptr)))
    else .ok (ss ++ levelText detailed t, if check then t.2.1.price else last)

theorem linesText_cons (detailed : Bool) (title : String) (count : ℕ)
    (ts : List (Level MEOrderKey × Level MEOrderKey × Level MEOrderKey)) :
    linesText detailed title count (t :: ts) =
      levelTitle title count ++ levelText detailed t ++ linesText detailed title (count + 1) ts := by
  rw [linesText, List.zipIdx_cons, List.map_cons, String.join_cons]
  rfl

theorem printSide_none {count : ℕ} (hn : 0 < fuel) :
    s.printSide detailed check side title fuel count none ss last =
      s.textUnless (ss ++ linesText detailed title count []) (if check then misplaced side last [] else none) := by
  obtain ⟨n, rfl⟩ := Nat.exists_eq_succ_of_ne_zero (Nat.ne_of_gt hn)
  have htext : ss ++ linesText detailed title count [] = ss := String.append_empty
  rw [htext]
  cases check <;> rfl

theorem printSide_from {best p : Level MEOrderKey} {count : ℕ} (hbest : s.book.best side = some best.ptr)
    (hprints : ∀ t ∈ flanksFrom best p ls, s.Prints detailed check side t)
    (hne : ∀ l ∈ ls.tail, l.ptr ≠ best.ptr) (hn : ls.length < fuel) :
    s.printSide detailed check side title fuel count (ls.head?.map Level.ptr) ss last =
      s.textUnless (ss ++ linesText detailed title count (flanksFrom best p ls))
        (if check then misplaced side last ls else none) := by
  induction ls generalizing p count ss last fuel with
  | nil => exact printSide_none hn
  | cons l ls ih =>
    obtain ⟨n, rfl⟩ := Nat.exists_eq_succ_of_ne_zero (Nat.ne_of_gt (Nat.zero_lt_of_lt hn))
    obtain ⟨⟨hnext, hline⟩, hrest⟩ := List.forall_mem_cons.mp hprints
    have hitr : (if s.book.nextEntry l.ptr = s.book.best side then none else s.book.nextEntry l.ptr) =
        ls.head?.map Level.ptr := by
      rw [hnext, hbest]
      cases ls with
      | nil => exact if_pos rfl
      | cons m ls => exact if_neg fun h ↦ hne m List.mem_cons_self (Option.some.inj h)
    have htext : ss ++ levelTitle title count ++ levelText detailed (p, l, ls.headD best) ++
        linesText detailed title (count + 1) (flanksFrom best l ls) =
          ss ++ linesText detailed title count (flanksFrom best p (l :: ls)) := by
      rw [flanksFrom, linesText_cons]
      simp only [String.append_assoc]
    have hlater : ∀ last', s.printSide detailed check side title n (count + 1) (ls.head?.map Level.ptr)
        (ss ++ levelTitle title count ++ levelText detailed (p, l, ls.headD best)) last' =
        s.textUnless (ss ++ linesText detailed title count (flanksFrom best p (l :: ls)))
          (if check then misplaced side last' ls else none) := fun last' ↦ by
      rw [ih hrest (fun m hm ↦ hne m (List.mem_of_mem_tail hm)) (Nat.lt_of_succ_lt_succ hn), htext]
    rw [List.head?_cons, Option.map_some, printSide, hitr, hline]
    cases check with
    | false => exact hlater last
    | true =>
      rw [if_pos rfl, misplaced]
      by_cases hbetter : Better side last l.price
      · rw [if_neg fun h ↦ h.2 hbetter, if_pos hbetter]
        exact hlater l.price
      · rw [if_pos ⟨rfl, hbetter⟩, if_neg hbetter]
        rfl

theorem printSide_eq (h : SideRep s.book side ls) (hs : side ≠ .INVALID)
    (horders : (queue ls).length ≤ s.book.orderPool.size + 1) (hlevels : ls.length < fuel) (last : Price) :
    s.printSide detailed check side title fuel 0 (s.book.best side) ss last =
      s.textUnless (ss ++ linesText detailed title 0 (flanks ls)) (if check then misplaced side last ls else none) := by
  have hring := h.ring.neighbours_flanks
  rw [flanks_map, List.forall_mem_map] at hring
  have hprints : ∀ t ∈ flanks ls, s.Prints detailed check side t := fun t ht ↦ by
    obtain ⟨-, hl, -⟩ := forall_flanks (P := (· ∈ ls)) (fun _ hl ↦ hl) t ht
    have hsub : t.2.1.orders.Sublist (queue ls) := List.sublist_flatten_of_mem (List.mem_map_of_mem hl)
    exact ⟨(hring t ht).2, fun ss last ↦ printer_level h.level_rep hs ht (hring t ht)
      (h.orders_nodup.sublist (hsub.map _)) (hsub.length_le.trans horders)⟩
  rw [h.best_eq]
  cases ls with
  | nil => exact printSide_none hlevels
  | cons l ls =>
    have hd := h.levels_nodup
    refine printSide_from h.best_eq hprints (fun m hm hptr ↦ ?_) hlevels
    rw [List.map_cons, List.nodup_cons] at hd
    exact hd.1 (hptr ▸ List.mem_map_of_mem hm)

end Levels

def text (s : MEOrderBook) (detailed : Bool) : String := ladderText detailed s.tickerId s.ladder

theorem toString_eq (h : s.Sound) (detailed check : Bool) : s.toString detailed check =
    s.textUnless (s.text detailed) (if check then firstMisplaced s.ladder else none) := by
  have hside : ∀ side, side ≠ .INVALID → ∀ title ss, s.printSide detailed check side title
      (s.book.ordersAtPricePool.size + 1) 0 (s.book.best side) ss (edge side) =
        s.textUnless (ss ++ linesText detailed title 0 (flanks (s.ladder.on side)))
          (if check then misplaced side (edge side) (s.ladder.on side) else none) := by
    intro side hs title ss
    have hrep := h.represents.linked.side_rep side hs
    have horders : (queue (s.ladder.on side)).length ≤ s.book.orderPool.size := by
      have hle := length_le_of_lt hrep.orders_nodup (n := s.book.orderPool.size) fun p hp ↦ by
        obtain ⟨e, he, rfl⟩ := List.mem_map.mp hp
        exact (h.represents.inUse.order e (Ladder.mem_entries.mpr ⟨side, hs, he⟩)).1
      rwa [List.length_map] at hle
    have hlevels : (s.ladder.on side).length ≤ s.book.ordersAtPricePool.size := by
      have hle := length_le_of_lt hrep.levels_nodup (n := s.book.ordersAtPricePool.size) fun p hp ↦ by
        obtain ⟨l, hl, rfl⟩ := List.mem_map.mp hp
        exact (h.represents.inUse.level l (Ladder.mem_levels.mpr ⟨side, hs, hl⟩)).1
      rwa [List.length_map] at hle
    exact printSide_eq hrep hs (horders.trans (Nat.le_succ _)) (Nat.lt_succ_of_le hlevels) _
  unfold MEOrderBook.toString
  dsimp only
  rw [show s.book.asksByPrice = s.book.best .SELL from rfl, show s.book.bidsByPrice = s.book.best .BUY from rfl,
    hside .SELL (by decide)]
  cases check with
  | false => exact hside .BUY (by decide) _ _
  | true =>
    rw [if_pos rfl, if_pos rfl, firstMisplaced]
    cases hasks : misplaced .SELL (edge .SELL) s.ladder.asks with
    | none =>
      rw [show s.ladder.on .SELL = s.ladder.asks from rfl, hasks]
      exact hside .BUY (by decide) _ _
    | some x =>
      rw [show s.ladder.on .SELL = s.ladder.asks from rfl, hasks]
      rfl

theorem toString_checked (h : s.Sound) {detailed : Bool} {text : String} :
    s.toString detailed true = .ok text ↔ InOrder s.ladder ∧ text = s.text detailed := by
  rw [toString_eq h, if_pos rfl, ← firstMisplaced_eq_none_iff]
  cases firstMisplaced s.ladder with
  | none => exact ⟨fun htext ↦ ⟨rfl, (Except.ok.inj htext).symm⟩, fun htext ↦ congrArg _ htext.2.symm⟩
  | some x => exact iff_of_false (fun htext ↦ by cases htext) fun htext ↦ by cases htext.1

section Runs

variable {tickerId : TickerId} {c : Call} {cs : List Call}

/-- In every state of a run, the text of the book has each level and each order once, in the order of the
ladder and between its neighbours; and the check ends the process exactly at the first level that is not
sorted. -/
theorem toString_of_run (hg : Guarded MEOrderBook.step Admitted (new tickerId) cs)
    (hrun : (new tickerId).run cs = .ok s) (detailed : Bool) :
    s.toString detailed false = .ok (s.text detailed) ∧
      (s.toString detailed true = .ok (s.text detailed) ↔ InOrder s.ladder) ∧
      ∀ last l, firstMisplaced s.ladder = some (last, l) →
        s.toString detailed true = .error (.fatal (notSorted last (s.levelToString l.ptr))) := by
  have hs := sound_of_run hg hrun
  refine ⟨toString_eq hs detailed false, (toString_checked hs).trans (and_iff_left rfl), fun last l hl ↦ ?_⟩
  rw [toString_eq hs, if_pos rfl, hl]
  rfl

def sortedCalls : List Call :=
  [.add ⟨1, 1, 0, .SELL, 100, 10⟩, .add ⟨2, 2, 0, .SELL, 101, 10⟩, .add ⟨3, 3, 0, .BUY, 101, 14⟩,
    .add ⟨4, 4, 0, .BUY, 99, 4⟩]

theorem toString_of_run_sorted : ∃ s, (new 0).run sortedCalls = .ok s ∧ s.toString false true = .ok
    ("Ticker:0\nASKS L:0 =>  <px:101 p:101 n:101> 101 @ 6    (1   )\n\n                          X\n\n" ++
      "BIDS L:0 =>  <px: 99 p: 99 n: 99> 99  @ 4    (1   )\n") := by
  obtain ⟨s, hs, hnone, htext⟩ := Yields.exists_ok (show Yields ((new 0).run sortedCalls)
    (fun s ↦ firstMisplaced s.ladder = none ∧ s.text false =
      "Ticker:0\nASKS L:0 =>  <px:101 p:101 n:101> 101 @ 6    (1   )\n\n                          X\n\n" ++
        "BIDS L:0 =>  <px: 99 p: 99 n: 99> 99  @ 4    (1   )\n") by decide +kernel)
  have hprints := (toString_of_run (by decide +kernel) hs false).2.1.mpr (firstMisplaced_eq_none_iff.mp hnone)
  exact ⟨s, hs, hprints.trans (congrArg _ htext)⟩

def Inside : Call → Prop
  | .add o => Better o.side (edge o.side) o.price
  | .cancel _ _ _ => True

instance : DecidablePred Inside
  | .add _ => inferInstanceAs (Decidable (Better _ _ _))
  | .cancel _ _ _ => inferInstanceAs (Decidable True)

def Orderly (s : MEOrderBook) (c : Call) : Prop := s.Admitted c ∧ s.Behind c ∧ Inside c

instance : DecidableRel Orderly := fun _ _ ↦ inferInstanceAs (Decidable (_ ∧ _))

def Beyond (side : Side) (ls : List (Level MEOrderKey)) : Prop := ∀ l ∈ ls, Better side (edge side) l.price

theorem beyond_step {s' : MEOrderBook} (hs : s.Sound) (hadm : s.Admitted c) (hc : Inside c) (hrun : s.step c = .ok s')
    (h : ∀ side, side ≠ .INVALID → Beyond side (s.ladder.on side)) :
    ∀ side, side ≠ .INVALID → Beyond side (s'.ladder.on side) := by
  refine side_step (P := Beyond) hs hadm hrun h (fun side ls' ls hshr h l' hl' ↦ ?_) ?_
  · obtain ⟨l, hl, hshrinks⟩ := exists_level_of_shrinks hshr hl'
    exact hshrinks.price ▸ h l hl
  · rintro o lp rfl hr h l' hl'
    rcases mem_restIn hl' with ⟨hl, -⟩ | ⟨l, hl, -, rfl⟩ | ⟨-, hl | rfl⟩
    · exact h l' hl
    · exact h l hl
    · exact h l' hl
    · exact hc

/-- While every new level belongs behind all others the check never ends the process. -/
theorem inOrder_of_run (hg : Guarded MEOrderBook.step Orderly (new tickerId) cs)
    (hrun : (new tickerId).run cs = .ok s) : InOrder s.ladder := by
  have h : s.Sound ∧ ∀ side, side ≠ .INVALID → Ranked side (s.ladder.on side) ∧ Beyond side (s.ladder.on side) := by
    refine hg.invariant (I := fun s ↦ s.Sound ∧ ∀ side, side ≠ .INVALID → Ranked side (s.ladder.on side) ∧
      Beyond side (s.ladder.on side)) ?_ ⟨sound_new tickerId, fun side _ ↦ ?_⟩ hrun
    · rintro s c s' ⟨hs, h⟩ ⟨hadm, hbehind, hinside⟩ hstep
      have hranked := ranked_step hs hadm hbehind hstep fun side hside ↦ (h side hside).1
      have hbeyond := beyond_step hs hadm hinside hstep fun side hside ↦ (h side hside).2
      exact ⟨hs.step hadm hstep, fun side hside ↦ ⟨hranked side hside, hbeyond side hside⟩⟩
    · have hon : (new tickerId).ladder.on side = [] := by cases side <;> rfl
      rw [hon]
      exact ⟨List.Pairwise.nil, fun l hl ↦ absurd hl List.not_mem_nil⟩
  intro side hs
  obtain ⟨hranked, hbeyond⟩ := h.2 side hs
  exact List.pairwise_cons.mpr ⟨List.forall_mem_map.mpr hbeyond, hranked⟩

end Runs

end MEOrderBook

namespace MatchingEngine

open MEOrderBook

/-- What the destructor has logged, when it has destroyed all books. -/
def destroy (e : MatchingEngine) : Except Fault (List String) :=
  (List.range ME_MAX_TICKERS).mapM fun tickerId ↦ (e.tickerOrderBook tickerId).toString false true

theorem mapM_eq_ok_iff {α β ε : Type} {f : α → Except ε β} {g : α → β} {P : α → Prop} {xs : List α} {ys : List β}
    (h : ∀ x ∈ xs, ∀ y, f x = .ok y ↔ P x ∧ y = g x) :
    xs.mapM f = .ok ys ↔ (∀ x ∈ xs, P x) ∧ ys = xs.map g := by
  induction xs generalizing ys with
  | nil =>
    refine ⟨fun hys ↦ ⟨List.forall_mem_nil _, (Except.ok.inj hys).symm⟩, ?_⟩
    rintro ⟨-, rfl⟩
    rfl
  | cons x xs ih =>
    obtain ⟨hx, hxs⟩ := List.forall_mem_cons.mp h
    rw [List.mapM_cons, List.forall_mem_cons, List.map_cons]
    constructor
    · intro hys
      obtain ⟨y, hy, hys⟩ := bind_eq_ok hys
      obtain ⟨zs, hzs, hys⟩ := bind_eq_ok hys
      obtain ⟨hP, rfl⟩ := (hx y).mp hy
      obtain ⟨hall, rfl⟩ := (ih hxs).mp hzs
      exact ⟨⟨hP, hall⟩, (Except.ok.inj hys).symm⟩
    · rintro ⟨⟨hP, hall⟩, rfl⟩
      rw [(hx _).mpr ⟨hP, rfl⟩, ok_bind, (ih hxs).mpr ⟨hall, rfl⟩]
      rfl

/-- The engine comes to the end of its destructor exactly if no book is out of order. Else the process ends
with an error while the exchange is shut down. -/
theorem destroy_iff {rs : List MEClientRequest} {e : MatchingEngine} {texts : List String}
    (hrun : new.run rs = .ok e)
    (hg : ∀ tickerId, Guarded MEOrderBook.step Admitted (.new tickerId) (callsOn tickerId rs)) :
    e.destroy = .ok texts ↔ (∀ tickerId < ME_MAX_TICKERS, InOrder (e.tickerOrderBook tickerId).ladder) ∧
      texts = (List.range ME_MAX_TICKERS).map fun tickerId ↦ (e.tickerOrderBook tickerId).text false := by
  have hchecked : ∀ tickerId ∈ List.range ME_MAX_TICKERS, ∀ text,
      (e.tickerOrderBook tickerId).toString false true = .ok text ↔
        InOrder (e.tickerOrderBook tickerId).ladder ∧ text = (e.tickerOrderBook tickerId).text false := by
    intro tickerId _ text
    have hbook := (hasBook_of_run hrun tickerId).1
    rw [run_callsOn] at hbook
    exact toString_checked (sound_of_run (hg tickerId) hbook)
  rw [destroy, mapM_eq_ok_iff hchecked]
  simp only [List.mem_range]

theorem destroy_iff_two : ∃ e, new.run twoTickers = .ok e ∧ e.destroy =
    .ok ((List.range ME_MAX_TICKERS).map fun tickerId ↦ (e.tickerOrderBook tickerId).text false) := by
  obtain ⟨e, he⟩ := run_twoTickers
  have hg : ∀ tickerId, Guarded MEOrderBook.step Orderly (.new tickerId) (callsOn tickerId twoTickers) := by
    intro tickerId
    rcases callsOn_twoTickers tickerId with rfl | rfl | hnone
    · decide +kernel
    · decide +kernel
    · rw [hnone]
      trivial
  refine ⟨e, he, (destroy_iff he fun tickerId ↦ (hg tickerId).imp fun _ _ h ↦ h.1).mpr ⟨fun tickerId _ ↦ ?_, rfl⟩⟩
  have hbook := (hasBook_of_run he tickerId).1
  rw [run_callsOn] at hbook
  exact inOrder_of_run (hg tickerId) hbook

end MatchingEngine

end LowLatency.Exchange
