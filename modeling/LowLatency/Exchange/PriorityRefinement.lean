import LowLatency.Book.Relabel
import LowLatency.Exchange.PriceTime
import LowLatency.PriorityBook

namespace LowLatency.Exchange

open Common Book MEOrderBook

def way (side : Side) : Way := if side = .BUY then .buy else .sell

def Way.side : Way → Side
  | .buy => .BUY
  | .sell => .SELL

def bookOrder (e : Entry MEOrderKey) : BookOrder OrderId := ⟨e.key.marketOrderId, e.price, e.qty⟩

def bookOrders (ls : List (Level MEOrderKey)) : List (BookOrder OrderId) := (queue ls).map bookOrder

def priorityBook (a : Ladder MEOrderKey) : PriorityBook OrderId := ⟨bookOrders a.bids, bookOrders a.asks⟩

def deal (f : Fill MEOrderKey) : Deal OrderId :=
  ⟨f.entry.key.marketOrderId, f.entry.price, f.qty, f.entry.qty - f.qty⟩

def shown (u : MEMarketUpdate) : MarketUpdateType × OrderId × Side × Price × Qty :=
  (u.type, u.orderId, u.side, u.price, u.qty)

def told : BookEvent OrderId → List (MarketUpdateType × OrderId × Side × Price × Qty)
  | .traded w d => [(.TRADE, OrderId_INVALID, Way.side w, d.price, d.qty),
      if d.left = 0 then (.CANCEL, d.id, Way.side w.other, d.price, d.qty)
      else (.MODIFY, d.id, Way.side w.other, d.price, d.left)]
  | .rested w o => [(.ADD, o.id, Way.side w, o.price, o.qty)]
  | .canceled w o => [(.CANCEL, o.id, Way.side w, o.price, 0)]

/-- At every order to which the loop of `checkForMatch` comes, its test says whether the price of the order
is beyond the limit. -/
def Honors (side : Side) (price : ℤ) : ℕ → List (Entry MEOrderKey) → Prop
  | _, [] => True
  | qty, e :: es => qty ≠ 0 → (price < e.price ↔ (way (against side)).Before price e.price) ∧
      (¬ price < e.price → Honors side price (qty - min qty e.qty) es)

instance Honors.decidable (side : Side) (price : ℤ) :
    ∀ (qty : ℕ) (es : List (Entry MEOrderKey)), Decidable (Honors side price qty es)
  | _, [] => isTrue trivial
  | qty, e :: es =>
    have := Honors.decidable side price (qty - min qty e.qty) es
    inferInstanceAs (Decidable (_ → _ ∧ (_ → _)))

section Sides

variable {a : Ladder MEOrderKey} {side : Side} {price : ℤ} {qty : ℕ} {ls : List (Level MEOrderKey)}
  {e : Entry MEOrderKey} {p q : ℤ}

theorem way_against (hs : side ≠ .INVALID) : way (against side) = (way side).other := by
  cases side <;> first | rfl | exact absurd rfl hs

theorem side_way (hs : side ≠ .INVALID) : Way.side (way side) = side := by
  cases side <;> first | rfl | exact absurd rfl hs

theorem before_way_iff (hs : side ≠ .INVALID) : (way side).Before p q ↔ Better side p q := by
  cases side <;> simp_all [way, Way.Before, Better]

theorem on_priorityBook (a : Ladder MEOrderKey) (side : Side) :
    (priorityBook a).on (way side) = bookOrders (a.on side) := by
  unfold way Ladder.on
  split <;> rfl

/-- For a BUY the test of the loop is right. -/
theorem honors_buy (price : ℤ) (qty : ℕ) (es : List (Entry MEOrderKey)) : Honors .BUY price qty es := by
  induction es generalizing qty with
  | nil => trivial
  | cons e es ih => exact fun _ ↦ ⟨.rfl, fun _ ↦ ih _⟩

theorem bookOrders_setQty {es : List (Entry MEOrderKey)} (hq : queue ls = e :: es)
    (hd : ((queue ls).map Entry.ptr).Nodup) (qty : ℕ) :
    bookOrders (setQtyIn e.ptr qty ls) = { bookOrder e with qty := qty } :: es.map bookOrder := by
  rw [hq, List.map_cons, List.nodup_cons] at hd
  rw [bookOrders, queue_setQtyIn, hq, List.map_cons, List.map_cons, List.map_map]
  congr 1
  · rw [withQty, if_pos rfl]
    rfl
  · refine List.map_congr_left fun e' he' ↦ ?_
    have hne : e'.ptr ≠ e.ptr := fun hp ↦ hd.1 (hp ▸ List.mem_map_of_mem he')
    rw [Function.comp_apply, withQty, if_neg hne]

theorem sweepOrders_eq (hd : ((queue (a.on (against side))).map Entry.ptr).Nodup)
    (hh : Honors side price qty (queue (a.on (against side)))) :
    sweepOrders (way (against side)) price qty (bookOrders (a.on (against side))) =
      ⟨(a.fills side price qty).map deal, qty - offered (a.crossing side price),
        bookOrders ((a.traded (a.fills side price qty)).on (against side))⟩ := by
  obtain ⟨n, hn⟩ : ∃ n, n = (queue (a.on (against side))).length := ⟨_, rfl⟩
  induction n generalizing a qty with
  | zero =>
    have hq : queue (a.on (against side)) = [] := List.length_eq_zero_iff.mp hn.symm
    have hstop : a.Stops side price qty := .inr (.inl hq)
    rw [Ladder.fills_nil hstop, Ladder.leaves_stops hstop, Ladder.traded_nil, bookOrders, hq]
    rfl
  | succ n ih =>
    obtain ⟨e, es, hq⟩ : ∃ e es, queue (a.on (against side)) = e :: es :=
      List.exists_cons_of_length_eq_add_one hn.symm
    have hview : bookOrders (a.on (against side)) = bookOrder e :: es.map bookOrder := by
      rw [bookOrders, hq, List.map_cons]
    rw [hq] at hh
    by_cases hstop : qty = 0 ∨ price < e.price
    · have hstops : a.Stops side price qty := hstop.imp_right fun hp ↦ .inr ⟨e, es, hq, hp⟩
      have hends : qty = 0 ∨ (way (against side)).Before price e.price := by
        by_cases hl : qty = 0
        · exact .inl hl
        · exact .inr ((hh hl).1.mp (hstop.resolve_left hl))
      rw [Ladder.fills_nil hstops, Ladder.leaves_stops hstops, Ladder.traded_nil, hview, sweepOrders]
      exact if_pos hends
    · obtain ⟨hl, hp⟩ := not_or.mp hstop
      obtain ⟨hlimit, hrest⟩ := hh hl
      have hgoes : ¬ (qty = 0 ∨ (way (against side)).Before price e.price) :=
        not_or.mpr ⟨hl, mt hlimit.mpr hp⟩
      rw [Ladder.fills_cons hq hd hp hl, Ladder.traded_cons, ← Ladder.leaves_trade hq hd hp, hview, sweepOrders,
        List.map_cons]
      refine (if_neg hgoes).trans ?_
      by_cases hpart : qty < e.qty
      · -- the order is used up by a part of the one that rests
        have htrade : a.trade ⟨e, min qty e.qty, qty - min qty e.qty⟩ = a.setQty e.ptr (e.qty - qty) := by
          rw [Nat.min_eq_left hpart.le]
          exact if_neg hpart.ne'
        have hleaves : qty - min qty e.qty = 0 := by rw [Nat.min_eq_left hpart.le, Nat.sub_self]
        have hnone : (a.setQty e.ptr (e.qty - qty)).Stops side price 0 := .inl rfl
        rw [htrade, hleaves, Ladder.fills_nil hnone, Ladder.leaves_stops hnone, Ladder.traded_nil,
          Ladder.on_setQty, bookOrders_setQty hq hd, Nat.min_eq_left hpart.le]
        exact if_pos hpart
      · have hfull : e.qty = min qty e.qty := (Nat.min_eq_right (not_lt.mp hpart)).symm
        have hqueue := Ladder.queue_on_trade (f := ⟨e, min qty e.qty, qty - min qty e.qty⟩) hq hd hfull
        have hlength : n = (queue ((a.trade ⟨e, min qty e.qty, qty - min qty e.qty⟩).on (against side))).length := by
          rw [hqueue]
          simpa [hq] using hn
        have hswept := ih (Ladder.nodup_trade hd) (hqueue.symm ▸ hrest hp) hlength
        rw [bookOrders, hqueue] at hswept
        rw [← hfull] at hswept ⊢
        refine (if_neg hpart).trans ?_
        dsimp only [bookOrder]
        rw [hswept, deal, Nat.sub_self]

theorem on_trade_of_notMem {f : Fill MEOrderKey} (hne : ∀ l ∈ a.on side, l.orders ≠ [])
    (hf : f.entry.ptr ∉ (queue (a.on side)).map Entry.ptr) : (a.trade f).on side = a.on side := by
  unfold Ladder.trade
  split_ifs
  · rw [Ladder.on_remove, removeFrom_of_notMem hne hf]
  · rw [Ladder.on_setQty, setQtyIn]
    conv_rhs => rw [← List.map_id (a.on side)]
    refine List.map_congr_left fun l hl ↦ ?_
    have hsame : l.orders.map (withQty f.entry.ptr (f.entry.qty - f.qty)) = l.orders := by
      conv_rhs => rw [← List.map_id l.orders]
      refine List.map_congr_left fun e he ↦ ?_
      have hne' : e.ptr ≠ f.entry.ptr := fun hp ↦
        hf (hp ▸ List.mem_map_of_mem (mem_queue.mpr ⟨l, hl, he⟩))
      rw [withQty, if_neg hne']
      rfl
    rw [hsame]
    rfl

theorem on_traded_of_notMem {fs : List (Fill MEOrderKey)} (hne : ∀ l ∈ a.on side, l.orders ≠ [])
    (hfs : ∀ f ∈ fs, f.entry.ptr ∉ (queue (a.on side)).map Entry.ptr) : (a.traded fs).on side = a.on side := by
  induction fs generalizing a with
  | nil => rfl
  | cons f fs ih =>
    have hfirst := on_trade_of_notMem hne (hfs f List.mem_cons_self)
    rw [Ladder.traded_cons, ih, hfirst]
    · rwa [hfirst]
    · rw [hfirst]
      exact fun f' hf' ↦ hfs f' (List.mem_cons_of_mem f hf')

theorem on_traded_fills {b : LevelBook MEOrderKey (ClientId × OrderId)} (h : Linked b a) (hs : side ≠ .INVALID) :
    (a.traded (a.fills side price qty)).on side = a.on side := by
  have ho : against side ≠ .INVALID := by simpa using hs
  refine on_traded_of_notMem (fun l hl ↦ h.orders_ne (Ladder.mem_levels.mpr ⟨side, hs, hl⟩)) fun f hf hmem ↦ ?_
  have hentry : f.entry ∈ queue (a.on (against side)) :=
    (List.takeWhile_subset _) (sweep_entry_mem hf)
  obtain ⟨e, he, hp⟩ := List.mem_map.mp hmem
  have hsame := h.entry_inj (Ladder.mem_entries.mpr ⟨side, hs, he⟩) (Ladder.mem_entries.mpr ⟨_, ho, hentry⟩) hp
  have hside := (h.entry_side ho hentry).symm.trans (hsame ▸ h.entry_side hs he)
  cases side <;> cases hside
  exact hs rfl

theorem bookOrders_restIn {lp : Ptr} (hs : side ≠ .INVALID) (hr : Ranked side ls) (hu : Uniform ls)
    (hd : (ls.map fun l ↦ priceToIndex l.price).Nodup)
    (hunc : ∀ l ∈ ls, priceToIndex l.price = priceToIndex e.price → l.price = e.price)
    (hbehind : (∃ l ∈ ls, priceToIndex l.price = priceToIndex e.price) ∨ ∀ l ∈ ls, Better side l.price e.price) :
    bookOrders (restIn lp e ls) = place (way side) (bookOrder e) (bookOrders ls) := by
  by_cases hslot : ∃ l ∈ ls, priceToIndex l.price = priceToIndex e.price
  · obtain ⟨l, hl, hi⟩ := hslot
    have hprice := hunc l hl hi
    obtain ⟨ls₁, ls₂, rfl⟩ := List.append_of_mem hl
    rw [Ranked, List.map_append, List.map_cons, List.pairwise_append, List.pairwise_cons] at hr
    obtain ⟨-, ⟨hworse, -⟩, hbetter⟩ := hr
    have hqueue : bookOrders (ls₁ ++ l :: ls₂) =
        (queue ls₁ ++ l.orders).map bookOrder ++ (queue ls₂).map bookOrder := by
      simp [bookOrders]
    rw [restIn_join lp hd hi, hqueue, place_append]
    · simp [bookOrders]
    · intro o' ho'
      obtain ⟨e', he', rfl⟩ := List.mem_map.mp ho'
      rw [before_way_iff hs]
      change ¬ Better side e.price e'.price
      rcases List.mem_append.mp he' with he' | he'
      · obtain ⟨l', hl', hel'⟩ := mem_queue.mp he'
        rw [hu l' (by simp [hl']) e' hel', ← hprice]
        exact (hbetter _ (List.mem_map_of_mem hl') _ List.mem_cons_self).asymm
      · rw [hu l (by simp) e' he', ← hprice]
        exact fun h ↦ h.ne rfl
    · intro o' ho'
      obtain ⟨e', he', rfl⟩ := List.mem_map.mp ho'
      obtain ⟨l', hl', hel'⟩ := mem_queue.mp he'
      rw [before_way_iff hs]
      change Better side e.price e'.price
      rw [hu l' (by simp [hl']) e' hel', ← hprice]
      exact hworse _ (List.mem_map_of_mem hl')
  · have hnew : ∀ l ∈ ls, priceToIndex l.price ≠ priceToIndex e.price := fun l hl hi ↦ hslot ⟨l, hl, hi⟩
    have hplace : place (way side) (bookOrder e) (bookOrders ls ++ []) = bookOrders ls ++ [bookOrder e] := by
      refine place_append (fun o' ho' ↦ ?_) fun o' ho' ↦ absurd ho' List.not_mem_nil
      obtain ⟨e', he', rfl⟩ := List.mem_map.mp ho'
      obtain ⟨l', hl', hel'⟩ := mem_queue.mp he'
      rw [before_way_iff hs]
      change ¬ Better side e.price e'.price
      rw [hu l' hl' e' hel']
      exact (hbehind.resolve_left hslot l' hl').asymm
    rw [List.append_nil] at hplace
    rw [restIn_new lp hnew, hplace]
    simp [bookOrders]

end Sides

section Events

variable {a : Ladder MEOrderKey} {b : LevelBook MEOrderKey (ClientId × OrderId)} {o : NewOrder} {id : OrderId}
  {e : Entry MEOrderKey} {es : List (Entry MEOrderKey)}

theorem fill_le {f : Fill MEOrderKey} {leaves : ℕ} (hf : f ∈ sweep leaves es) : f.qty ≤ f.entry.qty := by
  induction es generalizing leaves with
  | nil => cases hf
  | cons e es ih =>
    by_cases hl : leaves = 0
    · rw [hl, sweep_zero] at hf
      cases hf
    · rw [sweep_cons hl] at hf
      rcases List.mem_cons.mp hf with rfl | hf
      · exact Nat.min_le_right _ _
      · exact ih hf

theorem told_fill {f : Fill MEOrderKey} (hs : o.side ≠ .INVALID) (hside : f.entry.side = against o.side)
    (hle : f.qty ≤ f.entry.qty) :
    (updates (fillOutputs o id f)).map shown = told (.traded (way o.side) (deal f)) := by
  have hleft : f.entry.qty - f.qty = 0 ↔ f.entry.qty = f.qty := by omega
  have hother : Way.side (way o.side).other = f.entry.side := by
    rw [hside, ← way_against hs]
    exact side_way (by simpa using hs)
  rw [told, hother, side_way hs]
  by_cases hfull : f.entry.qty = f.qty
  · simp [updates, fillOutputs, shown, deal, hfull]
  · simp [updates, fillOutputs, shown, deal, hfull, hleft]

theorem told_trades (h : Linked b a) (hs : o.side ≠ .INVALID) :
    (updates (tradeOutputs a o id)).map shown =
      (((a.fills o.side o.price o.qty).map deal).map (BookEvent.traded (way o.side))).flatMap told := by
  have ho : against o.side ≠ .INVALID := by simpa using hs
  have hfills : ∀ f ∈ a.fills o.side o.price o.qty,
      (updates (fillOutputs o (id % 2 ^ 32) f)).map shown = told (.traded (way o.side) (deal f)) := by
    intro f hf
    have hentry : f.entry ∈ queue (a.on (against o.side)) := (List.takeWhile_subset _) (sweep_entry_mem hf)
    exact told_fill hs (h.entry_side ho hentry) (fill_le hf)
  rw [tradeOutputs]
  change (updates ((a.fills o.side o.price o.qty).flatMap (fillOutputs o (id % 2 ^ 32)))).map shown = _
  generalize a.fills o.side o.price o.qty = fs at hfills
  induction fs with
  | nil => rfl
  | cons f fs ih =>
    rw [List.flatMap_cons, updates, List.filterMap_append, List.map_append, List.map_cons, List.map_cons,
      List.flatMap_cons]
    congr 1
    · exact hfills f List.mem_cons_self
    · exact ih fun f' hf' ↦ hfills f' (List.mem_cons_of_mem f hf')

theorem filter_ptr (hd : (es.map Entry.ptr).Nodup) (he : e ∈ es) : es.filter (·.ptr = e.ptr) = [e] := by
  obtain ⟨es₁, es₂, rfl⟩ := List.append_of_mem he
  rw [List.map_append, List.map_cons, List.nodup_append, List.nodup_cons] at hd
  obtain ⟨-, ⟨hright, -⟩, hleft⟩ := hd
  have h₁ : es₁.filter (·.ptr = e.ptr) = [] := by
    refine List.filter_eq_nil_iff.mpr fun e' he' ↦ ?_
    simpa using hleft _ (List.mem_map_of_mem he') _ List.mem_cons_self
  have h₂ : es₂.filter (·.ptr = e.ptr) = [] := by
    refine List.filter_eq_nil_iff.mpr fun e' he' ↦ ?_
    simpa using fun hp : e'.ptr = e.ptr ↦ hright (hp ▸ List.mem_map_of_mem he')
  rw [List.filter_append, List.filter_cons, h₁, h₂]
  simp

theorem bookOrders_removeFrom (hl : Labels MEOrderKey.marketOrderId a) (he : e ∈ a.entries) {side : Side}
    (hs : side ≠ .INVALID) : bookOrders (removeFrom e.ptr (a.on side)) =
      (bookOrders (a.on side)).filter (·.id ≠ e.key.marketOrderId) := by
  rw [bookOrders, queue_removeFrom, bookOrders, List.filter_map]
  congr 1
  refine List.filter_congr fun e' he' ↦ ?_
  have hsame := hl e' (Ladder.mem_entries.mpr ⟨side, hs, he'⟩) e he
  simp only [Function.comp_apply, bookOrder, ne_eq, hsame]

theorem filter_bookOrders (h : Linked b a) (hl : Labels MEOrderKey.marketOrderId a) (he : e ∈ a.entries)
    {side : Side} (hs : side ≠ .INVALID) :
    (bookOrders (a.on side)).filter (·.id = e.key.marketOrderId) =
      if side = e.side then [bookOrder e] else [] := by
  have hptr : (queue (a.on side)).filter ((fun o : BookOrder OrderId ↦ decide (o.id = e.key.marketOrderId)) ∘
      bookOrder) = (queue (a.on side)).filter (·.ptr = e.ptr) := by
    refine List.filter_congr fun e' he' ↦ ?_
    have hsame := hl e' (Ladder.mem_entries.mpr ⟨side, hs, he'⟩) e he
    simp only [Function.comp_apply, bookOrder, hsame]
  rw [bookOrders, List.filter_map, hptr]
  obtain ⟨side', hs', he'⟩ := Ladder.mem_entries.mp he
  have hside := h.entry_side hs' he'
  split_ifs with hsame
  · rw [hsame, hside, filter_ptr (h.side_rep side' hs').orders_nodup he']
    rfl
  · have hnone : (queue (a.on side)).filter (·.ptr = e.ptr) = [] := by
      refine List.filter_eq_nil_iff.mpr fun e'' he'' hp ↦ hsame ?_
      have heq := h.entry_inj (Ladder.mem_entries.mpr ⟨side, hs, he''⟩) he (by simpa using hp)
      exact (h.entry_side hs he'').symm.trans (congrArg Entry.side heq)
    rw [hnone]
    rfl

theorem cancel_priorityBook (h : Linked b a) (hl : Labels MEOrderKey.marketOrderId a) (he : e ∈ a.entries) :
    (priorityBook a).cancel e.key.marketOrderId =
      (priorityBook (a.remove e.ptr), [.canceled (way e.side) (bookOrder e)]) := by
  have hbuy : (Side.BUY : Side) ≠ .INVALID := by decide
  have hsell : (Side.SELL : Side) ≠ .INVALID := by decide
  have hbids := filter_bookOrders h hl he hbuy
  have hasks := filter_bookOrders h hl he hsell
  rw [Ladder.on_BUY] at hbids
  rw [Ladder.on_SELL] at hasks
  obtain ⟨side, hs, he'⟩ := Ladder.mem_entries.mp he
  have hside := h.entry_side hs he'
  have hkept : (priorityBook a).cancel e.key.marketOrderId = (priorityBook (a.remove e.ptr),
      ((priorityBook a).cancel e.key.marketOrderId).2) :=
    Prod.ext (congrArg₂ PriorityBook.mk (bookOrders_removeFrom hl he hbuy).symm
      (bookOrders_removeFrom hl he hsell).symm) rfl
  rw [hkept]
  refine congrArg _ ?_
  rw [PriorityBook.cancel]
  dsimp only [priorityBook]
  rw [hbids, hasks, hside]
  cases side with
  | INVALID => exact absurd rfl hs
  | BUY => rfl
  | SELL => rfl

theorem priorityBook_setOn (a : Ladder MEOrderKey) (side : Side) (ls : List (Level MEOrderKey)) :
    priorityBook (a.setOn side ls) = (priorityBook a).setOn (bookOrders ls) (way side) := by
  unfold way Ladder.setOn
  split_ifs <;> rfl

theorem setOn_against {a' : Ladder MEOrderKey} {side : Side} (hs : side ≠ .INVALID)
    (hown : a'.on side = a.on side) :
    (priorityBook a).setOn (bookOrders (a'.on (against side))) (way (against side)) = priorityBook a' := by
  obtain ⟨bids, asks⟩ := a
  obtain ⟨bids', asks'⟩ := a'
  cases side with
  | INVALID => exact absurd rfl hs
  | BUY =>
    obtain rfl : bids' = bids := hown
    rfl
  | SELL =>
    obtain rfl : asks' = asks := hown
    rfl

theorem add_priorityBook (h : Linked b a) (hs : o.side ≠ .INVALID)
    (hh : Honors o.side o.price o.qty (queue (a.on (against o.side)))) (id : OrderId) :
    (priorityBook a).add (way o.side) ⟨id, o.price, o.qty⟩ =
      let traded := priorityBook (a.traded (a.fills o.side o.price o.qty))
      let deals := ((a.fills o.side o.price o.qty).map deal).map (BookEvent.traded (way o.side))
      let left := ⟨id, o.price, o.qty - offered (a.crossing o.side o.price)⟩
      if o.qty - offered (a.crossing o.side o.price) = 0 then (traded, deals)
      else (traded.setOn (place (way o.side) left (traded.on (way o.side))) (way o.side),
        deals ++ [.rested (way o.side) left]) := by
  have ho : against o.side ≠ .INVALID := by simpa using hs
  rw [PriorityBook.add, ← way_against hs, on_priorityBook,
    sweepOrders_eq (h.side_rep _ ho).orders_nodup hh]
  dsimp only
  rw [setOn_against hs (on_traded_fills h hs)]

end Events

namespace MEOrderBook

variable {s s' : MEOrderBook} {c : Call} {cs : List Call} {o : NewOrder} {tickerId : TickerId}
  {t : PriorityBook OrderId × List (BookEvent OrderId)}

/-- What a call does to the market: it adds an order, or cancels the one that it finds. -/
def act (s : MEOrderBook) : Call → List (BookAct OrderId)
  | .add o => [.add (way o.side) ⟨s.nextMarketOrderId, o.price, o.qty⟩]
  | .cancel clientId orderId _ => match s.findCancelable clientId orderId with
    | .ok (some p) => [.cancel (s.book.order p).key.marketOrderId]
    | _ => []

def acts : MEOrderBook → List Call → List (BookAct OrderId)
  | _, [] => []
  | s, c :: cs => s.act c ++ match s.step c with
    | .ok s' => s'.acts cs
    | .error _ => []

def HonorsLimit (s : MEOrderBook) : Call → Prop
  | .add o => Honors o.side o.price o.qty (queue (s.ladder.on (against o.side)))
  | .cancel _ _ _ => True

instance : DecidableRel HonorsLimit
  | _, .add _ => inferInstanceAs (Decidable (Honors _ _ _ _))
  | _, .cancel _ _ _ => inferInstanceAs (Decidable True)

/-- The counter of the market order ids does not wrap around. -/
def Counts (s : MEOrderBook) : Call → Prop
  | .add _ => s.nextMarketOrderId + 1 < 2 ^ 64
  | .cancel _ _ _ => True

instance : DecidableRel Counts
  | _, .add _ => inferInstanceAs (Decidable (_ < _))
  | _, .cancel _ _ _ => inferInstanceAs (Decidable True)

structure Numbered (s : MEOrderBook) : Prop where
  labels : Labels MEOrderKey.marketOrderId s.ladder
  lt : ∀ e ∈ s.ladder.entries, e.key.marketOrderId < s.nextMarketOrderId

theorem Numbered.shrinks (h : s.Numbered) (hshr : s'.ladder.Shrinks s.ladder)
    (hle : s.nextMarketOrderId ≤ s'.nextMarketOrderId) : s'.Numbered := by
  refine ⟨h.labels.shrinks hshr, fun e he ↦ ?_⟩
  obtain ⟨e', he', hf⟩ := hshr.exists_entry he
  rw [(Entry.fixed_eq hf).2.1]
  exact (h.lt e' he').trans_le hle

theorem Numbered.rest (h : s.Numbered) (hs : s.Sound) (hside : o.side ≠ .INVALID) {lp : Ptr}
    (hlad : s'.ladder = (s.ladder.swept o.side o.price).rest lp (restingEntry s s.ladder o))
    (hnext : s'.nextMarketOrderId = s.nextMarketOrderId + 1) : s'.Numbered := by
  have hshr := Ladder.shrinks_swept s.ladder o.side o.price
  have hmem : ∀ e ∈ s'.ladder.entries,
      e ∈ (s.ladder.swept o.side o.price).entries ∨ e = restingEntry s s.ladder o := fun e he ↦
    (mem_entries_rested hs hside lp e).mp (hlad ▸ he)
  have hlt : ∀ e ∈ (s.ladder.swept o.side o.price).entries, e.key.marketOrderId < s.nextMarketOrderId := by
    intro e he
    obtain ⟨e', he', hf⟩ := hshr.exists_entry he
    rw [(Entry.fixed_eq hf).2.1]
    exact h.lt e' he'
  have hfresh := fresh_swept (o := o) hs
  refine ⟨fun e he e' he' ↦ ?_, fun e he ↦ ?_⟩
  · rcases hmem e he with he | rfl
    · rcases hmem e' he' with he' | rfl
      · exact (h.labels.shrinks hshr) e he e' he'
      · exact iff_of_false (hlt e he).ne (hfresh e he)
    · rcases hmem e' he' with he' | rfl
      · exact iff_of_false (hlt e' he').ne' (hfresh e' he').symm
      · exact iff_of_true rfl rfl
  · rw [hnext]
    rcases hmem e he with he | rfl
    · exact (hlt e he).trans (Nat.lt_succ_self _)
    · exact Nat.lt_succ_self _

/-- The market that the book stands for, and what its updates have told of it. -/
structure Stands (t : PriorityBook OrderId × List (BookEvent OrderId)) (s : MEOrderBook) : Prop where
  sound : s.Sound
  uniform : ∀ side, side ≠ .INVALID → Uniform (s.ladder.on side)
  ranked : ∀ side, side ≠ .INVALID → Ranked side (s.ladder.on side)
  numbered : s.Numbered
  book : t.1 = priorityBook s.ladder
  events : t.2.flatMap told = (updates s.sent).map shown

theorem stands_new (tickerId : TickerId) : Stands (⟨[], []⟩, []) (new tickerId) := by
  have hon : ∀ side, (new tickerId).ladder.on side = [] := fun side ↦ by cases side <;> rfl
  have hnone : ∀ e, e ∉ (new tickerId).ladder.entries := fun e ↦ List.not_mem_nil
  refine ⟨sound_new tickerId, fun side _ ↦ ?_, fun side _ ↦ ?_, ⟨?_, ?_⟩, rfl, rfl⟩
  · rw [hon]
    exact fun l hl ↦ absurd hl List.not_mem_nil
  · rw [hon]
    exact List.Pairwise.nil
  · exact fun e he ↦ absurd he (hnone e)
  · exact fun e he ↦ absurd he (hnone e)

/-- What an order may meet for the book to be the market: no price in the slot of another, no level that
belongs in front of one, no order at which the loop mistakes the limit. -/
structure Fair (s : MEOrderBook) (c : Call) : Prop where
  admitted : s.Admitted c
  uncollided : s.Uncollided c
  behind : s.Behind c
  honors : s.HonorsLimit c
  counts : s.Counts c

instance : DecidableRel Fair := fun s c ↦
  decidable_of_iff (s.Admitted c ∧ s.Uncollided c ∧ s.Behind c ∧ s.HonorsLimit c ∧ s.Counts c)
    ⟨fun ⟨h₁, h₂, h₃, h₄, h₅⟩ ↦ ⟨h₁, h₂, h₃, h₄, h₅⟩,
      fun ⟨h₁, h₂, h₃, h₄, h₅⟩ ↦ ⟨h₁, h₂, h₃, h₄, h₅⟩⟩

theorem Stands.traded (h : Stands t s) (hc : s.Fair (.add o)) (hr : ¬ s.ladder.Rests o.side o.price o.qty)
    (hlad : s'.ladder = s.ladder.traded (s.ladder.fills o.side o.price o.qty))
    (hsent : s'.sent = s.sent ++ tradeOutputs s.ladder o s.nextMarketOrderId) :
    (PriorityBook.play t (s.act (.add o))).1 = priorityBook s'.ladder ∧
      (PriorityBook.play t (s.act (.add o))).2.flatMap told = (updates s'.sent).map shown := by
  have hadd := add_priorityBook h.sound.represents.linked hc.admitted.1 hc.honors s.nextMarketOrderId
  have hnone : o.qty - offered (s.ladder.crossing o.side o.price) = 0 :=
    Nat.sub_eq_zero_of_le (Nat.not_lt.mp hr)
  dsimp only at hadd
  rw [if_pos hnone] at hadd
  have hplay : PriorityBook.play t (s.act (.add o)) = ((t.1.add (way o.side) ⟨s.nextMarketOrderId, o.price, o.qty⟩).1,
      t.2 ++ (t.1.add (way o.side) ⟨s.nextMarketOrderId, o.price, o.qty⟩).2) := rfl
  rw [hplay, h.book, hadd, hlad, hsent, updates, List.filterMap_append, List.map_append, List.flatMap_append,
    h.events]
  refine ⟨rfl, congrArg _ ?_⟩
  exact (told_trades h.sound.represents.linked hc.admitted.1).symm

theorem Stands.rested (h : Stands t s) (hc : s.Fair (.add o)) (hr : s.ladder.Rests o.side o.price o.qty) {lp : Ptr}
    (hlad : s'.ladder = (s.ladder.swept o.side o.price).rest lp (restingEntry s s.ladder o))
    (hsent : s'.sent = s.sent ++ (tradeOutputs s.ladder o s.nextMarketOrderId ++
      [restOutput o (restingEntry s s.ladder o)])) :
    (PriorityBook.play t (s.act (.add o))).1 = priorityBook s'.ladder ∧
      (PriorityBook.play t (s.act (.add o))).2.flatMap told = (updates s'.sent).map shown := by
  have hside := hc.admitted.1
  have hadd := add_priorityBook h.sound.represents.linked hside hc.honors s.nextMarketOrderId
  have hleft : o.qty - offered (s.ladder.crossing o.side o.price) ≠ 0 := Nat.sub_ne_zero_of_lt hr
  have hshr := Ladder.shrinks_swept s.ladder o.side o.price
  have hplace : bookOrders (restIn lp (restingEntry s s.ladder o) ((s.ladder.swept o.side o.price).on o.side)) =
      place (way o.side) (bookOrder (restingEntry s s.ladder o))
        (bookOrders ((s.ladder.swept o.side o.price).on o.side)) := bookOrders_restIn hside
    ((h.ranked o.side hside).shrink (hshr o.side)) ((h.uniform o.side hside).shrink (hshr o.side))
    (swept_slots_nodup h.sound hside) (hc.uncollided hr) (hc.behind hr)
  dsimp only at hadd
  rw [if_neg hleft, Ladder.traded_fills (fun _ ↦ h.sound.represents.linked.orders_ne) hr, on_priorityBook] at hadd
  have hplay : PriorityBook.play t (s.act (.add o)) = ((t.1.add (way o.side) ⟨s.nextMarketOrderId, o.price, o.qty⟩).1,
      t.2 ++ (t.1.add (way o.side) ⟨s.nextMarketOrderId, o.price, o.qty⟩).2) := rfl
  rw [hplay, h.book, hadd, hlad, hsent, updates, List.filterMap_append, List.filterMap_append, List.map_append,
    List.map_append, List.flatMap_append, List.flatMap_append, h.events]
  constructor
  · rw [Ladder.rest, priorityBook_setOn]
    exact congrArg (PriorityBook.setOn _ · (way o.side)) hplace.symm
  · refine congrArg _ (congrArg₂ (· ++ ·) (told_trades h.sound.represents.linked hside).symm ?_)
    change [(MarketUpdateType.ADD, s.nextMarketOrderId, Way.side (way o.side), o.price, _)] = _
    rw [side_way hside]
    rfl

theorem Stands.canceled (h : Stands t s) {clientId : ClientId} {orderId : OrderId} {tickerId : TickerId}
    (hrun : s.step (.cancel clientId orderId tickerId) = .ok s') :
    (PriorityBook.play t (s.act (.cancel clientId orderId tickerId))).1 = priorityBook s'.ladder ∧
      (PriorityBook.play t (s.act (.cancel clientId orderId tickerId))).2.flatMap Exchange.told =
        (updates s'.sent).map shown := by
  have hlinked := h.sound.represents.linked
  rcases cancel_spec h.sound.represents clientId orderId tickerId with
    ⟨e, he, rfl, rfl, htable, s₁, hok, hcalled, -⟩ | ⟨hnone, hok⟩ | ⟨-, herr⟩
  · obtain rfl := Except.ok.inj (hok.symm.trans hrun)
    have hkey : e.key.clientId < ME_MAX_NUM_CLIENTS ∧ e.key.clientOrderId < ME_MAX_ORDER_IDS := by
      have hrange := h.sound.represents.in_range e he
      simp only [TableKey.entry] at hrange
      split_ifs at hrange with hkey
      · exact hkey
      · cases hrange
    have horder : (s.book.order e.ptr).key = e.key := congrArg Entry.key (hlinked.entry_eq he)
    have hact : s.act (.cancel e.key.clientId e.key.clientOrderId tickerId) = [.cancel e.key.marketOrderId] := by
      rw [act, findCancelable, if_pos hkey.1, if_pos hkey.2, htable]
      dsimp only
      rw [horder]
    have hcancel := cancel_priorityBook hlinked h.numbered.labels he
    have hplay : PriorityBook.play t [.cancel e.key.marketOrderId] =
        ((t.1.cancel e.key.marketOrderId).1, t.2 ++ (t.1.cancel e.key.marketOrderId).2) := rfl
    obtain ⟨side, hs, he'⟩ := Ladder.mem_entries.mp he
    have hside : e.side ≠ .INVALID := (hlinked.entry_side hs he').symm ▸ hs
    rw [hact, hplay, h.book, hcancel, hcalled.ladder, hcalled.sent, updates, List.filterMap_append, List.map_append,
      List.flatMap_append, h.events]
    refine ⟨rfl, congrArg _ ?_⟩
    change [(MarketUpdateType.CANCEL, e.key.marketOrderId, Way.side (way e.side), e.price, 0)] = _
    rw [side_way hside]
    rfl
  · obtain rfl := Except.ok.inj (hok.symm.trans hrun)
    have hact : s.act (.cancel clientId orderId tickerId) = [] := by
      rw [act, findCancelable]
      split_ifs with hclient horder
      · rw [hnone.resolve_right (not_not.mpr hclient)]
      · rfl
      · rfl
    rw [hact]
    refine ⟨h.book, h.events.trans ?_⟩
    rw [sendClientResponse, updates, updates, List.filterMap_append]
    exact congrArg _ (List.append_nil _).symm
  · cases herr.symm.trans hrun

theorem Stands.step (h : Stands t s) (hc : s.Fair c) (hrun : s.step c = .ok s') :
    Stands (PriorityBook.play t (s.act c)) s' := by
  have hsound := h.sound.step hc.admitted hrun
  have huniform := uniform_step h.sound hc.admitted hc.uncollided hrun h.uniform
  have hranked := ranked_step h.sound hc.admitted hc.behind hrun h.ranked
  cases h.sound.outcome hc.admitted hrun with
  | traded hr hlad hsent hnext =>
    obtain ⟨hbook, hevents⟩ := h.traded hc hr hlad hsent
    rw [Nat.mod_eq_of_lt hc.counts] at hnext
    refine ⟨hsound, huniform, hranked, h.numbered.shrinks ?_ ?_, hbook, hevents⟩
    · exact hlad ▸ Ladder.shrinks_traded _ _
    · exact hnext ▸ Nat.le_succ _
  | rested lp hr hlad hsent hnext =>
    obtain ⟨hbook, hevents⟩ := h.rested hc hr hlad hsent
    rw [Nat.mod_eq_of_lt hc.counts] at hnext
    exact ⟨hsound, huniform, hranked, h.numbered.rest h.sound hc.admitted.1 hlad hnext, hbook, hevents⟩
  | canceled _ hlad _ hnext =>
    obtain ⟨hbook, hevents⟩ := h.canceled hrun
    exact ⟨hsound, huniform, hranked,
      h.numbered.shrinks (hlad ▸ Ladder.shrinks_remove _ _) hnext.ge, hbook, hevents⟩
  | rejected hs' =>
    obtain ⟨hbook, hevents⟩ := h.canceled hrun
    refine ⟨hsound, huniform, hranked, h.numbered.shrinks ?_ ?_, hbook, hevents⟩
    · exact hs' ▸ Ladder.Shrinks.refl _
    · exact hs' ▸ le_rfl

theorem Stands.run (h : Stands t s) (hg : Guarded MEOrderBook.step Fair s cs) (hrun : s.run cs = .ok s') :
    Stands (PriorityBook.play t (s.acts cs)) s' := by
  induction cs generalizing s t with
  | nil => exact Except.ok.inj hrun ▸ h
  | cons c cs ih =>
    obtain ⟨s₁, hstep, hrun⟩ := bind_eq_ok hrun
    obtain ⟨hc, hg⟩ := (Guarded.cons_ok hstep).mp hg
    rw [acts, hstep, PriorityBook.play_append]
    exact ih (h.step hc hstep) hg hrun

/-- The book is a market in which orders trade by price and then by time: its queues and its updates are those
of the market, and both sides are in order and apart. -/
theorem trades_by_priority (hg : Guarded MEOrderBook.step Fair (new tickerId) cs)
    (hrun : (new tickerId).run cs = .ok s) :
    (PriorityBook.replay ((new tickerId).acts cs)).1 = priorityBook s.ladder ∧
      (PriorityBook.replay ((new tickerId).acts cs)).2.flatMap Exchange.told = (updates s.sent).map shown ∧
      (priorityBook s.ladder).Ordered := by
  have h := (stands_new tickerId).run hg hrun
  exact ⟨h.book, h.events, h.book ▸ PriorityBook.ordered_replay _⟩

def fairCalls : List Call :=
  [.add ⟨1, 1, 0, .SELL, 100, 10⟩, .add ⟨2, 2, 0, .SELL, 101, 10⟩, .add ⟨3, 3, 0, .BUY, 101, 14⟩,
    .add ⟨4, 4, 0, .BUY, 99, 4⟩, .add ⟨5, 5, 0, .SELL, 99, 3⟩, .cancel 0 2 0]

theorem trades_by_priority_calls : ∃ s, (new 0).run fairCalls = .ok s ∧
    priorityBook s.ladder = (PriorityBook.replay ((new 0).acts fairCalls)).1 ∧
      (updates s.sent).map shown = (PriorityBook.replay ((new 0).acts fairCalls)).2.flatMap Exchange.told := by
  obtain ⟨s, hs⟩ : ∃ s, (new 0).run fairCalls = .ok s := exists_ok (by decide +kernel)
  obtain ⟨hbook, hevents, -⟩ := trades_by_priority (by decide +kernel) hs
  exact ⟨s, hs, hbook.symm, hevents.symm⟩

end MEOrderBook

end LowLatency.Exchange
