import LowLatency.Book.LevelList
import LowLatency.Book.Ranked
import LowLatency.Exchange.Arrivals

namespace LowLatency.Exchange

open Common Book MEOrderBook

namespace MEOrderBook

variable {s s' : MEOrderBook} {c : Call} {o : NewOrder}

/-- An order that joins a level has the price of that level. -/
def Uncollided (s : MEOrderBook) : Call → Prop
  | .add o => s.ladder.Rests o.side o.price o.qty →
      ∀ l ∈ (s.ladder.swept o.side o.price).on o.side,
        priceToIndex l.price = priceToIndex o.price → l.price = o.price
  | .cancel _ _ _ => True

instance : DecidableRel Uncollided
  | _, .add _ => inferInstanceAs (Decidable (_ → _))
  | _, .cancel _ _ _ => inferInstanceAs (Decidable True)

/-- An order that opens a level has a worse price than all levels of its side. -/
def Behind (s : MEOrderBook) : Call → Prop
  | .add o => s.ladder.Rests o.side o.price o.qty →
      (∃ l ∈ (s.ladder.swept o.side o.price).on o.side,
        priceToIndex l.price = priceToIndex o.price) ∨
      ∀ l ∈ (s.ladder.swept o.side o.price).on o.side, Better o.side l.price o.price
  | .cancel _ _ _ => True

instance : DecidableRel Behind
  | _, .add _ => inferInstanceAs (Decidable (_ → _))
  | _, .cancel _ _ _ => inferInstanceAs (Decidable True)

def PriorityFits (s : MEOrderBook) : Call → Prop
  | .add o => s.ladder.Rests o.side o.price o.qty →
      ∀ l ∈ (s.ladder.swept o.side o.price).on o.side,
        priceToIndex l.price = priceToIndex o.price → ∀ e ∈ l.orders, e.priority + 1 < 2 ^ 64
  | .cancel _ _ _ => True

instance : DecidableRel PriorityFits
  | _, .add _ => inferInstanceAs (Decidable (_ → _))
  | _, .cancel _ _ _ => inferInstanceAs (Decidable True)

theorem side_step {P : Side → List (Level MEOrderKey) → Prop} (hs : s.Sound) (hadm : s.Admitted c)
    (hrun : s.step c = .ok s') (hP : ∀ side, side ≠ .INVALID → P side (s.ladder.on side))
    (hshrink : ∀ side ls' ls, List.SublistForall₂ LevelShrinks ls' ls → P side ls → P side ls')
    (hrest : ∀ o lp, c = .add o → s.ladder.Rests o.side o.price o.qty →
      P o.side ((s.ladder.swept o.side o.price).on o.side) →
      P o.side (restIn lp (restingEntry s s.ladder o) ((s.ladder.swept o.side o.price).on o.side))) :
    ∀ side, side ≠ .INVALID → P side (s'.ladder.on side) := by
  refine ladder_step (P := fun a ↦ ∀ side, side ≠ .INVALID → P side (a.on side)) hs hadm hrun hP
    (fun a ha side hside ↦ hshrink side _ _ (ha side) (hP side hside)) ?_
  rintro o lp rfl hr hswept side hside
  have hs' : (restingEntry s s.ladder o).side ≠ .INVALID := hadm.1
  rw [Ladder.rest, Ladder.on_setOn hs' hside]
  split_ifs with heq
  · subst heq
    exact hrest o lp rfl hr (hswept o.side hadm.1)
  · exact hswept side hside

theorem uniform_step (hs : s.Sound) (hadm : s.Admitted c) (hunc : s.Uncollided c)
    (hrun : s.step c = .ok s') (hu : ∀ side, side ≠ .INVALID → Uniform (s.ladder.on side)) :
    ∀ side, side ≠ .INVALID → Uniform (s'.ladder.on side) :=
  side_step (P := fun _ ↦ Uniform) hs hadm hrun hu (fun _ _ _ hshr h ↦ h.shrink hshr) fun o lp hc hr h ↦
    h.restIn (by subst hc; exact hunc hr)

theorem ranked_step (hs : s.Sound) (hadm : s.Admitted c) (hbehind : s.Behind c)
    (hrun : s.step c = .ok s') (hu : ∀ side, side ≠ .INVALID → Ranked side (s.ladder.on side)) :
    ∀ side, side ≠ .INVALID → Ranked side (s'.ladder.on side) :=
  side_step (P := Ranked) hs hadm hrun hu (fun _ _ _ hshr h ↦ h.shrink hshr) fun o lp hc hr h ↦
    h.restIn (by subst hc; exact hbehind hr)

theorem increasing_step (hs : s.Sound) (hadm : s.Admitted c) (hfits : s.PriorityFits c)
    (hrun : s.step c = .ok s') (hi : ∀ side, side ≠ .INVALID → Increasing (s.ladder.on side)) :
    ∀ side, side ≠ .INVALID → Increasing (s'.ladder.on side) := by
  refine side_step (P := fun _ ↦ Increasing) hs hadm hrun hi (fun _ _ _ hshr h ↦ h.shrink hshr) ?_
  rintro o lp rfl hr h
  have hshr := Ladder.shrinks_swept s.ladder o.side o.price
  -- slots are unique among the levels that are left, as they were before
  have hd := hshr.levels_slots_nodup hs.represents.linked.levels_slots_nodup
  refine h.restIn fun l hl hslot e he ↦ ?_
  have hlv := Ladder.mem_levels.mpr ⟨o.side, hadm.1, hl⟩
  exact Ladder.lt_nextPriority (fun l' hl' hi ↦ List.inj_on_of_nodup_map hd hl' hlv hi) hlv hslot
    (h l hl) (hfits hr l hl hslot) he

end MEOrderBook

/-- Levels and their orders agree on side and price, no two levels do, the price index finds the
level of a price unless another price has its slot, and orders queue as they arrived. -/
structure Session.Homogeneous (x : Session) : Prop where
  orders : ∀ l, x.book.book.ordersAtPricePool.Live l → ∀ e ∈ x.book.book.ordersOf l,
    e.side = x.book.book.levelSide l ∧ e.price = x.book.book.levelPrice l
  levels : ∀ l l', x.book.book.ordersAtPricePool.Live l → x.book.book.ordersAtPricePool.Live l' →
    x.book.book.levelSide l = x.book.book.levelSide l' →
    x.book.book.levelPrice l = x.book.book.levelPrice l' → l = l'
  lookup : ∀ price, (∀ l, x.book.book.getOrdersAtPrice price = some l →
      x.book.book.levelPrice l = price) ↔
    ∀ l, x.book.book.ordersAtPricePool.Live l →
      priceToIndex (x.book.book.levelPrice l) = priceToIndex price →
      x.book.book.levelPrice l = price
  priorities : ∀ l, x.book.book.ordersAtPricePool.Live l →
    ((x.book.book.ordersOf l).map Entry.priority).Pairwise (· < ·)
  arrival : ∀ l, x.book.book.ordersAtPricePool.Live l →
    ((x.book.book.ordersOf l).map Entry.ptr).Sublist (x.arrivals.map Prod.fst)

namespace Session

variable {x x' : Session} {c : Call} {cs : List Call} {tickerId : TickerId}

theorem exists_level (hs : x.book.Sound) {l : Ptr} (hl : x.book.book.ordersAtPricePool.Live l) :
    ∃ side, side ≠ .INVALID ∧ ∃ m ∈ x.book.ladder.on side, m.ptr = l ∧
      x.book.book.levelSide l = side ∧ x.book.book.levelPrice l = m.price ∧
      x.book.book.ordersOf l = m.orders := by
  obtain ⟨m, hm, rfl⟩ := (hs.represents.level_live l).mp hl
  obtain ⟨side, hside, hm⟩ := Ladder.mem_levels.mp hm
  have hrep := (hs.represents.linked.side_rep side hside).level_rep m hm
  exact ⟨side, hside, m, hm, rfl, hrep.side_eq, hrep.price_eq, hs.represents.ordersOf_eq hside hm⟩

theorem homogeneous_of_uniform (hs : x.book.Sound) (hl : Logged x.arrivals x.book.ladder)
    (hu : ∀ side, side ≠ .INVALID → Uniform (x.book.ladder.on side))
    (hi : ∀ side, side ≠ .INVALID → Increasing (x.book.ladder.on side)) : x.Homogeneous where
  orders := fun l hlive e he ↦ by
    obtain ⟨side, hside, m, hm, rfl, hls, hlp, ho⟩ := exists_level hs hlive
    rw [ho] at he
    rw [hls, hlp]
    exact ⟨((hs.represents.linked.side_rep side hside).level_rep m hm).entry_side e he,
      hu side hside m hm e he⟩
  levels := fun l l' hlive hlive' _ hprice ↦ by
    obtain ⟨side, hside, m, hm, rfl, -, hlp, -⟩ := exists_level hs hlive
    obtain ⟨side', hside', m', hm', rfl, -, hlp', -⟩ := exists_level hs hlive'
    rw [hs.represents.linked.slot_inj (Ladder.mem_levels.mpr ⟨side, hside, hm⟩)
      (Ladder.mem_levels.mpr ⟨side', hside', hm'⟩) (by rw [← hlp, ← hlp', hprice])]
  lookup := fun price ↦ by
    constructor
    · intro hget l hlive hslot
      obtain ⟨side, hside, m, hm, rfl, -, hlp, -⟩ := exists_level hs hlive
      exact hget _ (hs.represents.linked.getOrdersAtPrice_eq (Ladder.mem_levels.mpr ⟨side, hside, hm⟩)
        (by rw [← hlp, hslot]))
    · intro hall l hget
      obtain ⟨m, hm, rfl, hslot⟩ := (hs.represents.linked.slot _ _).mp hget
      have hlive := (hs.represents.level_live m.ptr).mpr ⟨m, hm, rfl⟩
      obtain ⟨side, hside, hm⟩ := Ladder.mem_levels.mp hm
      have hlp := ((hs.represents.linked.side_rep side hside).level_rep m hm).price_eq
      exact hall _ hlive (by rw [hlp, hslot])
  priorities := fun l hlive ↦ by
    obtain ⟨side, hside, m, hm, rfl, -, -, ho⟩ := exists_level hs hlive
    rw [ho]
    exact hi side hside m hm
  arrival := fun l hlive ↦ by
    obtain ⟨side, hside, m, hm, rfl, -, -, ho⟩ := exists_level hs hlive
    rw [ho]
    exact hl.queued m (Ladder.mem_levels.mpr ⟨side, hside, hm⟩)

theorem empty_start {P : Side → List (Level MEOrderKey) → Prop} (h : ∀ side, P side []) (side : Side) :
    P side ((start tickerId).book.ladder.on side) := by
  have hnil : (start tickerId).book.ladder.on side = [] := by cases side <;> rfl
  exact hnil ▸ h side

theorem levels_homogeneous (hg : Guarded Session.step (fun x c ↦
      x.book.Admitted c ∧ x.book.Uncollided c ∧ x.book.PriorityFits c) (start tickerId) cs)
    (hrun : (start tickerId).run cs = .ok x) : x.Homogeneous := by
  have hinv := hg.invariant (I := fun x ↦ x.book.Sound ∧
    Logged x.arrivals x.book.ladder ∧ (∀ side, side ≠ .INVALID → Uniform (x.book.ladder.on side)) ∧
    ∀ side, side ≠ .INVALID → Increasing (x.book.ladder.on side)) ?_ ?_ hrun
  · exact homogeneous_of_uniform hinv.1 hinv.2.1 hinv.2.2.1 hinv.2.2.2
  · rintro x c x' ⟨hs, hl, hu, hi⟩ ⟨hadm, hunc, hfits⟩ hstep
    have hbook := (step_ok.mp hstep).1
    exact ⟨hs.step hadm hbook, hl.step hs hadm hstep, uniform_step hs hadm hunc hbook hu,
      increasing_step hs hadm hfits hbook hi⟩
  · exact ⟨sound_new tickerId, logged_start tickerId,
      fun side _ ↦ empty_start (P := fun _ ↦ Uniform) (fun _ ↦ by simp [Uniform]) side,
      fun side _ ↦ empty_start (P := fun _ ↦ Increasing) (fun _ ↦ by simp [Increasing]) side⟩

def threePrices : List Call :=
  [.add ⟨1, 1, 0, .BUY, 100, 10⟩, .add ⟨2, 1, 0, .BUY, -5, 10⟩, .add ⟨3, 2, 0, .BUY, 100, 4⟩,
    .add ⟨4, 3, 0, .SELL, 100, 11⟩, .add ⟨4, 4, 0, .SELL, 300, 1⟩]

theorem levels_homogeneous_three : ∃ x, (start 0).run threePrices = .ok x ∧ x.Homogeneous := by
  obtain ⟨x, hx⟩ : ∃ x, (start 0).run threePrices = .ok x := exists_ok (by decide +kernel)
  exact ⟨x, hx, levels_homogeneous (by decide +kernel) hx⟩

/-- Prices 100 and 356 share a slot, so the second order joins the level of the first. -/
def sharedSlot : List Call := [.add ⟨1, 1, 0, .BUY, 100, 10⟩, .add ⟨1, 2, 0, .BUY, 356, 10⟩]

theorem level_takes_other_price : ∃ x, (start 0).run sharedSlot = .ok x ∧ ¬ x.Homogeneous := by
  obtain ⟨x, hx, hlive, e, he, hne⟩ := Yields.exists_ok (show Yields ((start 0).run sharedSlot) fun x ↦
      x.book.book.ordersAtPricePool.Live 0 ∧
      ∃ e ∈ x.book.book.ordersOf 0, e.price ≠ x.book.book.levelPrice 0 by decide +kernel)
  exact ⟨x, hx, fun h ↦ hne (h.orders 0 hlive e he).2⟩

end Session

namespace MEOrderBook

/-- The books with which the loop of `checkForMatch` enters `match`, and the orders it passes. -/
def matchStates (o : NewOrder) (id : OrderId) : ℕ → MEOrderBook → Qty → List (MEOrderBook × Ptr)
  | 0, _, _ => []
  | fuel + 1, s, leavesQty =>
    match s.nextMatch o.price (against o.side) leavesQty with
    | .ok (some itr) =>
      (s, itr) :: match s.matchOrder o.tickerId o.clientId o.side o.clientOrderId id itr leavesQty with
        | .ok (s, leavesQty) => matchStates o id fuel s leavesQty
        | .error _ => []
    | _ => []

def executions (s : MEOrderBook) : Call → List (MEOrderBook × Ptr)
  | .add o =>
    let (id, s) := s.generateNewMarketOrderId
    let s := s.sendClientResponse
      ⟨.ACCEPTED, o.clientId, o.tickerId, o.clientOrderId, id, o.side, o.price, 0, o.qty⟩
    matchStates o (id % 2 ^ 32) (s.book.orderPool.size + 2) s o.qty
  | .cancel _ _ _ => []

theorem matchStates_spec {s : MEOrderBook} {a : Ladder MEOrderKey} {o : NewOrder} (id : OrderId)
    (hs : o.side ≠ .INVALID) (fuel : ℕ) {leaves : ℕ} (h : Represents s.book a)
    {q : MEOrderBook × Ptr} (hq : q ∈ matchStates o id fuel s leaves) :
    ∃ a₁ e es, Represents q.1.book a₁ ∧ a₁.Shrinks a ∧
      queue (a₁.on (against o.side)) = e :: es ∧ e.ptr = q.2 := by
  have ho : against o.side ≠ .INVALID := by simpa using hs
  induction fuel generalizing s a leaves with
  | zero => cases hq
  | succ fuel ih =>
    rcases nextMatch_spec h.linked hs with ⟨-, hnext⟩ | ⟨e, es, hqueue, -, -, hnext⟩
    · rw [matchStates, hnext] at hq
      cases hq
    · rw [matchStates, hnext] at hq
      have he : e ∈ a.entries := Ladder.mem_entries.mpr ⟨_, ho, by simp [hqueue]⟩
      obtain ⟨s₁, hmatch, ht⟩ := matchOrder_spec o id h he leaves
      simp only [hmatch] at hq
      rcases List.mem_cons.mp hq with rfl | hq
      · exact ⟨a, e, es, h, .refl a, hqueue, rfl⟩
      · obtain ⟨a₁, e₁, es₁, hrep, hshr, hqueue₁, hp⟩ := ih ht.represents hq
        exact ⟨a₁, e₁, es₁, hrep, hshr.trans (Ladder.shrinks_trade a _), hqueue₁, hp⟩

theorem matchStates_ptrs {s : MEOrderBook} {a : Ladder MEOrderKey} {o : NewOrder} (id : OrderId)
    (hs : o.side ≠ .INVALID) (fuel : ℕ) {leaves : ℕ} (h : Represents s.book a)
    (hfuel : leaves = 0 ∧ 0 < fuel ∨ (queue (a.on (against o.side))).length < fuel) :
    (matchStates o id fuel s leaves).map Prod.snd =
      (a.fills o.side o.price leaves).map fun f ↦ f.entry.ptr := by
  have ho : against o.side ≠ .INVALID := by simpa using hs
  induction fuel generalizing s a leaves with
  | zero => omega
  | succ fuel ih =>
    rcases nextMatch_spec h.linked hs with ⟨hstop, hnext⟩ | ⟨e, es, hqueue, hp, hl, hnext⟩
    · rw [matchStates, hnext, Ladder.fills_nil hstop]
      rfl
    · have hd := (h.linked.side_rep _ ho).orders_nodup
      have he : e ∈ a.entries := Ladder.mem_entries.mpr ⟨_, ho, by simp [hqueue]⟩
      obtain ⟨s₁, hmatch, ht⟩ := matchOrder_spec o id h he leaves
      have hrest := ih ht.represents (Ladder.fuel_trade hqueue hd hl hfuel)
      rw [matchStates, hnext, Ladder.fills_cons hqueue hd hp hl, List.map_cons, List.map_cons, ← hrest]
      simp only [hmatch]

theorem executions_ptrs {s : MEOrderBook} {o : NewOrder} (hs : s.Sound) (hside : o.side ≠ .INVALID) :
    (s.executions (.add o)).map Prod.snd =
      (s.ladder.fills o.side o.price o.qty).map fun f ↦ f.entry.ptr := by
  refine matchStates_ptrs (s := s.generateNewMarketOrderId.2.sendClientResponse _) _ hside _
    hs.represents (.inr ?_)
  exact hs.represents.length_queue_lt (by simpa using hside)

end MEOrderBook

/-- Walking a side meets its live levels from the best price to the worst, and each execution of `c`
is against an order than which none has a better price and none at its price arrived earlier. -/
def Session.PriceTime (x : Session) (c : Call) : Prop :=
  (∀ side, side ≠ .INVALID → Ranked side (x.book.ladder.on side) ∧
    ∀ l, l ∈ (x.book.ladder.on side).map Level.ptr ↔
      x.book.book.ordersAtPricePool.Live l ∧ x.book.book.levelSide l = side) ∧
  ∀ o, c = .add o → ∀ q ∈ x.book.executions c,
    ∃ r ∈ queue (q.1.ladder.on (against o.side)), r.ptr = q.2 ∧
      ∀ r' ∈ queue (q.1.ladder.on (against o.side)),
        ¬ Better (against o.side) r'.price r.price ∧
        (r'.price = r.price → r'.ptr ≠ r.ptr →
          [r.ptr, r'.ptr].Sublist (x.arrivals.map Prod.fst))

namespace Session

variable {x : Session} {c : Call} {cs : List Call} {tickerId : TickerId}

theorem priceTime_of_ranked (hs : x.book.Sound) (hl : Logged x.arrivals x.book.ladder)
    (hadm : x.book.Admitted c)
    (hu : ∀ side, side ≠ .INVALID → Uniform (x.book.ladder.on side))
    (hr : ∀ side, side ≠ .INVALID → Ranked side (x.book.ladder.on side)) : x.PriceTime c := by
  refine ⟨fun side hside ↦ ⟨hr side hside, hs.represents.mem_on_iff hside⟩, ?_⟩
  rintro o rfl q hq
  have hside : against o.side ≠ .INVALID := by simpa using hadm.1
  obtain ⟨s, hs', hq⟩ : ∃ s : MEOrderBook, s.book = x.book.book ∧ q ∈ matchStates o
      (x.book.nextMarketOrderId % 2 ^ 32) (x.book.book.orderPool.size + 2) s o.qty :=
    ⟨(x.book.generateNewMarketOrderId.2).sendClientResponse _, rfl, hq⟩
  obtain ⟨a₁, r, rs, hrep, hshr, hqueue, hp⟩ :=
    matchStates_spec _ hadm.1 _ (hs' ▸ hs.represents) hq
  rw [show q.1.ladder = a₁ from hrep.ladder_eq]
  refine ⟨r, by simp [hqueue], hp, fun r' hr' ↦ ?_⟩
  have hne : ∀ l ∈ a₁.on (against o.side), l.orders ≠ [] := fun l hl ↦
    ((hrep.linked.side_rep _ hside).level_rep l hl).orders_ne
  obtain hbetter | ⟨hprice, hsame⟩ := ((hr _ hside).shrink (hshr _)).first_in_line
    ((hu _ hside).shrink (hshr _)) hne hqueue hr'
  · exact ⟨hbetter.asymm, fun h ↦ absurd h hbetter.ne⟩
  · refine ⟨fun hb ↦ hb.ne hprice.symm, fun _ hne' ↦ ?_⟩
    rcases hsame with rfl | ⟨l, hm, hsub⟩
    · exact absurd rfl hne'
    · -- the level was in the book before the call, with at least these orders
      obtain ⟨l₀, hl₀, hshr₀⟩ := hshr.exists_level hm
      have hptrs : (l.orders.map Entry.ptr).Sublist (l₀.orders.map Entry.ptr) := by
        simpa [List.map_map, Function.comp_def, Entry.fixed] using hshr₀.orders.map Entry.ptr
      exact ((hsub.map Entry.ptr).trans hptrs).trans
        (hl.queued l₀ (Ladder.mem_levels.mpr ⟨_, hside, hl₀⟩))

theorem price_time_priority (hg : Guarded Session.step (fun x c ↦
      x.book.Admitted c ∧ x.book.Uncollided c ∧ x.book.Behind c) (start tickerId) (cs ++ [c]))
    (hrun : (start tickerId).run cs = .ok x) : x.PriceTime c := by
  obtain ⟨hcs, hc⟩ := hg.append
  have hinv := hcs.invariant (I := fun x ↦ x.book.Sound ∧
    Logged x.arrivals x.book.ladder ∧ (∀ side, side ≠ .INVALID → Uniform (x.book.ladder.on side)) ∧
    ∀ side, side ≠ .INVALID → Ranked side (x.book.ladder.on side)) ?_ ?_ hrun
  · exact priceTime_of_ranked hinv.1 hinv.2.1 (hc x hrun).head.1 hinv.2.2.1 hinv.2.2.2
  · rintro x c x' ⟨hs, hl, hu, hr⟩ ⟨hadm, hunc, hbehind⟩ hstep
    have hbook := (step_ok.mp hstep).1
    exact ⟨hs.step hadm hbook, hl.step hs hadm hstep, uniform_step hs hadm hunc hbook hu,
      ranked_step hs hadm hbehind hbook hr⟩
  · exact ⟨sound_new tickerId, logged_start tickerId,
      fun side _ ↦ empty_start (P := fun _ ↦ Uniform) (fun _ ↦ by simp [Uniform]) side,
      fun side _ ↦ empty_start (P := Ranked) (fun _ ↦ by simp [Ranked]) side⟩

def threeAsks : List Call :=
  [.add ⟨1, 1, 0, .SELL, 100, 10⟩, .add ⟨2, 1, 0, .SELL, 101, 10⟩, .add ⟨3, 2, 0, .SELL, 101, 4⟩]

theorem price_time_priority_sweep : ∃ x, (start 0).run threeAsks = .ok x ∧
    x.PriceTime (.add ⟨4, 3, 0, .BUY, 101, 23⟩) := by
  obtain ⟨x, hx⟩ : ∃ x, (start 0).run threeAsks = .ok x := exists_ok (by decide +kernel)
  exact ⟨x, hx, price_time_priority (by decide +kernel) hx⟩

def betterBehind : List Call := [.add ⟨1, 1, 0, .BUY, 100, 10⟩, .add ⟨1, 2, 0, .BUY, 101, 10⟩]

theorem worse_bid_trades_first : ∃ x, (start 0).run betterBehind = .ok x ∧
    ¬ x.PriceTime (.add ⟨2, 1, 0, .SELL, 100, 5⟩) := by
  obtain ⟨x, hx, q, hq, hbetter⟩ := Yields.exists_ok (show Yields ((start 0).run betterBehind) fun x ↦
      ∃ q ∈ x.book.executions (.add ⟨2, 1, 0, .SELL, 100, 5⟩),
        ∀ r ∈ queue (q.1.ladder.on .BUY), r.ptr = q.2 →
          ∃ r' ∈ queue (q.1.ladder.on .BUY), Better .BUY r'.price r.price by decide +kernel)
  refine ⟨x, hx, fun h ↦ ?_⟩
  obtain ⟨r, hr, hp, hbest⟩ := h.2 _ rfl q hq
  obtain ⟨r', hr', hb⟩ := hbetter r hr hp
  exact (hbest r' hr').1 hb

end Session

end LowLatency.Exchange
