import LowLatency.Trading.Offers

namespace LowLatency.Trading

open Common Book Exchange

theorem foldl_qty {κ : Type} {es : List (Entry κ)} {qty : ℕ}
    (h : qty + (es.map Entry.qty).sum < 2 ^ 32) :
    es.foldl (fun q e ↦ (q + e.qty) % 2 ^ 32) qty = qty + (es.map Entry.qty).sum := by
  induction es generalizing qty with
  | nil => rfl
  | cons e es ih =>
    rw [List.map_cons, List.sum_cons] at h ⊢
    rw [List.foldl_cons, Nat.mod_eq_of_lt (by omega), ih (by omega), Nat.add_assoc]

namespace MarketOrderBook

variable {m m' : MarketOrderBook} {lv : LiveBook} {os us : List MEMarketUpdate} {u : MEMarketUpdate}
  {side : Side}

theorem bestQuote_offer (h : m.Sound) (ho : Lists m.view os) (hs : side ≠ .INVALID)
    (hfit : (bestOffer side os).2 < 2 ^ 32) : bestQuote m.book side = .ok (bestOffer side os) := by
  have hoffer := ho.bestOffer_eq h.filed hs
  rw [view, Ladder.on_relabel] at hoffer
  rcases bestQuote_spec h.represents hs with ⟨hnil, hquote⟩ | ⟨l, ls, o, es, hls, hes, hquote⟩
  · rw [hnil] at hoffer
    rw [hquote, hoffer]
    rfl
  · rw [hls] at hoffer
    have htotal : bestOffer side os = (l.price, o.qty + (es.map Entry.qty).sum) := by
      rw [hoffer]
      simp [Level.relabel, Entry.relabel, hes, Function.comp_def]
    rw [htotal] at hfit
    rw [hquote, htotal, foldl_qty hfit]

theorem refreshes_iff (h : m.Sound) (ho : Lists m.view os) (hs : side ≠ .INVALID)
    (ht : u.type ≠ .TRADE) : m.refreshes side u ↔ Refreshes side os u := by
  have hside := h.represents.linked.side_rep side hs
  have hbest := ho.bestPrice_eq_head h.filed hs
  rw [view, Ladder.on_relabel] at hbest
  unfold refreshes Refreshes
  rw [hbest, hside.best_eq]
  cases hls : m.ladder.on side with
  | nil => simp
  | cons l ls =>
    have hprice := (hside.level_rep l (by rw [hls]; exact List.mem_cons_self)).price_eq
    simp [ht, Level.relabel, hprice]

/-- A price whose slot no order held when a `CLEAR` came. -/
def Unstale (lv : LiveBook) (price : Price) : Prop :=
  ∀ o ∈ lv.cleared, priceToIndex o.price ≠ priceToIndex price

/-- Up to addresses, and where no `CLEAR` has left the price index behind, the book is one that lists
the live orders. -/
def Mirrors (lv : LiveBook) (m : MarketOrderBook) : Prop :=
  ∃ m₀ : MarketOrderBook, m₀.Sound ∧ Lists m₀.view lv.orders ∧
    m₀.Resembles (fun _ price ↦ Unstale lv price) (fun _ ↦ False) m

theorem Mirrors.of_emptied (h : Emptied m.book) (hengine : m.tradeEngine.isSome) (hlv : lv.orders = [])
    (hindex : ∀ price, Unstale lv price → m.book.getOrdersAtPrice price = none) : Mirrors lv m := by
  obtain ⟨engine, he⟩ := Option.isSome_iff_exists.mp hengine
  refine ⟨(new m.tickerId).setTradeEngine (some engine), sound_new m.tickerId engine, ?_,
    ⟨_, _, h.moved_new (fun _ ↦ hindex) m.tickerId⟩, he, fun _ ↦ False.elim⟩
  rw [hlv]
  exact ⟨.refl _, fun side _ ↦ by cases side <;> exact .nil, fun side _ ↦ by cases side <;> nofun⟩

theorem mirrors_new (tickerId : TickerId) (engine : Ptr) :
    Mirrors ⟨[], []⟩ ((new tickerId).setTradeEngine (some engine)) := by
  have hpos : 0 < ME_MAX_ORDER_IDS := by decide
  refine .of_emptied ⟨⟨rfl, hpos, ?_⟩, ⟨rfl, hpos, ?_⟩, rfl, rfl, fun _ ↦ rfl⟩ rfl rfl
    fun _ _ ↦ rfl
  · simp [new, setTradeEngine, MemPool.new, MemPool.Live]
  · simp [new, setTradeEngine, MemPool.new, MemPool.Live]

theorem Mirrors.clear (h : Mirrors lv m) (hc : u.type = .CLEAR) :
    ∃ m', m.onMarketUpdate u = .ok m' ∧ Mirrors (lv.update u) m' := by
  obtain ⟨m₀, hs, hlists, hsame⟩ := h
  obtain ⟨m₁, hrun₁, hempty, hindex⟩ := clear_returns hs.clearable hs.engine hc
  have hmatched := hsame.onMarketUpdate (u := u) (by simp [hc])
  rw [hrun₁] at hmatched
  obtain ⟨m', hrun, hsame'⟩ := hmatched.exists_right
  obtain ⟨P, Q, hb⟩ := hsame'.book
  have hengine := hsame'.engine.trans (of_onMarketUpdate (by simp [hc]) hrun₁).2.1
  refine ⟨m', hrun, .of_emptied (hempty.of_moved hb) (hengine ▸ hs.engine) ?_ fun price hprice ↦ ?_⟩
  · simp only [LiveBook.update, hc]
  · simp only [Unstale, LiveBook.update, hc, List.forall_mem_append] at hprice
    refine (rel_none_iff (hb.index ⟨0⟩ price hprice.1)).mp ((congrFun hindex _).trans ?_)
    cases hslot : m₀.book.priceOrdersAtPrice (priceToIndex price) with
    | none => rfl
    | some p =>
      obtain ⟨l, hl, -, hi⟩ := (hs.represents.linked.slot _ _).mp hslot
      obtain ⟨side, hside, hl⟩ := Ladder.mem_levels.mp hl
      have hmem : l.relabel MarketOrderKey.orderId ∈ m₀.view.on side := by
        rw [view, Ladder.on_relabel]
        exact List.mem_map_of_mem hl
      obtain ⟨o, ho, -, hp⟩ := hlists.exists_of_level hs.filed hside hmem
      exact absurd ((congrArg priceToIndex hp).trans hi) (hprice.2 o ho)

theorem Mirrors.update (h : Mirrors lv m) (hu : Tidy lv u) :
    ∃ m', m.onMarketUpdate u = .ok m' ∧ Mirrors (lv.update u) m' := by
  by_cases hc : u.type = .CLEAR
  · exact h.clear hc
  obtain ⟨m₀, hs, hlists, hsame⟩ := h
  obtain ⟨m₁, hrun₁, hs₁, hview⟩ := follows_update hs (hlists.applicable hs.filed hu hc)
  have hmatched := hsame.onMarketUpdate (u := u) fun hadd ↦ by
    simp only [Tidy, hadd] at hu
    exact hu.2.2.2.2.2.1
  rw [hrun₁] at hmatched
  obtain ⟨m', hrun, hsame'⟩ := hmatched.exists_right
  have hcleared : (lv.update u).cleared = lv.cleared := by
    unfold LiveBook.update
    split <;> first | rfl | contradiction
  refine ⟨m', hrun, m₁, hs₁, hview ▸ hlists.update hs.filed hu hc, ?_⟩
  unfold Unstale
  rw [hcleared]
  exact hsame'

theorem Mirrors.quote (h : Mirrors lv m) (h' : Mirrors (lv.update u) m')
    (hrun : m.onMarketUpdate u = .ok m') (hs : side ≠ .INVALID)
    (hfit : (bestOffer side (lv.update u).orders).2 < 2 ^ 32) :
    m'.bbo.quote side = if Refreshes side lv.orders u then bestOffer side (lv.update u).orders
      else m.bbo.quote side := by
  by_cases ht : u.type = .TRADE
  · simp only [onMarketUpdate, ht, notify] at hrun
    obtain ⟨engine, -, hrun⟩ := bind_eq_ok hrun
    obtain rfl := Except.ok.inj hrun
    rw [if_neg fun hr ↦ hr.1 ht]
  obtain ⟨m₀, hs₀, hlists₀, hsame₀⟩ := h
  obtain ⟨m₁, hs₁, hlists₁, hsame₁⟩ := h'
  have hquote := (of_onMarketUpdate ht hrun).2.2.2 side hs
  rw [hsame₀.refreshes] at hquote
  simp only [refreshes_iff hs₀ hlists₀ hs ht] at hquote
  split_ifs at hquote ⊢ with hr
  · obtain ⟨P, Q, hb⟩ := hsame₁.book
    have hmatched := matched_bestQuote hb side
    rw [bestQuote_offer hs₁ hlists₁ hs hfit, hquote] at hmatched
    obtain ⟨q, hq, heq⟩ := hmatched.exists_right
    exact (Except.ok.inj hq).trans heq.symm
  · exact hquote

def Fits (os : List MEMarketUpdate) : Prop :=
  (bestOffer .BUY os).2 < 2 ^ 32 ∧ (bestOffer .SELL os).2 < 2 ^ 32

instance : DecidablePred Fits := fun _ ↦ inferInstanceAs (Decidable (_ ∧ _))

/-- The book mirrors the live orders, and each side shows what they offered when it was last
refreshed. -/
structure Tracks (us : List MEMarketUpdate) (m : MarketOrderBook) : Prop where
  mirrors : Mirrors (replay us) m
  quote : ∀ side, side ≠ .INVALID →
    m.bbo.quote side = bestOffer side (replay (lastRefresh side us)).orders

theorem Tracks.update (h : Tracks us m) (hu : Tidy (replay us) u)
    (hfit : Fits (replay (us ++ [u])).orders) :
    ∃ m', m.onMarketUpdate u = .ok m' ∧ Tracks (us ++ [u]) m' := by
  obtain ⟨m', hrun, hm'⟩ := h.mirrors.update hu
  rw [← replay_concat] at hm'
  refine ⟨m', hrun, hm', fun side hs ↦ ?_⟩
  rw [replay_concat] at hm' hfit
  have hfit' : (bestOffer side ((replay us).update u).orders).2 < 2 ^ 32 := by
    cases side with
    | INVALID => exact absurd rfl hs
    | BUY => exact hfit.1
    | SELL => exact hfit.2
  rw [h.mirrors.quote hm' hrun hs hfit', lastRefresh_concat]
  split_ifs
  · rw [replay_concat]
  · exact h.quote side hs

/-- A side of the `BBO` is right if and only if its live orders offer at best what they offered after
the last update that refreshed it. -/
theorem bbo_correct_iff {tickerId : TickerId} {engine : Ptr}
    (h : EachAfter (fun before u ↦ Tidy (replay before) u ∧ Fits (replay (before ++ [u])).orders) [] us) :
    ∃ m, ((new tickerId).setTradeEngine (some engine)).run us = .ok m ∧ ∀ side, side ≠ .INVALID →
      (m.bbo.quote side = bestOffer side (replay us).orders ↔
        bestOffer side (replay (lastRefresh side us)).orders = bestOffer side (replay us).orders) := by
  have hnew : Tracks [] ((new tickerId).setTradeEngine (some engine)) :=
    ⟨mirrors_new tickerId engine, fun side _ ↦ by cases side <;> rfl⟩
  obtain ⟨m, hrun, htracks⟩ := h.returns hnew fun _ _ _ hm hu ↦ hm.update hu.1 hu.2
  exact ⟨m, hrun, fun side hs ↦ by rw [htracks.quote side hs]⟩

theorem bbo_correct_two_sides : ∃ m, ((new 0).setTradeEngine (some 0)).run
      [⟨.ADD, 1, 0, .BUY, 100, 10, 1⟩, ⟨.ADD, 2, 0, .BUY, 100, 5, 2⟩, ⟨.ADD, 3, 0, .SELL, 101, 7, 1⟩,
        ⟨.MODIFY, 3, 0, .SELL, 101, 4, 1⟩, ⟨.CANCEL, 1, 0, .BUY, 100, 10, 1⟩] = .ok m ∧
    m.bbo.quote .BUY = (100, 5) ∧ m.bbo.quote .SELL = (101, 4) := by
  obtain ⟨m, hrun, hiff⟩ := @bbo_correct_iff [⟨.ADD, 1, 0, .BUY, 100, 10, 1⟩,
    ⟨.ADD, 2, 0, .BUY, 100, 5, 2⟩, ⟨.ADD, 3, 0, .SELL, 101, 7, 1⟩, ⟨.MODIFY, 3, 0, .SELL, 101, 4, 1⟩,
    ⟨.CANCEL, 1, 0, .BUY, 100, 10, 1⟩] 0 0 (by decide +kernel)
  exact ⟨m, hrun, (hiff .BUY (by decide)).mpr (by decide +kernel),
    (hiff .SELL (by decide)).mpr (by decide +kernel)⟩

/-- The first order of a side is not shown. -/
theorem first_order_not_shown : ∃ m, ((new 0).setTradeEngine (some 0)).run
      [⟨.ADD, 7, 0, .BUY, 100, 10, 1⟩] = .ok m ∧
    m.bbo.quote .BUY ≠ bestOffer .BUY (replay [⟨.ADD, 7, 0, .BUY, 100, 10, 1⟩]).orders :=
  Yields.exists_ok (show Yields (((new 0).setTradeEngine (some 0)).run
    [⟨.ADD, 7, 0, .BUY, 100, 10, 1⟩]) fun m ↦ m.bbo.quote .BUY ≠
      bestOffer .BUY (replay [⟨.ADD, 7, 0, .BUY, 100, 10, 1⟩]).orders by decide +kernel)

end MarketOrderBook

end LowLatency.Trading
