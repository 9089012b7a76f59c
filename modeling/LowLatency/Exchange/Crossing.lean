import LowLatency.Exchange.PriceTime
import Mathlib.Data.List.TakeWhile

namespace LowLatency.Exchange

open Common Book

def Uncrossed (a : Ladder MEOrderKey) : Prop :=
  ∀ e ∈ queue a.bids, ∀ e' ∈ queue a.asks, e.price < e'.price

theorem Uncrossed.shrink {a a' : Ladder MEOrderKey} (h : Uncrossed a) (hs : a'.Shrinks a) :
    Uncrossed a' := by
  intro e he e' he'
  obtain ⟨e₀, he₀, hf⟩ := hs.exists_entry_on .BUY he
  obtain ⟨e₀', he₀', hf'⟩ := hs.exists_entry_on .SELL he'
  rw [(Entry.fixed_eq hf).2.2.2.1, (Entry.fixed_eq hf').2.2.2.1]
  exact h e₀ he₀ e₀' he₀'

theorem Uncrossed.rest {a : Ladder MEOrderKey} {lp : Ptr} {e : Entry MEOrderKey} (h : Uncrossed a)
    (hs : e.side ≠ .INVALID) (hd : ((a.on e.side).map fun l ↦ priceToIndex l.price).Nodup)
    (hbid : e.side = .BUY → ∀ e' ∈ queue a.asks, e.price < e'.price)
    (hask : e.side = .SELL → ∀ e' ∈ queue a.bids, e'.price < e.price) : Uncrossed (a.rest lp e) := by
  have hmem : ∀ e', e' ∈ queue (restIn lp e (a.on e.side)) → e' ∈ queue (a.on e.side) ∨ e' = e :=
    fun e' he' ↦ by simpa using (queue_restIn_perm lp e hd).mem_iff.mp he'
  cases hside : e.side with
  | INVALID => exact absurd hside hs
  | BUY =>
    rw [hside] at hmem
    intro e₁ he₁ e₂ he₂
    simp only [Ladder.rest, hside, Ladder.setOn, if_true, Ladder.on_BUY] at he₁ he₂
    rcases hmem e₁ he₁ with h₁ | rfl
    · exact h e₁ h₁ e₂ he₂
    · exact hbid hside e₂ he₂
  | SELL =>
    rw [hside] at hmem
    intro e₁ he₁ e₂ he₂
    simp only [Ladder.rest, hside, Ladder.setOn, reduceCtorEq, if_false, Ladder.on_SELL] at he₁ he₂
    rcases hmem e₂ he₂ with h₂ | rfl
    · exact h e₁ he₁ e₂ h₂
    · exact hask hside e₁ he₁

namespace MEOrderBook

variable {s s' : MEOrderBook} {c : Call} {o : NewOrder} {cs : List Call} {tickerId : TickerId}

/-- A SELL meets no bids, or bids at its own price, and of these enough to be used up unless there
are no others behind them. -/
def SellsAtBest (s : MEOrderBook) : Call → Prop
  | .add o => o.side = .SELL → o.qty ≠ 0 → ∀ l ∈ s.ladder.bids.head?,
      l.price = o.price ∧ (s.ladder.bids = [l] ∨ o.qty ≤ offered l.orders)
  | .cancel _ _ _ => True

instance : DecidableRel SellsAtBest
  | _, .add _ => inferInstanceAs (Decidable (_ → _))
  | _, .cancel _ _ _ => inferInstanceAs (Decidable True)

def Within (side : Side) (limit price : Price) : Prop :=
  side = .BUY ∧ price ≤ limit ∨ side = .SELL ∧ limit ≤ price

instance (side : Side) (limit price : Price) : Decidable (Within side limit price) :=
  inferInstanceAs (Decidable (_ ∨ _))

/-- `c` executes at no price beyond its limit, and leaves no resting bid at or above an ask. -/
def CrossesRight (s : MEOrderBook) (c : Call) : Prop :=
  (∀ o, c = .add o → ∀ r, .response r ∈ s.outputsOf c → r.type = .FILLED →
    Within o.side o.price r.price) ∧
  ∀ s', s.step c = .ok s' → ∀ p q, s'.book.orderPool.Live p → s'.book.orderPool.Live q →
    (s'.book.order p).side = .BUY → (s'.book.order q).side = .SELL →
    (s'.book.order p).price < (s'.book.order q).price

theorem within_of_filled (hs : s.Sound) (hadm : s.Admitted (.add o))
    (hw : ∀ f ∈ s.ladder.fills o.side o.price o.qty, Within o.side o.price f.entry.price)
    {r : MEClientResponse} (hr : .response r ∈ s.outputsOf (.add o)) (ht : r.type = .FILLED) :
    Within o.side o.price r.price := by
  have hmem : .response r ∈ tradeOutputs s.ladder o s.nextMarketOrderId := by
    rcases outputsOf_add hs hadm with h | h
    · exact h ▸ hr
    · simpa [h, restOutput] using hr
  rcases List.mem_cons.mp hmem with hacc | hfill
  · rw [Output.response.inj hacc] at ht
    cases ht
  · obtain ⟨f, hf, hout⟩ := List.mem_flatMap.mp hfill
    have hprice : r.price = f.entry.price := by
      simp only [fillOutputs, List.mem_cons, Output.response.injEq, reduceCtorEq, List.not_mem_nil,
        or_false] at hout
      rcases hout with rfl | rfl <;> rfl
    exact hprice ▸ hw f hf

theorem buys_within (hside : o.side = .BUY) :
    ∀ f ∈ s.ladder.fills o.side o.price o.qty, Within o.side o.price f.entry.price := fun f hf ↦ by
  have hcross := List.mem_takeWhile_imp (sweep_entry_mem hf)
  exact .inl ⟨hside, by simpa using hcross⟩

theorem sells_at_best (hu : Uniform s.ladder.bids) (hbest : s.SellsAtBest (.add o))
    (hside : o.side = .SELL) :
    (∀ f ∈ s.ladder.fills o.side o.price o.qty, Within o.side o.price f.entry.price) ∧
    (s.ladder.Rests o.side o.price o.qty → queue (s.ladder.swept o.side o.price).bids = []) := by
  rw [hside]
  by_cases hq : o.qty = 0
  · rw [Ladder.fills_nil (.inl hq), hq]
    exact ⟨fun f hf ↦ (List.not_mem_nil hf).elim, fun hr ↦ (Nat.not_lt_zero _ hr).elim⟩
  cases hb : s.ladder.bids with
  | nil =>
    rw [Ladder.fills_nil (.inr (.inl (by simp [against, hb])))]
    refine ⟨fun f hf ↦ (List.not_mem_nil hf).elim, fun _ ↦ ?_⟩
    rw [Ladder.swept, queue_dropOrders, hb]
    rfl
  | cons l ls =>
    obtain ⟨hprice, hlast⟩ := hbest hside hq l (by simp [hb])
    have hat : ∀ e ∈ l.orders, e.price = o.price := fun e he ↦
      (hu l (by simp [hb]) e he).trans hprice
    have hcross : s.ladder.crossing .SELL o.price =
        l.orders ++ (queue ls).takeWhile fun e ↦ ¬ o.price < e.price := by
      rw [Ladder.crossing]
      simp only [against, Ladder.on_BUY, hb, queue_cons]
      exact List.takeWhile_append_of_pos fun e he ↦ by simp [hat e he]
    rcases hlast with hone | hused
    · have hls : ls = [] := by simpa [hb] using hone
      subst hls
      rw [queue_nil, List.takeWhile_nil, List.append_nil] at hcross
      constructor
      · intro f hf
        rw [Ladder.fills, hcross] at hf
        exact .inr ⟨rfl, (hat _ (sweep_entry_mem hf)).ge⟩
      · intro _
        rw [Ladder.swept, queue_dropOrders, hb, hcross, List.filter_eq_nil_iff]
        simp only [queue_cons, queue_nil, List.append_nil, decide_eq_true_eq, not_not]
        exact fun e he ↦ List.mem_map_of_mem he
    · constructor
      · intro f hf
        rw [Ladder.fills, hcross, sweep_append _ hused] at hf
        exact .inr ⟨rfl, (hat _ (sweep_entry_mem hf)).ge⟩
      · intro hr
        have hoff : offered (s.ladder.crossing .SELL o.price) < o.qty := hr
        rw [hcross] at hoff
        simp only [offered, List.map_append, List.sum_append] at hoff hused
        exact absurd hused (Nat.not_le.mpr (by omega))

theorem asks_ranked_step (hs : s.Sound) (hadm : s.Admitted c) (hrun : s.step c = .ok s')
    (hr : Ranked .SELL s.ladder.asks) : Ranked .SELL s'.ladder.asks := by
  refine ladder_step (P := fun a ↦ Ranked .SELL a.asks) hs hadm hrun hr
    (fun a ha ↦ hr.shrink (ha .SELL)) ?_
  rintro o lp rfl hrests h
  obtain ⟨hside, hadmits⟩ := hadm
  cases ho : o.side with
  | INVALID => exact absurd ho hside
  | BUY =>
    simp only [ho] at h
    simpa [Ladder.rest, restingEntry, ho, Ladder.setOn] using h
  | SELL =>
    simp only [ho] at h
    have hback := (hadmits hrests).2
    rw [ho] at hback
    simp only [Ladder.rest, restingEntry, ho, Ladder.setOn, reduceCtorEq, if_false]
    refine h.restIn (hback.imp_right fun hall l hl ↦ .inr ⟨rfl, ?_⟩)
    simpa [LevelBook.addAfter] using hall l hl

theorem uncrossed_step (hs : s.Sound) (hadm : s.Admitted c) (hbest : s.SellsAtBest c)
    (hrun : s.step c = .ok s') (hu : ∀ side, side ≠ .INVALID → Uniform (s.ladder.on side))
    (hr : Ranked .SELL s.ladder.asks) (h : Uncrossed s.ladder) : Uncrossed s'.ladder := by
  refine ladder_step hs hadm hrun h (fun a ha ↦ h.shrink ha) ?_
  rintro o lp rfl hrests hswept
  have hd := (Ladder.shrinks_swept s.ladder o.side o.price).slots_nodup
    (hs.represents.linked.slots_nodup hadm.1)
  refine hswept.rest hadm.1 hd (fun hside e' he' ↦ ?_) fun hside e' he' ↦ ?_
  · have ho : o.side = .BUY := hside
    rw [ho] at he'
    exact hr.lt_of_mem_swept (hu .SELL (by decide)) he'
  · have hnil := (sells_at_best (hu .BUY (by decide)) hbest hside).2 hrests
    rw [hnil] at he'
    cases he'

theorem crosses_right (hg : Guarded MEOrderBook.step (fun s c ↦
      s.Admitted c ∧ s.Uncollided c ∧ s.SellsAtBest c) (new tickerId) (cs ++ [c]))
    (hrun : (new tickerId).run cs = .ok s) : s.CrossesRight c := by
  obtain ⟨hcs, hc⟩ := hg.append
  obtain ⟨hadm, hunc, hbest⟩ := (hc s hrun).head
  have hinv := hcs.invariant (I := fun s ↦ s.Sound ∧
    (∀ side, side ≠ .INVALID → Uniform (s.ladder.on side)) ∧ Ranked .SELL s.ladder.asks ∧
    Uncrossed s.ladder) ?_ ?_ hrun
  · obtain ⟨hs, hu, hr, hx⟩ := hinv
    refine ⟨?_, fun s' hstep p q hp hq hbuy hsell ↦ ?_⟩
    · rintro o rfl r hmem ht
      refine within_of_filled hs hadm ?_ hmem ht
      cases hside : o.side with
      | INVALID => exact absurd hside hadm.1
      | BUY => exact hside ▸ buys_within hside
      | SELL => exact hside ▸ (sells_at_best (hu .BUY (by decide)) hbest hside).1
    · have hs' := hs.step hadm hstep
      have hp := hs'.represents.entryAt_mem hp
      have hq := hs'.represents.entryAt_mem hq
      rw [hbuy] at hp
      rw [hsell] at hq
      exact uncrossed_step hs hadm hbest hstep hu hr hx _ hp _ hq
  · rintro s c s' ⟨hs, hu, hr, hx⟩ ⟨hadm, hunc, hbest⟩ hstep
    exact ⟨hs.step hadm hstep, uniform_step hs hadm hunc hstep hu,
      asks_ranked_step hs hadm hstep hr, uncrossed_step hs hadm hbest hstep hu hr hx⟩
  · have hnil : (new tickerId).ladder = ⟨[], []⟩ := rfl
    refine ⟨sound_new tickerId, fun side _ ↦ ?_, ?_, ?_⟩
    · rw [hnil]
      cases side <;> simp [Ladder.on, Uniform]
    · simp [hnil, Ranked]
    · simp [hnil, Uncrossed]

def sweptAsks : List Call :=
  [.add ⟨1, 1, 0, .SELL, 100, 10⟩, .add ⟨2, 1, 0, .SELL, 101, 10⟩, .add ⟨3, 1, 0, .BUY, 101, 25⟩]

theorem crosses_right_both_sides : ∃ s, (new 0).run sweptAsks = .ok s ∧
    s.CrossesRight (.add ⟨4, 1, 0, .SELL, 101, 7⟩) := by
  obtain ⟨s, hs⟩ : ∃ s, (new 0).run sweptAsks = .ok s := exists_ok (by decide +kernel)
  exact ⟨s, hs, crosses_right (by decide +kernel) hs⟩

/-- A SELL with limit 105 is executed at 100. -/
theorem sell_below_limit : ∃ s, (new 0).run [.add ⟨1, 1, 0, .BUY, 100, 10⟩] = .ok s ∧
    ¬ s.CrossesRight (.add ⟨2, 1, 0, .SELL, 105, 5⟩) := by
  obtain ⟨s, hs, r, hr, ht, hbeyond⟩ := Yields.exists_ok (show Yields ((new 0).run
    [.add ⟨1, 1, 0, .BUY, 100, 10⟩]) fun s ↦
      ∃ r ∈ responses (s.outputsOf (.add ⟨2, 1, 0, .SELL, 105, 5⟩)),
        r.type = .FILLED ∧ ¬ Within .SELL 105 r.price by decide +kernel)
  exact ⟨s, hs, fun h ↦ hbeyond (h.1 _ rfl r (mem_responses.mp hr) ht)⟩

end MEOrderBook

end LowLatency.Exchange
