import LowLatency.Book.Relabel
import LowLatency.Exchange.Conservation

namespace LowLatency.Exchange

open Common Book MEOrderBook

def applyTo (v : Ladder Unit) (u : MEMarketUpdate) : Ladder Unit :=
  match u.type with
  | .ADD => v.rest 0 ⟨u.orderId, (), u.side, u.price, u.qty, u.priority⟩
  | .MODIFY => v.setQty u.orderId u.qty
  | .CANCEL => v.remove u.orderId
  | _ => v

/-- An added order is new and there is room for it; a modified or canceled order rests. -/
def Applicable (v : Ladder Unit) (u : MEMarketUpdate) : Prop :=
  match u.type with
  | .ADD => u.side ≠ .INVALID ∧ (∀ e ∈ v.entries, e.ptr ≠ u.orderId) ∧ v.Admits u.side u.price ∧
      v.entries.length + 1 < ME_MAX_ORDER_IDS ∧ u.orderId < ME_MAX_ORDER_IDS
  | .MODIFY | .CANCEL => ∃ e ∈ v.entries, e.ptr = u.orderId
  | .CLEAR => False
  | _ => True

/-- A feed that leads from the orders `v` to the orders `v'`. -/
inductive Feed : Ladder Unit → List MEMarketUpdate → Ladder Unit → Prop
  | nil {v : Ladder Unit} : Feed v [] v
  | cons {v v' : Ladder Unit} {u : MEMarketUpdate} {us : List MEMarketUpdate}
      (hu : Applicable v u) (h : Feed (applyTo v u) us v') : Feed v (u :: us) v'

theorem Feed.append {v₁ v₂ v₃ : Ladder Unit} {us us' : List MEMarketUpdate} (h : Feed v₁ us v₂)
    (h' : Feed v₂ us' v₃) : Feed v₁ (us ++ us') v₃ := by
  induction h with
  | nil => exact h'
  | cons hu _ ih => exact .cons hu (ih h')

theorem Feed.single {v : Ladder Unit} {u : MEMarketUpdate} (h : Applicable v u) :
    Feed v [u] (applyTo v u) := .cons h .nil

theorem updates_append (xs ys : List Output) : updates (xs ++ ys) = updates xs ++ updates ys :=
  List.filterMap_append

section Trades

variable {a : Ladder MEOrderKey} {o : NewOrder} {id : OrderId}

def published (a : Ladder MEOrderKey) : Ladder Unit := a.relabel MEOrderKey.marketOrderId

theorem mem_published {e : Entry MEOrderKey} (he : e ∈ a.entries) :
    ∃ e' ∈ (published a).entries, e'.ptr = e.key.marketOrderId := by
  refine ⟨e.relabel MEOrderKey.marketOrderId, ?_, rfl⟩
  rw [published, Ladder.entries_relabel]
  exact List.mem_map_of_mem he

theorem feed_fill {f : Fill MEOrderKey} (hl : Labels MEOrderKey.marketOrderId a)
    (he : f.entry ∈ a.entries) :
    Feed (published a) (updates (fillOutputs o id f)) (published (a.trade f)) := by
  refine .cons trivial ?_
  by_cases hfull : f.entry.qty = f.qty
  · have hlad : published (a.remove f.entry.ptr) = (published a).remove f.entry.key.marketOrderId :=
      Ladder.relabel_remove hl he
    rw [Ladder.trade, if_pos hfull, if_pos hfull, hlad]
    exact .single (mem_published he)
  · have hlad : published (a.setQty f.entry.ptr (f.entry.qty - f.qty)) =
        (published a).setQty f.entry.key.marketOrderId (f.entry.qty - f.qty) :=
      Ladder.relabel_setQty hl he _
    rw [Ladder.trade, if_neg hfull, if_neg hfull, hlad]
    exact .single (mem_published he)

theorem feed_fills {side : Side} {leaves : ℕ} {fs : List (Fill MEOrderKey)} (hs : side ≠ .INVALID)
    (hsweep : Ladder.Sweeps side a leaves fs) (hl : Labels MEOrderKey.marketOrderId a) :
    Feed (published a) (updates (fs.flatMap (fillOutputs o id))) (published (a.traded fs)) := by
  induction hsweep with
  | nil => exact .nil
  | @cons a leaves e es fs hq _ _ ih =>
    have he : e ∈ a.entries := Ladder.mem_entries.mpr ⟨side, hs, by simp [hq]⟩
    rw [List.flatMap_cons, updates_append, Ladder.traded_cons]
    exact (feed_fill hl he).append (ih (hl.shrinks (Ladder.shrinks_trade _ _)))

theorem feed_rest {e : Entry MEOrderKey} (hs : e.side ≠ .INVALID)
    (hfresh : ∀ e' ∈ a.entries, e'.key.marketOrderId ≠ e.key.marketOrderId)
    (hadm : a.Admits e.side e.price) (hroom : a.entries.length + 1 < ME_MAX_ORDER_IDS)
    (hid : e.key.marketOrderId < ME_MAX_ORDER_IDS) (lp : Ptr) :
    Feed (published a) (updates [restOutput o e]) (published (a.rest lp e)) := by
  have hrest : published (a.rest lp e) = (published a).rest 0 (e.relabel MEOrderKey.marketOrderId) :=
    Ladder.relabel_rest hs lp
  rw [hrest]
  refine .single ⟨hs, fun e₀ he₀ ↦ ?_, hadm.relabel, ?_, hid⟩
  · rw [published, Ladder.entries_relabel] at he₀
    obtain ⟨e', he', rfl⟩ := List.mem_map.mp he₀
    exact hfresh e' he'
  · rwa [published, Ladder.entries_relabel, List.length_map]

theorem feed_canceled (hl : Labels MEOrderKey.marketOrderId a) {e : Entry MEOrderKey}
    (he : e ∈ a.entries) (clientId : ClientId) (orderId : OrderId) (tickerId : TickerId) :
    Feed (published a) (updates (canceledOutputs clientId orderId tickerId e))
      (published (a.remove e.ptr)) := by
  have hlad : published (a.remove e.ptr) = (published a).remove e.key.marketOrderId :=
    Ladder.relabel_remove hl he
  rw [hlad]
  exact .single (mem_published he)

end Trades

namespace MEOrderBook

variable {s s' : MEOrderBook} {c : Call} {o : NewOrder} {n : ℕ}

/-- After `n` new orders: the ids are those up to `n`, and the feed so far describes the ladder. -/
structure Published (s : MEOrderBook) (n : ℕ) : Prop where
  accounted : s.Accounted
  next : s.nextMarketOrderId = n + 1
  few : s.ladder.entries.length ≤ n
  feed : Feed ⟨[], []⟩ (updates s.sent) (published s.ladder)

theorem published_new (tickerId : TickerId) : (new tickerId).Published 0 where
  accounted := accounted_new tickerId
  next := rfl
  few := Nat.le_refl 0
  feed := .nil

theorem Accounted.labels (h : s.Accounted) : Labels MEOrderKey.marketOrderId s.ladder :=
  fun e he e' he' ↦ ⟨fun hid ↦ congrArg Entry.ptr (h.ledger.inj e he e' he' (.inr hid)),
    fun hp ↦ congrArg (·.key.marketOrderId) (h.ledger.inj e he e' he' (.inl hp))⟩

theorem Published.idFits (h : s.Published n) (hn : n + (adds [c]).length < ME_MAX_ORDER_IDS) :
    s.IdFits c := by
  cases c with
  | add o =>
    have hmax : ME_MAX_ORDER_IDS ≤ 2 ^ 32 := by decide
    have hid : s.nextMarketOrderId < 2 ^ 32 := h.next ▸ lt_of_lt_of_le hn hmax
    exact ⟨lt_of_le_of_lt (Nat.succ_le_of_lt hid) (by decide), .inr (.inr hid)⟩
  | cancel clientId orderId tickerId => trivial

theorem feed_trade (hs : s.Sound) (hadm : s.Admitted (.add o)) (h : s.Published n) :
    Feed (published s.ladder) (updates (tradeOutputs s.ladder o s.nextMarketOrderId))
      (published (s.ladder.traded (s.ladder.fills o.side o.price o.qty))) := by
  have hs₀ : against o.side ≠ .INVALID := by simpa using hadm.1
  exact feed_fills hs₀ (Ladder.sweeps_fills o.qty (hs.represents.linked.side_rep _ hs₀).orders_nodup)
    h.accounted.labels

/-- A call that returns continues the feed to the ladder it leaves; one that does not return breaks
off between two trades or after the last. -/
theorem feed_outputsOf (hs : s.Sound) (hadm : s.Admitted c) (h : s.Published n)
    (hn : n + (adds [c]).length < ME_MAX_ORDER_IDS) :
    ∃ v, Feed (published s.ladder) (updates (s.outputsOf c)) v ∧
      ∀ s', s.step c = .ok s' → published s'.ladder = v := by
  cases hrun : s.step c with
  | error halt =>
    suffices hfeed : ∃ v, Feed (published s.ladder) (updates (s.outputsOf c)) v from
      hfeed.imp fun _ hv ↦ ⟨hv, nofun⟩
    cases c with
    | add o =>
      rw [outputsOf_error hrun (add_error hs hadm hrun).2.2.2]
      exact ⟨_, feed_trade hs hadm h⟩
    | cancel clientId orderId tickerId =>
      obtain ⟨-, rfl⟩ := cancel_error hs hrun
      rw [outputsOf_error hrun (List.append_nil _).symm]
      exact ⟨_, .nil⟩
  | ok s' =>
    suffices hfeed : Feed (published s.ladder) (updates (s.outputsOf c)) (published s'.ladder) from
      ⟨_, hfeed, fun s'' hs'' ↦ by rw [Except.ok.inj hs'']⟩
    cases hs.outcome hadm hrun with
    | canceled he hlad hsent =>
      rw [outputsOf_ok hrun hsent, hlad]
      exact feed_canceled h.accounted.labels he _ _ _
    | rejected hs' =>
      subst hs'
      rw [outputsOf_ok hrun rfl]
      exact .nil
    | traded _ hlad hsent =>
      rw [outputsOf_ok hrun hsent, hlad]
      exact feed_trade hs hadm h
    | @rested o lp hr hlad hsent =>
      have htrade := feed_trade hs hadm h
      have hshr := Ladder.shrinks_swept s.ladder o.side o.price
      have hnext : s.nextMarketOrderId < ME_MAX_ORDER_IDS := h.next ▸ hn
      rw [Ladder.traded_fills (fun _ ↦ hs.represents.linked.orders_ne) hr] at htrade
      rw [outputsOf_ok hrun hsent, hlad, updates_append]
      refine htrade.append (feed_rest hadm.1 (fun e' he' ↦ ?_) (hadm.2 hr) ?_ hnext lp)
      · obtain ⟨e, he, hf⟩ := hshr.exists_entry he'
        rw [(Entry.fixed_eq hf).2.1]
        exact (h.accounted.ledger.resting e he).2.1.ne
      · exact lt_of_le_of_lt (Nat.succ_le_succ (hshr.length_entries_le.trans h.few)) hn

theorem Published.step (hs : s.Sound) (hadm : s.Admitted c) (h : s.Published n)
    (hn : n + (adds [c]).length < ME_MAX_ORDER_IDS) (hrun : s.step c = .ok s') :
    s'.Published (n + (adds [c]).length) where
  accounted := accounted_step hs hadm (h.idFits hn) hrun h.accounted
  next := by
    have hfits := h.idFits hn
    cases hs.outcome hadm hrun with
    | traded _ _ _ hnext => rw [hnext, Nat.mod_eq_of_lt hfits.1, h.next]; rfl
    | rested _ _ _ _ hnext => rw [hnext, Nat.mod_eq_of_lt hfits.1, h.next]; rfl
    | canceled _ _ _ hnext => exact hnext.trans h.next
    | rejected hs' => exact hs' ▸ h.next
  few := by
    cases hs.outcome hadm hrun with
    | traded _ hlad =>
      rw [hlad]
      exact (Ladder.shrinks_traded _ _).length_entries_le.trans (h.few.trans (Nat.le_succ n))
    | @rested o lp _ hlad =>
      have hside : (restingEntry s s.ladder o).side ≠ .INVALID := hadm.1
      rw [hlad, Ladder.length_entries_rest hside (swept_slots_nodup hs hadm.1)]
      exact Nat.succ_le_succ ((Ladder.shrinks_swept _ _ _).length_entries_le.trans h.few)
    | canceled _ hlad => exact hlad ▸ (Ladder.shrinks_remove _ _).length_entries_le.trans h.few
    | rejected hs' => exact hs' ▸ h.few
  feed := by
    obtain ⟨v, hfeed, hv⟩ := feed_outputsOf hs hadm h hn
    rw [sent_eq hs hadm hrun, updates_append, hv s' hrun]
    exact h.feed.append hfeed

end MEOrderBook

end LowLatency.Exchange
