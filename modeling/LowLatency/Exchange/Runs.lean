import LowLatency.Book.Shrinks
import LowLatency.Exchange.Calls
import LowLatency.GuardedRun

namespace LowLatency.Exchange

open Common Book Function

/-- The resting orders, read off by walking the links of the book. -/
def MEOrderBook.ladder (s : MEOrderBook) : Ladder MEOrderKey := s.book.ladder

/-- Links, price index, order table and pools of the book agree with what is on its lists. -/
structure MEOrderBook.Sound (s : MEOrderBook) : Prop where
  represents : Represents s.book s.ladder
  orders : s.book.orderPool.size = ME_MAX_ORDER_IDS
  levels : s.book.ordersAtPricePool.size = ME_MAX_PRICE_LEVELS

section Called

variable {s s' : MEOrderBook} {a' : Ladder MEOrderKey} {outs : List Output}

theorem Called.ladder (h : Called s s' a' outs) : s'.ladder = a' := h.represents.ladder_eq

theorem Called.sound (h : Called s s' a' outs) (hs : s.Sound) : s'.Sound :=
  ⟨by rw [h.ladder]; exact h.represents, h.orders.trans hs.orders, h.levels.trans hs.levels⟩

end Called

namespace MEOrderBook

variable {s s' : MEOrderBook} {o : NewOrder} {c : Call} {cs : List Call} {tickerId : TickerId} {h : Halt}

/-- An order that comes to rest finds its slot of the price index free of the other side, and its
level, if it is new, belongs behind all others. -/
def Admitted (s : MEOrderBook) : Call → Prop
  | .add o => o.side ≠ .INVALID ∧ (s.ladder.Rests o.side o.price o.qty →
      (s.ladder.swept o.side o.price).Admits o.side o.price)
  | .cancel _ _ _ => True

instance : DecidableRel Admitted
  | _, .add _ => inferInstanceAs (Decidable (_ ∧ (_ → _)))
  | _, .cancel _ _ _ => inferInstanceAs (Decidable True)

theorem sound_new (tickerId : TickerId) : (new tickerId).Sound where
  represents := represents_empty (by decide) (by decide) _ _
  orders := rfl
  levels := rfl

/-- What a call that returns has done: an `add` traded all of its order or rested what was left, a
`cancel` took an order out or was rejected. -/
inductive Outcome (s s' : MEOrderBook) : Call → Prop
  | traded {o : NewOrder} (hr : ¬ s.ladder.Rests o.side o.price o.qty)
      (hlad : s'.ladder = s.ladder.traded (s.ladder.fills o.side o.price o.qty))
      (hsent : s'.sent = s.sent ++ tradeOutputs s.ladder o s.nextMarketOrderId)
      (hnext : s'.nextMarketOrderId = (s.nextMarketOrderId + 1) % 2 ^ 64)
      (hcomp : Complete s.book s.ladder → Complete s'.book s'.ladder) : Outcome s s' (.add o)
  | rested {o : NewOrder} (lp : Ptr) (hr : s.ladder.Rests o.side o.price o.qty)
      (hlad : s'.ladder = (s.ladder.swept o.side o.price).rest lp (restingEntry s s.ladder o))
      (hsent : s'.sent = s.sent ++ (tradeOutputs s.ladder o s.nextMarketOrderId ++
        [restOutput o (restingEntry s s.ladder o)]))
      (hnext : s'.nextMarketOrderId = (s.nextMarketOrderId + 1) % 2 ^ 64)
      (hcomp : Complete s.book s.ladder → (∀ e ∈ (s.ladder.swept o.side o.price).entries,
          ¬ (e.key.clientId = o.tickerId ∧ e.key.clientOrderId = o.clientOrderId)) →
        Complete s'.book s'.ladder) : Outcome s s' (.add o)
  | canceled {e : Entry MEOrderKey} {tickerId : TickerId} (he : e ∈ s.ladder.entries)
      (hlad : s'.ladder = s.ladder.remove e.ptr)
      (hsent : s'.sent =
        s.sent ++ canceledOutputs e.key.clientId e.key.clientOrderId tickerId e)
      (hnext : s'.nextMarketOrderId = s.nextMarketOrderId)
      (hcomp : Complete s.book s.ladder → Complete s'.book s'.ladder) :
      Outcome s s' (.cancel e.key.clientId e.key.clientOrderId tickerId)
  | rejected {clientId : ClientId} {orderId : OrderId} {tickerId : TickerId}
      (hs' : s' = s.sendClientResponse (rejection clientId orderId tickerId)) :
      Outcome s s' (.cancel clientId orderId tickerId)

theorem step_spec (hs : s.Sound) (hadm : s.Admitted c) (hrun : s.step c = .ok s') :
    s'.Sound ∧ s'.tickerId = s.tickerId ∧ Outcome s s' c := by
  cases c with
  | add o =>
    rcases add_spec hs.represents hadm.1 hadm.2 with
      ⟨hr, s₁, hok, hc, hn, hcomp⟩ | ⟨hr, s₁, lp, hok, hc, hn, hcomp⟩ | ⟨_, f, herr, _⟩
    · obtain rfl := Except.ok.inj (hok.symm.trans hrun)
      rw [← hc.ladder] at hcomp
      exact ⟨hc.sound hs, hc.tickerId, .traded hr hc.ladder hc.sent hn hcomp⟩
    · obtain rfl := Except.ok.inj (hok.symm.trans hrun)
      rw [← hc.ladder] at hcomp
      exact ⟨hc.sound hs, hc.tickerId, .rested lp hr hc.ladder hc.sent hn hcomp⟩
    · cases herr.symm.trans hrun
  | cancel clientId orderId tickerId =>
    rcases cancel_spec hs.represents clientId orderId tickerId with
      ⟨e, he, rfl, rfl, ht, s₁, hok, hc, hn, hcomp⟩ | ⟨hnone, hok⟩ | ⟨_, herr⟩
    · obtain rfl := Except.ok.inj (hok.symm.trans hrun)
      rw [← hc.ladder] at hcomp
      exact ⟨hc.sound hs, hc.tickerId, .canceled he hc.ladder hc.sent hn hcomp⟩
    · obtain rfl := Except.ok.inj (hok.symm.trans hrun)
      exact ⟨⟨hs.represents, hs.orders, hs.levels⟩, rfl, .rejected rfl⟩
    · cases herr.symm.trans hrun

theorem Sound.step (hs : s.Sound) (hadm : s.Admitted c) (hrun : s.step c = .ok s') : s'.Sound :=
  (step_spec hs hadm hrun).1

theorem Sound.outcome (hs : s.Sound) (hadm : s.Admitted c) (hrun : s.step c = .ok s') :
    Outcome s s' c := (step_spec hs hadm hrun).2.2

theorem add_error (hs : s.Sound) (hadm : s.Admitted (.add o)) (hrun : s.step (.add o) = .error h) :
    s.ladder.Rests o.side o.price o.qty ∧ h.fault.Exits ∧ s.NoRoom s.ladder o ∧
      h.sent = s.sent ++ tradeOutputs s.ladder o s.nextMarketOrderId := by
  rcases add_spec hs.represents hadm.1 hadm.2 with
      ⟨_, s₁, hok, _⟩ | ⟨_, s₁, lp, hok, _⟩ | ⟨hr, f, herr, hf, hroom⟩
  · cases hok.symm.trans hrun
  · cases hok.symm.trans hrun
  · obtain rfl := Except.error.inj (herr.symm.trans hrun)
    exact ⟨hr, hf, hroom, rfl⟩

theorem cancel_error (hs : s.Sound) {clientId orderId tickerId : ℕ}
    (hrun : s.step (.cancel clientId orderId tickerId) = .error h) :
    ¬ orderId < ME_MAX_ORDER_IDS ∧ h = ⟨.outOfRange, s.sent⟩ := by
  rcases cancel_spec hs.represents clientId orderId tickerId with
      ⟨e, _, _, _, _, s₁, hok, _⟩ | ⟨_, hok⟩ | ⟨ho, herr⟩
  · cases hok.symm.trans hrun
  · cases hok.symm.trans hrun
  · exact ⟨ho, (Except.error.inj (herr.symm.trans hrun)).symm⟩

theorem sent_eq (hs : s.Sound) (hadm : s.Admitted c) (hrun : s.step c = .ok s') :
    s'.sent = s.sent ++ s.outputsOf c := by
  have key : ∀ outs, s'.sent = s.sent ++ outs → s'.sent = s.sent ++ s.outputsOf c := fun outs h ↦ by
    rw [outputsOf_ok hrun h, h]
  cases hs.outcome hadm hrun with
  | traded _ _ hsent => exact key _ hsent
  | rested _ _ _ hsent => exact key _ hsent
  | canceled _ _ hsent => exact key _ hsent
  | rejected hs' => exact key _ (by rw [hs']; rfl)

theorem outputsOf_add (hs : s.Sound) (hadm : s.Admitted (.add o)) :
    s.outputsOf (.add o) = tradeOutputs s.ladder o s.nextMarketOrderId ∨
    s.outputsOf (.add o) = tradeOutputs s.ladder o s.nextMarketOrderId ++
      [restOutput o (restingEntry s s.ladder o)] := by
  cases hrun : s.step (.add o) with
  | ok s' =>
    cases hs.outcome hadm hrun with
    | traded _ _ hsent => exact .inl (outputsOf_ok hrun hsent)
    | rested _ _ _ hsent => exact .inr (outputsOf_ok hrun hsent)
  | error h => exact .inl (outputsOf_error hrun (add_error hs hadm hrun).2.2.2)

theorem outputsOf_cancel (hs : s.Sound) (clientId orderId tickerId : ℕ) :
    (∃ e ∈ s.ladder.entries, e.key.clientId = clientId ∧ e.key.clientOrderId = orderId ∧
      s.outputsOf (.cancel clientId orderId tickerId) = canceledOutputs clientId orderId tickerId e) ∨
    s.outputsOf (.cancel clientId orderId tickerId) =
      [.response (rejection clientId orderId tickerId)] ∨
    ¬ orderId < ME_MAX_ORDER_IDS ∧ s.outputsOf (.cancel clientId orderId tickerId) = [] := by
  cases hrun : s.step (.cancel clientId orderId tickerId) with
  | ok s' =>
    cases hs.outcome (c := .cancel clientId orderId tickerId) trivial hrun with
    | canceled he _ hsent => exact .inl ⟨_, he, rfl, rfl, outputsOf_ok hrun hsent⟩
    | rejected hs' => exact .inr (.inl (outputsOf_ok hrun (by rw [hs']; rfl)))
  | error h =>
    obtain ⟨ho, rfl⟩ := cancel_error hs hrun
    exact .inr (.inr ⟨ho, outputsOf_error hrun (List.append_nil _).symm⟩)

theorem fresh_restingEntry (hs : s.Sound) (o : NewOrder) :
    ∀ e ∈ s.ladder.entries, e.ptr ≠ (restingEntry s s.ladder o).ptr := fun _ ↦ hs.represents.fresh

theorem fresh_swept (hs : s.Sound) (o : NewOrder) :
    ∀ e ∈ (s.ladder.swept o.side o.price).entries, e.ptr ≠ (restingEntry s s.ladder o).ptr :=
  fun e' he' ↦ by
    obtain ⟨e, he, hf⟩ := (Ladder.shrinks_swept _ _ _).exists_entry he'
    exact (Entry.fixed_eq hf).1 ▸ fresh_restingEntry hs o e he

theorem swept_slots_nodup (hs : s.Sound) (hside : o.side ≠ .INVALID) :
    (((s.ladder.swept o.side o.price).on o.side).map fun l ↦ priceToIndex l.price).Nodup :=
  (Ladder.shrinks_swept _ _ _).slots_nodup (hs.represents.linked.slots_nodup hside)

theorem mem_entries_rested (hs : s.Sound) (hside : o.side ≠ .INVALID) (lp : Ptr)
    (e : Entry MEOrderKey) :
    e ∈ ((s.ladder.swept o.side o.price).rest lp (restingEntry s s.ladder o)).entries ↔
      e ∈ (s.ladder.swept o.side o.price).entries ∨ e = restingEntry s s.ladder o :=
  Ladder.mem_entries_rest hside (swept_slots_nodup hs hside)

/-- What survives losing orders, and holds with the new order at rest, is kept by every call. -/
theorem ladder_step {P : Ladder MEOrderKey → Prop} (hs : s.Sound) (hadm : s.Admitted c)
    (hrun : s.step c = .ok s') (hP : P s.ladder)
    (hshrink : ∀ a, a.Shrinks s.ladder → P a)
    (hrest : ∀ o lp, c = .add o → s.ladder.Rests o.side o.price o.qty →
      P (s.ladder.swept o.side o.price) →
      P ((s.ladder.swept o.side o.price).rest lp (restingEntry s s.ladder o))) : P s'.ladder := by
  cases hs.outcome hadm hrun with
  | traded _ hlad => exact hlad ▸ hshrink _ (Ladder.shrinks_traded _ _)
  | rested lp hr hlad =>
    exact hlad ▸ hrest _ lp rfl hr (hshrink _ (Ladder.shrinks_swept _ _ _))
  | canceled _ hlad => exact hlad ▸ hshrink _ (Ladder.shrinks_remove _ _)
  | rejected hs' => exact hs' ▸ hP

theorem Sound.exits (hs : s.Sound) (hadm : s.Admitted c) (hrun : s.step c = .error h) :
    h.fault.Exits := by
  cases c with
  | add o => exact (add_error hs hadm hrun).2.1
  | cancel clientId orderId tickerId => rw [(cancel_error hs hrun).2]; trivial

theorem sound_of_run (hg : Guarded MEOrderBook.step Admitted (new tickerId) cs)
    (hrun : (new tickerId).run cs = .ok s) : s.Sound :=
  hg.invariant (fun _ _ _ hs hadm h ↦ hs.step hadm h) (sound_new tickerId) hrun

theorem exits_of_run (hg : Guarded MEOrderBook.step Admitted (new tickerId) cs)
    (hrun : (new tickerId).run cs = .error h) : h.fault.Exits :=
  hg.error_of_run (E := fun h ↦ h.fault.Exits) (fun _ _ _ hs hadm h ↦ hs.step hadm h)
    (fun _ _ _ hs hadm h ↦ hs.exits hadm h) (sound_new tickerId) hrun

end MEOrderBook

end LowLatency.Exchange
