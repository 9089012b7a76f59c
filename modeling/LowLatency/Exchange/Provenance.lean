import LowLatency.Book.Frame
import LowLatency.Book.Moved
import LowLatency.Exchange.Executions

namespace LowLatency.Exchange.MEOrderBook

open Common Book Function LevelBook

/-- Operations on orders that `G` knows break off in ways that `E` admits. -/
structure Covers (G : MEOrderKey → Price → Prop) (E : Fault → Prop) : Prop where
  other : ∀ f, ¬ f.Indexes → E f
  noEntry : ∀ key price, G key price → TableKey.entry key = none → E .outOfRange

/-- The pointers of `s'` lead to orders of `P`, under the keys that they have in `s`. -/
structure Traced (G : MEOrderKey → Price → Prop) (P Q : Ptr → Ptr → Prop) (s s' : MEOrderBook) :
    Prop where
  moved : Moved G P Q s'.book s'.book
  keyAt : s'.book.keyAt = s.book.keyAt
  next : s'.nextMarketOrderId = s.nextMarketOrderId

def slot (s : MEOrderBook) (o : NewOrder) : Option Ptr :=
  match (s.accepted o).checkForMatch o.clientId o.clientOrderId o.tickerId o.side o.price o.qty
    s.nextMarketOrderId with
  | .ok (s', leavesQty) => if leavesQty ≠ 0 then some s'.book.orderPool.nextFreeIndex else none
  | .error _ => none

def newKey (s : MEOrderBook) (o : NewOrder) : MEOrderKey :=
  ⟨o.tickerId, o.clientId, o.clientOrderId, s.nextMarketOrderId⟩

/-- `s'` is the book after `add`: the pointers lead to orders of `P` and to the slot of the new one. -/
structure Placed (G : MEOrderKey → Price → Prop) (P : Ptr → Ptr → Prop) (s : MEOrderBook) (o : NewOrder)
    (s' : MEOrderBook) : Prop where
  moved : ∃ P' Q' : Ptr → Ptr → Prop, Moved G P' Q' s'.book s'.book ∧
    ∀ p, P' p p → P p p ∨ s.slot o = some p
  keyAt_slot : ∀ p, s.slot o = some p → s'.book.keyAt p = s.newKey o
  keyAt_ne : ∀ p, s.slot o ≠ some p → s'.book.keyAt p = s.book.keyAt p
  next : s'.nextMarketOrderId = (s.nextMarketOrderId + 1) % 2 ^ 64

variable {G : MEOrderKey → Price → Prop} {P Q : Ptr → Ptr → Prop} {E : Fault → Prop}
  {s s' s'' : MEOrderBook} {o : NewOrder} {id : OrderId} {other : Side} {itr : Ptr}

theorem Traced.trans (h : Traced G P Q s s') (h' : Traced G P Q s' s'') : Traced G P Q s s'' :=
  ⟨h'.moved, h'.keyAt.trans h.keyAt, h'.next.trans h.next⟩

theorem covers_true : Covers G fun _ ↦ True := ⟨fun _ _ ↦ trivial, fun _ _ _ _ ↦ trivial⟩

theorem ends_onBook {α : Type} {x : Except Fault α} {R : α → Prop} (h : Ends x R E) :
    Ends (s.onBook x) R fun h ↦ E h.fault := by
  cases x with
  | ok a => exact h
  | error f => exact h

section Match

theorem traced_reported (o : NewOrder) (id : OrderId) (hb : Moved G P Q s.book s.book) (hp : P itr itr)
    (leavesQty : Qty) :
    Traced G P Q s (s.reported o id itr leavesQty) where
  moved := hb.setQty hp _
  keyAt := keyAt_setQty s.book itr _
  next := rfl

theorem ends_matchOrder (o : NewOrder) (id : OrderId) (hb : Moved G P Q s.book s.book) (hE : Covers G E)
    (hp : P itr itr) (leavesQty : Qty) :
    Ends (s.matchOrder o.tickerId o.clientId o.side o.clientOrderId id itr leavesQty)
      (fun r ↦ Traced G P Q s r.1) fun h ↦ E h.fault := by
  have h := traced_reported o id hb hp leavesQty
  have hkey := hE.noEntry _ _ (h.moved.order itr itr hp).known
  rw [matchOrder_eq]
  split
  · refine (ends_onBook ((h.moved.removeOrder hp).ends (ends_removeOrder hE.other hkey))).bind ?_
    exact fun b ⟨hmoved, hkeys⟩ ↦ ⟨hmoved, hkeys.trans h.keyAt, h.next⟩
  · exact h

theorem ends_nextMatch (hb : Moved G P Q s.book s.book) (price : Price) (other : Side)
    (leavesQty : Qty) :
    Ends (s.nextMatch price other leavesQty) (fun r ↦ ∀ itr, r = some itr → P itr itr)
      fun h ↦ ¬ h.fault.Indexes := by
  unfold nextMatch
  split
  · exact fun _ hr ↦ by cases hr
  · rcases rel_cases (hb.best other) with ⟨hn, -⟩ | ⟨l, n, hl, hn, hln⟩
    · rw [hn]
      exact fun _ hr ↦ by cases hr
    · obtain rfl : l = n := Option.some.inj (hl.symm.trans hn)
      rw [hl]
      refine (ends_onBook ((matched_deref (hb.firstOrder hln)).ends (ends_deref _))).bind ?_
      rintro itr ⟨hp, -⟩
      split
      · exact fun _ hr ↦ by cases hr
      · exact fun _ hr ↦ Option.some.inj hr ▸ hp

theorem ends_matchLoop (hE : Covers G E) (fuel : ℕ) (hb : Moved G P Q s.book s.book)
    (leavesQty : Qty) :
    Ends (matchLoop o.tickerId o.clientId o.side o.clientOrderId id o.price other fuel s leavesQty)
      (fun r ↦ Traced G P Q s r.1) fun h ↦ E h.fault := by
  induction fuel generalizing s leavesQty with
  | zero => exact hE.other .diverges (by decide)
  | succ fuel ih =>
    refine ((ends_nextMatch hb _ _ _).imp_error fun h hh ↦ hE.other _ hh).bind fun r hr ↦ ?_
    cases r with
    | none => exact ⟨hb, rfl, rfl⟩
    | some itr =>
      refine (ends_matchOrder _ _ hb hE (hr itr rfl) leavesQty).bind fun r h₁ ↦ ?_
      exact (ih h₁.moved r.2).imp fun _ ↦ h₁.trans

theorem ends_checkForMatch (o : NewOrder) (id : OrderId) (hb : Moved G P Q s.book s.book)
    (hE : Covers G E) :
    Ends (s.checkForMatch o.clientId o.clientOrderId o.tickerId o.side o.price o.qty id)
      (fun r ↦ Traced G P Q s r.1) fun h ↦ E h.fault := by
  by_cases hs : o.side = .INVALID
  · rw [hs]
    exact ⟨hb, rfl, rfl⟩
  · rw [checkForMatch_eq s hs]
    exact ends_matchLoop hE _ hb _

theorem traced_trades (fuel : ℕ) (hb : Moved G P Q s.book s.book) {leavesQty : Qty} {x : Execution}
    (hx : x ∈ trades o id other fuel s leavesQty) :
    P x.itr x.itr ∧ x.passive.marketOrderId = (s.book.keyAt x.itr).marketOrderId := by
  induction fuel generalizing s leavesQty with
  | zero => cases hx
  | succ fuel ih =>
    have hnext := ends_nextMatch hb o.price other leavesQty
    rw [trades] at hx
    split at hx
    · next itr hn =>
      have hp : P itr itr := hnext.of_ok hn itr rfl
      rcases List.mem_cons.mp hx with rfl | hx
      · exact ⟨hp, rfl⟩
      · have hmatch := ends_matchOrder o id hb covers_true hp leavesQty
        split at hx
        · next s' leavesQty' hm =>
          have h₁ : Traced G P Q s s' := hmatch.of_ok hm
          rw [← h₁.keyAt]
          exact ih h₁.moved hx
        · cases hx
    · cases hx

theorem traced_tradesOf (hb : Moved G P Q s.book s.book) {x : Execution} (hx : x ∈ s.tradesOf o) :
    P x.itr x.itr ∧ x.passive.marketOrderId = (s.book.keyAt x.itr).marketOrderId := by
  by_cases hs : o.side = .INVALID
  · rw [tradesOf, hs] at hx
    cases hx
  · rw [tradesOf_eq s hs] at hx
    exact traced_trades (s := s.accepted o) _ hb hx

end Match

section Calls

theorem ends_getNextPriority (b : LevelBook MEOrderKey (ClientId × OrderId)) (price : Price) :
    Ends (b.getNextPriority price) (fun _ ↦ True) fun f ↦ ¬ f.Indexes := by
  unfold getNextPriority
  split
  · trivial
  · exact (ends_deref _).bind fun first _ ↦ (ends_deref _).bind fun last _ ↦ trivial

theorem ends_addResidual (hb : Moved G P Q s.book s.book) (hE : Covers G E) {clientId : ClientId}
    {clientOrderId newMarketOrderId : OrderId} {tickerId : TickerId} {price : Price}
    (hG : G ⟨tickerId, clientId, clientOrderId, newMarketOrderId⟩ price) (side : Side)
    (leavesQty : Qty) :
    Ends (s.addResidual clientId clientOrderId tickerId side price newMarketOrderId leavesQty)
      (fun s' ↦ (∃ P' Q' : Ptr → Ptr → Prop, Moved G P' Q' s'.book s'.book ∧
          ∀ p, P' p p → P p p ∨ s.book.orderPool.nextFreeIndex = p) ∧
        s'.book.keyAt = update s.book.keyAt s.book.orderPool.nextFreeIndex
          ⟨tickerId, clientId, clientOrderId, newMarketOrderId⟩ ∧
        s'.nextMarketOrderId = s.nextMarketOrderId)
      fun h ↦ E h.fault := by
  unfold addResidual
  refine (ends_onBook ((ends_getNextPriority s.book price).imp_error hE.other)).bind
    fun priority _ ↦ ?_
  have hnew : SameOrder G P (MEOrder.mk tickerId clientId clientOrderId newMarketOrderId side price
      leavesQty priority none none) (MEOrder.mk tickerId clientId clientOrderId newMarketOrderId side price
      leavesQty priority none none) := ⟨rfl, rfl, rfl, rfl, rfl, .none, .none, hG⟩
  refine (ends_onBook ((hb.allocateOrder hnew).ends ((ends_allocate _ _).imp_error hE.other))).bind ?_
  rintro ⟨order, pool⟩ ⟨⟨P', hp, hP', hb₁⟩, rfl, hget⟩
  have hkey := hE.noEntry _ _ (hb₁.order _ _ hp).known
  refine (ends_onBook ((hb₁.addOrder hp).ends (ends_addOrder hE.other hkey))).bind ?_
  rintro b ⟨⟨Q', hb₂⟩, hkeys⟩
  refine ⟨⟨P', Q', hb₂, fun p hpp ↦ (hP' p p hpp).imp_right Eq.symm⟩, ?_, rfl⟩
  have hkeys₁ : LevelBook.keyAt { s.book with orderPool := pool } =
      update s.book.keyAt s.book.orderPool.nextFreeIndex
        ⟨tickerId, clientId, clientOrderId, newMarketOrderId⟩ := by
    funext p
    simp only [keyAt, order, hget, update_apply]
    split <;> rfl
  exact hkeys.trans hkeys₁

theorem ends_add (hb : Moved G P Q s.book s.book) (hE : Covers G E) (hG : G (s.newKey o) o.price) :
    Ends (s.step (.add o)) (Placed G P s o) fun h ↦ E h.fault := by
  have hmatch := ends_checkForMatch (s := s.accepted o) o s.nextMarketOrderId hb hE
  have hslot : s.slot o = match (s.accepted o).checkForMatch o.clientId o.clientOrderId o.tickerId o.side
      o.price o.qty s.nextMarketOrderId with
    | .ok (s', leavesQty) => if leavesQty ≠ 0 then some s'.book.orderPool.nextFreeIndex else none
    | .error _ => none := rfl
  rw [step_add]
  cases hm : (s.accepted o).checkForMatch o.clientId o.clientOrderId o.tickerId o.side o.price o.qty
    s.nextMarketOrderId with
  | error h =>
    exact hmatch.of_error hm
  | ok r =>
    obtain ⟨s₁, leavesQty⟩ := r
    rw [hm] at hslot
    have h₁ : Traced G P Q (s.accepted o) s₁ := hmatch.of_ok hm
    rw [ok_bind]
    dsimp only at hslot ⊢
    by_cases hl : leavesQty ≠ 0
    · rw [if_pos hl] at hslot ⊢
      refine (ends_addResidual h₁.moved hE hG _ _).imp ?_
      rintro s' ⟨⟨P', Q', hb', hP'⟩, hkeys, hnext⟩
      refine ⟨⟨P', Q', hb', fun p hp ↦ (hP' p hp).imp_right ?_⟩, fun p hp ↦ ?_, fun p hp ↦ ?_,
        hnext.trans h₁.next⟩
      · exact fun he ↦ hslot.trans (congrArg some he)
      · rw [hkeys, ← Option.some.inj (hslot.symm.trans hp)]
        exact update_self ..
      · rw [hkeys, update_of_ne fun he ↦ hp (hslot.trans (congrArg some he.symm)), h₁.keyAt]
        rfl
    · rw [if_neg hl] at hslot ⊢
      refine ⟨⟨P, Q, h₁.moved, fun p hp ↦ .inl hp⟩, fun p hp ↦ ?_, fun p _ ↦ ?_, h₁.next⟩
      · cases hslot.symm.trans hp
      · rw [h₁.keyAt]
        rfl

theorem ends_findCancelable (hb : Moved G P Q s.book s.book) {clientId : ClientId} {orderId : OrderId}
    (hid : clientId < ME_MAX_NUM_CLIENTS → ¬ orderId < ME_MAX_ORDER_IDS → E .outOfRange) :
    Ends (s.findCancelable clientId orderId) (fun r ↦ ∀ p, r = some p → P p p) E := by
  unfold findCancelable
  split_ifs with hc ho
  · intro p hp
    have htable := hb.table (clientId, orderId)
    rw [hp] at htable
    cases htable with
    | some hp => exact hp
  · exact hid hc ho
  · exact fun _ hr ↦ by cases hr

theorem ends_cancel (hb : Moved G P Q s.book s.book) (hE : Covers G E) (clientId : ClientId)
    (orderId : OrderId) (tickerId : TickerId)
    (hid : clientId < ME_MAX_NUM_CLIENTS → ¬ orderId < ME_MAX_ORDER_IDS → E .outOfRange) :
    Ends (s.step (.cancel clientId orderId tickerId)) (Traced G P Q s) fun h ↦ E h.fault := by
  refine (ends_onBook (ends_findCancelable hb hid)).bind fun r hr ↦ ?_
  cases r with
  | none => exact ⟨hb, rfl, rfl⟩
  | some p =>
    have hp := hr p rfl
    have hkey := hE.noEntry _ _ (hb.order p p hp).known
    refine (ends_onBook ((hb.removeOrder hp).ends (ends_removeOrder hE.other hkey))).bind ?_
    exact fun b ⟨hmoved, hkeys⟩ ↦ ⟨hmoved, hkeys, rfl⟩

end Calls

theorem moved_new (tickerId : TickerId) :
    Moved G (fun _ _ ↦ False) (fun _ _ ↦ False) (new tickerId).book (new tickerId).book := by
  have hvacant : ∀ {T : Type} {n : ℕ} (t : T), 0 < n → (MemPool.new n t).Vacant n := fun t hn ↦
    ⟨rfl, hn, fun p _ ↦ by simp [MemPool.new, MemPool.Live]⟩
  exact ⟨⟨_, (hvacant _ (by decide)).rotated _⟩, ⟨_, (hvacant _ (by decide)).rotated _⟩,
    fun _ _ ↦ False.elim, fun _ _ ↦ False.elim, fun side ↦ by cases side <;> exact .none,
    fun _ _ _ ↦ .none, fun _ ↦ .none⟩

end LowLatency.Exchange.MEOrderBook
