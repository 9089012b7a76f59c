import LowLatency.Exchange.Messages
import LowLatency.Exchange.Provenance

namespace LowLatency.Exchange

open Common Book Function

namespace MEOrderBook

def Crosses (s : MEOrderBook) (o : NewOrder) : Prop :=
  o.side ≠ .INVALID ∧ o.qty ≠ 0 ∧ ∃ l ∈ s.book.best (against o.side), ∃ itr ∈ s.book.firstOrder l,
    ¬ o.price < (s.book.order itr).price

instance : DecidableRel Crosses := fun _ _ ↦ inferInstanceAs (Decidable (_ ∧ _ ∧ _))

/-- What is sent of the incoming order has the id of its acceptance. -/
def CarriesId (s : MEOrderBook) (o : NewOrder) : Prop :=
  (∀ x ∈ s.tradesOf o, x.aggressor.marketOrderId = (s.acceptance o).marketOrderId) ∧
  ∀ u ∈ updates (s.outputsOf (.add o)), u.type = .ADD →
    u.orderId = (s.acceptance o).marketOrderId

variable {s : MEOrderBook} {o : NewOrder} {id : OrderId} {other : Side}

section Outputs

theorem filled_flatMap {xs : List Execution}
    (hxs : ∀ x ∈ xs, x.aggressor.type = .FILLED ∧ x.passive.type = .FILLED) :
    (responses (xs.flatMap Execution.outputs)).filter (·.type = .FILLED) =
      xs.flatMap fun x ↦ [x.aggressor, x.passive] := by
  induction xs with
  | nil => rfl
  | cons x xs ih =>
    obtain ⟨ha, hp⟩ := hxs x List.mem_cons_self
    rw [List.flatMap_cons, List.flatMap_cons, ← ih fun y hy ↦ hxs y (List.mem_cons_of_mem x hy)]
    simp [Execution.outputs, responses, ha, hp]

theorem filled_outputsOf (s : MEOrderBook) (o : NewOrder) :
    (responses (s.outputsOf (.add o))).filter (·.type = .FILLED) =
      (s.tradesOf o).flatMap fun x ↦ [x.aggressor, x.passive] := by
  obtain ⟨rest, hout, hrest⟩ := exists_outputsOf_add s o
  have hnone : responses rest = [] := by
    refine List.filterMap_eq_nil_iff.mpr fun out hout ↦ ?_
    obtain ⟨u, rfl, -⟩ := hrest out hout
    rfl
  have hpairs : ∀ x ∈ s.tradesOf o, x.aggressor.type = .FILLED ∧ x.passive.type = .FILLED := by
    intro x hx
    obtain ⟨s', itr, leavesQty, rfl⟩ := mem_tradesOf hx
    exact ⟨rfl, rfl⟩
  have happend : ∀ xs ys : List Output, responses (xs ++ ys) = responses xs ++ responses ys :=
    fun xs ys ↦ List.filterMap_append
  rw [← filled_flatMap hpairs, hout, happend, hnone, List.append_nil]
  exact List.filter_cons_of_neg (by simp [acceptance])

theorem carries_add {u : MEMarketUpdate} (hu : u ∈ updates (s.outputsOf (.add o))) (ht : u.type = .ADD) :
    u.orderId = s.nextMarketOrderId := by
  obtain ⟨rest, hout, hrest⟩ := exists_outputsOf_add s o
  have hmem := mem_updates.mp hu
  rw [hout, List.mem_append, List.mem_cons] at hmem
  rcases hmem with (hacc | hmem) | hmem
  · cases hacc
  · obtain ⟨x, hx, hmem⟩ := Execution.update_mem_outputs hmem
    obtain ⟨s', itr, leavesQty, rfl⟩ := mem_tradesOf hx
    rcases hmem with rfl | rfl
    · cases ht
    · unfold execution at ht
      dsimp only at ht
      split at ht <;> cases ht
  · obtain ⟨u', hu', -, hid⟩ := hrest _ hmem
    cases hu'
    exact hid

end Outputs

section Aggressor

theorem nextMatch_some {price : Price} {leavesQty : Qty} {itr : Ptr} :
    s.nextMatch price other leavesQty = .ok (some itr) ↔ leavesQty ≠ 0 ∧
      ∃ l ∈ s.book.best other, itr ∈ s.book.firstOrder l ∧ ¬ price < (s.book.order itr).price := by
  unfold nextMatch
  by_cases hl : leavesQty = 0
  · simp [hl]
  cases hb : s.book.best other with
  | none => simp [hl]
  | some l =>
    cases hf : s.book.firstOrder l with
    | none => simp [hl, hf, deref]
    | some p =>
      rw [if_neg hl]
      simp only [hf, deref_some, onBook_ok, ok_bind, Option.mem_some_iff]
      constructor
      · intro h
        split at h
        · cases h
        · next hp =>
          cases h
          exact ⟨hl, l, rfl, hf, hp⟩
      · rintro ⟨-, _, rfl, hitr, hp⟩
        obtain rfl : p = itr := Option.some.inj (hf.symm.trans hitr)
        exact if_neg hp

theorem trades_eq_nil_iff (fuel : ℕ) (leavesQty : Qty) : trades o id other (fuel + 1) s leavesQty = [] ↔
    ∀ itr, s.nextMatch o.price other leavesQty ≠ .ok (some itr) := by
  rw [trades]
  split
  · next itr hn => exact iff_of_false (by simp) fun h ↦ h itr hn
  · next hn => exact iff_of_true rfl hn

theorem tradesOf_eq_nil_iff : s.tradesOf o = [] ↔ ¬ s.Crosses o := by
  by_cases hs : o.side = .INVALID
  · rw [tradesOf, hs]
    exact iff_of_true rfl fun h ↦ h.1 hs
  · rw [tradesOf_eq s hs, trades_eq_nil_iff]
    simp only [ne_eq, nextMatch_some, Crosses, hs, not_false_eq_true, true_and]
    constructor
    · rintro h ⟨hq, l, hl, itr, hitr, hp⟩
      exact h itr ⟨hq, l, hl, hitr, hp⟩
    · rintro h itr ⟨hq, l, hl, hitr, hp⟩
      exact h ⟨hq, l, hl, itr, hitr, hp⟩

/-- All of an order's messages have one id, if and only if it trades nothing or its id fits in 32 bits. -/
theorem carriesId_iff : s.CarriesId o ↔ (s.Crosses o → s.nextMarketOrderId < 2 ^ 32) := by
  have hid : ∀ x ∈ s.tradesOf o, x.aggressor.marketOrderId = s.nextMarketOrderId % 2 ^ 32 := by
    intro x hx
    obtain ⟨s', itr, leavesQty, rfl⟩ := mem_tradesOf hx
    rfl
  constructor
  · intro h hcross
    obtain ⟨x, hx⟩ := List.exists_mem_of_ne_nil _ (mt tradesOf_eq_nil_iff.mp (not_not.mpr hcross))
    have hmod : s.nextMarketOrderId % 2 ^ 32 = s.nextMarketOrderId := (hid x hx).symm.trans (h.1 x hx)
    exact hmod ▸ Nat.mod_lt _ (by decide)
  · refine fun h ↦ ⟨fun x hx ↦ ?_, fun u ↦ carries_add⟩
    have hcross : s.Crosses o := by
      by_contra hn
      rw [tradesOf_eq_nil_iff.mpr hn] at hx
      cases hx
    exact (hid x hx).trans (Nat.mod_eq_of_lt (h hcross))

end Aggressor

end MEOrderBook

structure Report where
  order : Option ℕ
  id : OrderId
  deriving DecidableEq

/-- A book with what it takes to tell the orders apart that it reports on. The numbers of the orders count
the calls of `add`; the order in a block is the one that was put there last. -/
structure IdLedger where
  book : MEOrderBook
  accepted : ℕ
  owner : Ptr → Option ℕ
  reports : List Report

namespace IdLedger

open MEOrderBook

def start (tickerId : TickerId) (first : OrderId) : IdLedger where
  book := { new tickerId with nextMarketOrderId := first }
  accepted := 0
  owner := fun _ ↦ none
  reports := []

def reportsOf (l : IdLedger) (o : NewOrder) : List Report :=
  (l.book.tradesOf o).flatMap fun x ↦
    [⟨some l.accepted, x.aggressor.marketOrderId⟩, ⟨l.owner x.itr, x.passive.marketOrderId⟩]

def enter (l : IdLedger) (s : MEOrderBook) : Call → IdLedger
  | .add o =>
    { book := s
      accepted := l.accepted + 1
      owner := fun p ↦ if l.book.slot o = some p then some l.accepted else l.owner p
      reports := l.reports ++ l.reportsOf o }
  | .cancel _ _ _ => { l with book := s }

def step (l : IdLedger) (c : Call) : Except Halt IdLedger := (l.book.step c).map fun s ↦ l.enter s c

/-- The counter has not come round yet, and an order that trades has an id of 32 bits. -/
def InRange (l : IdLedger) : Call → Prop
  | .add o => l.accepted < 2 ^ 64 ∧ (l.book.Crosses o → l.book.nextMarketOrderId < 2 ^ 32)
  | .cancel _ _ _ => True

instance : DecidableRel InRange
  | _, .add _ => inferInstanceAs (Decidable (_ ∧ (_ → _)))
  | _, .cancel _ _ _ => inferInstanceAs (Decidable True)

/-- Each report is about an accepted order, and no two orders are reported under one id. -/
def Distinct (rs : List Report) : Prop :=
  ∀ r ∈ rs, r.order.isSome ∧ ∀ r' ∈ rs, r.order ≠ r'.order → r.id ≠ r'.id

def idOf (first n : ℕ) : OrderId := (first + n) % 2 ^ 64

structure Kept (first : ℕ) (l : IdLedger) : Prop where
  owned : ∃ P Q, Moved (fun _ _ ↦ True) P Q l.book.book l.book.book ∧ ∀ p, P p p →
    ∃ n < l.accepted, l.owner p = some n ∧ (l.book.book.keyAt p).marketOrderId = idOf first n
  next : l.book.nextMarketOrderId = idOf first l.accepted
  reports : ∀ r ∈ l.reports, ∃ n < l.accepted, r.order = some n ∧ r.id = idOf first n

variable {first : ℕ} {l l' : IdLedger} {c : Call} {o : NewOrder}

theorem idOf_inj {m n : ℕ} (hm : m < 2 ^ 64) (hn : n < 2 ^ 64) (h : idOf first m = idOf first n) :
    m = n := by
  have hmod : first + m ≡ first + n [MOD 2 ^ 64] := h
  exact Nat.ModEq.eq_of_lt_of_lt (Nat.ModEq.add_left_cancel' first hmod) hm hn

theorem run_book (l : IdLedger) (cs : List Call) :
    (cs.foldlM step l).map IdLedger.book = l.book.run cs := by
  induction cs generalizing l with
  | nil => rfl
  | cons c cs ih =>
    rw [List.foldlM_cons, run, List.foldlM_cons, step]
    cases hc : l.book.step c with
    | error h => rfl
    | ok s =>
      have hbook : (l.enter s c).book = s := by cases c <;> rfl
      exact (ih (l.enter s c)).trans (by rw [hbook]; rfl)

theorem map_id_reportsOf (l : IdLedger) (o : NewOrder) : (l.reportsOf o).map Report.id =
    ((responses (l.book.outputsOf (.add o))).filter (·.type = .FILLED)).map
      MEClientResponse.marketOrderId := by
  rw [filled_outputsOf, reportsOf, List.map_flatMap, List.map_flatMap]
  rfl

theorem kept_start (tickerId : TickerId) (hfirst : first < 2 ^ 64) : (start tickerId first).Kept first where
  owned := ⟨_, _, moved_new tickerId, fun _ ↦ False.elim⟩
  next := (Nat.mod_eq_of_lt hfirst).symm
  reports := fun _ hr ↦ by cases hr

theorem Kept.reportsOf (h : l.Kept first) (hok : l.InRange (.add o)) :
    ∀ r ∈ l.reportsOf o, ∃ n < l.accepted + 1, r.order = some n ∧ r.id = idOf first n := by
  obtain ⟨P, Q, hb, howner⟩ := h.owned
  intro r hr
  obtain ⟨x, hx, hr⟩ := List.mem_flatMap.mp hr
  simp only [List.mem_cons, List.not_mem_nil, or_false] at hr
  rcases hr with rfl | rfl
  · have hid := (carriesId_iff.mpr hok.2).1 x hx
    exact ⟨_, Nat.lt_succ_self _, rfl, hid.trans h.next⟩
  · obtain ⟨hp, hid⟩ := traced_tradesOf hb hx
    obtain ⟨n, hn, hown, hkey⟩ := howner _ hp
    exact ⟨n, Nat.lt_succ_of_lt hn, hown, hid.trans hkey⟩

theorem Kept.ends_step (h : l.Kept first) (hok : l.InRange c) :
    Ends (l.step c) (Kept first) fun _ ↦ True := by
  obtain ⟨P, Q, hb, howner⟩ := h.owned
  refine Ends.map ?_
  cases c with
  | cancel clientId orderId tickerId =>
    refine (ends_cancel hb covers_true clientId orderId tickerId fun _ _ ↦ trivial).imp fun s ht ↦ ?_
    refine ⟨⟨P, Q, ht.moved, fun p hp ↦ ?_⟩, ht.next.trans h.next, h.reports⟩
    obtain ⟨n, hn, hown, hkey⟩ := howner p hp
    exact ⟨n, hn, hown, (congrArg MEOrderKey.marketOrderId (congrFun ht.keyAt p)).trans hkey⟩
  | add o =>
    refine (ends_add (o := o) hb covers_true trivial).imp fun s hp ↦ ?_
    obtain ⟨P', Q', hb', hP'⟩ := hp.moved
    have hbook : (l.enter s (.add o)).book = s := rfl
    refine ⟨⟨P', Q', hb', fun p hpp ↦ ?_⟩, ?_, fun r hr ↦ ?_⟩
    · by_cases hslot : l.book.slot o = some p
      · refine ⟨l.accepted, Nat.lt_succ_self _, if_pos hslot, ?_⟩
        rw [hbook, hp.keyAt_slot p hslot]
        exact h.next
      · obtain ⟨n, hn, hown, hkey⟩ := howner p ((hP' p hpp).resolve_right hslot)
        refine ⟨n, Nat.lt_succ_of_lt hn, (if_neg hslot).trans hown, ?_⟩
        rw [hbook, hp.keyAt_ne p hslot]
        exact hkey
    · refine hp.next.trans ?_
      rw [h.next, idOf, Nat.mod_add_mod]
      rfl
    · rcases List.mem_append.mp hr with hr | hr
      · obtain ⟨n, hn, hr⟩ := h.reports r hr
        exact ⟨n, Nat.lt_succ_of_lt hn, hr⟩
      · exact h.reportsOf hok r hr

theorem Kept.step (h : l.Kept first) (hok : l.InRange c) (hstep : l.step c = .ok l') : l'.Kept first :=
  (h.ends_step hok).of_ok hstep

theorem Kept.distinct (h : l.Kept first) (hok : l.InRange (.add o)) :
    Distinct (l.reports ++ l.reportsOf o) := by
  have hall : ∀ r ∈ l.reports ++ l.reportsOf o, ∃ n < 2 ^ 64, r.order = some n ∧ r.id = idOf first n := by
    intro r hr
    rcases List.mem_append.mp hr with hr | hr
    · obtain ⟨n, hn, hr⟩ := h.reports r hr
      exact ⟨n, hn.trans hok.1, hr⟩
    · obtain ⟨n, hn, hr⟩ := h.reportsOf hok r hr
      exact ⟨n, lt_of_lt_of_le hn hok.1, hr⟩
  intro r hr
  obtain ⟨n, hn, hro, hrid⟩ := hall r hr
  refine ⟨by rw [hro]; rfl, fun r' hr' hne hid ↦ hne ?_⟩
  obtain ⟨n', hn', hro', hrid'⟩ := hall r' hr'
  rw [hro, hro', idOf_inj hn hn' (hrid.symm.trans (hid.trans hrid'))]

/-- An order has one id in all that is sent of it while its fills meet ids of 32 bits, and under this
condition no two orders are reported under one id, from whatever number the ids are given out. The ids
reported are those in the responses about fills. -/
theorem market_order_ids (l : IdLedger) (o : NewOrder) :
    (l.book.CarriesId o ↔ (l.book.Crosses o → l.book.nextMarketOrderId < 2 ^ 32)) ∧
    (l.reportsOf o).map Report.id =
      ((responses (l.book.outputsOf (.add o))).filter (·.type = .FILLED)).map
        MEClientResponse.marketOrderId ∧
    ∀ (tickerId : TickerId) (first : OrderId) (cs : List Call), first < 2 ^ 64 →
      Guarded step InRange (start tickerId first) cs → cs.foldlM step (start tickerId first) = .ok l →
      l.InRange (.add o) → Distinct (l.reports ++ l.reportsOf o) := by
  refine ⟨carriesId_iff, map_id_reportsOf l o, fun tickerId first cs hfirst hg hrun hok ↦ ?_⟩
  have h : l.Kept first := hg.invariant (fun _ _ _ ↦ Kept.step) (kept_start tickerId hfirst) hrun
  exact h.distinct hok

theorem market_order_ids_round : ∃ l, [Call.add ⟨1, 1, 0, .SELL, 100, 10⟩,
    .add ⟨2, 1, 0, .BUY, 100, 4⟩].foldlM step (start 0 (2 ^ 64 - 1)) = .ok l ∧
    l.book.CarriesId ⟨3, 1, 0, .BUY, 100, 9⟩ ∧
    Distinct (l.reports ++ l.reportsOf ⟨3, 1, 0, .BUY, 100, 9⟩) := by
  obtain ⟨l, hl, hok⟩ := Yields.exists_ok (show Yields ([Call.add ⟨1, 1, 0, .SELL, 100, 10⟩,
    .add ⟨2, 1, 0, .BUY, 100, 4⟩].foldlM step (start 0 (2 ^ 64 - 1)))
      (InRange · (.add ⟨3, 1, 0, .BUY, 100, 9⟩)) by decide +kernel)
  obtain ⟨hcarries, -, hdistinct⟩ := market_order_ids l ⟨3, 1, 0, .BUY, 100, 9⟩
  exact ⟨l, hl, hcarries.mpr hok.2,
    hdistinct 0 (2 ^ 64 - 1) _ (by decide) (by decide +kernel) hl hok⟩

/-- The order with id `2 ^ 32 + 1` is reported as filled under the id 1. -/
theorem id_truncated : ∃ s, ({ new 0 with nextMarketOrderId := 2 ^ 32 } : MEOrderBook).run
    [.add ⟨1, 1, 0, .SELL, 100, 10⟩] = .ok s ∧ ¬ s.CarriesId ⟨2, 1, 0, .BUY, 100, 4⟩ := by
  obtain ⟨s, hs, x, hx, hid⟩ := Yields.exists_ok (show Yields
    (({ new 0 with nextMarketOrderId := 2 ^ 32 } : MEOrderBook).run [.add ⟨1, 1, 0, .SELL, 100, 10⟩])
      fun s ↦ ∃ x ∈ s.tradesOf ⟨2, 1, 0, .BUY, 100, 4⟩, x.aggressor.marketOrderId ≠
        (s.acceptance ⟨2, 1, 0, .BUY, 100, 4⟩).marketOrderId by decide +kernel)
  exact ⟨s, hs, fun h ↦ hid (h.1 x hx)⟩

end IdLedger

end LowLatency.Exchange
