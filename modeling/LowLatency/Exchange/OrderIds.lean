import LowLatency.Exchange.Feed
import LowLatency.Exchange.Provenance

namespace LowLatency.Exchange.MEOrderBook

open Common Book

/-- An update that speaks of an order has an id for which the tables of the receivers have an entry. -/
def InTables (u : MEMarketUpdate) : Prop :=
  u.type = .ADD ∨ u.type = .MODIFY ∨ u.type = .CANCEL → u.orderId < ME_MAX_ORDER_IDS

def SentInTables (outs : List Output) : Prop := ∀ u ∈ updates outs, InTables u

def HasIndex (key : MEOrderKey) (_ : Price) : Prop := key.marketOrderId < ME_MAX_ORDER_IDS

/-- All ids are within the tables: those in the updates sent and those of the orders at the ends of the
pointers. -/
structure Bounded (s : MEOrderBook) (next : OrderId) : Prop where
  book : ∃ P Q, Moved HasIndex P Q s.book s.book
  sent : SentInTables s.sent
  next_eq : s.nextMarketOrderId = next

def Keeps {α : Type} (x : Except Halt α) (R : α → Prop) : Prop := Ends x R (SentInTables ·.sent)

variable {s s' : MEOrderBook} {c : Call} {cs : List Call} {next : ℕ}
  {P Q : Ptr → Ptr → Prop}

theorem sentInTables_append {xs ys : List Output} :
    SentInTables (xs ++ ys) ↔ SentInTables xs ∧ SentInTables ys := by
  rw [SentInTables, updates_append, List.forall_mem_append]
  rfl

theorem SentByAdd.inTables {o : NewOrder} {outs : List Output} (ho : s.SentByAdd o outs)
    (h : s.Bounded next) (hid : next < ME_MAX_ORDER_IDS) : SentInTables outs := by
  obtain ⟨P, Q, hb⟩ := h.book
  obtain ⟨rest, rfl, hrest⟩ := ho
  have htrades : SentInTables ((s.tradesOf o).flatMap Execution.outputs) := by
    intro u hu
    obtain ⟨x, hx, hu⟩ := Execution.update_mem_outputs (mem_updates.mp hu)
    obtain ⟨hp, hkey⟩ := traced_tradesOf hb hx
    have hknown : (s.book.keyAt x.itr).marketOrderId < ME_MAX_ORDER_IDS := (hb.order _ _ hp).known
    obtain ⟨s', itr, leavesQty, rfl⟩ := mem_tradesOf hx
    rcases hu with rfl | rfl
    · simp [InTables, execution]
    · exact fun _ ↦ lt_of_eq_of_lt ((execution_order ..).trans hkey) hknown
  have hadd : SentInTables rest := by
    intro u hu
    obtain ⟨u', hu', -, hid'⟩ := hrest _ (mem_updates.mp hu)
    cases hu'
    exact fun _ ↦ lt_of_eq_of_lt (hid'.trans h.next_eq) hid
  exact sentInTables_append.mpr ⟨h.sent, sentInTables_append.mpr ⟨htrades, hadd⟩⟩

theorem keeps_step (h : s.Bounded next) (hid : next + (adds [c]).length ≤ ME_MAX_ORDER_IDS) :
    Keeps (s.step c) (Bounded · (next + (adds [c]).length)) := by
  obtain ⟨P, Q, hb⟩ := h.book
  cases c with
  | add o =>
    have hid : next < ME_MAX_ORDER_IDS := hid
    have hnew : s.nextMarketOrderId < ME_MAX_ORDER_IDS := lt_of_eq_of_lt h.next_eq hid
    have hadd := ends_add (o := o) hb covers_true (show HasIndex (s.newKey o) o.price from hnew)
    refine ((hadd.and (ends_add_sent s o)).imp_error fun _ he ↦ he.2.inTables h hid).imp ?_
    rintro s' ⟨hplaced, hsent⟩
    obtain ⟨P', Q', hb', -⟩ := hplaced.moved
    refine ⟨⟨P', Q', hb'⟩, hsent.inTables h hid, hplaced.next.trans ?_⟩
    rw [h.next_eq]
    exact Nat.mod_eq_of_lt (lt_of_le_of_lt (Nat.succ_le_of_lt hid) (by decide))
  | cancel clientId orderId tickerId =>
    have hcancel := ends_cancel hb covers_true clientId orderId tickerId fun _ _ ↦ trivial
    have hfind : Ends (s.findCancelable clientId orderId) (fun r ↦ ∀ p, r = some p → P p p)
        fun _ ↦ True := ends_findCancelable hb fun _ _ ↦ trivial
    refine ((hcancel.and (ends_cancel_sent s clientId orderId tickerId)).imp_error
      fun _ he ↦ ?_).imp ?_
    · rw [he.2]
      exact h.sent
    · rintro s' ⟨ht, outs, houts, hkeys⟩
      refine ⟨⟨P, Q, ht.moved⟩, ?_, ht.next.trans h.next_eq⟩
      rw [houts]
      refine sentInTables_append.mpr ⟨h.sent, fun u hu _ ↦ ?_⟩
      obtain ⟨p, hp, hkey⟩ := hkeys u hu
      have hknown : (s.book.order p).key.marketOrderId < ME_MAX_ORDER_IDS :=
        (hb.order _ _ (hfind.of_ok hp p rfl)).known
      exact lt_of_eq_of_lt hkey hknown

theorem bounded_new (tickerId : TickerId) : (new tickerId).Bounded 1 where
  book := ⟨_, _, moved_new tickerId⟩
  sent := nofun
  next_eq := rfl

theorem bounded_of_run {tickerId : TickerId} (hfew : (adds cs).length < ME_MAX_ORDER_IDS)
    (hrun : (new tickerId).run cs = .ok s) : s.Bounded ((adds cs).length + 1) := by
  refine run_history (I := fun cs s ↦ (adds cs).length < ME_MAX_ORDER_IDS →
    s.Bounded ((adds cs).length + 1)) (fun _ ↦ bounded_new tickerId) (fun cs c s s' hs hc hlt ↦ ?_)
    hrun hfew
  rw [adds_append, List.length_append] at hlt ⊢
  have h := hs (lt_of_le_of_lt (Nat.le_add_right _ _) hlt)
  have hkeeps := keeps_step (c := c) h (by omega)
  rw [Nat.add_right_comm]
  exact hkeeps.of_ok hc

/-- Fewer new orders than the tables have entries get ids within the tables, whatever the calls. -/
theorem sentInTables_of_run {tickerId : TickerId} (hfew : (adds (cs ++ [c])).length < ME_MAX_ORDER_IDS)
    (hrun : (new tickerId).run cs = .ok s) : SentInTables (s.sent ++ s.outputsOf c) := by
  rw [adds_append, List.length_append] at hfew
  have h := bounded_of_run (lt_of_le_of_lt (Nat.le_add_right _ _) hfew) hrun
  refine sentInTables_append.mpr ⟨h.sent, fun u hu ↦ ?_⟩
  have hkeeps := keeps_step (c := c) h (by omega)
  have hsub : ∀ outs : List Output, u ∈ updates (outs.drop s.sent.length) → u ∈ updates outs :=
    fun outs ↦ fun hu ↦ ((List.drop_sublist _ outs).filterMap _).mem hu
  unfold outputsOf at hu
  cases hc : s.step c with
  | ok s' =>
    rw [hc] at hu
    exact (hkeeps.of_ok hc).sent u (hsub _ hu)
  | error e =>
    rw [hc] at hu
    exact hkeeps.of_error hc u (hsub _ hu)

end LowLatency.Exchange.MEOrderBook
