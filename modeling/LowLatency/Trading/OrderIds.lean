import LowLatency.Exchange.OrderIds
import LowLatency.Exchange.SnapshotSynthesizer
import LowLatency.Trading.MarketOrderBook

namespace LowLatency.Trading

open Common Book Exchange
open MEOrderBook (NewOrder)

/-- No `at()` of the client's order table or of the synthesizer's goes out of range with this id. -/
structure Indexable (orderId : OrderId) : Prop where
  lookup : ∀ b : LevelBook MarketOrderKey OrderId,
    MarketOrderBook.orderAt b orderId ≠ .error .outOfRange
  store : ∀ (b : LevelBook MarketOrderKey OrderId) (order : Option Ptr),
    b.setTable ⟨orderId⟩ order ≠ .error .outOfRange
  snapshotLookup : ∀ (v : SnapshotSynthesizer) (tickerId : TickerId),
    v.orderAt tickerId orderId ≠ .error .outOfRange
  snapshotStore : ∀ (v : SnapshotSynthesizer) (tickerId : TickerId) (order : Option Ptr),
    v.setOrder tickerId orderId order ≠ .error .outOfRange

theorem indexable_iff {orderId : OrderId} : Indexable orderId ↔ orderId < ME_MAX_ORDER_IDS := by
  constructor
  · intro h
    by_contra hge
    exact h.snapshotLookup .new 0 (by rw [SnapshotSynthesizer.orderAt, if_neg hge])
  · intro hlt
    constructor
    · intro b
      rw [MarketOrderBook.orderAt, if_pos hlt]
      cases b.orderTable orderId <;> simp [deref]
    · intro b order
      have hentry : TableKey.entry (⟨orderId⟩ : MarketOrderKey) = some orderId := if_pos hlt
      rw [LevelBook.setTable, hentry]
      simp
    · intro v tickerId
      rw [SnapshotSynthesizer.orderAt, if_pos hlt]
      simp
    · intro v tickerId order
      rw [SnapshotSynthesizer.setOrder, if_pos hlt]
      simp

/-- The consumers can look up every order of which the updates speak. -/
def Usable (us : List MEMarketUpdate) : Prop :=
  ∀ u ∈ us, u.type = .ADD ∨ u.type = .MODIFY ∨ u.type = .CANCEL → Indexable u.orderId

section Exhaustion

variable {s : MEOrderBook} {lp : Ptr} {e : Entry MEOrderKey} {k : ℕ}

def sellAll : NewOrder := ⟨1, 1, 0, .SELL, 100, 2 ^ 32 - 1⟩

def buyOne (price : Price) : NewOrder := ⟨2, 1, 0, .BUY, price, 1⟩

def buys (k : ℕ) : List MEOrderBook.Call := .add sellAll :: List.replicate k (.add (buyOne 100))

theorem step_buyOne (hs : s.Sound) (hlad : s.ladder = ⟨[], [⟨lp, 100, [e]⟩]⟩) (hp : e.price = 100)
    (hq : 1 < e.qty) : ∃ s', s.step (.add (buyOne 100)) = .ok s' ∧ s'.Sound ∧
      s'.nextMarketOrderId = (s.nextMarketOrderId + 1) % 2 ^ 64 ∧
      s'.ladder = ⟨[], [⟨lp, 100, [{ e with qty := e.qty - 1 }]⟩]⟩ := by
  have hcross : s.ladder.crossing .BUY 100 = [e] := by simp [hlad, Ladder.crossing, against, hp]
  have hrests : ¬ s.ladder.Rests .BUY 100 1 := by
    rw [Ladder.Rests, hcross]
    simp
    omega
  have hadm : s.Admitted (.add (buyOne 100)) := ⟨by decide, fun hr ↦ absurd hr hrests⟩
  cases hrun : s.step (.add (buyOne 100)) with
  | error h => exact absurd (MEOrderBook.add_error hs hadm hrun).1 hrests
  | ok s' =>
    refine ⟨s', rfl, hs.step hadm hrun, ?_⟩
    cases hs.outcome hadm hrun with
    | rested lp hr => exact absurd hr hrests
    | traded _ hlad' _ hnext =>
      refine ⟨hnext, hlad'.trans ?_⟩
      have hfills : s.ladder.fills .BUY 100 1 = [⟨e, 1, 0⟩] := by
        rw [Ladder.fills, hcross, sweep_cons Nat.one_ne_zero, Nat.min_eq_left hq.le]
        simp
      have htrade : s.ladder.trade ⟨e, 1, 0⟩ = s.ladder.setQty e.ptr (e.qty - 1) := if_neg hq.ne'
      calc s.ladder.traded (s.ladder.fills .BUY 100 1) = s.ladder.setQty e.ptr (e.qty - 1) := by
            rw [hfills, Ladder.traded_cons, htrade, Ladder.traded_nil]
        _ = _ := by simp [hlad, Ladder.setQty, setQtyIn, withQty]

theorem run_buys (k : ℕ) (hk : k + 1 < 2 ^ 32) : ∃ s, (MEOrderBook.new 0).run (buys k) = .ok s ∧
    s.Sound ∧ s.nextMarketOrderId = k + 2 ∧ ∃ lp e, s.ladder = ⟨[], [⟨lp, 100, [e]⟩]⟩ ∧
      e.price = 100 ∧ e.qty + k = 2 ^ 32 - 1 := by
  induction k with
  | zero =>
    obtain ⟨s, hrun, hnext, hlad⟩ := Yields.exists_ok (show Yields ((MEOrderBook.new 0).run (buys 0))
      fun s ↦ s.nextMarketOrderId = 2 ∧ s.ladder =
        ⟨[], [⟨0, 100, [⟨0, ⟨0, 1, 1, 1⟩, .SELL, 100, 2 ^ 32 - 1, 1⟩]⟩]⟩ by decide +kernel)
    have hs : s.Sound := MEOrderBook.sound_of_run (by decide +kernel) hrun
    exact ⟨s, hrun, hs, hnext, _, _, hlad, rfl, rfl⟩
  | succ k ih =>
    obtain ⟨s, hrun, hs, hnext, lp, e, hlad, hp, hq⟩ := ih (by omega)
    obtain ⟨s', hstep, hs', hnext', hlad'⟩ := step_buyOne hs hlad hp (by omega)
    have hbuys : buys (k + 1) = buys k ++ [.add (buyOne 100)] := by
      rw [buys, buys, List.replicate_succ', List.cons_append]
    refine ⟨s', ?_, hs', ?_, lp, _, hlad', hp, ?_⟩
    · rw [hbuys]
      exact (foldlM_concat _ _ _ _ hrun).trans hstep
    · rw [hnext', hnext]
      exact Nat.mod_eq_of_lt (by omega)
    · dsimp only
      omega

theorem add_after_buys (k : ℕ) (hk : k + 1 < 2 ^ 32) : ∃ s, (MEOrderBook.new 0).run (buys k) = .ok s ∧
    ∃ u ∈ updates (s.outputsOf (.add (buyOne 99))), u.type = .ADD ∧ u.orderId = k + 2 := by
  obtain ⟨s, hrun, hs, hnext, lp, e, hlad, hp, -⟩ := run_buys k hk
  refine ⟨s, hrun, ?_⟩
  have hcross : s.ladder.crossing .BUY 99 = [] := by simp [hlad, Ladder.crossing, against, hp]
  have hswept : s.ladder.swept .BUY 99 = s.ladder := by
    rw [Ladder.swept, hcross]
    simp [hlad, dropOrders]
  have hslot : priceToIndex 100 ≠ priceToIndex 99 := by decide
  have hadm : s.Admitted (.add (buyOne 99)) := by
    refine ⟨by decide, fun _ ↦ ?_⟩
    change (s.ladder.swept .BUY 99).Admits .BUY 99
    rw [hswept, hlad]
    exact ⟨fun l hl hi ↦ by simp_all [Ladder.levels], .inr fun l hl ↦ by cases hl⟩
  cases hstep : s.step (.add (buyOne 99)) with
  | error h =>
    obtain ⟨-, -, hroom, -⟩ := MEOrderBook.add_error hs hadm hstep
    have hentries : s.ladder.entries.length = 1 := by rw [hlad]; rfl
    have hlevels : s.ladder.levels.length = 1 := by rw [hlad]; rfl
    change _ ≤ (s.ladder.swept .BUY 99).entries.length + 1 ∨ _ ∧
      _ ≤ (s.ladder.swept .BUY 99).levels.length + 1 ∨ _ at hroom
    rw [hswept, hentries, hlevels, hs.orders, hs.levels] at hroom
    rcases hroom with hfull | ⟨-, hfull⟩ | hkey
    · exact absurd hfull (by decide)
    · exact absurd hfull (by decide)
    · exact absurd (show 0 < ME_MAX_NUM_CLIENTS ∧ 1 < ME_MAX_ORDER_IDS by decide) hkey
  | ok s' =>
    cases hs.outcome hadm hstep with
    | traded hr =>
      refine absurd ?_ hr
      change offered (s.ladder.crossing .BUY 99) < 1
      rw [hcross]
      decide
    | rested lp hr _ hsent =>
      obtain ⟨u, hu, ht, hid⟩ : ∃ u, updates [restOutput (buyOne 99) (restingEntry s s.ladder
          (buyOne 99))] = [u] ∧ u.type = .ADD ∧ u.orderId = s.nextMarketOrderId := ⟨_, rfl, rfl, rfl⟩
      rw [MEOrderBook.outputsOf_ok hstep hsent, updates_append, hu]
      exact ⟨u, by simp, ht, hid.trans hnext⟩

theorem length_adds_buys (k : ℕ) : (adds (buys k ++ [.add (buyOne 99)])).length ≤ k + 2 := by
  refine (List.length_filterMap_le _ _).trans ?_
  simp [buys]

theorem unusable_after_buys (k : ℕ) (hk : k + 1 < 2 ^ 32) (hmax : ME_MAX_ORDER_IDS ≤ k + 2) :
    ∃ s, (MEOrderBook.new 0).run (buys k) = .ok s ∧
      ¬ Usable (updates (s.sent ++ s.outputsOf (.add (buyOne 99)))) := by
  obtain ⟨s, hrun, u, hu, ht, hid⟩ := add_after_buys k hk
  refine ⟨s, hrun, fun h ↦ ?_⟩
  have hindex := h u (by rw [updates_append]; exact List.mem_append_right _ hu) (.inl ht)
  rw [indexable_iff, hid] at hindex
  exact absurd hmax (Nat.not_le_of_lt hindex)

end Exhaustion

theorem usable_of_run {tickerId : TickerId} {cs : List MEOrderBook.Call} {c : MEOrderBook.Call}
    {s : MEOrderBook} (hfew : (adds (cs ++ [c])).length < ME_MAX_ORDER_IDS)
    (hrun : (MEOrderBook.new tickerId).run cs = .ok s) : Usable (updates (s.sent ++ s.outputsOf c)) :=
  fun u hu ht ↦ indexable_iff.mpr (MEOrderBook.sentInTables_of_run hfew hrun u hu ht)

/-- A run has usable ids if the tables have an entry for each of its new orders, and all runs of at
most `n` new orders have them only then. -/
theorem ids_usable_iff (n : ℕ) :
    (∀ tickerId cs c s, (adds (cs ++ [c])).length < ME_MAX_ORDER_IDS →
      (MEOrderBook.new tickerId).run cs = .ok s → Usable (updates (s.sent ++ s.outputsOf c))) ∧
    ((∀ tickerId cs c s, (adds (cs ++ [c])).length ≤ n →
      (MEOrderBook.new tickerId).run cs = .ok s → Usable (updates (s.sent ++ s.outputsOf c))) ↔
    n < ME_MAX_ORDER_IDS) := by
  refine ⟨fun tickerId cs c s hfew hrun ↦ usable_of_run hfew hrun, fun h ↦ ?_, ?_⟩
  · by_contra hge
    obtain ⟨k, hk, hfits⟩ : ∃ k, k + 2 = ME_MAX_ORDER_IDS ∧ k + 1 < 2 ^ 32 :=
      ⟨ME_MAX_ORDER_IDS - 2, by decide⟩
    obtain ⟨s, hrun, hnot⟩ := unusable_after_buys k hfits hk.ge
    refine hnot (h 0 _ _ s ((length_adds_buys k).trans ?_) hrun)
    rw [hk]
    exact Nat.not_lt.mp hge
  · exact fun hn tickerId cs c s hadds hrun ↦ usable_of_run (lt_of_le_of_lt hadds hn) hrun

/-- One order too many comes to rest. -/
theorem last_id_unusable : ∃ s, (MEOrderBook.new 0).run (buys (ME_MAX_ORDER_IDS - 2)) = .ok s ∧
    ¬ Usable (updates (s.sent ++ s.outputsOf (.add (buyOne 99)))) :=
  unusable_after_buys (ME_MAX_ORDER_IDS - 2) (by decide) (by decide)

end LowLatency.Trading
