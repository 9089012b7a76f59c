import LowLatency.Trading.Pnl
import LowLatency.Trading.RiskManager

namespace LowLatency.Trading.PositionInfo

open Common Exchange

inductive PnlCall
  | addFill (r : MEClientResponse)
  | updateBBO (bbo : BBO)

def call (i : PositionInfo ℚ) : PnlCall → PositionInfo ℚ
  | .addFill r => i.addFill r
  | .updateBBO bbo => i.updateBBO bbo

def replay (cs : List PnlCall) : PositionInfo ℚ := cs.foldl call new

def Current (i : PositionInfo ℚ) : Prop := i.totalPnl = i.realPnl + i.unrealPnl

/-- The total is that of the parts, also for everything that the risk check makes of it. -/
def Shown (i : PositionInfo ℚ) : Prop :=
  i.Current ∧ ∀ (cfg : RiskCfg ℚ) (side : Side) (qty : Qty),
    (RiskInfo.mk i cfg).checkPreTradeRisk side qty =
      (RiskInfo.mk { i with totalPnl := i.realPnl + i.unrealPnl } cfg).checkPreTradeRisk side qty

def fills (cs : List PnlCall) : List MEClientResponse :=
  cs.filterMap fun
    | .addFill r => some r
    | .updateBBO _ => none

/-- The price that a call brings, beside that of the calls before it. -/
def quote (price : ℚ) : PnlCall → ℚ
  | .addFill r => r.price
  | .updateBBO bbo => if Priced bbo then midPrice bbo else price

/-- The last price among those of the fills and the middles of the spreads. -/
def lastPrice (cs : List PnlCall) : ℚ := cs.foldl quote 0

/-- The position that the fills add up to, modulo `2 ^ 32`. -/
def held (cs : List PnlCall) : ℤ := toInt32 (net (fills cs))

/-- A fill that closes the position is made at the last price before it. -/
def Settles (before : List PnlCall) : PnlCall → Prop
  | .addFill r => held before ≠ 0 → held (before ++ [.addFill r]) = 0 → r.price = lastPrice before
  | .updateBBO _ => True

instance (before : List PnlCall) : DecidablePred (Settles before)
  | .addFill _ => inferInstanceAs (Decidable (_ → _ → _))
  | .updateBBO _ => inferInstanceAs (Decidable True)

/-- A fill does not bring the position to zero by a turn of the 32-bit integers. -/
def Straight (before : List PnlCall) : PnlCall → Prop
  | .addFill r => held (before ++ [.addFill r]) = 0 → held before + r.execQty * sideToValue r.side = 0
  | .updateBBO _ => True

instance (before : List PnlCall) : DecidablePred (Straight before)
  | .addFill _ => inferInstanceAs (Decidable (_ → _))
  | .updateBBO _ => inferInstanceAs (Decidable True)

variable {i : PositionInfo ℚ} {r : MEClientResponse} {c : PnlCall} {cs : List PnlCall}

theorem shown_iff : i.Shown ↔ i.Current := by
  refine ⟨And.left, fun h ↦ ⟨h, fun cfg side qty ↦ ?_⟩⟩
  rw [show i.realPnl + i.unrealPnl = i.totalPnl from h.symm]

/-- What is known of a position whose total is right: it was valued at the last price. -/
structure Valued (cs : List PnlCall) (i : PositionInfo ℚ) : Prop where
  position : i.position = held cs
  current : i.Current
  flat : i.position = 0 → i.unrealPnl = 0
  valued : i.position ≠ 0 → i.unrealPnl = i.unrealAt (lastPrice cs)

theorem net_addFill :
    net (fills (cs ++ [.addFill r])) = net (fills cs) + r.execQty * sideToValue r.side := by
  rw [← net_concat]
  simp [fills]

theorem held_addFill :
    held (cs ++ [.addFill r]) = toInt32 (held cs + r.execQty * sideToValue r.side) := by
  unfold held toInt32
  rw [net_addFill, Int.bmod_add_bmod]

theorem held_updateBBO {bbo : BBO} : held (cs ++ [.updateBBO bbo]) = held cs := by
  simp [held, fills]

theorem straight_of_fits (h : Fits (net (fills cs))) (h' : Fits (net (fills (cs ++ [.addFill r])))) :
    Straight cs (.addFill r) := by
  intro h0
  unfold held at h0 ⊢
  rw [toInt32_of_fits h'] at h0
  rw [toInt32_of_fits h, ← net_addFill, h0]

theorem lastPrice_concat : lastPrice (cs ++ [c]) = quote (lastPrice cs) c := by simp [lastPrice]

theorem replay_concat : replay (cs ++ [c]) = (replay cs).call c := by simp [replay]

theorem valued_new : Valued [] new where
  position := rfl
  current := (add_zero _).symm
  flat := fun _ ↦ rfl
  valued := fun h ↦ absurd rfl h

theorem size_ne_zero (h : Fits i.position) (hne : i.position ≠ 0) : i.size ≠ 0 := by
  unfold size
  rw [absInt32_eq h]
  split_ifs
  · decide
  · exact abs_ne_zero.mpr hne

theorem unrealAt_inj (h : Fits i.position) (hne : i.position ≠ 0) {price price' : ℚ} :
    i.unrealAt price = i.unrealAt price' ↔ price = price' := by
  have hsize : (i.size : ℚ) ≠ 0 := by exact_mod_cast size_ne_zero h hne
  unfold unrealAt
  dsimp only
  split_ifs
  · rw [mul_left_inj' hsize, sub_left_inj]
  · rw [mul_left_inj' hsize, sub_right_inj]

theorem eq_size_of_closing (hside : r.side ≠ .INVALID)
    (hclose : i.position + r.execQty * sideToValue r.side = 0) :
    (r.execQty : ℤ) = |i.position| ∧ i.position * sideToValue r.side = -|i.position| := by
  have hnonneg : 0 ≤ (r.execQty : ℤ) := Int.natCast_nonneg _
  rcases sideToValue_eq hside with hv | hv <;> rw [hv] at hclose ⊢
  · rw [abs_of_nonpos (by omega)]
    omega
  · rw [abs_of_nonneg (by omega)]
    omega

/-- A fill of the whole position earns the profit that the position has at the price of the fill. -/
theorem realPnl_addFill_closing (h : Fits i.position) (hne : i.position ≠ 0)
    (hclose : i.position + r.execQty * sideToValue r.side = 0) :
    (i.addFill r).realPnl = i.realPnl + i.unrealAt r.price := by
  have hside : r.side ≠ .INVALID := fun hside ↦ hne (by simpa [hside, sideToValue] using hclose)
  obtain ⟨hqty, hopposed⟩ := eq_size_of_closing hside hclose
  have hpos : 0 < |i.position| := abs_pos.mpr hne
  have hred : i.position * sideToValue r.side < 0 := by omega
  have hproduct : i.sideProduct r < 0 := by
    have hle : |i.position| ≤ 2 ^ 31 := abs_le.mpr ⟨h.1, h.2.le⟩
    unfold sideProduct
    rw [toInt32_of_fits (by omega)]
    exact hred
  have hclosed : i.closedQty r = i.size := by
    unfold closedQty size absInt32
    rw [hqty, min_self]
  rw [realPnl_addFill, realPnl_addCost hproduct, hclosed]
  unfold unrealAt
  cases hs : r.side with
  | INVALID => exact absurd hs hside
  | SELL =>
    rw [hs] at hred
    simp only [sideToValue] at hred
    rw [if_pos (by omega), show opposite .SELL = .BUY from rfl]
    simp only [sideToValue]
    push_cast
    ring
  | BUY =>
    rw [hs] at hred
    simp only [sideToValue] at hred
    rw [if_neg (by omega), show opposite .BUY = .SELL from rfl]
    simp only [sideToValue]
    push_cast
    ring

theorem realPnl_addFill_idle (h0 : i.position = 0) : (i.addFill r).realPnl = i.realPnl := by
  have hproduct : i.sideProduct r = 0 := by
    unfold sideProduct
    rw [h0, zero_mul]
    decide
  rw [realPnl_addFill]
  unfold addCost
  rw [if_pos hproduct.ge]

theorem totalPnl_addFill_flat (h0 : (i.addFill r).position = 0) :
    (i.addFill r).totalPnl = i.totalPnl := by
  rw [position_addFill, ← position_addCost] at h0
  simp only [addFill, if_pos h0]
  unfold addCost
  dsimp only
  split_ifs <;> rfl

theorem current_addFill_open (h0 : (i.addFill r).position ≠ 0) : (i.addFill r).Current := by
  rw [position_addFill, ← position_addCost] at h0
  unfold Current
  simp only [addFill, if_neg h0]
  exact add_comm _ _

namespace Valued

theorem fits (h : Valued cs i) : Fits i.position := by
  rw [h.position]
  exact toInt32_bounds _

theorem position_addFill (h : Valued cs i) : (i.addFill r).position = held (cs ++ [.addFill r]) := by
  rw [PositionInfo.position_addFill, newPosition, held_addFill, h.position]

theorem current_addFill_iff (h : Valued cs i) (hc : Straight cs (.addFill r)) :
    (i.addFill r).Current ↔ Settles cs (.addFill r) := by
  simp only [Settles, Straight] at hc ⊢
  rw [← h.position_addFill, ← h.position] at hc ⊢
  by_cases h0 : (i.addFill r).position = 0
  · have hcurrent : i.totalPnl = i.realPnl + i.unrealPnl := h.current
    unfold Current
    rw [totalPnl_addFill_flat h0, unrealPnl_addFill_flat h0, add_zero, hcurrent]
    by_cases hold : i.position = 0
    · rw [realPnl_addFill_idle hold, h.flat hold, add_zero]
      exact iff_of_true rfl fun hne ↦ absurd hold hne
    · rw [realPnl_addFill_closing h.fits hold (hc h0), add_right_inj, h.valued hold,
        unrealAt_inj h.fits hold]
      exact ⟨fun hprice _ _ ↦ hprice.symm, fun hprice ↦ (hprice hold h0).symm⟩
  · exact iff_of_true (current_addFill_open h0) fun _ h0' ↦ absurd h0' h0

theorem addFill (h : Valued cs i) (hcurrent : (i.addFill r).Current) :
    Valued (cs ++ [.addFill r]) (i.addFill r) where
  position := h.position_addFill
  current := hcurrent
  flat := unrealPnl_addFill_flat
  valued := fun h0 ↦ by
    rw [lastPrice_concat]
    exact unrealPnl_addFill_open h0

theorem updateBBO (h : Valued cs i) (bbo : BBO) :
    Valued (cs ++ [.updateBBO bbo]) (i.updateBBO bbo) := by
  have hpos := position_updateBBO i bbo
  refine ⟨by rw [hpos, h.position, held_updateBBO], ?_, ?_, ?_⟩
  · unfold PositionInfo.updateBBO
    split_ifs
    · exact add_comm _ _
    · exact h.current
  · intro h0
    rw [hpos] at h0
    unfold PositionInfo.updateBBO
    rw [if_neg fun hne ↦ hne.1 h0]
    exact h.flat h0
  · intro hne
    rw [hpos] at hne
    rw [lastPrice_concat]
    simp only [quote]
    unfold PositionInfo.updateBBO
    by_cases hpriced : Priced bbo
    · rw [if_pos ⟨hne, hpriced⟩, if_pos hpriced]
      rfl
    · rw [if_neg fun h ↦ hpriced h.2, if_neg hpriced]
      exact h.valued hne

theorem current_call_iff (h : Valued cs i) (hc : Straight cs c) : (i.call c).Current ↔ Settles cs c := by
  cases c with
  | addFill r => exact h.current_addFill_iff hc
  | updateBBO bbo => exact iff_of_true (h.updateBBO bbo).current trivial

theorem call (h : Valued cs i) (hcurrent : (i.call c).Current) :
    Valued (cs ++ [c]) (i.call c) := by
  cases c with
  | addFill r => exact h.addFill hcurrent
  | updateBBO bbo => exact h.updateBBO bbo

theorem replay (hstraight : EachAfter Straight [] cs) (h : EachAfter Settles [] cs) :
    Valued cs (replay cs) := by
  induction cs using List.reverseRecOn with
  | nil => exact valued_new
  | append_singleton cs c ih =>
    obtain ⟨hpast, hc⟩ := eachAfter_concat.mp hstraight
    obtain ⟨hcs, hsettles⟩ := eachAfter_concat.mp h
    have hvalued := ih hpast hcs
    rw [replay_concat]
    exact hvalued.call ((hvalued.current_call_iff hc).mpr hsettles)

end Valued

/-- The total is right after each call if and only if each fill that closes the position is made at the
last price before it. -/
theorem shown_iff_settles (hstraight : EachAfter Straight [] cs) :
    EachAfter (fun before c ↦ (replay (before ++ [c])).Shown) [] cs ↔ EachAfter Settles [] cs := by
  simp only [shown_iff]
  induction cs using List.reverseRecOn with
  | nil => exact iff_of_true trivial trivial
  | append_singleton cs c ih =>
    obtain ⟨hpast, hc⟩ := eachAfter_concat.mp hstraight
    rw [eachAfter_concat, eachAfter_concat, ih hpast]
    refine and_congr_right fun h ↦ ?_
    rw [List.nil_append, replay_concat]
    exact (Valued.replay hpast h).current_call_iff hc

def soldAtMiddle : List PnlCall :=
  [.addFill (fill .BUY 100 10), .updateBBO ⟨108, 112, 5, 5⟩, .addFill (fill .SELL 110 10)]

theorem shown_sold_at_middle :
    EachAfter (fun before c ↦ (replay (before ++ [c])).Shown) [] soldAtMiddle := by
  refine (shown_iff_settles ?_).mpr ?_
  · exact ⟨by decide, by decide, by decide, trivial⟩
  · exact ⟨by decide +kernel, by decide, by decide +kernel, trivial⟩

/-- The position is closed at a loss of 10 a share, and the total stays at zero, which no loss test sees. -/
theorem not_shown_closed : ¬ ∀ cs : List PnlCall, EachAfter Straight [] cs →
    EachAfter (fun before c ↦ (replay (before ++ [c])).Shown) [] cs := by
  intro h
  have hcurrent := (h [.addFill (fill .BUY 100 10), .addFill (fill .SELL 90 10)]
    ⟨by decide, by decide, trivial⟩).2.1.1
  exact absurd hcurrent (by unfold Current; decide +kernel)

end LowLatency.Trading.PositionInfo
