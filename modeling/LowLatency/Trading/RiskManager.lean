import LowLatency.Trading.PositionKeeper

namespace LowLatency.Trading

open Common

inductive RiskCheckResult
  | INVALID
  | ORDER_TOO_LARGE
  | POSITION_TOO_LARGE
  | LOSS_TOO_LARGE
  | ALLOWED
  deriving DecidableEq, Repr

structure RiskInfo (D : Type) where
  positionInfo : PositionInfo D
  riskCfg : RiskCfg D

variable {D : Type} [LT D] [DecidableLT D]

/-- The quantity and the limit are converted to signed integers, and the sum is one of such integers. -/
def RiskInfo.checkPreTradeRisk (i : RiskInfo D) (side : Side) (qty : Qty) : RiskCheckResult :=
  if i.riskCfg.maxOrderSize < qty then .ORDER_TOO_LARGE
  else if toInt32 i.riskCfg.maxPosition <
      absInt32 (toInt32 (i.positionInfo.position + toInt32 (sideToValue side * toInt32 qty))) then
    .POSITION_TOO_LARGE
  else if i.positionInfo.totalPnl < i.riskCfg.maxLoss then .LOSS_TOO_LARGE
  else .ALLOWED

/-- The risk manager refers to the positions that the position keeper holds. -/
abbrev RiskManager (D : Type) := TickerId → RiskInfo D

def RiskManager.checkPreTradeRisk (m : RiskManager D) (tickerId : TickerId) (side : Side) (qty : Qty) :
    RiskCheckResult :=
  (m tickerId).checkPreTradeRisk side qty

namespace RiskInfo

def reach (i : RiskInfo D) (side : Side) (qty : Qty) : ℤ :=
  i.positionInfo.position + sideToValue side * qty

/-- An order that the check lets through is within both limits. -/
def Sound (i : RiskInfo D) (side : Side) (qty : Qty) : Prop :=
  i.checkPreTradeRisk side qty = .ALLOWED →
    qty ≤ i.riskCfg.maxOrderSize ∧ |i.reach side qty| ≤ (i.riskCfg.maxPosition : ℤ)

/-- One of the other tests turns the order down, or the limit is a negative number as a signed one, or
the position that is reached does not come back within the limit modulo `2 ^ 32`. -/
def Covers (i : RiskInfo D) (side : Side) (qty : Qty) : Prop :=
  i.riskCfg.maxOrderSize < qty ∨ i.positionInfo.totalPnl < i.riskCfg.maxLoss ∨
    2 ^ 31 ≤ i.riskCfg.maxPosition ∨
    (|i.reach side qty| ≠ 2 ^ 31 ∧ (i.riskCfg.maxPosition : ℤ) < |(|i.reach side qty| - 2 ^ 32)|)

instance (i : RiskInfo D) (side : Side) (qty : Qty) : Decidable (i.Covers side qty) :=
  inferInstanceAs (Decidable (_ ∨ _ ∨ _ ∨ _))

variable {i : RiskInfo D} {side : Side} {qty : Qty}

theorem toInt32_cases {x : ℤ} (hx : |x| < 2 ^ 31 + 2 ^ 32) :
    (toInt32 x = x ∧ -2 ^ 31 ≤ x ∧ x < 2 ^ 31) ∨ (toInt32 x = x - 2 ^ 32 ∧ 2 ^ 31 ≤ x) ∨
      (toInt32 x = x + 2 ^ 32 ∧ x < -2 ^ 31) := by
  obtain ⟨hlower, hupper⟩ := abs_lt.mp hx
  unfold toInt32
  rw [Int.bmod_def]
  split_ifs <;> omega

/-- What the test of the position amounts to. -/
theorem absInt32_toInt32_le_iff {x limit : ℤ} (hx : |x| < 2 ^ 31 + 2 ^ 32)
    (hlimit : 0 ≤ limit ∧ limit < 2 ^ 32) : absInt32 (toInt32 x) ≤ toInt32 limit ↔
      if limit < 2 ^ 31 then |x| ≤ limit ∨ |x| = 2 ^ 31 ∨ |(|x| - 2 ^ 32)| ≤ limit
      else |x| = 2 ^ 31 := by
  have hwrap := toInt32_cases hx
  have hfits := toInt32_bounds x
  have hsigned : toInt32 limit = if limit < 2 ^ 31 then limit else limit - 2 ^ 32 := by
    unfold toInt32
    rw [Int.bmod_def]
    split_ifs <;> omega
  rw [absInt32_eq hfits, hsigned]
  simp only [Int.abs_eq_natAbs] at hx ⊢
  split_ifs <;> omega

omit [LT D] [DecidableLT D] in
theorem toInt32_reach (i : RiskInfo D) (side : Side) (qty : Qty) :
    toInt32 (i.positionInfo.position + toInt32 (sideToValue side * toInt32 qty)) =
      toInt32 (i.reach side qty) := by
  unfold reach toInt32
  rw [Int.add_bmod_bmod, Int.add_bmod, Int.mul_bmod_bmod, ← Int.add_bmod]

theorem allowed_iff : i.checkPreTradeRisk side qty = .ALLOWED ↔ qty ≤ i.riskCfg.maxOrderSize ∧
    absInt32 (toInt32 (i.reach side qty)) ≤ toInt32 i.riskCfg.maxPosition ∧
    ¬ i.positionInfo.totalPnl < i.riskCfg.maxLoss := by
  rw [← toInt32_reach]
  unfold checkPreTradeRisk
  split_ifs with hsize hposition hloss
  · simp [hsize.not_ge]
  · simp [hposition.not_ge]
  · simp [hloss]
  · simp [not_lt.mp hsize, not_lt.mp hposition, hloss]

/-- The check keeps to the limits if and only if the sum does not come back within them. -/
theorem sound_iff (hposition : -2 ^ 31 ≤ i.positionInfo.position ∧ i.positionInfo.position < 2 ^ 31)
    (hqty : qty < 2 ^ 32) (hlimit : i.riskCfg.maxPosition < 2 ^ 32) :
    i.Sound side qty ↔ i.Covers side qty := by
  have hqty' : (qty : ℤ) < 2 ^ 32 := by exact_mod_cast hqty
  have hlimit' : 0 ≤ (i.riskCfg.maxPosition : ℤ) ∧ (i.riskCfg.maxPosition : ℤ) < 2 ^ 32 :=
    ⟨Int.natCast_nonneg _, by exact_mod_cast hlimit⟩
  have hreach : |i.reach side qty| < 2 ^ 31 + 2 ^ 32 := by
    unfold reach
    rw [abs_lt]
    cases side <;> simp only [sideToValue] <;> omega
  have hnonneg := abs_nonneg (i.reach side qty)
  have hsmall : (i.riskCfg.maxPosition : ℤ) < 2 ^ 31 ↔ ¬ 2 ^ 31 ≤ i.riskCfg.maxPosition := by
    rw [not_le]
    exact ⟨fun h ↦ by exact_mod_cast h, fun h ↦ by exact_mod_cast h⟩
  unfold Sound Covers
  rw [allowed_iff, absInt32_toInt32_le_iff hreach hlimit']
  simp only [hsmall]
  by_cases hsize : i.riskCfg.maxOrderSize < qty
  · simp [hsize, hsize.not_ge]
  by_cases hloss : i.positionInfo.totalPnl < i.riskCfg.maxLoss
  · simp [hloss]
  simp only [hsize, hloss, not_lt.mp hsize, not_false_eq_true, true_and, and_true, false_or]
  by_cases hsigned : 2 ^ 31 ≤ i.riskCfg.maxPosition
  · have hlarge : 2 ^ 31 ≤ (i.riskCfg.maxPosition : ℤ) := by exact_mod_cast hsigned
    simp only [hsigned, not_true_eq_false, if_false, true_or, iff_true]
    exact fun h ↦ h.trans_le hlarge
  · have hlt := hsmall.mpr hsigned
    simp only [hsigned, not_false_eq_true, if_true, false_or]
    simp only [Int.abs_eq_natAbs] at hreach ⊢
    omega

def limited (position : ℤ) (maxOrderSize maxPosition : Qty) : RiskInfo ℚ where
  positionInfo := { PositionInfo.new with position := position }
  riskCfg := ⟨maxOrderSize, maxPosition, -1000⟩

theorem sound_largest_position :
    (limited (2 ^ 31 - 1) (2 ^ 32 - 1) 10).checkPreTradeRisk .SELL (2 ^ 31 - 6) = .ALLOWED ∧
      (limited (2 ^ 31 - 1) (2 ^ 32 - 1) 10).Sound .SELL (2 ^ 31 - 6) :=
  ⟨by decide +kernel, (sound_iff (by decide) (by decide) (by decide)).mpr (by decide +kernel)⟩

/-- The quantity `2 ^ 32 - 1` counts as `-1`. -/
theorem not_sound_negative : ¬ (limited 0 (2 ^ 32 - 1) 10).Sound .BUY (2 ^ 32 - 1) := fun h ↦
  absurd (h (by decide +kernel)).2 (by decide +kernel)

end RiskInfo

end LowLatency.Trading
