import LowLatency.GuardedRun
import LowLatency.Trading.PositionKeeper

namespace LowLatency.Trading.PositionInfo

open Common Exchange Function

def Fits (x : ℤ) : Prop := -2 ^ 31 ≤ x ∧ x < 2 ^ 31

instance (x : ℤ) : Decidable (Fits x) := inferInstanceAs (Decidable (_ ∧ _))

/-- A positive quantity that was bought or sold. -/
def IsFill (r : MEClientResponse) : Prop :=
  r.side ≠ .INVALID ∧ 0 < r.execQty ∧ r.execQty < 2 ^ 32

instance (r : MEClientResponse) : Decidable (IsFill r) := inferInstanceAs (Decidable (_ ∧ _))

def Fits64 (x : ℤ) : Prop := -2 ^ 63 ≤ x ∧ x < 2 ^ 63

instance (x : ℤ) : Decidable (Fits64 x) := inferInstanceAs (Decidable (_ ∧ _))

def cut (x : ℤ) : ℤ := x - toInt64 x

structure Products {D : Type} (i : PositionInfo D) (r : MEClientResponse) : Prop where
  side : Fits (i.position * sideToValue r.side)
  turn : i.position * sideToValue r.side < 0 → Fits (i.newPosition r * i.position)

def Costs (i : PositionInfo ℚ) : Prop :=
  ∀ side ≠ Side.INVALID, i.position * sideToValue side ≤ 0 → i.openVwap side = 0

/-- What was paid for the open position. -/
def basis (i : PositionInfo ℚ) : ℚ := i.openVwap .BUY - i.openVwap .SELL

/-- By how much a fill makes the accounts wrong. -/
def lapse (i : PositionInfo ℚ) (r : MEClientResponse) : ℚ :=
  let value := sideToValue r.side
  if 0 ≤ i.position * value then cut (r.price * r.execQty) * value
  else
    let oppVwap := i.openVwap (opposite r.side) / ((|i.position| : ℤ) : ℚ)
    if (r.execQty : ℤ) < |i.position| then r.execQty * oppVwap * value
    else (((i.closedQty r - |i.position| : ℤ) : ℚ) * (oppVwap - r.price) +
      cut (r.price * (r.execQty - |i.position|))) * value

section Fill

variable {i : PositionInfo ℚ} {r : MEClientResponse}

section Side

variable {side side' : Side}

theorem opposite_ne (side : Side) : opposite side ≠ side := by cases side <;> decide

theorem opposite_ne_invalid (side : Side) : opposite side ≠ .INVALID := by cases side <;> decide

theorem sideToValue_opposite (h : side ≠ .INVALID) :
    sideToValue (opposite side) = -sideToValue side := by
  cases side with
  | INVALID => exact absurd rfl h
  | SELL | BUY => rfl

theorem eq_or_eq_opposite (h : side ≠ .INVALID) (h' : side' ≠ .INVALID) :
    side' = side ∨ side' = opposite side := by
  revert h h'
  cases side <;> cases side' <;> decide

end Side

theorem cut_eq_zero_iff {x : ℤ} : cut x = 0 ↔ Fits64 x := by
  unfold cut Fits64 toInt64
  rw [Int.bmod_def]
  split_ifs <;> omega

theorem size_eq (h : -2 ^ 31 < i.position ∧ i.position < 2 ^ 31) : i.size = |i.position| := by
  unfold size
  rw [absInt32_eq ⟨h.1.le, h.2⟩, if_neg h.1.ne']

theorem Costs.new : (new : PositionInfo ℚ).Costs := fun _ _ _ ↦ rfl

theorem Costs.unrealAt (h : i.Costs) (hsize : i.size = |i.position|) (hne : i.position ≠ 0)
    (price : ℚ) : i.unrealAt price = i.position * price - i.basis := by
  unfold PositionInfo.unrealAt basis
  rw [hsize]
  rcases lt_or_gt_of_ne hne with hneg | hpos
  · have habs : ((|i.position| : ℤ) : ℚ) = -i.position := by rw [abs_of_neg hneg]; push_cast; ring
    have hne' : (i.position : ℚ) ≠ 0 := by exact_mod_cast hne
    rw [if_neg hneg.le.not_gt, habs, h .BUY (by decide) (by simpa [sideToValue] using hneg.le)]
    field_simp
    ring
  · have habs : ((|i.position| : ℤ) : ℚ) = i.position := by rw [abs_of_pos hpos]
    have hne' : (i.position : ℚ) ≠ 0 := by exact_mod_cast hne
    rw [if_pos hpos, habs, h .SELL (by decide) (by simpa [sideToValue] using hpos.le)]
    field_simp
    ring

/-- The smallest position has a negative size, so that its price counts with the wrong sign. -/
theorem Costs.unrealAt_smallest (h : i.Costs) (hsmallest : i.position = -2 ^ 31) (price : ℚ) :
    i.unrealAt price = 2 ^ 31 * price - i.basis := by
  have hsize : i.size = -2 ^ 31 := by
    unfold size
    rw [hsmallest]
    decide
  have hbuy : i.openVwap .BUY = 0 := h .BUY (by decide) (by rw [hsmallest]; decide)
  rw [PositionInfo.unrealAt, hsize, hsmallest, if_neg (by norm_num), basis, hbuy]
  push_cast
  ring

theorem position_addFill_fits (h : Fits (i.position + r.execQty * sideToValue r.side)) :
    (i.addFill r).position = i.position + r.execQty * sideToValue r.side := by
  rw [position_addFill]
  exact toInt32_of_fits h

theorem openVwap_addFill (hne : (i.addFill r).position ≠ 0) :
    (i.addFill r).openVwap = (i.addCost r).openVwap := by
  rw [position_addFill, ← position_addCost] at hne
  simp only [addFill, if_neg hne]

theorem openVwap_addFill_flat (h0 : (i.addFill r).position = 0) (side : Side)
    (hside : side ≠ .INVALID) : (i.addFill r).openVwap side = 0 := by
  rw [position_addFill, ← position_addCost] at h0
  simp only [addFill, if_pos h0]
  cases side with
  | SELL => rw [update_of_ne (by decide), update_self]
  | INVALID => exact absurd rfl hside
  | BUY => rw [update_self]

theorem realPnl_addFill : (i.addFill r).realPnl = (i.addCost r).realPnl := by
  simp only [addFill]
  split_ifs <;> rfl

theorem unrealPnl_addFill_flat (h0 : (i.addFill r).position = 0) : (i.addFill r).unrealPnl = 0 := by
  rw [position_addFill, ← position_addCost] at h0
  simp only [addFill, if_pos h0]

theorem unrealPnl_addFill_open (h0 : (i.addFill r).position ≠ 0) :
    (i.addFill r).unrealPnl = (i.addFill r).unrealAt r.price := by
  rw [position_addFill, ← position_addCost] at h0
  simp only [addFill, if_neg h0]
  rfl

theorem Products.adds_iff (h : i.Products r) :
    0 ≤ i.sideProduct r ↔ 0 ≤ i.position * sideToValue r.side := by
  unfold sideProduct
  rw [toInt32_of_fits h.side]

theorem Products.reduces (h : i.Products r) (hred : i.position * sideToValue r.side < 0) :
    i.sideProduct r < 0 := not_le.mp (mt h.adds_iff.mp hred.not_ge)

theorem Products.turns_iff (h : i.Products r) (hred : i.position * sideToValue r.side < 0) :
    i.turnProduct r < 0 ↔ i.newPosition r * i.position < 0 := by
  unfold turnProduct
  rw [toInt32_of_fits (h.turn hred)]

theorem addCost_adding (hp : i.Products r) (h : 0 ≤ i.position * sideToValue r.side) :
    (i.addCost r).realPnl = i.realPnl ∧ (i.addCost r).openVwap =
      update i.openVwap r.side (i.openVwap r.side + ((toInt64 (r.price * r.execQty) : ℤ) : ℚ)) := by
  unfold addCost
  rw [if_pos (hp.adds_iff.mpr h)]
  exact ⟨rfl, rfl⟩

theorem realPnl_addCost (h : i.sideProduct r < 0) : (i.addCost r).realPnl = i.realPnl + (i.closedQty r : ℚ) *
      (i.openVwap (opposite r.side) / (i.size : ℚ) - r.price) * sideToValue r.side := by
  unfold addCost
  rw [if_neg h.not_ge]
  dsimp only
  split_ifs <;> rfl

theorem openVwap_addCost (hp : i.Products r) (h : i.position * sideToValue r.side < 0)
    (hkeep : 0 ≤ (i.addCost r).position * i.position) : (i.addCost r).openVwap = i.openVwap := by
  rw [position_addCost] at hkeep
  unfold addCost
  rw [if_neg (hp.reduces h).not_ge]
  dsimp only
  rw [if_neg (mt (hp.turns_iff h).mp hkeep.not_gt)]

theorem openVwap_addCost_turning (hp : i.Products r) (h : i.position * sideToValue r.side < 0)
    (hturn : (i.addCost r).position * i.position < 0) : (i.addCost r).openVwap =
      update (update i.openVwap r.side ((toInt64 (r.price * (i.addCost r).size) : ℤ) : ℚ))
        (opposite r.side) 0 := by
  have hsize : (i.addCost r).size = absInt32 (i.newPosition r) := by
    rw [← position_addCost]
    rfl
  rw [position_addCost] at hturn
  rw [hsize]
  unfold addCost
  rw [if_neg (hp.reduces h).not_ge]
  dsimp only
  rw [if_pos ((hp.turns_iff h).mpr hturn)]
  rfl

theorem Costs.addFill (h : i.Costs) (hp : i.Products r) (hr : IsFill r)
    (hfits : Fits (i.position + r.execQty * sideToValue r.side)) : (i.addFill r).Costs := by
  intro side hside hle
  by_cases h0 : (i.addFill r).position = 0
  · exact openVwap_addFill_flat h0 side hside
  obtain ⟨hne, hqty, -⟩ := hr
  have hpos := position_addFill_fits hfits
  have hcost : (i.addCost r).position = (i.addFill r).position := by simp
  have hq : (0 : ℤ) < r.execQty := by exact_mod_cast hqty
  have hvalue := sideToValue_opposite hne
  rw [openVwap_addFill h0]
  rcases le_or_gt 0 (i.position * sideToValue r.side) with hadd | hred
  · rw [(addCost_adding hp hadd).2]
    rcases eq_or_eq_opposite hne hside with rfl | rfl
    · rcases sideToValue_eq hne with hv | hv <;> rw [hv] at hpos hle hadd <;> omega
    · rw [update_of_ne (opposite_ne _)]
      exact h _ hside (by rw [hvalue]; linarith)
  · rcases le_or_gt 0 ((i.addCost r).position * i.position) with hkeep | hturn
    · rw [openVwap_addCost hp hred hkeep]
      rcases eq_or_eq_opposite hne hside with rfl | rfl
      · exact h _ hside hred.le
      · rw [hcost] at hkeep
        rw [hvalue] at hle
        rcases sideToValue_eq hne with hv | hv <;> rw [hv] at hle hred
        · exact absurd (mul_neg_of_pos_of_neg (by omega) (by omega)) hkeep.not_gt
        · exact absurd (mul_neg_of_neg_of_pos (by omega) (by omega)) hkeep.not_gt
    · rw [openVwap_addCost_turning hp hred hturn]
      rcases eq_or_eq_opposite hne hside with rfl | rfl
      · rw [hcost] at hturn
        rcases sideToValue_eq hne with hv | hv <;> rw [hv] at hle hred
        · exact absurd hturn (mul_nonneg_of_nonpos_of_nonpos (by omega) (by omega)).not_gt
        · exact absurd hturn (mul_nonneg (by omega) (by omega)).not_gt
      · rw [update_self]

theorem basis_eq (h : r.side ≠ .INVALID) : i.basis =
    sideToValue r.side * (i.openVwap r.side - i.openVwap (opposite r.side)) := by
  unfold basis
  cases hside : r.side with
  | INVALID => exact absurd hside h
  | SELL => simp [sideToValue, show opposite .SELL = .BUY from rfl]
  | BUY => simp [sideToValue, show opposite .BUY = .SELL from rfl]

theorem position_eq_of_opposed (hne : r.side ≠ .INVALID)
    (hred : i.position * sideToValue r.side < 0) :
    i.position = -(|i.position| * sideToValue r.side) ∧ 0 < |i.position| := by
  refine ⟨?_, abs_pos.mpr fun h0 ↦ by simp [h0] at hred⟩
  rcases sideToValue_eq hne with hv | hv <;> rw [hv] at hred ⊢
  · rw [abs_of_neg (by omega)]
    ring
  · rw [abs_of_pos (by omega)]
    ring

theorem position_addFill_opposed (hne : r.side ≠ .INVALID)
    (hfits : Fits (i.position + r.execQty * sideToValue r.side))
    (hred : i.position * sideToValue r.side < 0) :
    (i.addFill r).position = (r.execQty - |i.position|) * sideToValue r.side ∧
      (i.addCost r).position * i.position = (|i.position| - r.execQty) * |i.position| := by
  obtain ⟨hpos, -⟩ := position_eq_of_opposed hne hred
  have hsq : sideToValue r.side * sideToValue r.side = 1 := by
    rcases sideToValue_eq hne with hv | hv <;> rw [hv] <;> norm_num
  have hnew : (i.addFill r).position = (r.execQty - |i.position|) * sideToValue r.side := by
    rw [position_addFill_fits hfits]
    linear_combination hpos
  refine ⟨hnew, ?_⟩
  rw [position_addCost, ← position_addFill, hnew]
  calc (r.execQty - |i.position|) * sideToValue r.side * i.position
      = (r.execQty - |i.position|) * sideToValue r.side * -(|i.position| * sideToValue r.side) := by
        rw [← hpos]
    _ = (|i.position| - r.execQty) * |i.position| := by
        linear_combination (|i.position| - (r.execQty : ℤ)) * (|i.position|) * hsq

/-- A partial close books what it earned and does not take its share out of the open cost. -/
theorem balance_addFill_partial (hp : i.Products r) (hr : IsFill r)
    (hold : -2 ^ 31 < i.position ∧ i.position < 2 ^ 31)
    (hfits : Fits (i.position + r.execQty * sideToValue r.side))
    (hred : i.position * sideToValue r.side < 0) (hlt : (r.execQty : ℤ) < |i.position|) :
    (i.addFill r).realPnl - (i.addFill r).basis =
      i.realPnl - i.basis - sideToValue r.side * r.price * r.execQty + i.lapse r := by
  obtain ⟨hpos, hmul⟩ := position_addFill_opposed hr.1 hfits hred
  have h0 : (i.addFill r).position ≠ 0 := by
    rcases sideToValue_eq hr.1 with hv | hv <;> rw [hv] at hpos <;> omega
  have hkeep : 0 ≤ (i.addCost r).position * i.position := by
    rw [hmul]
    exact mul_nonneg (by omega) (abs_nonneg _)
  have hclosed : i.closedQty r = r.execQty := by
    have habs : |i.position| < 2 ^ 31 := abs_lt.mpr hold
    unfold closedQty
    rw [size_eq hold, toInt32_of_fits ⟨by omega, by omega⟩, min_eq_left hlt.le]
  have hlapse : i.lapse r = r.execQty * (i.openVwap (opposite r.side) / ((|i.position| : ℤ) : ℚ)) *
      sideToValue r.side := by
    simp only [lapse, if_neg hred.not_ge, if_pos hlt]
  have hbasis : (i.addFill r).basis = i.basis := by
    unfold basis
    rw [openVwap_addFill h0, openVwap_addCost hp hred hkeep]
  rw [realPnl_addFill, realPnl_addCost (hp.reduces hred), hclosed, size_eq hold, hbasis, hlapse]
  push_cast
  ring

theorem basis_addFill_closing (hp : i.Products r) (hr : IsFill r)
    (hfits : Fits (i.position + r.execQty * sideToValue r.side))
    (hnew : -2 ^ 31 < (i.addFill r).position ∧ (i.addFill r).position < 2 ^ 31)
    (hred : i.position * sideToValue r.side < 0) (hle : |i.position| ≤ r.execQty) :
    (i.addFill r).basis =
      sideToValue r.side * (toInt64 (r.price * (r.execQty - |i.position|)) : ℤ) := by
  obtain ⟨hpos, hmul⟩ := position_addFill_opposed hr.1 hfits hred
  obtain ⟨-, habs⟩ := position_eq_of_opposed hr.1 hred
  rw [basis_eq hr.1]
  rcases hle.eq_or_lt with heq | hlt
  · have h0 : (i.addFill r).position = 0 := by rw [hpos, heq, sub_self, zero_mul]
    rw [openVwap_addFill_flat h0 _ hr.1, openVwap_addFill_flat h0 _ (opposite_ne_invalid _), heq,
      sub_self, mul_zero, toInt64_of_fits (by norm_num)]
    simp
  · have h0 : (i.addFill r).position ≠ 0 := by
      rcases sideToValue_eq hr.1 with hv | hv <;> rw [hv] at hpos <;> omega
    have hturn : (i.addCost r).position * i.position < 0 := by
      rw [hmul]
      exact mul_neg_of_neg_of_pos (by omega) habs
    have hcost : (i.addCost r).position = (i.addFill r).position := by simp
    have hsize : (i.addCost r).size = r.execQty - |i.position| := by
      rw [size_eq (by rwa [hcost]), hcost, hpos]
      rcases sideToValue_eq hr.1 with hv | hv <;> rw [hv]
      · rw [mul_one, abs_of_pos (by omega)]
      · rw [mul_neg_one, abs_neg, abs_of_pos (by omega)]
    rw [openVwap_addFill h0, openVwap_addCost_turning hp hred hturn, update_self,
      update_of_ne (opposite_ne _).symm, update_self, hsize, sub_zero]

theorem balance_addFill_closing (h : i.Costs) (hp : i.Products r) (hr : IsFill r)
    (hold : -2 ^ 31 < i.position ∧ i.position < 2 ^ 31)
    (hfits : Fits (i.position + r.execQty * sideToValue r.side))
    (hnew : -2 ^ 31 < (i.addFill r).position ∧ (i.addFill r).position < 2 ^ 31)
    (hred : i.position * sideToValue r.side < 0) (hle : |i.position| ≤ r.execQty) :
    (i.addFill r).realPnl - (i.addFill r).basis =
      i.realPnl - i.basis - sideToValue r.side * r.price * r.execQty + i.lapse r := by
  obtain ⟨-, habs⟩ := position_eq_of_opposed hr.1 hred
  have hside : i.openVwap r.side = 0 := h _ hr.1 hred.le
  have hsize : ((|i.position| : ℤ) : ℚ) ≠ 0 := by exact_mod_cast habs.ne'
  have hlapse : i.lapse r = (((i.closedQty r - |i.position| : ℤ) : ℚ) *
      (i.openVwap (opposite r.side) / ((|i.position| : ℤ) : ℚ) - r.price) +
        cut (r.price * (r.execQty - |i.position|))) * sideToValue r.side := by
    simp only [lapse, if_neg hred.not_ge, if_neg hle.not_gt]
  have hvwap : i.openVwap (opposite r.side) =
      i.openVwap (opposite r.side) / ((|i.position| : ℤ) : ℚ) * ((|i.position| : ℤ) : ℚ) := by
    field_simp
  rw [realPnl_addFill, realPnl_addCost (hp.reduces hred), basis_addFill_closing hp hr hfits hnew hred hle,
    basis_eq hr.1 (i := i), hside, hlapse, size_eq hold, cut]
  push_cast at hvwap ⊢
  linear_combination (-sideToValue r.side : ℚ) * hvwap

theorem balance_addFill_adding (hp : i.Products r) (hr : IsFill r)
    (hfits : Fits (i.position + r.execQty * sideToValue r.side))
    (hadd : 0 ≤ i.position * sideToValue r.side) :
    (i.addFill r).realPnl - (i.addFill r).basis =
      i.realPnl - i.basis - sideToValue r.side * r.price * r.execQty + i.lapse r := by
  obtain ⟨hreal, hvwap⟩ := addCost_adding hp hadd
  have hpos := position_addFill_fits hfits
  have hq : (0 : ℤ) < r.execQty := by exact_mod_cast hr.2.1
  have h0 : (i.addFill r).position ≠ 0 := by
    rcases sideToValue_eq hr.1 with hv | hv <;> rw [hv] at hpos hadd <;> omega
  have hlapse : i.lapse r = cut (r.price * r.execQty) * sideToValue r.side := if_pos hadd
  rw [realPnl_addFill, basis_eq hr.1, basis_eq hr.1, openVwap_addFill h0, hreal, hvwap, update_self,
    update_of_ne (opposite_ne _), hlapse, cut]
  push_cast
  ring

/-- Every fill moves its cash against the basis of the position, up to the lapse. -/
theorem balance_addFill (h : i.Costs) (hp : i.Products r) (hr : IsFill r)
    (hold : -2 ^ 31 < i.position ∧ i.position < 2 ^ 31)
    (hnew : -2 ^ 31 < i.position + r.execQty * sideToValue r.side ∧
      i.position + r.execQty * sideToValue r.side < 2 ^ 31) :
    (i.addFill r).realPnl - (i.addFill r).basis =
      i.realPnl - i.basis - sideToValue r.side * r.price * r.execQty + i.lapse r := by
  have hfits : Fits (i.position + r.execQty * sideToValue r.side) := ⟨hnew.1.le, hnew.2⟩
  have hpos := position_addFill_fits hfits
  rcases le_or_gt 0 (i.position * sideToValue r.side) with hadd | hred
  · exact balance_addFill_adding hp hr hfits hadd
  · rcases lt_or_ge (r.execQty : ℤ) |i.position| with hlt | hle
    · exact balance_addFill_partial hp hr hold hfits hred hlt
    · exact balance_addFill_closing h hp hr hold hfits (by rwa [hpos]) hred hle

theorem unrealPnl_addFill (h : (i.addFill r).Costs)
    (hnew : -2 ^ 31 < (i.addFill r).position ∧ (i.addFill r).position < 2 ^ 31) :
    (i.addFill r).unrealPnl = (i.addFill r).position * r.price - (i.addFill r).basis := by
  by_cases h0 : (i.addFill r).position = 0
  · rw [unrealPnl_addFill_flat h0, h0, basis, openVwap_addFill_flat h0 _ (by decide),
      openVwap_addFill_flat h0 _ (by decide)]
    norm_num
  · rw [unrealPnl_addFill_open h0, h.unrealAt (size_eq hnew) h0]

/-- A fill is booked right if the product of its price fits in 64 bits and if it does not close a part of
the position and leave the rest open, unless the open part cost nothing. A fill that is too large for the
conversion to a signed integer is right only by coincidence. -/
def Meets (i : PositionInfo ℚ) (r : MEClientResponse) : Prop :=
  let size := |i.position|
  let openVwap := i.openVwap (opposite r.side)
  if 0 ≤ i.position * sideToValue r.side then Fits64 (r.price * r.execQty)
  else if (r.execQty : ℤ) < size then openVwap = 0
  else if (r.execQty : ℤ) < 2 ^ 31 then Fits64 (r.price * (r.execQty - size))
  else ((2 ^ 32 + size - r.execQty : ℤ) : ℚ) * (openVwap - r.price * size) =
    ((size * cut (r.price * (r.execQty - size)) : ℤ) : ℚ)

instance : Decidable (Meets i r) := by
  unfold Meets
  infer_instance

theorem lapse_eq_zero_iff (hr : IsFill r) (hold : -2 ^ 31 < i.position ∧ i.position < 2 ^ 31) :
    i.lapse r = 0 ↔ i.Meets r := by
  obtain ⟨hne, hqty, hmax⟩ := hr
  have hmax' : (r.execQty : ℤ) < 2 ^ 32 := by exact_mod_cast hmax
  have hvalue : (sideToValue r.side : ℚ) ≠ 0 := by
    rcases sideToValue_eq hne with hv | hv <;> rw [hv] <;> norm_num
  unfold lapse Meets
  rcases le_or_gt 0 (i.position * sideToValue r.side) with hadd | hred
  · simp only [hadd, if_true]
    rw [mul_eq_zero, or_iff_left hvalue, Int.cast_eq_zero, cut_eq_zero_iff]
  obtain ⟨-, habs⟩ := position_eq_of_opposed hne hred
  have hsize : |i.position| < 2 ^ 31 := abs_lt.mpr hold
  have ha : ((|i.position| : ℤ) : ℚ) ≠ 0 := by exact_mod_cast habs.ne'
  have hq : (r.execQty : ℚ) ≠ 0 := by exact_mod_cast hqty.ne'
  simp only [if_neg hred.not_ge]
  rcases lt_or_ge (r.execQty : ℤ) |i.position| with hlt | hle
  · simp only [hlt, if_true]
    rw [mul_eq_zero, or_iff_left hvalue, mul_eq_zero, or_iff_right hq, div_eq_zero_iff, or_iff_left ha]
  · simp only [if_neg hle.not_gt]
    rw [mul_eq_zero, or_iff_left hvalue]
    unfold closedQty
    rw [size_eq hold]
    split_ifs with hsmall
    · rw [toInt32_of_fits ⟨by omega, hsmall⟩, min_eq_right hle, sub_self, Int.cast_zero, zero_mul,
        zero_add, Int.cast_eq_zero, cut_eq_zero_iff]
    · have hneg : toInt32 r.execQty = r.execQty - 2 ^ 32 := by
        unfold toInt32
        rw [Int.bmod_def]
        split_ifs <;> omega
      have hdiv : i.openVwap (opposite r.side) / ((|i.position| : ℤ) : ℚ) * ((|i.position| : ℤ) : ℚ) =
          i.openVwap (opposite r.side) := div_mul_cancel₀ _ ha
      rw [hneg, min_eq_left (by omega), ← mul_left_inj' ha, zero_mul]
      push_cast at hdiv ⊢
      constructor
      · intro h
        linear_combination (-1 : ℚ) * h + (r.execQty - 2 ^ 32 - |(i.position : ℚ)|) * hdiv
      · intro h
        linear_combination (-1 : ℚ) * h + (r.execQty - 2 ^ 32 - |(i.position : ℚ)|) * hdiv

end Fill

section Run

variable {fs : List MEClientResponse} {r : MEClientResponse}

def net (fs : List MEClientResponse) : ℤ := (fs.map fun r ↦ r.execQty * sideToValue r.side).sum

def cashFlow (fs : List MEClientResponse) : ℚ :=
  (fs.map fun r ↦ -(sideToValue r.side * r.price * r.execQty : ℚ)).sum

theorem net_concat : net (fs ++ [r]) = net fs + r.execQty * sideToValue r.side := by simp [net]

theorem cashFlow_concat :
    cashFlow (fs ++ [r]) = cashFlow fs - sideToValue r.side * r.price * r.execQty := by
  simp [cashFlow, sub_eq_add_neg]

def after (fs : List MEClientResponse) : PositionInfo ℚ := fs.foldl addFill new

theorem after_concat : after (fs ++ [r]) = (after fs).addFill r := by simp [after]

/-- The position fits in 32 bits after the fill, and so does every product that is computed for it. -/
def InRange (before : List MEClientResponse) (r : MEClientResponse) : Prop :=
  Fits (net (before ++ [r])) ∧ Fits (net before * sideToValue r.side) ∧
    (net before * sideToValue r.side < 0 → Fits (net (before ++ [r]) * net before))

def Between (before : List MEClientResponse) (r : MEClientResponse) : Prop :=
  -2 ^ 31 < net (before ++ [r]) ∧ net (before ++ [r]) < 2 ^ 31

instance : DecidableRel Between := fun _ _ ↦ inferInstanceAs (Decidable (_ ∧ _))

/-- After this fill, profit is cash flow plus the value of the position at the price of the fill. -/
def Conserves (before : List MEClientResponse) (r : MEClientResponse) : Prop :=
  let i := after (before ++ [r])
  i.realPnl + i.unrealPnl = cashFlow (before ++ [r]) + i.position * r.price

instance (before : List MEClientResponse) (r : MEClientResponse) : Decidable (InRange before r) :=
  inferInstanceAs (Decidable (_ ∧ _ ∧ (_ → _)))

instance (before : List MEClientResponse) (r : MEClientResponse) : Decidable (Conserves before r) :=
  inferInstanceAs (Decidable (_ = _))

theorem position_after (h : EachAfter Between [] fs) :
    (after fs).position = net fs ∧ -2 ^ 31 < net fs ∧ net fs < 2 ^ 31 := by
  induction fs using List.reverseRecOn with
  | nil => exact ⟨rfl, by decide, by decide⟩
  | append_singleton fs r ih =>
    obtain ⟨hfs, hr⟩ := eachAfter_concat.mp h
    obtain ⟨hpos, -, -⟩ := ih hfs
    have hr' : -2 ^ 31 < net (fs ++ [r]) ∧ net (fs ++ [r]) < 2 ^ 31 := hr
    refine ⟨?_, hr'⟩
    rw [after_concat, position_addFill, newPosition, hpos, ← net_concat,
      toInt32_of_fits ⟨hr'.1.le, hr'.2⟩]

theorem InRange.products {i : PositionInfo ℚ} (h : InRange fs r) (hpos : i.position = net fs) :
    i.Products r := by
  obtain ⟨hfits, hside, hturn⟩ := h
  have hnew : i.newPosition r = net (fs ++ [r]) := by
    unfold newPosition
    rw [hpos, ← net_concat, toInt32_of_fits hfits]
  constructor
  · rw [hpos]
    exact hside
  · rw [hnew, hpos]
    exact hturn

theorem costs_after (hfill : ∀ r ∈ fs, IsFill r) (hrange : EachAfter InRange [] fs) :
    (after fs).Costs ∧ (after fs).position = net fs := by
  induction fs using List.reverseRecOn with
  | nil => exact ⟨Costs.new, rfl⟩
  | append_singleton fs r ih =>
    obtain ⟨hfs, hr⟩ := eachAfter_concat.mp hrange
    obtain ⟨hcosts, hpos⟩ := ih (fun r hr ↦ hfill r (List.mem_append_left _ hr)) hfs
    have hfits : Fits ((after fs).position + r.execQty * sideToValue r.side) := by
      rw [hpos, ← net_concat]
      exact hr.1
    rw [after_concat]
    refine ⟨hcosts.addFill (InRange.products hr hpos) (hfill r (by simp)) hfits, ?_⟩
    rw [position_addFill_fits hfits, hpos, net_concat]

theorem conserves_iff_balance (hcosts : (after (fs ++ [r])).Costs)
    (hbetween : EachAfter Between [] (fs ++ [r])) :
    Conserves fs r ↔ (after (fs ++ [r])).realPnl - (after (fs ++ [r])).basis = cashFlow (fs ++ [r]) := by
  obtain ⟨hpos, hnew⟩ := position_after hbetween
  rw [← hpos] at hnew
  simp only [Conserves]
  rw [after_concat] at hcosts hnew ⊢
  rw [unrealPnl_addFill hcosts hnew]
  constructor <;> intro h <;> linarith

theorem balance_of_conserves (hfill : ∀ r ∈ fs, IsFill r) (hrange : EachAfter InRange [] fs)
    (hbetween : EachAfter Between [] fs) (h : EachAfter Conserves [] fs) :
    (after fs).realPnl - (after fs).basis = cashFlow fs := by
  rcases List.eq_nil_or_concat' fs with rfl | ⟨fs, r, rfl⟩
  · simp [after, cashFlow, basis, new]
  · exact (conserves_iff_balance (costs_after hfill hrange).1 hbetween).mp (eachAfter_concat.mp h).2

/-- The accounts are kept over a sequence of fills, none of which leads to the smallest of the 32-bit
integers, if and only if each fill is booked right. -/
theorem conserves_iff_meets (hfill : ∀ r ∈ fs, IsFill r) (hrange : EachAfter InRange [] fs)
    (hbetween : EachAfter Between [] fs) :
    EachAfter Conserves [] fs ↔ EachAfter (fun before r ↦ (after before).Meets r) [] fs := by
  induction fs using List.reverseRecOn with
  | nil => exact iff_of_true trivial trivial
  | append_singleton fs r ih =>
    obtain ⟨hfs, hr⟩ := eachAfter_concat.mp hrange
    obtain ⟨hfs', hr'⟩ := eachAfter_concat.mp hbetween
    have hfill' : ∀ r ∈ fs, IsFill r := fun r hr ↦ hfill r (List.mem_append_left _ hr)
    obtain ⟨hcosts, hpos⟩ := costs_after hfill' hfs
    obtain ⟨-, hold⟩ := position_after hfs'
    have hisFill : IsFill r := hfill r (by simp)
    have hnew : -2 ^ 31 < (after fs).position + r.execQty * sideToValue r.side ∧
        (after fs).position + r.execQty * sideToValue r.side < 2 ^ 31 := by
      rw [hpos, ← net_concat]
      exact hr'
    rw [← hpos] at hold
    rw [eachAfter_concat, eachAfter_concat, ← ih hfill' hfs hfs']
    refine and_congr_right fun h ↦ ?_
    have hstep := balance_addFill hcosts (InRange.products hr hpos) hisFill hold hnew
    rw [List.nil_append, conserves_iff_balance (costs_after hfill hrange).1 hbetween, after_concat, hstep,
      cashFlow_concat, balance_of_conserves hfill' hfs hfs' h, add_eq_left,
      lapse_eq_zero_iff hisFill hold]

def fill (side : Side) (price : Price) (qty : Qty) : MEClientResponse where
  type := .FILLED
  clientId := 1
  tickerId := 0
  clientOrderId := 1
  marketOrderId := 1
  side := side
  price := price
  execQty := qty
  leavesQty := 0

/-- At the smallest of the 32-bit integers, which `std::abs` leaves negative, balanced accounts show the
right profit at the price zero only. -/
theorem conserves_smallest_iff (hfill : ∀ r' ∈ fs ++ [r], IsFill r')
    (hrange : EachAfter InRange [] (fs ++ [r])) (hbetween : EachAfter Between [] fs)
    (h : EachAfter Conserves [] fs) (hsell : net fs ≤ 0) (hnew : net (fs ++ [r]) = -2 ^ 31)
    (hfits : Fits64 (r.price * r.execQty)) : Conserves fs r ↔ r.price = 0 := by
  obtain ⟨hfs, hr⟩ := eachAfter_concat.mp hrange
  have hfill' : ∀ r ∈ fs, IsFill r := fun r hr ↦ hfill r (List.mem_append_left _ hr)
  obtain ⟨-, hpos⟩ := costs_after hfill' hfs
  obtain ⟨hcosts', hpos'⟩ := costs_after hfill hrange
  have hr' : IsFill r := hfill r (by simp)
  have hsmallest : (after (fs ++ [r])).position = -2 ^ 31 := hpos'.trans hnew
  have hside : sideToValue r.side = -1 := by
    rw [net_concat] at hnew
    rcases sideToValue_eq hr'.1 with hv | hv
    · have hlow := (position_after hbetween).2.1
      rw [hv] at hnew
      omega
    · exact hv
  have hadd : 0 ≤ (after fs).position * sideToValue r.side := by
    rw [hpos, hside]
    omega
  have hlapse : (after fs).lapse r = 0 := by
    have hcut : (after fs).lapse r = cut (r.price * r.execQty) * sideToValue r.side := if_pos hadd
    rw [hcut, cut_eq_zero_iff.mpr hfits, Int.cast_zero, zero_mul]
  have hbalance := balance_addFill_adding (InRange.products hr hpos) hr'
    (by rw [hpos, ← net_concat]; exact hr.1) hadd
  rw [hlapse, add_zero, balance_of_conserves hfill' hfs hbetween h, ← cashFlow_concat,
    ← after_concat] at hbalance
  have hunreal : (after (fs ++ [r])).unrealPnl = 2 ^ 31 * r.price - (after (fs ++ [r])).basis := by
    rw [← hcosts'.unrealAt_smallest hsmallest, after_concat]
    apply unrealPnl_addFill_open
    rw [← after_concat, hsmallest]
    decide
  simp only [Conserves]
  rw [hunreal, hsmallest]
  push_cast
  constructor
  · intro hsum
    have hprice : (r.price : ℚ) = 0 := by linarith
    exact_mod_cast hprice
  · intro hprice
    rw [hprice]
    push_cast
    linarith

def builtTurnedClosed : List MEClientResponse :=
  [fill .BUY 100 10, fill .BUY 106 5, fill .SELL 110 20, fill .BUY 108 5]

theorem conserves_built_turned_closed : EachAfter Conserves [] builtTurnedClosed := by
  refine (conserves_iff_meets ?_ ?_ ?_).mpr ?_
  · decide
  · exact ⟨by decide, by decide, by decide, by decide, trivial⟩
  · exact ⟨by decide, by decide, by decide, by decide, trivial⟩
  · exact ⟨by decide +kernel, by decide +kernel, by decide +kernel, by decide +kernel, trivial⟩

/-- Half of a position is sold with a profit, and the accounts show a loss. -/
theorem not_conserves_half : (∀ r ∈ [fill .BUY 100 10, fill .SELL 110 5], IsFill r) ∧
    EachAfter InRange [] [fill .BUY 100 10, fill .SELL 110 5] ∧
    ¬EachAfter Conserves [] [fill .BUY 100 10, fill .SELL 110 5] :=
  ⟨by decide, ⟨by decide, by decide, trivial⟩, fun h ↦ absurd h.2.1 (by decide +kernel)⟩

end Run

end LowLatency.Trading.PositionInfo
