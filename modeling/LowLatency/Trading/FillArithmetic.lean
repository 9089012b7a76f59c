import LowLatency.Trading.Pnl

namespace LowLatency.Trading.PositionInfo

open Common Exchange

def Reduces (before : List MEClientResponse) (r : MEClientResponse) : Prop :=
  net before * sideToValue r.side < 0

instance : DecidableRel Reduces := fun _ _ ↦ inferInstanceAs (Decidable (_ < _))

def Turns (before : List MEClientResponse) (r : MEClientResponse) : Prop :=
  (0 < net before ∧ net (before ++ [r]) < 0) ∨ (net before < 0 ∧ 0 < net (before ++ [r]))

/-- The 32-bit integers of `addFill` have the values that they have in exact arithmetic, and the test of
their sign sees what the fill does to the position. -/
structure Exact (before : List MEClientResponse) (r : MEClientResponse) : Prop where
  old : (after before).position = net before
  new : (after before).newPosition r = net (before ++ [r])
  side : (after before).sideProduct r = net before * sideToValue r.side
  execQty : toInt32 r.execQty = r.execQty
  oldSize : (after before).size = |net before|
  newSize : (after (before ++ [r])).size = |net (before ++ [r])|
  product : Reduces before r → (after before).turnProduct r = net (before ++ [r]) * net before
  test : Reduces before r → ((after before).turnProduct r < 0 ↔ Turns before r)

/-- The product of the positions before and after a fill against the position fits in 32 bits. -/
def ProductFits (before : List MEClientResponse) (r : MEClientResponse) : Prop :=
  Reduces before r → Fits (net (before ++ [r]) * net before)

instance : DecidableRel ProductFits := fun _ _ ↦ inferInstanceAs (Decidable (_ < _ → Fits _))

variable {fs before : List MEClientResponse} {r : MEClientResponse}

theorem mul_net_neg_iff : net (before ++ [r]) * net before < 0 ↔ Turns before r := by
  rw [mul_comm, mul_neg_iff]
  rfl

theorem exact_iff (hold : (after before).position = net before)
    (hbefore : -2 ^ 31 < net before ∧ net before < 2 ^ 31) (hr : Between before r)
    (hqty : r.execQty < 2 ^ 31) : Exact before r ↔ ProductFits before r := by
  have hqty' : (r.execQty : ℤ) < 2 ^ 31 := by exact_mod_cast hqty
  have hnew : (after before).newPosition r = net (before ++ [r]) := by
    unfold newPosition
    rw [hold, ← net_concat, toInt32_of_fits ⟨hr.1.le, hr.2⟩]
  have hafter : (after (before ++ [r])).position = net (before ++ [r]) := by
    rw [after_concat, position_addFill, hnew]
  have hturn : (after before).turnProduct r = toInt32 (net (before ++ [r]) * net before) := by
    unfold turnProduct
    rw [hnew, hold]
  constructor
  · intro h hred
    have hproduct := h.product hred
    rw [hturn] at hproduct
    exact toInt32_eq_self_iff.mp hproduct
  · intro h
    have hproduct : Reduces before r →
        (after before).turnProduct r = net (before ++ [r]) * net before := fun hred ↦ by
      rw [hturn]
      exact toInt32_of_fits (h hred)
    refine ⟨hold, hnew, ?_, toInt32_of_fits ⟨by omega, hqty'⟩, ?_, ?_, hproduct, fun hred ↦ ?_⟩
    · unfold sideProduct
      rw [hold]
      refine toInt32_of_fits ?_
      cases r.side <;> simp only [sideToValue] <;> omega
    · rw [size_eq (by rwa [hold]), hold]
    · rw [size_eq (by rw [hafter]; exact hr), hafter]
    · rw [hproduct hred]
      exact mul_net_neg_iff

/-- Over a sequence of fills all the integers are exact if and only if the product of the positions before
and after each fill against the position fits. -/
theorem arithmetic_exact_iff (hrange : EachAfter Between [] fs) (hqty : ∀ r ∈ fs, r.execQty < 2 ^ 31) :
    EachAfter Exact [] fs ↔ EachAfter ProductFits [] fs := by
  induction fs using List.reverseRecOn with
  | nil => exact iff_of_true trivial trivial
  | append_singleton fs r ih =>
    obtain ⟨hfs, hr⟩ := eachAfter_concat.mp hrange
    obtain ⟨hpos, hbefore⟩ := position_after hfs
    rw [eachAfter_concat, eachAfter_concat, ih hfs fun r hr ↦ hqty r (List.mem_append_left _ hr)]
    exact and_congr_right fun _ ↦ exact_iff hpos hbefore hr (hqty r (by simp))

def turnedTwice : List MEClientResponse := [fill .BUY 100 40000, fill .SELL 110 80000, fill .BUY 105 50000]

theorem arithmetic_exact_turned : EachAfter Exact [] turnedTwice := by
  have hrange : EachAfter Between [] turnedTwice := ⟨by decide, by decide, by decide, trivial⟩
  have hfits : EachAfter ProductFits [] turnedTwice := ⟨by decide, by decide, by decide, trivial⟩
  exact (arithmetic_exact_iff hrange (by decide)).mpr hfits

/-- Half of a position of `2 ^ 16` is sold, and the product of the two positions is negative. -/
theorem not_exact_half : EachAfter Between [] [fill .BUY 100 (2 ^ 16), fill .SELL 110 (2 ^ 15)] ∧
    (∀ r ∈ [fill .BUY 100 (2 ^ 16), fill .SELL 110 (2 ^ 15)], r.execQty < 2 ^ 31) ∧
    ¬ EachAfter Exact [] [fill .BUY 100 (2 ^ 16), fill .SELL 110 (2 ^ 15)] := by
  refine ⟨⟨by decide, by decide, trivial⟩, by decide, fun h ↦ ?_⟩
  have hproduct := h.2.1.product (by decide)
  exact absurd hproduct (by decide +kernel)

end LowLatency.Trading.PositionInfo
