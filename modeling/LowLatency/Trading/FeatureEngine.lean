import LowLatency.Trading.MarketOrderBook

namespace LowLatency.Trading

open Common Exchange

namespace BBO

def Valid (bbo : BBO) : Prop := bbo.bidPrice ≠ Price_INVALID ∧ bbo.askPrice ≠ Price_INVALID

instance : DecidablePred Valid := fun _ ↦ inferInstanceAs (Decidable (_ ∧ _))

/-- Each price times the quantity of the other side, a sum of 64-bit integers. -/
def weightedPrices (bbo : BBO) : ℤ :=
  toInt64 (toInt64 (bbo.bidPrice * bbo.askQty) + toInt64 (bbo.askPrice * bbo.bidQty))

/-- The quantities are added before the sum becomes a `double`. -/
def totalQty (bbo : BBO) : Qty := (bbo.bidQty + bbo.askQty) % 2 ^ 32

/-- What the quantity of a trade is divided by: for a sell it is the price of the bid. -/
def aggressedQty (bbo : BBO) (side : Side) : ℤ := if side = .BUY then bbo.askQty else bbo.bidPrice

end BBO

/-- The value `Feature_INVALID` is not a number; it is `none` here. What a division by zero gives is
left to `D`. -/
structure FeatureEngine (D : Type) where
  mktPrice : Option D
  aggTradeQtyRatio : Option D
  deriving DecidableEq, Repr

namespace FeatureEngine

section

variable {D : Type} [Div D] [IntCast D]

def new : FeatureEngine D := ⟨none, none⟩

def onOrderBookUpdate (f : FeatureEngine D) (bbo : BBO) : FeatureEngine D :=
  if bbo.Valid then
    { f with mktPrice := some ((bbo.weightedPrices : D) / ((bbo.totalQty : ℤ) : D)) }
  else f

def onTradeUpdate (f : FeatureEngine D) (u : MEMarketUpdate) (bbo : BBO) : FeatureEngine D :=
  if bbo.Valid then
    { f with aggTradeQtyRatio := some (((u.qty : ℤ) : D) / (bbo.aggressedQty u.side : D)) }
  else f

end

/-- A book that is not crossed, with prices of thirty bits. -/
structure Quotes (bbo : BBO) : Prop where
  le : bbo.bidPrice ≤ bbo.askPrice
  bid : |bbo.bidPrice| < 2 ^ 30
  ask : |bbo.askPrice| < 2 ^ 30
  bidQty : 0 < bbo.bidQty ∧ bbo.bidQty < 2 ^ 32
  askQty : 0 < bbo.askQty ∧ bbo.askQty < 2 ^ 32

/-- The division is one by a number other than zero, and its result is inside the spread. -/
def InSpread (f : FeatureEngine ℚ) (bbo : BBO) : Prop :=
  bbo.totalQty ≠ 0 ∧ ∃ price : ℚ, (f.onOrderBookUpdate bbo).mktPrice = some price ∧
    (bbo.bidPrice : ℚ) ≤ price ∧ price ≤ bbo.askPrice

/-- The quantities add up to less than `2 ^ 32`; or to more, and the spread is so wide that a mean
over the rest of the total stays inside it. -/
def Totals (bbo : BBO) : Prop :=
  bbo.bidQty + bbo.askQty < 2 ^ 32 ∨
    (2 ^ 32 < bbo.bidQty + bbo.askQty ∧
      -(2 ^ 32 * bbo.bidPrice) ≤ (bbo.askPrice - bbo.bidPrice) * bbo.bidQty ∧
      2 ^ 32 * bbo.askPrice ≤ (bbo.askPrice - bbo.bidPrice) * bbo.askQty)

instance : DecidablePred Totals := fun _ ↦ inferInstanceAs (Decidable (_ ∨ _ ∧ _ ∧ _))

variable {bbo : BBO}

theorem abs_mul_lt {price : ℤ} {qty : ℕ} (hprice : |price| < 2 ^ 30) (hqty : qty < 2 ^ 32) :
    |price * qty| < 2 ^ 62 := by
  have hqty' : |(qty : ℤ)| < 2 ^ 32 := by
    rw [Nat.abs_cast]
    exact_mod_cast hqty
  rw [abs_mul]
  calc |price| * |(qty : ℤ)| < 2 ^ 30 * 2 ^ 32 :=
        mul_lt_mul'' hprice hqty' (abs_nonneg _) (abs_nonneg _)
    _ = 2 ^ 62 := by norm_num

namespace Quotes

theorem valid (h : Quotes bbo) : bbo.Valid := by
  have hsmall : ∀ price : Price, |price| < 2 ^ 30 → price ≠ Price_INVALID := by
    rintro _ hprice rfl
    exact absurd hprice (by decide)
  exact ⟨hsmall _ h.bid, hsmall _ h.ask⟩

theorem weightedPrices_eq (h : Quotes bbo) :
    bbo.weightedPrices = bbo.bidPrice * bbo.askQty + bbo.askPrice * bbo.bidQty := by
  obtain ⟨hbid, hbid'⟩ := abs_lt.mp (abs_mul_lt h.bid h.askQty.2)
  obtain ⟨hask, hask'⟩ := abs_lt.mp (abs_mul_lt h.ask h.bidQty.2)
  -- neither a product nor the sum leaves the 64 bits
  unfold BBO.weightedPrices
  rw [toInt64_of_fits (x := bbo.bidPrice * bbo.askQty), toInt64_of_fits (x := bbo.askPrice * bbo.bidQty),
    toInt64_of_fits]
  all_goals omega

end Quotes

theorem mean_within_iff (bid ask a b k : ℤ) :
    (bid * (b + a - k) ≤ bid * a + ask * b ∧ bid * a + ask * b ≤ ask * (b + a - k)) ↔
      -(k * bid) ≤ (ask - bid) * b ∧ k * ask ≤ (ask - bid) * a := by
  constructor
  · rintro ⟨hbid, hask⟩
    constructor <;> linarith
  · rintro ⟨hbid, hask⟩
    constructor <;> linarith

theorem inSpread_iff (h : Quotes bbo) (f : FeatureEngine ℚ) : f.InSpread bbo ↔ bbo.totalQty ≠ 0 ∧
    bbo.bidPrice * bbo.totalQty ≤ bbo.bidPrice * bbo.askQty + bbo.askPrice * bbo.bidQty ∧
    bbo.bidPrice * bbo.askQty + bbo.askPrice * bbo.bidQty ≤ bbo.askPrice * bbo.totalQty := by
  have hrun : (f.onOrderBookUpdate bbo).mktPrice =
      some ((bbo.weightedPrices : ℚ) / ((bbo.totalQty : ℤ) : ℚ)) := by
    rw [onOrderBookUpdate, if_pos h.valid]
  unfold InSpread
  rw [hrun, h.weightedPrices_eq]
  apply and_congr_right
  intro hne
  have hpos : (0 : ℚ) < ((bbo.totalQty : ℤ) : ℚ) := by
    exact_mod_cast Nat.pos_of_ne_zero hne
  simp only [Option.some.injEq, exists_eq_left']
  rw [le_div_iff₀ hpos, div_le_iff₀ hpos]
  norm_cast

/-- The total is what it should be, or too small by `2 ^ 32`. -/
theorem totals_iff {bid ask : ℤ} {b a : ℕ} (hle : bid ≤ ask) (hb : 0 < b ∧ b < 2 ^ 32)
    (ha : 0 < a ∧ a < 2 ^ 32) :
    ((b + a) % 2 ^ 32 ≠ 0 ∧ bid * ((b + a) % 2 ^ 32 : ℕ) ≤ bid * a + ask * b ∧
      bid * a + ask * b ≤ ask * ((b + a) % 2 ^ 32 : ℕ)) ↔
    b + a < 2 ^ 32 ∨ (2 ^ 32 < b + a ∧ -(2 ^ 32 * bid) ≤ (ask - bid) * b ∧
      2 ^ 32 * ask ≤ (ask - bid) * a) := by
  rcases lt_trichotomy (b + a) (2 ^ 32) with hlt | heq | hgt
  · have hzero := (mean_within_iff bid ask a b 0).mpr <| by
      rw [zero_mul, zero_mul, neg_zero]
      exact ⟨mul_nonneg (sub_nonneg.mpr hle) (Int.natCast_nonneg b),
        mul_nonneg (sub_nonneg.mpr hle) (Int.natCast_nonneg a)⟩
    rw [Nat.mod_eq_of_lt hlt, Nat.cast_add]
    rw [sub_zero] at hzero
    exact iff_of_true ⟨by omega, hzero⟩ (.inl hlt)
  · rw [heq, Nat.mod_self]
    simp
  · have htotal : (b + a) % 2 ^ 32 = b + a - 2 ^ 32 := by omega
    have hcast : ((b + a - 2 ^ 32 : ℕ) : ℤ) = b + a - 2 ^ 32 := by omega
    have hne : b + a - 2 ^ 32 ≠ 0 := by omega
    rw [htotal, hcast, mean_within_iff]
    simp only [hne, hgt, hgt.not_gt, ne_eq, not_false_eq_true, true_and, false_or]

/-- The fair price is inside the spread if and only if the total of the quantities allows it. -/
theorem inSpread_iff_totals (h : Quotes bbo) (f : FeatureEngine ℚ) :
    f.InSpread bbo ↔ Totals bbo :=
  (inSpread_iff h f).trans (totals_iff h.le h.bidQty h.askQty)

theorem inSpread_full_ask : new.InSpread ⟨100, 102, 1, 2 ^ 32 - 2⟩ :=
  (inSpread_iff_totals ⟨by decide, by decide, by decide, by decide, by decide⟩ new).mpr
    (by decide)

/-- Two quantities of `2 ^ 31` have a total of zero. -/
theorem not_inSpread_half : Quotes ⟨100, 102, 2 ^ 31, 2 ^ 31⟩ ∧
    ¬ new.InSpread ⟨100, 102, 2 ^ 31, 2 ^ 31⟩ :=
  ⟨⟨by decide, by decide, by decide, by decide, by decide⟩, fun h ↦ h.1 (by decide)⟩

/-- With prices above zero a total that wraps always leads outside. -/
theorem totals_iff_fits (h : Quotes bbo) (hpos : 0 < bbo.bidPrice) :
    Totals bbo ↔ bbo.bidQty + bbo.askQty < 2 ^ 32 := by
  refine ⟨fun ht ↦ ht.resolve_right ?_, .inl⟩
  rintro ⟨-, -, hask⟩
  have hqty : (bbo.askQty : ℤ) < 2 ^ 32 := by exact_mod_cast h.askQty.2
  nlinarith [h.le]

end FeatureEngine

end LowLatency.Trading
