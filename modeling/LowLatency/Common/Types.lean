import Mathlib.Tactic

namespace LowLatency.Common

def ME_MAX_TICKERS : ℕ := 8
def ME_MAX_NUM_CLIENTS : ℕ := 256
def ME_MAX_ORDER_IDS : ℕ := 1024 * 1042
def ME_MAX_PRICE_LEVELS : ℕ := 256

abbrev OrderId := ℕ
abbrev TickerId := ℕ
abbrev ClientId := ℕ
abbrev Price := ℤ
abbrev Qty := ℕ
abbrev Priority := ℕ

def OrderId_INVALID : OrderId := 2 ^ 64 - 1
def TickerId_INVALID : TickerId := 2 ^ 32 - 1
def ClientId_INVALID : ClientId := 2 ^ 32 - 1
def Price_INVALID : Price := 2 ^ 63 - 1
def Qty_INVALID : Qty := 2 ^ 32 - 1
def Priority_INVALID : Priority := 2 ^ 64 - 1

inductive Side
  | INVALID
  | BUY
  | SELL
  deriving DecidableEq, Repr

section ToString

variable {α : Type} [DecidableEq α] [ToString α]

def validToString (invalid x : α) : String := if x = invalid then "INVALID" else toString x

def orderIdToString : OrderId → String := validToString OrderId_INVALID
def tickerIdToString : TickerId → String := validToString TickerId_INVALID
def clientIdToString : ClientId → String := validToString ClientId_INVALID
def priceToString : Price → String := validToString Price_INVALID
def qtyToString : Qty → String := validToString Qty_INVALID
def priorityToString : Priority → String := validToString Priority_INVALID

def sideToString : Side → String
  | .BUY => "BUY"
  | .SELL => "SELL"
  | .INVALID => "INVALID"

end ToString

def sideToValue : Side → ℤ
  | .SELL => -1
  | .INVALID => 0
  | .BUY => 1

theorem sideToValue_eq {side : Side} (h : side ≠ .INVALID) :
    sideToValue side = 1 ∨ sideToValue side = -1 := by
  cases side with
  | INVALID => exact absurd rfl h
  | SELL => exact .inr rfl
  | BUY => exact .inl rfl

/-- The value of a 32-bit signed integer that was computed modulo `2 ^ 32`. -/
def toInt32 (x : ℤ) : ℤ := x.bmod (2 ^ 32)

theorem toInt32_of_fits {x : ℤ} (h : -2 ^ 31 ≤ x ∧ x < 2 ^ 31) : toInt32 x = x := by
  unfold toInt32
  rw [Int.bmod_def]
  split_ifs <;> omega

theorem toInt32_eq_self_iff {x : ℤ} : toInt32 x = x ↔ -2 ^ 31 ≤ x ∧ x < 2 ^ 31 := by
  refine ⟨fun h ↦ ?_, toInt32_of_fits⟩
  unfold toInt32 at h
  rw [Int.bmod_def] at h
  split_ifs at h <;> omega

/-- `std::abs` of a 32-bit integer; the smallest one, which has no positive counterpart, stays negative. -/
def absInt32 (x : ℤ) : ℤ := toInt32 |x|

theorem absInt32_eq {x : ℤ} (h : -2 ^ 31 ≤ x ∧ x < 2 ^ 31) :
    absInt32 x = if x = -2 ^ 31 then -2 ^ 31 else |x| := by
  split_ifs with hx
  · rw [hx]
    decide
  · refine toInt32_of_fits ⟨le_trans (by norm_num) (abs_nonneg x), abs_lt.mpr ⟨?_, h.2⟩⟩
    exact lt_of_le_of_ne h.1 (Ne.symm hx)

theorem toInt32_bounds (x : ℤ) : -2 ^ 31 ≤ toInt32 x ∧ toInt32 x < 2 ^ 31 := by
  unfold toInt32
  rw [Int.bmod_def]
  split_ifs <;> omega

theorem toInt32_neg (x : ℤ) :
    toInt32 (-x) = if toInt32 x = -2 ^ 31 then -2 ^ 31 else -toInt32 x := by
  unfold toInt32
  rw [Int.bmod_def, Int.bmod_def]
  split_ifs <;> omega

theorem absInt32_toInt32_neg (x : ℤ) : absInt32 (toInt32 (-x)) = absInt32 (toInt32 x) := by
  rw [toInt32_neg]
  split_ifs with hsmallest
  · rw [hsmallest]
  · unfold absInt32
    rw [abs_neg]

def toInt64 (x : ℤ) : ℤ := x.bmod (2 ^ 64)

theorem toInt64_of_fits {x : ℤ} (h : -2 ^ 63 ≤ x ∧ x < 2 ^ 63) : toInt64 x = x := by
  unfold toInt64
  rw [Int.bmod_def]
  split_ifs <;> omega

structure RiskCfg (D : Type) where
  maxOrderSize : Qty
  maxPosition : Qty
  maxLoss : D

/-- The fields of `TradeEngineCfg` beside the limits, which the risk manager keeps. -/
structure TradeEngineCfg (D : Type) where
  clip : Qty
  threshold : D

/-- An address inside a memory pool; a C++ pointer is an `Option Ptr`. -/
abbrev Ptr := ℕ

theorem length_le_of_lt {ps : List Ptr} {n : ℕ} (hd : ps.Nodup) (h : ∀ p ∈ ps, p < n) :
    ps.length ≤ n := by
  have hsub : ps ⊆ List.range n := fun p hp ↦ List.mem_range.mpr (h p hp)
  simpa using (hd.subperm hsub).length_le

/-- The ways in which a call fails to return. The first three end the process: `ASSERT` and
`FATAL` call `exit`, and `std::array::at` throws inside a `noexcept` function. The others are an
unchecked index beyond an array, a dereferenced null pointer and a loop that never ends. -/
inductive Fault
  | assertion (msg : String)
  | fatal (msg : String)
  | outOfRange
  | outOfBounds
  | nullPointer
  | diverges
  deriving DecidableEq, Repr

/-- The process was ended on purpose rather than left undefined. -/
def Fault.Exits : Fault → Prop
  | .assertion _ | .fatal _ | .outOfRange => True
  | .outOfBounds | .nullPointer | .diverges => False

instance : DecidablePred Fault.Exits := fun f ↦ by cases f <;> unfold Fault.Exits <;> infer_instance

/-- An index that `at` rejects, or that leads out of an array unchecked. -/
def Fault.Indexes (f : Fault) : Prop := f = .outOfRange ∨ f = .outOfBounds

instance : DecidablePred Fault.Indexes := fun f ↦
  inferInstanceAs (Decidable (f = .outOfRange ∨ f = .outOfBounds))

section Except

variable {ε α β : Type} (a : α) (e : ε) (f : α → Except ε β)

@[simp] theorem pure_eq_ok : (pure a : Except ε α) = .ok a := rfl

@[simp] theorem ok_bind : (.ok a >>= f) = f a := rfl

@[simp] theorem error_bind : (.error e >>= f) = .error e := rfl

theorem bind_eq_ok {x : Except ε α} {f : α → Except ε β} {b : β} (h : x >>= f = .ok b) :
    ∃ a, x = .ok a ∧ f a = .ok b := by
  cases x with
  | error e => cases h
  | ok a => exact ⟨a, rfl, h⟩

end Except

def deref : Option Ptr → Except Fault Ptr
  | some p => .ok p
  | none => .error .nullPointer

@[simp] theorem deref_some (p : Ptr) : deref (some p) = .ok p := rfl

/-- `price % ME_MAX_PRICE_LEVELS`, where the operand is converted to an unsigned 64-bit integer. -/
def priceToIndex (price : Price) : ℕ := ((price % 2 ^ 64) % ME_MAX_PRICE_LEVELS).toNat

theorem priceToIndex_lt (price : Price) : priceToIndex price < ME_MAX_PRICE_LEVELS := by
  unfold priceToIndex ME_MAX_PRICE_LEVELS
  omega

end LowLatency.Common
