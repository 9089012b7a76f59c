import LowLatency.Exchange.Messages
import LowLatency.Trading.MarketOrderBook

namespace LowLatency.Trading

open Common Exchange Function

/-- The fields of type `double` have values in `D`. -/
structure PositionInfo (D : Type) where
  position : ℤ
  realPnl : D
  unrealPnl : D
  totalPnl : D
  openVwap : Side → D
  volume : Qty

namespace PositionInfo

section Integers

variable {D : Type} (i : PositionInfo D) (r : MEClientResponse)

/-- `std::abs(m_position)`. -/
def size : ℤ := absInt32 i.position

def newPosition : ℤ := toInt32 (i.position + r.execQty * sideToValue r.side)

/-- `old_position * side_value`. -/
def sideProduct : ℤ := toInt32 (i.position * sideToValue r.side)

/-- `m_position * old_position`. -/
def turnProduct : ℤ := toInt32 (i.newPosition r * i.position)

def closedQty : ℤ := min (toInt32 r.execQty) i.size

end Integers

variable {D : Type} [Add D] [Sub D] [Mul D] [Div D] [IntCast D]

def new [Zero D] : PositionInfo D where
  position := 0
  realPnl := 0
  unrealPnl := 0
  totalPnl := 0
  openVwap := fun _ ↦ 0
  volume := 0

def unrealAt (i : PositionInfo D) (price : D) : D :=
  let size : D := (i.size : D)
  if 0 < i.position then (price - i.openVwap .BUY / size) * size
  else (i.openVwap .SELL / size - price) * size

def opposite (side : Side) : Side := if side = .BUY then .SELL else .BUY

def Priced (bbo : BBO) : Prop := bbo.bidPrice ≠ Price_INVALID ∧ bbo.askPrice ≠ Price_INVALID

instance : DecidablePred Priced := fun _ ↦ inferInstanceAs (Decidable (_ ∧ _))

/-- The sum of the prices is a 64-bit integer, and it is multiplied by one half. -/
def midPrice [One D] (bbo : BBO) : D :=
  ((toInt64 (bbo.bidPrice + bbo.askPrice) : ℤ) : D) * (1 / (1 + 1))

def updateBBO [One D] (i : PositionInfo D) (bbo : BBO) : PositionInfo D :=
  if i.position ≠ 0 ∧ Priced bbo then
    let i := { i with unrealPnl := i.unrealAt (midPrice bbo) }
    { i with totalPnl := i.unrealPnl + i.realPnl }
  else i

@[simp] theorem position_updateBBO [One D] (i : PositionInfo D) (bbo : BBO) :
    (i.updateBBO bbo).position = i.position := by
  unfold updateBBO
  split_ifs <;> rfl

variable [Zero D]

/-- The first half of `addFill`: the open cost of an added quantity, or what a closed one earned.
The open cost of the closed side stays what it was until the position is flat or turned. -/
def addCost (i : PositionInfo D) (r : MEClientResponse) : PositionInfo D :=
  let old := i
  let i := { i with
    position := old.newPosition r
    volume := (i.volume + r.execQty) % 2 ^ 32 }
  if 0 ≤ old.sideProduct r then
    let cost : D := i.openVwap r.side + ((toInt64 (r.price * r.execQty) : ℤ) : D)
    { i with openVwap := update i.openVwap r.side cost }
  else
    let oppVwap : D := i.openVwap (opposite r.side) / (old.size : D)
    let earned : D := (old.closedQty r : D) * (oppVwap - (r.price : D)) * (sideToValue r.side : D)
    let i := { i with realPnl := i.realPnl + earned }
    if old.turnProduct r < 0 then
      let cost : D := ((toInt64 (r.price * i.size) : ℤ) : D)
      { i with openVwap := update (update i.openVwap r.side cost) (opposite r.side) 0 }
    else i

def addFill (i : PositionInfo D) (r : MEClientResponse) : PositionInfo D :=
  let i := i.addCost r
  if i.position = 0 then
    { i with openVwap := update (update i.openVwap .SELL 0) .BUY 0, unrealPnl := 0 }
  else
    let i := { i with unrealPnl := i.unrealAt (r.price : D) }
    { i with totalPnl := i.unrealPnl + i.realPnl }

@[simp] theorem position_addCost (i : PositionInfo D) (r : MEClientResponse) :
    (i.addCost r).position = i.newPosition r := by
  simp only [addCost]
  split_ifs <;> rfl

@[simp] theorem position_addFill (i : PositionInfo D) (r : MEClientResponse) :
    (i.addFill r).position = i.newPosition r := by
  simp only [addFill]
  split_ifs <;> simp

end PositionInfo

abbrev PositionKeeper (D : Type) := TickerId → PositionInfo D

namespace PositionKeeper

variable {D : Type} [Zero D] [One D] [Add D] [Sub D] [Mul D] [Div D] [IntCast D]

def addFill (k : PositionKeeper D) (r : MEClientResponse) : Except Fault (PositionKeeper D) :=
  if r.tickerId < ME_MAX_TICKERS then .ok (update k r.tickerId ((k r.tickerId).addFill r))
  else .error .outOfRange

def updateBBO (k : PositionKeeper D) (tickerId : TickerId) (bbo : BBO) :
    Except Fault (PositionKeeper D) :=
  if tickerId < ME_MAX_TICKERS then .ok (update k tickerId ((k tickerId).updateBBO bbo))
  else .error .outOfRange

end PositionKeeper

end LowLatency.Trading
