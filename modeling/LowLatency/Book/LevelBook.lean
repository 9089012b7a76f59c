import LowLatency.Common.MemPool

namespace LowLatency.Book

open Common Function

/-- `MEOrder` and `MarketOrder`; `key` holds the fields in which they differ. -/
structure OrderNode (κ : Type) where
  key : κ
  side : Side
  price : Price
  qty : Qty
  priority : Priority
  prevOrder : Option Ptr
  nextOrder : Option Ptr
  deriving DecidableEq

/-- `MEOrderAtPrice` and `MarketOrdersAtPrice`. -/
structure OrdersAtPrice where
  side : Side
  price : Price
  firstOrder : Option Ptr
  prevEntry : Option Ptr
  nextEntry : Option Ptr
  deriving DecidableEq

/-- The entry of the order table that an order is stored under; `none` if `at` throws. -/
class TableKey (κ : Type) (τ : outParam Type) where
  entry : κ → Option τ

/-- `MEOrderBook` and `MarketOrderBook` keep their orders with the same code, up to the fields that identify
an order, `κ`, and the table `τ` it is looked up in. -/
structure LevelBook (κ τ : Type) where
  orderPool : MemPool (OrderNode κ)
  ordersAtPricePool : MemPool OrdersAtPrice
  bidsByPrice : Option Ptr
  asksByPrice : Option Ptr
  priceOrdersAtPrice : ℕ → Option Ptr
  orderTable : τ → Option Ptr

namespace LevelBook

variable {κ τ : Type}

def order (b : LevelBook κ τ) (p : Ptr) : OrderNode κ := b.orderPool.get p

def prevOrder (b : LevelBook κ τ) (p : Ptr) : Option Ptr := (b.order p).prevOrder

def nextOrder (b : LevelBook κ τ) (p : Ptr) : Option Ptr := (b.order p).nextOrder

def level (b : LevelBook κ τ) (l : Ptr) : OrdersAtPrice := b.ordersAtPricePool.get l

def levelSide (b : LevelBook κ τ) (l : Ptr) : Side := (b.level l).side

def levelPrice (b : LevelBook κ τ) (l : Ptr) : Price := (b.level l).price

def firstOrder (b : LevelBook κ τ) (l : Ptr) : Option Ptr := (b.level l).firstOrder

def prevEntry (b : LevelBook κ τ) (l : Ptr) : Option Ptr := (b.level l).prevEntry

def nextEntry (b : LevelBook κ τ) (l : Ptr) : Option Ptr := (b.level l).nextEntry

def writeOrder (b : LevelBook κ τ) (p : Ptr) (f : OrderNode κ → OrderNode κ) : LevelBook κ τ :=
  { b with orderPool := b.orderPool.modify p f }

def writeLevel (b : LevelBook κ τ) (l : Ptr) (f : OrdersAtPrice → OrdersAtPrice) : LevelBook κ τ :=
  { b with ordersAtPricePool := b.ordersAtPricePool.modify l f }

@[simp] def setQty (b : LevelBook κ τ) (p : Ptr) (qty : Qty) : LevelBook κ τ :=
  b.writeOrder p fun o ↦ { o with qty := qty }

@[simp] def setPrevOrder (b : LevelBook κ τ) (p : Ptr) (v : Option Ptr) : LevelBook κ τ :=
  b.writeOrder p fun o ↦ { o with prevOrder := v }

@[simp] def setNextOrder (b : LevelBook κ τ) (p : Ptr) (v : Option Ptr) : LevelBook κ τ :=
  b.writeOrder p fun o ↦ { o with nextOrder := v }

@[simp] def setFirstOrder (b : LevelBook κ τ) (l : Ptr) (v : Option Ptr) : LevelBook κ τ :=
  b.writeLevel l fun n ↦ { n with firstOrder := v }

@[simp] def setPrevEntry (b : LevelBook κ τ) (l : Ptr) (v : Option Ptr) : LevelBook κ τ :=
  b.writeLevel l fun n ↦ { n with prevEntry := v }

@[simp] def setNextEntry (b : LevelBook κ τ) (l : Ptr) (v : Option Ptr) : LevelBook κ τ :=
  b.writeLevel l fun n ↦ { n with nextEntry := v }

/-- `side == Side::BUY ? m_bids_by_price : m_asks_by_price` -/
def best (b : LevelBook κ τ) (side : Side) : Option Ptr :=
  if side = .BUY then b.bidsByPrice else b.asksByPrice

def setBest (b : LevelBook κ τ) (side : Side) (l : Option Ptr) : LevelBook κ τ :=
  if side = .BUY then { b with bidsByPrice := l } else { b with asksByPrice := l }

def setPrice (b : LevelBook κ τ) (price : Price) (l : Option Ptr) : LevelBook κ τ :=
  { b with priceOrdersAtPrice := update b.priceOrdersAtPrice (priceToIndex price) l }

def getOrdersAtPrice (b : LevelBook κ τ) (price : Price) : Option Ptr :=
  b.priceOrdersAtPrice (priceToIndex price)

/-- The condition that `addOrdersAtPrice` recomputes at every level its search visits. -/
def addAfter (side : Side) (price target : Price) : Bool :=
  (side = .SELL && price > target) || (side = .BUY && price ≠ 0)

/-- The `while` loop of `addOrdersAtPrice`. -/
def findTarget (b : LevelBook κ τ) (side : Side) (price : Price) (bestLevel : Ptr) :
    ℕ → Ptr → Bool → Except Fault (Ptr × Bool)
  | 0, _, _ => .error .diverges
  | fuel + 1, target, after =>
    if after && target ≠ bestLevel then
      if addAfter side price (b.levelPrice target) then do
        let target ← deref (b.nextEntry target)
        b.findTarget side price bestLevel fuel target true
      else b.findTarget side price bestLevel fuel target false
    else .ok (target, after)

def searchTarget (b : LevelBook κ τ) (side : Side) (price : Price) (bestLevel : Ptr) :
    Except Fault (Ptr × Bool) :=
  let fuel := b.ordersAtPricePool.size + 2
  if addAfter side price (b.levelPrice bestLevel) then do
    let target ← deref (b.nextEntry bestLevel)
    b.findTarget side price bestLevel fuel target (addAfter side price (b.levelPrice target))
  else b.findTarget side price bestLevel fuel bestLevel false

/-- The branch of `addOrdersAtPrice` that links the new level behind `target`. -/
def linkAfter (b : LevelBook κ τ) (l bestLevel target : Ptr) : Except Fault (LevelBook κ τ) := do
  let target ← if target = bestLevel then deref (b.prevEntry bestLevel) else .ok target
  let b := b.setPrevEntry l (some target)
  let next ← deref (b.nextEntry target)
  let b := b.setPrevEntry next (some l)
  let b := b.setNextEntry l (b.nextEntry target)
  return b.setNextEntry target (some l)

/-- The branch of `addOrdersAtPrice` that links the new level in front of `target`. It takes the
new level's `prevEntry` from the target's `nextEntry` and leaves the target's `prevEntry` alone. -/
def linkBefore (b : LevelBook κ τ) (l bestLevel target : Ptr) : Except Fault (LevelBook κ τ) := do
  let side := b.levelSide l
  let price := b.levelPrice l
  let b := b.setPrevEntry l (b.nextEntry target)
  let b := b.setNextEntry l (some target)
  let prev ← deref (b.prevEntry target)
  let b := b.setNextEntry prev (some l)
  if (side = .BUY ∧ price > b.levelPrice bestLevel) ∨
      (side = .SELL ∧ price < b.levelPrice bestLevel) then
    let b := b.setNextEntry target
      (if b.nextEntry target = some bestLevel then some l else b.nextEntry target)
    return b.setBest side (some l)
  else return b

def addOrdersAtPrice (b : LevelBook κ τ) (l : Ptr) : Except Fault (LevelBook κ τ) :=
  let side := b.levelSide l
  let price := b.levelPrice l
  let b := b.setPrice price (some l)
  match b.best side with
  | none => .ok (((b.setBest side (some l)).setNextEntry l (some l)).setPrevEntry l (some l))
  | some bestLevel => do
    let (target, after) ← b.searchTarget side price bestLevel
    if after then b.linkAfter l bestLevel target else b.linkBefore l bestLevel target

def getNextPriority (b : LevelBook κ τ) (price : Price) : Except Fault Priority :=
  match b.getOrdersAtPrice price with
  | none => .ok 1
  | some l => do
    let first ← deref (b.firstOrder l)
    let last ← deref (b.prevOrder first)
    return ((b.order last).priority + 1) % 2 ^ 64

def linkOrder (b : LevelBook κ τ) (p : Ptr) : Except Fault (LevelBook κ τ) :=
  match b.getOrdersAtPrice (b.order p).price with
  | none => do
    let b := (b.setPrevOrder p (some p)).setNextOrder p (some p)
    let (l, pool) ← b.ordersAtPricePool.allocate
      ⟨(b.order p).side, (b.order p).price, some p, none, none⟩
    addOrdersAtPrice { b with ordersAtPricePool := pool } l
  | some l => do
    let first ← deref (b.firstOrder l)
    let last ← deref (b.prevOrder first)
    let b := b.setNextOrder last (some p)
    let b := b.setPrevOrder p (b.prevOrder first)
    let b := b.setNextOrder p (some first)
    return b.setPrevOrder first (some p)

def unlinkLevel (b : LevelBook κ τ) (side : Side) (l : Ptr) : Except Fault (LevelBook κ τ) :=
  if b.nextEntry l = some l then .ok (b.setBest side none)
  else do
    let bestLevel := b.best side
    let prev ← deref (b.prevEntry l)
    let b := b.setNextEntry prev (b.nextEntry l)
    let next ← deref (b.nextEntry l)
    let b := b.setPrevEntry next (b.prevEntry l)
    let b := if some l = bestLevel then b.setBest side (b.nextEntry l) else b
    return (b.setNextEntry l none).setPrevEntry l none

def removeOrdersAtPrice (b : LevelBook κ τ) (side : Side) (price : Price) :
    Except Fault (LevelBook κ τ) := do
  let l ← deref (b.getOrdersAtPrice price)
  let b ← b.unlinkLevel side l
  let b := b.setPrice price none
  let pool ← b.ordersAtPricePool.deallocate l
  return { b with ordersAtPricePool := pool }

def unlinkOrder (b : LevelBook κ τ) (p : Ptr) : Except Fault (LevelBook κ τ) :=
  let ordersAtPrice := b.getOrdersAtPrice (b.order p).price
  if b.prevOrder p = some p then b.removeOrdersAtPrice (b.order p).side (b.order p).price
  else do
    let before ← deref (b.prevOrder p)
    let after ← deref (b.nextOrder p)
    let b := b.setNextOrder before (some after)
    let b := b.setPrevOrder after (some before)
    let l ← deref ordersAtPrice
    let b := if b.firstOrder l = some p then b.setFirstOrder l (some after) else b
    return (b.setNextOrder p none).setPrevOrder p none

section Table

variable [DecidableEq τ] [TableKey κ τ]

def setTable (b : LevelBook κ τ) (key : κ) (p : Option Ptr) : Except Fault (LevelBook κ τ) :=
  match TableKey.entry key with
  | none => .error .outOfRange
  | some e => .ok { b with orderTable := update b.orderTable e p }

def addOrder (b : LevelBook κ τ) (p : Ptr) : Except Fault (LevelBook κ τ) := do
  let b ← b.linkOrder p
  b.setTable (b.order p).key (some p)

def removeOrder (b : LevelBook κ τ) (p : Ptr) : Except Fault (LevelBook κ τ) := do
  let b ← b.unlinkOrder p
  let b ← b.setTable (b.order p).key none
  let pool ← b.orderPool.deallocate p
  return { b with orderPool := pool }

end Table

end LevelBook

end LowLatency.Book
