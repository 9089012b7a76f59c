import LowLatency.Common.Types

namespace LowLatency.Exchange

open Common

inductive ClientRequestType
  | INVALID
  | NEW
  | CANCEL
  deriving DecidableEq, Repr

structure MEClientRequest where
  type : ClientRequestType
  clientId : ClientId
  tickerId : TickerId
  orderId : OrderId
  side : Side
  price : Price
  qty : Qty
  deriving DecidableEq, Repr

def clientRequestTypeToString : ClientRequestType → String
  | .NEW => "NEW"
  | .CANCEL => "CANCEL"
  | .INVALID => "INVALID"

inductive ClientResponseType
  | INVALID
  | ACCEPTED
  | CANCELED
  | FILLED
  | CANCEL_REJECTED
  deriving DecidableEq, Repr

structure MEClientResponse where
  type : ClientResponseType
  clientId : ClientId
  tickerId : TickerId
  clientOrderId : OrderId
  marketOrderId : OrderId
  side : Side
  price : Price
  execQty : Qty
  leavesQty : Qty
  deriving DecidableEq, Repr

inductive MarketUpdateType
  | INVALID
  | CLEAR
  | ADD
  | MODIFY
  | CANCEL
  | TRADE
  | SNAPSHOT_START
  | SNAPSHOT_END
  deriving DecidableEq, Repr

structure MEMarketUpdate where
  type : MarketUpdateType
  orderId : OrderId
  tickerId : TickerId
  side : Side
  price : Price
  qty : Qty
  priority : Priority
  deriving DecidableEq, Repr

def MEMarketUpdate.invalid : MEMarketUpdate :=
  ⟨.INVALID, OrderId_INVALID, TickerId_INVALID, .INVALID, Price_INVALID, Qty_INVALID,
    Priority_INVALID⟩

def marketUpdateTypeToString : MarketUpdateType → String
  | .ADD => "ADD"
  | .CLEAR => "CLEAR"
  | .MODIFY => "MODIFY"
  | .CANCEL => "CANCEL"
  | .TRADE => "TRADE"
  | .SNAPSHOT_START => "SNAPSHOT_START"
  | .SNAPSHOT_END => "SNAPSHOT_END"
  | .INVALID => "INVALID"

def MEMarketUpdate.toString (u : MEMarketUpdate) : String :=
  "MEMarketUpdate [type:" ++ marketUpdateTypeToString u.type ++
    " ticker:" ++ tickerIdToString u.tickerId ++ " oid:" ++ orderIdToString u.orderId ++
    " side:" ++ sideToString u.side ++ " qty:" ++ qtyToString u.qty ++
    " price:" ++ priceToString u.price ++ " priority:" ++ priorityToString u.priority ++ "]"

/-- A market update as it is sent, with its number in the stream it is part of. -/
structure MDPMarketUpdate where
  seqNum : ℕ
  meMarketUpdate : MEMarketUpdate
  deriving DecidableEq, Repr

/-- What the matching engine passes on: to the order server or to the market data publisher. -/
inductive Output
  | response (r : MEClientResponse)
  | update (u : MEMarketUpdate)
  deriving DecidableEq, Repr

def responses (outs : List Output) : List MEClientResponse :=
  outs.filterMap fun
    | .response r => some r
    | .update _ => none

def updates (outs : List Output) : List MEMarketUpdate :=
  outs.filterMap fun
    | .response _ => none
    | .update u => some u

theorem mem_responses {outs : List Output} {r : MEClientResponse} :
    r ∈ responses outs ↔ .response r ∈ outs := by
  rw [responses, List.mem_filterMap]
  constructor
  · rintro ⟨out, hout, hsome⟩
    cases out with
    | response r' => exact Option.some.inj hsome ▸ hout
    | update u => cases hsome
  · exact fun h ↦ ⟨_, h, rfl⟩

theorem mem_updates {outs : List Output} {u : MEMarketUpdate} : u ∈ updates outs ↔ .update u ∈ outs := by
  rw [updates, List.mem_filterMap]
  constructor
  · rintro ⟨out, hout, hsome⟩
    cases out with
    | response r => cases hsome
    | update u' => exact Option.some.inj hsome ▸ hout
  · exact fun h ↦ ⟨_, h, rfl⟩

end LowLatency.Exchange
