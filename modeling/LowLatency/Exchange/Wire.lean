import LowLatency.Exchange.Messages
import LowLatency.Packed

namespace LowLatency.Exchange

open Common

/-- A byte that is the value of no enumerator is read as `INVALID`. -/
def valueToSide : ℤ → Side
  | 1 => .BUY
  | -1 => .SELL
  | _ => .INVALID

def clientRequestTypeToValue : ClientRequestType → ℤ
  | .INVALID => 0
  | .NEW => 1
  | .CANCEL => 2

def valueToClientRequestType : ℤ → ClientRequestType
  | 1 => .NEW
  | 2 => .CANCEL
  | _ => .INVALID

def clientResponseTypeToValue : ClientResponseType → ℤ
  | .INVALID => 0
  | .ACCEPTED => 1
  | .CANCELED => 2
  | .FILLED => 3
  | .CANCEL_REJECTED => 4

def valueToClientResponseType : ℤ → ClientResponseType
  | 1 => .ACCEPTED
  | 2 => .CANCELED
  | 3 => .FILLED
  | 4 => .CANCEL_REJECTED
  | _ => .INVALID

def marketUpdateTypeToValue : MarketUpdateType → ℤ
  | .INVALID => 0
  | .CLEAR => 1
  | .ADD => 2
  | .MODIFY => 3
  | .CANCEL => 4
  | .TRADE => 5
  | .SNAPSHOT_START => 6
  | .SNAPSHOT_END => 7

def valueToMarketUpdateType : ℤ → MarketUpdateType
  | 1 => .CLEAR
  | 2 => .ADD
  | 3 => .MODIFY
  | 4 => .CANCEL
  | 5 => .TRADE
  | 6 => .SNAPSHOT_START
  | 7 => .SNAPSHOT_END
  | _ => .INVALID

structure OMClientRequest where
  seqNum : ℕ
  meClientRequest : MEClientRequest
  deriving DecidableEq, Repr

structure OMClientResponse where
  seqNum : ℕ
  meClientResponse : MEClientResponse
  deriving DecidableEq, Repr

namespace Layout

def sizeT : Packed ℕ := .uint 8
def orderId : Packed OrderId := .uint 8
def tickerId : Packed TickerId := .uint 4
def clientId : Packed ClientId := .uint 4
def price : Packed Price := .int 8
def qty : Packed Qty := .uint 4
def priority : Packed Priority := .uint 8

def side : Packed Side := (Packed.int 1).map valueToSide sideToValue fun s ↦ by cases s <;> rfl

def clientRequestType : Packed ClientRequestType :=
  (Packed.int 1).map valueToClientRequestType clientRequestTypeToValue fun t ↦ by cases t <;> rfl

def clientResponseType : Packed ClientResponseType :=
  (Packed.int 1).map valueToClientResponseType clientResponseTypeToValue fun t ↦ by cases t <;> rfl

def meClientRequest : Packed MEClientRequest :=
  (clientRequestType.prod <| clientId.prod <| tickerId.prod <| orderId.prod <| side.prod <|
    price.prod qty).map
    (fun (type, clientId, tickerId, orderId, side, price, qty) ↦
      ⟨type, clientId, tickerId, orderId, side, price, qty⟩)
    (fun r ↦ (r.type, r.clientId, r.tickerId, r.orderId, r.side, r.price, r.qty))
    fun _ ↦ rfl

def omClientRequest : Packed OMClientRequest :=
  (sizeT.prod meClientRequest).map (fun (seqNum, request) ↦ ⟨seqNum, request⟩)
    (fun q ↦ (q.seqNum, q.meClientRequest)) fun _ ↦ rfl

def meClientResponse : Packed MEClientResponse :=
  (clientResponseType.prod <| clientId.prod <| tickerId.prod <| orderId.prod <| orderId.prod <|
    side.prod <| price.prod <| qty.prod qty).map
    (fun (type, clientId, tickerId, clientOrderId, marketOrderId, side, price, execQty, leavesQty) ↦
      ⟨type, clientId, tickerId, clientOrderId, marketOrderId, side, price, execQty, leavesQty⟩)
    (fun r ↦ (r.type, r.clientId, r.tickerId, r.clientOrderId, r.marketOrderId, r.side, r.price,
      r.execQty, r.leavesQty))
    fun _ ↦ rfl

def omClientResponse : Packed OMClientResponse :=
  (sizeT.prod meClientResponse).map (fun (seqNum, response) ↦ ⟨seqNum, response⟩)
    (fun q ↦ (q.seqNum, q.meClientResponse)) fun _ ↦ rfl

def marketUpdateType : Packed MarketUpdateType :=
  (Packed.int 1).map valueToMarketUpdateType marketUpdateTypeToValue fun t ↦ by cases t <;> rfl

def meMarketUpdate : Packed MEMarketUpdate :=
  (marketUpdateType.prod <| orderId.prod <| tickerId.prod <| side.prod <| price.prod <|
    qty.prod priority).map
    (fun (type, orderId, tickerId, side, price, qty, priority) ↦
      ⟨type, orderId, tickerId, side, price, qty, priority⟩)
    (fun u ↦ (u.type, u.orderId, u.tickerId, u.side, u.price, u.qty, u.priority))
    fun _ ↦ rfl

def mdpMarketUpdate : Packed MDPMarketUpdate :=
  (sizeT.prod meMarketUpdate).map (fun (seqNum, update) ↦ ⟨seqNum, update⟩)
    (fun m ↦ (m.seqNum, m.meMarketUpdate)) fun _ ↦ rfl

example : omClientRequest.size = 38 ∧ omClientResponse.size = 50 ∧ mdpMarketUpdate.size = 42 :=
  ⟨rfl, rfl, rfl⟩

end Layout

def MEClientRequest.Fits (r : MEClientRequest) : Prop :=
  r.clientId < 2 ^ 32 ∧ r.tickerId < 2 ^ 32 ∧ r.orderId < 2 ^ 64 ∧
    (-2 ^ 63 ≤ r.price ∧ r.price < 2 ^ 63) ∧ r.qty < 2 ^ 32

instance : DecidablePred MEClientRequest.Fits := fun _ ↦ inferInstanceAs (Decidable (_ ∧ _))

def MEClientResponse.Fits (r : MEClientResponse) : Prop :=
  r.clientId < 2 ^ 32 ∧ r.tickerId < 2 ^ 32 ∧ r.clientOrderId < 2 ^ 64 ∧ r.marketOrderId < 2 ^ 64 ∧
    (-2 ^ 63 ≤ r.price ∧ r.price < 2 ^ 63) ∧ r.execQty < 2 ^ 32 ∧ r.leavesQty < 2 ^ 32

instance : DecidablePred MEClientResponse.Fits := fun _ ↦ inferInstanceAs (Decidable (_ ∧ _))

namespace Layout

theorem fits_byte {x : ℤ} (h : -128 ≤ x ∧ x < 128) : (Packed.int 1).Fits x := by
  change -((256 ^ 1 : ℕ) : ℤ) ≤ x * 2 ∧ x * 2 < ((256 ^ 1 : ℕ) : ℤ)
  norm_num
  omega

theorem fits_price {x : ℤ} (h : -2 ^ 63 ≤ x ∧ x < 2 ^ 63) : price.Fits x := by
  change -((256 ^ 8 : ℕ) : ℤ) ≤ x * 2 ∧ x * 2 < ((256 ^ 8 : ℕ) : ℤ)
  norm_num
  omega

theorem fits_side (s : Side) : side.Fits s := fits_byte (by cases s <;> decide)

theorem omClientRequest_fits {r : MEClientRequest} (h : r.Fits) {n : ℕ} (hn : n < 2 ^ 64) :
    omClientRequest.Fits ⟨n, r⟩ := by
  obtain ⟨hclient, hticker, horder, hprice, hqty⟩ := h
  have htype : clientRequestType.Fits r.type := fits_byte (by cases r.type <;> decide)
  exact ⟨hn, htype, hclient, hticker, horder, fits_side _, fits_price hprice, hqty⟩

theorem omClientResponse_fits {r : MEClientResponse} (h : r.Fits) {n : ℕ} (hn : n < 2 ^ 64) :
    omClientResponse.Fits ⟨n, r⟩ := by
  obtain ⟨hclient, hticker, hcoid, hmoid, hprice, hexec, hleaves⟩ := h
  have htype : clientResponseType.Fits r.type := fits_byte (by cases r.type <;> decide)
  exact ⟨hn, htype, hclient, hticker, hcoid, hmoid, fits_side _, fits_price hprice, hexec, hleaves⟩

end Layout

end LowLatency.Exchange
