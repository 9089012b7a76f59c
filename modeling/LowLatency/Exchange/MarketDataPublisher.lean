import LowLatency.Common.McastSender
import LowLatency.Exchange.Wire
import LowLatency.Framing
import LowLatency.GuardedRun

namespace LowLatency.Exchange

open Common

/-- `snapshotMdUpdates` is all that has been queued for the snapshot synthesizer. -/
structure MarketDataPublisher where
  nextIncSeqNum : ℕ
  incrementalSocket : McastSender
  snapshotMdUpdates : List MDPMarketUpdate

/-- `sizeof(MEMarketUpdate)` bytes from the address of the variable `market_update` on: the pointer
that it holds, and what lies behind it on the stack. -/
def atVariable (pointer : ℕ) (behind : Fin 26 → UInt8) : List UInt8 :=
  Layout.sizeT.encode pointer ++ List.ofFn behind

/-- The memory at the variable is by chance that of the update. -/
def Coincides (u : MEMarketUpdate) (pointer : ℕ) (behind : Fin 26 → UInt8) : Prop :=
  Layout.meMarketUpdate.decode (atVariable pointer behind) = u

instance (u : MEMarketUpdate) (pointer : ℕ) (behind : Fin 26 → UInt8) :
    Decidable (Coincides u pointer behind) := inferInstanceAs (Decidable (_ = _))

theorem Coincides.div_le {u : MEMarketUpdate} {pointer : ℕ} {behind : Fin 26 → UInt8}
    (h : Coincides u pointer behind) (hpointer : pointer < 2 ^ 64) : pointer / 256 ≤ u.orderId := by
  have hid : u.orderId =
      ofBytes (toBytes 7 (pointer / 256) ++ (List.ofFn behind).take 1) := by
    rw [← h]
    rfl
  rw [hid, ofBytes_append, ofBytes_toBytes (by omega)]
  exact Nat.le_add_right _ _

namespace MarketDataPublisher

def new : MarketDataPublisher := ⟨1, .new, []⟩

/-- The two calls of `send`. The second one is given the address of the pointer to the update. -/
def sendUpdate (p : MarketDataPublisher) (pointer : ℕ) (behind : Fin 26 → UInt8) :
    Except Fault MarketDataPublisher := do
  let socket ← p.incrementalSocket.send (Layout.sizeT.encode p.nextIncSeqNum)
  let socket ← socket.send (atVariable pointer behind)
  return { p with incrementalSocket := socket }

/-- The copy of the update for the snapshot synthesizer, and the step to the next number. -/
def queueUpdate (p : MarketDataPublisher) (u : MEMarketUpdate) : MarketDataPublisher :=
  { p with
    nextIncSeqNum := (p.nextIncSeqNum + 1) % 2 ^ 64
    snapshotMdUpdates := p.snapshotMdUpdates ++ [⟨p.nextIncSeqNum, u⟩] }

def sendAndRecv (p : MarketDataPublisher) : MarketDataPublisher :=
  { p with incrementalSocket := p.incrementalSocket.sendAndRecv }

variable {p p' : MarketDataPublisher} {pointer : ℕ} {behind : Fin 26 → UInt8} {u : MEMarketUpdate}

theorem length_atVariable (pointer : ℕ) (behind : Fin 26 → UInt8) :
    (atVariable pointer behind).length = Layout.meMarketUpdate.size := by
  rw [atVariable, List.length_append, Layout.sizeT.length_encode, List.length_ofFn]
  rfl

def record (n pointer : ℕ) (behind : Fin 26 → UInt8) : List UInt8 :=
  Layout.sizeT.encode n ++ atVariable pointer behind

theorem length_record (n pointer : ℕ) (behind : Fin 26 → UInt8) :
    (record n pointer behind).length = Layout.mdpMarketUpdate.size := by
  rw [record, List.length_append, Layout.sizeT.length_encode, length_atVariable]
  rfl

theorem decode_record {n : ℕ} (hn : n < 2 ^ 64) (pointer : ℕ) (behind : Fin 26 → UInt8) :
    Layout.mdpMarketUpdate.decode (record n pointer behind) =
      ⟨n, Layout.meMarketUpdate.decode (atVariable pointer behind)⟩ := by
  have hlen := Layout.sizeT.length_encode n
  change MDPMarketUpdate.mk (Layout.sizeT.decode ((record n pointer behind).take Layout.sizeT.size))
    (Layout.meMarketUpdate.decode ((record n pointer behind).drop Layout.sizeT.size)) = _
  rw [record, List.take_left' hlen, List.drop_left' hlen, Layout.sizeT.decode_encode n hn]

theorem sendUpdate_ok (h : p.sendUpdate pointer behind = .ok p') :
    p.incrementalSocket.outboundData.length + Layout.mdpMarketUpdate.size < McastBufferSize ∧
      p' = { p with incrementalSocket := { p.incrementalSocket with
        outboundData := p.incrementalSocket.outboundData ++
          record p.nextIncSeqNum pointer behind } } := by
  obtain ⟨s, hs, h⟩ := bind_eq_ok h
  obtain ⟨s', hs', h⟩ := bind_eq_ok h
  obtain ⟨-, rfl⟩ := McastSender.send_ok hs
  obtain ⟨hroom, rfl⟩ := McastSender.send_ok hs'
  constructor
  · rw [List.length_append, Layout.sizeT.length_encode, length_atVariable] at hroom
    exact (Nat.add_assoc ..).symm ▸ hroom
  · rw [← Except.ok.inj h, List.append_assoc]
    rfl

/-- The records that have been placed in the buffer, as a receiver decodes them. -/
def records (p : MarketDataPublisher) : List MDPMarketUpdate :=
  Layout.mdpMarketUpdate.messages p.incrementalSocket.placed

/-- The memory at the variable when each of the updates was sent, with the first number 1. -/
def Placed (p : MarketDataPublisher) (ms : List (ℕ × (Fin 26 → UInt8))) : Prop :=
  p.incrementalSocket.placed = (numberFrom (fun n m ↦ record n m.1 m.2) 1 ms).flatten

variable {ms : List (ℕ × (Fin 26 → UInt8))}

theorem Placed.records (h : p.Placed ms) : p.records =
    numberFrom MDPMarketUpdate.mk 1
      (ms.map fun m ↦ Layout.meMarketUpdate.decode (atVariable m.1 m.2)) := by
  have hlen : ∀ f ∈ numberFrom (fun n m ↦ record n m.1 m.2) 1 ms,
      f.length = Layout.mdpMarketUpdate.size := by
    intro f hf
    obtain ⟨n, -, m, -, rfl⟩ := exists_of_mem_numberFrom hf
    exact length_record n m.1 m.2
  rw [MarketDataPublisher.records, h, Packed.messages, frames_flatten (by decide) hlen,
    map_numberFrom, numberFrom_map]
  exact numberFrom_congr fun n hn m ↦ decode_record hn m.1 m.2

theorem Placed.sendUpdate (h : p.Placed ms)
    (hseq : p.nextIncSeqNum = (1 + ms.length) % 2 ^ 64)
    (hsend : p.sendUpdate pointer behind = .ok p') : p'.Placed (ms ++ [(pointer, behind)]) := by
  obtain ⟨-, rfl⟩ := sendUpdate_ok hsend
  rw [Placed, McastSender.placed_append, h, numberFrom_concat, List.flatten_concat, hseq]

/-- A round of the inner loop of `run` for the update `u`, or what follows that loop. -/
inductive Event
  | update (u : MEMarketUpdate) (pointer : ℕ) (behind : Fin 26 → UInt8)
  | sendAndRecv

def step (p : MarketDataPublisher) : Event → Except Fault MarketDataPublisher
  | .update u pointer behind => do
    let p ← p.sendUpdate pointer behind
    return p.queueUpdate u
  | .sendAndRecv => return p.sendAndRecv

def memory (es : List Event) : List (ℕ × (Fin 26 → UInt8)) :=
  es.filterMap fun
    | .update _ pointer behind => some (pointer, behind)
    | .sendAndRecv => none

def HasRoom (p : MarketDataPublisher) : Event → Prop
  | .update _ _ _ =>
    p.incrementalSocket.outboundData.length + Layout.mdpMarketUpdate.size < McastBufferSize
  | .sendAndRecv => True

end MarketDataPublisher

end LowLatency.Exchange
