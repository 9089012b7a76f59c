import LowLatency.OrderedMap
import LowLatency.Common.McastSocket
import LowLatency.Exchange.Messages

namespace LowLatency.Trading

open Common Exchange Std

abbrev QueuedMarketUpdates := TreeMap ℕ MEMarketUpdate

structure MarketDataConsumer where
  nextExpIncSeqNum : ℕ
  /-- What was written to the queue of the trading engine, oldest first. -/
  incomingMdUpdates : List MEMarketUpdate
  incrementalMcastSocket : McastSocket
  snapshotMcastSocket : McastSocket
  inRecovery : Bool
  snapshotGroup : Group
  snapshotQueuedMsgs : QueuedMarketUpdates
  incrementalQueuedMsgs : QueuedMarketUpdates
  /-- The calls that set a socket up so far. -/
  socketCalls : ℕ

namespace MarketDataConsumer

/-- The constructor. Only the incremental socket is initialised. -/
def new (os : Os) (snapshotGroup incrementalGroup : Group) : Except Fault MarketDataConsumer := do
  let socket ← McastSocket.new.subscribe os 0 incrementalGroup
    "Unable to create incremental mcast socket."
  return {
    nextExpIncSeqNum := 1
    incomingMdUpdates := []
    incrementalMcastSocket := socket
    snapshotMcastSocket := .new
    inRecovery := true
    snapshotGroup := snapshotGroup
    snapshotQueuedMsgs := ∅
    incrementalQueuedMsgs := ∅
    socketCalls := 1 }

/-- The snapshot group is joined on the incremental socket, as in the source. -/
def startSnapshotSync (os : Os) (c : MarketDataConsumer) : Except Fault MarketDataConsumer := do
  let socket ← c.incrementalMcastSocket.subscribe os c.socketCalls c.snapshotGroup
    "Unable to create snapshot mcast socket."
  return { c with
    snapshotQueuedMsgs := ∅
    incrementalQueuedMsgs := ∅
    incrementalMcastSocket := socket
    socketCalls := c.socketCalls + 1 }

def isMark (u : MEMarketUpdate) : Bool :=
  u.type = .SNAPSHOT_START ∨ u.type = .SNAPSHOT_END

/-- The loop over the queued snapshot: its updates, if the messages are numbered from `next` on. -/
def snapshotEvents : ℕ → List (ℕ × MEMarketUpdate) → Option (List MEMarketUpdate)
  | _, [] => some []
  | next, (seq, u) :: queued =>
    if seq ≠ next then none
    else (snapshotEvents (next + 1) queued).map fun events ↦ if isMark u then events else u :: events

/-- The loop over the queued incremental updates: the number that is expected behind it and, if
there was no gap, the updates from the expected one on. -/
def incrementalEvents : ℕ → List (ℕ × MEMarketUpdate) → ℕ × Option (List MEMarketUpdate)
  | next, [] => (next, some [])
  | next, (seq, u) :: queued =>
    if seq < next then incrementalEvents next queued
    else if seq ≠ next then (next, none)
    else if isMark u then incrementalEvents next queued
    else
      let (next', events) := incrementalEvents ((next + 1) % 2 ^ 64) queued
      (next', events.map (u :: ·))

def checkSnapshotSync (c : MarketDataConsumer) : MarketDataConsumer :=
  match c.snapshotQueuedMsgs.toList with
  | [] => c
  | first :: queued =>
    if first.2.type ≠ .SNAPSHOT_START then { c with snapshotQueuedMsgs := ∅ }
    else match snapshotEvents 0 (first :: queued) with
    | none => { c with snapshotQueuedMsgs := ∅ }
    | some snapshot =>
      let last := queued.getLastD first
      if last.2.type ≠ .SNAPSHOT_END then c
      else match incrementalEvents ((last.2.orderId + 1) % 2 ^ 64) c.incrementalQueuedMsgs.toList with
      | (next, none) => { c with nextExpIncSeqNum := next, snapshotQueuedMsgs := ∅ }
      | (next, some incrementals) =>
        { c with
          nextExpIncSeqNum := next
          incomingMdUpdates := c.incomingMdUpdates ++ (snapshot ++ incrementals)
          snapshotQueuedMsgs := ∅
          incrementalQueuedMsgs := ∅
          inRecovery := false
          snapshotMcastSocket := c.snapshotMcastSocket.leave }

/-- The part of `queueMessage` before the check. -/
def enqueue (isSnapshot : Bool) (c : MarketDataConsumer) (request : MDPMarketUpdate) :
    MarketDataConsumer :=
  if isSnapshot then
    let queued := if c.snapshotQueuedMsgs.contains request.seqNum then ∅ else c.snapshotQueuedMsgs
    { c with snapshotQueuedMsgs := queued.insert request.seqNum request.meMarketUpdate }
  else
    { c with
      incrementalQueuedMsgs :=
        c.incrementalQueuedMsgs.insert request.seqNum request.meMarketUpdate }

def queueMessage (isSnapshot : Bool) (c : MarketDataConsumer) (request : MDPMarketUpdate) :
    MarketDataConsumer :=
  (c.enqueue isSnapshot request).checkSnapshotSync

/-- The body of the loop of `recvCallback` over the messages received. -/
def onRequest (os : Os) (isSnapshot : Bool) (c : MarketDataConsumer) (request : MDPMarketUpdate) :
    Except Fault MarketDataConsumer := do
  if c.inRecovery then return c.queueMessage isSnapshot request
  else if request.seqNum ≠ c.nextExpIncSeqNum then
    let c ← startSnapshotSync os { c with inRecovery := true }
    return c.queueMessage isSnapshot request
  else if isSnapshot then return c
  else return { c with
    nextExpIncSeqNum := (c.nextExpIncSeqNum + 1) % 2 ^ 64
    incomingMdUpdates := c.incomingMdUpdates ++ [request.meMarketUpdate] }

/-- `recvCallback` with whole messages in the buffer of a socket of which it found out whether it
is the one for snapshots. -/
def onReceived (os : Os) (c : MarketDataConsumer) (received : Bool × List MDPMarketUpdate) :
    Except Fault MarketDataConsumer :=
  if received.1 ∧ ¬ c.inRecovery then .ok c
  else received.2.foldlM (onRequest os received.1) c

inductive Channel
  | incremental
  | snapshot
  deriving DecidableEq, Repr

def socket (c : MarketDataConsumer) : Channel → McastSocket
  | .incremental => c.incrementalMcastSocket
  | .snapshot => c.snapshotMcastSocket

def recvCallback (os : Os) (c : MarketDataConsumer) (channel : Channel)
    (messages : List MDPMarketUpdate) : Except Fault MarketDataConsumer :=
  let isSnapshot := decide ((c.socket channel).socketFd = c.snapshotMcastSocket.socketFd)
  c.onReceived os (isSnapshot, messages)

/-- The receiving half of `sendAndRecv` when these messages are there to be read. -/
def sendAndRecv (os : Os) (c : MarketDataConsumer) (arrival : Channel × List MDPMarketUpdate) :
    Except Fault MarketDataConsumer :=
  if 0 ≤ (c.socket arrival.1).socketFd then c.recvCallback os arrival.1 arrival.2 else .ok c

def sameFd : Os := ⟨fun _ ↦ 3, fun _ ↦ true, fun _ ↦ ""⟩

def started : MarketDataConsumer where
  nextExpIncSeqNum := 1
  incomingMdUpdates := []
  incrementalMcastSocket := ⟨3, some ⟨"233.252.14.3", 20001⟩, some "233.252.14.3"⟩
  snapshotMcastSocket := .new
  inRecovery := true
  snapshotGroup := ⟨"233.252.14.1", 20000⟩
  snapshotQueuedMsgs := ∅
  incrementalQueuedMsgs := ∅
  socketCalls := 1

example : new sameFd ⟨"233.252.14.1", 20000⟩ ⟨"233.252.14.3", 20001⟩ = .ok started := rfl

end MarketDataConsumer

end LowLatency.Trading
