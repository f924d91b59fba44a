import TradingEcosystem.Common.McastSocket
import TradingEcosystem.Exchange.Messages
import TradingEcosystem.Library.OrderedMap

namespace Trading

open Common Exchange

variable {τ : Type}

/-- A market update together with a label saying where it was produced. No function of the
consumer reads the label. -/
structure Message (τ : Type) where
  update : MEMarketUpdate
  origin : τ

structure Packet (τ : Type) where
  seqNum : ℕ
  message : Message τ

abbrev QueuedMarketUpdates (τ : Type) := List (ℕ × Message τ)

inductive Stream where
  | incremental
  | snapshot
  deriving DecidableEq, Repr

structure MarketDataConsumer (τ : Type) where
  nextExpIncSeqNum : ℕ
  incomingMdUpdates : List MEMarketUpdate
  inRecovery : Bool
  snapshotQueuedMsgs : QueuedMarketUpdates τ
  incrementalQueuedMsgs : QueuedMarketUpdates τ
  incrementalMcastSocket : McastSocket
  snapshotMcastSocket : McastSocket

def isMarker (u : MEMarketUpdate) : Bool := u.type = .snapshotStart || u.type = .snapshotEnd

namespace MarketDataConsumer

def new (fd : ℕ) : MarketDataConsumer τ where
  nextExpIncSeqNum := 1
  incomingMdUpdates := []
  inRecovery := false
  snapshotQueuedMsgs := []
  incrementalQueuedMsgs := []
  incrementalMcastSocket := McastSocket.new.init fd
  snapshotMcastSocket := McastSocket.new

def socket (c : MarketDataConsumer τ) : Stream → McastSocket
  | .incremental => c.incrementalMcastSocket
  | .snapshot => c.snapshotMcastSocket

def setSocket (c : MarketDataConsumer τ) (s : McastSocket) : Stream → MarketDataConsumer τ
  | .incremental => { c with incrementalMcastSocket := s }
  | .snapshot => { c with snapshotMcastSocket := s }

def startSnapshotSync (c : MarketDataConsumer τ) (fd : ℕ) : MarketDataConsumer τ :=
  { c with
    snapshotQueuedMsgs := []
    incrementalQueuedMsgs := []
    snapshotMcastSocket := c.snapshotMcastSocket.init fd }

def snapshotEvents : ℕ → QueuedMarketUpdates τ → Option (List MEMarketUpdate)
  | _, [] => some []
  | next, (seqNum, m) :: queued =>
      if seqNum ≠ next then none
      else (snapshotEvents (next + 1) queued).map fun events =>
        if isMarker m.update then events else m.update :: events

structure IncrementalScan where
  complete : Bool
  nextExp : ℕ
  events : List MEMarketUpdate

def scanIncrementals : ℕ → QueuedMarketUpdates τ → IncrementalScan
  | next, [] => ⟨true, next, []⟩
  | next, (seqNum, m) :: queued =>
      if seqNum < next then scanIncrementals next queued
      else if seqNum ≠ next then ⟨false, next, []⟩
      else
        let r := scanIncrementals ((next + 1) % 2 ^ 64) queued
        { r with events := if isMarker m.update then r.events else m.update :: r.events }

def discardSnapshot (c : MarketDataConsumer τ) : MarketDataConsumer τ :=
  { c with snapshotQueuedMsgs := [] }

def commit (c : MarketDataConsumer τ) (finalEvents : List MEMarketUpdate) :
    MarketDataConsumer τ :=
  { c with
    incomingMdUpdates := c.incomingMdUpdates ++ finalEvents
    snapshotQueuedMsgs := []
    incrementalQueuedMsgs := []
    inRecovery := false
    snapshotMcastSocket := c.snapshotMcastSocket.leave }

def syncIncrementals (c : MarketDataConsumer τ) (events : List MEMarketUpdate)
    (last : MEMarketUpdate) : MarketDataConsumer τ :=
  let r := scanIncrementals ((last.orderId + 1) % 2 ^ 64) c.incrementalQueuedMsgs
  let c := { c with nextExpIncSeqNum := r.nextExp }
  if r.complete then c.commit (events ++ r.events) else c.discardSnapshot

def checkSnapshotSync (c : MarketDataConsumer τ) : MarketDataConsumer τ :=
  match c.snapshotQueuedMsgs with
  | [] => c
  | first :: rest =>
      if first.2.update.type ≠ .snapshotStart then c.discardSnapshot
      else
        match snapshotEvents 0 (first :: rest) with
        | none => c.discardSnapshot
        | some events =>
            let last := (rest.getLastD first).2.update
            if last.type ≠ .snapshotEnd then c else c.syncIncrementals events last

def enqueue (c : MarketDataConsumer τ) (isSnapshot : Bool) (p : Packet τ) :
    MarketDataConsumer τ :=
  if isSnapshot then
    let queued := if OrderedMap.contains p.seqNum c.snapshotQueuedMsgs then []
      else c.snapshotQueuedMsgs
    { c with snapshotQueuedMsgs := OrderedMap.assign p.seqNum p.message queued }
  else
    { c with incrementalQueuedMsgs :=
        OrderedMap.assign p.seqNum p.message c.incrementalQueuedMsgs }

def queueMessage (c : MarketDataConsumer τ) (isSnapshot : Bool) (p : Packet τ) :
    MarketDataConsumer τ :=
  (c.enqueue isSnapshot p).checkSnapshotSync

def forward (c : MarketDataConsumer τ) (u : MEMarketUpdate) : MarketDataConsumer τ :=
  { c with
    nextExpIncSeqNum := (c.nextExpIncSeqNum + 1) % 2 ^ 64
    incomingMdUpdates := c.incomingMdUpdates ++ [u] }

def processMessage (c : MarketDataConsumer τ) (fd : ℕ) (isSnapshot : Bool) (p : Packet τ) :
    MarketDataConsumer τ :=
  if c.inRecovery then c.queueMessage isSnapshot p
  else if p.seqNum ≠ c.nextExpIncSeqNum then
    ({ c with inRecovery := true }.startSnapshotSync fd).queueMessage isSnapshot p
  else if isSnapshot then c
  else c.forward p.message.update

def recv (c : MarketDataConsumer τ) (fd : ℕ) (isSnapshot : Bool) (p : Packet τ) :
    MarketDataConsumer τ :=
  if isSnapshot && !c.inRecovery then c else c.processMessage fd isSnapshot p

end MarketDataConsumer

end Trading
