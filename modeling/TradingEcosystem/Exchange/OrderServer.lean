import TradingEcosystem.Common.Fault
import TradingEcosystem.Common.Wire
import TradingEcosystem.Exchange.Messages
import TradingEcosystem.Library.Framing

namespace Exchange

open Common

def meMaxPendingRequests : ℕ := 1024

structure OMClientRequest where
  seqNum : ℕ
  meClientRequest : MEClientRequest
  deriving DecidableEq, Repr

section Wire

def sizeofOMClientRequest : ℕ := 38

def readRequestType (b : UInt8) : ClientRequestType :=
  match b.toNat with
  | 0 => .invalid
  | 1 => .new
  | 2 => .cancel
  | _ => .unknown b

def readRequest (bytes : List UInt8) : OMClientRequest :=
  let data := fun i => bytes.getD i 0
  { seqNum := readLE data 0 8
    meClientRequest :=
      { type := readRequestType (data 8)
        clientId := readLE data 9 4
        tickerId := readLE data 13 4
        orderId := readLE data 17 8
        side := readSide (data 25)
        price := toInt64 (readLE data 26 8)
        qty := readLE data 34 4 } }

end Wire

structure RecvTimeClientRequest where
  recvTime : ℕ
  request : MEClientRequest
  deriving DecidableEq, Repr

structure FIFOSequencer where
  pendingClientRequests : List RecvTimeClientRequest

def FIFOSequencer.addClientRequest (q : FIFOSequencer) (rxTime : ℕ) (request : MEClientRequest) :
    Outcome FIFOSequencer := do
  require (q.pendingClientRequests.length < meMaxPendingRequests) .fatal
  pure ⟨q.pendingClientRequests ++ [⟨rxTime, request⟩]⟩

/-- `order` is where `std::sort` takes the pending requests from. -/
def FIFOSequencer.sequenceAndPublish (q : FIFOSequencer) (order : List ℕ) :
    FIFOSequencer × List MEClientRequest :=
  if q.pendingClientRequests.isEmpty then (q, [])
  else (⟨[]⟩, order.filterMap fun i =>
    q.pendingClientRequests[i]?.map RecvTimeClientRequest.request)

structure ClientGate where
  cidNextExpSeqNum : ℕ → ℕ
  cidTcpSocket : ℕ → Option ℕ

namespace ClientGate

def bindClient (g : ClientGate) (clientId socket : ℕ) : ClientGate :=
  if g.cidTcpSocket clientId = none then
    { g with cidTcpSocket := Function.update g.cidTcpSocket clientId (some socket) }
  else g

def validate (g : ClientGate) (socket : ℕ) (req : OMClientRequest) : ClientGate × Bool :=
  let clientId := req.meClientRequest.clientId
  let g := g.bindClient clientId socket
  if g.cidTcpSocket clientId ≠ some socket then (g, false)
  else if req.seqNum ≠ g.cidNextExpSeqNum clientId then (g, false)
  else
    let next := (g.cidNextExpSeqNum clientId + 1) % 2 ^ 64
    ({ g with cidNextExpSeqNum := Function.update g.cidNextExpSeqNum clientId next }, true)

end ClientGate

/-- `inboundData socket` holds the first `next_rcv_valid_index_` bytes of the buffer of a socket.
Sockets are numbered as they are accepted; `poll` never takes one away. -/
structure OrderServer extends ClientGate where
  cidNextOutgoingSeqNum : ℕ → ℕ
  inboundData : ℕ → List UInt8
  fifoSequencer : FIFOSequencer

structure Recv where
  socket : ℕ
  chunk : List UInt8
  rxTime : ℕ

namespace OrderServer

def new : OrderServer where
  cidNextExpSeqNum := fun _ => 1
  cidTcpSocket := fun _ => none
  cidNextOutgoingSeqNum := fun _ => 1
  inboundData := fun _ => []
  fifoSequencer := ⟨[]⟩

def processRequest (s : OrderServer) (socket rxTime : ℕ) (req : OMClientRequest) :
    Outcome OrderServer := do
  -- the tables are indexed without a check
  require (req.meClientRequest.clientId < meMaxNumClients) .outOfRange
  let (gate, staged) := s.toClientGate.validate socket req
  let s := { s with toClientGate := gate }
  if staged then do
    let q ← s.fifoSequencer.addClientRequest rxTime req.meClientRequest
    pure { s with fifoSequencer := q }
  else pure s

def recvLoop (socket rxTime : ℕ) (data : List UInt8) :
    ℕ → ℕ → OrderServer → Outcome (ℕ × OrderServer)
  | 0, _, _ => .error .outOfFuel
  | fuel + 1, i, s =>
      if i + sizeofOMClientRequest ≤ data.length then do
        let s ← s.processRequest socket rxTime (readRequest (data.drop i))
        recvLoop socket rxTime data fuel (i + sizeofOMClientRequest) s
      else pure (i, s)

def setInboundData (s : OrderServer) (socket : ℕ) (data : List UInt8) : OrderServer :=
  { s with inboundData := Function.update s.inboundData socket data }

def recvCallback (s : OrderServer) (socket rxTime : ℕ) : Outcome OrderServer :=
  let data := s.inboundData socket
  if sizeofOMClientRequest ≤ data.length then do
    let (i, s) ← recvLoop socket rxTime data (data.length + 1) 0 s
    pure (s.setInboundData socket (data.drop i))
  else pure s

/-- The read half of `TCPSocket::sendAndRecv`. -/
def recv (s : OrderServer) (r : Recv) : Outcome OrderServer :=
  (s.setInboundData r.socket (s.inboundData r.socket ++ r.chunk)).recvCallback r.socket r.rxTime

def recvAll (s : OrderServer) : List Recv → Outcome OrderServer
  | [] => pure s
  | r :: rs => do
      let s ← s.recv r
      s.recvAll rs

def round (s : OrderServer) (rs : List Recv) :
    Outcome (OrderServer × List RecvTimeClientRequest) := do
  let s ← s.recvAll rs
  pure ({ s with fifoSequencer := ⟨[]⟩ }, s.fifoSequencer.pendingClientRequests)

def sendResponse (s : OrderServer) (r : MEClientResponse) : Outcome (OrderServer × ℕ × ℕ) := do
  require (r.clientId < meMaxNumClients) .outOfRange
  match s.cidTcpSocket r.clientId with
  | none => .error .assertFailed
  | some socket =>
      let seqNum := s.cidNextOutgoingSeqNum r.clientId
      let next := Function.update s.cidNextOutgoingSeqNum r.clientId ((seqNum + 1) % 2 ^ 64)
      pure ({ s with cidNextOutgoingSeqNum := next }, socket, seqNum)

def drain (s : OrderServer) : List MEClientResponse → Outcome OrderServer
  | [] => pure s
  | r :: rs => do
      let (s, _) ← s.sendResponse r
      s.drain rs

end OrderServer

structure Iteration where
  recvs : List Recv
  responses : List MEClientResponse

def OrderServer.run (s : OrderServer) :
    List Iteration → Outcome (OrderServer × List (List RecvTimeClientRequest))
  | [] => pure (s, [])
  | it :: its => do
      let (s, batch) ← s.round it.recvs
      let s ← s.drain it.responses
      let (s, batches) ← s.run its
      pure (s, batch :: batches)

end Exchange
