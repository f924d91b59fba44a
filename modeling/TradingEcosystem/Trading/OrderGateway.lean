import TradingEcosystem.Common.TCPSocket
import TradingEcosystem.Exchange.WireFormat

namespace Trading

open Common Exchange

/-- `incomingResponses` is what has been written to `incoming_responses_` so far. -/
structure OrderGateway where
  clientId : ℕ
  nextOutgoingSeqNum : ℕ
  nextExpSeqNum : ℕ
  tcpSocket : TCPSocket
  incomingResponses : List MEClientResponse

namespace OrderGateway

def new (clientId : ℕ) : OrderGateway where
  clientId := clientId
  nextOutgoingSeqNum := 1
  nextExpSeqNum := 1
  tcpSocket := TCPSocket.new
  incomingResponses := []

def sendRequest (g : OrderGateway) (req : MEClientRequest) : Outcome OrderGateway := do
  let socket ← g.tcpSocket.send (pack [(8, g.nextOutgoingSeqNum)])
  let socket ← socket.send (pack req.members)
  pure { g with tcpSocket := socket, nextOutgoingSeqNum := (g.nextOutgoingSeqNum + 1) % 2 ^ 64 }

def processResponse (g : OrderGateway) (response : OMClientResponse) : OrderGateway :=
  if response.meClientResponse.clientId ≠ g.clientId then g
  else if response.seqNum ≠ g.nextExpSeqNum then g
  else
    { g with
      nextExpSeqNum := (g.nextExpSeqNum + 1) % 2 ^ 64
      incomingResponses := g.incomingResponses ++ [response.meClientResponse] }

def recvLoop (data : List UInt8) : ℕ → ℕ → OrderGateway → Outcome (ℕ × OrderGateway)
  | 0, _, _ => .error .outOfFuel
  | fuel + 1, i, g =>
      if i + sizeofOMClientResponse ≤ data.length then
        recvLoop data fuel (i + sizeofOMClientResponse)
          (g.processResponse (readResponse (data.drop i)))
      else pure (i, g)

def setInboundData (g : OrderGateway) (data : List UInt8) : OrderGateway :=
  { g with tcpSocket := { g.tcpSocket with inboundData := data } }

def recvCallback (g : OrderGateway) : Outcome OrderGateway :=
  let data := g.tcpSocket.inboundData
  if sizeofOMClientResponse ≤ data.length then do
    -- `i` is at least one whole message, so the `memcpy` of what is left does not overlap
    let (i, g) ← recvLoop data (data.length + 1) 0 g
    pure (g.setInboundData (data.drop i))
  else pure g

/-- The read half of `TCPSocket::sendAndRecv`. -/
def recv (g : OrderGateway) (chunk : List UInt8) : Outcome OrderGateway :=
  (g.setInboundData (g.tcpSocket.inboundData ++ chunk)).recvCallback

def responses (bytes : List UInt8) : List OMClientResponse :=
  (Framing.frames sizeofOMClientResponse bytes).map readResponse

theorem sizeofOMClientResponse_pos : 0 < sizeofOMClientResponse := by decide

theorem responses_of_lt {bytes : List UInt8} (h : bytes.length < sizeofOMClientResponse) :
    responses bytes = [] := by
  rw [responses, Framing.frames_of_lt h, List.map_nil]

theorem responses_cons {bytes : List UInt8} (h : sizeofOMClientResponse ≤ bytes.length) :
    responses bytes = readResponse bytes :: responses (bytes.drop sizeofOMClientResponse) := by
  rw [responses, Framing.frames_cons sizeofOMClientResponse_pos h, List.map_cons, readResponse_take]
  rfl

theorem responses_append (xs ys : List UInt8) :
    responses (xs ++ ys) =
      responses xs ++ responses (Framing.rest sizeofOMClientResponse xs ++ ys) := by
  rw [responses, Framing.frames_append sizeofOMClientResponse_pos, List.map_append]
  rfl

theorem recvLoop_eq (data : List UInt8) (fuel i : ℕ) (g : OrderGateway) (hi : i ≤ data.length)
    (hfuel : data.length < i + fuel) :
    recvLoop data fuel i g =
      .ok (data.length - (data.length - i) % sizeofOMClientResponse,
        (responses (data.drop i)).foldl processResponse g) := by
  induction fuel generalizing i g with
  | zero => omega
  | succ fuel ih =>
    unfold recvLoop
    split_ifs with h
    · have hlen : sizeofOMClientResponse ≤ (data.drop i).length := by
        rw [List.length_drop]
        omega
      have hmod : (data.length - (i + sizeofOMClientResponse)) % sizeofOMClientResponse =
          (data.length - i) % sizeofOMClientResponse := by
        rw [← Nat.sub_sub, ← Nat.mod_eq_sub_mod (by omega)]
      rw [responses_cons hlen, List.foldl_cons, List.drop_drop,
        ih _ _ h (by unfold sizeofOMClientResponse; omega), hmod]
    · have hlen : (data.drop i).length < sizeofOMClientResponse := by
        rw [List.length_drop]
        omega
      have hmod : (data.length - i) % sizeofOMClientResponse = data.length - i :=
        Nat.mod_eq_of_lt (by omega)
      rw [responses_of_lt hlen, hmod, Nat.sub_sub_self hi]
      rfl

theorem processResponse_setInboundData (g : OrderGateway) (data : List UInt8)
    (r : OMClientResponse) :
    (g.setInboundData data).processResponse r = (g.processResponse r).setInboundData data := by
  unfold processResponse setInboundData
  dsimp only
  split_ifs <;> rfl

theorem foldl_setInboundData (g : OrderGateway) (data : List UInt8) (rs : List OMClientResponse) :
    rs.foldl processResponse (g.setInboundData data) =
      (rs.foldl processResponse g).setInboundData data := by
  induction rs generalizing g with
  | nil => rfl
  | cons r rs ih => rw [List.foldl_cons, List.foldl_cons, processResponse_setInboundData, ih]

theorem recv_eq (g : OrderGateway) (chunk : List UInt8) :
    g.recv chunk = .ok (((responses (g.tcpSocket.inboundData ++ chunk)).foldl processResponse
      g).setInboundData
        (Framing.rest sizeofOMClientResponse (g.tcpSocket.inboundData ++ chunk))) := by
  generalize hdata : g.tcpSocket.inboundData ++ chunk = data
  rw [recv, hdata, recvCallback]
  change (if sizeofOMClientResponse ≤ data.length then
    recvLoop data (data.length + 1) 0 (g.setInboundData data) >>= _ else _) = _
  split_ifs with h
  · have hdiv : data.length - data.length % sizeofOMClientResponse =
        sizeofOMClientResponse * (data.length / sizeofOMClientResponse) := by
      have := Nat.div_add_mod data.length sizeofOMClientResponse
      omega
    rw [recvLoop_eq _ _ _ _ (Nat.zero_le _) (by omega), List.drop_zero, Nat.sub_zero, ok_bind,
      foldl_setInboundData, hdiv]
    rfl
  · have hlt := Nat.not_le.mp h
    rw [responses_of_lt hlt, Framing.rest_of_lt hlt]
    rfl

end OrderGateway

end Trading
