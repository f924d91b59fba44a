import TradingEcosystem.Library.Trace
import TradingEcosystem.Trading.OrderGateway

namespace Trading

open Common Exchange

/-- One client's gateway and the order server at the two ends of socket `k` of the server.
`toServer` and `toGateway` are the bytes under way. The lists below them record what has happened:
what the two loops have taken from their queues, the bytes each end has read, and the requests
`recvCallback` has handed to the sequencer. -/
structure Connection where
  gateway : OrderGateway
  server : OrderServer
  serverSocket : TCPSocket
  toServer : List UInt8
  toGateway : List UInt8
  drainedRequests : List MEClientRequest
  drainedResponses : List MEClientResponse
  readByServer : List UInt8
  readByGateway : List UInt8
  staged : List RecvTimeClientRequest

inductive ConnectionStep where
  | drainRequest (req : MEClientRequest)
  | flushRequests (n : ℕ)
  | recvRequests (n rxTime : ℕ)
  | recvOther (r : Recv)
  | recvFinished
  | drainResponse (r : MEClientResponse)
  | flushResponses (n : ℕ)
  | recvResponses (n : ℕ)

def newlyStaged (before after : OrderServer) : List RecvTimeClientRequest :=
  after.fifoSequencer.pendingClientRequests.drop before.fifoSequencer.pendingClientRequests.length

namespace Connection

variable {c k : ℕ} {s s' : Connection}

def new (clientId : ℕ) : Connection where
  gateway := OrderGateway.new clientId
  server := OrderServer.new
  serverSocket := TCPSocket.new
  toServer := []
  toGateway := []
  drainedRequests := []
  drainedResponses := []
  readByServer := []
  readByGateway := []
  staged := []

def sendOn (k socket seqNum : ℕ) (r : MEClientResponse) (t : TCPSocket) : Outcome TCPSocket :=
  if socket = k then do
    let t ← t.send (pack [(8, seqNum)])
    t.send (pack r.members)
  else pure t

def Next (k : ℕ) (s : Connection) : ConnectionStep → Connection → Prop
  | .drainRequest req, s' => ∃ gateway, s.gateway.sendRequest req = .ok gateway ∧
      s' = { s with gateway := gateway, drainedRequests := s.drainedRequests ++ [req] }
  | .flushRequests n, s' =>
      s' = { s with
        gateway := { s.gateway with tcpSocket := s.gateway.tcpSocket.flush n }
        toServer := s.toServer ++ s.gateway.tcpSocket.outboundData.take n }
  | .recvRequests n rxTime, s' => n ≤ s.toServer.length ∧
      (s.server.inboundData k).length + n ≤ tcpBufferSize ∧
      ∃ server, s.server.recv ⟨k, s.toServer.take n, rxTime⟩ = .ok server ∧
        s' = { s with
          server := server, toServer := s.toServer.drop n
          readByServer := s.readByServer ++ s.toServer.take n
          staged := s.staged ++ newlyStaged s.server server }
  | .recvOther r, s' => ∃ server, s.server.recv r = .ok server ∧
      s' = { s with server := server, staged := s.staged ++ newlyStaged s.server server }
  | .recvFinished, s' => s' = { s with server := { s.server with fifoSequencer := ⟨[]⟩ } }
  | .drainResponse r, s' => ∃ server socket seqNum serverSocket,
      s.server.sendResponse r = .ok (server, socket, seqNum) ∧
        sendOn k socket seqNum r s.serverSocket = .ok serverSocket ∧
        s' = { s with
          server := server, serverSocket := serverSocket
          drainedResponses := s.drainedResponses ++ [r] }
  | .flushResponses n, s' =>
      s' = { s with
        serverSocket := s.serverSocket.flush n
        toGateway := s.toGateway ++ s.serverSocket.outboundData.take n }
  | .recvResponses n, s' => n ≤ s.toGateway.length ∧
      s.gateway.tcpSocket.inboundData.length + n ≤ tcpBufferSize ∧
      ∃ gateway, s.gateway.recv (s.toGateway.take n) = .ok gateway ∧
        s' = { s with
          gateway := gateway, toGateway := s.toGateway.drop n
          readByGateway := s.readByGateway ++ s.toGateway.take n }

def decoded (s : Connection) (r : Recv) : List OMClientRequest :=
  messages (s.server.inboundData r.socket ++ r.chunk)

def FitsRound (s : Connection) (r : Recv) : Prop :=
  s.server.fifoSequencer.pendingClientRequests.length + (s.decoded r).length ≤ meMaxPendingRequests

/-- Client `c` sends its own requests and sends them on connection `k` only, and a round of the
server decodes no more requests than the sequencer holds. -/
def Allowed (c k : ℕ) (s : Connection) : ConnectionStep → Prop
  | .drainRequest req => req.OfType ∧ req.clientId = c
  | .recvRequests n rxTime => s.FitsRound ⟨k, s.toServer.take n, rxTime⟩
  | .recvOther r => r.socket ≠ k ∧ s.FitsRound r ∧ ∀ m ∈ s.decoded r,
      m.meClientRequest.clientId ≠ c ∧ m.meClientRequest.clientId < meMaxNumClients
  | .drainResponse r => r.OfType
  | _ => True

def requestsDelivered (c : ℕ) (s : Connection) : List MEClientRequest :=
  (s.staged.filter fun q => decide (q.request.clientId = c)).map RecvTimeClientRequest.request

def responsesSent (c : ℕ) (s : Connection) : List MEClientResponse :=
  s.drainedResponses.filter fun r => decide (r.clientId = c)

structure RoundTrip (c k : ℕ) (s : Connection) : Prop where
  requests : s.requestsDelivered c =
    s.drainedRequests.take (s.readByServer.length / sizeofOMClientRequest)
  requestBytes : s.readByServer ++ s.toServer ++ s.gateway.tcpSocket.outboundData =
    (s.drainedRequests.mapIdx fun i req => requestFrame ((i + 1) % 2 ^ 64) req).flatten
  requestsKept : s.server.inboundData k = s.readByServer.drop
    (sizeofOMClientRequest * (s.readByServer.length / sizeofOMClientRequest))
  responses : s.gateway.incomingResponses =
    (s.responsesSent c).take (s.readByGateway.length / sizeofOMClientResponse)
  responseBytes : s.readByGateway ++ s.toGateway ++ s.serverSocket.outboundData =
    ((s.responsesSent c).mapIdx fun i r => responseFrame ((i + 1) % 2 ^ 64) r).flatten
  responsesKept : s.gateway.tcpSocket.inboundData = s.readByGateway.drop
    (sizeofOMClientResponse * (s.readByGateway.length / sizeofOMClientResponse))
  serverReads : ∀ n rxTime, n ≤ s.toServer.length →
    (s.server.inboundData k).length + n ≤ tcpBufferSize →
      s.FitsRound ⟨k, s.toServer.take n, rxTime⟩ → ∃ s', s.Next k (.recvRequests n rxTime) s'
  gatewayReads : ∀ n, n ≤ s.toGateway.length →
    s.gateway.tcpSocket.inboundData.length + n ≤ tcpBufferSize → ∃ s', s.Next k (.recvResponses n) s'

end Connection

section Streams

theorem messages_stream {reqs : List MEClientRequest} (h : ∀ req ∈ reqs, req.OfType) (m : ℕ) :
    messages ((reqs.mapIdx fun i req => requestFrame ((i + 1) % 2 ^ 64) req).flatten.take m) =
      (reqs.mapIdx fun i req => ⟨(i + 1) % 2 ^ 64, req⟩).take (m / sizeofOMClientRequest) := by
  rw [messages, Framing.frames_take_flatten sizeofOMClientRequest_pos, List.map_take]
  · congr 1
    refine List.ext_getElem (by simp) fun i hi _ => ?_
    rw [List.length_map, List.length_mapIdx] at hi
    rw [List.getElem_map, List.getElem_mapIdx, List.getElem_mapIdx,
      readRequest_requestFrame (Nat.mod_lt _ (by decide)) (h _ (List.getElem_mem hi))]
  · intro f hf
    obtain ⟨i, hi, rfl⟩ := List.mem_mapIdx.mp hf
    exact length_requestFrame _ _

theorem responses_stream {rs : List MEClientResponse} (h : ∀ r ∈ rs, r.OfType) (m : ℕ) :
    OrderGateway.responses
        ((rs.mapIdx fun i r => responseFrame ((i + 1) % 2 ^ 64) r).flatten.take m) =
      (rs.mapIdx fun i r => ⟨(i + 1) % 2 ^ 64, r⟩).take (m / sizeofOMClientResponse) := by
  rw [OrderGateway.responses, Framing.frames_take_flatten OrderGateway.sizeofOMClientResponse_pos,
    List.map_take]
  · congr 1
    refine List.ext_getElem (by simp) fun i hi _ => ?_
    rw [List.length_map, List.length_mapIdx] at hi
    rw [List.getElem_map, List.getElem_mapIdx, List.getElem_mapIdx,
      readResponse_responseFrame (Nat.mod_lt _ (by decide)) (h _ (List.getElem_mem hi))]
  · intro f hf
    obtain ⟨i, hi, rfl⟩ := List.mem_mapIdx.mp hf
    exact length_responseFrame _ _

theorem validateAll_stream {c k : ℕ} {g : ClientGate} (as : List Arrival)
    (hsocket : (g.cidTcpSocket c).getD k = k) (hnext : g.cidNextExpSeqNum c < 2 ^ 64)
    (has : ∀ i a, as[i]? = some a → a.socket = k ∧ a.clientId = c ∧
      a.request.seqNum = (g.cidNextExpSeqNum c + i) % 2 ^ 64) :
    (g.validateAll as).2 = as ∧
      (g.validateAll as).1.cidNextExpSeqNum c = (g.cidNextExpSeqNum c + as.length) % 2 ^ 64 ∧
      ((g.validateAll as).1.cidTcpSocket c).getD k = k := by
  induction as generalizing g with
  | nil => exact ⟨rfl, (Nat.mod_eq_of_lt hnext).symm, hsocket⟩
  | cons a as ih =>
    obtain ⟨hk, hc, hseq⟩ := has 0 a rfl
    rw [Nat.add_zero, Nat.mod_eq_of_lt hnext] at hseq
    obtain ⟨hown, hstaged, hcount⟩ := validate_own g a.socket
      (show a.request.meClientRequest.clientId = c from hc)
    have hpass : (g.validate a.socket a.request).2 = true :=
      hstaged.mpr ⟨by rw [hk]; exact hsocket, hseq⟩
    rw [hpass, if_pos rfl] at hcount
    rw [hk, hsocket] at hown
    have hnext' : (g.validate a.socket a.request).1.cidNextExpSeqNum c < 2 ^ 64 := by
      rw [hcount]
      exact Nat.mod_lt _ (by decide)
    have has' : ∀ i b, as[i]? = some b → b.socket = k ∧ b.clientId = c ∧ b.request.seqNum =
        ((g.validate a.socket a.request).1.cidNextExpSeqNum c + i) % 2 ^ 64 := by
      intro i b hb
      obtain ⟨hbk, hbc, hbseq⟩ := has (i + 1) b hb
      refine ⟨hbk, hbc, ?_⟩
      rw [hbseq, hcount, Nat.mod_add_mod, Nat.add_assoc, Nat.add_comm 1 i]
    rw [hk] at hcount hnext' has'
    obtain ⟨hall, hend, hstill⟩ := ih (g := (g.validate k a.request).1) (by rw [hown]; rfl) hnext'
      has'
    rw [hk] at hpass
    rw [validateAll_cons, hk, hpass, if_pos rfl, hall]
    refine ⟨rfl, ?_, hstill⟩
    rw [hend, hcount, Nat.mod_add_mod, List.length_cons, Nat.add_assoc, Nat.add_comm 1]

theorem map_mapIdx_eq_self {α β : Type} {f : ℕ → α → β} {g : β → α} (h : ∀ i x, g (f i x) = x)
    (xs : List α) : (xs.mapIdx f).map g = xs := by
  refine List.ext_getElem (by simp) fun i _ _ => ?_
  rw [List.getElem_map, List.getElem_mapIdx, h]

theorem getElem?_of_take_append {α : Type} {T N : List α} {m n i : ℕ} {x : α}
    (h : T.take n = T.take m ++ N) (hx : N[i]? = some x) : T[m + i]? = some x := by
  have hi := (List.getElem?_eq_some_iff.mp hx).1
  have hlen := congrArg List.length h
  rw [List.length_append, List.length_take, List.length_take] at hlen
  have hm : (T.take m).length = m := by
    rw [List.length_take]
    omega
  have hat : (T.take n)[m + i]? = some x := by
    rw [h, List.getElem?_append_right (by omega), hm, Nat.add_sub_cancel_left]
    exact hx
  rw [List.getElem?_take] at hat
  split_ifs at hat
  exact hat

theorem foldl_processResponse {g : OrderGateway} (rs : List OMClientResponse)
    (hnext : g.nextExpSeqNum < 2 ^ 64)
    (hrs : ∀ i r, rs[i]? = some r → r.meClientResponse.clientId = g.clientId ∧
      r.seqNum = (g.nextExpSeqNum + i) % 2 ^ 64) :
    rs.foldl OrderGateway.processResponse g = { g with
      nextExpSeqNum := (g.nextExpSeqNum + rs.length) % 2 ^ 64
      incomingResponses := g.incomingResponses ++ rs.map OMClientResponse.meClientResponse } := by
  induction rs generalizing g with
  | nil =>
    rw [List.foldl_nil, List.map_nil, List.append_nil, List.length_nil, Nat.add_zero,
      Nat.mod_eq_of_lt hnext]
  | cons r rs ih =>
    obtain ⟨hc, hseq⟩ := hrs 0 r rfl
    rw [Nat.add_zero, Nat.mod_eq_of_lt hnext] at hseq
    have hstep : g.processResponse r = { g with
        nextExpSeqNum := (g.nextExpSeqNum + 1) % 2 ^ 64
        incomingResponses := g.incomingResponses ++ [r.meClientResponse] } := by
      rw [OrderGateway.processResponse, if_neg (not_not.mpr hc), if_neg (not_not.mpr hseq)]
    rw [List.foldl_cons, hstep, ih (Nat.mod_lt _ (by decide))]
    · simp only [Nat.mod_add_mod, List.length_cons, List.map_cons, List.append_assoc,
        List.singleton_append, Nat.add_assoc, Nat.add_comm 1]
    · intro i r' hr'
      obtain ⟨hc', hseq'⟩ := hrs (i + 1) r' hr'
      refine ⟨hc', ?_⟩
      rw [hseq', Nat.mod_add_mod, Nat.add_assoc, Nat.add_comm 1]

theorem validateAll_elsewhere {c k : ℕ} (g : ClientGate) (as : List Arrival)
    (has : ∀ a ∈ as, a.socket ≠ k ∧ a.clientId ≠ c) :
    (g.validateAll as).1.cidNextExpSeqNum c = g.cidNextExpSeqNum c ∧
      (g.validateAll as).1.cidTcpSocket c = g.cidTcpSocket c ∧
      (∀ d, (g.validateAll as).1.cidTcpSocket d = some k → g.cidTcpSocket d = some k) ∧
      (∀ a ∈ (g.validateAll as).2, a.clientId ≠ c) := by
  refine ⟨?_, ?_, ?_, fun a ha => (has a (OrderServer.mem_of_mem_validateAll ha)).2⟩
  · induction as generalizing g with
    | nil => rfl
    | cons a as ih =>
      rw [validateAll_cons, ih _ fun b hb => has b (List.mem_cons_of_mem _ hb)]
      exact (validate_other g a.socket (has a (List.mem_cons_self ..)).2).2
  · rw [validateAll_socket, List.find?_eq_none.mpr, Option.map_none, Option.or_none]
    intro a ha
    simpa using (has a ha).2
  · intro d hd
    rw [validateAll_socket] at hd
    rcases Option.or_eq_some_iff.mp hd with hd | ⟨-, hd⟩
    · exact hd
    · obtain ⟨a, ha, hak⟩ := Option.map_eq_some_iff.mp hd
      exact absurd hak (has a (List.mem_of_find?_eq_some ha)).1

end Streams

namespace Connection

variable {c k : ℕ} {s s' : Connection}

def requestStream (s : Connection) : List UInt8 :=
  (s.drainedRequests.mapIdx fun i req => requestFrame ((i + 1) % 2 ^ 64) req).flatten

def responseStream (c : ℕ) (s : Connection) : List UInt8 :=
  ((s.responsesSent c).mapIdx fun i r => responseFrame ((i + 1) % 2 ^ 64) r).flatten

structure Upstream (c k : ℕ) (s : Connection) : Prop where
  bytes : s.readByServer ++ s.toServer ++ s.gateway.tcpSocket.outboundData = s.requestStream
  drained : ∀ req ∈ s.drainedRequests, req.OfType ∧ req.clientId = c
  outgoing : s.gateway.nextOutgoingSeqNum = (s.drainedRequests.length + 1) % 2 ^ 64
  kept : s.server.inboundData k = leftover s.readByServer
  expected : s.server.cidNextExpSeqNum c = ((messages s.readByServer).length + 1) % 2 ^ 64
  delivered : s.requestsDelivered c =
    (messages s.readByServer).map OMClientRequest.meClientRequest
  socket : (s.server.cidTcpSocket c).getD k = k
  others : ∀ d, d ≠ c → s.server.cidTcpSocket d ≠ some k

structure Downstream (c : ℕ) (s : Connection) : Prop where
  bytes : s.readByGateway ++ s.toGateway ++ s.serverSocket.outboundData = s.responseStream c
  drained : ∀ r ∈ s.drainedResponses, r.OfType
  outgoing : s.server.cidNextOutgoingSeqNum c = ((s.responsesSent c).length + 1) % 2 ^ 64
  kept : s.gateway.tcpSocket.inboundData = Framing.rest sizeofOMClientResponse s.readByGateway
  expected : s.gateway.nextExpSeqNum =
    ((OrderGateway.responses s.readByGateway).length + 1) % 2 ^ 64
  delivered : s.gateway.incomingResponses =
    (OrderGateway.responses s.readByGateway).map OMClientResponse.meClientResponse
  client : s.gateway.clientId = c

theorem messages_nil : messages [] = [] := messages_of_lt sizeofOMClientRequest_pos

theorem responses_nil : OrderGateway.responses [] = [] :=
  OrderGateway.responses_of_lt OrderGateway.sizeofOMClientResponse_pos

theorem upstream_new : (new c).Upstream c k where
  bytes := rfl
  drained := nofun
  outgoing := rfl
  kept := (Framing.rest_of_lt sizeofOMClientRequest_pos).symm
  expected := by
    rw [show (new c).readByServer = [] from rfl, messages_nil]
    rfl
  delivered := by
    rw [show (new c).readByServer = [] from rfl, messages_nil]
    rfl
  socket := rfl
  others := nofun

theorem downstream_new : (new c).Downstream c where
  bytes := rfl
  drained := nofun
  outgoing := rfl
  kept := (Framing.rest_of_lt OrderGateway.sizeofOMClientResponse_pos).symm
  expected := by
    rw [show (new c).readByGateway = [] from rfl, responses_nil]
    rfl
  delivered := by
    rw [show (new c).readByGateway = [] from rfl, responses_nil]
    rfl
  client := rfl

def numberedRequests (s : Connection) : List OMClientRequest :=
  s.drainedRequests.mapIdx fun i req => ⟨(i + 1) % 2 ^ 64, req⟩

def numberedResponses (c : ℕ) (s : Connection) : List OMClientResponse :=
  (s.responsesSent c).mapIdx fun i r => ⟨(i + 1) % 2 ^ 64, r⟩

theorem Upstream.messages_eq (h : s.Upstream c k) (bytes rest : List UInt8)
    (hb : bytes ++ rest = s.requestStream) :
    messages bytes = s.numberedRequests.take (bytes.length / sizeofOMClientRequest) := by
  have hstream := messages_stream (fun req hreq => (h.drained req hreq).1) bytes.length
  change messages (s.requestStream.take bytes.length) = _ at hstream
  rw [← hb, List.take_left' rfl] at hstream
  exact hstream

theorem Downstream.responses_eq (h : s.Downstream c) (bytes rest : List UInt8)
    (hb : bytes ++ rest = s.responseStream c) :
    OrderGateway.responses bytes =
      (s.numberedResponses c).take (bytes.length / sizeofOMClientResponse) := by
  have htyped : ∀ r ∈ s.responsesSent c, r.OfType :=
    fun r hr => h.drained r (List.mem_of_mem_filter hr)
  have hstream := responses_stream htyped bytes.length
  change OrderGateway.responses ((s.responseStream c).take bytes.length) = _ at hstream
  rw [← hb, List.take_left' rfl] at hstream
  exact hstream

theorem Upstream.next_messages (h : s.Upstream c k) {n i : ℕ} {m : OMClientRequest}
    (hm : (messages (s.server.inboundData k ++ s.toServer.take n))[i]? = some m) :
    m.meClientRequest.clientId = c ∧
      m.seqNum = (s.server.cidNextExpSeqNum c + i) % 2 ^ 64 := by
  have hbefore := h.messages_eq s.readByServer
    (s.toServer ++ s.gateway.tcpSocket.outboundData) (by rw [← h.bytes, List.append_assoc])
  have hafter := h.messages_eq (s.readByServer ++ s.toServer.take n)
    (s.toServer.drop n ++ s.gateway.tcpSocket.outboundData) (by
      rw [← h.bytes, List.append_assoc, ← List.append_assoc (s.toServer.take n),
        List.take_append_drop, List.append_assoc])
  rw [messages_append, ← h.kept, hbefore] at hafter
  have hlen := congrArg List.length hbefore
  have hat := getElem?_of_take_append hafter.symm hm
  rw [numberedRequests, List.getElem?_mapIdx] at hat
  obtain ⟨req, hreq, rfl⟩ := Option.map_eq_some_iff.mp hat
  have hlt := (List.getElem?_eq_some_iff.mp hreq).1
  refine ⟨(h.drained req (List.mem_of_getElem? hreq)).2, ?_⟩
  rw [List.length_take, numberedRequests, List.length_mapIdx, Nat.min_eq_left (by omega)] at hlen
  rw [h.expected, hlen, Nat.mod_add_mod, Nat.add_right_comm]

theorem Downstream.next_responses (h : s.Downstream c) {n i : ℕ} {m : OMClientResponse}
    (hm : (OrderGateway.responses
      (s.gateway.tcpSocket.inboundData ++ s.toGateway.take n))[i]? = some m) :
    m.meClientResponse.clientId = s.gateway.clientId ∧
      m.seqNum = (s.gateway.nextExpSeqNum + i) % 2 ^ 64 := by
  have hbefore := h.responses_eq s.readByGateway
    (s.toGateway ++ s.serverSocket.outboundData) (by rw [← h.bytes, List.append_assoc])
  have hafter := h.responses_eq (s.readByGateway ++ s.toGateway.take n)
    (s.toGateway.drop n ++ s.serverSocket.outboundData) (by
      rw [← h.bytes, List.append_assoc, ← List.append_assoc (s.toGateway.take n),
        List.take_append_drop, List.append_assoc])
  rw [OrderGateway.responses_append, ← h.kept, hbefore] at hafter
  have hlen := congrArg List.length hbefore
  have hat := getElem?_of_take_append hafter.symm hm
  rw [numberedResponses, List.getElem?_mapIdx] at hat
  obtain ⟨r, hr, rfl⟩ := Option.map_eq_some_iff.mp hat
  have hlt := (List.getElem?_eq_some_iff.mp hr).1
  have hclient := List.mem_filter.mp (List.mem_of_getElem? hr)
  refine ⟨(of_decide_eq_true hclient.2).trans h.client.symm, ?_⟩
  rw [List.length_take, numberedResponses, List.length_mapIdx, Nat.min_eq_left (by omega)] at hlen
  rw [h.expected, hlen, Nat.mod_add_mod, Nat.add_right_comm]

def arrivalsOf (s : Connection) (r : Recv) : List Arrival :=
  (s.decoded r).map (⟨r.socket, r.rxTime, ·⟩)

theorem recv_staged {r : Recv} (hfits : s.FitsRound r)
    (hids : ∀ m ∈ s.decoded r, m.meClientRequest.clientId < meMaxNumClients) :
    ∃ server, s.server.recv r = .ok server ∧
      server.toClientGate = (s.server.validateAll (s.arrivalsOf r)).1 ∧
      server.inboundData = afterRecv s.server.inboundData r ∧
      server.cidNextOutgoingSeqNum = s.server.cidNextOutgoingSeqNum ∧
      newlyStaged s.server server =
        (s.server.validateAll (s.arrivalsOf r)).2.map Arrival.staged := by
  have harrivals : arrivals s.server.inboundData [r] = s.arrivalsOf r := List.append_nil _
  have hle : (s.server.validateAll (s.arrivalsOf r)).2.length ≤ (s.decoded r).length := by
    have hsub : ∀ (g : ClientGate) (as : List Arrival), (g.validateAll as).2.length ≤ as.length := by
      intro g as
      induction as generalizing g with
      | nil => exact Nat.le_refl _
      | cons a as ih =>
        have htail := ih (g.validate a.socket a.request).1
        rw [validateAll_cons, List.length_append, List.length_cons]
        split_ifs
        · simp only [List.length_singleton]
          omega
        · simp only [List.length_nil]
          omega
    exact (hsub _ _).trans_eq (List.length_map _)
  have hfit : s.server.Fits (arrivals s.server.inboundData [r]) := by
    rw [harrivals]
    refine ⟨fun a ha => ?_, (Nat.add_le_add_left hle _).trans hfits⟩
    obtain ⟨m, hm, rfl⟩ := List.mem_map.mp ha
    exact hids m hm
  refine ⟨_, OrderServer.recv_ok hfit, ?_, rfl, rfl, ?_⟩
  · rw [harrivals]
    rfl
  · rw [harrivals, newlyStaged]
    exact List.drop_left' rfl

theorem requestsDelivered_append (xs : List RecvTimeClientRequest) :
    requestsDelivered c { s with staged := s.staged ++ xs } = s.requestsDelivered c ++
      (xs.filter fun q => decide (q.request.clientId = c)).map RecvTimeClientRequest.request := by
  rw [requestsDelivered, List.filter_append, List.map_append]
  rfl

theorem Upstream.recv (hc : c < meMaxNumClients) (h : s.Upstream c k) {n rxTime : ℕ}
    (hfits : s.FitsRound ⟨k, s.toServer.take n, rxTime⟩) :
    ∃ server, s.server.recv ⟨k, s.toServer.take n, rxTime⟩ = .ok server ∧
      server.cidNextOutgoingSeqNum = s.server.cidNextOutgoingSeqNum ∧
      Upstream c k { s with
        server := server, toServer := s.toServer.drop n
        readByServer := s.readByServer ++ s.toServer.take n
        staged := s.staged ++ newlyStaged s.server server } := by
  have hids : ∀ m ∈ s.decoded ⟨k, s.toServer.take n, rxTime⟩,
      m.meClientRequest.clientId < meMaxNumClients := by
    intro m hm
    obtain ⟨i, hi⟩ := List.mem_iff_getElem?.mp hm
    rw [(h.next_messages hi).1]
    exact hc
  obtain ⟨server, hrecv, hgate, hbuffers, hout, hnew⟩ := recv_staged hfits hids
  refine ⟨server, hrecv, hout, ?_⟩
  generalize hr : (⟨k, s.toServer.take n, rxTime⟩ : Recv) = r at hgate hbuffers hnew
  have hdecoded : s.decoded r = messages (s.server.inboundData k ++ s.toServer.take n) := by
    rw [← hr]
    rfl
  have hmessages : messages (s.readByServer ++ s.toServer.take n) =
      messages s.readByServer ++ s.decoded r := by
    rw [hdecoded, messages_append, ← h.kept]
  obtain ⟨hall, hcount, hsocket⟩ := validateAll_stream (g := s.server.toClientGate)
    (s.arrivalsOf r) h.socket (by rw [h.expected]; exact Nat.mod_lt _ (by decide)) (by
      intro i a ha
      rw [arrivalsOf, List.getElem?_map] at ha
      obtain ⟨m, hm, rfl⟩ := Option.map_eq_some_iff.mp ha
      rw [hdecoded] at hm
      obtain ⟨hclient, hseq⟩ := h.next_messages hm
      exact ⟨by rw [← hr], hclient, hseq⟩)
  have howner : ∀ a ∈ s.arrivalsOf r, a.clientId = c := by
    intro a ha
    obtain ⟨m, hm, rfl⟩ := List.mem_map.mp ha
    rw [hdecoded] at hm
    obtain ⟨i, hi⟩ := List.mem_iff_getElem?.mp hm
    exact (h.next_messages hi).1
  have hlength : (s.arrivalsOf r).length = (s.decoded r).length := List.length_map _
  refine ⟨?_, h.drained, h.outgoing, ?_, ?_, ?_, ?_, ?_⟩
  · dsimp only
    rw [List.append_assoc s.readByServer, List.take_append_drop]
    exact h.bytes
  · dsimp only
    rw [hbuffers, ← hr, afterRecv, Function.update_self, leftover_append s.readByServer, ← h.kept]
  · dsimp only
    rw [hgate, hcount, h.expected, hmessages, List.length_append, hlength, Nat.mod_add_mod,
      Nat.add_right_comm]
  · rw [hnew, hall]
    change requestsDelivered c { s with staged := s.staged ++ _ } = _
    have hmine : (s.arrivalsOf r).map Arrival.staged =
        ((s.arrivalsOf r).map Arrival.staged).filter fun q => decide (q.request.clientId = c) := by
      refine (List.filter_eq_self.mpr fun q hq => ?_).symm
      obtain ⟨a, ha, rfl⟩ := List.mem_map.mp hq
      exact decide_eq_true (howner a ha)
    rw [requestsDelivered_append, ← hmine, h.delivered, hmessages, List.map_append]
    simp only [arrivalsOf, List.map_map]
    rfl
  · dsimp only
    rw [hgate]
    exact hsocket
  · intro d hd
    dsimp only
    rw [hgate, validateAll_socket, List.find?_eq_none.mpr]
    · rw [Option.map_none, Option.or_none]
      exact h.others d hd
    · intro a ha
      rw [howner a ha]
      simpa using hd.symm

theorem Upstream.recvOther (h : s.Upstream c k) {r : Recv} (hk : r.socket ≠ k)
    (hfits : s.FitsRound r) (hids : ∀ m ∈ s.decoded r,
      m.meClientRequest.clientId ≠ c ∧ m.meClientRequest.clientId < meMaxNumClients) :
    ∃ server, s.server.recv r = .ok server ∧
      server.cidNextOutgoingSeqNum = s.server.cidNextOutgoingSeqNum ∧
      Upstream c k { s with
        server := server, staged := s.staged ++ newlyStaged s.server server } := by
  obtain ⟨server, hrecv, hgate, hbuffers, hout, hnew⟩ :=
    recv_staged hfits fun m hm => (hids m hm).2
  obtain ⟨hseq, hsocket, hothers, hstaged⟩ := validateAll_elsewhere (c := c) (k := k)
    s.server.toClientGate (s.arrivalsOf r) (by
      intro a ha
      obtain ⟨m, hm, rfl⟩ := List.mem_map.mp ha
      exact ⟨hk, (hids m hm).1⟩)
  refine ⟨server, hrecv, hout, h.bytes, h.drained, h.outgoing, ?_, ?_, ?_, ?_, ?_⟩
  · dsimp only
    rw [hbuffers, afterRecv, Function.update_of_ne hk.symm]
    exact h.kept
  · dsimp only
    rw [hgate, hseq]
    exact h.expected
  · rw [hnew]
    have hnone : ((s.server.validateAll (s.arrivalsOf r)).2.map Arrival.staged).filter
        (fun q => decide (q.request.clientId = c)) = [] := by
      refine List.filter_eq_nil_iff.mpr fun q hq => ?_
      obtain ⟨a, ha, rfl⟩ := List.mem_map.mp hq
      exact fun hq => hstaged a ha (of_decide_eq_true hq)
    change requestsDelivered c { s with staged := s.staged ++ _ } = _
    rw [requestsDelivered_append, hnone, List.map_nil, List.append_nil]
    exact h.delivered
  · dsimp only
    rw [hgate, hsocket]
    exact h.socket
  · intro d hd hdk
    dsimp only at hdk
    rw [hgate] at hdk
    exact h.others d hd (hothers d hdk)

theorem Upstream.drainRequest (h : s.Upstream c k) {req : MEClientRequest} {gateway : OrderGateway}
    (hreq : req.OfType ∧ req.clientId = c) (hsend : s.gateway.sendRequest req = .ok gateway) :
    Upstream c k { s with gateway := gateway, drainedRequests := s.drainedRequests ++ [req] } := by
  obtain ⟨t₁, h₁, hsend⟩ := bind_eq_ok.mp hsend
  obtain ⟨t₂, h₂, hsend⟩ := bind_eq_ok.mp hsend
  obtain rfl := TCPSocket.send_eq_ok h₁
  obtain rfl := TCPSocket.send_eq_ok h₂
  cases hsend
  refine ⟨?_, ?_, ?_, h.kept, h.expected, h.delivered, h.socket, h.others⟩
  · have hbytes := h.bytes
    simp only [requestStream] at hbytes ⊢
    rw [List.mapIdx_append, List.flatten_append, ← hbytes]
    simp [requestFrame, h.outgoing]
  · intro x hx
    rcases List.mem_append.mp hx with hold | hnew
    · exact h.drained x hold
    · obtain rfl := List.mem_singleton.mp hnew
      exact hreq
  · dsimp only
    rw [h.outgoing, Nat.mod_add_mod, List.length_append, List.length_singleton]

theorem Downstream.drainResponse (h : s.Downstream c) (hup : s.Upstream c k) {r : MEClientResponse}
    {server : OrderServer} {socket seqNum : ℕ} {serverSocket : TCPSocket} (hr : r.OfType)
    (hsend : s.server.sendResponse r = .ok (server, socket, seqNum))
    (hon : sendOn k socket seqNum r s.serverSocket = .ok serverSocket) :
    Downstream c { s with
        server := server, serverSocket := serverSocket
        drainedResponses := s.drainedResponses ++ [r] } ∧
      Upstream c k { s with
        server := server, serverSocket := serverSocket
        drainedResponses := s.drainedResponses ++ [r] } := by
  obtain ⟨_, -, hsend⟩ := bind_eq_ok.mp hsend
  cases hbound : s.server.cidTcpSocket r.clientId with
  | none =>
    rw [hbound] at hsend
    cases hsend
  | some bound =>
    rw [hbound] at hsend
    cases hsend
    refine ⟨?_, hup.bytes, hup.drained, hup.outgoing, hup.kept, hup.expected, hup.delivered,
      hup.socket, hup.others⟩
    have hdrained : ∀ x ∈ s.drainedResponses ++ [r], x.OfType := by
      intro x hx
      rcases List.mem_append.mp hx with hold | hnew
      · exact h.drained x hold
      · obtain rfl := List.mem_singleton.mp hnew
        exact hr
    by_cases hc : r.clientId = c
    · have hk : socket = k := by
        have := hup.socket
        rw [← hc, hbound] at this
        exact this
      rw [sendOn, if_pos hk] at hon
      obtain ⟨t, h₁, h₂⟩ := bind_eq_ok.mp hon
      obtain rfl := TCPSocket.send_eq_ok h₁
      obtain rfl := TCPSocket.send_eq_ok h₂
      have hsent : (s.drainedResponses ++ [r]).filter (fun x => decide (x.clientId = c)) =
          s.responsesSent c ++ [r] := by
        rw [List.filter_append, List.filter_cons_of_pos (by simpa using hc)]
        rfl
      refine ⟨?_, hdrained, ?_, h.kept, h.expected, h.delivered, h.client⟩
      · have hbytes := h.bytes
        simp only [responseStream, responsesSent] at hbytes hsent ⊢
        rw [hsent, List.mapIdx_append, List.flatten_append, ← hbytes, hc, h.outgoing]
        simp [responseFrame, responsesSent]
      · simp only [responsesSent] at hsent ⊢
        have hout := h.outgoing
        simp only [responsesSent] at hout
        rw [hsent, hc, Function.update_self, hout, Nat.mod_add_mod, List.length_append,
          List.length_singleton]
    · have hk : socket ≠ k := by
        rintro rfl
        exact hup.others _ hc hbound
      rw [sendOn, if_neg hk] at hon
      cases hon
      have hsent : responsesSent c { s with
          server := { s.server with
            cidNextOutgoingSeqNum := Function.update s.server.cidNextOutgoingSeqNum r.clientId
              ((s.server.cidNextOutgoingSeqNum r.clientId + 1) % 2 ^ 64) }
          drainedResponses := s.drainedResponses ++ [r] } = s.responsesSent c := by
        rw [responsesSent, List.filter_append, List.filter_cons_of_neg (by simpa using hc)]
        exact List.append_nil _
      refine ⟨?_, hdrained, ?_, h.kept, h.expected, h.delivered, h.client⟩
      · rw [responseStream, hsent]
        exact h.bytes
      · rw [hsent]
        exact (Function.update_of_ne (Ne.symm hc) _ _).trans h.outgoing

theorem Downstream.recv (h : s.Downstream c) (n : ℕ) :
    ∃ gateway, s.gateway.recv (s.toGateway.take n) = .ok gateway ∧
      gateway.tcpSocket.outboundData = s.gateway.tcpSocket.outboundData ∧
      gateway.nextOutgoingSeqNum = s.gateway.nextOutgoingSeqNum ∧
      Downstream c { s with
        gateway := gateway, toGateway := s.toGateway.drop n
        readByGateway := s.readByGateway ++ s.toGateway.take n } := by
  have hresponses : OrderGateway.responses (s.readByGateway ++ s.toGateway.take n) =
      OrderGateway.responses s.readByGateway ++
        OrderGateway.responses (s.gateway.tcpSocket.inboundData ++ s.toGateway.take n) := by
    rw [OrderGateway.responses_append, ← h.kept]
  have hfold := foldl_processResponse (g := s.gateway)
    (OrderGateway.responses (s.gateway.tcpSocket.inboundData ++ s.toGateway.take n))
    (by rw [h.expected]; exact Nat.mod_lt _ (by decide)) fun i m hm => h.next_responses hm
  refine ⟨_, OrderGateway.recv_eq _ _, ?_, ?_, ?_, h.drained, h.outgoing, ?_, ?_, ?_, ?_⟩
  · rw [hfold]
    rfl
  · rw [hfold]
    rfl
  · change s.readByGateway ++ s.toGateway.take n ++ s.toGateway.drop n ++ _ = _
    rw [List.append_assoc s.readByGateway, List.take_append_drop]
    exact h.bytes
  · change Framing.rest _ _ = Framing.rest _ (s.readByGateway ++ s.toGateway.take n)
    rw [Framing.rest_append OrderGateway.sizeofOMClientResponse_pos s.readByGateway, ← h.kept]
  · rw [hfold, hresponses, List.length_append]
    change (s.gateway.nextExpSeqNum + _) % 2 ^ 64 = _
    rw [h.expected, Nat.mod_add_mod, Nat.add_right_comm]
  · rw [hfold, hresponses, List.map_append, ← h.delivered]
    rfl
  · rw [hfold]
    exact h.client

theorem step_inv (hc : c < meMaxNumClients) {a : ConnectionStep} (hup : s.Upstream c k)
    (hdown : s.Downstream c) (ha : s.Allowed c k a) (hs : s.Next k a s') :
    s'.Upstream c k ∧ s'.Downstream c := by
  cases a with
  | drainRequest req =>
    obtain ⟨gateway, hsend, rfl⟩ := hs
    refine ⟨hup.drainRequest ha hsend, ?_⟩
    obtain ⟨t₁, h₁, hsend⟩ := bind_eq_ok.mp hsend
    obtain ⟨t₂, h₂, hsend⟩ := bind_eq_ok.mp hsend
    obtain rfl := TCPSocket.send_eq_ok h₁
    obtain rfl := TCPSocket.send_eq_ok h₂
    cases hsend
    exact ⟨hdown.bytes, hdown.drained, hdown.outgoing, hdown.kept, hdown.expected, hdown.delivered,
      hdown.client⟩
  | flushRequests n =>
    obtain rfl := hs
    refine ⟨⟨?_, hup.drained, hup.outgoing, hup.kept, hup.expected, hup.delivered, hup.socket,
      hup.others⟩, hdown.bytes, hdown.drained, hdown.outgoing, hdown.kept, hdown.expected,
      hdown.delivered, hdown.client⟩
    have hbytes := hup.bytes
    simp only [TCPSocket.flush, List.append_assoc, List.take_append_drop] at hbytes ⊢
    exact hbytes
  | recvRequests n rxTime =>
    obtain ⟨-, -, server, hrecv, rfl⟩ := hs
    obtain ⟨server', hrecv', hout, hup'⟩ := hup.recv hc ha
    rw [hrecv] at hrecv'
    cases hrecv'
    exact ⟨hup', hdown.bytes, hdown.drained, hout ▸ hdown.outgoing, hdown.kept, hdown.expected,
      hdown.delivered, hdown.client⟩
  | recvOther r =>
    obtain ⟨server, hrecv, rfl⟩ := hs
    obtain ⟨hk, hfits, hids⟩ := ha
    obtain ⟨server', hrecv', hout, hup'⟩ := hup.recvOther hk hfits hids
    rw [hrecv] at hrecv'
    cases hrecv'
    exact ⟨hup', hdown.bytes, hdown.drained, hout ▸ hdown.outgoing, hdown.kept, hdown.expected,
      hdown.delivered, hdown.client⟩
  | recvFinished =>
    obtain rfl := hs
    exact ⟨⟨hup.bytes, hup.drained, hup.outgoing, hup.kept, hup.expected, hup.delivered, hup.socket,
      hup.others⟩, hdown.bytes, hdown.drained, hdown.outgoing, hdown.kept, hdown.expected,
      hdown.delivered, hdown.client⟩
  | drainResponse r =>
    obtain ⟨server, socket, seqNum, serverSocket, hsend, hon, rfl⟩ := hs
    exact (hdown.drainResponse hup ha hsend hon).symm
  | flushResponses n =>
    obtain rfl := hs
    refine ⟨⟨hup.bytes, hup.drained, hup.outgoing, hup.kept, hup.expected, hup.delivered,
      hup.socket, hup.others⟩, ?_, hdown.drained, hdown.outgoing, hdown.kept, hdown.expected,
      hdown.delivered, hdown.client⟩
    have hbytes := hdown.bytes
    simp only [TCPSocket.flush, List.append_assoc, List.take_append_drop] at hbytes ⊢
    exact hbytes
  | recvResponses n =>
    obtain ⟨-, -, gateway, hrecv, rfl⟩ := hs
    obtain ⟨gateway', hrecv', hbytes, hseq, hdown'⟩ := hdown.recv n
    rw [hrecv] at hrecv'
    cases hrecv'
    exact ⟨⟨hbytes ▸ hup.bytes, hup.drained, hseq ▸ hup.outgoing, hup.kept, hup.expected,
      hup.delivered, hup.socket, hup.others⟩, hdown'⟩

theorem roundTrip_of_inv (hc : c < meMaxNumClients) (hup : s.Upstream c k)
    (hdown : s.Downstream c) : s.RoundTrip c k where
  requests := by
    rw [hup.delivered, hup.messages_eq s.readByServer
      (s.toServer ++ s.gateway.tcpSocket.outboundData) (by rw [← hup.bytes, List.append_assoc]),
      List.map_take, numberedRequests, map_mapIdx_eq_self fun _ _ => rfl]
  requestBytes := hup.bytes
  requestsKept := hup.kept
  responses := by
    rw [hdown.delivered, hdown.responses_eq s.readByGateway
      (s.toGateway ++ s.serverSocket.outboundData) (by rw [← hdown.bytes, List.append_assoc]),
      List.map_take, numberedResponses, map_mapIdx_eq_self fun _ _ => rfl]
  responseBytes := hdown.bytes
  responsesKept := hdown.kept
  serverReads := fun n rxTime hn hroom hfits => by
    obtain ⟨server, hrecv, -, -⟩ := hup.recv hc hfits
    exact ⟨_, hn, hroom, server, hrecv, rfl⟩
  gatewayReads := fun n hn hroom => by
    obtain ⟨gateway, hrecv, -, -, -⟩ := hdown.recv n
    exact ⟨_, hn, hroom, gateway, hrecv, rfl⟩

theorem inv_of_reach (hc : c < meMaxNumClients)
    (h : Trace.Reach (Next k) (Allowed c k) (new c) s) : s.Upstream c k ∧ s.Downstream c := by
  induction h with
  | refl => exact ⟨upstream_new, downstream_new⟩
  | step _ ha hs ih => exact step_inv hc ih.1 ih.2 ha hs

end Connection

theorem wire_round_trip {c k : ℕ} {s : Connection} (hc : c < meMaxNumClients)
    (h : Trace.Reach (Connection.Next k) (Connection.Allowed c k) (Connection.new c) s) :
    s.RoundTrip c k := by
  obtain ⟨hup, hdown⟩ := Connection.inv_of_reach hc h
  exact Connection.roundTrip_of_inv hc hup hdown

section Sample

namespace Connection

def step (k : ℕ) (s : Connection) : ConnectionStep → Outcome Connection
  | .drainRequest req => do
      let gateway ← s.gateway.sendRequest req
      pure { s with gateway := gateway, drainedRequests := s.drainedRequests ++ [req] }
  | .flushRequests n =>
      pure { s with
        gateway := { s.gateway with tcpSocket := s.gateway.tcpSocket.flush n }
        toServer := s.toServer ++ s.gateway.tcpSocket.outboundData.take n }
  | .recvRequests n rxTime => do
      require (n ≤ s.toServer.length ∧ (s.server.inboundData k).length + n ≤ tcpBufferSize) .fatal
      let server ← s.server.recv ⟨k, s.toServer.take n, rxTime⟩
      pure { s with
        server := server, toServer := s.toServer.drop n
        readByServer := s.readByServer ++ s.toServer.take n
        staged := s.staged ++ newlyStaged s.server server }
  | .recvOther r => do
      let server ← s.server.recv r
      pure { s with server := server, staged := s.staged ++ newlyStaged s.server server }
  | .recvFinished => pure { s with server := { s.server with fifoSequencer := ⟨[]⟩ } }
  | .drainResponse r => do
      let sent ← s.server.sendResponse r
      let serverSocket ← sendOn k sent.2.1 sent.2.2 r s.serverSocket
      pure { s with
        server := sent.1, serverSocket := serverSocket
        drainedResponses := s.drainedResponses ++ [r] }
  | .flushResponses n =>
      pure { s with
        serverSocket := s.serverSocket.flush n
        toGateway := s.toGateway ++ s.serverSocket.outboundData.take n }
  | .recvResponses n => do
      require (n ≤ s.toGateway.length ∧ s.gateway.tcpSocket.inboundData.length + n ≤ tcpBufferSize)
        .fatal
      let gateway ← s.gateway.recv (s.toGateway.take n)
      pure { s with
        gateway := gateway, toGateway := s.toGateway.drop n
        readByGateway := s.readByGateway ++ s.toGateway.take n }

theorem next_of_step {k : ℕ} {s s' : Connection} {a : ConnectionStep} (h : s.step k a = .ok s') :
    s.Next k a s' := by
  cases a with
  | drainRequest req =>
    obtain ⟨gateway, hsend, h⟩ := bind_eq_ok.mp h
    exact ⟨gateway, hsend, (Except.ok.inj h).symm⟩
  | flushRequests n => exact (Except.ok.inj h).symm
  | recvRequests n rxTime =>
    obtain ⟨_, hroom, h⟩ := bind_eq_ok.mp h
    obtain ⟨server, hrecv, h⟩ := bind_eq_ok.mp h
    obtain ⟨hn, hfits⟩ := of_require hroom
    exact ⟨hn, hfits, server, hrecv, (Except.ok.inj h).symm⟩
  | recvOther r =>
    obtain ⟨server, hrecv, h⟩ := bind_eq_ok.mp h
    exact ⟨server, hrecv, (Except.ok.inj h).symm⟩
  | recvFinished => exact (Except.ok.inj h).symm
  | drainResponse r =>
    obtain ⟨⟨server, socket, seqNum⟩, hsend, h⟩ := bind_eq_ok.mp h
    obtain ⟨serverSocket, hon, h⟩ := bind_eq_ok.mp h
    exact ⟨server, socket, seqNum, serverSocket, hsend, hon, (Except.ok.inj h).symm⟩
  | flushResponses n => exact (Except.ok.inj h).symm
  | recvResponses n =>
    obtain ⟨_, hroom, h⟩ := bind_eq_ok.mp h
    obtain ⟨gateway, hrecv, h⟩ := bind_eq_ok.mp h
    obtain ⟨hn, hfits⟩ := of_require hroom
    exact ⟨hn, hfits, gateway, hrecv, (Except.ok.inj h).symm⟩

instance instDecidableAllowed (c k : ℕ) (s : Connection) :
    (a : ConnectionStep) → Decidable (s.Allowed c k a)
  | .drainRequest _ => inferInstanceAs (Decidable (_ ∧ _))
  | .recvRequests .. => inferInstanceAs (Decidable (_ ≤ _))
  | .recvOther _ =>
      inferInstanceAs (Decidable (_ ∧ _ ≤ _ ∧ ∀ m ∈ Connection.decoded _ _, _ ∧ _))
  | .drainResponse _ => inferInstanceAs (Decidable (MEClientResponse.OfType _))
  | .flushRequests _ | .recvFinished | .flushResponses _ | .recvResponses _ => isTrue trivial

end Connection

def sampleRequest : MEClientRequest := ⟨.new, 7, 0, 1, .buy, 100, 5⟩

def sampleResponse : MEClientResponse := ⟨.accepted, 7, 0, 1, 1, .buy, 100, 0, 5⟩

/-- Both messages are cut inside their sequence numbers, and the request behind the first one is
still under way when the answer has arrived. -/
def sampleExchange : List ConnectionStep :=
  [.drainRequest sampleRequest, .flushRequests 3, .recvRequests 3 10, .recvFinished,
    .drainRequest { sampleRequest with orderId := 2 }, .flushRequests 60, .recvRequests 35 20,
    .recvFinished, .drainResponse sampleResponse, .flushResponses 50, .recvResponses 5,
    .recvResponses 45]

theorem wire_round_trip_sample :
    ∃ s : Connection, Trace.Reach (Connection.Next 0) (Connection.Allowed 7 0) (Connection.new 7) s ∧
      s.requestsDelivered 7 = [sampleRequest] ∧
      s.gateway.incomingResponses = [sampleResponse] ∧ s.RoundTrip 7 0 := by
  obtain ⟨s, hrun, hobs⟩ := map_eq_ok (show
    (Trace.checked (Connection.step 0) (Connection.Allowed 7 0) Fault.fatal (Connection.new 7)
      sampleExchange).map (fun s => (s.requestsDelivered 7, s.gateway.incomingResponses)) =
      .ok ([sampleRequest], [sampleResponse]) by decide +kernel)
  obtain ⟨hrequests, hresponses⟩ := Prod.mk.inj hobs
  have hreach : Trace.Reach (Connection.Next 0) (Connection.Allowed 7 0) (Connection.new 7) s :=
    (Trace.reach_of_checked hrun).mono_next fun _ _ _ => Connection.next_of_step
  exact ⟨s, hreach, hrequests, hresponses, wire_round_trip (by decide) hreach⟩

end Sample

end Trading
