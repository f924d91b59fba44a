import TradingEcosystem.Common.LFQueue
import TradingEcosystem.Common.TCPSocket
import TradingEcosystem.Exchange.OrderEntry
import TradingEcosystem.Exchange.ResponseOwners
import TradingEcosystem.Exchange.WireFormat
import TradingEcosystem.Library.Trace

namespace Exchange

open Common

def meMaxClientUpdates : ℕ := 256 * 1024

/-- Where `OrderServer::run` stands in its loop, with the slot it points to. `FATAL` and `ASSERT` end
the process, and with it the thread of the matching engine. -/
inductive DrainPhase where
  | receiving
  | draining
  | reading (slot : ℕ)
  | sent (slot : ℕ)
  | advanced (slot : ℕ)
  | exited
  deriving DecidableEq, Repr

namespace DrainPhase

def unreleased : DrainPhase → ℕ
  | .sent _ => 1
  | .advanced _ => 1
  | _ => 0

def isAdvanced : DrainPhase → Bool
  | .advanced _ => true
  | _ => false

def slot? : DrainPhase → Option ℕ
  | .receiving => none
  | .draining => none
  | .exited => none
  | .reading slot => some slot
  | .sent slot => some slot
  | .advanced slot => some slot

end DrainPhase

/-- The matching engine and the order server on the two ends of `outgoing_ogw_responses_`.
`unsent` is what the request in progress has still to send, `emitted` what has been written to the
queue, `sent` what has been passed to which socket, and `wire` the bytes `::send` has taken from it. -/
structure ResponsePath where
  engine : MatchingEngine
  incomingRequests : List MEClientRequest
  processed : List MEClientRequest
  unsent : List MEClientResponse
  writer : WritePhase
  outgoingResponses : LFQueue MEClientResponse
  emitted : List MEClientResponse
  server : OrderServer
  sockets : ℕ → TCPSocket
  reader : DrainPhase
  sent : List (ℕ × OMClientResponse)
  wire : ℕ → List UInt8

inductive ResponseStep where
  | processClientRequest
  | write
  | advanceWrite
  | countWrite
  | stage (socket : ℕ) (req : OMClientRequest)
  | flush (socket n : ℕ)
  | finishRecv
  | getNextToRead
  | send
  | advanceRead
  | countRead
  deriving DecidableEq, Repr

def emptyResponse : MEClientResponse where
  type := .invalid
  clientId := clientIdInvalid
  tickerId := tickerIdInvalid
  clientOrderId := orderIdInvalid
  marketOrderId := orderIdInvalid
  side := .invalid
  price := priceInvalid
  execQty := qtyInvalid
  leavesQty := qtyInvalid

def sendFrame (t : TCPSocket) (seqNum : ℕ) (r : MEClientResponse) : Outcome TCPSocket := do
  let t ← t.send (pack [(8, seqNum)])
  t.send (pack r.members)

namespace ResponsePath

def new (checked : Bool) (capacity : ℕ) : ResponsePath where
  engine := MatchingEngine.new checked
  incomingRequests := []
  processed := []
  unsent := []
  writer := .idle
  outgoingResponses := LFQueue.new capacity emptyResponse
  emitted := []
  server := OrderServer.new
  sockets := fun _ => TCPSocket.new
  reader := .receiving
  sent := []
  wire := fun _ => []

def matchingEngine (s : ResponsePath) : ResponseStep → Option ResponsePath
  | .processClientRequest =>
      match s.writer, s.unsent, s.incomingRequests with
      | .idle, [], req :: reqs =>
          match s.engine.processClientRequest req with
          | .ok (engine, events) =>
              some { s with engine := engine, incomingRequests := reqs
                            processed := s.processed ++ [req], unsent := clientResponses events }
          | .error _ => none
      | _, _, _ => none
  | .write =>
      match s.writer, s.unsent with
      | .idle, r :: rs =>
          some { s with outgoingResponses := s.outgoingResponses.write r, unsent := rs
                        writer := .written, emitted := s.emitted ++ [r] }
      | _, _ => none
  | .advanceWrite =>
      if s.writer = .written then
        some { s with outgoingResponses := s.outgoingResponses.advanceWrite, writer := .advanced }
      else none
  | .countWrite =>
      if s.writer = .advanced then
        some { s with outgoingResponses := s.outgoingResponses.countWrite, writer := .idle }
      else none
  | _ => none

def stageRequest (s : ResponsePath) (socket : ℕ) (req : OMClientRequest) : ResponsePath :=
  let r := s.server.toClientGate.validate socket req
  { s with server := { s.server with toClientGate := r.1 }
           incomingRequests := s.incomingRequests ++ if r.2 then [req.meClientRequest] else [] }

def flushSocket (s : ResponsePath) (socket n : ℕ) : ResponsePath :=
  { s with
    sockets := Function.update s.sockets socket ((s.sockets socket).flush n)
    wire := Function.update s.wire socket
      (s.wire socket ++ (s.sockets socket).outboundData.take n) }

def sendClientResponse (s : ResponsePath) (slot : ℕ) : Outcome ResponsePath := do
  let r := s.outgoingResponses.store slot
  let (server, socket, seqNum) ← s.server.sendResponse r
  let t ← sendFrame (s.sockets socket) seqNum r
  pure { s with
    server := server, sockets := Function.update s.sockets socket t, reader := .sent slot
    sent := s.sent ++ [(socket, ⟨seqNum, r⟩)] }

def countClientResponse (s : ResponsePath) : Outcome ResponsePath := do
  let q ← s.outgoingResponses.countRead
  pure { s with outgoingResponses := q, reader := .draining }

def orExit (s : ResponsePath) : Outcome ResponsePath → ResponsePath
  | .ok s' => s'
  | .error _ => { s with reader := .exited }

def orderServer (s : ResponsePath) : ResponseStep → Option ResponsePath
  | .stage socket req =>
      if s.reader = .receiving ∧ req.meClientRequest.clientId < meMaxNumClients then
        some (s.stageRequest socket req)
      else none
  | .flush socket n => if s.reader = .receiving then some (s.flushSocket socket n) else none
  | .finishRecv => if s.reader = .receiving then some { s with reader := .draining } else none
  | .getNextToRead =>
      match s.reader, s.outgoingResponses.getNextToRead with
      | .draining, some slot => some { s with reader := .reading slot }
      | .draining, none => some { s with reader := .receiving }
      | _, _ => none
  | .send =>
      match s.reader with
      | .reading slot => some (s.orExit (s.sendClientResponse slot))
      | _ => none
  | .advanceRead =>
      match s.reader with
      | .sent slot =>
          some { s with outgoingResponses := s.outgoingResponses.advanceRead
                        reader := .advanced slot }
      | _ => none
  | .countRead =>
      match s.reader with
      | .advanced _ => some (s.orExit s.countClientResponse)
      | _ => none
  | _ => none

def step (s : ResponsePath) (a : ResponseStep) : Option ResponsePath :=
  if s.reader = .exited then none
  else
    match a with
    | .processClientRequest | .write | .advanceWrite | .countWrite => s.matchingEngine a
    | _ => s.orderServer a

def Next (s : ResponsePath) (a : ResponseStep) (s' : ResponsePath) : Prop := s.step a = some s'

/-- What `MatchingEngine::sendClientResponse` does not look at, and what `TCPSocket::send` makes sure
of by ending the process. -/
def HasRoom (s : ResponsePath) : ResponseStep → Prop
  | .write => s.outgoingResponses.size < s.outgoingResponses.capacity
  | .send => ∀ slot ∈ s.reader.slot?, ∀ socket ∈
      s.server.cidTcpSocket (s.outgoingResponses.store slot).clientId,
        (s.sockets socket).outboundData.length + sizeofOMClientResponse ≤ tcpBufferSize
  | _ => True

instance instDecidableHasRoom (s : ResponsePath) : (a : ResponseStep) → Decidable (s.HasRoom a)
  | .write => inferInstanceAs (Decidable (_ < _))
  | .send => by unfold HasRoom; infer_instance
  | .processClientRequest | .advanceWrite | .countWrite | .stage .. | .flush .. | .finishRecv
  | .getNextToRead | .advanceRead | .countRead => isTrue trivial

def frames (s : ResponsePath) (socket : ℕ) : List UInt8 :=
  (s.sent.filter fun m => decide (m.1 = socket)).flatMap fun m =>
    responseFrame m.2.seqNum m.2.meClientResponse

def sentTo (s : ResponsePath) (c : ℕ) : List OMClientResponse :=
  (s.sent.map Prod.snd).filter fun m => decide (m.meClientResponse.clientId = c)

end ResponsePath

def numberedFor (c : ℕ) (rs : List MEClientResponse) : List OMClientResponse :=
  (rs.filter fun r => decide (r.clientId = c)).mapIdx fun i r => ⟨(i + 1) % 2 ^ 64, r⟩

theorem numberedFor_append (c : ℕ) (xs ys : List MEClientResponse) :
    numberedFor c xs <+: numberedFor c (xs ++ ys) := by
  unfold numberedFor
  rw [List.filter_append, List.mapIdx_append]
  exact List.prefix_append _ _

theorem numberedFor_concat (c : ℕ) (rs : List MEClientResponse) (r : MEClientResponse) :
    numberedFor c (rs ++ [r]) = numberedFor c rs ++
      if r.clientId = c then
        [⟨((rs.filter fun r => decide (r.clientId = c)).length + 1) % 2 ^ 64, r⟩]
      else [] := by
  unfold numberedFor
  rw [List.filter_append, List.mapIdx_append]
  by_cases h : r.clientId = c
  · simp [h]
  · simp [h]

namespace ResponsePath

structure Delivered (checked : Bool) (s : ResponsePath) : Prop where
  emitted : ∃ events, (MatchingEngine.new checked).run s.processed = .ok (s.engine, events) ∧
    s.emitted ++ s.unsent = clientResponses events
  inOrder : ∀ c, s.sentTo c <+: numberedFor c s.emitted
  all : s.writer = .idle → s.outgoingResponses.size = 0 → s.reader.slot? = none →
    ∀ c, s.sentTo c = numberedFor c s.emitted
  socket : ∀ m ∈ s.sent, s.server.cidTcpSocket m.2.meClientResponse.clientId = some m.1
  bytes : ∀ socket, s.wire socket ++ (s.sockets socket).outboundData = s.frames socket
  alive : s.reader ≠ .exited
  known : ∀ slot, s.reader = .reading slot →
    ∃ out, s.server.sendResponse (s.outgoingResponses.store slot) = .ok out
  counted : ∀ slot, s.reader = .advanced slot → ∃ q, s.outgoingResponses.countRead = .ok q

end ResponsePath

theorem MatchingEngine.run_concat {e e₁ e₂ : MatchingEngine} {reqs : List MEClientRequest}
    {req : MEClientRequest} {xs ys : List Event} (hrun : e.run reqs = .ok (e₁, xs))
    (hreq : e₁.processClientRequest req = .ok (e₂, ys)) :
    e.run (reqs ++ [req]) = .ok (e₂, xs ++ ys) := by
  induction reqs generalizing e xs with
  | nil =>
    cases hrun
    simp [MatchingEngine.run, hreq]
  | cons r rs ih =>
    obtain ⟨⟨e', events⟩, hstep, hrun⟩ := bind_eq_ok.mp hrun
    obtain ⟨⟨e'', more⟩, htail, hrun⟩ := bind_eq_ok.mp hrun
    cases hrun
    simp [MatchingEngine.run, hstep, ih htail]

theorem OrderServer.sendResponse_ok {server : OrderServer} {r : MEClientResponse}
    (h : OrderServer.Bound server.toClientGate r.clientId) :
    ∃ socket, server.cidTcpSocket r.clientId = some socket ∧
      server.sendResponse r = .ok ({ server with
        cidNextOutgoingSeqNum := Function.update server.cidNextOutgoingSeqNum r.clientId
          ((server.cidNextOutgoingSeqNum r.clientId + 1) % 2 ^ 64) }, socket,
        server.cidNextOutgoingSeqNum r.clientId) := by
  obtain ⟨hid, hsome⟩ := h
  obtain ⟨socket, hsocket⟩ := Option.isSome_iff_exists.mp hsome
  refine ⟨socket, hsocket, ?_⟩
  rw [OrderServer.sendResponse, require_of _ hid, ok_bind, hsocket]
  rfl

theorem bound_validate {g : ClientGate} {socket c : ℕ} {req : OMClientRequest}
    (h : OrderServer.Bound g c) :
    OrderServer.Bound (g.validate socket req).1 c ∧
      (g.validate socket req).1.cidTcpSocket c = g.cidTcpSocket c := by
  obtain ⟨hid, hsome⟩ := h
  have hkeep : (g.validate socket req).1.cidTcpSocket c = g.cidTcpSocket c := by
    by_cases hc : req.meClientRequest.clientId = c
    · obtain ⟨k, hk⟩ := Option.isSome_iff_exists.mp hsome
      rw [(validate_own g socket hc).1, hk]
      rfl
    · exact (validate_other g socket hc).1
  exact ⟨⟨hid, hkeep ▸ hsome⟩, hkeep⟩

namespace ResponsePath

variable {checked : Bool} {s s' : ResponsePath} {r : ℕ} {a : ResponseStep}

structure Inv (checked : Bool) (s : ResponsePath) (r : ℕ) : Prop where
  tracks : s.outgoingResponses.Tracks s.writer s.reader.isAdvanced s.emitted r r
  slot : ∀ k, s.reader.slot? = some k → k = r % s.outgoingResponses.capacity ∧
    s.outgoingResponses.numElements ≠ 0
  answers : ∃ events, (MatchingEngine.new checked).run s.processed = .ok (s.engine, events) ∧
    s.emitted ++ s.unsent = clientResponses events
  owned : s.engine.Owned (OrderServer.Bound s.server.toClientGate)
  requests : ∀ req ∈ s.incomingRequests, OrderServer.Bound s.server.toClientGate req.clientId
  responses : ∀ x ∈ s.emitted ++ s.unsent, OrderServer.Bound s.server.toClientGate x.clientId
  seqNum : ∀ c, s.server.cidNextOutgoingSeqNum c =
    (((s.emitted.take (r + s.reader.unreleased)).filter fun x =>
      decide (x.clientId = c)).length + 1) % 2 ^ 64
  sentTo : ∀ c, s.sentTo c = numberedFor c (s.emitted.take (r + s.reader.unreleased))
  socket : ∀ m ∈ s.sent, s.server.cidTcpSocket m.2.meClientResponse.clientId = some m.1
  bytes : ∀ socket, s.wire socket ++ (s.sockets socket).outboundData = s.frames socket
  alive : s.reader ≠ .exited

theorem inv_new {capacity : ℕ} (hpos : 0 < capacity) (hlt : capacity < 2 ^ 64) :
    (new checked capacity).Inv checked 0 where
  tracks := LFQueue.tracks_new hpos hlt _
  slot := nofun
  answers := ⟨[], rfl, rfl⟩
  owned := MatchingEngine.owned_new checked
  requests := nofun
  responses := nofun
  seqNum := fun _ => rfl
  sentTo := fun _ => rfl
  socket := nofun
  bytes := fun _ => rfl
  alive := nofun

theorem Inv.taken_le (h : s.Inv checked r) : r + s.reader.unreleased ≤ s.emitted.length := by
  have hcount := h.tracks.counted
  have hslot := h.slot
  cases hp : s.reader with
  | sent slot =>
    rw [hp] at hslot
    have hne := (hslot slot rfl).2
    simp only [DrainPhase.unreleased]
    omega
  | advanced slot =>
    rw [hp] at hslot
    have hne := (hslot slot rfl).2
    simp only [DrainPhase.unreleased]
    omega
  | _ =>
    simp only [DrainPhase.unreleased]
    omega

theorem Inv.matchingEngine (h : s.Inv checked r) (hs : s.matchingEngine a = some s')
    (hroom : s.HasRoom a) : s'.Inv checked r := by
  cases a with
  | processClientRequest =>
    simp only [ResponsePath.matchingEngine] at hs
    split at hs
    next req reqs hwriter hunsent hincoming =>
      cases hreq : s.engine.processClientRequest req with
      | error f =>
        rw [hreq] at hs
        cases hs
      | ok out =>
        obtain ⟨engine, events⟩ := out
        rw [hreq] at hs
        cases hs
        obtain ⟨before, hrun, hemitted⟩ := h.answers
        rw [hunsent, List.append_nil] at hemitted
        have hbound := h.requests
        rw [hincoming] at hbound
        obtain ⟨howned, haddressed⟩ :=
          h.owned.processClientRequest (hbound req (List.mem_cons_self ..)) hreq
        refine ⟨h.tracks, h.slot, ⟨_, MatchingEngine.run_concat hrun hreq, ?_⟩, howned, ?_, ?_,
          h.seqNum, h.sentTo, h.socket, h.bytes, h.alive⟩
        · rw [clientResponses_append, hemitted]
        · exact fun x hx => hbound x (List.mem_cons_of_mem _ hx)
        · intro x hx
          rcases List.mem_append.mp hx with hold | hnew
          · exact h.responses x (List.mem_append_left _ hold)
          · exact haddressed x hnew
    next => cases hs
  | write =>
    simp only [ResponsePath.matchingEngine] at hs
    split at hs
    next x xs hwriter hunsent =>
      cases hs
      have htracks := h.tracks
      rw [hwriter] at htracks
      have hcount : r + s.outgoingResponses.numElements + 0 = s.emitted.length := htracks.counted
      have hfree : s.emitted.length < r + s.outgoingResponses.capacity := by
        simp only [HasRoom, LFQueue.size] at hroom
        omega
      have htake : (s.emitted ++ [x]).take (r + s.reader.unreleased) =
          s.emitted.take (r + s.reader.unreleased) :=
        List.take_append_of_le_length h.taken_le
      have hjoin : (s.emitted ++ [x]) ++ xs = s.emitted ++ s.unsent := by
        rw [hunsent, List.append_assoc]
        rfl
      refine ⟨htracks.write hfree x, h.slot, ?_, h.owned, h.requests, ?_, ?_, ?_, h.socket,
        h.bytes, h.alive⟩
      · obtain ⟨events, hrun, hemitted⟩ := h.answers
        exact ⟨events, hrun, hjoin.trans hemitted⟩
      · dsimp only
        rw [hjoin]
        exact h.responses
      · dsimp only
        rw [htake]
        exact h.seqNum
      · dsimp only
        rw [htake]
        exact h.sentTo
    next => cases hs
  | advanceWrite =>
    simp only [ResponsePath.matchingEngine] at hs
    split_ifs at hs with hwritten
    cases hs
    have htracks := h.tracks
    rw [hwritten] at htracks
    exact ⟨htracks.advanceWrite, h.slot, h.answers, h.owned, h.requests, h.responses, h.seqNum,
      h.sentTo, h.socket, h.bytes, h.alive⟩
  | countWrite =>
    simp only [ResponsePath.matchingEngine] at hs
    split_ifs at hs with hadvanced
    cases hs
    have htracks := h.tracks
    rw [hadvanced] at htracks
    have hcounted := htracks.countWrite
    refine ⟨hcounted, ?_, h.answers, h.owned, h.requests, h.responses, h.seqNum, h.sentTo,
      h.socket, h.bytes, h.alive⟩
    intro k hk
    refine ⟨(h.slot k hk).1, ?_⟩
    have hbefore := htracks.counted
    have hafter := hcounted.counted
    simp only [WritePhase.uncounted] at hbefore hafter
    dsimp only
    omega
  | _ => cases hs

theorem Inv.stage (h : s.Inv checked r) {socket : ℕ} {req : OMClientRequest}
    (hid : req.meClientRequest.clientId < meMaxNumClients) :
    (s.stageRequest socket req).Inv checked r := by
  have hkeep : ∀ c, OrderServer.Bound s.server.toClientGate c →
      OrderServer.Bound (s.server.toClientGate.validate socket req).1 c :=
    fun c hc => (bound_validate hc).1
  refine ⟨h.tracks, h.slot, h.answers, h.owned.mono hkeep, ?_, ?_, h.seqNum, h.sentTo, ?_,
    h.bytes, h.alive⟩
  · intro x hx
    change x ∈ s.incomingRequests ++ if (s.server.toClientGate.validate socket req).2 then
      [req.meClientRequest] else [] at hx
    rcases List.mem_append.mp hx with hold | hnew
    · exact hkeep _ (h.requests x hold)
    · cases hstaged : (s.server.toClientGate.validate socket req).2 with
      | true =>
        rw [hstaged] at hnew
        obtain rfl := List.mem_singleton.mp hnew
        refine ⟨hid, ?_⟩
        have hown := (validate_own s.server.toClientGate socket
          (rfl : req.meClientRequest.clientId = _)).1
        change ((s.server.toClientGate.validate socket req).1.cidTcpSocket _).isSome = true
        rw [hown]
        rfl
      | false =>
        rw [hstaged] at hnew
        exact absurd hnew List.not_mem_nil
  · exact fun x hx => hkeep _ (h.responses x hx)
  · intro m hm
    have hm' := h.socket m hm
    have hbound : m.2.meClientResponse.clientId < meMaxNumClients := by
      have hmem : m.2 ∈ s.sentTo m.2.meClientResponse.clientId :=
        List.mem_filter.mpr ⟨List.mem_map_of_mem hm, decide_eq_true rfl⟩
      rw [h.sentTo] at hmem
      obtain ⟨i, hi, hx⟩ := List.mem_mapIdx.mp hmem
      have hfrom := List.mem_of_mem_filter (List.getElem_mem hi)
      rw [← hx]
      exact (h.responses _ (List.mem_append_left _ (List.mem_of_mem_take hfrom))).1
    exact ((bound_validate ⟨hbound, by rw [hm']; rfl⟩).2).trans hm'

theorem Inv.read (h : s.Inv checked r) {slot : ℕ} (hslot : s.reader.slot? = some slot) :
    s.emitted[r]? = some (s.outgoingResponses.store slot) := by
  obtain ⟨rfl, hne⟩ := h.slot slot hslot
  exact h.tracks.read (Nat.le_refl r) (h.tracks.lt_length hne)

theorem Inv.bound (h : s.Inv checked r) {slot : ℕ} (hslot : s.reader.slot? = some slot) :
    OrderServer.Bound s.server.toClientGate (s.outgoingResponses.store slot).clientId :=
  h.responses _ (List.mem_append_left _ (List.mem_of_getElem? (h.read hslot)))

theorem sentTo_concat (c socket : ℕ) (m : OMClientResponse) :
    sentTo { s with sent := s.sent ++ [(socket, m)] } c =
      s.sentTo c ++ if m.meClientResponse.clientId = c then [m] else [] := by
  by_cases hc : m.meClientResponse.clientId = c
  · simp [sentTo, hc]
  · simp [sentTo, hc]

theorem Inv.flush (h : s.Inv checked r) (socket n : ℕ) : (s.flushSocket socket n).Inv checked r := by
  refine ⟨h.tracks, h.slot, h.answers, h.owned, h.requests, h.responses, h.seqNum, h.sentTo,
    h.socket, ?_, h.alive⟩
  intro k
  have hbytes := h.bytes k
  by_cases hk : k = socket
  · subst hk
    simp only [flushSocket, Function.update_self, TCPSocket.flush, List.append_assoc,
      List.take_append_drop]
    exact hbytes
  · simp only [flushSocket, Function.update_of_ne hk]
    exact hbytes

theorem frames_concat (k socket : ℕ) (m : OMClientResponse) :
    frames { s with sent := s.sent ++ [(socket, m)] } k =
      s.frames k ++ if socket = k then responseFrame m.seqNum m.meClientResponse else [] := by
  by_cases hk : socket = k
  · simp [frames, List.filter_append, hk]
  · simp [frames, List.filter_append, hk]

theorem sendFrame_ok {t : TCPSocket} (seqNum : ℕ) (x : MEClientResponse)
    (hroom : t.outboundData.length + sizeofOMClientResponse ≤ tcpBufferSize) :
    sendFrame t seqNum x =
      .ok { t with outboundData := t.outboundData ++ responseFrame seqNum x } := by
  have hlength : (pack [(8, seqNum)]).length + (pack x.members).length = sizeofOMClientResponse := by
    rw [← List.length_append]
    exact length_responseFrame seqNum x
  have hfirst : t.send (pack [(8, seqNum)]) =
      .ok { t with outboundData := t.outboundData ++ pack [(8, seqNum)] } := by
    rw [TCPSocket.send, require_of _ (by omega)]
    rfl
  rw [sendFrame, hfirst, ok_bind, TCPSocket.send,
    require_of _ (by rw [List.length_append]; omega), ok_bind, List.append_assoc]
  rfl

theorem sendClientResponse_ok {slot socket : ℕ} {x : MEClientResponse}
    (hx : s.outgoingResponses.store slot = x)
    (hbound : OrderServer.Bound s.server.toClientGate x.clientId)
    (hsocket : s.server.cidTcpSocket x.clientId = some socket)
    (hroom : (s.sockets socket).outboundData.length + sizeofOMClientResponse ≤ tcpBufferSize) :
    s.sendClientResponse slot = .ok { s with
      server := { s.server with
        cidNextOutgoingSeqNum := Function.update s.server.cidNextOutgoingSeqNum x.clientId
          ((s.server.cidNextOutgoingSeqNum x.clientId + 1) % 2 ^ 64) }
      sockets := Function.update s.sockets socket
        { s.sockets socket with
          outboundData := (s.sockets socket).outboundData ++
            responseFrame (s.server.cidNextOutgoingSeqNum x.clientId) x }
      reader := .sent slot
      sent := s.sent ++ [(socket, ⟨s.server.cidNextOutgoingSeqNum x.clientId, x⟩)] } := by
  subst hx
  obtain ⟨socket', hsocket', hok⟩ := OrderServer.sendResponse_ok hbound
  rw [hsocket] at hsocket'
  cases hsocket'
  simp only [sendClientResponse, hok, ok_bind, sendFrame_ok _ _ hroom]
  rfl

theorem Inv.send (h : s.Inv checked r) {slot : ℕ} (hreading : s.reader = .reading slot)
    (hroom : s.HasRoom .send) :
    ∃ s', s.sendClientResponse slot = .ok s' ∧ s'.Inv checked r := by
  have hslot : s.reader.slot? = some slot := by rw [hreading]; rfl
  have hbound := h.bound hslot
  obtain ⟨socket, hsocket⟩ := Option.isSome_iff_exists.mp hbound.2
  refine ⟨_, sendClientResponse_ok rfl hbound hsocket (hroom slot hslot socket hsocket), ?_⟩
  have hread := h.read hslot
  have hseq := h.seqNum
  have hsent := h.sentTo
  have htracks := h.tracks
  rw [hreading] at hseq hsent htracks
  simp only [DrainPhase.unreleased, Nat.add_zero] at hseq hsent
  generalize hx : s.outgoingResponses.store slot = x at hread hsocket ⊢
  have htake : s.emitted.take (r + 1) = s.emitted.take r ++ [x] := Window.take_succ hread
  refine ⟨htracks, ?_, h.answers, h.owned, h.requests, h.responses, ?_, ?_, ?_, ?_, nofun⟩
  · intro k hk
    cases hk
    exact h.slot slot hslot
  · intro c
    change Function.update s.server.cidNextOutgoingSeqNum x.clientId _ c =
      (((s.emitted.take (r + 1)).filter fun y => decide (y.clientId = c)).length + 1) % 2 ^ 64
    rw [htake, List.filter_append]
    by_cases hc : x.clientId = c
    · subst hc
      rw [Function.update_self, hseq, Nat.mod_add_mod]
      simp
    · rw [Function.update_of_ne (Ne.symm hc), hseq]
      simp [hc]
  · intro c
    change _ = numberedFor c (s.emitted.take (r + 1))
    rw [htake, numberedFor_concat, ← hsent c]
    change ResponsePath.sentTo { s with sent := s.sent ++ [(socket, _)] } c = _
    rw [sentTo_concat, hseq]
    by_cases hc : x.clientId = c
    · subst hc
      rfl
    · simp [hc]
  · intro m hm
    rcases List.mem_append.mp hm with hold | hnew
    · exact h.socket m hold
    · obtain rfl := List.mem_singleton.mp hnew
      exact hsocket
  · intro k
    have hbytes := h.bytes k
    change _ = frames { s with sent := s.sent ++ [(socket, _)] } k
    rw [frames_concat]
    by_cases hk : socket = k
    · subst hk
      rw [if_pos rfl, ← hbytes, List.append_assoc]
      simp only [Function.update_self]
    · rw [if_neg hk, List.append_nil, ← hbytes]
      simp only [Function.update_of_ne (Ne.symm hk)]

theorem Inv.countRead (h : s.Inv checked r) {slot : ℕ} (hadvanced : s.reader = .advanced slot) :
    ∃ q, s.outgoingResponses.countRead = .ok q ∧
      Inv checked { s with outgoingResponses := q, reader := .draining } (r + 1) := by
  have htracks := h.tracks
  have hseq := h.seqNum
  have hsent := h.sentTo
  rw [hadvanced] at htracks hseq hsent
  have hne := (h.slot slot (by rw [hadvanced]; rfl)).2
  obtain ⟨q, hq, -, -, -, htracks'⟩ := htracks.countRead hne
  exact ⟨q, hq, htracks'.forget (Nat.le_succ r) (Nat.le_refl _), nofun, h.answers, h.owned,
    h.requests, h.responses, hseq, hsent, h.socket, h.bytes, nofun⟩

theorem Inv.orderServer (h : s.Inv checked r) (hs : s.orderServer a = some s')
    (hroom : s.HasRoom a) : ∃ r', s'.Inv checked r' := by
  have htracks := h.tracks
  have hseq := h.seqNum
  have hsent := h.sentTo
  cases a with
  | stage socket req =>
    simp only [ResponsePath.orderServer] at hs
    split_ifs at hs with hstage
    cases hs
    exact ⟨r, h.stage hstage.2⟩
  | flush socket n =>
    simp only [ResponsePath.orderServer] at hs
    split_ifs at hs with hreceiving
    cases hs
    exact ⟨r, h.flush socket n⟩
  | finishRecv =>
    simp only [ResponsePath.orderServer] at hs
    split_ifs at hs with hreceiving
    cases hs
    rw [hreceiving] at htracks hseq hsent
    exact ⟨r, htracks, nofun, h.answers, h.owned, h.requests, h.responses, hseq, hsent, h.socket,
      h.bytes, nofun⟩
  | getNextToRead =>
    simp only [ResponsePath.orderServer, LFQueue.getNextToRead] at hs
    cases hp : s.reader with
    | draining =>
      rw [hp] at hs htracks hseq hsent
      by_cases hsize : s.outgoingResponses.size = 0
      · rw [if_pos hsize] at hs
        cases hs
        exact ⟨r, htracks, nofun, h.answers, h.owned, h.requests, h.responses, hseq, hsent,
          h.socket, h.bytes, nofun⟩
      · rw [if_neg hsize] at hs
        cases hs
        refine ⟨r, htracks, ?_, h.answers, h.owned, h.requests, h.responses, hseq, hsent,
          h.socket, h.bytes, nofun⟩
        intro k hk
        cases hk
        exact ⟨htracks.readIndex, hsize⟩
    | _ => simp [hp] at hs
  | send =>
    simp only [ResponsePath.orderServer] at hs
    cases hp : s.reader with
    | reading slot =>
      obtain ⟨t, hsend, hinv⟩ := h.send hp hroom
      simp only [hp, hsend] at hs
      cases hs
      exact ⟨r, hinv⟩
    | _ => simp [hp] at hs
  | advanceRead =>
    simp only [ResponsePath.orderServer] at hs
    cases hp : s.reader with
    | sent slot =>
      rw [hp] at hs htracks hseq hsent
      cases hs
      refine ⟨r, htracks.advanceRead, ?_, h.answers, h.owned, h.requests, h.responses, hseq, hsent,
        h.socket, h.bytes, nofun⟩
      intro k hk
      cases hk
      exact h.slot slot (by rw [hp]; rfl)
    | _ => simp [hp] at hs
  | countRead =>
    simp only [ResponsePath.orderServer] at hs
    cases hp : s.reader with
    | advanced slot =>
      obtain ⟨q, hq, hinv⟩ := h.countRead hp
      have hcount : s.countClientResponse =
          .ok { s with outgoingResponses := q, reader := .draining } := by
        rw [countClientResponse, hq]
        rfl
      simp only [hp, hcount] at hs
      cases hs
      exact ⟨r + 1, hinv⟩
    | _ => simp [hp] at hs
  | _ => cases hs

theorem Inv.step (h : s.Inv checked r) (hs : s.Next a s') (hroom : s.HasRoom a) :
    ∃ r', s'.Inv checked r' := by
  unfold Next ResponsePath.step at hs
  rw [if_neg h.alive] at hs
  split at hs
  · exact ⟨r, h.matchingEngine hs hroom⟩
  · exact ⟨r, h.matchingEngine hs hroom⟩
  · exact ⟨r, h.matchingEngine hs hroom⟩
  · exact ⟨r, h.matchingEngine hs hroom⟩
  · exact h.orderServer hs hroom

theorem Inv.delivered (h : s.Inv checked r) : s.Delivered checked where
  emitted := h.answers
  inOrder := fun c => by
    rw [h.sentTo, ← List.take_append_drop (r + s.reader.unreleased) s.emitted]
    rw [List.take_left' (List.length_take_of_le h.taken_le)]
    exact numberedFor_append c _ _
  all := fun hidle hempty hslot c => by
    have hcount := h.tracks.counted
    rw [hidle] at hcount
    simp only [LFQueue.size, WritePhase.uncounted] at hempty hcount
    have hreader : s.reader.unreleased = 0 := by
      cases hp : s.reader with
      | sent slot => simp [hp, DrainPhase.slot?] at hslot
      | advanced slot => simp [hp, DrainPhase.slot?] at hslot
      | _ => rfl
    rw [h.sentTo, hreader, List.take_of_length_le (by omega)]
  socket := h.socket
  bytes := h.bytes
  alive := h.alive
  known := fun slot hreading => by
    have hslot : s.reader.slot? = some slot := by
      rw [hreading]
      rfl
    obtain ⟨socket, -, hsend⟩ := OrderServer.sendResponse_ok (h.bound hslot)
    exact ⟨_, hsend⟩
  counted := fun slot hadvanced => by
    obtain ⟨q, hq, -⟩ := h.countRead hadvanced
    exact ⟨q, hq⟩

end ResponsePath

def rejection (req : MEClientRequest) : MEClientResponse :=
  ⟨.cancelRejected, req.clientId, req.tickerId, req.orderId, orderIdInvalid, .invalid, priceInvalid,
    qtyInvalid, qtyInvalid⟩

def MEClientRequest.IsCancel (req : MEClientRequest) : Prop :=
  req.type = .cancel ∧ req.clientId < meMaxNumClients ∧ req.tickerId < meMaxTickers ∧
    req.orderId < meMaxOrderIds

instance (req : MEClientRequest) : Decidable req.IsCancel :=
  inferInstanceAs (Decidable (_ ∧ _ ∧ _ ∧ _))

theorem reject_cancel {req : MEClientRequest} (h : req.IsCancel) (checked : Bool) :
    (MatchingEngine.new checked).processClientRequest req =
      .ok (MatchingEngine.new checked, [.response (rejection req)]) := by
  obtain ⟨htype, hclient, hticker, horder⟩ := h
  have hfind : (MEOrderBook.new checked req.tickerId).findOrder req.clientId req.orderId =
      .ok none := by
    rw [MEOrderBook.findOrder, if_pos hclient, require_of _ horder]
    rfl
  have hsame : (MatchingEngine.new checked).setBook req.tickerId
      ((MatchingEngine.new checked).tickerOrderBook req.tickerId) = MatchingEngine.new checked :=
    congrArg MatchingEngine.mk (Function.update_eq_self _ _)
  rw [MatchingEngine.processClientRequest, require_of _ hticker, ok_bind, htype]
  dsimp only
  rw [MEOrderBook.cancel]
  change (((MEOrderBook.new checked req.tickerId).findOrder req.clientId req.orderId >>= _) >>= _) = _
  rw [hfind, ok_bind, pure_ok, ok_bind]
  dsimp only
  rw [hsame]
  rfl

namespace ResponsePath

variable {checked : Bool} {s : ResponsePath} {req : MEClientRequest}

theorem next_process (hreq : req.IsCancel) {reqs : List MEClientRequest}
    (hengine : s.engine = MatchingEngine.new checked) (hwriter : s.writer = .idle)
    (hunsent : s.unsent = []) (hincoming : s.incomingRequests = req :: reqs)
    (halive : s.reader ≠ .exited) : s.Next .processClientRequest { s with
      incomingRequests := reqs, processed := s.processed ++ [req], unsent := [rejection req] } := by
  simp only [Next, ResponsePath.step, ResponsePath.matchingEngine, hwriter, hunsent, hincoming,
    hengine, reject_cancel hreq checked, if_neg halive]
  rfl

theorem reach_write {x : MEClientResponse} (hwriter : s.writer = .idle) (hunsent : s.unsent = [x])
    (halive : s.reader ≠ .exited) :
    Trace.Reach Next (fun _ _ => True) s { s with
      unsent := [], outgoingResponses := s.outgoingResponses.push x
      emitted := s.emitted ++ [x] } := by
  have hwrite : s.Next .write { s with
      outgoingResponses := s.outgoingResponses.write x, unsent := [], writer := .written
      emitted := s.emitted ++ [x] } := by
    simp only [Next, ResponsePath.step, ResponsePath.matchingEngine, hwriter, hunsent, if_neg halive]
  have hadvance : ResponsePath.Next
      { s with
        outgoingResponses := s.outgoingResponses.write x, unsent := [], writer := .written
        emitted := s.emitted ++ [x] } .advanceWrite
      { s with
        outgoingResponses := (s.outgoingResponses.write x).advanceWrite, unsent := []
        writer := .advanced, emitted := s.emitted ++ [x] } := if_neg halive
  have hcount : ResponsePath.Next
      { s with
        outgoingResponses := (s.outgoingResponses.write x).advanceWrite, unsent := []
        writer := .advanced, emitted := s.emitted ++ [x] } .countWrite
      { s with
        unsent := [], outgoingResponses := s.outgoingResponses.push x
        emitted := s.emitted ++ [x] } := by
    rw [hwriter]
    exact if_neg halive
  exact ((Trace.Reach.refl.step trivial hwrite).step trivial hadvance).step trivial hcount

theorem reach_reject (hreq : req.IsCancel) (n : ℕ)
    (hengine : s.engine = MatchingEngine.new checked) (hwriter : s.writer = .idle)
    (hunsent : s.unsent = []) (hincoming : s.incomingRequests = List.replicate n req)
    (halive : s.reader ≠ .exited) : Trace.Reach Next (fun _ _ => True) s { s with
      incomingRequests := [], processed := s.processed ++ List.replicate n req
      outgoingResponses := (List.replicate n (rejection req)).foldl LFQueue.push s.outgoingResponses
      emitted := s.emitted ++ List.replicate n (rejection req) } := by
  induction n generalizing s with
  | zero =>
    have hs : { s with
        incomingRequests := [], processed := s.processed ++ List.replicate 0 req
        outgoingResponses :=
          (List.replicate 0 (rejection req)).foldl LFQueue.push s.outgoingResponses
        emitted := s.emitted ++ List.replicate 0 (rejection req) } = s := by
      rw [List.replicate_zero, List.replicate_zero, List.append_nil, List.append_nil]
      rw [List.replicate_zero] at hincoming
      rw [← hincoming]
      rfl
    rw [hs]
    exact .refl
  | succ n ih =>
    rw [List.replicate_succ] at hincoming
    have hprocess := next_process hreq hengine hwriter hunsent hincoming halive
    have hwrite := reach_write (s := { s with
        incomingRequests := List.replicate n req, processed := s.processed ++ [req]
        unsent := [rejection req] }) (x := rejection req) hwriter rfl halive
    have hrest := ih (s := { s with
      incomingRequests := List.replicate n req, processed := s.processed ++ [req], unsent := []
      outgoingResponses := s.outgoingResponses.push (rejection req)
      emitted := s.emitted ++ [rejection req] }) hengine hwriter rfl rfl halive
    have hreach := ((Trace.Reach.refl.step trivial hprocess).trans hwrite).trans hrest
    simp only [List.append_assoc, List.singleton_append, ← List.replicate_succ] at hreach
    rw [← hunsent] at hreach
    exact hreach

theorem next_stage (req : MEClientRequest) (socket : ℕ) (hreceiving : s.reader = .receiving)
    (hclient : req.clientId < meMaxNumClients)
    (hsocket : (s.server.cidTcpSocket req.clientId).getD socket = socket) :
    ∃ gate : ClientGate, s.Next (.stage socket ⟨s.server.cidNextExpSeqNum req.clientId, req⟩)
        { s with
          server := { s.server with toClientGate := gate }
          incomingRequests := s.incomingRequests ++ [req] } ∧
      gate.cidTcpSocket req.clientId = some socket := by
  have hpass : s.server.toClientGate.Passes socket
      ⟨s.server.cidNextExpSeqNum req.clientId, req⟩ := ⟨hsocket, rfl⟩
  refine ⟨(s.server.toClientGate.validate socket ⟨s.server.cidNextExpSeqNum req.clientId, req⟩).1,
    ?_, ?_⟩
  · have halive : s.reader ≠ .exited := by
      rw [hreceiving]
      nofun
    refine (if_neg halive).trans ?_
    change (if s.reader = .receiving ∧ req.clientId < meMaxNumClients then _ else none) = _
    rw [if_pos ⟨hreceiving, hclient⟩, stageRequest]
    dsimp only
    rw [validate_of_passes hpass]
    rfl
  · rw [(validate_own s.server.toClientGate socket rfl).1]
    exact congrArg some hsocket

theorem reach_stage (req : MEClientRequest) (socket n : ℕ)
    (hreceiving : s.reader = .receiving) (hclient : req.clientId < meMaxNumClients)
    (hsocket : s.server.cidTcpSocket req.clientId = some socket) :
    ∃ gate : ClientGate, Trace.Reach Next (fun _ _ => True) s
        { s with
          server := { s.server with toClientGate := gate }
          incomingRequests := s.incomingRequests ++ List.replicate n req } ∧
      gate.cidTcpSocket req.clientId = some socket := by
  induction n generalizing s with
  | zero =>
    refine ⟨s.server.toClientGate, ?_, hsocket⟩
    rw [List.replicate_zero, List.append_nil]
    exact .refl
  | succ n ih =>
    obtain ⟨gate, hstage, hgate⟩ := next_stage req socket hreceiving hclient
      (by rw [hsocket]; rfl)
    obtain ⟨gate', hreach, hgate'⟩ := ih (s := { s with
      server := { s.server with toClientGate := gate }
      incomingRequests := s.incomingRequests ++ [req] }) hreceiving hgate
    refine ⟨gate', ?_, hgate'⟩
    have hall := (Trace.Reach.refl.step trivial hstage).trans hreach
    rw [List.append_assoc, List.singleton_append, ← List.replicate_succ] at hall
    exact hall

theorem reach_send {socket : ℕ} (hdraining : s.reader = .draining)
    (hsize : s.outgoingResponses.size ≠ 0) {x : MEClientResponse}
    (hx : s.outgoingResponses.store s.outgoingResponses.nextReadIndex = x)
    (hclient : x.clientId < meMaxNumClients)
    (hsocket : s.server.cidTcpSocket x.clientId = some socket)
    (hempty : (s.sockets socket).outboundData = []) :
    ∃ s', Trace.Reach Next (fun _ _ => True) s s' ∧ s'.emitted = s.emitted ∧
      s'.sent = s.sent ++ [(socket, ⟨s.server.cidNextOutgoingSeqNum x.clientId, x⟩)] := by
  have hread : s.Next .getNextToRead
      { s with reader := .reading s.outgoingResponses.nextReadIndex } := by
    simp [Next, ResponsePath.step, ResponsePath.orderServer, hdraining, LFQueue.getNextToRead,
      if_neg hsize]
  have hok := sendClientResponse_ok
    (s := { s with reader := .reading s.outgoingResponses.nextReadIndex }) hx
    ⟨hclient, by rw [hsocket]; rfl⟩ hsocket (by rw [hempty]; decide)
  have hsend : ResponsePath.Next { s with reader := .reading s.outgoingResponses.nextReadIndex }
      .send _ := congrArg (some ∘ orExit _) hok
  exact ⟨_, (Trace.Reach.refl.step trivial hread).step trivial hsend, rfl, rfl⟩

theorem exists_lost (checked : Bool) (n : ℕ) {c : ℕ} {early late : MEClientRequest} (hearly : early.IsCancel)
    (hlate : late.IsCancel) (hc : early.clientId = c) (hc' : late.clientId = c)
    (hn : n + 2 < 2 ^ 64) :
    ∃ s, Trace.Reach Next (fun _ _ => True) (new checked (n + 1)) s ∧
      s.emitted = rejection early :: List.replicate (n + 1) (rejection late) ∧
      s.sent = [(0, ⟨1, rejection late⟩)] := by
  subst hc
  have hlt : early.clientId < meMaxNumClients := hearly.2.1
  -- the engine takes the first request and gets no further until all others have come in
  obtain ⟨gate, hstage, hgate⟩ := next_stage (s := new checked (n + 1)) early 0 rfl hlt
    rfl
  have hprocess := next_process
    (s := { new checked (n + 1) with
      server := { OrderServer.new with toClientGate := gate }, incomingRequests := [early] })
    hearly rfl rfl rfl rfl nofun
  obtain ⟨gate', hstages, hgate'⟩ := reach_stage late 0 (n + 1)
    (s := { new checked (n + 1) with
      server := { OrderServer.new with toClientGate := gate }, processed := [early]
      unsent := [rejection early] }) rfl hlate.2.1 (by rw [hc']; exact hgate)
  let full : ResponsePath := { new checked (n + 1) with
    server := { OrderServer.new with toClientGate := gate' }, processed := [early]
    unsent := [rejection early], incomingRequests := List.replicate (n + 1) late }
  have hfull : Trace.Reach Next (fun _ _ => True) (new checked (n + 1)) full :=
    ((Trace.Reach.refl.step trivial hstage).step trivial hprocess).trans hstages
  have hfinish : full.Next .finishRecv { full with reader := .draining } := rfl
  have hwrite := reach_write (s := { full with reader := .draining }) rfl rfl nofun
  have hreject := reach_reject hlate (n + 1)
    (s := { full with
      reader := .draining, unsent := []
      outgoingResponses := full.outgoingResponses.push (rejection early)
      emitted := [rejection early] }) rfl rfl rfl rfl nofun
  obtain ⟨q, hq, hreadIndex, hstore, hcount⟩ :=
    LFQueue.push_full hn emptyResponse (rejection early) (rejection late)
  change (List.replicate (n + 1) (rejection late)).foldl LFQueue.push
    (full.outgoingResponses.push (rejection early)) = q at hq
  simp only [hq] at hreject
  obtain ⟨s', hsend, hemitted, hsent⟩ := reach_send (s := { full with
      reader := .draining, unsent := [], incomingRequests := []
      processed := [early] ++ List.replicate (n + 1) late, outgoingResponses := q
      emitted := [rejection early] ++ List.replicate (n + 1) (rejection late) })
    (x := rejection late) rfl
    (by
      change q.numElements ≠ 0
      omega)
    (by
      change q.store q.nextReadIndex = _
      rw [hreadIndex, hstore])
    hlate.2.1 hgate' rfl
  exact ⟨s', (((hfull.step trivial hfinish).trans hwrite).trans hreject).trans hsend, hemitted,
    hsent⟩

end ResponsePath

def sampleCancel (orderId : ℕ) : MEClientRequest := ⟨.cancel, 1, 0, orderId, .buy, 100, 10⟩

/-- Client 3 buys from both sellers. The order server reads while the engine writes, and the system
takes the bytes in parts. -/
def sampleSweep : List ResponseStep :=
  [.stage 0 ⟨1, ⟨.new, 1, 0, 10, .sell, 100, 5⟩⟩, .stage 1 ⟨1, ⟨.new, 2, 0, 10, .sell, 101, 4⟩⟩,
    .stage 2 ⟨1, ⟨.new, 3, 0, 20, .buy, 101, 7⟩⟩, .finishRecv, .processClientRequest, .write,
    .advanceWrite, .countWrite, .processClientRequest, .write, .advanceWrite, .getNextToRead, .send,
    .countWrite, .processClientRequest, .advanceRead, .write, .countRead, .advanceWrite,
    .getNextToRead, .countWrite, .send, .write, .advanceWrite, .countWrite, .write, .advanceRead,
    .countRead, .getNextToRead, .send, .advanceRead, .countRead, .getNextToRead, .send, .advanceRead,
    .countRead, .getNextToRead, .flush 2 60, .flush 0 50, .finishRecv, .advanceWrite, .countWrite,
    .write, .advanceWrite, .countWrite, .write, .advanceWrite, .countWrite, .getNextToRead, .send,
    .advanceRead, .countRead, .getNextToRead, .send, .advanceRead, .countRead, .getNextToRead,
    .send, .advanceRead, .countRead, .getNextToRead, .flush 2 90]

def sellerResponses : List OMClientResponse :=
  [⟨1, ⟨.accepted, 1, 0, 10, 1, .sell, 100, 0, 5⟩⟩, ⟨2, ⟨.filled, 1, 0, 10, 1, .sell, 100, 5, 0⟩⟩]

def buyerResponses : List OMClientResponse :=
  [⟨1, ⟨.accepted, 3, 0, 20, 3, .buy, 101, 0, 7⟩⟩, ⟨2, ⟨.filled, 3, 0, 20, 3, .buy, 100, 5, 2⟩⟩,
    ⟨3, ⟨.filled, 3, 0, 20, 3, .buy, 101, 2, 0⟩⟩]

end Exchange
