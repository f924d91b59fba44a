import TradingEcosystem.Exchange.OrderServer

namespace Exchange

open Common

def messages (bytes : List UInt8) : List OMClientRequest :=
  (Framing.frames sizeofOMClientRequest bytes).map readRequest

def leftover (bytes : List UInt8) : List UInt8 := Framing.rest sizeofOMClientRequest bytes

section Framing

variable {bytes xs ys : List UInt8}

theorem sizeofOMClientRequest_pos : 0 < sizeofOMClientRequest := by decide

theorem getD_take {n j : ℕ} (h : j < n) (bytes : List UInt8) :
    (bytes.take n).getD j 0 = bytes.getD j 0 := by
  rw [List.getD_eq_getElem?_getD, List.getD_eq_getElem?_getD, List.getElem?_take_of_lt h]

theorem readRequest_take (bytes : List UInt8) :
    readRequest (bytes.take sizeofOMClientRequest) = readRequest bytes := by
  have hbyte : ∀ j, j < 38 → (bytes.take sizeofOMClientRequest).getD j 0 = bytes.getD j 0 :=
    fun j hj => getD_take hj bytes
  have hfield : ∀ i n, i + n ≤ 38 →
      readLE (fun j => (bytes.take sizeofOMClientRequest).getD j 0) i n =
        readLE (fun j => bytes.getD j 0) i n :=
    fun i n h => readLE_congr fun j _ hj => hbyte j (by omega)
  simp only [readRequest, hfield 0 8 (by decide), hbyte 8 (by decide), hfield 9 4 (by decide),
    hfield 13 4 (by decide), hfield 17 8 (by decide), hbyte 25 (by decide),
    hfield 26 8 (by decide), hfield 34 4 (by decide)]

theorem messages_of_lt (h : bytes.length < sizeofOMClientRequest) : messages bytes = [] := by
  rw [messages, Framing.frames_of_lt h, List.map_nil]

theorem messages_cons (h : sizeofOMClientRequest ≤ bytes.length) :
    messages bytes = readRequest bytes :: messages (bytes.drop sizeofOMClientRequest) := by
  rw [messages, Framing.frames_cons sizeofOMClientRequest_pos h, List.map_cons, readRequest_take]
  rfl

theorem messages_append (xs ys : List UInt8) :
    messages (xs ++ ys) = messages xs ++ messages (leftover xs ++ ys) := by
  rw [messages, Framing.frames_append sizeofOMClientRequest_pos, List.map_append]
  rfl

theorem leftover_append (xs ys : List UInt8) : leftover (xs ++ ys) = leftover (leftover xs ++ ys) :=
  Framing.rest_append sizeofOMClientRequest_pos xs ys

theorem length_leftover_lt (bytes : List UInt8) : (leftover bytes).length < sizeofOMClientRequest :=
  Framing.length_rest_lt sizeofOMClientRequest_pos bytes

end Framing

namespace OrderServer

def processAll (s : OrderServer) (socket rxTime : ℕ) : List OMClientRequest → Outcome OrderServer
  | [] => pure s
  | req :: reqs => do
      let s ← s.processRequest socket rxTime req
      s.processAll socket rxTime reqs

theorem recvLoop_eq (socket rxTime : ℕ) (data : List UInt8) (fuel i : ℕ) (s : OrderServer)
    (hi : i ≤ data.length) (hfuel : data.length < i + fuel) :
    recvLoop socket rxTime data fuel i s =
      s.processAll socket rxTime (messages (data.drop i)) >>= fun s' =>
        .ok (data.length - (data.length - i) % sizeofOMClientRequest, s') := by
  induction fuel generalizing i s with
  | zero => omega
  | succ fuel ih =>
    unfold recvLoop
    split_ifs with h
    · have hlen : sizeofOMClientRequest ≤ (data.drop i).length := by
        rw [List.length_drop]
        omega
      rw [messages_cons hlen, processAll, List.drop_drop]
      cases s.processRequest socket rxTime (readRequest (data.drop i)) with
      | error e => rfl
      | ok s' =>
        have hmod : (data.length - (i + sizeofOMClientRequest)) % sizeofOMClientRequest =
            (data.length - i) % sizeofOMClientRequest := by
          rw [← Nat.sub_sub, ← Nat.mod_eq_sub_mod (by omega)]
        rw [ok_bind, ok_bind, ih _ s' h (by unfold sizeofOMClientRequest; omega), hmod]
    · have hlen : (data.drop i).length < sizeofOMClientRequest := by
        rw [List.length_drop]
        omega
      have hmod : (data.length - i) % sizeofOMClientRequest = data.length - i :=
        Nat.mod_eq_of_lt (by omega)
      rw [messages_of_lt hlen, hmod, Nat.sub_sub_self hi]
      rfl

theorem setInboundData_self (s : OrderServer) (socket : ℕ) :
    s.setInboundData socket (s.inboundData socket) = s := by
  rw [setInboundData, Function.update_eq_self]

theorem recvCallback_eq (s : OrderServer) (socket rxTime : ℕ) :
    s.recvCallback socket rxTime =
      s.processAll socket rxTime (messages (s.inboundData socket)) >>= fun s' =>
        .ok (s'.setInboundData socket (leftover (s.inboundData socket))) := by
  unfold recvCallback
  dsimp only
  split_ifs with h
  · rw [recvLoop_eq _ _ _ _ _ _ (Nat.zero_le _) (by omega), List.drop_zero, Nat.sub_zero]
    cases s.processAll socket rxTime (messages (s.inboundData socket)) with
    | error e => rfl
    | ok s' =>
      have hdiv : (s.inboundData socket).length -
          (s.inboundData socket).length % sizeofOMClientRequest =
            sizeofOMClientRequest * ((s.inboundData socket).length / sizeofOMClientRequest) := by
        have := Nat.div_add_mod (s.inboundData socket).length sizeofOMClientRequest
        omega
      rw [ok_bind, ok_bind, leftover, Framing.rest, hdiv]
      rfl
  · have hlt := Nat.not_le.mp h
    rw [messages_of_lt hlt, leftover, Framing.rest_of_lt hlt]
    exact congrArg Except.ok (setInboundData_self s socket).symm

end OrderServer

structure Arrival where
  socket : ℕ
  rxTime : ℕ
  request : OMClientRequest

def Arrival.staged (a : Arrival) : RecvTimeClientRequest := ⟨a.rxTime, a.request.meClientRequest⟩

def Arrival.clientId (a : Arrival) : ℕ := a.request.meClientRequest.clientId

def afterRecv (buffers : ℕ → List UInt8) (r : Recv) : ℕ → List UInt8 :=
  Function.update buffers r.socket (leftover (buffers r.socket ++ r.chunk))

def arrivals : (ℕ → List UInt8) → List Recv → List Arrival
  | _, [] => []
  | buffers, r :: rs =>
      (messages (buffers r.socket ++ r.chunk)).map (⟨r.socket, r.rxTime, ·⟩) ++
        arrivals (afterRecv buffers r) rs

def bytesOf (socket : ℕ) (rs : List Recv) : List UInt8 :=
  (rs.filter fun r => decide (r.socket = socket)).flatMap Recv.chunk

def ClientGate.validateAll (g : ClientGate) : List Arrival → ClientGate × List Arrival
  | [] => (g, [])
  | a :: as =>
      let r := g.validate a.socket a.request
      let t := r.1.validateAll as
      (t.1, (if r.2 then [a] else []) ++ t.2)

def stagedRounds : ClientGate → (ℕ → List UInt8) → List (List Recv) → List (List Arrival)
  | _, _, [] => []
  | g, buffers, rs :: rounds =>
      let r := g.validateAll (arrivals buffers rs)
      r.2 :: stagedRounds r.1 (rs.foldl afterRecv buffers) rounds

section Arrivals

theorem arrivals_append (buffers : ℕ → List UInt8) (rs ts : List Recv) :
    arrivals buffers (rs ++ ts) = arrivals buffers rs ++ arrivals (rs.foldl afterRecv buffers) ts := by
  induction rs generalizing buffers with
  | nil => rfl
  | cons r rs ih => rw [List.cons_append, arrivals, ih, arrivals, List.foldl_cons, List.append_assoc]

theorem validateAll_append (g : ClientGate) (as bs : List Arrival) :
    g.validateAll (as ++ bs) = (((g.validateAll as).1.validateAll bs).1,
      (g.validateAll as).2 ++ ((g.validateAll as).1.validateAll bs).2) := by
  induction as generalizing g with
  | nil => rfl
  | cons a as ih => simp [ClientGate.validateAll, ih]

theorem flatten_stagedRounds (g : ClientGate) (buffers : ℕ → List UInt8)
    (rounds : List (List Recv)) :
    (stagedRounds g buffers rounds).flatten = (g.validateAll (arrivals buffers rounds.flatten)).2 := by
  induction rounds generalizing g buffers with
  | nil => rfl
  | cons rs rounds ih =>
    rw [stagedRounds, List.flatten_cons, List.flatten_cons, arrivals_append, validateAll_append, ih]

theorem bytesOf_cons (k : ℕ) (r : Recv) (rs : List Recv) :
    bytesOf k (r :: rs) = (if r.socket = k then r.chunk else []) ++ bytesOf k rs := by
  unfold bytesOf
  rw [List.filter_cons]
  split_ifs with h h' h'
  · rfl
  · exact absurd (of_decide_eq_true h) h'
  · exact absurd (decide_eq_true h') h
  · rfl

theorem arrivals_socket (buffers : ℕ → List UInt8) (rs : List Recv)
    (hshort : ∀ k, (buffers k).length < sizeofOMClientRequest) (k : ℕ) :
    ((arrivals buffers rs).filter fun a => decide (a.socket = k)).map Arrival.request =
        messages (buffers k ++ bytesOf k rs) ∧
      rs.foldl afterRecv buffers k = leftover (buffers k ++ bytesOf k rs) := by
  induction rs generalizing buffers with
  | nil =>
    rw [show bytesOf k [] = [] from rfl, List.append_nil, messages_of_lt (hshort k), leftover,
      Framing.rest_of_lt (hshort k)]
    exact ⟨rfl, rfl⟩
  | cons r rs ih =>
    have hshort' : ∀ k, (afterRecv buffers r k).length < sizeofOMClientRequest := by
      intro k
      rw [afterRecv, Function.update_apply]
      split_ifs
      · exact length_leftover_lt _
      · exact hshort k
    obtain ⟨hmsgs, hrest⟩ := ih _ hshort'
    rw [arrivals, List.filter_append, List.map_append, hmsgs, List.foldl_cons, hrest, bytesOf_cons]
    by_cases hk : r.socket = k
    · have hfirst : (List.filter (fun a : Arrival => decide (a.socket = k))
          ((messages (buffers r.socket ++ r.chunk)).map (⟨r.socket, r.rxTime, ·⟩))).map
            Arrival.request = messages (buffers k ++ r.chunk) := by
        rw [List.filter_eq_self.mpr (by simp [hk]), List.map_map, hk]
        exact List.map_id _
      have hafter : afterRecv buffers r k = leftover (buffers k ++ r.chunk) := by
        rw [afterRecv, hk, Function.update_self]
      rw [hfirst, hafter, if_pos hk, ← List.append_assoc, messages_append (buffers k ++ r.chunk),
        leftover_append (buffers k ++ r.chunk)]
      exact ⟨rfl, rfl⟩
    · have hfirst : List.filter (fun a : Arrival => decide (a.socket = k))
          ((messages (buffers r.socket ++ r.chunk)).map (⟨r.socket, r.rxTime, ·⟩)) = [] :=
        List.filter_eq_nil_iff.mpr (by simp [hk])
      have hafter : afterRecv buffers r k = buffers k := by
        rw [afterRecv, Function.update_of_ne (Ne.symm hk)]
      rw [hfirst, hafter, if_neg hk]
      exact ⟨rfl, rfl⟩

end Arrivals

def acceptFrom : ℕ → List OMClientRequest → List OMClientRequest
  | _, [] => []
  | next, req :: reqs =>
      if req.seqNum = next then req :: acceptFrom ((next + 1) % 2 ^ 64) reqs
      else acceptFrom next reqs

theorem seqNum_acceptFrom (next : ℕ) (hnext : next < 2 ^ 64) (reqs : List OMClientRequest) :
    (acceptFrom next reqs).map OMClientRequest.seqNum =
      (List.range (acceptFrom next reqs).length).map fun i => (next + i) % 2 ^ 64 := by
  induction reqs generalizing next with
  | nil => rfl
  | cons req reqs ih =>
    unfold acceptFrom
    split_ifs with h
    · rw [List.map_cons, List.length_cons, List.range_succ_eq_map, List.map_cons, List.map_map,
        ih _ (Nat.mod_lt _ (by decide)), h]
      refine congrArg₂ List.cons (Nat.mod_eq_of_lt hnext).symm (List.map_congr_left fun i _ => ?_)
      rw [Function.comp_apply, Nat.mod_add_mod, Nat.add_assoc, Nat.add_comm 1 i]
    · exact ih next hnext

section Client

variable {g : ClientGate} {c : ℕ}

theorem bindClient_own (g : ClientGate) (c socket : ℕ) :
    (g.bindClient c socket).cidTcpSocket c = some ((g.cidTcpSocket c).getD socket) := by
  unfold ClientGate.bindClient
  split_ifs with h
  · rw [h]
    exact Function.update_self ..
  · obtain ⟨k, hk⟩ := Option.ne_none_iff_exists'.mp h
    rw [hk]
    rfl

theorem bindClient_other (g : ClientGate) {c d : ℕ} (h : d ≠ c) (socket : ℕ) :
    (g.bindClient d socket).cidTcpSocket c = g.cidTcpSocket c := by
  unfold ClientGate.bindClient
  split_ifs
  · exact Function.update_of_ne (Ne.symm h) _ _
  · rfl

theorem bindClient_next (g : ClientGate) (c socket : ℕ) :
    (g.bindClient c socket).cidNextExpSeqNum = g.cidNextExpSeqNum := by
  unfold ClientGate.bindClient
  split_ifs <;> rfl

def ClientGate.Passes (g : ClientGate) (socket : ℕ) (req : OMClientRequest) : Prop :=
  (g.cidTcpSocket req.meClientRequest.clientId).getD socket = socket ∧
    req.seqNum = g.cidNextExpSeqNum req.meClientRequest.clientId

theorem validate_of_passes {socket : ℕ} {req : OMClientRequest} (h : g.Passes socket req) :
    g.validate socket req = ({ g.bindClient req.meClientRequest.clientId socket with
      cidNextExpSeqNum := Function.update g.cidNextExpSeqNum req.meClientRequest.clientId
        ((g.cidNextExpSeqNum req.meClientRequest.clientId + 1) % 2 ^ 64) }, true) := by
  obtain ⟨hsocket, hseq⟩ := h
  rw [ClientGate.validate, bindClient_own, bindClient_next, hsocket, if_neg (not_not.mpr rfl),
    if_neg (not_not.mpr hseq)]

theorem validate_of_not_passes {socket : ℕ} {req : OMClientRequest} (h : ¬ g.Passes socket req) :
    g.validate socket req = (g.bindClient req.meClientRequest.clientId socket, false) := by
  rw [ClientGate.validate, bindClient_own, bindClient_next]
  split_ifs with hsocket hseq
  · rfl
  · rfl
  · rw [not_not, Option.some_inj] at hsocket
    exact absurd ⟨hsocket, not_not.mp hseq⟩ h

theorem validate_other (g : ClientGate) (socket : ℕ) {req : OMClientRequest}
    (h : req.meClientRequest.clientId ≠ c) :
    (g.validate socket req).1.cidTcpSocket c = g.cidTcpSocket c ∧
      (g.validate socket req).1.cidNextExpSeqNum c = g.cidNextExpSeqNum c := by
  by_cases hp : g.Passes socket req
  · rw [validate_of_passes hp]
    exact ⟨bindClient_other g h socket, Function.update_of_ne (Ne.symm h) _ _⟩
  · rw [validate_of_not_passes hp, bindClient_next]
    exact ⟨bindClient_other g h socket, rfl⟩

theorem validate_own (g : ClientGate) (socket : ℕ) {req : OMClientRequest}
    (h : req.meClientRequest.clientId = c) :
    (g.validate socket req).1.cidTcpSocket c = some ((g.cidTcpSocket c).getD socket) ∧
      ((g.validate socket req).2 = true ↔
        (g.cidTcpSocket c).getD socket = socket ∧ req.seqNum = g.cidNextExpSeqNum c) ∧
      (g.validate socket req).1.cidNextExpSeqNum c =
        if (g.validate socket req).2 then (g.cidNextExpSeqNum c + 1) % 2 ^ 64
        else g.cidNextExpSeqNum c := by
  subst h
  by_cases hp : g.Passes socket req
  · rw [validate_of_passes hp]
    exact ⟨bindClient_own g _ socket, iff_of_true rfl hp, Function.update_self ..⟩
  · rw [validate_of_not_passes hp, bindClient_next]
    exact ⟨bindClient_own g _ socket, iff_of_false nofun hp, rfl⟩

theorem validateAll_cons (g : ClientGate) (a : Arrival) (as : List Arrival) :
    g.validateAll (a :: as) = (((g.validate a.socket a.request).1.validateAll as).1,
      (if (g.validate a.socket a.request).2 then [a] else []) ++
        ((g.validate a.socket a.request).1.validateAll as).2) := rfl

theorem validateAll_socket (g : ClientGate) (as : List Arrival) (c : ℕ) :
    (g.validateAll as).1.cidTcpSocket c = (g.cidTcpSocket c).or
      ((as.find? fun a => decide (a.clientId = c)).map Arrival.socket) := by
  induction as generalizing g with
  | nil => simp [ClientGate.validateAll]
  | cons a as ih =>
    rw [validateAll_cons, ih]
    by_cases h : a.clientId = c
    · rw [(validate_own g a.socket h).1, List.find?_cons_of_pos (by simpa using h)]
      cases g.cidTcpSocket c <;> rfl
    · rw [(validate_other g a.socket h).1, List.find?_cons_of_neg (by simpa using h)]

theorem validateAll_client (g : ClientGate) (as : List Arrival) (c : ℕ)
    (hnext : g.cidNextExpSeqNum c < 2 ^ 64) :
    let own := as.filter fun a => decide (a.clientId = c ∧
      (g.validateAll as).1.cidTcpSocket c = some a.socket)
    let accepted := acceptFrom (g.cidNextExpSeqNum c) (own.map Arrival.request)
    ((g.validateAll as).2.filter fun a => decide (a.clientId = c)).map Arrival.request = accepted ∧
      (g.validateAll as).1.cidNextExpSeqNum c =
        (g.cidNextExpSeqNum c + accepted.length) % 2 ^ 64 := by
  induction as generalizing g with
  | nil => exact ⟨rfl, (Nat.mod_eq_of_lt hnext).symm⟩
  | cons a as ih =>
    have hsocket := validateAll_socket (g.validate a.socket a.request).1 as c
    rw [validateAll_cons]
    dsimp only
    by_cases h : a.clientId = c
    · obtain ⟨hown, hstaged, hcount⟩ := validate_own g a.socket h
      have hlt : (g.validate a.socket a.request).1.cidNextExpSeqNum c < 2 ^ 64 := by
        rw [hcount]
        split_ifs
        · exact Nat.mod_lt _ (by decide)
        · exact hnext
      obtain ⟨hreqs, hend⟩ := ih (g.validate a.socket a.request).1 hlt
      rw [hown, Option.some_or] at hsocket
      rw [hsocket] at hreqs hend ⊢
      rw [hcount] at hreqs hend
      cases hok : (g.validate a.socket a.request).2 with
      | true =>
        obtain ⟨hsame, hseq⟩ := hstaged.mp hok
        rw [hok, if_pos rfl] at hreqs hend
        rw [if_pos rfl, List.singleton_append, List.filter_cons_of_pos (by simpa using h),
          List.filter_cons_of_pos (by simp [h, hsame]), List.map_cons, List.map_cons, acceptFrom,
          if_pos hseq, hreqs, hend, List.length_cons, Nat.mod_add_mod, Nat.add_assoc,
          Nat.add_comm 1]
        exact ⟨rfl, rfl⟩
      | false =>
        have hno := mt hstaged.mpr (by simp [hok])
        rw [hok, if_neg (by decide)] at hreqs hend
        rw [if_neg (by decide), List.nil_append]
        by_cases hsame : (g.cidTcpSocket c).getD a.socket = a.socket
        · rw [List.filter_cons_of_pos (by simp [h, hsame]), List.map_cons, acceptFrom,
            if_neg fun hseq => hno ⟨hsame, hseq⟩]
          exact ⟨hreqs, hend⟩
        · rw [List.filter_cons_of_neg (by simp [hsame])]
          exact ⟨hreqs, hend⟩
    · obtain ⟨-, hcount⟩ := validate_other g a.socket h
      obtain ⟨hreqs, hend⟩ := ih (g.validate a.socket a.request).1 (hcount ▸ hnext)
      rw [hcount] at hreqs hend
      have hhead : (if (g.validate a.socket a.request).2 = true then [a] else []).filter
          (fun a : Arrival => decide (a.clientId = c)) = [] := by
        split_ifs
        · exact List.filter_eq_nil_iff.mpr (by simpa using h)
        · rfl
      rw [List.filter_append, hhead, List.nil_append, List.filter_cons_of_neg (by simp [h])]
      exact ⟨hreqs, hend⟩

end Client

namespace OrderServer

variable {s : OrderServer}

def stage (s : OrderServer) (as : List Arrival) : OrderServer :=
  { s with
    toClientGate := (s.validateAll as).1
    fifoSequencer := ⟨s.fifoSequencer.pendingClientRequests ++
      (s.validateAll as).2.map Arrival.staged⟩ }

def Fits (s : OrderServer) (as : List Arrival) : Prop :=
  (∀ a ∈ as, a.clientId < meMaxNumClients) ∧
    s.fifoSequencer.pendingClientRequests.length + (s.validateAll as).2.length ≤ meMaxPendingRequests

theorem stage_append (s : OrderServer) (as bs : List Arrival) :
    s.stage (as ++ bs) = (s.stage as).stage bs := by
  simp [stage, validateAll_append]

theorem stage_nil (s : OrderServer) : s.stage [] = s := by
  simp [stage, ClientGate.validateAll]

theorem Fits.append (as : List Arrival) {bs : List Arrival} (h : s.Fits (as ++ bs)) :
    s.Fits as ∧ (s.stage as).Fits bs := by
  obtain ⟨hids, hroom⟩ := h
  rw [validateAll_append, List.length_append] at hroom
  refine ⟨⟨fun a ha => hids a (List.mem_append_left _ ha), by omega⟩,
    fun a ha => hids a (List.mem_append_right _ ha), ?_⟩
  simp only [stage, List.length_append, List.length_map]
  omega

theorem processRequest_ok {a : Arrival} (h : s.Fits [a]) :
    s.processRequest a.socket a.rxTime a.request = .ok (s.stage [a]) := by
  obtain ⟨hids, hroom⟩ := h
  have hid : a.request.meClientRequest.clientId < meMaxNumClients := hids a (List.mem_singleton_self a)
  unfold processRequest
  rw [require_of _ hid, ok_bind]
  simp only [stage, ClientGate.validateAll, List.append_nil] at hroom ⊢
  cases hstaged : (s.toClientGate.validate a.socket a.request).2 with
  | false =>
    rw [hstaged] at hroom
    simp
  | true =>
    rw [hstaged] at hroom
    simp only [if_true, List.length_singleton] at hroom
    rw [if_pos rfl, FIFOSequencer.addClientRequest, require_of _ (by omega)]
    rfl

theorem processAll_ok (socket rxTime : ℕ) (reqs : List OMClientRequest)
    (h : s.Fits (reqs.map (⟨socket, rxTime, ·⟩))) :
    s.processAll socket rxTime reqs = .ok (s.stage (reqs.map (⟨socket, rxTime, ·⟩))) := by
  induction reqs generalizing s with
  | nil => exact congrArg Except.ok (stage_nil s).symm
  | cons req reqs ih =>
    obtain ⟨hhead, htail⟩ := Fits.append [⟨socket, rxTime, req⟩] h
    rw [processAll, processRequest_ok hhead, ok_bind, ih htail]
    exact congrArg Except.ok (stage_append s [_] _).symm

def setBuffers (s : OrderServer) (buffers : ℕ → List UInt8) : OrderServer :=
  { s with inboundData := buffers }

theorem recv_ok {r : Recv} (h : s.Fits (arrivals s.inboundData [r])) :
    s.recv r = .ok ((s.stage (arrivals s.inboundData [r])).setBuffers
      (afterRecv s.inboundData r)) := by
  have harr : arrivals s.inboundData [r] =
      (messages (s.inboundData r.socket ++ r.chunk)).map (⟨r.socket, r.rxTime, ·⟩) :=
    List.append_nil _
  rw [harr] at h ⊢
  have hdata : (s.setInboundData r.socket (s.inboundData r.socket ++ r.chunk)).inboundData
      r.socket = s.inboundData r.socket ++ r.chunk := Function.update_self ..
  have hfits : (s.setInboundData r.socket (s.inboundData r.socket ++ r.chunk)).Fits
      ((messages (s.inboundData r.socket ++ r.chunk)).map (⟨r.socket, r.rxTime, ·⟩)) := h
  rw [recv, recvCallback_eq, hdata, processAll_ok _ _ _ hfits, ok_bind]
  simp only [setInboundData, stage, setBuffers, afterRecv, Function.update_idem]

theorem recvAll_ok (rs : List Recv) (h : s.Fits (arrivals s.inboundData rs)) :
    s.recvAll rs = .ok ((s.stage (arrivals s.inboundData rs)).setBuffers
      (rs.foldl afterRecv s.inboundData)) := by
  induction rs generalizing s with
  | nil => exact congrArg Except.ok (stage_nil s).symm
  | cons r rs ih =>
    rw [show r :: rs = [r] ++ rs from rfl, arrivals_append] at h ⊢
    obtain ⟨hhead, htail⟩ := Fits.append _ h
    have hstep : ((s.stage (arrivals s.inboundData [r])).setBuffers
        (afterRecv s.inboundData r)).Fits (arrivals (afterRecv s.inboundData r) rs) := htail
    rw [List.singleton_append, recvAll, recv_ok hhead, ok_bind, ih hstep, stage_append]
    rfl

def FitsRounds (s : OrderServer) (rounds : List (List Recv)) : Prop :=
  (∀ a ∈ arrivals s.inboundData rounds.flatten, a.clientId < meMaxNumClients) ∧
    ∀ batch ∈ stagedRounds s.toClientGate s.inboundData rounds, batch.length ≤ meMaxPendingRequests

def AnswersStaged : List Arrival → ClientGate → (ℕ → List UInt8) → List Iteration → Prop
  | _, _, _, [] => True
  | staged, g, buffers, it :: its =>
      let r := g.validateAll (arrivals buffers it.recvs)
      (∀ response ∈ it.responses, ∃ a ∈ staged ++ r.2, a.clientId = response.clientId) ∧
        AnswersStaged (staged ++ r.2) r.1 (it.recvs.foldl afterRecv buffers) its

def Bound (g : ClientGate) (c : ℕ) : Prop := c < meMaxNumClients ∧ (g.cidTcpSocket c).isSome

theorem drain_ok (responses : List MEClientResponse)
    (h : ∀ r ∈ responses, Bound s.toClientGate r.clientId) :
    ∃ next, s.drain responses = .ok { s with cidNextOutgoingSeqNum := next } := by
  induction responses generalizing s with
  | nil => exact ⟨_, rfl⟩
  | cons r rs ih =>
    obtain ⟨hid, hbound⟩ := h r (List.mem_cons_self ..)
    obtain ⟨socket, hsocket⟩ := Option.isSome_iff_exists.mp hbound
    obtain ⟨next, hrest⟩ := ih
      (s := { s with
        cidNextOutgoingSeqNum := Function.update s.cidNextOutgoingSeqNum r.clientId
          ((s.cidNextOutgoingSeqNum r.clientId + 1) % 2 ^ 64) })
      fun r' hr' => h r' (List.mem_cons_of_mem _ hr')
    refine ⟨next, ?_⟩
    rw [drain, sendResponse, require_of _ hid, ok_bind, hsocket]
    exact hrest

theorem mem_of_mem_validateAll {g : ClientGate} {as : List Arrival} {a : Arrival}
    (h : a ∈ (g.validateAll as).2) : a ∈ as := by
  induction as generalizing g with
  | nil => exact h
  | cons b as ih =>
    rw [validateAll_cons] at h
    rcases List.mem_append.mp h with hb | has
    · split_ifs at hb
      · exact List.mem_singleton.mp hb ▸ List.mem_cons_self ..
      · exact absurd hb List.not_mem_nil
    · exact List.mem_cons_of_mem _ (ih has)

theorem bound_validateAll {g : ClientGate} {as : List Arrival} {c : ℕ} (hid : c < meMaxNumClients)
    (h : (g.cidTcpSocket c).isSome ∨ ∃ a ∈ (g.validateAll as).2, a.clientId = c) :
    Bound (g.validateAll as).1 c := by
  refine ⟨hid, ?_⟩
  rw [validateAll_socket, Option.isSome_or, Option.isSome_map, Bool.or_eq_true]
  rcases h with hold | ⟨a, ha, hc⟩
  · exact .inl hold
  · exact .inr (List.find?_isSome.mpr ⟨a, mem_of_mem_validateAll ha, decide_eq_true hc⟩)

theorem run_ok (its : List Iteration) {staged : List Arrival}
    (h : s.FitsRounds (its.map Iteration.recvs)) (hnone : s.fifoSequencer = ⟨[]⟩)
    (hans : AnswersStaged staged s.toClientGate s.inboundData its)
    (hstaged : ∀ a ∈ staged, Bound s.toClientGate a.clientId) :
    ∃ s', s.run its = .ok (s', (stagedRounds s.toClientGate s.inboundData
        (its.map Iteration.recvs)).map (List.map Arrival.staged)) ∧
      s'.toClientGate =
        (s.validateAll (arrivals s.inboundData (its.map Iteration.recvs).flatten)).1 ∧
      s'.inboundData = (its.map Iteration.recvs).flatten.foldl afterRecv s.inboundData := by
  induction its generalizing s staged with
  | nil => exact ⟨s, rfl, rfl, rfl⟩
  | cons it its ih =>
    obtain ⟨hids, hroom⟩ := h
    obtain ⟨hresponses, hans⟩ := hans
    rw [List.map_cons, List.flatten_cons, arrivals_append] at hids ⊢
    have hids' := fun a ha => hids a (List.mem_append_left _ ha)
    have hfits : s.Fits (arrivals s.inboundData it.recvs) := by
      refine ⟨hids', ?_⟩
      rw [hnone, List.length_nil, Nat.zero_add]
      exact hroom _ (List.mem_cons_self ..)
    have hbound : ∀ a ∈ staged ++ (s.validateAll (arrivals s.inboundData it.recvs)).2,
        Bound (s.validateAll (arrivals s.inboundData it.recvs)).1 a.clientId := by
      intro a ha
      rcases List.mem_append.mp ha with hold | hnew
      · exact bound_validateAll (hstaged a hold).1 (.inl (hstaged a hold).2)
      · exact bound_validateAll (hids' a (mem_of_mem_validateAll hnew)) (.inr ⟨a, hnew, rfl⟩)
    obtain ⟨next, hdrain⟩ := drain_ok
      (s := { (s.stage (arrivals s.inboundData it.recvs)).setBuffers
        (it.recvs.foldl afterRecv s.inboundData) with fifoSequencer := ⟨[]⟩ }) it.responses
      fun r hr => by
        obtain ⟨a, ha, hc⟩ := hresponses r hr
        exact hc ▸ hbound a ha
    obtain ⟨s', hrun, hgate, hbuf⟩ := ih
      (s := { (s.stage (arrivals s.inboundData it.recvs)).setBuffers
        (it.recvs.foldl afterRecv s.inboundData) with
          fifoSequencer := ⟨[]⟩, cidNextOutgoingSeqNum := next })
      ⟨fun a ha => hids a (List.mem_append_right _ ha),
        fun batch hb => hroom batch (List.mem_cons_of_mem _ hb)⟩ rfl hans hbound
    refine ⟨s', ?_, ?_, ?_⟩
    · rw [OrderServer.run, round, recvAll_ok it.recvs hfits, ok_bind, pure_ok, ok_bind]
      dsimp only
      rw [hdrain, ok_bind, hrun, ok_bind]
      simp [stagedRounds, stage, setBuffers, hnone]
    · rw [hgate, validateAll_append]
      rfl
    · rw [hbuf, List.foldl_append]
      rfl

end OrderServer

section Stream

def recvsOf (its : List Iteration) : List Recv := (its.map Iteration.recvs).flatten

def ownerOf (c : ℕ) (its : List Iteration) : Option ℕ :=
  ((arrivals (fun _ => []) (recvsOf its)).find? fun a => decide (a.clientId = c)).map
    Arrival.socket

def ownMessages (c : ℕ) (its : List Iteration) : List OMClientRequest :=
  match ownerOf c its with
  | none => []
  | some k => (messages (bytesOf k (recvsOf its))).filter fun req =>
      decide (req.meClientRequest.clientId = c)

theorem own_arrivals (c : ℕ) (its : List Iteration) :
    ((arrivals (fun _ => []) (recvsOf its)).filter fun a =>
      decide (a.clientId = c ∧ ownerOf c its = some a.socket)).map Arrival.request =
        ownMessages c its := by
  unfold ownMessages
  cases ownerOf c its with
  | none => simp
  | some k =>
    have hbytes := (arrivals_socket (fun _ => []) (recvsOf its)
      (fun _ => sizeofOMClientRequest_pos) k).1
    rw [List.nil_append] at hbytes
    dsimp only
    rw [← hbytes, List.filter_map, List.filter_filter]
    refine congrArg _ (List.filter_congr fun a _ => ?_)
    have hk : some k = some a.socket ↔ a.socket = k := Option.some_inj.trans eq_comm
    rw [Bool.decide_and, decide_eq_decide.mpr hk]
    rfl

theorem new_socket (c : ℕ) (its : List Iteration) :
    (OrderServer.new.validateAll (arrivals (fun _ => []) (recvsOf its))).1.cidTcpSocket c =
      ownerOf c its := by
  rw [validateAll_socket]
  exact Option.none_or

theorem staged_requests (c : ℕ) (as : List Arrival) :
    ((as.map Arrival.staged).filter fun q => decide (q.request.clientId = c)).map
        RecvTimeClientRequest.request =
      ((as.filter fun a => decide (a.clientId = c)).map Arrival.request).map
        OMClientRequest.meClientRequest := by
  rw [List.filter_map, List.map_map, List.map_map]
  rfl

theorem order_entry_one_stream (its : List Iteration)
    (hfits : OrderServer.new.FitsRounds (its.map Iteration.recvs))
    (hans : OrderServer.AnswersStaged [] OrderServer.new.toClientGate (fun _ => []) its) :
    ∃ s batches, OrderServer.new.run its = .ok (s, batches) ∧
      (∀ k, s.inboundData k = leftover (bytesOf k (recvsOf its))) ∧
      ∀ c, s.cidTcpSocket c = ownerOf c its ∧
        let accepted := acceptFrom 1 (ownMessages c its)
        (batches.flatten.filter fun q => decide (q.request.clientId = c)).map
            RecvTimeClientRequest.request = accepted.map OMClientRequest.meClientRequest ∧
          accepted.map OMClientRequest.seqNum =
            (List.range' 1 accepted.length).map (· % 2 ^ 64) ∧
          s.cidNextExpSeqNum c = (1 + accepted.length) % 2 ^ 64 := by
  obtain ⟨s, hrun, hgate, hbuf⟩ := OrderServer.run_ok its hfits rfl hans
    fun _ ha => absurd ha List.not_mem_nil
  refine ⟨s, _, hrun, ?_, ?_⟩
  · intro k
    rw [hbuf]
    exact (arrivals_socket (fun _ => []) (recvsOf its)
      (fun _ => sizeofOMClientRequest_pos) k).2
  · intro c
    obtain ⟨hreqs, hend⟩ := validateAll_client OrderServer.new.toClientGate
      (arrivals (fun _ => []) (recvsOf its)) c (show 1 < 2 ^ 64 by decide)
    rw [new_socket, own_arrivals] at hreqs hend
    have hflat := flatten_stagedRounds OrderServer.new.toClientGate (fun _ => [])
      (its.map Iteration.recvs)
    refine ⟨?_, ?_, ?_, ?_⟩
    · rw [hgate]
      exact new_socket c its
    · rw [← List.map_flatten, staged_requests]
      exact congrArg _ ((congrArg _ (congrArg _ hflat)).trans hreqs)
    · rw [seqNum_acceptFrom 1 (by decide), List.range'_eq_map_range, List.map_map]
      rfl
    · rw [hgate]
      exact hend

def sampleBytes (seqNum type clientId : UInt8) : List UInt8 :=
  [seqNum, 0, 0, 0, 0, 0, 0, 0, type, clientId, 0, 0, 0, 0, 0, 0, 0, 1, 0, 0, 0, 0, 0, 0, 0, 1,
    100, 0, 0, 0, 0, 0, 0, 0, 5, 0, 0, 0]

def sampleIterations : List Iteration :=
  [⟨[⟨0, sampleBytes 1 1 7 ++ (sampleBytes 2 1 7).take 5, 10⟩, ⟨1, sampleBytes 2 1 7, 11⟩], []⟩,
    ⟨[⟨0, (sampleBytes 2 1 7).drop 5 ++ sampleBytes 2 1 7, 12⟩],
      [⟨.accepted, 7, 0, 1, 1, .buy, 100, 0, 5⟩]⟩]

theorem order_entry_one_stream_sample :
    ∃ s batches, OrderServer.new.run sampleIterations = .ok (s, batches) ∧
      s.cidTcpSocket 7 = some 0 ∧ s.cidNextExpSeqNum 7 = 3 ∧
      (batches.flatten.filter fun q => decide (q.request.clientId = 7)).length = 2 := by
  obtain ⟨s, batches, hrun, -, hclient⟩ := order_entry_one_stream sampleIterations
    ⟨by decide +kernel, by decide +kernel⟩
    ⟨nofun, by decide +kernel, trivial⟩
  obtain ⟨hsocket, hreqs, -, hnext⟩ := hclient 7
  refine ⟨s, batches, hrun, hsocket.trans (by decide +kernel), hnext.trans (by decide +kernel), ?_⟩
  have hlen := congrArg List.length hreqs
  rw [List.length_map, List.length_map] at hlen
  exact hlen.trans (by decide +kernel)

end Stream

end Exchange
