import TradingEcosystem.Exchange.OrderEntry

namespace Exchange

open Common

def writeRequestType : ClientRequestType → UInt8
  | .invalid => 0
  | .new => 1
  | .cancel => 2
  | .unknown raw => raw

def ClientRequestType.Named (type : ClientRequestType) : Prop :=
  ∀ raw, type = .unknown raw → raw ≠ 0 ∧ raw ≠ 1 ∧ raw ≠ 2

instance ClientRequestType.instDecidableNamed :
    (type : ClientRequestType) → Decidable type.Named
  | .unknown raw => decidable_of_iff (raw ≠ 0 ∧ raw ≠ 1 ∧ raw ≠ 2)
      ⟨fun h raw' heq => by cases heq; exact h, fun h => h raw rfl⟩
  | .invalid | .new | .cancel => isTrue nofun

theorem readRequestType_write {type : ClientRequestType} (h : type.Named) :
    readRequestType (writeRequestType type) = type := by
  cases type with
  | unknown raw =>
    obtain ⟨h0, h1, h2⟩ := h raw rfl
    unfold readRequestType writeRequestType
    split
    next hraw => exact absurd (UInt8.toNat_inj.mp hraw) h0
    next hraw => exact absurd (UInt8.toNat_inj.mp hraw) h1
    next hraw => exact absurd (UInt8.toNat_inj.mp hraw) h2
    next => rfl
  | _ => rfl

structure MEClientRequest.OfType (req : MEClientRequest) : Prop where
  type : req.type.Named
  clientId : req.clientId < 2 ^ 32
  tickerId : req.tickerId < 2 ^ 32
  orderId : req.orderId < 2 ^ 64
  side : req.side.Named
  price_ge : -2 ^ 63 ≤ req.price
  price_lt : req.price < 2 ^ 63
  qty : req.qty < 2 ^ 32

instance (req : MEClientRequest) : Decidable req.OfType :=
  decidable_of_iff ((req.type.Named ∧ req.clientId < 2 ^ 32 ∧ req.tickerId < 2 ^ 32 ∧
      req.orderId < 2 ^ 64) ∧ req.side.Named ∧ -2 ^ 63 ≤ req.price ∧ req.price < 2 ^ 63 ∧
      req.qty < 2 ^ 32)
    ⟨fun ⟨⟨h₁, h₂, h₃, h₄⟩, h₅, h₆, h₇, h₈⟩ => ⟨h₁, h₂, h₃, h₄, h₅, h₆, h₇, h₈⟩,
      fun h => ⟨⟨h.type, h.clientId, h.tickerId, h.orderId⟩, h.side, h.price_ge, h.price_lt, h.qty⟩⟩

def MEClientRequest.members (req : MEClientRequest) : List (ℕ × ℕ) :=
  [(1, (writeRequestType req.type).toNat), (4, req.clientId), (4, req.tickerId), (8, req.orderId),
    (1, (writeSide req.side).toNat), (8, ofInt64 req.price), (4, req.qty)]

def requestFrame (seqNum : ℕ) (req : MEClientRequest) : List UInt8 :=
  pack [(8, seqNum)] ++ pack req.members

theorem length_requestFrame (seqNum : ℕ) (req : MEClientRequest) :
    (requestFrame seqNum req).length = sizeofOMClientRequest := by
  rw [requestFrame, ← pack_append, length_pack]
  rfl

theorem readRequest_requestFrame {seqNum : ℕ} {req : MEClientRequest} (hseq : seqNum < 2 ^ 64)
    (h : req.OfType) : readRequest (requestFrame seqNum req) = ⟨seqNum, req⟩ := by
  have hmembers : requestFrame seqNum req = pack ((8, seqNum) :: req.members) :=
    (pack_append [(8, seqNum)] req.members).symm
  rw [hmembers]
  unfold readRequest
  have h0 := readLE_pack [] req.members (w := 8) (v := seqNum) hseq
  have h1 := getD_pack [(8, seqNum)] (req.members.drop 1) (writeRequestType req.type)
  have h2 := readLE_pack ((8, seqNum) :: req.members.take 1) (req.members.drop 2) (w := 4)
    (v := req.clientId) h.clientId
  have h3 := readLE_pack ((8, seqNum) :: req.members.take 2) (req.members.drop 3) (w := 4)
    (v := req.tickerId) h.tickerId
  have h4 := readLE_pack ((8, seqNum) :: req.members.take 3) (req.members.drop 4) (w := 8)
    (v := req.orderId) h.orderId
  have h5 := getD_pack ((8, seqNum) :: req.members.take 4) (req.members.drop 5) (writeSide req.side)
  have h6 := readLE_pack ((8, seqNum) :: req.members.take 5) (req.members.drop 6) (w := 8)
    (v := ofInt64 req.price) (ofInt64_lt _)
  have h7 := readLE_pack ((8, seqNum) :: req.members.take 6) (req.members.drop 7) (w := 4)
    (v := req.qty) h.qty
  simp only [MEClientRequest.members, List.take_succ_cons, List.drop_succ_cons, List.take_zero,
    List.drop_zero, List.cons_append, List.nil_append, List.map_cons, List.map_nil, List.sum_cons,
    List.sum_nil, Nat.add_zero, Nat.reduceAdd] at h0 h1 h2 h3 h4 h5 h6 h7 ⊢
  rw [h0, h1, h2, h3, h4, h5, h6, h7, readRequestType_write h.type, readSide_writeSide h.side,
    toInt64_ofInt64 h.price_ge h.price_lt]

def sizeofOMClientResponse : ℕ := 50

def writeResponseType : ClientResponseType → UInt8
  | .invalid => 0
  | .accepted => 1
  | .canceled => 2
  | .filled => 3
  | .cancelRejected => 4

-- the engine emits no other value, and the strategy ignores one as it ignores `INVALID`
def readResponseType (b : UInt8) : ClientResponseType :=
  match b.toNat with
  | 1 => .accepted
  | 2 => .canceled
  | 3 => .filled
  | 4 => .cancelRejected
  | _ => .invalid

theorem readResponseType_write (type : ClientResponseType) :
    readResponseType (writeResponseType type) = type := by
  cases type <;> rfl

def readResponse (bytes : List UInt8) : OMClientResponse :=
  let data := fun i => bytes.getD i 0
  { seqNum := readLE data 0 8
    meClientResponse :=
      { type := readResponseType (data 8)
        clientId := readLE data 9 4
        tickerId := readLE data 13 4
        clientOrderId := readLE data 17 8
        marketOrderId := readLE data 25 8
        side := readSide (data 33)
        price := toInt64 (readLE data 34 8)
        execQty := readLE data 42 4
        leavesQty := readLE data 46 4 } }

structure MEClientResponse.OfType (r : MEClientResponse) : Prop where
  clientId : r.clientId < 2 ^ 32
  tickerId : r.tickerId < 2 ^ 32
  clientOrderId : r.clientOrderId < 2 ^ 64
  marketOrderId : r.marketOrderId < 2 ^ 64
  side : r.side.Named
  price_ge : -2 ^ 63 ≤ r.price
  price_lt : r.price < 2 ^ 63
  execQty : r.execQty < 2 ^ 32
  leavesQty : r.leavesQty < 2 ^ 32

instance (r : MEClientResponse) : Decidable r.OfType :=
  decidable_of_iff ((r.clientId < 2 ^ 32 ∧ r.tickerId < 2 ^ 32 ∧ r.clientOrderId < 2 ^ 64 ∧
      r.marketOrderId < 2 ^ 64) ∧ r.side.Named ∧ -2 ^ 63 ≤ r.price ∧ r.price < 2 ^ 63 ∧
      r.execQty < 2 ^ 32 ∧ r.leavesQty < 2 ^ 32)
    ⟨fun ⟨⟨h₁, h₂, h₃, h₄⟩, h₅, h₆, h₇, h₈, h₉⟩ => ⟨h₁, h₂, h₃, h₄, h₅, h₆, h₇, h₈, h₉⟩,
      fun h => ⟨⟨h.clientId, h.tickerId, h.clientOrderId, h.marketOrderId⟩, h.side, h.price_ge,
        h.price_lt, h.execQty, h.leavesQty⟩⟩

def MEClientResponse.members (r : MEClientResponse) : List (ℕ × ℕ) :=
  [(1, (writeResponseType r.type).toNat), (4, r.clientId), (4, r.tickerId), (8, r.clientOrderId),
    (8, r.marketOrderId), (1, (writeSide r.side).toNat), (8, ofInt64 r.price), (4, r.execQty),
    (4, r.leavesQty)]

def responseFrame (seqNum : ℕ) (r : MEClientResponse) : List UInt8 :=
  pack [(8, seqNum)] ++ pack r.members

theorem length_responseFrame (seqNum : ℕ) (r : MEClientResponse) :
    (responseFrame seqNum r).length = sizeofOMClientResponse := by
  rw [responseFrame, ← pack_append, length_pack]
  rfl

theorem readResponse_responseFrame {seqNum : ℕ} {r : MEClientResponse} (hseq : seqNum < 2 ^ 64)
    (h : r.OfType) : readResponse (responseFrame seqNum r) = ⟨seqNum, r⟩ := by
  have hmembers : responseFrame seqNum r = pack ((8, seqNum) :: r.members) :=
    (pack_append [(8, seqNum)] r.members).symm
  rw [hmembers]
  unfold readResponse
  have h0 := readLE_pack [] r.members (w := 8) (v := seqNum) hseq
  have h1 := getD_pack [(8, seqNum)] (r.members.drop 1) (writeResponseType r.type)
  have h2 := readLE_pack ((8, seqNum) :: r.members.take 1) (r.members.drop 2) (w := 4)
    (v := r.clientId) h.clientId
  have h3 := readLE_pack ((8, seqNum) :: r.members.take 2) (r.members.drop 3) (w := 4)
    (v := r.tickerId) h.tickerId
  have h4 := readLE_pack ((8, seqNum) :: r.members.take 3) (r.members.drop 4) (w := 8)
    (v := r.clientOrderId) h.clientOrderId
  have h5 := readLE_pack ((8, seqNum) :: r.members.take 4) (r.members.drop 5) (w := 8)
    (v := r.marketOrderId) h.marketOrderId
  have h6 := getD_pack ((8, seqNum) :: r.members.take 5) (r.members.drop 6) (writeSide r.side)
  have h7 := readLE_pack ((8, seqNum) :: r.members.take 6) (r.members.drop 7) (w := 8)
    (v := ofInt64 r.price) (ofInt64_lt _)
  have h8 := readLE_pack ((8, seqNum) :: r.members.take 7) (r.members.drop 8) (w := 4)
    (v := r.execQty) h.execQty
  have h9 := readLE_pack ((8, seqNum) :: r.members.take 8) (r.members.drop 9) (w := 4)
    (v := r.leavesQty) h.leavesQty
  simp only [MEClientResponse.members, List.take_succ_cons, List.drop_succ_cons, List.take_zero,
    List.drop_zero, List.cons_append, List.nil_append, List.map_cons, List.map_nil, List.sum_cons,
    List.sum_nil, Nat.add_zero, Nat.reduceAdd] at h0 h1 h2 h3 h4 h5 h6 h7 h8 h9 ⊢
  rw [h0, h1, h2, h3, h4, h5, h6, h7, h8, h9, readResponseType_write, readSide_writeSide h.side,
    toInt64_ofInt64 h.price_ge h.price_lt]

theorem readResponse_take (bytes : List UInt8) :
    readResponse (bytes.take sizeofOMClientResponse) = readResponse bytes := by
  have hbyte : ∀ j, j < 50 → (bytes.take sizeofOMClientResponse).getD j 0 = bytes.getD j 0 :=
    fun j hj => getD_take hj bytes
  have hfield : ∀ i n, i + n ≤ 50 →
      readLE (fun j => (bytes.take sizeofOMClientResponse).getD j 0) i n =
        readLE (fun j => bytes.getD j 0) i n :=
    fun i n h => readLE_congr fun j _ hj => hbyte j (by omega)
  simp only [readResponse, hfield 0 8 (by decide), hbyte 8 (by decide), hfield 9 4 (by decide),
    hfield 13 4 (by decide), hfield 17 8 (by decide), hfield 25 8 (by decide), hbyte 33 (by decide),
    hfield 34 8 (by decide), hfield 42 4 (by decide), hfield 46 4 (by decide)]

end Exchange
