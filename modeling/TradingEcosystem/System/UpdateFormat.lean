import TradingEcosystem.Exchange.BookShape
import TradingEcosystem.System.LateJoiner
import TradingEcosystem.Trading.ReceiveBuffer
import Mathlib.Data.List.GetD

namespace Exchange

open Common

def MarketUpdateType.Named (type : MarketUpdateType) : Prop :=
  ∀ raw, type = .unknown raw → 7 < raw.toNat

theorem readType_writeType {type : MarketUpdateType} (h : type.Named) :
    Trading.readType (Trading.writeType type) = type := by
  cases type with
  | unknown raw =>
    have hraw := h raw rfl
    change Trading.readType raw = .unknown raw
    unfold Trading.readType
    split <;> first | rfl | omega
  | _ => rfl

structure MEMarketUpdate.OfType (u : MEMarketUpdate) : Prop where
  type : u.type.Named
  orderId : u.orderId < 2 ^ 64
  tickerId : u.tickerId < 2 ^ 32
  side : u.side.Named
  price_ge : -2 ^ 63 ≤ u.price
  price_lt : u.price < 2 ^ 63
  qty : u.qty < 2 ^ 32
  priority : u.priority < 2 ^ 64

def MEMarketUpdate.members (u : MEMarketUpdate) : List (ℕ × ℕ) :=
  [(1, (Trading.writeType u.type).toNat), (8, u.orderId), (4, u.tickerId),
    (1, (writeSide u.side).toNat), (8, ofInt64 u.price), (4, u.qty), (8, u.priority)]

def updateFrame (m : MDPMarketUpdate) : List UInt8 :=
  pack [(8, m.seqNum)] ++ pack m.meMarketUpdate.members

theorem length_updateFrame (m : MDPMarketUpdate) :
    (updateFrame m).length = Trading.sizeofMDPMarketUpdate := by
  rw [updateFrame, ← pack_append, length_pack]
  rfl

theorem readPacket_updateFrame {m : MDPMarketUpdate} (hseq : m.seqNum < 2 ^ 64)
    (h : m.meMarketUpdate.OfType) :
    Trading.readPacket (fun j => (updateFrame m).getD j 0) 0 =
      ⟨m.seqNum, ⟨m.meMarketUpdate, ()⟩⟩ := by
  obtain ⟨seqNum, u⟩ := m
  have hmembers : updateFrame ⟨seqNum, u⟩ = pack ((8, seqNum) :: u.members) :=
    (pack_append [(8, seqNum)] u.members).symm
  rw [hmembers]
  unfold Trading.readPacket
  have h0 := readLE_pack [] u.members (w := 8) (v := seqNum) hseq
  have h1 := getD_pack [(8, seqNum)] (u.members.drop 1) (Trading.writeType u.type)
  have h2 := readLE_pack ((8, seqNum) :: u.members.take 1) (u.members.drop 2) (w := 8)
    (v := u.orderId) h.orderId
  have h3 := readLE_pack ((8, seqNum) :: u.members.take 2) (u.members.drop 3) (w := 4)
    (v := u.tickerId) h.tickerId
  have h4 := getD_pack ((8, seqNum) :: u.members.take 3) (u.members.drop 4) (writeSide u.side)
  have h5 := readLE_pack ((8, seqNum) :: u.members.take 4) (u.members.drop 5) (w := 8)
    (v := ofInt64 u.price) (ofInt64_lt _)
  have h6 := readLE_pack ((8, seqNum) :: u.members.take 5) (u.members.drop 6) (w := 4)
    (v := u.qty) h.qty
  have h7 := readLE_pack ((8, seqNum) :: u.members.take 6) (u.members.drop 7) (w := 8)
    (v := u.priority) h.priority
  simp only [MEMarketUpdate.members, List.take_succ_cons, List.drop_succ_cons, List.take_zero,
    List.drop_zero, List.cons_append, List.nil_append, List.map_cons, List.map_nil, List.sum_cons,
    List.sum_nil, Nat.add_zero, Nat.zero_add, Nat.reduceAdd] at h0 h1 h2 h3 h4 h5 h6 h7 ⊢
  rw [h0, h1, h2, h3, h4, h5, h6, h7, readType_writeType h.type, readSide_writeSide h.side,
    toInt64_ofInt64 h.price_ge h.price_lt]

theorem readPacket_congr {data data' : ℕ → UInt8} {i : ℕ}
    (h : ∀ j < Trading.sizeofMDPMarketUpdate, data (i + j) = data' j) :
    Trading.readPacket data i = Trading.readPacket data' 0 := by
  have hbyte : ∀ k < 42, data (i + k) = data' (0 + k) := fun k hk => by
    rw [Nat.zero_add]
    exact h k hk
  have hfield : ∀ k n, k + n ≤ 42 → readLE data (i + k) n = readLE data' (0 + k) n := by
    intro k n
    induction n generalizing k with
    | zero => exact fun _ => rfl
    | succ n ih =>
      intro hk
      rw [readLE, readLE, hbyte k (by omega), Nat.add_assoc, Nat.add_assoc, ih (k + 1) (by omega)]
  have h0 := hfield 0 8 (by decide)
  simp only [Nat.add_zero] at h0
  simp only [Trading.readPacket, h0, hbyte 8 (by decide), hfield 9 8 (by decide),
    hfield 17 4 (by decide), hbyte 21 (by decide), hfield 22 8 (by decide), hfield 30 4 (by decide),
    hfield 34 8 (by decide)]

theorem readPacket_flatMap {ms : List MDPMarketUpdate} {data : ℕ → UInt8} {k : ℕ}
    (hk : k < ms.length) (hseq : ms[k].seqNum < 2 ^ 64) (h : ms[k].meMarketUpdate.OfType)
    (hdata : ∀ j < (ms.flatMap updateFrame).length, data j = (ms.flatMap updateFrame).getD j 0) :
    Trading.readPacket data (Trading.sizeofMDPMarketUpdate * k) =
      ⟨ms[k].seqNum, ⟨ms[k].meMarketUpdate, ()⟩⟩ := by
  rw [← readPacket_updateFrame hseq h]
  refine readPacket_congr fun j hj => ?_
  induction ms generalizing data k with
  | nil => cases hk
  | cons m ms ih =>
    rw [List.flatMap_cons, List.length_append, length_updateFrame] at hdata
    cases k with
    | zero =>
      rw [Nat.mul_zero, Nat.zero_add, hdata j (by omega), List.getElem_cons_zero]
      exact List.getD_append _ _ _ _ (by rwa [length_updateFrame])
    | succ k =>
      have hnext := @ih (fun j => data (Trading.sizeofMDPMarketUpdate + j)) k
        (Nat.lt_of_succ_lt_succ hk) hseq h (fun j hj => by
          rw [hdata _ (by omega),
            List.getD_append_right _ _ _ _ (by rw [length_updateFrame]; omega), length_updateFrame,
            Nat.add_sub_cancel_left])
      rw [List.getElem_cons_succ, ← hnext]
      exact congrArg data (by rw [Nat.mul_succ]; omega)

section Emitted

variable {b : IndexedBook} {c : Call} {B : IndexedBooks} {req : MEClientRequest}

theorem named_of_isBuyOrSell {side : Side} (h : side.IsBuyOrSell) : side.Named := by
  rcases h with rfl | rfl <;> exact fun raw hraw => by cases hraw

structure Sendable (o : MEOrder) : Prop where
  orderId : o.ids.marketOrderId < 2 ^ 64
  side : o.side.IsBuyOrSell
  price : PriceInRange o.price
  qty : o.qty < 2 ^ 32
  priority : o.priority < 2 ^ 64

theorem Sendable.update {o : MEOrder} (h : Sendable o) {type : MarketUpdateType}
    (ht : type.Named) {orderId tickerId qty priority : ℕ} {side : Side} (hid : orderId < 2 ^ 64)
    (htick : tickerId < meMaxTickers) (hside : side.IsBuyOrSell) (hqty : qty < 2 ^ 32)
    (hprio : priority < 2 ^ 64) :
    MEMarketUpdate.OfType ⟨type, orderId, tickerId, side, o.price, qty, priority⟩ := by
  obtain ⟨hlo, hhi⟩ := h.price
  have htickers : meMaxTickers = 8 := rfl
  have hlevels : (meMaxPriceLevels : ℤ) = 131072 := rfl
  exact ⟨ht, hid, by dsimp only; omega, named_of_isBuyOrSell hside, by dsimp only; omega,
    by dsimp only; omega, hqty, hprio⟩

theorem sweep_ofType {g : MEOrderBook.Aggressor} (hs : g.side.IsBuyOrSell)
    (ht : g.tickerId < meMaxTickers) (price : ℤ) {leavesQty : ℕ} (hq : leavesQty < 2 ^ 32)
    {ls : List (Level ℤ MEOrder)} (hn : Ladder.NonEmpty ls)
    (h : ∀ o ∈ Ladder.entries ls, Sendable o) :
    ∀ u ∈ marketUpdates (sweep g price leavesQty ls).events, u.OfType := by
  induction leavesQty, ls, hn using sweep_induct g price with
  | nil q hn => simp [sweep]
  | zero ls hn => simp [sweep_zero]
  | stop q L ls hn hc => simp [sweep_stop g price ls q hc]
  | part q p o os ls hn h0 hc hlt =>
    have ho := h o (by simp [Ladder.entries_cons])
    have hsub : o.qty - q < 2 ^ 32 := (Nat.sub_le _ _).trans_lt ho.qty
    rw [sweep_part g price os ls h0 hc hlt, Trading.marketUpdates_part]
    intro u hu
    simp only [List.mem_cons, List.not_mem_nil, or_false] at hu
    rcases hu with rfl | rfl
    · exact ho.update (by simp [MarketUpdateType.Named]) (by decide) ht hs hq (by decide)
    · exact ho.update (by simp [MarketUpdateType.Named]) ho.orderId ht ho.side hsub ho.priority
  | filled q p o os ls hn hn' h0 hc hle ih =>
    have ho := h o (by simp [Ladder.entries_cons])
    rw [sweep_filled g price os ls h0 hc hle]
    intro u hu
    simp only [marketUpdates_append, Trading.marketUpdates_filled, List.mem_append, List.mem_cons,
      List.not_mem_nil, or_false] at hu
    rcases hu with (rfl | rfl) | hu
    · exact ho.update (by simp [MarketUpdateType.Named]) (by decide) ht hs ho.qty (by decide)
    · exact ho.update (by simp [MarketUpdateType.Named]) ho.orderId ht ho.side ho.qty (by decide)
    · refine ih (by omega) (fun x hx => h x ?_) u hu
      rw [Ladder.entries_append, Ladder.entries_keep] at hx
      rw [Ladder.entries_cons]
      exact List.mem_cons_of_mem _ hx

theorem nextPriority_lt (price : ℤ) (ls : List (Level ℤ MEOrder)) :
    PriceTimeBook.nextPriority price ls < 2 ^ 64 := by
  unfold PriceTimeBook.nextPriority
  split
  · decide
  · split
    · decide
    · exact Nat.mod_lt _ (by decide)

theorem IndexedBook.sendable (hw : b.WF) (hp : b.book.Prioritized)
    (hroom : b.book.nextMarketOrderId ≤ meMaxOrderIds) {o : MEOrder}
    (ho : o ∈ b.book.ladders.entries) : Sendable o := by
  obtain ⟨hs, hprice, hok, hmem⟩ := hw.book.order_ok ho
  obtain ⟨L, hL, hoL⟩ := Ladder.mem_entries.mp hmem
  have hid := hw.book.fresh o ho
  have hprio := (hp o.side hs L hL).le_id o hoL
  have hmax : meMaxOrderIds = 1048576 := rfl
  exact ⟨by omega, hs, hprice, hok.qty_lt, by omega⟩

theorem call_ofType (hw : b.WF) (hp : b.book.Prioritized)
    (hroom : b.book.nextMarketOrderId ≤ meMaxOrderIds) (hc : c.Admissible)
    (ht : Trading.callTicker c < meMaxTickers) : ∀ u ∈ marketUpdates (b.call c).2, u.OfType := by
  have hmax : meMaxOrderIds = 1048576 := rfl
  have hsend : ∀ o ∈ b.book.ladders.entries, Sendable o :=
    fun o ho => IndexedBook.sendable hw hp hroom ho
  cases c with
  | add n =>
    obtain ⟨hs, hprice, -, hqty⟩ := hc
    have hn := (hw.book.sides _ hs.opposite).nonEmpty
    have hsweep : ∀ u ∈ marketUpdates (b.book.swept b.fillId n).events, u.OfType :=
      sweep_ofType (g := ⟨n.tickerId, n.clientId, n.side, n.clientOrderId, b.fillId⟩) hs ht n.price
        hqty hn fun o ho => hsend o ((b.book.ladders.mem_entries_side hs).mpr (.inr ho))
    simp only [IndexedBook.call, IndexedBook.add, PriceTimeBook.place]
    split_ifs with hq
    · exact hsweep
    · intro u hu
      simp only [PriceTimeBook.accepted, List.cons_append, marketUpdates_response,
        marketUpdates_append, List.mem_append] at hu
      rcases hu with hu | hu
      · exact hsweep u hu
      · have hleft : (b.book.swept b.fillId n).leavesQty < 2 ^ 32 :=
          (sweep_leavesQty_le _ _ _ hn).trans_lt hqty
        have ho : Sendable (b.book.remainder b.fillId n) :=
          ⟨by dsimp only [PriceTimeBook.remainder]; omega, hs, hprice, hleft, nextPriority_lt _ _⟩
        rw [List.mem_singleton.mp hu]
        exact ho.update (by simp [MarketUpdateType.Named]) ho.orderId ht hs ho.qty ho.priority
  | cancel clientId orderId tickerId =>
    simp only [IndexedBook.call, IndexedBook.cancel]
    cases hl : b.lookup clientId orderId with
    | none => simp [PriceTimeBook.rejected]
    | some o =>
      have ho := hsend o (IndexedBook.lookup_eq_some hw hl).1
      intro u hu
      rw [List.mem_singleton.mp hu]
      exact ho.update (by simp [MarketUpdateType.Named]) ho.orderId ht ho.side (by decide)
        ho.priority

theorem run_ofType (reqs : List MEClientRequest) (hw : ∀ t, (B t).WF)
    (hp : ∀ t, (B t).book.Prioritized) (hreqs : ∀ req ∈ reqs, req.Admissible)
    (hroom : HasRoom B (numNews reqs)) : ∀ u ∈ marketUpdates (B.run reqs).2, u.OfType := by
  induction reqs generalizing B with
  | nil => exact fun u hu => by cases hu
  | cons req reqs ih =>
    rw [numNews_cons] at hroom
    have hreq := hreqs req (List.mem_cons_self ..)
    have hmax : meMaxOrderIds = 1048576 := rfl
    have hlt : (B req.tickerId).book.nextMarketOrderId ≤ meMaxOrderIds :=
      Nat.le_of_add_right_le (hroom req.tickerId)
    have hpos : 0 < (B req.tickerId).book.nextMarketOrderId :=
      Nat.zero_lt_of_lt (hw req.tickerId).book.count
    have hprio : ∀ t, ((B.step req).1 t).book.Prioritized := by
      intro t
      by_cases ht : t = req.tickerId
      · subst ht
        simp only [IndexedBooks.step, Function.update_self]
        exact IndexedBook.prioritized_call (hw _) (hp _) hreq.2.2 hpos (by omega)
      · simp only [IndexedBooks.step, Function.update_of_ne ht]
        exact hp t
    intro u hu
    rw [IndexedBooks.run, marketUpdates_append] at hu
    rcases List.mem_append.mp hu with hu | hu
    · exact call_ofType (hw _) (hp _) hlt hreq.2.2
        ((Trading.callTicker_call req).symm ▸ hreq.1) u hu
    · exact ih (Trading.wf_step hw hreq) hprio (fun x hx => hreqs x (List.mem_cons_of_mem _ hx))
        hroom.step u hu

end Emitted

end Exchange
