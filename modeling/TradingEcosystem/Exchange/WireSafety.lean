import TradingEcosystem.Exchange.FifoOrder
import TradingEcosystem.Exchange.MatchingEngine
import TradingEcosystem.Exchange.OrderIndex

namespace Exchange

open Common

def uncrossedOrders (n : NewOrder) (ladders : Ladders MEOrder) : List MEOrder :=
  ladders.entries.filter fun x =>
    decide (x.side = n.side ∨ MEOrderBook.noMoreCrosses n.side n.price x.price)

/-- What the book relies on and nobody before it checks. -/
def Call.AcceptedBy (ladders : Ladders MEOrder) : Call → Prop
  | .add n => n.side.IsBuyOrSell ∧
      (crossingQty n.side n.price (ladders.side n.side.opposite) < n.qty →
        PriceInRange n.price ∧ n.clientOrderId < meMaxOrderIds ∧
          (uncrossedOrders n ladders).length + 1 < meMaxOrderIds)
  | .cancel _ orderId _ => orderId < meMaxOrderIds

instance (ladders : Ladders MEOrder) : (c : Call) → Decidable (c.AcceptedBy ladders)
  | .add n => inferInstanceAs (Decidable (n.side.IsBuyOrSell ∧ (_ → _ ∧ _ ∧ _)))
  | .cancel _ orderId _ => inferInstanceAs (Decidable (orderId < meMaxOrderIds))

def MEClientRequest.OfWire (req : MEClientRequest) : Prop :=
  req.clientId < meMaxNumClients ∧ req.qty < 2 ^ 32

def MEClientRequest.AcceptedBy (ladders : Ladders MEOrder) (req : MEClientRequest) : Prop :=
  req.tickerId < meMaxTickers ∧ (req.type = .new ∨ req.type = .cancel) ∧
    req.call.AcceptedBy ladders

instance (ladders : Ladders MEOrder) (req : MEClientRequest) : Decidable (req.AcceptedBy ladders) :=
  inferInstanceAs (Decidable (_ ∧ _ ∧ _))

namespace MatchingEngine

def Next (e : MatchingEngine) (req : MEClientRequest) (e' : MatchingEngine) : Prop :=
  ∃ events, e.processClientRequest req = .ok (e', events)

def Accepts (e : MatchingEngine) (req : MEClientRequest) : Prop :=
  ∃ ladders, (e.tickerOrderBook req.tickerId).book.decode = some ladders ∧ req.AcceptedBy ladders

def Sound (e : MatchingEngine) : Prop :=
  ∀ t, ∃ bids asks, (e.tickerOrderBook t).book.Rep .buy bids asks [] [] ∧
    (∀ L ∈ bids ++ asks, ∀ o ∈ L.orders, o.2.side.IsBuyOrSell) ∧
    ((bids ++ asks).map fun L => priceToIndex L.price).Nodup

end MatchingEngine

section Step

variable {p : MEOrderBook} {b : IndexedBook} {n : NewOrder} {e : MatchingEngine} {B : IndexedBooks}
  {req : MEClientRequest}

theorem length_afterSweep_le (hw : b.WF) (hn : n.Admissible)
    (hq : (b.book.swept b.fillId n).leavesQty ≠ 0) :
    (b.book.afterSweep b.fillId n).entries.length ≤ (uncrossedOrders n b.book.ladders).length := by
  have hafter : PriceTimeBook.WF ⟨b.book.afterSweep b.fillId n, b.book.nextMarketOrderId⟩ :=
    PriceTimeBook.wf_afterSweep hw.book hn.1
  have hnodup : (b.book.afterSweep b.fillId n).entries.Nodup := (hafter.ids.of_map _).of_map _
  refine (hnodup.subperm fun x hx => ?_).length_le
  obtain ⟨hmem, hkeep⟩ := afterSweep_of_leavesQty hw hn hq hx
  exact List.mem_filter.mpr ⟨hmem, decide_eq_true hkeep⟩

theorem Refines.add_accepted (h : Refines p b) (hw : b.WF)
    (hc : (Call.add n).AcceptedBy b.book.ladders) (hid : n.clientId < meMaxNumClients)
    (hlt : n.qty < 2 ^ 32) :
    (∃ p', p.call (.add n) = .ok (p', (b.add n).2) ∧ Refines p' (b.add n).1) ∧ (b.add n).1.WF := by
  obtain ⟨hs, hrests⟩ := hc
  have hok := hw.book.sides _ hs.opposite
  have hleaves : (b.book.swept b.fillId n).leavesQty =
      n.qty - crossingQty n.side n.price (b.book.ladders.side n.side.opposite) :=
    sweep_leavesQty ⟨n.tickerId, n.clientId, n.side, n.clientOrderId, b.fillId⟩ n.price n.qty hs
      hok.nonEmpty hok.sorted
  by_cases hq : (b.book.swept b.fillId n).leavesQty = 0
  · exact ⟨h.add_filled hs hq, IndexedBook.wf_add_filled hw hs hq⟩
  · obtain ⟨hprice, hoid, hroom⟩ := hrests (by omega)
    have hn : n.Admissible := ⟨hs, hprice, ⟨hid, hoid⟩, hlt⟩
    have hle := length_afterSweep_le hw hn hq
    exact ⟨h.add hw hn (.inr (by omega)), IndexedBook.wf_add hw hn⟩

theorem RefinesAll.decode (h : RefinesAll e B) (t : ℕ) :
    (e.tickerOrderBook t).book.decode = some (B t).book.ladders :=
  (h.books t).decode

theorem RefinesAll.accepts_iff (h : RefinesAll e B) :
    e.Accepts req ↔ req.AcceptedBy (B req.tickerId).book.ladders := by
  constructor
  · rintro ⟨ladders, hdecode, hacc⟩
    rw [h.decode] at hdecode
    cases hdecode
    exact hacc
  · exact fun hacc => ⟨_, h.decode _, hacc⟩

theorem RefinesAll.accept (h : RefinesAll e B) (hwire : req.OfWire)
    (hacc : req.AcceptedBy (B req.tickerId).book.ladders) :
    ∃ e', e.processClientRequest req = .ok (e', (B.step req).2) ∧ RefinesAll e' (B.step req).1 := by
  obtain ⟨hid, hlt⟩ := hwire
  obtain ⟨ht, htype, hcall⟩ := hacc
  have hstep : (∃ p', (e.tickerOrderBook req.tickerId).call req.call =
        .ok (p', ((B req.tickerId).call req.call).2) ∧
        Refines p' ((B req.tickerId).call req.call).1) ∧
      ((B req.tickerId).call req.call).1.WF := by
    unfold MEClientRequest.call at hcall ⊢
    split_ifs at hcall ⊢
    · exact (h.books _).add_accepted (h.wf _) hcall hid hlt
    · exact ⟨(h.books _).cancel (h.wf _) _ ⟨hid, hcall⟩, IndexedBook.wf_cancel (h.wf _) _ _ _⟩
  obtain ⟨⟨p', hp', href⟩, hw⟩ := hstep
  refine ⟨e.setBook req.tickerId p', ?_, h.set href hw⟩
  rw [MatchingEngine.processClientRequest_eq ht htype, hp']
  rfl

theorem RefinesAll.sound (h : RefinesAll e B) : e.Sound := by
  intro t
  obtain ⟨s, htr, -, -⟩ := h.books t
  obtain ⟨bids, asks, hrep, -⟩ := htr.stores
  refine ⟨bids, asks, hrep, fun L hL o ho => ?_, ?_⟩
  · rcases List.mem_append.mp hL with hL | hL
    · exact ((hrep.ownSide.levels L hL).info o ho).2.1 ▸ .inl rfl
    · exact ((hrep.oppSide.levels L hL).info o ho).2.1 ▸ .inr rfl
  · have hprices := List.pairwise_map.mp hrep.prices
    refine List.pairwise_map.mpr (hprices.imp_of_mem fun hL hK hne hslot => hne ?_)
    exact priceToIndex_inj (hrep.inRange _ hL) (hrep.inRange _ hK) hslot

theorem RefinesAll.run_accepted (reqs : List MEClientRequest) (h : RefinesAll e B)
    (hwire : ∀ req ∈ reqs, req.OfWire)
    (hacc : Trace.Each MatchingEngine.Next MatchingEngine.Accepts e reqs) :
    ∃ e', e.run reqs = .ok (e', (B.run reqs).2) ∧ RefinesAll e' (B.run reqs).1 := by
  induction reqs generalizing e B with
  | nil => exact ⟨e, rfl, h⟩
  | cons req reqs ih =>
    obtain ⟨hreq, hreqs⟩ := hacc
    obtain ⟨e₁, hstep, h₁⟩ := h.accept (hwire req (List.mem_cons_self ..)) (h.accepts_iff.mp hreq)
    obtain ⟨e₂, hrun, h₂⟩ := ih h₁ (fun x hx => hwire x (List.mem_cons_of_mem _ hx))
      (hreqs e₁ ⟨_, hstep⟩)
    refine ⟨e₂, ?_, h₂⟩
    simp only [MatchingEngine.run, hstep, ok_bind, hrun, pure_ok]
    rfl

theorem RefinesAll.each_accepted (reqs : List MEClientRequest) (h : RefinesAll e B)
    (hwire : ∀ req ∈ reqs, req.OfWire)
    (hacc : Trace.Every (fun B req => (IndexedBooks.step B req).1)
      (fun B req => req.AcceptedBy (B req.tickerId).book.ladders) B reqs) :
    Trace.Each MatchingEngine.Next MatchingEngine.Accepts e reqs := by
  induction reqs generalizing e B with
  | nil => trivial
  | cons req reqs ih =>
    obtain ⟨hreq, hreqs⟩ := hacc
    obtain ⟨e₁, hstep, h₁⟩ := h.accept (hwire req (List.mem_cons_self ..)) hreq
    refine ⟨h.accepts_iff.mpr hreq, ?_⟩
    rintro e' ⟨events, hstep'⟩
    rw [hstep] at hstep'
    cases hstep'
    exact ih h₁ (fun x hx => hwire x (List.mem_cons_of_mem _ hx)) hreqs

end Step

section Wire

theorem readLE_lt (data : ℕ → UInt8) (i n : ℕ) : readLE data i n < 256 ^ n := by
  induction n generalizing i with
  | zero => exact Nat.one_pos
  | succ n ih =>
    have hbyte := (data i).toNat_lt
    have hrest := ih (i + 1)
    rw [readLE, pow_succ]
    omega

theorem qty_readRequest (bytes : List UInt8) :
    (readRequest bytes).meClientRequest.qty < 2 ^ 32 :=
  (readLE_lt (fun i => bytes.getD i 0) 34 4).trans_eq (by norm_num)

theorem qty_of_arrival {buffers : ℕ → List UInt8} {rs : List Recv} {a : Arrival}
    (h : a ∈ arrivals buffers rs) : a.request.meClientRequest.qty < 2 ^ 32 := by
  induction rs generalizing buffers with
  | nil => exact absurd h List.not_mem_nil
  | cons r rs ih =>
    rcases List.mem_append.mp h with hr | hrs
    · obtain ⟨req, hreq, rfl⟩ := List.mem_map.mp hr
      obtain ⟨frame, -, rfl⟩ := List.mem_map.mp hreq
      exact qty_readRequest frame
    · exact ih hrs

def publishAll (batches : List (List RecvTimeClientRequest)) (orders : List (List ℕ)) :
    List MEClientRequest :=
  (List.zipWith (fun batch order => ((FIFOSequencer.mk batch).sequenceAndPublish order).2) batches
    orders).flatten

theorem mem_of_mem_publishAll {batches : List (List RecvTimeClientRequest)}
    {orders : List (List ℕ)} (h : List.Forall₂ StdSorts batches orders) {req : MEClientRequest}
    (hreq : req ∈ publishAll batches orders) :
    req ∈ batches.flatten.map RecvTimeClientRequest.request := by
  induction h with
  | nil => exact hreq
  | cons hsorts _ ih =>
    rw [publishAll, List.zipWith_cons_cons, List.flatten_cons, List.mem_append] at hreq
    rw [List.flatten_cons, List.map_append, List.mem_append]
    exact hreq.imp (sequenceAndPublish_perm hsorts).mem_iff.mp ih

def stagedBatches (rounds : List (List Recv)) : List (List RecvTimeClientRequest) :=
  (stagedRounds OrderServer.new.toClientGate (fun _ => []) rounds).map (List.map Arrival.staged)

theorem ofWire_of_staged {rounds : List (List Recv)} (h : OrderServer.new.FitsRounds rounds)
    {req : MEClientRequest}
    (hreq : req ∈ (stagedBatches rounds).flatten.map RecvTimeClientRequest.request) :
    req.OfWire := by
  rw [stagedBatches, ← List.map_flatten, flatten_stagedRounds, List.map_map] at hreq
  obtain ⟨a, ha, rfl⟩ := List.mem_map.mp hreq
  have harr := OrderServer.mem_of_mem_validateAll ha
  exact ⟨h.1 a harr, qty_of_arrival harr⟩

def Iteration.recvOnly (rs : List Recv) : Iteration := ⟨rs, []⟩

theorem answersStaged_recvOnly (staged : List Arrival) (g : ClientGate) (buffers : ℕ → List UInt8)
    (rounds : List (List Recv)) :
    OrderServer.AnswersStaged staged g buffers (rounds.map Iteration.recvOnly) := by
  induction rounds generalizing staged g buffers with
  | nil => trivial
  | cons rs rounds ih => exact ⟨nofun, ih _ _ _⟩

theorem run_recvOnly {rounds : List (List Recv)} (h : OrderServer.new.FitsRounds rounds) :
    ∃ s, OrderServer.new.run (rounds.map Iteration.recvOnly) = .ok (s, stagedBatches rounds) := by
  have hrecvs : (rounds.map Iteration.recvOnly).map Iteration.recvs = rounds := by
    rw [List.map_map]
    exact List.map_id _
  obtain ⟨s, hrun, -⟩ := OrderServer.run_ok (s := OrderServer.new)
    (rounds.map Iteration.recvOnly) (hrecvs.symm ▸ h) rfl
    (answersStaged_recvOnly [] _ _ rounds) fun _ ha => absurd ha List.not_mem_nil
  rw [hrecvs] at hrun
  exact ⟨s, hrun⟩

end Wire

def Survives (checked : Bool) (rounds : List (List Recv)) : Prop :=
  ∃ s batches, OrderServer.new.run (rounds.map Iteration.recvOnly) = .ok (s, batches) ∧
    ∀ orders, List.Forall₂ StdSorts batches orders → ∀ reqs, reqs <+: publishAll batches orders →
      ∃ e events, (MatchingEngine.new checked).run reqs = .ok (e, events) ∧ e.Sound

def Harmless (checked : Bool) (rounds : List (List Recv)) : Prop :=
  OrderServer.new.FitsRounds rounds ∧
    ∀ orders, List.Forall₂ StdSorts (stagedBatches rounds) orders →
      Trace.Each MatchingEngine.Next MatchingEngine.Accepts (MatchingEngine.new checked)
        (publishAll (stagedBatches rounds) orders)

theorem exchange_survives (checked : Bool) (rounds : List (List Recv))
    (h : Harmless checked rounds) : Survives checked rounds := by
  obtain ⟨hfits, hacc⟩ := h
  obtain ⟨s, hrun⟩ := run_recvOnly hfits
  refine ⟨s, _, hrun, fun orders hsorts reqs hreqs => ?_⟩
  obtain ⟨later, hall⟩ := hreqs
  have hwire : ∀ req ∈ reqs, req.OfWire := fun req hreq =>
    ofWire_of_staged hfits (mem_of_mem_publishAll hsorts (hall ▸ List.mem_append_left _ hreq))
  have heach := hacc orders hsorts
  rw [← hall] at heach
  obtain ⟨e, hprocess, href⟩ := (refinesAll_new checked).run_accepted reqs hwire heach.of_append
  exact ⟨e, _, hprocess, href.sound⟩

def sampleRounds : List (List Recv) :=
  [[⟨0, sampleBytes 1 1 7, 10⟩], [⟨0, sampleBytes 2 2 7, 12⟩]]

theorem stagedBatches_sampleRounds : stagedBatches sampleRounds =
    [[⟨10, ⟨.new, 7, 0, 1, .buy, 100, 5⟩⟩], [⟨12, ⟨.cancel, 7, 0, 1, .buy, 100, 5⟩⟩]] := by
  decide +kernel

theorem StdSorts.singleton {q : RecvTimeClientRequest} {order : List ℕ} (h : StdSorts [q] order) :
    order = [0] :=
  List.perm_singleton.mp h.1

theorem harmless_sampleRounds : Harmless true sampleRounds := by
  have hfits : OrderServer.new.FitsRounds sampleRounds := ⟨by decide +kernel, by decide +kernel⟩
  refine ⟨hfits, fun orders hsorts => ?_⟩
  refine (refinesAll_new true).each_accepted _ (fun req hreq => ?_) ?_
  · exact ofWire_of_staged hfits (mem_of_mem_publishAll hsorts hreq)
  · rw [stagedBatches_sampleRounds] at hsorts ⊢
    obtain ⟨order₁, rest, h₁, hrest, rfl⟩ := List.forall₂_cons_left_iff.mp hsorts
    obtain ⟨order₂, rest', h₂, hnil, rfl⟩ := List.forall₂_cons_left_iff.mp hrest
    obtain rfl := List.forall₂_nil_left_iff.mp hnil
    rw [h₁.singleton, h₂.singleton]
    decide +kernel

theorem exchange_survives_sample : Survives true sampleRounds :=
  exchange_survives true sampleRounds harmless_sampleRounds

theorem invalid_type_stops_exchange : ¬ Survives true [[⟨0, sampleBytes 1 0 7, 10⟩]] := by
  rintro ⟨s, batches, hrun, hall⟩
  have hbatches : (OrderServer.new.run ([[⟨0, sampleBytes 1 0 7, 10⟩]].map
      Iteration.recvOnly)).map Prod.snd =
        .ok [[⟨10, ⟨.invalid, 7, 0, 1, .buy, 100, 5⟩⟩]] := by
    decide +kernel
  rw [hrun] at hbatches
  cases hbatches
  obtain ⟨e, events, hprocess, -⟩ := hall [[0]] (.cons ⟨by decide, by decide⟩ .nil) _
    (List.prefix_refl _)
  cases hprocess

end Exchange
