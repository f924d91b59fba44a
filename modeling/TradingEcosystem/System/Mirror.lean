import TradingEcosystem.Exchange.Runs
import TradingEcosystem.Trading.ClientBook

namespace Trading

open Common Exchange

def toMarketOrder (o : MEOrder) : MarketOrder :=
  ⟨o.ids.marketOrderId, o.side, o.price, o.qty, o.priority⟩

def project (s : Ladders MEOrder) : Ladders MarketOrder := s.mapOrders toMarketOrder

theorem mem_project {s : Ladders MEOrder} {o : MarketOrder} :
    o ∈ (project s).entries ↔ ∃ x ∈ s.entries, toMarketOrder x = o := by
  rw [project, Ladders.entries_mapOrders, List.mem_map]

theorem marketUpdates_filled (g : MEOrderBook.Aggressor) (o : MEOrder) (leavesQty : ℕ) :
    marketUpdates (filledEvents g o leavesQty) =
      [⟨.trade, orderIdInvalid, g.tickerId, g.side, o.price, o.qty, priorityInvalid⟩,
        ⟨.cancel, o.ids.marketOrderId, g.tickerId, o.side, o.price, o.qty, priorityInvalid⟩] := rfl

theorem marketUpdates_part (g : MEOrderBook.Aggressor) (o : MEOrder) (leavesQty : ℕ) :
    marketUpdates (partialEvents g o leavesQty) =
      [⟨.trade, orderIdInvalid, g.tickerId, g.side, o.price, leavesQty, priorityInvalid⟩,
        ⟨.modify, o.ids.marketOrderId, g.tickerId, o.side, o.price, o.qty - leavesQty, o.priority⟩] :=
  rfl

theorem head_order {side : Side} {p : ℤ} {o : MEOrder} {os : List MEOrder}
    {ls : List (Level ℤ MEOrder)} {s : Ladders MarketOrder} (hs : side.IsBuyOrSell)
    (hids : ((Ladder.entries (⟨p, o :: os⟩ :: ls)).map fun o => o.ids.marketOrderId).Nodup)
    (hside : s.side side = Ladder.mapOrders toMarketOrder (⟨p, o :: os⟩ :: ls)) :
    (∀ u : MEMarketUpdate, u.orderId = o.ids.marketOrderId → u.side = o.side → u.price = o.price →
      Refers s u) ∧
      ∀ x ∈ os.map toMarketOrder ++ Ladder.entries (Ladder.mapOrders toMarketOrder ls),
        decide (x.ids = o.ids.marketOrderId) = false := by
  constructor
  · intro u hid hus hup
    refine ⟨toMarketOrder o, (s.mem_entries_side hs).mpr (.inl ?_), hid.symm, hus.symm, hup.symm⟩
    rw [hside]
    simp
  · intro x hx
    rw [Ladder.entries_mapOrders, ← List.map_append] at hx
    obtain ⟨y, hy, rfl⟩ := List.mem_map.mp hx
    rw [Ladder.entries_cons, List.cons_append, List.map_cons] at hids
    exact decide_eq_false fun he => (List.nodup_cons.mp hids).1
      (he ▸ List.mem_map_of_mem (f := fun o : MEOrder => o.ids.marketOrderId) hy)

theorem sweep_updates (g : MEOrderBook.Aggressor) (hs : g.side.IsBuyOrSell) (price : ℤ)
    (leavesQty : ℕ) (ls : List (Level ℤ MEOrder)) (hn : Ladder.NonEmpty ls)
    (hok : SideOk g.side.opposite ls)
    (hids : ((Ladder.entries ls).map fun o => o.ids.marketOrderId).Nodup)
    (s : Ladders MarketOrder)
    (hside : s.side g.side.opposite = Ladder.mapOrders toMarketOrder ls) :
    ApplicableAll s (marketUpdates (sweep g price leavesQty ls).events) ∧
      applyAll s (marketUpdates (sweep g price leavesQty ls).events) =
        s.setSide g.side.opposite
          (Ladder.mapOrders toMarketOrder (sweep g price leavesQty ls).left) := by
  have hso := hs.opposite
  induction leavesQty, ls, hn using sweep_induct g price generalizing s with
  | nil q hn => exact ⟨trivial, by rw [sweep, ← hside, Ladders.setSide_side]; rfl⟩
  | zero ls hn =>
    rw [sweep_zero]
    exact ⟨trivial, by rw [← hside, Ladders.setSide_side]; rfl⟩
  | stop q L ls hn hc =>
    rw [sweep_stop g price ls q hc]
    exact ⟨trivial, by rw [← hside, Ladders.setSide_side]; rfl⟩
  | part q p o os ls hn h0 hc hq =>
    obtain ⟨href, hother⟩ := head_order hso hids hside
    rw [sweep_part g price os ls h0 hc hq, marketUpdates_part]
    have hoo := hok.orders _ (List.mem_cons_self ..) o (List.mem_cons_self ..)
    refine ⟨⟨trivial, ⟨href _ rfl rfl rfl, ?_⟩, trivial⟩, ?_⟩
    · have := hoo.qty_lt
      dsimp only
      omega
    · change (s.amend id o.side o.ids.marketOrderId (o.qty - q)) = _
      rw [Ladders.amend, hoo.side_eq, hside, Ladder.mapOrders_cons, List.map_cons]
      exact congrArg _ (Ladder.update_first (o := toMarketOrder o) (decide_eq_true rfl) hother)
  | filled q p o os ls hn hn' h0 hc hq ih =>
    obtain ⟨href, hother⟩ := head_order hso hids hside
    have hoo := hok.orders _ (List.mem_cons_self ..) o (List.mem_cons_self ..)
    have hrm : Ladder.remove (fun x => decide (x.ids.marketOrderId = o.ids.marketOrderId))
        (⟨p, o :: os⟩ :: ls) = Ladder.keep ⟨p, os⟩ ++ ls := by
      refine Ladder.remove_first (Ladder.nonEmpty_cons.mp hn).2 (decide_eq_true rfl) fun x hx => ?_
      refine hother (toMarketOrder x) ?_
      rw [Ladder.entries_mapOrders, ← List.map_append]
      exact List.mem_map_of_mem hx
    have hids' : ((Ladder.entries (Ladder.keep ⟨p, os⟩ ++ ls)).map
        fun o => o.ids.marketOrderId).Nodup := by
      rw [Ladder.entries_append, Ladder.entries_keep]
      exact (List.nodup_cons.mp hids).2
    set s₁ := s.drop id o.side o.ids.marketOrderId with hs₁
    have hside₁ : s₁.side g.side.opposite =
        Ladder.mapOrders toMarketOrder (Ladder.keep ⟨p, os⟩ ++ ls) := by
      rw [hs₁, Ladders.drop, hoo.side_eq, Ladders.side_setSide, hside, ← hrm]
      exact Ladder.remove_mapOrders toMarketOrder _
    obtain ⟨happ, hall⟩ := ih (hrm ▸ hok.remove _) hids' s₁ hside₁
    rw [sweep_filled g price os ls h0 hc hq]
    simp only [marketUpdates_append, marketUpdates_filled]
    refine ⟨⟨trivial, href _ rfl rfl rfl, happ⟩, ?_⟩
    refine Eq.trans hall ?_
    rw [hs₁, Ladders.drop, hoo.side_eq, Ladders.setSide_setSide]

theorem project_rest (s : Ladders MEOrder) (o : MEOrder) :
    (project s).rest (toMarketOrder o) = project (s.rest o) := by
  rw [Ladders.rest, project, Ladders.side_mapOrders, Ladders.rest, project,
    Ladders.mapOrders_setSide, ← Ladder.insert_mapOrders]
  rfl

theorem project_drop (s : Ladders MEOrder) (side : Side) (i : ℕ) :
    (project s).drop id side i = project (s.drop MEOrderIds.marketOrderId side i) := by
  rw [Ladders.drop, project, Ladders.side_mapOrders, Ladders.drop, project,
    Ladders.mapOrders_setSide]
  exact congrArg _ (Ladder.remove_mapOrders toMarketOrder _)

variable {b : IndexedBook} {n : NewOrder}

theorem swept_updates (hw : b.WF) (hs : n.side.IsBuyOrSell) :
    ApplicableAll (project b.book.ladders) (marketUpdates (b.book.swept b.fillId n).events) ∧
      applyAll (project b.book.ladders) (marketUpdates (b.book.swept b.fillId n).events) =
        project (b.book.afterSweep b.fillId n) := by
  have hok := hw.book.sides _ hs.opposite
  have hids : ((Ladder.entries (b.book.ladders.side n.side.opposite)).map
      fun o => o.ids.marketOrderId).Nodup := by
    have hnd := hw.book.ids
    rw [List.map_map, ((b.book.ladders.entries_perm hs).map _).nodup_iff, List.map_append] at hnd
    exact (List.nodup_append.mp hnd).2.1
  have hsw := sweep_updates ⟨n.tickerId, n.clientId, n.side, n.clientOrderId, b.fillId⟩ hs n.price
    n.qty _ hok.nonEmpty hok hids (project b.book.ladders) (Ladders.side_mapOrders _ _ _)
  refine ⟨hsw.1, hsw.2.trans ?_⟩
  rw [PriceTimeBook.afterSweep, project, project, Ladders.mapOrders_setSide]
  rfl

theorem addable_remainder (hw : b.WF) (hn : n.Admissible)
    (hq : (b.book.swept b.fillId n).leavesQty ≠ 0)
    (hroom : b.book.nextMarketOrderId < meMaxOrderIds) :
    ∀ u : MEMarketUpdate, marketOrder u = toMarketOrder (b.book.remainder b.fillId n) →
      Addable (project (b.book.afterSweep b.fillId n)) u := by
  obtain ⟨hs, hp, -, hlt⟩ := hn
  intro u hu
  have hw' : PriceTimeBook.WF ⟨b.book.afterSweep b.fillId n, b.book.nextMarketOrderId⟩ :=
    PriceTimeBook.wf_afterSweep hw.book hs
  have hid : u.orderId = b.book.nextMarketOrderId := congrArg OrderInfo.ids hu
  have hside : u.side = n.side := congrArg OrderInfo.side hu
  have hprice : u.price = n.price := congrArg OrderInfo.price hu
  have hqty : u.qty = (b.book.swept b.fillId n).leavesQty := congrArg OrderInfo.qty hu
  have hle : (b.book.swept b.fillId n).leavesQty ≤ n.qty :=
    sweep_leavesQty_le _ _ _ (hw.book.sides _ hs.opposite).nonEmpty
  refine ⟨hside ▸ hs, hprice ▸ hp, hid ▸ hroom, hqty ▸ hle.trans_lt hlt, ?_, ?_, ?_⟩
  · intro o ho
    obtain ⟨x, hx, rfl⟩ := mem_project.mp ho
    rw [hid]
    exact (hw'.fresh x hx).ne
  · rw [hside, hprice, project, Ladders.side_mapOrders, Ladder.map_price_mapOrders]
    intro hm
    obtain ⟨K, hK, hKp⟩ := List.mem_map.mp hm
    have hc := PriceTimeBook.remainder_crosses hw.book hs hq K hK
    rw [hKp, MEOrderBook.noMoreCrosses] at hc
    split_ifs at hc <;> omega
  · have := hw'.count
    rw [project, Ladders.entries_mapOrders, List.length_map]
    dsimp only at this
    omega

theorem call_updates (hw : b.WF) {c : Call} (hc : c.Admissible) (hfits : b.Fits c) :
    ApplicableAll (project b.book.ladders) (marketUpdates (b.call c).2) ∧
      applyAll (project b.book.ladders) (marketUpdates (b.call c).2) =
        project (b.call c).1.book.ladders := by
  cases c with
  | add n =>
    obtain ⟨happ, hall⟩ := swept_updates (n := n) hw hc.1
    simp only [IndexedBook.call, IndexedBook.add, PriceTimeBook.place]
    split_ifs with hq
    · exact ⟨happ, hall⟩
    · simp only [PriceTimeBook.accepted, List.cons_append, marketUpdates_response,
        marketUpdates_append, applicableAll_append, applyAll_append, hall]
      refine ⟨⟨happ, ?_, trivial⟩, ?_⟩
      · exact addable_remainder hw hc hq (hfits hq) _ rfl
      · exact project_rest _ _
  | cancel clientId orderId tickerId =>
    simp only [IndexedBook.call, IndexedBook.cancel]
    cases hl : b.lookup clientId orderId with
    | none => exact ⟨trivial, rfl⟩
    | some o =>
      obtain ⟨ho, -⟩ := IndexedBook.lookup_eq_some hw hl
      refine ⟨⟨?_, trivial⟩, project_drop _ _ _⟩
      exact ⟨toMarketOrder o, mem_project.mpr ⟨o, ho, rfl⟩, rfl, rfl, rfl⟩

theorem run_updates (calls : List Call) (hw : b.WF) (hc : ∀ c ∈ calls, c.Admissible)
    (hfits : Trace.Every (fun b c => (IndexedBook.call b c).1) IndexedBook.Fits b calls) :
    ApplicableAll (project b.book.ladders) (marketUpdates (b.run calls).2) ∧
      applyAll (project b.book.ladders) (marketUpdates (b.run calls).2) =
        project (b.run calls).1.book.ladders := by
  induction calls generalizing b with
  | nil => exact ⟨trivial, rfl⟩
  | cons c calls ih =>
    have hcc := hc c (List.mem_cons_self ..)
    obtain ⟨happ, hall⟩ := call_updates hw hcc hfits.1
    obtain ⟨happ', hall'⟩ := ih (b := (b.call c).1) (IndexedBook.wf_call hw hcc)
      (fun x hx => hc x (List.mem_cons_of_mem _ hx)) hfits.2
    change ApplicableAll _ (marketUpdates ((b.call c).2 ++ _)) ∧
      applyAll _ (marketUpdates ((b.call c).2 ++ _)) = _
    rw [marketUpdates_append, applicableAll_append, applyAll_append, hall]
    exact ⟨⟨happ, happ'⟩, hall'⟩

theorem marketOrderBook_mirrors_meOrderBook (checked : Bool) (tickerId : ℕ) (calls : List Call)
    (hc : ∀ c ∈ calls, c.Admissible) (hadds : numAdds calls < meMaxOrderIds) :
    ∃ p events m ladders, (MEOrderBook.new checked tickerId).run calls = .ok (p, events) ∧
      p.book.decode = some ladders ∧
      (MarketOrderBook.new checked tickerId).run (marketUpdates events) = .ok m ∧
      m.book.decode = some (project ladders) ∧
      ∀ us vs, marketUpdates events = us ++ vs →
        ∃ m' s, (MarketOrderBook.new checked tickerId).run us = .ok m' ∧ m'.book.decode = some s ∧
          Ladder.Sorted (better .buy) s.bids ∧ Ladder.Sorted (better .sell) s.asks ∧
          m'.bbo = bboOf s := by
  have hroom : IndexedBook.new.book.nextMarketOrderId + numAdds calls ≤ meMaxOrderIds := by
    simp only [IndexedBook.new, PriceTimeBook.new]
    omega
  obtain ⟨p, hrun, ⟨s, htr, hlad, -⟩, -⟩ :=
    (refines_new checked tickerId).run calls IndexedBook.wf_new hc hroom
  obtain ⟨happ, hall⟩ := run_updates calls IndexedBook.wf_new hc (IndexedBook.fits_run calls hroom)
  obtain ⟨m, hm, hmir⟩ := (mirrors_new checked tickerId).run happ
  replace hmir : Mirrors m (project (IndexedBook.new.run calls).1.book.ladders) := hall ▸ hmir
  refine ⟨p, _, m, (IndexedBook.new.run calls).1.book.ladders, hrun, ?_, hm, hmir.decode, ?_⟩
  · rw [htr.stores.decode, hlad]
  · intro us vs hsplit
    rw [hsplit] at happ
    obtain ⟨m', hm', hmir'⟩ := (mirrors_new checked tickerId).run (applicableAll_append.mp happ).1
    exact ⟨m', _, hm', hmir'.decode, hmir'.sorted (.inl rfl), hmir'.sorted (.inr rfl), hmir'.bbo⟩

theorem marketOrderBook_mirrors_meOrderBook_sample :
    ∃ p events m ladders, (MEOrderBook.new true 0).run sampleCalls = .ok (p, events) ∧
      p.book.decode = some ladders ∧
      (MarketOrderBook.new true 0).run (marketUpdates events) = .ok m ∧
      m.book.decode = some (project ladders) ∧
      ∀ us vs, marketUpdates events = us ++ vs →
        ∃ m' s, (MarketOrderBook.new true 0).run us = .ok m' ∧ m'.book.decode = some s ∧
          Ladder.Sorted (better .buy) s.bids ∧ Ladder.Sorted (better .sell) s.asks ∧
          m'.bbo = bboOf s :=
  marketOrderBook_mirrors_meOrderBook true 0 sampleCalls (by decide) (by decide)

end Trading
