import TradingEcosystem.Exchange.IndexedBook

namespace Exchange

open Common

inductive Points (s : Ladders (ℕ × MEOrder)) (c o : ℕ) : Option ℕ → Option ℕ → Prop
  | null : Points s c o none none
  | order (e : ℕ × MEOrder) (he : e ∈ s.entries) (hc : e.2.ids.clientId = c)
      (ho : e.2.ids.clientOrderId = o) : Points s c o (some e.1) (some e.2.ids.marketOrderId)

structure Tracks (p : MEOrderBook) (s : Ladders (ℕ × MEOrder)) (index : OrderIndex) : Prop where
  stores : p.book.Stores s []
  points : ∀ c o, Points s c o (p.cidOidToOrder c o) (index c o)
  inRange : ∀ e ∈ s.entries, MEOrderBook.InRange e.2.ids.clientId e.2.ids.clientOrderId

variable {p : MEOrderBook} {s : Ladders (ℕ × MEOrder)} {index : OrderIndex} {side : Side}

theorem Points.mono {s' : Ladders (ℕ × MEOrder)} {c o : ℕ} {a m : Option ℕ} (h : Points s c o a m)
    (hs : ∀ e ∈ s.entries, ∃ e' ∈ s'.entries, e'.1 = e.1 ∧ e'.2.ids = e.2.ids) :
    Points s' c o a m := by
  cases h with
  | null => exact .null
  | order e he hc ho =>
    obtain ⟨e', he', ha, hid⟩ := hs e he
    rw [← ha, ← hid]
    exact .order e' he' (by rw [hid]; exact hc) (by rw [hid]; exact ho)

theorem Tracks.removeOrder (h : Tracks p s index) (hs : side.IsBuyOrSell) {e : ℕ × MEOrder}
    (he : e ∈ Ladder.entries (s.side side)) :
    ∃ p', p.removeOrder e.1 = .ok p' ∧ p'.nextMarketOrderId = p.nextMarketOrderId ∧
      Tracks p' (s.setSide side (Ladder.remove (fun x => decide (x.1 = e.1)) (s.side side)))
        (index.forget e.2) := by
  have hmem : e ∈ s.entries := (s.mem_entries_side hs).mpr (.inl he)
  have hr := h.inRange e hmem
  obtain ⟨book, hun, hinfo, hst⟩ := h.stores.unlinkOrder hs he
  obtain ⟨book', hde, hst'⟩ := hst.deallocateOrder
  have hids : (book.orderAt e.1).ids = e.2.ids := congrArg OrderInfo.ids hinfo
  have hset : ({ p with book := book } : MEOrderBook).setOrder e.2.ids.clientId
      e.2.ids.clientOrderId none = .ok ({ p with book := book }.putOrder e.2.ids.clientId
        e.2.ids.clientOrderId none) := by
    simp [MEOrderBook.setOrder, require_of _ hr]
  have hsub := h.stores.mem_entries_remove hs he
  refine ⟨{ p.putOrder e.2.ids.clientId e.2.ids.clientOrderId none with book := book' }, ?_, rfl,
    hst', ?_, ?_⟩
  · rw [MEOrderBook.removeOrder, hun, ok_bind, BookStore.order_ok hst.liveLoose, ok_bind, hids, hset,
      ok_bind]
    change (book.deallocateOrder e.1 >>= _) = _
    rw [hde, ok_bind]
    rfl
  · intro c o
    simp only [MEOrderBook.putOrder, OrderIndex.forget, OrderIndex.set]
    split_ifs with hco
    · exact .null
    · have hp := h.points c o
      generalize p.cidOidToOrder c o = a at hp
      generalize index c o = m at hp
      cases hp with
      | null => exact .null
      | order x hx hc ho =>
        refine .order x ((hsub x).mpr ⟨hx, fun ha => hco ?_⟩) hc ho
        rw [← h.stores.addr_inj hx hmem ha]
        exact ⟨hc.symm, ho.symm⟩
  · exact fun x hx => h.inRange x ((hsub x).mp hx).1

theorem Tracks.setQty (h : Tracks p s index) (hs : side.IsBuyOrSell) {e : ℕ × MEOrder} {price : ℤ}
    {es : List (ℕ × MEOrder)} {ls : List (Level ℤ (ℕ × MEOrder))}
    (hside : s.side side = ⟨price, e :: es⟩ :: ls) (qty : ℕ) :
    ∃ book, p.book.setQty e.1 qty = .ok book ∧ Tracks { p with book := book }
      (s.setSide side (⟨price, (e.1, e.2.withQty qty) :: es⟩ :: ls)) index := by
  have he : e ∈ Ladder.entries (s.side side) := by rw [hside]; simp
  obtain ⟨book, hset, hst⟩ := h.stores.setQty hs he qty
  have hup : Ladder.update (fun x => decide (x.1 = e.1)) (fun x => (x.1, x.2.withQty qty))
      (s.side side) = ⟨price, (e.1, e.2.withQty qty) :: es⟩ :: ls := by
    rw [hside]
    exact Ladder.update_first (o := e) (decide_eq_true rfl) fun x hx =>
      decide_eq_false (h.stores.head_addr_ne hs hside hx)
  rw [hup] at hst
  have hmem : ∀ x, x ∈ (s.setSide side (⟨price, (e.1, e.2.withQty qty) :: es⟩ :: ls)).entries ↔
      x = (e.1, e.2.withQty qty) ∨ x ∈ es ++ Ladder.entries ls ∨
        x ∈ Ladder.entries (s.side side.opposite) := by
    intro x
    rw [Ladders.mem_entries_side _ hs, Ladders.side_setSide, Ladders.side_setSide_opposite _ hs]
    simp [or_assoc]
  have hold : ∀ x, x ∈ s.entries ↔ x = e ∨ x ∈ es ++ Ladder.entries ls ∨
      x ∈ Ladder.entries (s.side side.opposite) := by
    intro x
    rw [s.mem_entries_side hs, hside]
    simp [or_assoc]
  refine ⟨book, hset, hst, fun c o => (h.points c o).mono fun x hx => ?_, fun x hx => ?_⟩
  · rcases (hold x).mp hx with rfl | hx
    · exact ⟨_, (hmem _).mpr (.inl rfl), rfl, rfl⟩
    · exact ⟨x, (hmem x).mpr (.inr hx), rfl, rfl⟩
  · rcases (hmem x).mp hx with rfl | hx
    · exact h.inRange e ((hold e).mpr (.inl rfl))
    · exact h.inRange x ((hold x).mpr (.inr hx))

theorem Tracks.match_part (h : Tracks p s index) (hs : side.IsBuyOrSell) {e : ℕ × MEOrder}
    {price : ℤ} {es : List (ℕ × MEOrder)} {ls : List (Level ℤ (ℕ × MEOrder))}
    (hside : s.side side = ⟨price, e :: es⟩ :: ls) (g : MEOrderBook.Aggressor) {leavesQty : ℕ}
    (hq : leavesQty < e.2.qty) :
    ∃ p', p.match g e.1 leavesQty = .ok (p', 0, partialEvents g e.2 leavesQty) ∧
      p'.nextMarketOrderId = p.nextMarketOrderId ∧
      Tracks p' (s.setSide side (⟨price, (e.1, e.2.withQty (e.2.qty - leavesQty)) :: es⟩ :: ls))
        index := by
  have he : e ∈ s.entries := (s.mem_entries_side hs).mpr (.inl (by rw [hside]; simp))
  obtain ⟨-, -, -, o, ho, hinfo⟩ := h.stores.order he
  obtain ⟨book, hset, htr⟩ := h.setQty hs hside (e.2.qty - leavesQty)
  have hmin : min leavesQty e.2.qty = leavesQty := min_eq_left hq.le
  have hne : ¬ e.2.qty - leavesQty = 0 := by omega
  refine ⟨{ p with book := book }, ?_, rfl, htr⟩
  obtain ⟨a, i⟩ := e
  subst hinfo
  simp only [MEOrderBook.match, ho, ok_bind, hmin, hset, if_neg hne, pure_ok, partialEvents,
    fillEvents_eq_tradeEvents, Nat.sub_self]

theorem Tracks.match_filled (h : Tracks p s index) (hs : side.IsBuyOrSell) {e : ℕ × MEOrder}
    {price : ℤ} {es : List (ℕ × MEOrder)} {ls : List (Level ℤ (ℕ × MEOrder))}
    (hside : s.side side = ⟨price, e :: es⟩ :: ls) (g : MEOrderBook.Aggressor) {leavesQty : ℕ}
    (hq : e.2.qty ≤ leavesQty) :
    ∃ p', p.match g e.1 leavesQty = .ok (p', leavesQty - e.2.qty, filledEvents g e.2 leavesQty) ∧
      p'.nextMarketOrderId = p.nextMarketOrderId ∧
      Tracks p' (s.setSide side (Ladder.keep ⟨price, es⟩ ++ ls)) (index.forget e.2) := by
  have he : e ∈ s.entries := (s.mem_entries_side hs).mpr (.inl (by rw [hside]; simp))
  obtain ⟨-, -, -, o, ho, hinfo⟩ := h.stores.order he
  obtain ⟨book, hset, htr⟩ := h.setQty hs hside 0
  have hmin : min leavesQty e.2.qty = e.2.qty := min_eq_right hq
  obtain ⟨p', hrm, hnext, htr'⟩ := htr.removeOrder hs (e := (e.1, e.2.withQty 0)) (by simp)
  have hrem : Ladder.remove (fun x => decide (x.1 = e.1))
      (⟨price, (e.1, e.2.withQty 0) :: es⟩ :: ls) = Ladder.keep ⟨price, es⟩ ++ ls := by
    have hne : Ladder.NonEmpty ls := by
      have := h.stores.nonEmpty hs
      rw [hside] at this
      exact (Ladder.nonEmpty_cons.mp this).2
    exact Ladder.remove_first (o := (e.1, e.2.withQty 0)) hne (decide_eq_true rfl) fun x hx =>
      decide_eq_false (h.stores.head_addr_ne hs hside hx)
  rw [Ladders.side_setSide, Ladders.setSide_setSide, hrem] at htr'
  refine ⟨p', ?_, hnext, htr'⟩
  obtain ⟨a, i⟩ := e
  subst hinfo
  simp only [MEOrderBook.match, ho, ok_bind, hmin, Nat.sub_self, hset, if_true, hrm, pure_ok,
    filledEvents, fillEvents_eq_tradeEvents]

theorem matchLoop_zero (g : MEOrderBook.Aggressor) (price : ℤ) {fuel : ℕ} (hf : 0 < fuel)
    (p : MEOrderBook) : MEOrderBook.matchLoop g price fuel p 0 = .ok (p, 0, []) := by
  obtain ⟨fuel, rfl⟩ := Nat.exists_eq_succ_of_ne_zero hf.ne'
  simp [MEOrderBook.matchLoop]

theorem Tracks.matchLoop (g : MEOrderBook.Aggressor) (hs : g.side.IsBuyOrSell) (price : ℤ) :
    ∀ (fuel : ℕ) (p : MEOrderBook) (s : Ladders (ℕ × MEOrder)) (index : OrderIndex)
      (leavesQty : ℕ), Tracks p s index →
      (Ladder.entries (s.side g.side.opposite)).length < fuel →
      ∃ p' s', MEOrderBook.matchLoop g price fuel p leavesQty = .ok (p',
          (sweep g price leavesQty ((s.mapOrders Prod.snd).side g.side.opposite)).leavesQty,
          (sweep g price leavesQty ((s.mapOrders Prod.snd).side g.side.opposite)).events) ∧
        p'.nextMarketOrderId = p.nextMarketOrderId ∧
        Tracks p' s' ((sweep g price leavesQty
          ((s.mapOrders Prod.snd).side g.side.opposite)).removed.foldl OrderIndex.forget index) ∧
        s'.mapOrders Prod.snd = (s.mapOrders Prod.snd).setSide g.side.opposite
          (sweep g price leavesQty ((s.mapOrders Prod.snd).side g.side.opposite)).left := by
  intro fuel
  induction fuel with
  | zero => intro p s index leavesQty _ hf; omega
  | succ fuel ih =>
    intro p s index leavesQty h hf
    have hso := hs.opposite
    by_cases h0 : leavesQty = 0
    · subst h0
      refine ⟨p, s, ?_, rfl, ?_, ?_⟩
      · rw [sweep_zero]
        simp [MEOrderBook.matchLoop]
      · rw [sweep_zero]
        exact h
      · rw [sweep_zero, Ladders.setSide_side]
    cases hopp : s.side g.side.opposite with
    | nil =>
      have hm : (s.mapOrders Prod.snd).side g.side.opposite = [] := by
        rw [Ladders.side_mapOrders, hopp]; rfl
      refine ⟨p, s, ?_, rfl, ?_, ?_⟩
      · simp [MEOrderBook.matchLoop, h0, h.stores.head_nil hso hopp, hm, sweep]
      · simpa [hm, sweep] using h
      · rw [hm, sweep, ← hm, Ladders.setSide_side]
    | cons L ls =>
      obtain ⟨pr, orders⟩ := L
      have hne := h.stores.nonEmpty hso
      rw [hopp] at hne
      obtain ⟨e, es, rfl⟩ := List.exists_cons_of_ne_nil (Ladder.nonEmpty_cons.mp hne).1
      have hm : (s.mapOrders Prod.snd).side g.side.opposite =
          ⟨pr, e.2 :: es.map Prod.snd⟩ :: Ladder.mapOrders Prod.snd ls := by
        rw [Ladders.side_mapOrders, hopp]; rfl
      obtain ⟨best, l, hhead, hlevel, -, hfirst⟩ := h.stores.head_cons hso hopp
      obtain ⟨-, hprice, -, o, ho, hinfo⟩ := h.stores.entry hso
        (L := ⟨pr, e :: es⟩) (by rw [hopp]; simp) (List.mem_cons_self ..)
      have hpr : o.price = pr := (congrArg OrderInfo.price hinfo).trans hprice
      by_cases hc : MEOrderBook.noMoreCrosses g.side price pr
      · refine ⟨p, s, ?_, rfl, ?_, ?_⟩
        · rw [hm, sweep_stop g price _ leavesQty hc, MEOrderBook.matchLoop, if_neg h0]
          simp only [hhead, hlevel, ok_bind, hfirst, deref_some, ho, hpr, if_pos hc, pure_ok]
        · rw [hm, sweep_stop g price _ leavesQty hc]
          exact h
        · rw [hm, sweep_stop g price _ leavesQty hc, ← hm, Ladders.setSide_side]
      · have hloop : ∀ p₁ q ev p₂ q₂ ev₂, p.match g e.1 leavesQty = .ok (p₁, q, ev) →
            MEOrderBook.matchLoop g price fuel p₁ q = .ok (p₂, q₂, ev₂) →
            MEOrderBook.matchLoop g price (fuel + 1) p leavesQty = .ok (p₂, q₂, ev ++ ev₂) := by
          intro p₁ q ev p₂ q₂ ev₂ hmatch hrest
          rw [MEOrderBook.matchLoop, if_neg h0]
          simp only [hhead, hlevel, ok_bind, hfirst, deref_some, ho, hpr, if_neg hc, hmatch, hrest,
            pure_ok]
        have hlen : es.length + (Ladder.entries ls).length < fuel := by
          rw [hopp] at hf
          simp only [Ladder.entries_cons, List.cons_append, List.length_cons,
            List.length_append] at hf
          omega
        by_cases hq : leavesQty < e.2.qty
        · obtain ⟨p₁, hmatch, hnext, htr⟩ := h.match_part hso hopp g hq
          refine ⟨p₁, s.setSide g.side.opposite (⟨pr, (e.1, e.2.withQty (e.2.qty - leavesQty)) :: es⟩
            :: ls), ?_, hnext, ?_, ?_⟩
          · rw [hm, sweep_part g price _ _ h0 hc hq]
            have := hloop _ _ _ _ _ _ hmatch (matchLoop_zero g price (by omega) p₁)
            rwa [List.append_nil] at this
          · rw [hm, sweep_part g price _ _ h0 hc hq]
            exact htr
          · rw [hm, sweep_part g price _ _ h0 hc hq, Ladders.mapOrders_setSide]
            rfl
        · obtain ⟨p₁, hmatch, hnext, htr⟩ := h.match_filled hso hopp g (Nat.not_lt.mp hq)
          obtain ⟨p', s', hl', hn', htr', hs'⟩ := ih p₁ _ _ (leavesQty - e.2.qty) htr (by
            rw [Ladders.side_setSide, Ladder.entries_append, Ladder.entries_keep,
              List.length_append]
            exact hlen)
          have hside : ((s.setSide g.side.opposite (Ladder.keep ⟨pr, es⟩ ++ ls)).mapOrders
              Prod.snd).side g.side.opposite = Ladder.keep ⟨pr, es.map Prod.snd⟩ ++
                Ladder.mapOrders Prod.snd ls := by
            rw [Ladders.side_mapOrders, Ladders.side_setSide, Ladder.mapOrders_append,
              Ladder.mapOrders_keep]
          rw [hside] at hl' htr' hs'
          refine ⟨p', s', ?_, hn'.trans hnext, ?_, ?_⟩
          · rw [hm, sweep_filled g price _ _ h0 hc (Nat.not_lt.mp hq)]
            exact hloop _ _ _ _ _ _ hmatch hl'
          · rw [hm, sweep_filled g price _ _ h0 hc (Nat.not_lt.mp hq)]
            exact htr'
          · rw [hs', hm, sweep_filled g price _ _ h0 hc (Nat.not_lt.mp hq),
              Ladders.mapOrders_setSide, Ladders.setSide_setSide]

theorem Tracks.getNextPriority (h : Tracks p s index) (hs : side.IsBuyOrSell) {price : ℤ}
    (hp : PriceInRange price)
    (hopp : price ∉ (s.side side.opposite).map Level.price) :
    p.getNextPriority price =
      .ok (PriceTimeBook.nextPriority price ((s.mapOrders Prod.snd).side side)) := by
  unfold PriceTimeBook.nextPriority
  cases hf : ((s.mapOrders Prod.snd).side side).find? (fun L => decide (L.price = price)) with
  | none =>
    have hno : price ∉ (s.side side).map Level.price := by
      intro hm
      rw [← Ladder.map_price_mapOrders Prod.snd, ← Ladders.side_mapOrders] at hm
      obtain ⟨L, hL, hLp⟩ := List.mem_map.mp hm
      simpa [hLp] using List.find?_eq_none.mp hf L hL
    simp [MEOrderBook.getNextPriority, h.stores.getOrdersAtPrice_none hs hp hno hopp]
  | some L =>
    have hLp : L.price = price := by simpa using List.find?_some hf
    have hL := List.mem_of_find?_eq_some hf
    rw [Ladders.side_mapOrders] at hL
    obtain ⟨K, hK, rfl⟩ := List.mem_map.mp hL
    obtain ⟨es, e, hes⟩ : ∃ es e, K.orders = es ++ [e] :=
      ⟨_, _, (List.dropLast_append_getLast (h.stores.nonEmpty hs K hK)).symm⟩
    have hK' : ⟨price, es ++ [e]⟩ ∈ s.side side := by
      rw [← hes, ← hLp]
      exact hK
    obtain ⟨a, l, first, f, o, hg, hl, hfo, hof, hprev, ho, hinfo⟩ := h.stores.lastOrder hs e hK'
    have hprio : o.priority = e.2.priority := congrArg OrderInfo.priority hinfo
    simp [MEOrderBook.getNextPriority, hg, hl, hfo, hof, hprev, ho, hes, hprio]

theorem Tracks.addOrder {a : ℕ} {o : MEOrder} (hst : p.book.Stores s [a])
    (hpoints : ∀ c o, Points s c o (p.cidOidToOrder c o) (index c o))
    (hrange : ∀ e ∈ s.entries, MEOrderBook.InRange e.2.ids.clientId e.2.ids.clientOrderId)
    (hinfo : (p.book.orderAt a).toOrderInfo = o) (hs : o.side.IsBuyOrSell)
    (hin : PriceInRange o.price) (hr : MEOrderBook.InRange o.ids.clientId o.ids.clientOrderId)
    (hopp : o.price ∉ (s.side o.side.opposite).map Level.price) :
    ∃ p', p.addOrder a = .ok p' ∧ p'.nextMarketOrderId = p.nextMarketOrderId ∧
      Tracks p' (s.setSide o.side
        (Ladder.insert (better o.side) o.price (a, o) (s.side o.side)))
        (index.set o.ids.clientId o.ids.clientOrderId (some o.ids.marketOrderId)) := by
  obtain ⟨book, hlink, hst'⟩ := hst.linkOrder hinfo hs hin hopp
  have hmem : ∀ x, x ∈ (s.setSide o.side (Ladder.insert (better o.side) o.price (a, o)
      (s.side o.side))).entries ↔ x = (a, o) ∨ x ∈ s.entries := by
    intro x
    rw [Ladders.mem_entries_side _ hs, Ladders.side_setSide, Ladders.side_setSide_opposite _ hs,
      Ladder.mem_entries_insert, s.mem_entries_side hs, or_assoc]
  obtain ⟨-, -, -, o', ho', hinfo'⟩ := hst'.order ((hmem (a, o)).mpr (.inl rfl))
  have hids : o'.ids = o.ids := congrArg OrderInfo.ids hinfo'
  refine ⟨{ p with book := book }.putOrder o.ids.clientId o.ids.clientOrderId (some a), ?_, rfl,
    hst', ?_, ?_⟩
  · rw [MEOrderBook.addOrder, hlink, ok_bind, ho', ok_bind, hids, MEOrderBook.setOrder,
      require_of _ hr]
    rfl
  · intro c i
    simp only [MEOrderBook.putOrder, OrderIndex.set]
    split_ifs with hci
    · exact .order (a, o) ((hmem _).mpr (.inl rfl)) hci.1.symm hci.2.symm
    · exact (hpoints c i).mono fun e he => ⟨e, (hmem e).mpr (.inr he), rfl, rfl⟩
  · intro e he
    rcases (hmem e).mp he with rfl | he
    · exact hr
    · exact hrange e he

def Refines (p : MEOrderBook) (b : IndexedBook) : Prop :=
  ∃ s, Tracks p s b.index ∧ b.book.ladders = s.mapOrders Prod.snd ∧
    p.nextMarketOrderId = b.book.nextMarketOrderId

theorem refines_new (checked : Bool) (tickerId : ℕ) :
    Refines (MEOrderBook.new checked tickerId) IndexedBook.new :=
  ⟨⟨[], []⟩, ⟨BookStore.stores_new checked _, fun _ _ => .null, by simp [Ladders.entries]⟩, rfl, rfl⟩

variable {b : IndexedBook} {n : NewOrder}

theorem Refines.checkForMatch (h : Refines p b) (hs : n.side.IsBuyOrSell) :
    ∃ p' s, p.generateNewMarketOrderId.2.checkForMatch n.clientId n.clientOrderId n.tickerId n.side
        n.price n.qty p.generateNewMarketOrderId.1 =
          .ok (p', (b.book.swept b.fillId n).leavesQty, (b.book.swept b.fillId n).events) ∧
      p'.nextMarketOrderId = b.book.nextMarketOrderId + 1 ∧ Tracks p' s (b.sweptIndex n) ∧
      s.mapOrders Prod.snd = b.book.afterSweep b.fillId n := by
  obtain ⟨s, htr, hlad, hnext⟩ := h
  have htr' : Tracks p.generateNewMarketOrderId.2 s b.index := ⟨htr.stores, htr.points, htr.inRange⟩
  have hfuel : (Ladder.entries (s.side n.side.opposite)).length <
      p.generateNewMarketOrderId.2.book.orderPool.numElems + 1 := by
    have hlen := htr.stores.length_lt
    rw [(s.entries_perm hs).length_eq, List.length_append] at hlen
    obtain ⟨bids, asks, hrep, -⟩ := htr.stores
    change _ < p.book.orderPool.numElems + 1
    rw [hrep.orderCap]
    simp only [List.length_nil] at hlen
    omega
  obtain ⟨p', s', hloop, hnext', htr'', hs'⟩ := Tracks.matchLoop
    ⟨n.tickerId, n.clientId, n.side, n.clientOrderId, b.fillId⟩ hs n.price _ _ s b.index n.qty htr'
    hfuel
  refine ⟨p', s', ?_, ?_, ?_, ?_⟩
  · rw [MEOrderBook.checkForMatch, if_pos hs, PriceTimeBook.swept, hlad]
    rw [← hloop]
    simp only [MEOrderBook.generateNewMarketOrderId, hnext]
    rfl
  · rw [hnext', ← hnext]
    rfl
  · rw [IndexedBook.sweptIndex, PriceTimeBook.swept, hlad]
    exact htr''
  · rw [hs', PriceTimeBook.afterSweep, PriceTimeBook.swept, hlad]

theorem Refines.rest {s : Ladders (ℕ × MEOrder)} (htr : Tracks p s (b.sweptIndex n)) (hw : b.WF)
    (hn : n.Admissible) (hlad : s.mapOrders Prod.snd = b.book.afterSweep b.fillId n)
    (hq : (b.book.swept b.fillId n).leavesQty ≠ 0) (m : ℕ) (hm : m = b.book.nextMarketOrderId)
    (hroom : (b.book.afterSweep b.fillId n).entries.length + 1 < meMaxOrderIds) :
    ∃ p', p.rest n.clientId n.clientOrderId n.tickerId m n.side n.price
        (b.book.swept b.fillId n).leavesQty =
          .ok (p', [PriceTimeBook.added (b.book.remainder b.fillId n)]) ∧
      p'.nextMarketOrderId = p.nextMarketOrderId ∧
      ∃ s', Tracks p' s' (b.add n).1.index ∧
        s'.mapOrders Prod.snd =
          (b.book.afterSweep b.fillId n).rest (b.book.remainder b.fillId n) := by
  subst hm
  obtain ⟨hs, hin, hr, -⟩ := hn
  have hopp : n.price ∉ (s.side n.side.opposite).map Level.price := by
    intro hm
    rw [← Ladder.map_price_mapOrders Prod.snd, ← Ladders.side_mapOrders, hlad] at hm
    obtain ⟨K, hK, hKp⟩ := List.mem_map.mp hm
    have hc := PriceTimeBook.remainder_crosses hw.book hs hq K hK
    rw [hKp, MEOrderBook.noMoreCrosses] at hc
    split_ifs at hc <;> omega
  have hprio := htr.getNextPriority hs hin hopp
  rw [hlad] at hprio
  have hlen : s.entries.length + 1 < meMaxOrderIds := by
    rwa [← hlad, Ladders.entries_mapOrders, List.length_map] at hroom
  obtain ⟨a, book, hal, hst, hinfo⟩ := htr.stores.allocateOrder hlen (b.book.remainder b.fillId n)
  obtain ⟨p', hadd, hnext, htr'⟩ := Tracks.addOrder (p := { p with book := book }) hst htr.points
    htr.inRange hinfo hs hin hr hopp
  have hindex : (b.add n).1.index = (b.sweptIndex n).set n.clientId n.clientOrderId
      (some b.book.nextMarketOrderId) := by
    simp only [IndexedBook.add, if_neg hq]
  refine ⟨p', ?_, hnext, _, hindex ▸ htr', ?_⟩
  · rw [MEOrderBook.rest, if_neg hq, hprio, ok_bind]
    change (p.book.allocateOrder (b.book.remainder b.fillId n) >>= _) = _
    simp only [hal, ok_bind, hadd, pure_ok]
    rfl
  · rw [Ladders.mapOrders_setSide, ← Ladder.insert_mapOrders, ← Ladders.side_mapOrders, hlad]
    rfl

theorem Refines.add_filled (h : Refines p b) (hs : n.side.IsBuyOrSell)
    (hq : (b.book.swept b.fillId n).leavesQty = 0) :
    ∃ p', p.add n.clientId n.clientOrderId n.tickerId n.side n.price n.qty =
      .ok (p', (b.add n).2) ∧ Refines p' (b.add n).1 := by
  have hid : p.generateNewMarketOrderId.1 = b.book.nextMarketOrderId := by
    obtain ⟨s, -, -, hnext⟩ := h
    exact hnext
  obtain ⟨p₁, s, hmatch, hnext, htr, hlad⟩ := h.checkForMatch hs
  refine ⟨p₁, ?_, s, ?_, ?_, ?_⟩
  · simp only [MEOrderBook.add, hmatch, ok_bind, MEOrderBook.rest, if_pos hq, pure_ok]
    simp [IndexedBook.add, PriceTimeBook.place, hq, PriceTimeBook.accepted, hid]
  · simpa [IndexedBook.add, hq] using htr
  · simp [IndexedBook.add, PriceTimeBook.place, hq, hlad]
  · simpa [IndexedBook.add, PriceTimeBook.place, hq] using hnext

theorem Refines.add (h : Refines p b) (hw : b.WF) (hn : n.Admissible)
    (hroom : (b.book.swept b.fillId n).leavesQty = 0 ∨
      (b.book.afterSweep b.fillId n).entries.length + 1 < meMaxOrderIds) :
    ∃ p', p.add n.clientId n.clientOrderId n.tickerId n.side n.price n.qty =
      .ok (p', (b.add n).2) ∧ Refines p' (b.add n).1 := by
  by_cases hq : (b.book.swept b.fillId n).leavesQty = 0
  · exact h.add_filled hn.1 hq
  · have hid : p.generateNewMarketOrderId.1 = b.book.nextMarketOrderId := by
      obtain ⟨s, -, -, hnext⟩ := h
      exact hnext
    obtain ⟨p₁, s, hmatch, hnext, htr, hlad⟩ := h.checkForMatch hn.1
    obtain ⟨p₂, hrest, hnext₂, s', htr', hlad'⟩ := Refines.rest htr hw hn hlad hq
      p.generateNewMarketOrderId.1 hid (hroom.resolve_left hq)
    refine ⟨p₂, ?_, s', htr', ?_, ?_⟩
    · simp only [MEOrderBook.add, hmatch, ok_bind, hrest, pure_ok]
      simp [IndexedBook.add, PriceTimeBook.place, hq, PriceTimeBook.accepted, hid]
    · simp [IndexedBook.add, PriceTimeBook.place, hq, hlad']
    · simpa [IndexedBook.add, PriceTimeBook.place, hq] using hnext₂.trans hnext

theorem Refines.eq_of_id {s : Ladders (ℕ × MEOrder)} (hw : b.WF)
    (hlad : b.book.ladders = s.mapOrders Prod.snd) {x y : ℕ × MEOrder} (hx : x ∈ s.entries)
    (hy : y ∈ s.entries) (hid : x.2.ids.marketOrderId = y.2.ids.marketOrderId) : x = y := by
  have hnd := hw.book.ids
  rw [hlad, Ladders.entries_mapOrders, List.map_map, List.map_map] at hnd
  exact List.inj_on_of_nodup_map hnd hx hy hid

theorem Refines.cancel (h : Refines p b) (hw : b.WF) {c o : ℕ} (t : ℕ)
    (hr : MEOrderBook.InRange c o) :
    ∃ p', p.cancel c o t = .ok (p', (b.cancel c o t).2) ∧ Refines p' (b.cancel c o t).1 := by
  obtain ⟨s, htr, hlad, hnext⟩ := h
  have hfind : p.findOrder c o = .ok (p.cidOidToOrder c o) := by
    simp [MEOrderBook.findOrder, hr.1, require_of _ hr.2]
  have hp := htr.points c o
  unfold IndexedBook.cancel
  cases hl : b.lookup c o with
  | none =>
    have hi := (IndexedBook.lookup_eq_none hw).mp hl
    rw [hi] at hp
    cases hc : p.cidOidToOrder c o with
    | some a => rw [hc] at hp; cases hp
    | none =>
      refine ⟨p, ?_, s, htr, hlad, hnext⟩
      simp [MEOrderBook.cancel, hfind, hc, PriceTimeBook.rejected]
  | some x =>
    obtain ⟨hx, hxc, hxo, hi⟩ := IndexedBook.lookup_eq_some hw hl
    rw [hi] at hp
    cases hc : p.cidOidToOrder c o with
    | none => rw [hc] at hp; cases hp
    | some a =>
      rw [hc] at hp
      obtain ⟨e, he, rfl, hm⟩ : ∃ e ∈ s.entries, e.1 = a ∧
          e.2.ids.marketOrderId = x.ids.marketOrderId := by
        generalize hm' : x.ids.marketOrderId = m at hp
        cases hp with
        | order e he _ _ => exact ⟨e, he, rfl, rfl⟩
      have hmem : e.2 ∈ b.book.ladders.entries := by
        rw [hlad, Ladders.entries_mapOrders]
        exact List.mem_map_of_mem he
      have hex : e.2 = x := hw.book.eq_of_id hmem hx hm
      obtain ⟨hs, -, hside, o', ho', hinfo⟩ := htr.stores.order he
      obtain ⟨p', hrm, hnext', htr'⟩ := htr.removeOrder hs hside
      refine ⟨p', ?_, _, hex ▸ htr', ?_, hnext'.trans hnext⟩
      · simp only [MEOrderBook.cancel, hfind, ok_bind, hc, ho', hrm, pure_ok,
          PriceTimeBook.canceled, ← hex, ← hinfo]
      · simp only [PriceTimeBook.drop, Ladders.drop, Ladders.mapOrders_setSide, hlad, ← hex,
          Ladders.side_mapOrders, Ladder.remove_mapOrders]
        congr 2
        refine Ladder.remove_congr fun y hy => ?_
        have hym : y ∈ s.entries := (s.mem_entries_side hs).mpr (.inl hy)
        refine decide_eq_decide.mpr ⟨fun hid => ?_, fun ha => ?_⟩
        · rw [Refines.eq_of_id hw hlad hym he hid]
        · rw [htr.stores.addr_inj hym he ha]

end Exchange
