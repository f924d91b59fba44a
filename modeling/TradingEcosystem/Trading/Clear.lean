import TradingEcosystem.Trading.ClientBook

namespace Trading

open Common Exchange

namespace MarketOrderBook

def restingOrder (m : MarketOrderBook) (orderId : ℕ) : Option MarketOrder :=
  (m.oidToOrder orderId).map fun a => (m.book.orderAt a).toOrderInfo

structure SameView (m n : MarketOrderBook) : Prop where
  levels : ∃ s, m.book.decode = some s ∧ n.book.decode = some s
  index : ∀ orderId, m.restingOrder orderId = n.restingOrder orderId
  prices : ∀ price, PriceInRange price → m.book.levelAtPrice price = n.book.levelAtPrice price
  bbo : m.bbo = n.bbo

def ClearResets (m : MarketOrderBook) (u : MEMarketUpdate) : Prop :=
  ∃ m' c, m.onMarketUpdate u = .ok (m', c) ∧
    m'.book.bidsByPrice = none ∧ m'.book.asksByPrice = none ∧ m'.bbo = BBO.default ∧
    (∀ price, m'.book.getOrdersAtPrice price = none) ∧
    ∀ checked us, ApplicableAll ⟨[], []⟩ us →
      ∃ x y, m'.run us = .ok x ∧ (new checked m.tickerId).run us = .ok y ∧ SameView x y

end MarketOrderBook

variable {m : MarketOrderBook} {s : Ladders MarketOrder} {u : MEMarketUpdate} {b b' : BookStore ℕ}

theorem Mirrors.restingOrder (h : Mirrors m s) (orderId : ℕ) :
    m.restingOrder orderId = s.entries.find? fun o => decide (o.ids = orderId) := by
  obtain ⟨a, hl, rfl⟩ := h.linked
  rw [Ladders.entries_mapOrders]
  unfold MarketOrderBook.restingOrder
  cases hi : m.oidToOrder orderId with
  | none =>
    refine (List.find?_eq_none.mpr fun o ho => ?_).symm
    obtain ⟨e, he, rfl⟩ := List.mem_map.mp ho
    intro hid
    have := (hl.index orderId e.1).mpr ⟨e, he, rfl, of_decide_eq_true hid⟩
    simp [hi] at this
  | some x =>
    obtain ⟨e, he, rfl, hid⟩ := (hl.index orderId x).mp hi
    rw [Option.map_some, hl.stores.info he]
    cases hf : (a.entries.map Prod.snd).find? fun o => decide (o.ids = orderId) with
    | none =>
      have := List.find?_eq_none.mp hf e.2 (List.mem_map_of_mem he)
      simp [hid] at this
    | some o =>
      obtain ⟨g, hg, rfl⟩ := List.mem_map.mp (List.mem_of_find?_eq_some hf)
      have hgid : g.2.ids = orderId := by simpa using List.find?_some hf
      rw [hl.eq_of_id he hg (hid.trans hgid.symm)]

theorem Mirrors.sameView {n : MarketOrderBook} (h : Mirrors m s) (k : Mirrors n s) :
    m.SameView n where
  levels := ⟨s, h.decode, k.decode⟩
  index := fun orderId => by rw [h.restingOrder, k.restingOrder]
  prices := fun price hp => by
    obtain ⟨a, hl, hs⟩ := h.linked
    obtain ⟨a', hl', hs'⟩ := k.linked
    rw [hl.stores.levelAtPrice hp, hl'.stores.levelAtPrice hp, ← hs, ← hs']
  bbo := by rw [h.bbo, k.bbo]

section Slots

theorem slots_deallocateOrders {oidToOrder : ℕ → Option ℕ} {n : ℕ}
    (h : MarketOrderBook.deallocateOrders oidToOrder n b = .ok b') :
    b'.priceOrdersAtPrice = b.priceOrdersAtPrice := by
  induction n generalizing b' with
  | zero => cases h; rfl
  | succ n ih =>
    obtain ⟨b₁, h₁, h₂⟩ := bind_eq_ok.mp h
    rw [← ih h₁]
    cases ho : oidToOrder n with
    | none =>
      rw [ho] at h₂
      cases h₂
      rfl
    | some order =>
      rw [ho] at h₂
      obtain ⟨pool, -, hb⟩ := bind_eq_ok.mp h₂
      cases hb
      rfl

theorem slots_deallocateLevel {a : ℕ} (h : MarketOrderBook.deallocateLevel b a = .ok b') :
    b'.priceOrdersAtPrice = b.priceOrdersAtPrice := by
  obtain ⟨pool, -, hb⟩ := bind_eq_ok.mp h
  cases hb
  rfl

theorem slots_deallocateLevels {best fuel a : ℕ}
    (h : MarketOrderBook.deallocateLevels best fuel b a = .ok b') :
    b'.priceOrdersAtPrice = b.priceOrdersAtPrice := by
  induction fuel generalizing b a with
  | zero => cases h
  | succ fuel ih =>
    unfold MarketOrderBook.deallocateLevels at h
    split_ifs at h with ha
    · cases h
      rfl
    · obtain ⟨b₁, h₁, h⟩ := bind_eq_ok.mp h
      obtain ⟨l, -, h⟩ := bind_eq_ok.mp h
      obtain ⟨next, -, h⟩ := bind_eq_ok.mp h
      rw [ih h, slots_deallocateLevel h₁]

theorem slots_clearSide {side : Side} (h : MarketOrderBook.clearSide b side = .ok b') :
    b'.priceOrdersAtPrice = b.priceOrdersAtPrice := by
  unfold MarketOrderBook.clearSide at h
  cases hh : b.head side with
  | none =>
    rw [hh] at h
    cases h
    rfl
  | some best =>
    rw [hh] at h
    obtain ⟨l, -, h⟩ := bind_eq_ok.mp h
    obtain ⟨next, -, h⟩ := bind_eq_ok.mp h
    obtain ⟨b₁, h₁, h⟩ := bind_eq_ok.mp h
    rw [slots_deallocateLevel h, slots_deallocateLevels h₁]

theorem slots_clear {m' : MarketOrderBook} (h : m.clear = .ok m') :
    m'.book.priceOrdersAtPrice = m.book.priceOrdersAtPrice := by
  obtain ⟨b₁, h₁, h⟩ := bind_eq_ok.mp h
  obtain ⟨b₂, h₂, h⟩ := bind_eq_ok.mp h
  obtain ⟨b₃, h₃, h⟩ := bind_eq_ok.mp h
  cases h
  exact (slots_clearSide h₃).trans ((slots_clearSide h₂).trans (slots_deallocateOrders h₁))

theorem book_updateBBO {m' : MarketOrderBook} {bid ask : Bool}
    (h : m.updateBBO bid ask = .ok m') : m'.book = m.book := by
  obtain ⟨m₁, h₁, h₂⟩ := bind_eq_ok.mp h
  have hbid : m₁.book = m.book := by
    cases bid with
    | false => cases h₁; rfl
    | true =>
      obtain ⟨r, -, hr⟩ := bind_eq_ok.mp h₁
      cases hr
      rfl
  cases ask with
  | false => cases h₂; exact hbid
  | true =>
    obtain ⟨r, -, hr⟩ := bind_eq_ok.mp h₂
    cases hr
    exact hbid

theorem slots_onMarketUpdate {m' : MarketOrderBook} {c : Callback} (hu : u.type = .clear)
    (h : m.onMarketUpdate u = .ok (m', c)) :
    m'.book.priceOrdersAtPrice = m.book.priceOrdersAtPrice := by
  obtain ⟨bid, -, h⟩ := bind_eq_ok.mp h
  obtain ⟨ask, -, h⟩ := bind_eq_ok.mp h
  rw [if_neg (by simp [hu])] at h
  obtain ⟨m₁, h₁, h⟩ := bind_eq_ok.mp h
  obtain ⟨m₂, h₂, h⟩ := bind_eq_ok.mp h
  cases h
  rw [MarketOrderBook.mutate, hu] at h₁
  rw [book_updateBBO h₂, slots_clear h₁]

end Slots

theorem onMarketUpdate_clear {m' : MarketOrderBook} (hu : u.type = .clear)
    (hs : u.side = .invalid) (h : m.clear = .ok m') :
    m.onMarketUpdate u = .ok (m', .onOrderBookUpdate u.tickerId u.price u.side) := by
  simp [MarketOrderBook.onMarketUpdate, MarketOrderBook.sideUpdated, MarketOrderBook.mutate,
    MarketOrderBook.updateBBO, MarketOrderBook.updateBid, MarketOrderBook.updateAsk, hu, hs, h]

theorem Mirrors.eq_empty (h : Mirrors m s) (hno : ∀ price, m.book.getOrdersAtPrice price = none) :
    s = ⟨[], []⟩ := by
  obtain ⟨a, hl, rfl⟩ := h.linked
  have hnil : ∀ ls, ls = (a.mapOrders Prod.snd).bids ++ (a.mapOrders Prod.snd).asks → ls = [] := by
    intro ls hls
    cases ls with
    | nil => rfl
    | cons L ls =>
      have := hl.stores.levelAtPrice_mem (L := L) (hls ▸ List.mem_cons_self ..)
      simp [BookStore.levelAtPrice, hno] at this
  obtain ⟨hb, ha⟩ := List.append_eq_nil_iff.mp (hnil _ rfl)
  exact congrArg₂ Ladders.mk hb ha

theorem Mirrors.clearResets_iff (h : Mirrors m s) (hu : u.type = .clear) :
    m.ClearResets u ↔ s = ⟨[], []⟩ := by
  constructor
  · rintro ⟨m', c, hstep, -, -, -, hno, -⟩
    refine h.eq_empty fun price => ?_
    have := hno price
    rwa [BookStore.getOrdersAtPrice, slots_onMarketUpdate hu hstep] at this
  · rintro rfl
    have happ : Applicable ⟨[], []⟩ u := by rw [Applicable, hu]
    obtain ⟨m', c, hstep, hm'⟩ := h.step happ
    rw [applyUpdate, hu] at hm'
    obtain ⟨a, hl, ha⟩ := id hm'.linked
    obtain ⟨hb, hk⟩ := Ladders.mk.inj ha
    obtain rfl : a = ⟨[], []⟩ :=
      congrArg₂ Ladders.mk (List.map_eq_nil_iff.mp hb.symm) (List.map_eq_nil_iff.mp hk.symm)
    refine ⟨m', c, hstep, hl.stores.head_nil (.inl rfl) rfl, hl.stores.head_nil (.inr rfl) rfl,
      hm'.bbo, hl.stores.getOrdersAtPrice_nil, fun checked us hus => ?_⟩
    obtain ⟨x, hx, hmx⟩ := hm'.run hus
    obtain ⟨y, hy, hmy⟩ := (mirrors_new checked m.tickerId).run hus
    exact ⟨x, y, hx, hy, hmx.sameView hmy⟩

theorem clear_resets_iff_empty (checked : Bool) (tickerId : ℕ) (us : List MEMarketUpdate)
    (hus : ApplicableAll ⟨[], []⟩ us) (u : MEMarketUpdate) (hu : u.type = .clear) :
    ∃ m, (MarketOrderBook.new checked tickerId).run us = .ok m ∧
      (m.ClearResets u ↔ m.book.decode = some ⟨[], []⟩) := by
  obtain ⟨m, hrun, hm⟩ := (mirrors_new checked tickerId).run hus
  refine ⟨m, hrun, (hm.clearResets_iff hu).trans ?_⟩
  rw [hm.decode, Option.some_inj]

def sampleClear : MEMarketUpdate := { MEMarketUpdate.default with type := .clear, tickerId := 0 }

def sampleAdd : MEMarketUpdate := ⟨.add, 1, 0, .buy, 100, 10, 1⟩

def sampleCancel : MEMarketUpdate := { sampleAdd with type := .cancel }

theorem clear_resets_iff_empty_sample :
    ApplicableAll ⟨[], []⟩ [sampleAdd, sampleCancel] ∧
      ∃ m, (MarketOrderBook.new true 0).run [sampleAdd, sampleCancel] = .ok m ∧
        (m.ClearResets sampleClear ↔ m.book.decode = some ⟨[], []⟩) :=
  ⟨by decide, clear_resets_iff_empty true 0 _ (by decide) sampleClear rfl⟩

theorem deallocateOrders_one {oidToOrder : ℕ → Option ℕ} {i x : ℕ}
    (h : oidToOrder = fun j => if j = i then some x else none) (n : ℕ) :
    MarketOrderBook.deallocateOrders oidToOrder n b =
      if i < n then b.deallocateOrder x else .ok b := by
  induction n with
  | zero => rfl
  | succ n ih =>
    rw [MarketOrderBook.deallocateOrders, ih]
    rcases lt_trichotomy i n with hi | rfl | hi
    · rw [if_pos hi, if_pos (by omega), h]
      simp only [if_neg (show ¬ n = i by omega)]
      cases b.deallocateOrder x <;> rfl
    · rw [if_neg (by omega), if_pos (by omega), h]
      simp
    · rw [if_neg (by omega), if_neg (by omega), h]
      simp [show ¬ n = i by omega]

theorem clear_keeps_level_of_added_order :
    ∃ m m' c, (MarketOrderBook.new false 0).run [sampleAdd] = .ok m ∧
      m.onMarketUpdate sampleClear = .ok (m', c) ∧ m'.book.bidsByPrice = none ∧
      m'.book.getOrdersAtPrice 100 = some 0 ∧ m'.bbo.bidPrice = 100 ∧
      ¬ m.ClearResets sampleClear := by
  obtain ⟨m, hm, hmir⟩ := (mirrors_new false 0).run
    (show ApplicableAll ⟨[], []⟩ [sampleAdd] by decide)
  have hfree : MarketOrderBook.deallocateOrders m.oidToOrder meMaxOrderIds m.book =
      m.book.deallocateOrder 0 := by
    cases hm
    exact (deallocateOrders_one (i := 1) (x := 0) rfl _).trans (if_pos (by decide))
  have hclear : ∃ m', m.clear = .ok m' ∧ m'.book.bidsByPrice = none ∧
      m'.book.getOrdersAtPrice 100 = some 0 ∧ m'.bbo.bidPrice = 100 := by
    rw [MarketOrderBook.clear, hfree]
    cases hm
    exact ⟨_, rfl, rfl, rfl, rfl⟩
  obtain ⟨m', hm', hbid, hslot, hbbo⟩ := hclear
  refine ⟨m, m', _, hm, onMarketUpdate_clear rfl rfl hm', hbid, hslot, hbbo, ?_⟩
  rw [hmir.clearResets_iff rfl]
  decide

end Trading
