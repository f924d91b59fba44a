import TradingEcosystem.Common.BookLevels
import TradingEcosystem.Trading.CleanRun

namespace Trading

open Common Exchange

structure Cell where
  order : ℕ
  level : ℕ
  info : MarketOrder

namespace Cell

def At (b : BookStore ℕ) (side : Side) (c : Cell) : Prop :=
  b.levelAt c.level = ⟨side, c.info.price, some c.order, some c.level, some c.level⟩ ∧
    b.orderAt c.order = ⟨c.info, some c.order, some c.order⟩ ∧ c.info.side = side

def price (c : Option Cell) : ℤ := (c.map fun x => x.info.price).getD priceInvalid

def qty (c : Option Cell) : ℕ := (c.map fun x => x.info.qty).getD qtyInvalid

end Cell

def cells (own opp : Option Cell) : List Cell := own.toList ++ opp.toList

/-- A book with at most one order a side. The prices may be any, as long as the two levels have
different places in the price table. -/
structure TopBook (m : MarketOrderBook) (side : Side) (own opp : Option Cell) : Prop where
  isSide : side.IsBuyOrSell
  ownHead : m.book.head side = own.map Cell.level
  oppHead : m.book.head side.opposite = opp.map Cell.level
  ownAt : ∀ c ∈ own, c.At m.book side
  oppAt : ∀ c ∈ opp, c.At m.book side.opposite
  index : ∀ i a, m.book.priceOrdersAtPrice i = some a ↔
    ∃ c ∈ cells own opp, c.level = a ∧ priceToIndex c.info.price = i
  ids : ∀ i x, m.oidToOrder i = some x ↔ ∃ c ∈ cells own opp, c.order = x ∧ c.info.ids = i
  idRange : ∀ c ∈ cells own opp, c.info.ids < meMaxOrderIds
  apart : ∀ c ∈ own, ∀ d ∈ opp, priceToIndex c.info.price ≠ priceToIndex d.info.price
  levelPool : m.book.ordersAtPricePool.Holds ((cells own opp).map Cell.level)
  orderPool : m.book.orderPool.Holds ((cells own opp).map Cell.order)
  levelCap : m.book.ordersAtPricePool.numElems = meMaxPriceLevels
  orderCap : m.book.orderPool.numElems = meMaxOrderIds
  ownTouch : touchPrice m.bbo side = Cell.price own ∧ touchQty m.bbo side = Cell.qty own
  oppTouch : touchPrice m.bbo side.opposite = Cell.price opp ∧
    touchQty m.bbo side.opposite = Cell.qty opp

variable {m : MarketOrderBook} {side : Side} {own opp : Option Cell} {c : Cell}

theorem cells_perm (own opp : Option Cell) : (cells own opp).Perm (cells opp own) :=
  List.perm_append_comm

theorem mem_cells : c ∈ cells own opp ↔ c ∈ own ∨ c ∈ opp := by simp [cells]

theorem mem_cells_none : c ∈ cells none opp ↔ c ∈ opp := by simp [cells]

theorem TopBook.swap (h : TopBook m side own opp) : TopBook m side.opposite opp own where
  isSide := h.isSide.opposite
  ownHead := h.oppHead
  oppHead := by rw [h.isSide.opposite_opposite]; exact h.ownHead
  ownAt := h.oppAt
  oppAt := by rw [h.isSide.opposite_opposite]; exact h.ownAt
  index := fun i a => by simp only [h.index, (cells_perm own opp).mem_iff]
  ids := fun i x => by simp only [h.ids, (cells_perm own opp).mem_iff]
  idRange := fun c hc => h.idRange c ((cells_perm own opp).mem_iff.mpr hc)
  apart := fun c hc d hd => (h.apart d hd c hc).symm
  levelPool := h.levelPool.perm ((cells_perm own opp).map _)
  orderPool := h.orderPool.perm ((cells_perm own opp).map _)
  levelCap := h.levelCap
  orderCap := h.orderCap
  ownTouch := h.oppTouch
  oppTouch := by rw [h.isSide.opposite_opposite]; exact h.ownTouch

theorem topBook_new (checked : Bool) (tickerId : ℕ) (hs : side.IsBuyOrSell) :
    TopBook (MarketOrderBook.new checked tickerId) side none none where
  isSide := hs
  ownHead := by rcases hs with rfl | rfl <;> rfl
  oppHead := by rcases hs with rfl | rfl <;> rfl
  ownAt := nofun
  oppAt := nofun
  index := fun i a => by simp [MarketOrderBook.new, BookStore.new, cells]
  ids := fun i a => by simp [MarketOrderBook.new, cells]
  idRange := nofun
  apart := nofun
  levelPool := MemPool.holds_new (by decide) _ _
  orderPool := MemPool.holds_new (by decide) _ _
  levelCap := rfl
  orderCap := rfl
  ownTouch := by rcases hs with rfl | rfl <;> exact ⟨rfl, rfl⟩
  oppTouch := by rcases hs with rfl | rfl <;> exact ⟨rfl, rfl⟩

section Facts

variable (h : TopBook m side own opp)

include h

theorem TopBook.liveLevel (hc : c ∈ cells own opp) : m.book.LiveLevel c.level :=
  h.levelPool.live (List.mem_map_of_mem hc)

theorem TopBook.liveOrder (hc : c ∈ cells own opp) : m.book.LiveOrder c.order :=
  h.orderPool.live (List.mem_map_of_mem hc)

theorem TopBook.getOrdersAtPrice (hc : c ∈ cells own opp) :
    m.book.getOrdersAtPrice c.info.price = some c.level :=
  (h.index _ _).mpr ⟨c, hc, rfl, rfl⟩

theorem TopBook.getOrdersAtPrice_none {price : ℤ}
    (hfree : ∀ d ∈ cells own opp, priceToIndex d.info.price ≠ priceToIndex price) :
    m.book.getOrdersAtPrice price = none := by
  cases hg : m.book.getOrdersAtPrice price with
  | none => rfl
  | some a =>
    obtain ⟨d, hd, -, hi⟩ := (h.index _ _).mp hg
    exact absurd hi (hfree d hd)

theorem TopBook.findOrder (hc : c ∈ cells own opp) : m.findOrder c.info.ids = .ok c.order := by
  have hix := (h.ids _ _).mpr ⟨c, hc, rfl, rfl⟩
  simp [MarketOrderBook.findOrder, require_of _ (h.idRange c hc), hix]

end Facts

def BBO.set (bbo : BBO) (side : Side) (price : ℤ) (qty : ℕ) : BBO :=
  if side = .buy then { bbo with bidPrice := price, bidQty := qty }
  else { bbo with askPrice := price, askQty := qty }

theorem touch_set (bbo : BBO) (hs : side.IsBuyOrSell) (price : ℤ) (qty : ℕ) :
    (touchPrice (bbo.set side price qty) side = price ∧
      touchQty (bbo.set side price qty) side = qty) ∧
    touchPrice (bbo.set side price qty) side.opposite = touchPrice bbo side.opposite ∧
      touchQty (bbo.set side price qty) side.opposite = touchQty bbo side.opposite := by
  rcases hs with rfl | rfl <;> exact ⟨⟨rfl, rfl⟩, rfl, rfl⟩

theorem onMarketUpdate_touching {u : MEMarketUpdate} {m₁ : MarketOrderBook} {price : ℤ} {qty : ℕ}
    (hs : u.side.IsBuyOrSell) (ht : u.type ≠ .trade) (hup : m.sideUpdated u.side u = .ok true)
    (hm : m.mutate u = .ok m₁) (hbest : MarketOrderBook.bestOf m₁.book u.side = .ok (price, qty)) :
    m.onMarketUpdate u = .ok ({ m₁ with bbo := m₁.bbo.set u.side price qty },
      .onOrderBookUpdate u.tickerId u.price u.side) := by
  rw [MarketOrderBook.onMarketUpdate]
  rcases hs with hs | hs
  · have hask : m.sideUpdated .sell u = .ok false := by
      rw [MarketOrderBook.sideUpdated, if_neg (by simp [hs])]
      rfl
    rw [hs] at hup hbest ⊢
    rw [hup, ok_bind, hask, ok_bind, if_neg ht, hm, ok_bind, MarketOrderBook.updateBBO,
      MarketOrderBook.updateBid, if_pos rfl, hbest]
    rfl
  · have hbid : m.sideUpdated .buy u = .ok false := by
      rw [MarketOrderBook.sideUpdated, if_neg (by simp [hs])]
      rfl
    rw [hs] at hup hbest ⊢
    rw [hbid, ok_bind, hup, ok_bind, if_neg ht, hm, ok_bind, MarketOrderBook.updateBBO,
      MarketOrderBook.updateBid, if_neg (by simp), pure_ok, ok_bind, MarketOrderBook.updateAsk,
      if_pos rfl, hbest]
    rfl

theorem bestOf_none {b : BookStore ℕ} (h : b.head side = none) :
    MarketOrderBook.bestOf b side = .ok (priceInvalid, qtyInvalid) := by
  rw [MarketOrderBook.bestOf, h]
  rfl

theorem bestOf_some {b : BookStore ℕ} (h : b.head side = some c.level) (hat : c.At b side)
    (hlevel : b.LiveLevel c.level) (horder : b.LiveOrder c.order)
    (hcap : b.orderPool.numElems = meMaxOrderIds) :
    MarketOrderBook.bestOf b side = .ok (c.info.price, c.info.qty) := by
  obtain ⟨hl, ho, -⟩ := hat
  have hsum : MarketOrderBook.sumQty b c.order b.orderPool.numElems c.order c.info.qty =
      .ok c.info.qty := by
    have hn : b.orderPool.numElems = (meMaxOrderIds - 1) + 1 := hcap
    rw [hn, MarketOrderBook.sumQty, if_pos rfl]
    rfl
  simp only [MarketOrderBook.bestOf, h, BookStore.level_ok hlevel, ok_bind, hl,
    MarketOrderBook.levelQty, deref_some, BookStore.order_ok horder, ho, hsum, pure_ok]

section Tables

variable {T : ℕ → Option ℕ} {key val : Cell → ℕ}

theorem table_remove
    (h : ∀ i a, T i = some a ↔ ∃ d ∈ cells (some c) opp, val d = a ∧ key d = i)
    (hne : ∀ d ∈ opp, key c ≠ key d) (i a : ℕ) :
    (if i = key c then none else T i) = some a ↔
      ∃ d ∈ cells none opp, val d = a ∧ key d = i := by
  simp only [mem_cells, Option.not_mem_none, false_or]
  split_ifs with hi
  · simp only [false_iff, not_exists, not_and]
    intro d hd _ hdi
    exact hne d hd (hi.symm.trans hdi.symm)
  · rw [h]
    simp only [mem_cells, Option.mem_some_iff]
    constructor
    · rintro ⟨d, hd | hd, hda, hdi⟩
      · subst hd
        exact absurd hdi.symm hi
      · exact ⟨d, hd, hda, hdi⟩
    · rintro ⟨d, hd, hda, hdi⟩
      exact ⟨d, .inr hd, hda, hdi⟩

theorem table_insert (h : ∀ i a, T i = some a ↔ ∃ d ∈ cells none opp, val d = a ∧ key d = i)
    (hne : ∀ d ∈ opp, key c ≠ key d) (i a : ℕ) :
    (if i = key c then some (val c) else T i) = some a ↔
      ∃ d ∈ cells (some c) opp, val d = a ∧ key d = i := by
  simp only [mem_cells, Option.mem_some_iff]
  split_ifs with hi
  · constructor
    · intro ha
      exact ⟨c, .inl rfl, Option.some.inj ha, hi.symm⟩
    · rintro ⟨d, hd | hd, hda, hdi⟩
      · subst hd
        rw [hda]
      · exact absurd (hi.symm.trans hdi.symm) (hne d hd)
  · rw [h]
    simp only [mem_cells, Option.not_mem_none, false_or]
    constructor
    · rintro ⟨d, hd, hda, hdi⟩
      exact ⟨d, .inr hd, hda, hdi⟩
    · rintro ⟨d, hd | hd, hda, hdi⟩
      · subst hd
        exact absurd hdi.symm hi
      · exact ⟨d, hd, hda, hdi⟩

end Tables

section Cancel

def withdrawn (m : MarketOrderBook) (side : Side) (c : Cell) : MarketOrderBook :=
  let b := (m.book.setHead side none).setOrdersAtPrice c.info.price none
  { m.putOrder c.info.ids none with
    book := { b with
      ordersAtPricePool := b.ordersAtPricePool.put c.level ⟨b.levelAt c.level, true⟩
      orderPool := b.orderPool.put c.order ⟨b.orderAt c.order, true⟩ }
    bbo := m.bbo.set side priceInvalid qtyInvalid }

variable (h : TopBook m side (some c) opp)

include h

theorem TopBook.unlinkOrder :
    m.book.unlinkOrder c.order =
      let b := (m.book.setHead side none).setOrdersAtPrice c.info.price none
      .ok { b with ordersAtPricePool :=
        b.ordersAtPricePool.put c.level ⟨b.levelAt c.level, true⟩ } := by
  have hmem : c ∈ cells (some c) opp := mem_cells.mpr (.inl rfl)
  obtain ⟨hl, ho, hside⟩ := h.ownAt c rfl
  have hpool : (m.book.setHead side none).ordersAtPricePool.Holds
      (c.level :: opp.toList.map Cell.level) := by
    rw [BookStore.ordersAtPricePool_setHead]
    exact h.levelPool
  have hunlink : m.book.unlinkLevel side c.level = .ok (m.book.setHead side none) := by
    rw [BookStore.unlinkLevel, BookStore.level_ok (h.liveLevel hmem), ok_bind, if_pos (by rw [hl])]
    rfl
  rw [BookStore.unlinkOrder, BookStore.order_ok (h.liveOrder hmem), ok_bind, ho]
  rw [if_pos rfl, hside, BookStore.removeOrdersAtPrice, h.getOrdersAtPrice hmem, deref_some,
    ok_bind, hunlink, ok_bind]
  have hde := (MemPool.deallocate_ok hpool).1
  change ((m.book.setHead side none).ordersAtPricePool.deallocate c.level >>= _) = _
  rw [hde]
  rfl

theorem TopBook.mutate_cancel {u : MEMarketUpdate} (ht : u.type = .cancel)
    (hid : u.orderId = c.info.ids) :
    m.mutate u = .ok { withdrawn m side c with bbo := m.bbo } := by
  have hmem : c ∈ cells (some c) opp := mem_cells.mpr (.inl rfl)
  obtain ⟨-, ho, -⟩ := h.ownAt c rfl
  have hlive : m.book.LiveOrder c.order := h.liveOrder hmem
  have hpool : (m.book.setHead side none).orderPool.Holds
      (c.order :: opp.toList.map Cell.order) := by
    rw [BookStore.orderPool_setHead]
    exact h.orderPool
  have hde := (MemPool.deallocate_ok hpool).1
  rw [MarketOrderBook.mutate, ht]
  dsimp only
  rw [hid, h.findOrder hmem, ok_bind, MarketOrderBook.removeOrder, h.unlinkOrder, ok_bind]
  have hread : ({ (m.book.setHead side none).setOrdersAtPrice c.info.price none with
      ordersAtPricePool := ((m.book.setHead side none).setOrdersAtPrice c.info.price
        none).ordersAtPricePool.put c.level ⟨((m.book.setHead side none).setOrdersAtPrice
          c.info.price none).levelAt c.level, true⟩ } : BookStore ℕ).order c.order =
      .ok ⟨c.info, some c.order, some c.order⟩ := by
    change (m.book.setHead side none).orderPool.read c.order = _
    rw [BookStore.orderPool_setHead]
    exact (BookStore.order_ok hlive).trans (congrArg _ ho)
  rw [hread, ok_bind, MarketOrderBook.setOrder, require_of _ (h.idRange c hmem), ok_bind, pure_ok,
    ok_bind]
  change (BookStore.deallocateOrder _ c.order >>= _) = _
  rw [BookStore.deallocateOrder]
  change (((m.book.setHead side none).orderPool.deallocate c.order >>= _) >>= _) = _
  rw [hde]
  rfl

theorem TopBook.blocks_ne {d : Cell} (hd : d ∈ opp) : d.level ≠ c.level ∧ d.order ≠ c.order := by
  have hmem : d ∈ opp.toList := Option.mem_toList.mpr hd
  have hl := (List.nodup_cons.mp h.levelPool.nodup).1
  have ho := (List.nodup_cons.mp h.orderPool.nodup).1
  exact ⟨fun he => hl (he ▸ List.mem_map_of_mem hmem), fun he => ho (he ▸ List.mem_map_of_mem hmem)⟩

omit h in
theorem TopBook.ids_ne (h : TopBook m side own opp) : ∀ c ∈ own, ∀ d ∈ opp,
    c.info.ids ≠ d.info.ids := by
  intro c hc d hd heq
  subst hc
  have hcix := (h.ids _ _).mpr ⟨c, mem_cells.mpr (.inl rfl), rfl, rfl⟩
  have hdix := (h.ids _ _).mpr ⟨d, mem_cells.mpr (.inr hd), rfl, heq.symm⟩
  rw [hcix] at hdix
  exact (h.blocks_ne hd).2 (Option.some.inj hdix).symm

theorem TopBook.withdrawn (hids : ∀ d ∈ opp, c.info.ids ≠ d.info.ids) :
    TopBook (withdrawn m side c) side none opp := by
  have hs := h.isSide
  have hbook : (Trading.withdrawn m side c).book.head = (m.book.setHead side none).head := rfl
  have hlevels : (m.book.setHead side none).ordersAtPricePool.Holds
      (c.level :: opp.toList.map Cell.level) := by
    rw [BookStore.ordersAtPricePool_setHead]
    exact h.levelPool
  have horders : (m.book.setHead side none).orderPool.Holds
      (c.order :: opp.toList.map Cell.order) := by
    rw [BookStore.orderPool_setHead]
    exact h.orderPool
  have hlevelAt : ∀ a, a ≠ c.level →
      (Trading.withdrawn m side c).book.levelAt a = m.book.levelAt a := by
    intro a ha
    refine (congrArg ObjectBlock.object ((MemPool.store_put _ _ _ _).trans (if_neg ha))).trans ?_
    exact BookStore.levelAt_setHead _ _ _ _
  have horderAt : ∀ a, a ≠ c.order →
      (Trading.withdrawn m side c).book.orderAt a = m.book.orderAt a := by
    intro a ha
    refine (congrArg ObjectBlock.object ((MemPool.store_put _ _ _ _).trans (if_neg ha))).trans ?_
    exact BookStore.orderAt_setHead _ _ _ _
  obtain ⟨hown, hopp⟩ := touch_set m.bbo hs priceInvalid qtyInvalid
  refine ⟨hs, ?_, ?_, nofun, ?_, ?_, ?_, ?_, nofun, (MemPool.deallocate_ok hlevels).2,
    (MemPool.deallocate_ok horders).2, ?_, ?_, hown, ?_⟩
  · rw [hbook]
    exact BookStore.head_setHead_self _ _ _
  · rw [hbook, BookStore.head_setHead_opposite _ _ hs]
    exact h.oppHead
  · intro d hd
    obtain ⟨hl, ho⟩ := h.blocks_ne hd
    rw [Cell.At, hlevelAt _ hl, horderAt _ ho]
    exact h.oppAt d hd
  · intro i a
    have hix : (Trading.withdrawn m side c).book.priceOrdersAtPrice i =
        if i = priceToIndex c.info.price then none else m.book.priceOrdersAtPrice i := by
      change Function.update (m.book.setHead side none).priceOrdersAtPrice _ none i = _
      rw [Function.update_apply, BookStore.priceOrdersAtPrice_setHead]
    rw [hix]
    exact table_remove h.index (fun d hd => h.apart c rfl d hd) i a
  · intro i x
    have hix : (Trading.withdrawn m side c).oidToOrder i =
        if i = c.info.ids then none else m.oidToOrder i := rfl
    rw [hix]
    exact table_remove h.ids hids i x
  · intro d hd
    exact h.idRange d (mem_cells.mpr (.inr (mem_cells_none.mp hd)))
  · change (m.book.setHead side none).ordersAtPricePool.numElems = _
    rw [BookStore.ordersAtPricePool_setHead]
    exact h.levelCap
  · change (m.book.setHead side none).orderPool.numElems = _
    rw [BookStore.orderPool_setHead]
    exact h.orderCap
  · exact ⟨hopp.1.trans h.oppTouch.1, hopp.2.trans h.oppTouch.2⟩

theorem TopBook.cancel (hids : ∀ d ∈ opp, c.info.ids ≠ d.info.ids) {u : MEMarketUpdate}
    (ht : u.type = .cancel) (hid : u.orderId = c.info.ids) (hside : u.side = side)
    (hprice : u.price = c.info.price) :
    Names m u ∧ ∃ m' call, m.onMarketUpdate u = .ok (m', call) ∧ TopBook m' side none opp := by
  have hmem : c ∈ cells (some c) opp := mem_cells.mpr (.inl rfl)
  obtain ⟨hl, ho, hcs⟩ := h.ownAt c rfl
  subst hside
  refine ⟨⟨c.order, ⟨c.info, some c.order, some c.order⟩, ?_, ?_, hid.symm, hcs, hprice.symm⟩, ?_⟩
  · rw [hid]
    exact (h.ids _ _).mpr ⟨c, hmem, rfl, rfl⟩
  · exact (BookStore.order_ok (h.liveOrder hmem)).trans (congrArg _ ho)
  · have hup : m.sideUpdated u.side u = .ok true := by
      rw [MarketOrderBook.sideUpdated, if_pos rfl, h.ownHead]
      simp only [Option.map_some, BookStore.level_ok (h.liveLevel hmem), ok_bind, hl]
      rw [MarketOrderBook.reachesBest, hprice]
      split_ifs <;> simp
    have hw := h.withdrawn hids
    exact ⟨_, _, onMarketUpdate_touching h.isSide (by simp [ht]) hup (h.mutate_cancel ht hid)
      (bestOf_none hw.ownHead), hw⟩

end Cancel

section Add

variable (h : TopBook m side none opp)

include h

theorem TopBook.nextOrder_ne {d : Cell} (hd : d ∈ opp) :
    d.order ≠ m.book.orderPool.nextFreeIndex ∧
      d.level ≠ m.book.ordersAtPricePool.nextFreeIndex := by
  have hmem : d ∈ cells none opp := mem_cells.mpr (.inr hd)
  exact ⟨fun he => h.orderPool.next_notMem (he ▸ List.mem_map_of_mem hmem),
    fun he => h.levelPool.next_notMem (he ▸ List.mem_map_of_mem hmem)⟩

omit h in
theorem length_cells (own opp : Option Cell) : (cells own opp).length ≤ 2 := by
  cases own <;> cases opp <;> simp [cells]

theorem TopBook.linkOrder (info : MarketOrder) (hside : info.side = side)
    (hfree : ∀ d ∈ opp, priceToIndex info.price ≠ priceToIndex d.info.price) :
    ∃ b b', m.book.allocateOrder info = .ok (m.book.orderPool.nextFreeIndex, b) ∧
      b.linkOrder m.book.orderPool.nextFreeIndex = .ok b' ∧
      (∀ a, a ≠ m.book.orderPool.nextFreeIndex → b'.orderAt a = m.book.orderAt a) ∧
      (∀ a, a ≠ m.book.ordersAtPricePool.nextFreeIndex → b'.levelAt a = m.book.levelAt a) ∧
      Cell.At b' side ⟨m.book.orderPool.nextFreeIndex, m.book.ordersAtPricePool.nextFreeIndex,
        info⟩ ∧
      b'.head side = some m.book.ordersAtPricePool.nextFreeIndex ∧
      b'.head side.opposite = m.book.head side.opposite ∧
      b'.priceOrdersAtPrice = Function.update m.book.priceOrdersAtPrice (priceToIndex info.price)
        (some m.book.ordersAtPricePool.nextFreeIndex) ∧
      b'.orderPool.Holds (m.book.orderPool.nextFreeIndex :: (cells none opp).map Cell.order) ∧
      b'.ordersAtPricePool.Holds
        (m.book.ordersAtPricePool.nextFreeIndex :: (cells none opp).map Cell.level) ∧
      b'.orderPool.numElems = m.book.orderPool.numElems ∧
      b'.ordersAtPricePool.numElems = m.book.ordersAtPricePool.numElems := by
  set x := m.book.orderPool.nextFreeIndex with hx
  set l := m.book.ordersAtPricePool.nextFreeIndex with hl
  have hlen := length_cells none opp
  have hN : meMaxOrderIds = 1048576 := rfl
  have hM : meMaxPriceLevels = 131072 := rfl
  obtain ⟨pool, hal, hholds, hstore, hnum, -⟩ := MemPool.allocate_ok h.orderPool
    (by rw [h.orderCap, List.length_map]; omega) ⟨info, none, none⟩
  obtain ⟨lpool, hlal, hlholds, hlstore, hlnum, -⟩ := MemPool.allocate_ok h.levelPool
    (by rw [h.levelCap, List.length_map]; omega) ⟨info.side, info.price, some x, none, none⟩
  set b : BookStore ℕ := { m.book with orderPool := pool } with hb
  have hlive : b.LiveOrder x := hholds.live (List.mem_cons_self ..)
  have hbx : b.orderAt x = ⟨info, none, none⟩ := by
    simp [BookStore.orderAt, hb, hstore, ← hx]
  set k := (b.putPrevOrder x (some x)).putNextOrder x (some x) with hk
  set d : BookStore ℕ := { k with ordersAtPricePool := lpool } with hd
  have hkx : k.orderAt x = ⟨info, some x, some x⟩ := by
    simp [hk, BookStore.putPrevOrder, BookStore.putNextOrder, BookStore.orderAt_modOrder, hbx]
  have hkne : ∀ a, a ≠ x → k.orderAt a = m.book.orderAt a := by
    intro a ha
    have hba : b.orderAt a = m.book.orderAt a := by
      refine congrArg ObjectBlock.object ?_
      rw [hb, hstore]
      exact (MemPool.store_put _ _ _ _).trans (if_neg ha)
    simp [hk, BookStore.putPrevOrder, BookStore.putNextOrder, BookStore.orderAt_modOrder, ha, hba]
  have hdl : d.levelAt l = ⟨side, info.price, some x, none, none⟩ := by
    rw [← hside]
    simp [BookStore.levelAt, hd, hlstore, ← hl]
  have hdne : ∀ a, a ≠ l → d.levelAt a = m.book.levelAt a := by
    intro a ha
    refine congrArg ObjectBlock.object ?_
    rw [hd, hlstore]
    exact (MemPool.store_put _ _ _ _).trans (if_neg ha)
  have hlevel : d.LiveLevel l := hlholds.live (List.mem_cons_self ..)
  have hhead : d.head (d.levelAt l).side = none := by
    rw [hdl]
    exact h.ownHead
  have hnone : b.getOrdersAtPrice info.price = none := by
    refine h.getOrdersAtPrice_none fun e he => ?_
    exact (hfree e (mem_cells_none.mp he)).symm
  have hlink : b.linkOrder x = d.addOrdersAtPrice l := by
    rw [BookStore.linkOrder, BookStore.order_ok hlive, ok_bind, hbx, hnone]
    simp only [BookStore.setPrevOrder_ok _ hlive, ok_bind]
    rw [BookStore.setNextOrder_ok _ (by simpa using hlive), ok_bind, ← hk,
      show k.ordersAtPricePool = m.book.ordersAtPricePool from rfl, hlal, ok_bind]
  refine ⟨b, _, by rw [BookStore.allocateOrder, hal]; rfl,
    hlink.trans (BookStore.addOrdersAtPrice_empty hlevel hhead), ?_⟩
  rw [hdl]
  set b' := (((d.setOrdersAtPrice info.price (some l)).setHead side (some l)).putNextEntry l
    (some l)).putPrevEntry l (some l) with hb'
  have hlev : ∀ a, b'.levelAt a =
      if a = l then ⟨side, info.price, some x, some l, some l⟩ else d.levelAt a := by
    intro a
    by_cases ha : a = l
    · subst ha
      simp [hb', BookStore.putPrevEntry, BookStore.putNextEntry, BookStore.levelAt_modLevel, hdl]
    · simp [hb', BookStore.putPrevEntry, BookStore.putNextEntry, BookStore.levelAt_modLevel, ha]
  have hopool : b'.orderPool = k.orderPool := by
    change ((d.setOrdersAtPrice info.price (some l)).setHead side _).orderPool = _
    rw [BookStore.orderPool_setHead]
    rfl
  have hord : ∀ a, b'.orderAt a = k.orderAt a := by
    intro a
    rw [BookStore.orderAt, hopool]
    rfl
  refine ⟨?_, ?_, ⟨?_, ?_, hside⟩, ?_, ?_, ?_, ?_, ?_, ?_, ?_⟩
  · intro a ha
    rw [hord, hkne a ha]
  · intro a ha
    rw [hlev, if_neg ha, hdne a ha]
  · rw [hlev, if_pos rfl]
  · rw [hord, hkx]
  · exact BookStore.head_setHead_self _ _ _
  · exact BookStore.head_setHead_opposite _ _ h.isSide
  · change ((d.setOrdersAtPrice info.price (some l)).setHead side _).priceOrdersAtPrice = _
    rw [BookStore.priceOrdersAtPrice_setHead]
    rfl
  · rw [hopool, hk, BookStore.holds_putNextOrder, BookStore.holds_putPrevOrder]
    exact hholds
  · rw [hb', BookStore.holds_putPrevEntry, BookStore.holds_putNextEntry,
      BookStore.ordersAtPricePool_setHead]
    exact hlholds
  · rw [hopool]
    exact hnum
  · change ((d.setOrdersAtPrice info.price (some l)).setHead side _).ordersAtPricePool.numElems = _
    rw [BookStore.ordersAtPricePool_setHead]
    exact hlnum

theorem TopBook.add {u : MEMarketUpdate} (ht : u.type = .add) (hside : u.side = side)
    (hid : u.orderId < meMaxOrderIds) (hids : ∀ d ∈ opp, u.orderId ≠ d.info.ids)
    (hfree : ∀ d ∈ opp, priceToIndex u.price ≠ priceToIndex d.info.price) :
    m.book.getOrdersAtPrice u.price = none ∧
      ∃ m' call c, m.onMarketUpdate u = .ok (m', call) ∧ TopBook m' side (some c) opp ∧
        c.info = marketOrder u := by
  subst hside
  obtain ⟨b, b', hal, hlink, hord, hlev, hat, hhead, hopp, hidx, hpool, hlpool, hcap, hlcap⟩ :=
    h.linkOrder (marketOrder u) rfl hfree
  refine ⟨h.getOrdersAtPrice_none fun e he =>
    (hfree e (mem_cells_none.mp he)).symm, ?_⟩
  set x := m.book.orderPool.nextFreeIndex with hx
  set l := m.book.ordersAtPricePool.nextFreeIndex with hl
  set c : Cell := ⟨x, l, marketOrder u⟩ with hc
  have hlive : b'.LiveOrder x := hpool.live (List.mem_cons_self ..)
  have hlevel : b'.LiveLevel l := hlpool.live (List.mem_cons_self ..)
  have hmut : m.mutate u = .ok ({ m with book := b' }.putOrder u.orderId (some x)) := by
    rw [MarketOrderBook.mutate, ht]
    change (m.book.allocateOrder (marketOrder u) >>= _) = _
    rw [hal, ok_bind]
    change (b.linkOrder x >>= _) = _
    rw [hlink, ok_bind, BookStore.order_ok hlive, ok_bind, hat.2.1]
    change MarketOrderBook.setOrder _ u.orderId (some x) = _
    rw [MarketOrderBook.setOrder, require_of _ hid]
    rfl
  have hup : m.sideUpdated u.side u = .ok true := by
    rw [MarketOrderBook.sideUpdated, if_pos rfl, h.ownHead]
    rfl
  have hbest : MarketOrderBook.bestOf b' u.side = .ok (u.price, u.qty) :=
    bestOf_some (c := c) hhead hat hlevel hlive (hcap.trans h.orderCap)
  obtain ⟨hown, htouch⟩ := touch_set m.bbo h.isSide u.price u.qty
  refine ⟨_, _, c, onMarketUpdate_touching h.isSide (by simp [ht]) hup hmut hbest, ?_, rfl⟩
  refine ⟨h.isSide, hhead, hopp.trans h.oppHead, ?_, ?_, ?_, ?_, ?_, ?_, hlpool, hpool,
    hlcap.trans h.levelCap, hcap.trans h.orderCap, hown, ?_⟩
  · rintro d ⟨⟩
    exact hat
  · intro d hd
    obtain ⟨ho, hl'⟩ := h.nextOrder_ne hd
    have hd' := h.oppAt d hd
    rw [Cell.At, ← hlev _ hl', ← hord _ ho] at hd'
    exact hd'
  · intro i a
    have hix : b'.priceOrdersAtPrice i =
        if i = priceToIndex c.info.price then some c.level else m.book.priceOrdersAtPrice i := by
      rw [hidx, Function.update_apply]
    change b'.priceOrdersAtPrice i = some a ↔ _
    rw [hix]
    exact table_insert h.index hfree i a
  · exact table_insert (c := c) h.ids hids
  · intro d hd
    rcases mem_cells.mp hd with hd | hd
    · cases hd
      exact hid
    · exact h.idRange d (mem_cells.mpr (.inr hd))
  · rintro d ⟨⟩ e he
    exact hfree e he
  · exact ⟨htouch.1.trans h.oppTouch.1, htouch.2.trans h.oppTouch.2⟩

end Add

section Decode

open CircularList

def Cell.levels (c : Option Cell) : List (Level ℤ MarketOrder) :=
  c.toList.map fun x => ⟨x.info.price, [x.info]⟩

theorem walk_self {nxt : ℕ → Option ℕ} {x n : ℕ} (h : nxt x = some x) (hn : 0 < n) :
    walk nxt x n x = some [x] := by
  obtain ⟨k, rfl⟩ := Nat.exists_eq_succ_of_ne_zero hn.ne'
  simp [walk, h]

theorem TopBook.decodeSide (h : TopBook m side own opp) :
    m.book.decodeSide side = some (Cell.levels own) := by
  have hhead := h.ownHead
  have hN : meMaxOrderIds = 1048576 := rfl
  have hM : meMaxPriceLevels = 131072 := rfl
  cases own with
  | none =>
    rw [BookStore.decodeSide, hhead]
    rfl
  | some c =>
    obtain ⟨hl, ho, -⟩ := h.ownAt c rfl
    have hlevels : walk (fun a => (m.book.levelAt a).nextEntry) c.level
        m.book.ordersAtPricePool.numElems c.level = some [c.level] :=
      walk_self (by rw [hl]) (by rw [h.levelCap, hM]; omega)
    have horders : walk (fun a => (m.book.orderAt a).nextOrder) c.order
        m.book.orderPool.numElems c.order = some [c.order] :=
      walk_self (by rw [ho]) (by rw [h.orderCap, hN]; omega)
    simp only [BookStore.decodeSide, hhead, Option.map_some, hlevels, Option.bind_eq_bind,
      Option.bind_some, BookStore.decodeLevels, BookStore.decodeLevel, hl, horders, List.map_cons,
      List.map_nil, ho]
    rfl

theorem TopBook.decode (h : TopBook m .buy own opp) :
    m.book.decode = some ⟨Cell.levels own, Cell.levels opp⟩ := by
  have ha : m.book.decodeSide .sell = _ := h.swap.decodeSide
  simp only [BookStore.decode, h.decodeSide, ha, Option.bind_eq_bind, Option.bind_some]

end Decode

end Trading
