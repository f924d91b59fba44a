import TradingEcosystem.Common.BookDecode
import TradingEcosystem.Trading.MarketOrderBook

namespace Trading

open Common Exchange CircularList

def marketOrder (u : MEMarketUpdate) : MarketOrder :=
  ⟨u.orderId, u.side, u.price, u.qty, u.priority⟩

def applyUpdate (s : Ladders MarketOrder) (u : MEMarketUpdate) : Ladders MarketOrder :=
  match u.type with
  | .add => s.rest (marketOrder u)
  | .modify => s.amend id u.side u.orderId u.qty
  | .cancel => s.drop id u.side u.orderId
  | .clear => ⟨[], []⟩
  | _ => s

def Refers (s : Ladders MarketOrder) (u : MEMarketUpdate) : Prop :=
  ∃ o ∈ s.entries, o.ids = u.orderId ∧ o.side = u.side ∧ o.price = u.price

instance (s : Ladders MarketOrder) (u : MEMarketUpdate) : Decidable (Refers s u) :=
  inferInstanceAs (Decidable (∃ o ∈ s.entries, _))

structure Addable (s : Ladders MarketOrder) (u : MEMarketUpdate) : Prop where
  side : u.side.IsBuyOrSell
  price : PriceInRange u.price
  id_lt : u.orderId < meMaxOrderIds
  qty_lt : u.qty < 2 ^ 32
  fresh : ∀ o ∈ s.entries, o.ids ≠ u.orderId
  free : u.price ∉ (s.side u.side.opposite).map Level.price
  room : s.entries.length + 1 < meMaxOrderIds

instance (s : Ladders MarketOrder) (u : MEMarketUpdate) : Decidable (Addable s u) :=
  decidable_of_iff (u.side.IsBuyOrSell ∧ PriceInRange u.price ∧ u.orderId < meMaxOrderIds ∧
      u.qty < 2 ^ 32 ∧ (∀ o ∈ s.entries, o.ids ≠ u.orderId) ∧
      u.price ∉ (s.side u.side.opposite).map Level.price ∧ s.entries.length + 1 < meMaxOrderIds)
    ⟨fun ⟨a, b, c, d, e, f, g⟩ => ⟨a, b, c, d, e, f, g⟩,
      fun ⟨a, b, c, d, e, f, g⟩ => ⟨a, b, c, d, e, f, g⟩⟩

/-- What the book relies on to process `u` in the state `s`: an ADD brings a new order at a price
the other side does not hold, MODIFY and CANCEL name a resting order, CLEAR finds nothing to clear. -/
def Applicable (s : Ladders MarketOrder) (u : MEMarketUpdate) : Prop :=
  match u.type with
  | .add => Addable s u
  | .modify => Refers s u ∧ u.qty < 2 ^ 32
  | .cancel => Refers s u
  | .clear => s = ⟨[], []⟩
  | _ => True

instance (s : Ladders MarketOrder) (u : MEMarketUpdate) : Decidable (Applicable s u) := by
  unfold Applicable
  split <;> infer_instance

def bestLevel : List (Level ℤ MarketOrder) → ℤ × ℕ
  | [] => (priceInvalid, qtyInvalid)
  | L :: _ => (L.price, (L.orders.map OrderInfo.qty).sum % 2 ^ 32)

def bboOf (s : Ladders MarketOrder) : BBO :=
  ⟨(bestLevel s.bids).1, (bestLevel s.asks).1, (bestLevel s.bids).2, (bestLevel s.asks).2⟩

structure Linked (m : MarketOrderBook) (a : Ladders (ℕ × MarketOrder)) : Prop where
  stores : m.book.Stores a []
  index : ∀ i x, m.oidToOrder i = some x ↔ ∃ e ∈ a.entries, e.1 = x ∧ e.2.ids = i
  ids : ∀ e ∈ a.entries, e.2.ids < meMaxOrderIds
  qtys : ∀ e ∈ a.entries, e.2.qty < 2 ^ 32

variable {m : MarketOrderBook} {a : Ladders (ℕ × MarketOrder)} {side : Side} {u : MEMarketUpdate}

theorem Linked.eq_of_id (h : Linked m a) {e f : ℕ × MarketOrder} (he : e ∈ a.entries)
    (hf : f ∈ a.entries) (hid : e.2.ids = f.2.ids) : e = f := by
  have h1 := (h.index e.2.ids e.1).mpr ⟨e, he, rfl, rfl⟩
  have h2 := (h.index e.2.ids f.1).mpr ⟨f, hf, rfl, hid.symm⟩
  rw [h1] at h2
  exact h.stores.addr_inj he hf (Option.some.inj h2)

theorem Linked.find (h : Linked m a) {s : Ladders MarketOrder} (hs : s = a.mapOrders Prod.snd)
    (hu : Refers s u) :
    ∃ e ∈ Ladder.entries (a.side u.side), e.2.ids = u.orderId ∧ e.2.price = u.price ∧
      u.side.IsBuyOrSell ∧ m.findOrder u.orderId = .ok e.1 := by
  obtain ⟨o, ho, hid, hside, hprice⟩ := hu
  rw [hs, Ladders.entries_mapOrders] at ho
  obtain ⟨e, he, rfl⟩ := List.mem_map.mp ho
  obtain ⟨hbs, -, hmem, -⟩ := h.stores.order he
  rw [hside] at hbs hmem
  refine ⟨e, hmem, hid, hprice, hbs, ?_⟩
  have hlt : u.orderId < meMaxOrderIds := hid ▸ h.ids e he
  have hix := (h.index u.orderId e.1).mpr ⟨e, he, rfl, hid⟩
  simp [MarketOrderBook.findOrder, require_of _ hlt, hix]

theorem Linked.removeOrder (h : Linked m a) (hs : side.IsBuyOrSell) {e : ℕ × MarketOrder}
    (he : e ∈ Ladder.entries (a.side side)) :
    ∃ m', m.removeOrder e.1 = .ok m' ∧ m'.bbo = m.bbo ∧
      Linked m' (a.setSide side (Ladder.remove (fun x => decide (x.2.ids = e.2.ids))
        (a.side side))) := by
  have hmem : e ∈ a.entries := (a.mem_entries_side hs).mpr (.inl he)
  have hlt := h.ids e hmem
  have hcongr : Ladder.remove (fun x => decide (x.2.ids = e.2.ids)) (a.side side) =
      Ladder.remove (fun x => decide (x.1 = e.1)) (a.side side) := by
    refine Ladder.remove_congr fun x hx => decide_eq_decide.mpr ?_
    have hxm := (a.mem_entries_side hs).mpr (.inl hx)
    exact ⟨fun hid => by rw [h.eq_of_id hxm hmem hid],
      fun ha => by rw [h.stores.addr_inj hxm hmem ha]⟩
  have hsub := h.stores.mem_entries_remove hs he
  obtain ⟨book, hun, hinfo, hst⟩ := h.stores.unlinkOrder hs he
  obtain ⟨book', hde, hst'⟩ := hst.deallocateOrder
  have hids : (book.orderAt e.1).ids = e.2.ids := congrArg OrderInfo.ids hinfo
  have hset : ({ m with book := book } : MarketOrderBook).setOrder e.2.ids none =
      .ok ({ m with book := book }.putOrder e.2.ids none) := by
    simp [MarketOrderBook.setOrder, require_of _ hlt]
  rw [hcongr]
  refine ⟨{ m.putOrder e.2.ids none with book := book' }, ?_, rfl, hst', ?_, ?_, ?_⟩
  · rw [MarketOrderBook.removeOrder, hun, ok_bind, BookStore.order_ok hst.liveLoose, ok_bind, hids,
      hset, ok_bind]
    change (book.deallocateOrder e.1 >>= _) = _
    rw [hde, ok_bind]
    rfl
  · intro i x
    simp only [MarketOrderBook.putOrder]
    split_ifs with hi
    · simp only [false_iff, not_exists, not_and]
      intro f hf _ hfi
      exact ((hsub f).mp hf).2 (by rw [h.eq_of_id ((hsub f).mp hf).1 hmem (hfi.trans hi)])
    · rw [h.index]
      constructor
      · rintro ⟨f, hf, hfx, hfi⟩
        refine ⟨f, (hsub f).mpr ⟨hf, fun hfe => hi ?_⟩, hfx, hfi⟩
        rw [← hfi, h.stores.addr_inj hf hmem hfe]
      · rintro ⟨f, hf, hfx, hfi⟩
        exact ⟨f, ((hsub f).mp hf).1, hfx, hfi⟩
  · exact fun f hf => h.ids f ((hsub f).mp hf).1
  · exact fun f hf => h.qtys f ((hsub f).mp hf).1

theorem Linked.addOrder {x : ℕ} {o : MarketOrder} (hst : m.book.Stores a [x]) (h : ∀ i y,
      m.oidToOrder i = some y ↔ ∃ e ∈ a.entries, e.1 = y ∧ e.2.ids = i)
    (hids : ∀ e ∈ a.entries, e.2.ids < meMaxOrderIds) (hqtys : ∀ e ∈ a.entries, e.2.qty < 2 ^ 32)
    (hinfo : (m.book.orderAt x).toOrderInfo = o) (hs : o.side.IsBuyOrSell)
    (hin : PriceInRange o.price) (hlt : o.ids < meMaxOrderIds) (hq : o.qty < 2 ^ 32)
    (hfresh : ∀ e ∈ a.entries, e.2.ids ≠ o.ids)
    (hopp : o.price ∉ (a.side o.side.opposite).map Level.price) :
    ∃ m', m.addOrder x = .ok m' ∧ m'.bbo = m.bbo ∧
      Linked m' (a.setSide o.side
        (Ladder.insert (better o.side) o.price (x, o) (a.side o.side))) := by
  obtain ⟨book, hlink, hst'⟩ := hst.linkOrder hinfo hs hin hopp
  have hmem : ∀ e, e ∈ (a.setSide o.side (Ladder.insert (better o.side) o.price (x, o)
      (a.side o.side))).entries ↔ e = (x, o) ∨ e ∈ a.entries := by
    intro e
    rw [Ladders.mem_entries_side _ hs, Ladders.side_setSide, Ladders.side_setSide_opposite _ hs,
      Ladder.mem_entries_insert, a.mem_entries_side hs, or_assoc]
  obtain ⟨-, -, -, o', ho', hinfo'⟩ := hst'.order ((hmem (x, o)).mpr (.inl rfl))
  have hoid : o'.ids = o.ids := congrArg OrderInfo.ids hinfo'
  refine ⟨{ m with book := book }.putOrder o.ids (some x), ?_, rfl, hst', ?_, ?_, ?_⟩
  · rw [MarketOrderBook.addOrder, hlink, ok_bind, ho', ok_bind, hoid, MarketOrderBook.setOrder,
      require_of _ hlt]
    rfl
  · intro i y
    simp only [MarketOrderBook.putOrder, hmem, or_and_right, exists_or, exists_eq_left]
    split_ifs with hi
    · subst hi
      constructor
      · exact fun he => .inl ⟨Option.some.inj he, rfl⟩
      · rintro (⟨rfl, -⟩ | ⟨e, he, -, hid⟩)
        · rfl
        · exact absurd hid (hfresh e he)
    · rw [h]
      constructor
      · exact fun he => .inr he
      · rintro (⟨-, hid⟩ | he)
        · exact absurd hid.symm hi
        · exact he
  · intro e he
    rcases (hmem e).mp he with rfl | he
    · exact hlt
    · exact hids e he
  · intro e he
    rcases (hmem e).mp he with rfl | he
    · exact hq
    · exact hqtys e he

theorem Linked.setQty (h : Linked m a) (hs : side.IsBuyOrSell) {e : ℕ × MarketOrder}
    (he : e ∈ Ladder.entries (a.side side)) {qty : ℕ} (hq : qty < 2 ^ 32) :
    ∃ book, m.book.setQty e.1 qty = .ok book ∧ Linked { m with book := book }
      (a.setSide side (Ladder.update (fun x => decide (x.2.ids = e.2.ids))
        (fun x => (x.1, x.2.withQty qty)) (a.side side))) := by
  have hmem : e ∈ a.entries := (a.mem_entries_side hs).mpr (.inl he)
  have hcongr : Ladder.update (fun x => decide (x.2.ids = e.2.ids))
      (fun x => (x.1, x.2.withQty qty)) (a.side side) =
      Ladder.update (fun x => decide (x.1 = e.1))
        (fun x => (x.1, x.2.withQty qty)) (a.side side) := by
    refine Ladder.mapOrders_congr fun x hx => ?_
    have hxm := (a.mem_entries_side hs).mpr (.inl hx)
    have : x.2.ids = e.2.ids ↔ x.1 = e.1 :=
      ⟨fun hid => by rw [h.eq_of_id hxm hmem hid], fun ha => by rw [h.stores.addr_inj hxm hmem ha]⟩
    simp only [this]
  obtain ⟨book, hset, hst⟩ := h.stores.setQty hs he qty
  rw [hcongr]
  have hsub : ∀ f, f ∈ (a.setSide side (Ladder.update (fun x => decide (x.1 = e.1))
      (fun x => (x.1, x.2.withQty qty)) (a.side side))).entries ↔
      ∃ g ∈ a.entries, f = if g.1 = e.1 then (g.1, g.2.withQty qty) else g := by
    intro f
    rw [Ladders.mem_entries_side _ hs, Ladders.side_setSide, Ladders.side_setSide_opposite _ hs,
      Ladder.entries_update, List.mem_map]
    constructor
    · rintro (⟨g, hg, rfl⟩ | hf)
      · exact ⟨g, (a.mem_entries_side hs).mpr (.inl hg), by simp⟩
      · refine ⟨f, (a.mem_entries_side hs).mpr (.inr hf), ?_⟩
        rw [if_neg]
        have hrm := (h.stores.mem_entries_remove hs he f).mp (by
          rw [Ladders.mem_entries_side _ hs, Ladders.side_setSide_opposite _ hs]
          exact .inr hf)
        exact hrm.2
    · rintro ⟨g, hg, rfl⟩
      rcases (a.mem_entries_side hs).mp hg with hg | hg
      · exact .inl ⟨g, hg, by simp⟩
      · refine .inr ?_
        rw [if_neg]
        · exact hg
        · have hrm := (h.stores.mem_entries_remove hs he g).mp (by
            rw [Ladders.mem_entries_side _ hs, Ladders.side_setSide_opposite _ hs]
            exact .inr hg)
          exact hrm.2
  refine ⟨book, hset, hst, ?_, ?_, ?_⟩
  · intro i x
    rw [h.index]
    constructor
    · rintro ⟨g, hg, rfl, rfl⟩
      refine ⟨_, (hsub _).mpr ⟨g, hg, rfl⟩, ?_⟩
      split_ifs <;> exact ⟨rfl, rfl⟩
    · rintro ⟨f, hf, rfl, rfl⟩
      obtain ⟨g, hg, rfl⟩ := (hsub f).mp hf
      refine ⟨g, hg, ?_⟩
      split_ifs <;> exact ⟨rfl, rfl⟩
  · intro f hf
    obtain ⟨g, hg, rfl⟩ := (hsub f).mp hf
    split_ifs <;> exact h.ids g hg
  · intro f hf
    obtain ⟨g, hg, rfl⟩ := (hsub f).mp hf
    split_ifs
    · exact hq
    · exact h.qtys g hg

theorem Linked.deallocateOrders (oidToOrder : ℕ → Option ℕ) (h : ∀ i, oidToOrder i = none)
    (b : BookStore ℕ) (n : ℕ) : MarketOrderBook.deallocateOrders oidToOrder n b = .ok b := by
  induction n with
  | zero => rfl
  | succ n ih => simp [MarketOrderBook.deallocateOrders, ih, h]

theorem Linked.clear (h : Linked m ⟨[], []⟩) :
    ∃ m', m.clear = .ok m' ∧ m'.bbo = m.bbo ∧ Linked m' ⟨[], []⟩ := by
  have hindex : ∀ i, m.oidToOrder i = none := by
    intro i
    cases hi : m.oidToOrder i with
    | none => rfl
    | some x =>
      obtain ⟨e, he, -⟩ := (h.index i x).mp hi
      exact absurd he (by simp [Ladders.entries])
  have hb : m.book.bidsByPrice = none := h.stores.head_nil (.inl rfl) rfl
  have ha : m.book.asksByPrice = none := h.stores.head_nil (.inr rfl) rfl
  have hside : ∀ side, MarketOrderBook.clearSide m.book side = .ok m.book := by
    intro side
    have hh : m.book.head side = none := by
      unfold BookStore.head
      split_ifs
      · exact hb
      · exact ha
    simp [MarketOrderBook.clearSide, hh]
  refine ⟨m, ?_, rfl, h⟩
  rw [MarketOrderBook.clear, Linked.deallocateOrders _ hindex, ok_bind, hside, ok_bind, hside,
    ok_bind]
  obtain ⟨tickerId, ⟨levels, orders, bids, asks, slots⟩, oidToOrder, bbo⟩ := m
  simp only at hb ha
  subst hb ha
  obtain rfl : oidToOrder = fun _ => none := funext hindex
  rfl

theorem Linked.mutate (h : Linked m a) {s : Ladders MarketOrder} (hs : s = a.mapOrders Prod.snd)
    (hu : Applicable s u) :
    ∃ m' a', m.mutate u = .ok m' ∧ m'.bbo = m.bbo ∧ Linked m' a' ∧
      applyUpdate s u = a'.mapOrders Prod.snd := by
  unfold Applicable at hu
  unfold applyUpdate MarketOrderBook.mutate
  cases ht : u.type with
  | add =>
    simp only [ht] at hu ⊢
    have hlen : a.entries.length + 1 < meMaxOrderIds := by
      have := hu.room
      rwa [hs, Ladders.entries_mapOrders, List.length_map] at this
    obtain ⟨x, book, hal, hst, hinfo⟩ := h.stores.allocateOrder hlen (marketOrder u)
    have hfresh : ∀ e ∈ a.entries, e.2.ids ≠ (marketOrder u).ids := by
      intro e he
      refine hu.fresh e.2 ?_
      rw [hs, Ladders.entries_mapOrders]
      exact List.mem_map_of_mem he
    have hfree : (marketOrder u).price ∉
        (a.side (marketOrder u).side.opposite).map Level.price := by
      have := hu.free
      rwa [hs, Ladders.side_mapOrders, Ladder.map_price_mapOrders] at this
    obtain ⟨m', hadd, hbbo, hl⟩ := Linked.addOrder (m := { m with book := book }) hst h.index h.ids
      h.qtys hinfo hu.side hu.price hu.id_lt hu.qty_lt hfresh hfree
    refine ⟨m', _, ?_, hbbo, hl, ?_⟩
    · change (m.book.allocateOrder (marketOrder u) >>= _) = _
      rw [hal, ok_bind]
      exact hadd
    · rw [Ladders.mapOrders_setSide, ← Ladder.insert_mapOrders, ← Ladders.side_mapOrders, ← hs]
      rfl
  | modify =>
    simp only [ht] at hu ⊢
    obtain ⟨e, he, hid, -, hbs, hfind⟩ := h.find hs hu.1
    obtain ⟨book, hset, hl⟩ := h.setQty hbs he hu.2
    refine ⟨{ m with book := book }, _, by rw [hfind, ok_bind, hset]; rfl, rfl, hl, ?_⟩
    rw [Ladders.mapOrders_setSide, hid,
      ← Ladder.update_mapOrders (q := fun o : MarketOrder => decide (o.ids = u.orderId))
        (f := fun o : MarketOrder => o.withQty u.qty) Prod.snd
        (fun x : ℕ × MarketOrder => (x.1, x.2.withQty u.qty)) (fun _ => rfl),
      ← Ladders.side_mapOrders, ← hs]
    rfl
  | cancel =>
    simp only [ht] at hu ⊢
    obtain ⟨e, he, hid, -, hbs, hfind⟩ := h.find hs hu
    obtain ⟨m', hrm, hbbo, hl⟩ := h.removeOrder hbs he
    refine ⟨m', _, by rw [hfind, ok_bind, hrm], hbbo, hl, ?_⟩
    rw [Ladders.mapOrders_setSide, hid,
      ← Ladder.remove_mapOrders (q := fun o : MarketOrder => decide (o.ids = u.orderId)) Prod.snd,
      ← Ladders.side_mapOrders, ← hs]
    rfl
  | clear =>
    simp only [ht] at hu ⊢
    have ha : a = ⟨[], []⟩ := by
      rw [hs] at hu
      obtain ⟨bids, asks⟩ := a
      simpa [Ladders.mapOrders, Ladder.mapOrders] using hu
    subst ha
    obtain ⟨m', hcl, hbbo, hl⟩ := h.clear
    exact ⟨m', _, hcl, hbbo, hl, rfl⟩
  | invalid => exact ⟨m, a, rfl, rfl, h, hs⟩
  | trade => exact ⟨m, a, rfl, rfl, h, hs⟩
  | snapshotStart => exact ⟨m, a, rfl, rfl, h, hs⟩
  | snapshotEnd => exact ⟨m, a, rfl, rfl, h, hs⟩
  | unknown raw => exact ⟨m, a, rfl, rfl, h, hs⟩

theorem sumQty_path (b : BookStore ℕ) {nxt prv : ℕ → Option ℕ} (first : ℕ)
    (hnext : ∀ x, (b.orderAt x).nextOrder = nxt x) (l : List ℕ) :
    ∀ (x fuel qty : ℕ), (x :: (l ++ [first])).IsChain (Link nxt prv) → first ∉ l →
      (∀ y ∈ l, b.LiveOrder y) → l.length < fuel →
      ∃ y, nxt x = some y ∧ MarketOrderBook.sumQty b first fuel y qty =
        .ok (l.foldl (fun acc y => (acc + (b.orderAt y).qty) % 2 ^ 32) qty) := by
  induction l with
  | nil =>
    intro x fuel qty hc _ _ hf
    obtain ⟨fuel, rfl⟩ := Nat.exists_eq_succ_of_ne_zero (Nat.pos_iff_ne_zero.mp hf)
    have hx : nxt x = some first := (List.isChain_pair.mp hc).1
    exact ⟨first, hx, by simp [MarketOrderBook.sumQty]⟩
  | cons y l ih =>
    intro x fuel qty hc hn hlive hf
    obtain ⟨fuel, rfl⟩ := Nat.exists_eq_succ_of_ne_zero (by simp at hf; omega : fuel ≠ 0)
    obtain ⟨hxy, hrest⟩ := List.isChain_cons_cons.mp hc
    have hne : y ≠ first := fun he => hn (by simp [he])
    obtain ⟨z, hz, hsum⟩ := ih y fuel ((qty + (b.orderAt y).qty) % 2 ^ 32) hrest
      (fun hm => hn (List.mem_cons_of_mem _ hm)) (fun w hw => hlive w (List.mem_cons_of_mem _ hw))
      (by simpa using hf)
    refine ⟨y, hxy.1, ?_⟩
    rw [MarketOrderBook.sumQty, if_neg hne,
      BookStore.order_ok (hlive y (List.mem_cons_self ..)), ok_bind, hnext, hz, deref_some, ok_bind,
      hsum]
    rfl

theorem foldl_add_mod (qtys : List ℕ) (n : ℕ) {acc : ℕ} (h : acc < n) :
    qtys.foldl (fun acc q => (acc + q) % n) acc = (acc + qtys.sum) % n := by
  induction qtys generalizing acc with
  | nil => simp [Nat.mod_eq_of_lt h]
  | cons q qtys ih =>
    rw [List.foldl_cons, ih (Nat.mod_lt _ (by omega)), List.sum_cons, Nat.mod_add_mod,
      Nat.add_assoc]

structure Touch (b : BookStore ℕ) (side : Side) (L : LevelShape ℕ) : Prop where
  head_eq : b.head side = some L.addr
  levelRep : b.LevelRep side L
  liveLevel : b.LiveLevel L.addr
  liveOrder : ∀ e ∈ L.orders, b.LiveOrder e.1
  room : L.orders.length ≤ b.orderPool.numElems
  qtys : ∀ e ∈ L.orders, e.2.qty < 2 ^ 32

theorem Touch.bestOf {b : BookStore ℕ} {L : LevelShape ℕ} (h : Touch b side L) :
    MarketOrderBook.bestOf b side = .ok (L.price, (L.orders.map fun e => e.2.qty).sum % 2 ^ 32) := by
  obtain ⟨addr, price, orders⟩ := L
  obtain ⟨e, es, rfl⟩ := List.exists_cons_of_ne_nil h.levelRep.nonempty
  have hring := h.levelRep.ring
  have hlive : ∀ y ∈ (e :: es).map Prod.fst, b.LiveOrder y := by
    intro y hy
    obtain ⟨f, hf, rfl⟩ := List.mem_map.mp hy
    exact h.liveOrder f hf
  simp only [List.map_cons] at hring hlive
  obtain ⟨hnot, -⟩ := List.nodup_cons.mp hring.nodup
  have hlen : (es.map Prod.fst).length < b.orderPool.numElems := by
    have := h.room
    rw [List.length_map]
    simpa using this
  obtain ⟨y, hy, hsum⟩ := sumQty_path b e.1 (fun _ => rfl)
    (es.map Prod.fst) e.1 b.orderPool.numElems (b.orderAt e.1).qty
    (isRing_cons.mp hring).2 hnot (fun z hz => hlive z (List.mem_cons_of_mem _ hz)) hlen
  have hinfo : ∀ z ∈ e :: es, (b.orderAt z.1).qty = z.2.qty := fun z hz =>
    congrArg OrderInfo.qty (h.levelRep.info z hz).1
  have hfold : (es.map Prod.fst).foldl (fun acc z => (acc + (b.orderAt z).qty) % 2 ^ 32)
      e.2.qty = (e.2.qty + (es.map fun z => z.2.qty).sum) % 2 ^ 32 := by
    have hqs : (es.map Prod.fst).map (fun z => (b.orderAt z).qty) =
        es.map fun z => z.2.qty := by
      rw [List.map_map]
      exact List.map_congr_left fun z hz => hinfo z (List.mem_cons_of_mem _ hz)
    rw [← hqs, ← foldl_add_mod _ _ (h.qtys e List.mem_cons_self)]
    rw [List.foldl_map (f := fun z => (b.orderAt z).qty)]
  have hfirst : (b.levelAt addr).firstOrder = some e.1 := h.levelRep.first_eq
  have hq : MarketOrderBook.levelQty b (b.levelAt addr) =
      .ok ((e.2.qty + (es.map fun z => z.2.qty).sum) % 2 ^ 32) := by
    rw [MarketOrderBook.levelQty, hfirst, deref_some, ok_bind,
      BookStore.order_ok (hlive e.1 List.mem_cons_self), ok_bind, hy, deref_some, ok_bind, hsum,
      hinfo e List.mem_cons_self]
    exact congrArg Except.ok hfold
  have hp : (b.levelAt addr).price = price := h.levelRep.price_eq
  simp only [MarketOrderBook.bestOf, h.head_eq, BookStore.level_ok h.liveLevel, ok_bind, hq, hp,
    pure_ok, List.map_cons, List.sum_cons]

theorem Linked.touch (h : Linked m a) (hs : side.IsBuyOrSell)
    {L : Level ℤ (ℕ × MarketOrder)} {ls : List (Level ℤ (ℕ × MarketOrder))}
    (hside : a.side side = L :: ls) :
    ∃ x : LevelShape ℕ, Touch m.book side x ∧ x.price = L.price ∧ x.orders = L.orders := by
  obtain ⟨own, opp, hrep, hown, -⟩ := h.stores.rep hs
  obtain ⟨k, x, t, rfl, hk, -⟩ := LevelShape.view_split (k := []) (hown.symm.trans hside)
  obtain rfl : k = [] := List.map_eq_nil_iff.mp hk
  refine ⟨_, ⟨hrep.ownSide.head_eq, hrep.levelRep List.mem_cons_self,
    hrep.liveLevel List.mem_cons_self, fun e he => ?_, ?_, fun e he => ?_⟩, rfl, rfl⟩
  · exact hrep.liveOrder_of_mem (k := []) (List.mem_map_of_mem he)
  · have := h.stores.length_lt
    rw [(a.entries_perm hs).length_eq, hside, List.length_append] at this
    rw [hrep.orderCap]
    simp only [Ladder.entries_cons, List.length_append, List.length_nil] at this
    dsimp only
    omega
  · refine h.qtys e ((a.mem_entries_side hs).mpr (.inl ?_))
    rw [hside]
    exact List.mem_append_left _ he

theorem Linked.bestOf (h : Linked m a) (hs : side.IsBuyOrSell) :
    MarketOrderBook.bestOf m.book side = .ok (bestLevel ((a.mapOrders Prod.snd).side side)) := by
  rw [Ladders.side_mapOrders]
  cases hside : a.side side with
  | nil => simp [MarketOrderBook.bestOf, h.stores.head_nil hs hside, bestLevel]
  | cons L ls =>
    obtain ⟨x, htouch, hp, ho⟩ := h.touch hs hside
    rw [htouch.bestOf, hp, ho, Ladder.mapOrders_cons, bestLevel, List.map_map]
    rfl

def touches (s : Ladders MarketOrder) (side : Side) (u : MEMarketUpdate) : Bool :=
  if u.side = side then
    match s.side side with
    | [] => true
    | L :: _ => MarketOrderBook.reachesBest side u.price L.price
  else false

theorem Linked.sideUpdated (h : Linked m a) (hs : side.IsBuyOrSell) (u : MEMarketUpdate) :
    m.sideUpdated side u = .ok (touches (a.mapOrders Prod.snd) side u) := by
  unfold MarketOrderBook.sideUpdated touches
  rw [Ladders.side_mapOrders]
  by_cases hu : u.side = side
  · rw [if_pos hu, if_pos hu]
    cases hside : a.side side with
    | nil => simp [h.stores.head_nil hs hside]
    | cons L ls =>
      obtain ⟨price, orders⟩ := L
      have hne := h.stores.nonEmpty hs
      rw [hside] at hne
      obtain ⟨e, es, rfl⟩ := List.exists_cons_of_ne_nil (Ladder.nonEmpty_cons.mp hne).1
      obtain ⟨best, l, hhead, hlevel, hlp, -⟩ := h.stores.head_cons hs hside
      simp [hhead, hlevel, hlp]
  · rw [if_neg hu, if_neg hu]
    rfl

theorem reachesBest_eq_false (hs : side.IsBuyOrSell) {price best : ℤ} :
    MarketOrderBook.reachesBest side price best = false ↔ better side best price := by
  rcases hs with rfl | rfl <;> simp [MarketOrderBook.reachesBest, better]

theorem bestLevel_congr {k ls : List (Level ℤ MarketOrder)} (h : k.head? = ls.head?) :
    bestLevel k = bestLevel ls := by
  cases k with
  | nil =>
    cases ls with
    | nil => rfl
    | cons L ls => simp at h
  | cons K k =>
    cases ls with
    | nil => simp at h
    | cons L ls =>
      obtain rfl : K = L := by simpa using h
      rfl

theorem Linked.head_unchanged (h : Linked m a) {s : Ladders MarketOrder}
    (hs : s = a.mapOrders Prod.snd) (hu : Applicable s u) (hside : side.IsBuyOrSell)
    (ht : touches s side u = false) :
    ((applyUpdate s u).side side).head? = (s.side side).head? := by
  unfold touches at ht
  by_cases hus : u.side = side
  · subst hus
    rw [if_pos rfl] at ht
    cases hl : s.side u.side with
    | nil => simp [hl] at ht
    | cons L ls =>
      simp only [hl, reachesBest_eq_false hside] at ht
      have hL : L ∈ s.side u.side := by rw [hl]; simp
      have hLa := hL
      rw [hs, Ladders.side_mapOrders] at hLa
      obtain ⟨K, hK, hKL⟩ := List.mem_map.mp hLa
      have hne : L.orders ≠ [] := by
        rw [← hKL]
        simpa using h.stores.nonEmpty hside K hK
      have hout : Refers s u → ∀ o ∈ L.orders, decide (o.ids = u.orderId) = false := by
        intro href o ho
        refine decide_eq_false fun hid => ?_
        obtain ⟨e, he, heid, hprice, -, -⟩ := h.find hs href
        rw [← hKL] at ho
        obtain ⟨f, hf, rfl⟩ := List.mem_map.mp ho
        have hfm : f ∈ Ladder.entries (a.side u.side) := Ladder.mem_entries.mpr ⟨K, hK, hf⟩
        have hfe := h.eq_of_id ((a.mem_entries_side hside).mpr (.inl hfm))
          ((a.mem_entries_side hside).mpr (.inl he)) (hid.trans heid.symm)
        have hfp := (h.stores.entry hside hK hf).2.1
        have hLp : L.price = u.price := by rw [← hprice, ← hfe, hfp, ← hKL]
        exact better_irrefl _ _ (hLp ▸ ht)
      unfold Applicable at hu
      unfold applyUpdate
      cases htype : u.type with
      | add =>
        have hnb : ¬ better u.side u.price L.price := fun hb =>
          better_irrefl _ _ (better_trans hb ht)
        have hpne : L.price ≠ u.price := fun he => better_irrefl _ _ (he ▸ ht)
        simp only [Ladders.rest, marketOrder, Ladders.side_setSide, hl, Ladder.insert, if_neg hpne,
          if_neg hnb]
        rfl
      | modify =>
        simp only [htype] at hu
        simp only [Ladders.amend, Ladders.side_setSide, hl, id_eq]
        rw [Ladder.update_head ls (hout hu.1)]
        rfl
      | cancel =>
        simp only [htype] at hu
        simp only [Ladders.drop, Ladders.side_setSide, hl, id_eq]
        rw [Ladder.remove_head ls hne (hout hu)]
        rfl
      | clear =>
        simp only [htype] at hu
        rw [hu] at hL
        simp [Ladders.side] at hL
      | _ => simp only [hl]
  · have hopp : ∀ ls, u.side.IsBuyOrSell → (s.setSide u.side ls).side side = s.side side := by
      intro ls hb
      rw [hb.eq_opposite hside hus, Ladders.side_setSide_opposite _ hb]
    unfold Applicable at hu
    unfold applyUpdate
    cases htype : u.type with
    | add =>
      simp only [htype] at hu
      simp only [Ladders.rest, marketOrder, hopp _ hu.side]
    | modify =>
      simp only [htype] at hu
      obtain ⟨-, -, -, -, hb, -⟩ := h.find hs hu.1
      simp only [Ladders.amend, hopp _ hb]
    | cancel =>
      simp only [htype] at hu
      obtain ⟨-, -, -, -, hb, -⟩ := h.find hs hu
      simp only [Ladders.drop, hopp _ hb]
    | clear =>
      simp only [htype] at hu
      rw [hu]
    | _ => rfl

structure Mirrors (m : MarketOrderBook) (s : Ladders MarketOrder) : Prop where
  linked : ∃ a, Linked m a ∧ s = a.mapOrders Prod.snd
  bbo : m.bbo = bboOf s

theorem mirrors_new (checked : Bool) (tickerId : ℕ) :
    Mirrors (MarketOrderBook.new checked tickerId) ⟨[], []⟩ where
  linked := ⟨⟨[], []⟩, ⟨BookStore.stores_new checked _,
    by simp [MarketOrderBook.new, Ladders.entries], by simp [Ladders.entries],
    by simp [Ladders.entries]⟩, rfl⟩
  bbo := rfl

variable {s : Ladders MarketOrder}

theorem Linked.updateBBO (h : Linked m a) (hs : s = a.mapOrders Prod.snd) {bid ask : Bool}
    (hb : bid = false → m.bbo.bidPrice = (bestLevel s.bids).1 ∧
      m.bbo.bidQty = (bestLevel s.bids).2)
    (ha : ask = false → m.bbo.askPrice = (bestLevel s.asks).1 ∧
      m.bbo.askQty = (bestLevel s.asks).2) :
    m.updateBBO bid ask = .ok { m with bbo := bboOf s } := by
  have hbid : m.updateBid bid = .ok { m with bbo :=
      { m.bbo with bidPrice := (bestLevel s.bids).1, bidQty := (bestLevel s.bids).2 } } := by
    cases bid with
    | true =>
      rw [MarketOrderBook.updateBid, if_pos rfl, h.bestOf (.inl rfl), ok_bind, hs]
      rfl
    | false =>
      rw [MarketOrderBook.updateBid, if_neg (by simp), ← (hb rfl).1, ← (hb rfl).2]
      rfl
  rw [MarketOrderBook.updateBBO, hbid, ok_bind]
  cases ask with
  | true =>
    rw [MarketOrderBook.updateAsk, if_pos rfl, h.bestOf (.inr rfl), ok_bind, hs]
    rfl
  | false =>
    rw [MarketOrderBook.updateAsk, if_neg (by simp), bboOf, ← (ha rfl).1, ← (ha rfl).2]
    rfl

theorem Mirrors.step (h : Mirrors m s) (hu : Applicable s u) :
    ∃ m' c, m.onMarketUpdate u = .ok (m', c) ∧ Mirrors m' (applyUpdate s u) := by
  obtain ⟨a, hl, hs⟩ := h.linked
  have hbid := hl.sideUpdated (.inl rfl) u
  have hask := hl.sideUpdated (.inr rfl) u
  rw [← hs] at hbid hask
  by_cases ht : u.type = .trade
  · refine ⟨m, .onTradeUpdate u, ?_, ?_⟩
    · rw [MarketOrderBook.onMarketUpdate, hbid, ok_bind, hask, ok_bind, if_pos ht]
      rfl
    · rw [applyUpdate, ht]
      exact h
  · obtain ⟨m₁, a', hmut, hbbo, hl', hs'⟩ := hl.mutate hs hu
    have hup : m₁.updateBBO (touches s .buy u) (touches s .sell u) =
        .ok { m₁ with bbo := bboOf (applyUpdate s u) } := by
      refine hl'.updateBBO hs' ?_ ?_
      · intro hf
        have hhead : (applyUpdate s u).bids.head? = s.bids.head? :=
          hl.head_unchanged hs hu (.inl rfl) hf
        rw [hbbo, h.bbo, bestLevel_congr hhead]
        exact ⟨rfl, rfl⟩
      · intro hf
        have hhead : (applyUpdate s u).asks.head? = s.asks.head? :=
          hl.head_unchanged hs hu (.inr rfl) hf
        rw [hbbo, h.bbo, bestLevel_congr hhead]
        exact ⟨rfl, rfl⟩
    refine ⟨{ m₁ with bbo := bboOf (applyUpdate s u) },
      .onOrderBookUpdate u.tickerId u.price u.side, ?_,
      ⟨⟨a', ⟨hl'.stores, hl'.index, hl'.ids, hl'.qtys⟩, hs'⟩, rfl⟩⟩
    rw [MarketOrderBook.onMarketUpdate, hbid, ok_bind, hask, ok_bind, if_neg ht, hmut, ok_bind, hup]
    rfl

def applyAll : Ladders MarketOrder → List MEMarketUpdate → Ladders MarketOrder :=
  List.foldl applyUpdate

def ApplicableAll (s : Ladders MarketOrder) : List MEMarketUpdate → Prop
  | [] => True
  | u :: us => Applicable s u ∧ ApplicableAll (applyUpdate s u) us

instance decidableApplicableAll : (s : Ladders MarketOrder) → (us : List MEMarketUpdate) →
    Decidable (ApplicableAll s us)
  | _, [] => isTrue trivial
  | s, u :: us =>
      have := decidableApplicableAll (applyUpdate s u) us
      inferInstanceAs (Decidable (_ ∧ _))

theorem applyAll_append (s : Ladders MarketOrder) (us vs : List MEMarketUpdate) :
    applyAll s (us ++ vs) = applyAll (applyAll s us) vs :=
  List.foldl_append

theorem applicableAll_append {us vs : List MEMarketUpdate} :
    ApplicableAll s (us ++ vs) ↔ ApplicableAll s us ∧ ApplicableAll (applyAll s us) vs := by
  induction us generalizing s with
  | nil => simp [ApplicableAll, applyAll]
  | cons u us ih => simp [ApplicableAll, applyAll, ih, and_assoc]

theorem Mirrors.run {us : List MEMarketUpdate} (h : Mirrors m s) (hu : ApplicableAll s us) :
    ∃ m', m.run us = .ok m' ∧ Mirrors m' (applyAll s us) := by
  induction us generalizing m s with
  | nil => exact ⟨m, rfl, h⟩
  | cons u us ih =>
    obtain ⟨m₁, c, hstep, h₁⟩ := h.step hu.1
    obtain ⟨m₂, hrun, h₂⟩ := ih h₁ hu.2
    refine ⟨m₂, ?_, h₂⟩
    rw [MarketOrderBook.run, hstep, ok_bind]
    exact hrun

theorem Mirrors.decode (h : Mirrors m s) : m.book.decode = some s := by
  obtain ⟨a, hl, hs⟩ := h.linked
  rw [hl.stores.decode, hs]

theorem Mirrors.sorted (h : Mirrors m s) (hs : side.IsBuyOrSell) :
    Ladder.Sorted (better side) (s.side side) := by
  obtain ⟨a, hl, rfl⟩ := h.linked
  rw [Ladders.side_mapOrders, Ladder.Sorted, Ladder.map_price_mapOrders]
  exact hl.stores.sorted hs

end Trading
