import TradingEcosystem.Common.BookLevels

namespace Common

structure Ladders (O : Type) where
  bids : List (Level ℤ O)
  asks : List (Level ℤ O)
  deriving DecidableEq, Repr

namespace Ladders

variable {O Q : Type}

def side (s : Ladders O) (side : Side) : List (Level ℤ O) :=
  if side = .buy then s.bids else s.asks

def setSide (s : Ladders O) (side : Side) (ls : List (Level ℤ O)) : Ladders O :=
  if side = .buy then { s with bids := ls } else { s with asks := ls }

def entries (s : Ladders O) : List O := Ladder.entries s.bids ++ Ladder.entries s.asks

def mapOrders (f : O → Q) (s : Ladders O) : Ladders Q :=
  ⟨Ladder.mapOrders f s.bids, Ladder.mapOrders f s.asks⟩

@[simp] theorem side_setSide (s : Ladders O) (side : Side) (ls : List (Level ℤ O)) :
    (s.setSide side ls).side side = ls := by
  unfold setSide Ladders.side
  split_ifs <;> rfl

theorem side_setSide_opposite (s : Ladders O) {side : Side} (h : side.IsBuyOrSell)
    (ls : List (Level ℤ O)) : (s.setSide side ls).side side.opposite = s.side side.opposite := by
  rcases h with rfl | rfl <;> rfl

@[simp] theorem setSide_side (s : Ladders O) (side : Side) : s.setSide side (s.side side) = s := by
  unfold setSide Ladders.side
  split_ifs <;> rfl

@[simp] theorem setSide_setSide (s : Ladders O) (side : Side) (k ls : List (Level ℤ O)) :
    (s.setSide side k).setSide side ls = s.setSide side ls := by
  unfold setSide
  split_ifs <;> rfl

theorem ext_side {s t : Ladders O} {side : Side} (h : side.IsBuyOrSell)
    (ho : s.side side = t.side side) (hp : s.side side.opposite = t.side side.opposite) :
    s = t := by
  cases s
  cases t
  rcases h with rfl | rfl
  · simpa [Ladders.side, Side.opposite] using And.intro ho hp
  · simpa [Ladders.side, Side.opposite] using And.intro hp ho

theorem side_mapOrders (f : O → Q) (s : Ladders O) (side : Side) :
    (s.mapOrders f).side side = Ladder.mapOrders f (s.side side) := by
  unfold Ladders.side mapOrders
  split_ifs <;> rfl

theorem mapOrders_setSide (f : O → Q) (s : Ladders O) (side : Side) (ls : List (Level ℤ O)) :
    (s.setSide side ls).mapOrders f = (s.mapOrders f).setSide side (Ladder.mapOrders f ls) := by
  unfold setSide mapOrders
  split_ifs <;> rfl

theorem entries_perm (s : Ladders O) {side : Side} (h : side.IsBuyOrSell) :
    s.entries.Perm (Ladder.entries (s.side side) ++ Ladder.entries (s.side side.opposite)) := by
  rcases h with rfl | rfl
  · exact .refl _
  · exact List.perm_append_comm

theorem mem_entries_side (s : Ladders O) {side : Side} (h : side.IsBuyOrSell) {o : O} :
    o ∈ s.entries ↔
      o ∈ Ladder.entries (s.side side) ∨ o ∈ Ladder.entries (s.side side.opposite) := by
  rw [(s.entries_perm h).mem_iff, List.mem_append]

theorem entries_mapOrders (f : O → Q) (s : Ladders O) :
    (s.mapOrders f).entries = s.entries.map f := by
  simp [entries, mapOrders, Ladder.entries_mapOrders]

section Orders

variable {ι : Type}

def rest (s : Ladders (OrderInfo ι)) (o : OrderInfo ι) : Ladders (OrderInfo ι) :=
  s.setSide o.side (Ladder.insert (better o.side) o.price o (s.side o.side))

def drop (key : ι → ℕ) (s : Ladders (OrderInfo ι)) (side : Side) (id : ℕ) :
    Ladders (OrderInfo ι) :=
  s.setSide side (Ladder.remove (fun o => decide (key o.ids = id)) (s.side side))

def amend (key : ι → ℕ) (s : Ladders (OrderInfo ι)) (side : Side) (id qty : ℕ) :
    Ladders (OrderInfo ι) :=
  s.setSide side (Ladder.update (fun o => decide (key o.ids = id)) (·.withQty qty) (s.side side))

end Orders

end Ladders

namespace LevelShape

variable {ι : Type}

def cells (L : LevelShape ι) : Level ℤ (ℕ × OrderInfo ι) := ⟨L.price, L.orders⟩

def view (ls : List (LevelShape ι)) : List (Level ℤ (ℕ × OrderInfo ι)) := ls.map cells

@[simp] theorem view_append (k ls : List (LevelShape ι)) : view (k ++ ls) = view k ++ view ls := by
  simp [view]

@[simp] theorem view_cons (L : LevelShape ι) (ls : List (LevelShape ι)) :
    view (L :: ls) = L.cells :: view ls := rfl

theorem entries_view (ls : List (LevelShape ι)) : Ladder.entries (view ls) = entries ls := by
  induction ls with
  | nil => rfl
  | cons L ls ih => simp [cells, ih]

theorem prices_view (ls : List (LevelShape ι)) :
    (view ls).map Level.price = ls.map LevelShape.price := by simp [view, cells]

theorem view_split {ls : List (LevelShape ι)} {k t : List (Level ℤ (ℕ × OrderInfo ι))}
    {L : Level ℤ (ℕ × OrderInfo ι)} (h : view ls = k ++ L :: t) :
    ∃ k' a t', ls = k' ++ ⟨a, L.price, L.orders⟩ :: t' ∧ view k' = k ∧ view t' = t := by
  obtain ⟨k', r, rfl, hk, hr⟩ := List.map_eq_append_iff.mp h
  obtain ⟨K, t', rfl, hK, ht⟩ := List.map_eq_cons_iff.mp hr
  subst hK
  exact ⟨k', K.addr, t', rfl, hk, ht⟩

end LevelShape

namespace BookStore

open LevelShape CircularList

variable {ι : Type} {b : BookStore ι} {side : Side} {s : Ladders (ℕ × OrderInfo ι)}
  {loose : List ℕ}

def Stores (b : BookStore ι) (s : Ladders (ℕ × OrderInfo ι)) (loose : List ℕ) : Prop :=
  ∃ bids asks, b.Rep .buy bids asks [] loose ∧ s = ⟨view bids, view asks⟩

theorem Rep.stores {own opp : List (LevelShape ι)} (h : b.Rep side own opp [] loose)
    (ho : s.side side = view own) (hp : s.side side.opposite = view opp) : b.Stores s loose := by
  rcases h.isSide with rfl | rfl
  · exact ⟨own, opp, h, Ladders.ext_side (.inl rfl) ho hp⟩
  · exact ⟨opp, own, h.swap, Ladders.ext_side (.inr rfl) ho hp⟩

theorem Stores.rep (h : b.Stores s loose) (hs : side.IsBuyOrSell) :
    ∃ own opp, b.Rep side own opp [] loose ∧ s.side side = view own ∧
      s.side side.opposite = view opp := by
  obtain ⟨bids, asks, hrep, rfl⟩ := h
  rcases hs with rfl | rfl
  · exact ⟨bids, asks, hrep, rfl, rfl⟩
  · exact ⟨asks, bids, hrep.swap, rfl, rfl⟩

theorem stores_new (checked : Bool) (ids : ι) : (BookStore.new checked ids).Stores ⟨[], []⟩ [] := by
  refine ⟨[], [], ⟨.inl rfl, ⟨rfl, isRing_nil, .nil, by simp⟩, ⟨rfl, isRing_nil, .nil, by simp⟩,
    ?_, by simp, .nil, ?_, ?_, rfl, rfl⟩, rfl⟩
  · simp [BookStore.new]
  · exact MemPool.holds_new (by decide) _ _
  · exact MemPool.holds_new (by decide) _ _

theorem Stores.sorted (h : b.Stores s loose) (hs : side.IsBuyOrSell) :
    Ladder.Sorted (better side) (s.side side) := by
  obtain ⟨own, opp, hrep, ho, -⟩ := h.rep hs
  rw [Ladder.Sorted, ho, prices_view]
  exact hrep.ownSide.sorted

theorem Stores.nonEmpty (h : b.Stores s loose) (hs : side.IsBuyOrSell) :
    Ladder.NonEmpty (s.side side) := by
  obtain ⟨own, opp, hrep, ho, -⟩ := h.rep hs
  rw [ho]
  intro K hK
  obtain ⟨L, hL, rfl⟩ := List.mem_map.mp hK
  exact (hrep.levelRep hL).nonempty

theorem Stores.nodup (h : b.Stores s loose) : (loose ++ s.entries.map Prod.fst).Nodup := by
  obtain ⟨bids, asks, hrep, rfl⟩ := h
  have := hrep.orderPool.nodup
  rw [orderAddrs, entries_append] at this
  simpa only [Ladders.entries, entries_view] using this

theorem Stores.addr_inj (h : b.Stores s loose) {e f : ℕ × OrderInfo ι} (he : e ∈ s.entries)
    (hf : f ∈ s.entries) (ha : e.1 = f.1) : e = f :=
  List.inj_on_of_nodup_map (List.nodup_append.mp h.nodup).2.1 he hf ha

theorem Stores.head_addr_ne (h : b.Stores s loose) (hs : side.IsBuyOrSell) {p : ℤ}
    {e x : ℕ × OrderInfo ι} {es : List (ℕ × OrderInfo ι)} {ls : List (Level ℤ (ℕ × OrderInfo ι))}
    (hc : s.side side = ⟨p, e :: es⟩ :: ls) (hx : x ∈ es ++ Ladder.entries ls) : x.1 ≠ e.1 := by
  have hnd := ((s.entries_perm hs).map Prod.fst).nodup_iff.mp (List.nodup_append.mp h.nodup).2.1
  rw [List.map_append, hc] at hnd
  have hnot := (List.nodup_cons.mp (List.nodup_append.mp hnd).1).1
  exact fun hxe => hnot (hxe ▸ List.mem_map_of_mem hx)

theorem Stores.length_lt (h : b.Stores s loose) :
    loose.length + s.entries.length < meMaxOrderIds := by
  obtain ⟨bids, asks, hrep, rfl⟩ := h
  have hlen := hrep.orderPool.length_lt
  rw [hrep.orderCap, orderAddrs, entries_append] at hlen
  simpa only [Ladders.entries, entries_view, List.length_append, List.length_map] using hlen

theorem Stores.entry (h : b.Stores s loose) (hs : side.IsBuyOrSell)
    {L : Level ℤ (ℕ × OrderInfo ι)} (hL : L ∈ s.side side) {e : ℕ × OrderInfo ι}
    (he : e ∈ L.orders) :
    e.2.side = side ∧ e.2.price = L.price ∧ PriceInRange L.price ∧
      ∃ o, b.order e.1 = .ok o ∧ o.toOrderInfo = e.2 := by
  obtain ⟨own, opp, hrep, ho, -⟩ := h.rep hs
  rw [ho] at hL
  obtain ⟨K, hK, rfl⟩ := List.mem_map.mp hL
  obtain ⟨hi, hside, hprice⟩ := (hrep.levelRep hK).info e he
  exact ⟨hside, hprice, hrep.inRange K (by simp [hK]), _,
    order_ok (hrep.liveOrder (mem_entries.mpr ⟨K, by simp [hK], he⟩)), hi⟩

theorem Stores.order (h : b.Stores s loose) {e : ℕ × OrderInfo ι} (he : e ∈ s.entries) :
    e.2.side.IsBuyOrSell ∧ PriceInRange e.2.price ∧ e ∈ Ladder.entries (s.side e.2.side) ∧
      ∃ o, b.order e.1 = .ok o ∧ o.toOrderInfo = e.2 := by
  have key : ∀ side : Side, side.IsBuyOrSell → e ∈ Ladder.entries (s.side side) →
      e.2.side.IsBuyOrSell ∧ PriceInRange e.2.price ∧ e ∈ Ladder.entries (s.side e.2.side) ∧
        ∃ o, b.order e.1 = .ok o ∧ o.toOrderInfo = e.2 := by
    intro side hs hm
    obtain ⟨L, hL, heL⟩ := Ladder.mem_entries.mp hm
    obtain ⟨hside, hprice, hin, ho⟩ := h.entry hs hL heL
    rw [hside, hprice]
    exact ⟨hs, hin, hm, ho⟩
  rcases List.mem_append.mp he with hb | hb
  · exact key .buy (.inl rfl) hb
  · exact key .sell (.inr rfl) hb

theorem Stores.info (h : b.Stores s loose) {e : ℕ × OrderInfo ι} (he : e ∈ s.entries) :
    (b.orderAt e.1).toOrderInfo = e.2 := by
  obtain ⟨bids, asks, hrep, rfl⟩ := h
  have hlive : b.LiveOrder e.1 := by
    refine hrep.liveOrder ?_
    simpa [Ladders.entries, entries_view] using he
  obtain ⟨-, -, -, o, hord, hinfo⟩ := Stores.order ⟨bids, asks, hrep, rfl⟩ he
  rw [order_ok hlive] at hord
  rw [Except.ok.inj hord, hinfo]

theorem Stores.getOrdersAtPrice_nil (h : b.Stores ⟨[], []⟩ loose) (price : ℤ) :
    b.getOrdersAtPrice price = none := by
  obtain ⟨bids, asks, hrep, he⟩ := h
  obtain ⟨hb, ha⟩ := Ladders.mk.inj he
  obtain rfl := List.map_eq_nil_iff.mp hb.symm
  obtain rfl := List.map_eq_nil_iff.mp ha.symm
  cases hg : b.getOrdersAtPrice price with
  | none => rfl
  | some a =>
    obtain ⟨L, hL, -⟩ := (hrep.index _ _).mp hg
    cases hL

theorem Stores.head_nil (h : b.Stores s loose) (hs : side.IsBuyOrSell) (hn : s.side side = []) :
    b.head side = none := by
  obtain ⟨own, opp, hrep, ho, -⟩ := h.rep hs
  rw [hn] at ho
  rw [hrep.ownSide.head_eq, List.map_eq_nil_iff.mp ho.symm]
  rfl

theorem Stores.head_cons (h : b.Stores s loose) (hs : side.IsBuyOrSell) {p : ℤ}
    {e : ℕ × OrderInfo ι} {es : List (ℕ × OrderInfo ι)} {ls : List (Level ℤ (ℕ × OrderInfo ι))}
    (hc : s.side side = ⟨p, e :: es⟩ :: ls) :
    ∃ best l, b.head side = some best ∧ b.level best = .ok l ∧ l.price = p ∧
      l.firstOrder = some e.1 := by
  obtain ⟨own, opp, hrep, ho, -⟩ := h.rep hs
  obtain ⟨k, a, t, rfl, hk, -⟩ := view_split (k := []) (ho.symm.trans hc)
  obtain rfl : k = [] := List.map_eq_nil_iff.mp hk
  have hL := hrep.levelRep (List.mem_cons_self ..)
  exact ⟨a, _, hrep.ownSide.head_eq, level_ok (hrep.liveLevel (List.mem_cons_self ..)), hL.price_eq,
    hL.first_eq⟩

theorem Stores.lastOrder (h : b.Stores s loose) (hs : side.IsBuyOrSell) {p : ℤ}
    {es : List (ℕ × OrderInfo ι)} (e : ℕ × OrderInfo ι) (hL : ⟨p, es ++ [e]⟩ ∈ s.side side) :
    ∃ a l first f o, b.getOrdersAtPrice p = some a ∧ b.level a = .ok l ∧
      l.firstOrder = some first ∧ b.order first = .ok f ∧ f.prevOrder = some e.1 ∧
      b.order e.1 = .ok o ∧ o.toOrderInfo = e.2 := by
  obtain ⟨own, opp, hrep, ho, -⟩ := h.rep hs
  have hL' := hL
  rw [ho] at hL'
  obtain ⟨K, hK, hKe⟩ := List.mem_map.mp hL'
  have hKo : K.orders = es ++ [e] := congrArg Level.orders hKe
  have hKp : K.price = p := congrArg Level.price hKe
  have hR := hrep.levelRep hK
  obtain ⟨x, xs, hx⟩ := List.exists_cons_of_ne_nil hR.nonempty
  have hfirst : (b.levelAt K.addr).firstOrder = some x.1 := by rw [hR.first_eq, hx]; rfl
  have hring := hR.ring
  rw [hx, List.map_cons] at hring
  have hlast : (b.orderAt x.1).prevOrder = some e.1 := by
    have hm : x.1 :: xs.map Prod.fst = es.map Prod.fst ++ [e.1] := by
      rw [← List.map_cons, ← hx, hKo]
      simp
    rw [hring.prev_head]
    simp only [hm, List.getLast_append_singleton]
  have hlive : ∀ y ∈ K.orders, b.LiveOrder y.1 := fun y hy =>
    hrep.liveOrder (mem_entries.mpr ⟨K, by simp [hK], hy⟩)
  refine ⟨K.addr, _, x.1, _, _, ?_, level_ok (hrep.liveLevel (by simp [hK])), hfirst,
    order_ok (hlive x (by simp [hx])), hlast, order_ok (hlive e (by simp [hKo])),
    (hR.info e (by simp [hKo])).1⟩
  rw [← hKp]
  exact hrep.getOrdersAtPrice (by simp [hK])

theorem Stores.getOrdersAtPrice_none (h : b.Stores s loose) (hs : side.IsBuyOrSell) {p : ℤ}
    (hp : PriceInRange p) (ho : p ∉ (s.side side).map Level.price)
    (hopp : p ∉ (s.side side.opposite).map Level.price) : b.getOrdersAtPrice p = none := by
  obtain ⟨own, opp, hrep, hown, hop⟩ := h.rep hs
  rw [hown, prices_view] at ho
  rw [hop, prices_view] at hopp
  refine hrep.getOrdersAtPrice_none hp fun L hL he => ?_
  rcases List.mem_append.mp hL with hL | hL
  · exact ho (he ▸ List.mem_map_of_mem hL)
  · exact hopp (he ▸ List.mem_map_of_mem hL)

theorem Stores.allocateOrder (h : b.Stores s [])
    (hroom : s.entries.length + 1 < meMaxOrderIds) (info : OrderInfo ι) :
    ∃ a b', b.allocateOrder info = .ok (a, b') ∧ b'.Stores s [a] ∧
      (b'.orderAt a).toOrderInfo = info := by
  obtain ⟨bids, asks, hrep, rfl⟩ := h
  simp only [Ladders.entries, entries_view, ← entries_append] at hroom
  obtain ⟨a, b', hal, hrep', hi⟩ := hrep.allocateOrder hroom info
  exact ⟨a, b', hal, ⟨bids, asks, hrep', rfl⟩, hi⟩

theorem Stores.allocateOrder_full (h : b.Stores s [])
    (hfull : s.entries.length + 1 = meMaxOrderIds) (info : OrderInfo ι) :
    b.allocateOrder info = .error .assertOutOfSpace := by
  obtain ⟨bids, asks, hrep, rfl⟩ := h
  simp only [Ladders.entries, entries_view, ← entries_append] at hfull
  exact hrep.allocateOrder_full hfull info

theorem Stores.deallocateOrder {a : ℕ} (h : b.Stores s (a :: loose)) :
    ∃ b', b.deallocateOrder a = .ok b' ∧ b'.Stores s loose := by
  obtain ⟨bids, asks, hrep, rfl⟩ := h
  obtain ⟨b', hd, hrep'⟩ := hrep.deallocateOrder
  exact ⟨b', hd, bids, asks, hrep', rfl⟩

theorem Stores.linkOrder {a : ℕ} {o : OrderInfo ι} (h : b.Stores s [a])
    (hinfo : (b.orderAt a).toOrderInfo = o) (hs : o.side.IsBuyOrSell) (hin : PriceInRange o.price)
    (hopp : o.price ∉ (s.side o.side.opposite).map Level.price) :
    ∃ b', b.linkOrder a = .ok b' ∧
      b'.Stores (s.setSide o.side (Ladder.insert (better o.side) o.price (a, o) (s.side o.side)))
        [] := by
  obtain ⟨own, opp, hrep, ho, hp⟩ := h.rep hs
  have hside : (b.orderAt a).side = o.side := congrArg OrderInfo.side hinfo
  have hprice : (b.orderAt a).price = o.price := congrArg OrderInfo.price hinfo
  have hsort := h.sorted hs
  rw [ho] at hsort
  rw [hp, prices_view] at hopp
  have hoppo : ∀ ls, (s.setSide o.side ls).side o.side.opposite = view opp := fun ls =>
    (s.side_setSide_opposite hs ls).trans hp
  by_cases hex : ∃ L ∈ own, L.price = o.price
  · obtain ⟨L, hL, hLp⟩ := hex
    obtain ⟨k, ls, rfl⟩ := List.append_of_mem hL
    obtain ⟨b', hlink, hrep'⟩ := hrep.linkOrder_existing hside (hprice.trans hLp.symm)
    refine ⟨b', hlink, hrep'.stores ?_ (hoppo _)⟩
    rw [Ladders.side_setSide, ho]
    simp only [view_append, view_cons, cells, hLp, hinfo] at hsort ⊢
    exact Ladder.insert_existing hsort
  · have hnew : ∀ K ∈ own ++ opp, K.price ≠ (b.orderAt a).price := by
      intro K hK he
      rcases List.mem_append.mp hK with hK | hK
      · exact hex ⟨K, hK, he.trans hprice⟩
      · exact hopp (List.mem_map.mpr ⟨K, hK, he.trans hprice⟩)
    obtain ⟨k, ls, l, b', rfl, hk, hls, hlink, hrep'⟩ :=
      hrep.linkOrder_new hside (by rw [hprice]; exact hin) hnew
    refine ⟨b', hlink, hrep'.stores ?_ (hoppo _)⟩
    rw [hprice] at hk hls
    rw [Ladders.side_setSide, ho]
    simp only [view_append, view_cons, cells, hinfo]
    refine Ladder.insert_new ?_ ?_
    · intro K hK
      obtain ⟨K', hK', rfl⟩ := List.mem_map.mp hK
      exact hk K' hK'
    · intro K hK
      obtain ⟨K', hK', rfl⟩ := List.mem_map.mp hK
      exact hls K' hK'

theorem Stores.split (h : b.Stores s loose) (hs : side.IsBuyOrSell) {e : ℕ × OrderInfo ι}
    (he : e ∈ Ladder.entries (s.side side)) :
    ∃ k p xs ys ls, s.side side = k ++ ⟨p, xs ++ e :: ys⟩ :: ls ∧ Ladder.NonEmpty (k ++ ls) ∧
      ∀ x ∈ Ladder.entries k ++ xs ++ ys ++ Ladder.entries ls, decide (x.1 = e.1) = false := by
  obtain ⟨L, hL, heL⟩ := Ladder.mem_entries.mp he
  obtain ⟨k, ls, hsplit⟩ := List.append_of_mem hL
  obtain ⟨xs, ys, hxy⟩ := List.append_of_mem heL
  refine ⟨k, L.price, xs, ys, ls, by rw [← hxy]; exact hsplit, ?_, ?_⟩
  · intro K hK
    refine h.nonEmpty hs K ?_
    rw [hsplit]
    simp only [List.mem_append, List.mem_cons] at hK ⊢
    tauto
  · have hnd := ((s.entries_perm hs).map Prod.fst).nodup_iff.mp (List.nodup_append.mp h.nodup).2.1
    rw [List.map_append, List.nodup_append] at hnd
    have hperm : ((Ladder.entries (s.side side)).map Prod.fst).Perm
        (e.1 :: (Ladder.entries k ++ xs ++ ys ++ Ladder.entries ls).map Prod.fst) := by
      rw [hsplit, ← List.map_cons]
      refine List.Perm.map _ ?_
      simp only [Ladder.entries_append, Ladder.entries_cons, hxy, List.append_assoc,
        List.cons_append]
      rw [← List.append_assoc, ← List.append_assoc (Ladder.entries k) xs]
      exact List.perm_middle
    have hnot := (List.nodup_cons.mp (hperm.nodup_iff.mp hnd.1)).1
    intro x hx
    exact decide_eq_false fun hxe => hnot (hxe ▸ List.mem_map_of_mem hx)

theorem Stores.unlinkOrder (h : b.Stores s loose) (hs : side.IsBuyOrSell) {e : ℕ × OrderInfo ι}
    (he : e ∈ Ladder.entries (s.side side)) :
    ∃ b', b.unlinkOrder e.1 = .ok b' ∧ (b'.orderAt e.1).toOrderInfo = e.2 ∧
      b'.Stores (s.setSide side (Ladder.remove (fun x => decide (x.1 = e.1)) (s.side side)))
        (e.1 :: loose) := by
  obtain ⟨k, p, xs, ys, ls, hsplit, hne, hq⟩ := h.split hs he
  obtain ⟨own, opp, hrep, ho, hp⟩ := h.rep hs
  obtain ⟨k', a, ls', rfl, rfl, rfl⟩ := view_split (ho.symm.trans hsplit)
  have hrm := Ladder.remove_one (p := p) hne (decide_eq_true rfl) hq
  rw [hsplit, hrm]
  by_cases hsole : xs ++ ys = []
  · obtain ⟨rfl, rfl⟩ := List.append_eq_nil_iff.mp hsole
    obtain ⟨b', hun, hrep', hi⟩ := hrep.unlinkOrder_sole
    exact ⟨b', hun, hi, hrep'.stores (by simp [Ladder.keep])
      ((s.side_setSide_opposite hs _).trans hp)⟩
  · obtain ⟨b', hun, hrep', hi⟩ := hrep.unlinkOrder_multi hsole
    refine ⟨b', hun, hi, hrep'.stores ?_ ((s.side_setSide_opposite hs _).trans hp)⟩
    have hnil : ¬ (xs ++ ys).isEmpty = true := fun hn => hsole (List.isEmpty_iff.mp hn)
    simp [Ladder.keep, hnil, cells]

theorem Stores.mem_entries_remove (h : b.Stores s loose) (hs : side.IsBuyOrSell)
    {e : ℕ × OrderInfo ι} (he : e ∈ Ladder.entries (s.side side)) (x : ℕ × OrderInfo ι) :
    x ∈ (s.setSide side (Ladder.remove (fun y => decide (y.1 = e.1)) (s.side side))).entries ↔
      x ∈ s.entries ∧ x.1 ≠ e.1 := by
  rw [Ladders.mem_entries_side _ hs, Ladders.side_setSide, Ladders.side_setSide_opposite _ hs,
    Ladder.entries_remove, List.mem_filter, s.mem_entries_side hs]
  have hopp : x ∈ Ladder.entries (s.side side.opposite) → x.1 ≠ e.1 := by
    intro hx ha
    have hnd := ((s.entries_perm hs).map Prod.fst).nodup_iff.mp (List.nodup_append.mp h.nodup).2.1
    rw [List.map_append] at hnd
    exact (List.nodup_append.mp hnd).2.2 _ (List.mem_map_of_mem he) _ (List.mem_map_of_mem hx)
      ha.symm
  simp only [Bool.not_eq_true', decide_eq_false_iff_not]
  tauto

theorem Stores.liveLoose {x : ℕ} (h : b.Stores s (x :: loose)) : b.LiveOrder x := by
  obtain ⟨bids, asks, hrep, -⟩ := h
  exact hrep.orderPool.live (by simp)

theorem Stores.setQty (h : b.Stores s loose) (hs : side.IsBuyOrSell) {e : ℕ × OrderInfo ι}
    (he : e ∈ Ladder.entries (s.side side)) (qty : ℕ) :
    ∃ b', b.setQty e.1 qty = .ok b' ∧
      b'.Stores (s.setSide side (Ladder.update (fun x => decide (x.1 = e.1))
        (fun x => (x.1, x.2.withQty qty)) (s.side side))) loose := by
  obtain ⟨k, p, xs, ys, ls, hsplit, -, hq⟩ := h.split hs he
  obtain ⟨own, opp, hrep, ho, hp⟩ := h.rep hs
  obtain ⟨k', a, ls', rfl, rfl, rfl⟩ := view_split (ho.symm.trans hsplit)
  obtain ⟨hset, hrep'⟩ := hrep.setQty qty
  refine ⟨_, hset, hrep'.stores ?_ ((s.side_setSide_opposite hs _).trans hp)⟩
  rw [Ladders.side_setSide, hsplit, Ladder.update_one (o := e) (decide_eq_true rfl) hq]
  simp [cells]

end BookStore

end Common
