import TradingEcosystem.System.SnapshotState
import TradingEcosystem.Trading.ClientBook

namespace Trading

open Common Exchange

section Contents

variable {s : Ladders MarketOrder} {x o : MarketOrder} {side : Side} {i qty : ℕ}

theorem mem_entries_rest (hs : o.side.IsBuyOrSell) :
    x ∈ (s.rest o).entries ↔ x = o ∨ x ∈ s.entries := by
  rw [Ladders.rest, Ladders.mem_entries_side _ hs, Ladders.side_setSide,
    Ladders.side_setSide_opposite _ hs, Ladder.mem_entries_insert, or_assoc,
    ← s.mem_entries_side hs]

def Sided (s : Ladders MarketOrder) : Prop :=
  ∀ side, side.IsBuyOrSell → ∀ o ∈ Ladder.entries (s.side side), o.side = side

theorem Sided.mem (h : Sided s) (ho : o ∈ s.entries) :
    o.side.IsBuyOrSell ∧ o ∈ Ladder.entries (s.side o.side) := by
  rcases List.mem_append.mp ho with hb | hb
  · rw [h .buy (.inl rfl) o hb]
    exact ⟨.inl rfl, hb⟩
  · rw [h .sell (.inr rfl) o hb]
    exact ⟨.inr rfl, hb⟩

def Lists (f : ℕ → Option MarketOrder) (s : Ladders MarketOrder) : Prop :=
  ∀ i o, f i = some o ↔ o ∈ s.entries ∧ o.ids = i

variable {f : ℕ → Option MarketOrder}

theorem lists_nil : Lists (fun _ => none) ⟨[], []⟩ := by simp [Lists, Ladders.entries]

theorem Lists.eq_of_id (h : Lists f s) (hx : x ∈ s.entries) (ho : o ∈ s.entries)
    (hid : x.ids = o.ids) : x = o := by
  have hfx := (h x.ids x).mpr ⟨hx, rfl⟩
  have hfo := (h x.ids o).mpr ⟨ho, hid.symm⟩
  exact Option.some.inj (hfx.symm.trans hfo)

theorem Lists.eq_none (h : Lists f s) (hi : ∀ o ∈ s.entries, o.ids ≠ i) : f i = none := by
  cases hf : f i with
  | none => rfl
  | some o => exact absurd ((h i o).mp hf).2 (hi o ((h i o).mp hf).1)

theorem Lists.opposite_ne (h : Lists f s) (hside : Sided s) (ho : o ∈ s.entries)
    (hx : x ∈ Ladder.entries (s.side o.side.opposite)) : x.ids ≠ o.ids := by
  obtain ⟨hs, -⟩ := hside.mem ho
  have hxs : x.side = o.side.opposite := hside _ hs.opposite x hx
  intro hid
  obtain rfl := h.eq_of_id ((s.mem_entries_side hs).mpr (.inr hx)) ho hid
  rcases hs with hb | hb <;> simp [hb, Side.opposite] at hxs

theorem Lists.mem_drop (h : Lists f s) (hside : Sided s) (ho : o ∈ s.entries) :
    x ∈ (s.drop id o.side o.ids).entries ↔ x ∈ s.entries ∧ x.ids ≠ o.ids := by
  obtain ⟨hs, -⟩ := hside.mem ho
  rw [Ladders.drop, Ladders.mem_entries_side _ hs, Ladders.side_setSide,
    Ladders.side_setSide_opposite _ hs, Ladder.entries_remove, s.mem_entries_side hs, or_and_right]
  have hopp : x ∈ Ladder.entries (s.side o.side.opposite) →
      x.ids ≠ o.ids := fun hx => h.opposite_ne hside ho hx
  simp only [List.mem_filter, id_eq, Bool.not_eq_true', decide_eq_false_iff_not]
  tauto

theorem Lists.mem_amend (h : Lists f s) (hside : Sided s) (ho : o ∈ s.entries) :
    x ∈ (s.amend id o.side o.ids qty).entries ↔
      ∃ y ∈ s.entries, x = if y.ids = o.ids then y.withQty qty else y := by
  obtain ⟨hs, -⟩ := hside.mem ho
  rw [Ladders.amend, Ladders.mem_entries_side _ hs, Ladders.side_setSide,
    Ladders.side_setSide_opposite _ hs, Ladder.entries_update, List.mem_map]
  constructor
  · rintro (⟨y, hy, rfl⟩ | hx)
    · exact ⟨y, (s.mem_entries_side hs).mpr (.inl hy), by simp⟩
    · exact ⟨x, (s.mem_entries_side hs).mpr (.inr hx), by
        rw [if_neg (h.opposite_ne hside ho hx)]⟩
  · rintro ⟨y, hy, rfl⟩
    rcases (s.mem_entries_side hs).mp hy with hy | hy
    · exact .inl ⟨y, hy, by simp⟩
    · rw [if_neg (h.opposite_ne hside ho hy)]
      exact .inr hy

theorem Lists.apply {b : OrderTable} {u : MEMarketUpdate} (h : Lists (b u.tickerId) s)
    (hside : Sided s) (hu : Applicable s u) :
    Lists (b.apply u u.tickerId) (applyUpdate s u) := by
  unfold Applicable at hu
  unfold OrderTable.apply applyUpdate
  cases htype : u.type with
  | add =>
    simp only [htype] at hu ⊢
    intro i o
    rw [mem_entries_rest hu.side, OrderTable.put]
    split_ifs with hc
    · constructor
      · intro ho
        obtain rfl := Option.some.inj ho
        exact ⟨.inl rfl, hc.2.symm⟩
      · rintro ⟨rfl | ho, hid⟩
        · rfl
        · exact absurd (hid.trans hc.2) (hu.fresh o ho)
    · rw [h i o]
      constructor
      · rintro ⟨ho, hid⟩
        exact ⟨.inr ho, hid⟩
      · rintro ⟨rfl | ho, hid⟩
        · exact absurd ⟨rfl, hid.symm⟩ hc
        · exact ⟨ho, hid⟩
  | modify =>
    simp only [htype] at hu ⊢
    obtain ⟨⟨x, hx, hid, hxs, -⟩, -⟩ := hu
    rw [← hid, ← hxs]
    have hfx : b u.tickerId x.ids = some x := (h x.ids x).mpr ⟨hx, rfl⟩
    intro i o
    rw [h.mem_amend hside hx, OrderTable.put, hfx, Option.map_some]
    split_ifs with hc
    · constructor
      · intro ho
        obtain rfl := Option.some.inj ho
        exact ⟨⟨x, hx, by rw [if_pos rfl]⟩, hc.2.symm⟩
      · rintro ⟨⟨y, hy, rfl⟩, hyi⟩
        split_ifs at hyi ⊢ with hyx
        · rw [h.eq_of_id hy hx hyx]
        · exact absurd (hyi.trans hc.2) hyx
    · rw [h i o]
      constructor
      · rintro ⟨ho, rfl⟩
        exact ⟨⟨o, ho, by rw [if_neg fun he => hc ⟨rfl, he⟩]⟩, rfl⟩
      · rintro ⟨⟨y, hy, rfl⟩, hyi⟩
        split_ifs at hyi ⊢ with hyx
        · exact absurd ⟨rfl, hyi.symm.trans hyx⟩ hc
        · exact ⟨hy, hyi⟩
  | cancel =>
    simp only [htype] at hu ⊢
    obtain ⟨x, hx, hid, hxs, -⟩ := hu
    rw [← hid, ← hxs]
    intro i o
    rw [h.mem_drop hside hx, OrderTable.put]
    split_ifs with hc
    · rw [hc.2]
      simp only [false_iff]
      rintro ⟨⟨_, hne⟩, he⟩
      exact hne he
    · rw [h i o]
      constructor
      · rintro ⟨ho, rfl⟩
        exact ⟨⟨ho, fun he => hc ⟨rfl, he⟩⟩, rfl⟩
      · rintro ⟨⟨ho, _⟩, he⟩
        exact ⟨ho, he⟩
  | clear =>
    simp only [if_true]
    exact lists_nil
  | _ => exact h

end Contents

section Fifo

variable {s : Ladders MarketOrder} {u : MEMarketUpdate} {side : Side}

def Fifo (s : Ladders MarketOrder) : Prop :=
  ∀ side, side.IsBuyOrSell → ∀ L ∈ s.side side, L.orders.Pairwise fun x y => x.ids < y.ids

def Ascends (s : Ladders MarketOrder) (u : MEMarketUpdate) : Prop :=
  u.type = .add → ∀ o ∈ s.entries, o.ids < u.orderId

theorem fifo_nil : Fifo ⟨[], []⟩ := by
  rintro side (rfl | rfl) <;> simp [Ladders.side]

theorem Fifo.setSide (h : Fifo s) (hs : side.IsBuyOrSell) {ls : List (Level ℤ MarketOrder)}
    (hls : ∀ L ∈ ls, L.orders.Pairwise fun x y => x.ids < y.ids) : Fifo (s.setSide side ls) := by
  intro other ho
  by_cases hside : side = other
  · rw [← hside, Ladders.side_setSide]
    exact hls
  · rw [hs.eq_opposite ho hside, Ladders.side_setSide_opposite _ hs]
    exact h _ hs.opposite

theorem Fifo.apply (h : Fifo s) (hside : Sided s) (hu : Applicable s u) (ha : Ascends s u) :
    Fifo (applyUpdate s u) := by
  unfold Applicable at hu
  unfold applyUpdate
  cases htype : u.type with
  | add =>
    simp only [htype] at hu ⊢
    refine h.setSide hu.side fun L hL => ?_
    rcases Ladder.mem_insert hL with hL | rfl | ⟨K, hK, -, rfl⟩
    · exact h _ hu.side L hL
    · exact List.pairwise_singleton ..
    · refine List.pairwise_append.mpr ⟨h _ hu.side K hK, List.pairwise_singleton .., ?_⟩
      intro x hx y hy
      rw [List.mem_singleton.mp hy]
      exact ha htype x ((s.mem_entries_side hu.side).mpr
        (.inl (Ladder.mem_entries.mpr ⟨K, hK, hx⟩)))
  | modify =>
    simp only [htype] at hu ⊢
    obtain ⟨⟨x, hx, -, hxs, -⟩, -⟩ := hu
    have hs : u.side.IsBuyOrSell := hxs ▸ (hside.mem hx).1
    refine h.setSide hs fun L hL => ?_
    obtain ⟨K, hK, rfl⟩ := List.mem_map.mp hL
    refine List.pairwise_map.mpr ((h _ hs K hK).imp ?_)
    intro x y hxy
    split_ifs <;> exact hxy
  | cancel =>
    simp only [htype] at hu ⊢
    obtain ⟨x, hx, -, hxs, -⟩ := hu
    have hs : u.side.IsBuyOrSell := hxs ▸ (hside.mem hx).1
    refine h.setSide hs fun L hL => ?_
    obtain ⟨-, K, hK, -, hsub⟩ := Ladder.mem_remove hL
    exact (h _ hs K hK).sublist hsub
  | clear => exact fifo_nil
  | _ => exact h

end Fifo

section Rebuild

variable {m : MarketOrderBook} {s : Ladders MarketOrder} {f : ℕ → Option MarketOrder}
  {o : MarketOrder}

theorem Mirrors.order_ok (h : Mirrors m s) {side : Side} (hs : side.IsBuyOrSell)
    {L : Level ℤ MarketOrder} (hL : L ∈ s.side side) (ho : o ∈ L.orders) :
    o.side = side ∧ o.price = L.price ∧ PriceInRange o.price ∧ o.ids < meMaxOrderIds ∧
      o.qty < 2 ^ 32 := by
  obtain ⟨a, hl, rfl⟩ := h.linked
  rw [Ladders.side_mapOrders] at hL
  obtain ⟨K, hK, rfl⟩ := List.mem_map.mp hL
  obtain ⟨e, he, rfl⟩ := List.mem_map.mp ho
  obtain ⟨hside, hprice, hin, -⟩ := hl.stores.entry hs hK he
  have hmem : e ∈ a.entries :=
    (a.mem_entries_side hs).mpr (.inl (Ladder.mem_entries.mpr ⟨K, hK, he⟩))
  exact ⟨hside, hprice, hprice ▸ hin, hl.ids e hmem, hl.qtys e hmem⟩

theorem Mirrors.sided (h : Mirrors m s) : Sided s := by
  intro side hs o ho
  obtain ⟨L, hL, hoL⟩ := Ladder.mem_entries.mp ho
  exact (h.order_ok hs hL hoL).1

theorem Mirrors.nonEmpty (h : Mirrors m s) {side : Side} (hs : side.IsBuyOrSell) :
    Ladder.NonEmpty (s.side side) := by
  obtain ⟨a, hl, rfl⟩ := h.linked
  rw [Ladders.side_mapOrders, Ladder.nonEmpty_mapOrders]
  exact hl.stores.nonEmpty hs

theorem Mirrors.length_lt (h : Mirrors m s) : s.entries.length < meMaxOrderIds := by
  obtain ⟨a, hl, rfl⟩ := h.linked
  rw [Ladders.entries_mapOrders, List.length_map]
  simpa using hl.stores.length_lt

theorem Mirrors.price_notMem_opposite (h : Mirrors m s) (ho : o ∈ s.entries) :
    o.price ∉ (s.side o.side.opposite).map Level.price := by
  obtain ⟨hs, hmem⟩ := h.sided.mem ho
  obtain ⟨L, hL, hoL⟩ := Ladder.mem_entries.mp hmem
  intro hm
  obtain ⟨K, hK, hKp⟩ := List.mem_map.mp hm
  obtain ⟨x, hx⟩ := List.exists_mem_of_ne_nil _ (h.nonEmpty hs.opposite K hK)
  have hmemBoth : ∀ side, side.IsBuyOrSell → ∀ M ∈ s.side side, M ∈ s.bids ++ s.asks := by
    rintro side (rfl | rfl) M hM
    · exact List.mem_append_left _ hM
    · exact List.mem_append_right _ hM
  obtain ⟨a, hl, hsa⟩ := h.linked
  have hLs := hl.stores.levelAtPrice_mem (L := L) (hsa ▸ hmemBoth _ hs L hL)
  have hKs := hl.stores.levelAtPrice_mem (L := K) (hsa ▸ hmemBoth _ hs.opposite K hK)
  rw [hKp, (h.order_ok hs hL hoL).2.1, hLs] at hKs
  obtain rfl := Option.some.inj hKs
  have hside := (h.order_ok hs.opposite hK hoL).1
  rcases hs with hb | hb <;> simp [hb, Side.opposite] at hside

def belowId (n : ℕ) (s : Ladders MarketOrder) : Ladders MarketOrder :=
  ⟨Ladder.below OrderInfo.ids n s.bids, Ladder.below OrderInfo.ids n s.asks⟩

theorem side_belowId (n : ℕ) (s : Ladders MarketOrder) (side : Side) :
    (belowId n s).side side = Ladder.below OrderInfo.ids n (s.side side) := by
  unfold Ladders.side belowId
  split_ifs <;> rfl

theorem entries_belowId (n : ℕ) (s : Ladders MarketOrder) :
    (belowId n s).entries = s.entries.filter fun o => !decide (n ≤ o.ids) := by
  rw [Ladders.entries, Ladders.entries, List.filter_append]
  exact congrArg₂ _ (Ladder.entries_remove _ _) (Ladder.entries_remove _ _)

theorem mem_entries_belowId {n : ℕ} :
    o ∈ (belowId n s).entries ↔ o ∈ s.entries ∧ o.ids < n := by
  simp [entries_belowId]

theorem belowId_zero (s : Ladders MarketOrder) : belowId 0 s = ⟨[], []⟩ := by
  simp [belowId, Ladder.below_zero]

theorem belowId_succ {n : ℕ} (h : ∀ o ∈ s.entries, o.ids ≠ n) : belowId (n + 1) s = belowId n s := by
  unfold belowId
  rw [Ladder.below_succ _ fun o ho => h o (List.mem_append_left _ ho),
    Ladder.below_succ _ fun o ho => h o (List.mem_append_right _ ho)]

theorem Mirrors.belowId_eq_self (h : Mirrors m s) : belowId meMaxOrderIds s = s := by
  have hlt : ∀ side, side.IsBuyOrSell → ∀ o ∈ Ladder.entries (s.side side),
      o.ids < meMaxOrderIds := by
    intro side hs o ho
    obtain ⟨L, hL, hoL⟩ := Ladder.mem_entries.mp ho
    exact (h.order_ok hs hL hoL).2.2.2.1
  refine Ladders.ext_side (.inl rfl) ?_ ?_
  · rw [side_belowId]
    exact Ladder.below_eq_self _ (h.nonEmpty (.inl rfl)) (hlt _ (.inl rfl))
  · rw [side_belowId]
    exact Ladder.below_eq_self _ (h.nonEmpty (.inr rfl)) (hlt _ (.inr rfl))

theorem Mirrors.rest_belowId (h : Mirrors m s) (hf : Fifo s) (hl : Lists f s)
    (ho : o ∈ s.entries) : (belowId o.ids s).rest o = belowId (o.ids + 1) s := by
  obtain ⟨hs, hmem⟩ := h.sided.mem ho
  refine Ladders.ext_side hs ?_ ?_
  · rw [Ladders.rest, Ladders.side_setSide, side_belowId, side_belowId]
    obtain ⟨L, hL, hoL⟩ := Ladder.mem_entries.mp hmem
    have hprice := (h.order_ok hs hL hoL).2.1
    have hfifo := hf _ hs L hL
    have hsorted := h.sorted hs
    obtain ⟨p, orders⟩ := L
    obtain ⟨k, ls, hsplit⟩ := List.append_of_mem hL
    obtain ⟨xs, ys, rfl⟩ := List.append_of_mem hoL
    obtain ⟨-, hcons, hcross⟩ := List.pairwise_append.mp hfifo
    obtain rfl : o.price = p := hprice
    rw [hsplit] at hsorted ⊢
    have hother : ∀ x ∈ Ladder.entries k ++ Ladder.entries ls, x.ids ≠ o.ids := by
      -- an order of another level with this id would be `o` itself, at another price
      intro x hx hid
      rw [← Ladder.entries_append] at hx
      obtain ⟨K, hK, hxK⟩ := Ladder.mem_entries.mp hx
      have hKs : K ∈ s.side o.side := by
        rw [hsplit]
        simp only [List.mem_append, List.mem_cons] at hK ⊢
        tauto
      have hxs : x ∈ s.entries :=
        (s.mem_entries_side hs).mpr (.inl (Ladder.mem_entries.mpr ⟨K, hKs, hxK⟩))
      have hnd : ((k ++ ⟨o.price, xs ++ o :: ys⟩ :: ls).map Level.price).Nodup := by
        refine List.Pairwise.imp ?_ hsorted
        rintro p _ hpq rfl
        exact better_irrefl _ p hpq
      rw [List.map_append, List.map_cons, List.nodup_middle, ← List.map_append] at hnd
      refine (List.nodup_cons.mp hnd).1 (List.mem_map.mpr ⟨K, hK, ?_⟩)
      rw [← (h.order_ok hs hKs hxK).2.1, hl.eq_of_id hxs ho hid]
    exact Ladder.insert_below _ hsorted (fun x hx => hcross x hx o (List.mem_cons_self ..))
      (List.pairwise_cons.mp hcons).1 hother
  · rw [Ladders.rest, Ladders.side_setSide_opposite _ hs, side_belowId, side_belowId]
    exact (Ladder.below_succ _ fun x hx => hl.opposite_ne h.sided ho hx).symm

@[irreducible] def idOrder (tickerId : ℕ) (f : ℕ → Option MarketOrder) (n : ℕ) : List MEMarketUpdate :=
  (List.range n).filterMap fun i => (f i).map (addUpdate tickerId)

theorem Mirrors.addable_belowId (h : Mirrors m s) (ho : o ∈ s.entries) (tickerId : ℕ) :
    Addable (belowId o.ids s) (addUpdate tickerId o) := by
  obtain ⟨hs, hmem⟩ := h.sided.mem ho
  obtain ⟨L, hL, hoL⟩ := Ladder.mem_entries.mp hmem
  obtain ⟨-, -, hin, hid, hqty⟩ := h.order_ok hs hL hoL
  refine ⟨hs, hin, hid, hqty, fun x hx => (mem_entries_belowId.mp hx).2.ne, ?_, ?_⟩
  · rw [side_belowId]
    intro hm
    exact h.price_notMem_opposite ho ((Ladder.prices_remove_sublist _ _).subset hm)
  · have hlt : (belowId o.ids s).entries.length < s.entries.length := by
      rw [entries_belowId, List.length_filter_lt_length_iff_exists]
      exact ⟨o, ho, by simp⟩
    have := h.length_lt
    omega

theorem Mirrors.rebuild (h : Mirrors m s) (hf : Fifo s) (hl : Lists f s) (tickerId n : ℕ) :
    ApplicableAll ⟨[], []⟩ (idOrder tickerId f n) ∧
      applyAll ⟨[], []⟩ (idOrder tickerId f n) = belowId n s := by
  induction n with
  | zero =>
    rw [idOrder]
    exact ⟨trivial, (belowId_zero s).symm⟩
  | succ n ih =>
    obtain ⟨happ, hall⟩ := ih
    have hsnoc : idOrder tickerId f (n + 1) =
        idOrder tickerId f n ++ ((f n).map (addUpdate tickerId)).toList := by
      rw [idOrder, List.range_succ, List.filterMap_append, idOrder, List.filterMap_cons]
      cases f n <;> rfl
    rw [hsnoc]
    cases hfn : f n with
    | none =>
      have hno : ∀ o ∈ s.entries, o.ids ≠ n := fun o ho hid => by
        simp [(hl n o).mpr ⟨ho, hid⟩] at hfn
      rw [Option.map_none, Option.toList_none, List.append_nil, belowId_succ hno]
      exact ⟨happ, hall⟩
    | some o =>
      obtain ⟨ho, rfl⟩ := (hl n o).mp hfn
      rw [Option.map_some, Option.toList_some, applicableAll_append, applyAll_append, hall]
      exact ⟨⟨happ, h.addable_belowId ho tickerId, trivial⟩, h.rest_belowId hf hl ho⟩

end Rebuild

end Trading
