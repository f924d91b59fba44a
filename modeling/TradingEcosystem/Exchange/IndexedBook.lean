import TradingEcosystem.Exchange.PriceTimeBook

namespace Exchange

open Common

def NewOrder.Admissible (n : NewOrder) : Prop :=
  n.side.IsBuyOrSell ∧ PriceInRange n.price ∧ MEOrderBook.InRange n.clientId n.clientOrderId ∧
    n.qty < 2 ^ 32

instance (n : NewOrder) : Decidable n.Admissible :=
  inferInstanceAs (Decidable (_ ∧ _ ∧ _ ∧ _))

namespace PriceTimeBook

structure WF (b : PriceTimeBook) : Prop where
  sides : ∀ side : Side, side.IsBuyOrSell → SideOk side (b.ladders.side side)
  uncrossed : ∀ B ∈ b.ladders.bids, ∀ A ∈ b.ladders.asks, B.price < A.price
  ids : ((b.ladders.entries.map OrderInfo.ids).map MEOrderIds.marketOrderId).Nodup
  fresh : ∀ o ∈ b.ladders.entries, o.ids.marketOrderId < b.nextMarketOrderId
  count : b.ladders.entries.length < b.nextMarketOrderId

variable {b : PriceTimeBook} {n : NewOrder} {fillId : ℕ}

theorem wf_new : new.WF where
  sides := fun side h => by rcases h with rfl | rfl <;> exact SideOk.nil _
  uncrossed := by simp [new]
  ids := by simp [new, Ladders.entries]
  fresh := by simp [new, Ladders.entries]
  count := by simp [new, Ladders.entries]

theorem WF.succ (h : b.WF) : WF ⟨b.ladders, b.nextMarketOrderId + 1⟩ where
  sides := h.sides
  uncrossed := h.uncrossed
  ids := h.ids
  fresh := fun o ho => Nat.lt_succ_of_lt (h.fresh o ho)
  count := Nat.lt_succ_of_lt h.count

theorem uncrossed_iff {s : Ladders MEOrder} {side : Side} (hs : side.IsBuyOrSell) :
    (∀ B ∈ s.bids, ∀ A ∈ s.asks, B.price < A.price) ↔
      ∀ L ∈ s.side side, ∀ K ∈ s.side side.opposite,
        MEOrderBook.noMoreCrosses side L.price K.price := by
  rcases hs with rfl | rfl
  · rfl
  · constructor
    · exact fun h L hL K hK => h K hK L hL
    · exact fun h B hB A hA => h A hA B hB

theorem WF.order_ok (h : b.WF) {o : MEOrder} (ho : o ∈ b.ladders.entries) :
    o.side.IsBuyOrSell ∧ PriceInRange o.price ∧ OrderOk o.side o.price o ∧
      o ∈ Ladder.entries (b.ladders.side o.side) := by
  have key : ∀ side : Side, side.IsBuyOrSell → o ∈ Ladder.entries (b.ladders.side side) →
      o.side.IsBuyOrSell ∧ PriceInRange o.price ∧ OrderOk o.side o.price o ∧
        o ∈ Ladder.entries (b.ladders.side o.side) := by
    intro side hs hm
    obtain ⟨L, hL, hoL⟩ := Ladder.mem_entries.mp hm
    have hok := (h.sides side hs).orders L hL o hoL
    have hp := (h.sides side hs).prices L hL
    rw [hok.side_eq, hok.price_eq]
    exact ⟨hs, hp, hok, hm⟩
  rcases List.mem_append.mp ho with hb | hb
  · exact key .buy (.inl rfl) hb
  · exact key .sell (.inr rfl) hb

theorem WF.eq_of_id (h : b.WF) {x y : MEOrder} (hx : x ∈ b.ladders.entries)
    (hy : y ∈ b.ladders.entries) (hid : x.ids.marketOrderId = y.ids.marketOrderId) : x = y :=
  List.inj_on_of_nodup_map (List.map_map ▸ h.ids) hx hy hid

theorem sweep_ids {ls : List (Level ℤ MEOrder)} (g : MEOrderBook.Aggressor) (price : ℤ)
    (leavesQty : ℕ) (hn : Ladder.NonEmpty ls) :
    (Ladder.entries ls).map OrderInfo.ids =
      (sweep g price leavesQty ls).removed.map OrderInfo.ids ++
        (Ladder.entries (sweep g price leavesQty ls).left).map OrderInfo.ids := by
  obtain ⟨rest, he, heaten⟩ := sweep_eaten g price leavesQty hn
  rw [he, List.map_append]
  generalize Ladder.entries (sweep g price leavesQty ls).left = l at heaten
  generalize (sweep g price leavesQty ls).leavesQty = q at heaten
  cases heaten with
  | whole q => rfl
  | part o os q hrest h0 hq =>
    rw [hrest]
    rfl

theorem afterSweep_perm (hs : n.side.IsBuyOrSell) :
    (b.afterSweep fillId n).entries.Perm
      (Ladder.entries (b.swept fillId n).left ++ Ladder.entries (b.ladders.side n.side)) := by
  refine ((b.afterSweep fillId n).entries_perm hs.opposite).trans ?_
  rw [afterSweep, Ladders.side_setSide, Ladders.side_setSide_opposite _ hs.opposite,
    hs.opposite_opposite]

theorem swept_perm (h : b.WF) (hs : n.side.IsBuyOrSell) :
    ((b.swept fillId n).removed.map OrderInfo.ids ++
      (b.afterSweep fillId n).entries.map OrderInfo.ids).Perm
        (b.ladders.entries.map OrderInfo.ids) := by
  have hids : _ = (b.swept fillId n).removed.map OrderInfo.ids ++
      (Ladder.entries (b.swept fillId n).left).map OrderInfo.ids :=
    sweep_ids ⟨n.tickerId, n.clientId, n.side, n.clientOrderId, fillId⟩ n.price n.qty
      (h.sides _ hs.opposite).nonEmpty
  refine (((afterSweep_perm hs).map _).append_left _).trans ?_
  rw [List.map_append, ← List.append_assoc, ← hids, ← List.map_append]
  exact (List.perm_append_comm.trans (b.ladders.entries_perm hs).symm).map _

theorem afterSweep_mem (h : b.WF) (hs : n.side.IsBuyOrSell) {o : MEOrder}
    (ho : o ∈ (b.afterSweep fillId n).entries) : ∃ x ∈ b.ladders.entries, x.ids = o.ids :=
  List.mem_map.mp ((swept_perm h hs).subset (List.mem_append_right _ (List.mem_map_of_mem ho)))

theorem removed_mem (h : b.WF) (hs : n.side.IsBuyOrSell) {o : MEOrder}
    (ho : o ∈ (b.swept fillId n).removed) : ∃ x ∈ b.ladders.entries, x.ids = o.ids :=
  List.mem_map.mp ((swept_perm h hs).subset (List.mem_append_left _ (List.mem_map_of_mem ho)))

theorem swept_ids_nodup (h : b.WF) (hs : n.side.IsBuyOrSell) :
    (((b.swept fillId n).removed.map OrderInfo.ids).map MEOrderIds.marketOrderId ++
      ((b.afterSweep fillId n).entries.map OrderInfo.ids).map MEOrderIds.marketOrderId).Nodup := by
  rw [← List.map_append]
  exact ((swept_perm h hs).map _).nodup_iff.mpr h.ids

theorem removed_ne (h : b.WF) (hs : n.side.IsBuyOrSell) {x y : MEOrder}
    (hx : x ∈ (b.swept fillId n).removed) (hy : y ∈ (b.afterSweep fillId n).entries) :
    x.ids ≠ y.ids := by
  intro he
  have hd := (List.nodup_append.mp (@swept_ids_nodup b n fillId h hs)).2.2
  exact hd _ (List.mem_map_of_mem (List.mem_map_of_mem hx)) _
    (List.mem_map_of_mem (List.mem_map_of_mem hy)) (by rw [he])

theorem sideOk_of_both {s : Ladders MEOrder} {side : Side} (hs : side.IsBuyOrSell)
    (hown : SideOk side (s.side side)) (hopp : SideOk side.opposite (s.side side.opposite)) :
    ∀ other : Side, other.IsBuyOrSell → SideOk other (s.side other) := by
  intro other ho
  by_cases h : side = other
  · exact h ▸ hown
  · rw [hs.eq_opposite ho h]
    exact hopp

theorem wf_afterSweep (h : b.WF) (hs : n.side.IsBuyOrSell) :
    WF ⟨b.afterSweep fillId n, b.nextMarketOrderId⟩ where
  sides := by
    have hopp : SideOk n.side.opposite ((b.afterSweep fillId n).side n.side.opposite) := by
      rw [afterSweep, Ladders.side_setSide]
      exact (h.sides _ hs.opposite).sweep _ _ _
    have hown : SideOk n.side ((b.afterSweep fillId n).side n.side) := by
      have := Ladders.side_setSide_opposite b.ladders hs.opposite (b.swept fillId n).left
      rw [hs.opposite_opposite] at this
      rw [afterSweep, this]
      exact h.sides _ hs
    exact sideOk_of_both hs hown hopp
  uncrossed := by
    rw [uncrossed_iff hs.opposite]
    rw [afterSweep, Ladders.side_setSide, Ladders.side_setSide_opposite _ hs.opposite]
    intro L hL K hK
    have hp := (sweep_prices ⟨n.tickerId, n.clientId, n.side, n.clientOrderId, fillId⟩ n.price n.qty
      (h.sides _ hs.opposite).nonEmpty).subset (List.mem_map_of_mem hL)
    obtain ⟨M, hM, hMp⟩ := List.mem_map.mp hp
    rw [← hMp]
    exact (uncrossed_iff hs.opposite).mp h.uncrossed M hM K hK
  ids := by
    exact (List.nodup_append.mp (swept_ids_nodup h hs)).2.1
  fresh := fun o ho => by
    obtain ⟨x, hx, hid⟩ := afterSweep_mem h hs ho
    rw [← hid]
    exact h.fresh x hx
  count := by
    have hlen := (@swept_perm b n fillId h hs).length_eq
    simp only [List.length_append, List.length_map] at hlen
    have := h.count
    dsimp only
    omega

theorem remainder_crosses (h : b.WF) (hs : n.side.IsBuyOrSell)
    (hq : (b.swept fillId n).leavesQty ≠ 0) :
    ∀ K ∈ (b.afterSweep fillId n).side n.side.opposite,
      MEOrderBook.noMoreCrosses n.side n.price K.price := by
  rw [afterSweep, Ladders.side_setSide]
  have hok := h.sides _ hs.opposite
  rcases sweep_done ⟨n.tickerId, n.clientId, n.side, n.clientOrderId, fillId⟩ n.price n.qty hs
    hok.sorted hok.nonEmpty with h0 | h0
  · exact absurd h0 hq
  · exact h0

theorem rest_perm (s : Ladders MEOrder) {o : MEOrder} (hs : o.side.IsBuyOrSell) :
    (s.rest o).entries.Perm (o :: s.entries) := by
  refine ((s.rest o).entries_perm hs).trans ?_
  rw [Ladders.rest, Ladders.side_setSide, Ladders.side_setSide_opposite _ hs]
  refine ((Ladder.entries_insert_perm o.price o _).append_right _).trans ?_
  exact (s.entries_perm hs).symm.cons o

theorem wf_rest {s : Ladders MEOrder} {next : ℕ} {o : MEOrder} (h : WF ⟨s, next⟩)
    (hs : o.side.IsBuyOrSell) (hp : PriceInRange o.price) (ho : OrderOk o.side o.price o)
    (hid : o.ids.marketOrderId = next)
    (hcross : ∀ K ∈ s.side o.side.opposite, MEOrderBook.noMoreCrosses o.side o.price K.price) :
    WF ⟨s.rest o, next + 1⟩ where
  sides := by
    have hown : SideOk o.side ((s.rest o).side o.side) := by
      rw [Ladders.rest, Ladders.side_setSide]
      refine (h.sides _ hs).insert hp ho fun x hx => ?_
      rw [hid]
      exact h.fresh x ((s.mem_entries_side hs).mpr (.inl hx))
    have hopp : SideOk o.side.opposite ((s.rest o).side o.side.opposite) := by
      rw [Ladders.rest, Ladders.side_setSide_opposite _ hs]
      exact h.sides _ hs.opposite
    exact sideOk_of_both hs hown hopp
  uncrossed := by
    rw [uncrossed_iff hs]
    simp only [Ladders.rest, Ladders.side_setSide, Ladders.side_setSide_opposite _ hs]
    intro L hL K hK
    have hold := fun M hM => (uncrossed_iff hs).mp h.uncrossed M hM K hK
    rcases Ladder.mem_insert hL with hL | rfl | ⟨M, hM, hMp, rfl⟩
    · exact hold L hL
    · exact hcross K hK
    · exact hcross K hK
  ids := by
    rw [(((rest_perm s hs).map _).map _).nodup_iff, List.map_cons, List.map_cons]
    refine List.nodup_cons.mpr ⟨fun hm => ?_, h.ids⟩
    rw [List.map_map] at hm
    obtain ⟨x, hx, he⟩ := List.mem_map.mp hm
    exact absurd (he.trans hid) (Nat.ne_of_lt (h.fresh x hx))
  fresh := fun x hx => by
    rcases List.mem_cons.mp ((rest_perm s hs).mem_iff.mp hx) with rfl | hx
    · exact hid ▸ Nat.lt_succ_self _
    · exact Nat.lt_succ_of_lt (h.fresh x hx)
  count := by
    have hlen := (rest_perm s hs).length_eq
    have : s.entries.length < next := h.count
    rw [List.length_cons] at hlen
    dsimp only
    omega

theorem wf_place (h : b.WF) (hn : n.Admissible) : (b.place fillId n).1.WF := by
  obtain ⟨hs, hp, hr, hlt⟩ := hn
  have hle : (b.swept fillId n).leavesQty ≤ n.qty :=
    sweep_leavesQty_le _ _ _ (h.sides _ hs.opposite).nonEmpty
  have hsw : WF ⟨b.afterSweep fillId n, b.nextMarketOrderId⟩ := wf_afterSweep h hs
  unfold place
  split_ifs with hq
  · exact hsw.succ
  · exact wf_rest hsw hs hp ⟨rfl, rfl, Nat.pos_of_ne_zero hq, hle.trans_lt hlt, hr⟩ rfl
      (remainder_crosses h hs hq)

theorem drop_perm (o : MEOrder) (hs : o.side.IsBuyOrSell) :
    ((b.drop o).ladders.entries).Perm
      ((Ladder.entries (b.ladders.side o.side)).filter
        (fun x => !decide (x.ids.marketOrderId = o.ids.marketOrderId)) ++
        Ladder.entries (b.ladders.side o.side.opposite)) := by
  refine ((b.drop o).ladders.entries_perm hs).trans ?_
  rw [drop, Ladders.drop, Ladders.side_setSide, Ladders.side_setSide_opposite _ hs,
    Ladder.entries_remove]

theorem drop_subperm (o : MEOrder) (hs : o.side.IsBuyOrSell) :
    (b.drop o).ladders.entries.Subperm b.ladders.entries := by
  refine ((drop_perm o hs).subperm).trans ?_
  refine (List.Sublist.subperm ?_).trans (b.ladders.entries_perm hs).symm.subperm
  exact List.filter_sublist.append_right _

theorem wf_drop (h : b.WF) {o : MEOrder} (hs : o.side.IsBuyOrSell) : (b.drop o).WF where
  sides := by
    have hown : SideOk o.side ((b.drop o).ladders.side o.side) := by
      rw [drop, Ladders.drop, Ladders.side_setSide]
      exact (h.sides _ hs).remove _
    have hopp : SideOk o.side.opposite ((b.drop o).ladders.side o.side.opposite) := by
      rw [drop, Ladders.drop, Ladders.side_setSide_opposite _ hs]
      exact h.sides _ hs.opposite
    exact sideOk_of_both hs hown hopp
  uncrossed := by
    rw [uncrossed_iff hs]
    rw [drop, Ladders.drop, Ladders.side_setSide, Ladders.side_setSide_opposite _ hs]
    intro L hL K hK
    obtain ⟨-, M, hM, hp, -⟩ := Ladder.mem_remove hL
    rw [hp]
    exact (uncrossed_iff hs).mp h.uncrossed M hM K hK
  ids := by
    obtain ⟨l, hl, hsub⟩ := drop_subperm (b := b) o hs
    exact ((hl.map _).map _).nodup_iff.mp (((hsub.map _).map _).nodup h.ids)
  fresh := fun x hx => h.fresh x ((drop_subperm o hs).subset hx)
  count := (drop_subperm o hs).length_le.trans_lt h.count

theorem WF.opposite_ne (h : b.WF) {x y : MEOrder} (hy : y ∈ b.ladders.entries)
    (hx : x ∈ Ladder.entries (b.ladders.side y.side.opposite)) :
    x.ids.marketOrderId ≠ y.ids.marketOrderId := by
  have hs := (h.order_ok hy).1
  intro hid
  have hxm := (b.ladders.mem_entries_side hs).mpr (.inr hx)
  rw [h.eq_of_id hxm hy hid] at hx
  obtain ⟨L, hL, hyL⟩ := Ladder.mem_entries.mp hx
  have hside := ((h.sides _ hs.opposite).orders L hL y hyL).side_eq
  rcases hs with hb | hb <;> rw [hb] at hside <;> exact absurd hside (by decide)

theorem WF.drop_entries (h : b.WF) {y : MEOrder} (hy : y ∈ b.ladders.entries) :
    (b.drop y).ladders.entries.Perm
      (b.ladders.entries.filter fun x => !decide (x.ids.marketOrderId = y.ids.marketOrderId)) := by
  have hs := (h.order_ok hy).1
  have hopp : (Ladder.entries (b.ladders.side y.side.opposite)).filter
      (fun x => !decide (x.ids.marketOrderId = y.ids.marketOrderId)) =
        Ladder.entries (b.ladders.side y.side.opposite) :=
    List.filter_eq_self.mpr fun x hx => by simpa using h.opposite_ne hy hx
  refine (drop_perm y hs).trans (.trans ?_ ((b.ladders.entries_perm hs).symm.filter _))
  rw [List.filter_append, hopp]

theorem WF.mem_drop (h : b.WF) {x y : MEOrder} (hy : y ∈ b.ladders.entries) :
    x ∈ (b.drop y).ladders.entries ↔
      x ∈ b.ladders.entries ∧ x.ids.marketOrderId ≠ y.ids.marketOrderId := by
  rw [(h.drop_entries hy).mem_iff, List.mem_filter]
  simp only [Bool.not_eq_true', decide_eq_false_iff_not]

theorem find?_eq_some (hu : ∀ x ∈ b.ladders.entries, ∀ y ∈ b.ladders.entries,
      x.ids.clientId = y.ids.clientId → x.ids.clientOrderId = y.ids.clientOrderId → x = y)
    {x : MEOrder} (hx : x ∈ b.ladders.entries) :
    b.find? x.ids.clientId x.ids.clientOrderId = some x := by
  cases hf : b.find? x.ids.clientId x.ids.clientOrderId with
  | none =>
    have := List.find?_eq_none.mp hf x hx
    simp at this
  | some y =>
    have hy : y.ids.clientId = x.ids.clientId ∧ y.ids.clientOrderId = x.ids.clientOrderId := by
      simpa using List.find?_some hf
    rw [hu y (List.mem_of_find?_eq_some hf) x hx hy.1 hy.2]

end PriceTimeBook

abbrev OrderIndex := ℕ → ℕ → Option ℕ

def OrderIndex.set (index : OrderIndex) (clientId orderId : ℕ) (p : Option ℕ) : OrderIndex :=
  fun c o => if c = clientId ∧ o = orderId then p else index c o

def OrderIndex.forget (index : OrderIndex) (o : MEOrder) : OrderIndex :=
  index.set o.ids.clientId o.ids.clientOrderId none

theorem OrderIndex.foldl_forget (removed : List MEOrder) (index : OrderIndex) (c o : ℕ) :
    removed.foldl forget index c o =
      if ∃ x ∈ removed, x.ids.clientId = c ∧ x.ids.clientOrderId = o then none else index c o := by
  induction removed generalizing index with
  | nil => simp
  | cons x xs ih =>
    rw [List.foldl_cons, ih]
    unfold forget OrderIndex.set
    by_cases hx : x.ids.clientId = c ∧ x.ids.clientOrderId = o
    · simp [hx]
    · have hx' : ¬ (c = x.ids.clientId ∧ o = x.ids.clientOrderId) := fun h => hx ⟨h.1.symm, h.2.symm⟩
      simp [hx, hx']

/-- The book as the engine keeps it: cancels go through an index by client and client order id,
which a reused id overwrites while the older order still rests. -/
structure IndexedBook where
  book : PriceTimeBook
  index : OrderIndex

namespace IndexedBook

def new : IndexedBook := ⟨PriceTimeBook.new, fun _ _ => none⟩

def fillId (b : IndexedBook) : ℕ := b.book.nextMarketOrderId % 2 ^ 32

def sweptIndex (b : IndexedBook) (n : NewOrder) : OrderIndex :=
  (b.book.swept b.fillId n).removed.foldl OrderIndex.forget b.index

def add (b : IndexedBook) (n : NewOrder) : IndexedBook × List Event :=
  (⟨(b.book.place b.fillId n).1,
    if (b.book.swept b.fillId n).leavesQty = 0 then b.sweptIndex n
    else (b.sweptIndex n).set n.clientId n.clientOrderId (some b.book.nextMarketOrderId)⟩,
    (b.book.place b.fillId n).2)

def lookup (b : IndexedBook) (clientId orderId : ℕ) : Option MEOrder :=
  match b.index clientId orderId with
  | none => none
  | some m => b.book.ladders.entries.find? fun o => decide (o.ids.marketOrderId = m)

def cancel (b : IndexedBook) (clientId orderId tickerId : ℕ) : IndexedBook × List Event :=
  match b.lookup clientId orderId with
  | none => (b, PriceTimeBook.rejected clientId orderId tickerId)
  | some o =>
      (⟨b.book.drop o, b.index.forget o⟩, PriceTimeBook.canceled clientId orderId tickerId o)

structure WF (b : IndexedBook) : Prop where
  book : b.book.WF
  live : ∀ c o m, b.index c o = some m → ∃ x ∈ b.book.ladders.entries,
    x.ids.marketOrderId = m ∧ x.ids.clientId = c ∧ x.ids.clientOrderId = o

variable {b : IndexedBook} {n : NewOrder}

theorem wf_new : new.WF := ⟨PriceTimeBook.wf_new, by simp [new]⟩

theorem lookup_eq_some (h : b.WF) {c o : ℕ} {x : MEOrder} (hx : b.lookup c o = some x) :
    x ∈ b.book.ladders.entries ∧ x.ids.clientId = c ∧ x.ids.clientOrderId = o ∧
      b.index c o = some x.ids.marketOrderId := by
  unfold lookup at hx
  cases hi : b.index c o with
  | none => simp [hi] at hx
  | some m =>
    simp only [hi] at hx
    obtain ⟨y, hy, hm, hc, ho⟩ := h.live c o m hi
    have hxm : x.ids.marketOrderId = m := by simpa using List.find?_some hx
    have hmem := List.mem_of_find?_eq_some hx
    rw [h.book.eq_of_id hmem hy (hxm.trans hm.symm)]
    exact ⟨hy, hc, ho, by rw [hm]⟩

theorem lookup_eq_none (h : b.WF) {c o : ℕ} : b.lookup c o = none ↔ b.index c o = none := by
  unfold lookup
  cases hi : b.index c o with
  | none => simp
  | some m =>
    obtain ⟨y, hy, hm, -, -⟩ := h.live c o m hi
    simp only [List.find?_eq_none, decide_eq_true_eq, reduceCtorEq, iff_false]
    exact fun hno => hno y hy hm

theorem swept_mem (h : b.WF) (hs : n.side.IsBuyOrSell) {x : MEOrder}
    (hx : x ∈ b.book.ladders.entries) :
    (∃ y ∈ (b.book.swept b.fillId n).removed, y.ids = x.ids) ∨
      ∃ y ∈ (b.book.afterSweep b.fillId n).entries, y.ids = x.ids := by
  have hm := (@PriceTimeBook.swept_perm b.book n b.fillId h.book hs).mem_iff.mpr
    (List.mem_map_of_mem hx)
  rcases List.mem_append.mp hm with hm | hm
  · exact .inl (List.mem_map.mp hm)
  · exact .inr (List.mem_map.mp hm)

theorem sweptIndex_live (h : b.WF) (hs : n.side.IsBuyOrSell) {c o m : ℕ}
    (hi : b.sweptIndex n c o = some m) :
    ∃ x ∈ (b.book.afterSweep b.fillId n).entries,
      x.ids.marketOrderId = m ∧ x.ids.clientId = c ∧ x.ids.clientOrderId = o := by
  rw [sweptIndex, OrderIndex.foldl_forget] at hi
  split_ifs at hi with hex
  obtain ⟨x, hx, hm, hc, ho⟩ := h.live c o m hi
  rcases swept_mem h hs hx with ⟨y, hy, he⟩ | ⟨y, hy, he⟩
  · exact absurd ⟨y, hy, by rw [he]; exact ⟨hc, ho⟩⟩ hex
  · exact ⟨y, hy, by rw [he]; exact ⟨hm, hc, ho⟩⟩

theorem wf_add_filled (h : b.WF) (hs : n.side.IsBuyOrSell)
    (hq : (b.book.swept b.fillId n).leavesQty = 0) : (b.add n).1.WF := by
  unfold add PriceTimeBook.place
  rw [if_pos hq, if_pos hq]
  exact ⟨(PriceTimeBook.wf_afterSweep h.book hs).succ, fun c o m hi => sweptIndex_live h hs hi⟩

theorem wf_add (h : b.WF) (hn : n.Admissible) : (b.add n).1.WF := by
  by_cases hq : (b.book.swept b.fillId n).leavesQty = 0
  · exact wf_add_filled h hn.1 hq
  · refine ⟨PriceTimeBook.wf_place h.book hn, fun c o m hi => ?_⟩
    have hperm := PriceTimeBook.rest_perm (b.book.afterSweep b.fillId n)
      (o := b.book.remainder b.fillId n) hn.1
    simp only [add, PriceTimeBook.place, if_neg hq, OrderIndex.set] at hi ⊢
    split_ifs at hi with hco
    · refine ⟨_, hperm.mem_iff.mpr (List.mem_cons_self ..), ?_⟩
      exact ⟨Option.some.inj hi, hco.1.symm, hco.2.symm⟩
    · obtain ⟨x, hx, hxm⟩ := sweptIndex_live h hn.1 hi
      exact ⟨x, hperm.mem_iff.mpr (List.mem_cons_of_mem _ hx), hxm⟩

theorem wf_cancel (h : b.WF) (c o t : ℕ) : (b.cancel c o t).1.WF := by
  unfold cancel
  cases hl : b.lookup c o with
  | none => exact h
  | some y =>
    obtain ⟨hy, hyc, hyo, hyi⟩ := lookup_eq_some h hl
    refine ⟨PriceTimeBook.wf_drop h.book (h.book.order_ok hy).1, ?_⟩
    intro c' o' m hi
    simp only [OrderIndex.forget, OrderIndex.set] at hi
    split_ifs at hi with hco
    obtain ⟨x, hx, hxm, hxc, hxo⟩ := h.live c' o' m hi
    refine ⟨x, (h.book.mem_drop hy).mpr ⟨hx, fun he => hco ?_⟩, hxm, hxc, hxo⟩
    rw [← h.book.eq_of_id hx hy he]
    exact ⟨hxc.symm, hxo.symm⟩

def ExactFor (c : ℕ) (b : IndexedBook) : Prop :=
  ∀ x ∈ b.book.ladders.entries, x.ids.clientId = c →
    b.index x.ids.clientId x.ids.clientOrderId = some x.ids.marketOrderId

variable {c : ℕ}

theorem ExactFor.unique (h : b.WF) (he : b.ExactFor c) {x y : MEOrder}
    (hx : x ∈ b.book.ladders.entries) (hy : y ∈ b.book.ladders.entries) (hxc : x.ids.clientId = c)
    (hyc : y.ids.clientId = c) (ho : x.ids.clientOrderId = y.ids.clientOrderId) : x = y := by
  have hix := he x hx hxc
  rw [hxc, ← hyc, ho, he y hy hyc] at hix
  exact (h.book.eq_of_id hy hx (Option.some.inj hix)).symm

theorem ExactFor.lookup (h : b.WF) (he : b.ExactFor c) {x : MEOrder}
    (hx : x ∈ b.book.ladders.entries) (hxc : x.ids.clientId = c) :
    b.lookup c x.ids.clientOrderId = some x := by
  have hi := he x hx hxc
  rw [hxc] at hi
  cases hl : b.lookup c x.ids.clientOrderId with
  | none => simp [(lookup_eq_none h).mp hl] at hi
  | some y =>
    obtain ⟨hy, hyc, hyo, -⟩ := lookup_eq_some h hl
    rw [ExactFor.unique h he hy hx hyc hxc hyo]

theorem exactFor_new : new.ExactFor c := by simp [ExactFor, new, PriceTimeBook.new, Ladders.entries]

theorem ExactFor.sweptIndex (h : b.WF) (he : b.ExactFor c) (hs : n.side.IsBuyOrSell) {x : MEOrder}
    (hx : x ∈ (b.book.afterSweep b.fillId n).entries) (hxc : x.ids.clientId = c) :
    b.sweptIndex n x.ids.clientId x.ids.clientOrderId = some x.ids.marketOrderId := by
  obtain ⟨y, hy, hid⟩ := PriceTimeBook.afterSweep_mem h.book hs hx
  have hyc : y.ids.clientId = c := by rw [hid, hxc]
  rw [IndexedBook.sweptIndex, OrderIndex.foldl_forget, if_neg, ← hid]
  · exact he y hy hyc
  · rintro ⟨z, hz, hzc, hzo⟩
    -- a removed order with the same client ids would be the survivor itself
    obtain ⟨w, hw, hwz⟩ := PriceTimeBook.removed_mem h.book hs hz
    have hwy : w = y := ExactFor.unique h he hw hy (by rw [hwz, hzc, hxc]) hyc
      (by rw [hwz, hzo, hid])
    exact PriceTimeBook.removed_ne h.book hs hz hx (by rw [← hwz, hwy, hid])

theorem exactFor_add_of (h : b.WF) (he : b.ExactFor c) (hn : n.Admissible)
    (hfree : (b.book.swept b.fillId n).leavesQty ≠ 0 → n.clientId = c →
      ∀ x ∈ (b.book.afterSweep b.fillId n).entries, x.ids.clientId = c →
        x.ids.clientOrderId ≠ n.clientOrderId) : (b.add n).1.ExactFor c := by
  intro x hx hxc
  unfold add PriceTimeBook.place at *
  split_ifs at * with hq
  · exact he.sweptIndex h hn.1 hx hxc
  · have hperm := PriceTimeBook.rest_perm (b.book.afterSweep b.fillId n)
      (o := b.book.remainder b.fillId n) hn.1
    simp only [OrderIndex.set]
    rcases List.mem_cons.mp (hperm.mem_iff.mp hx) with rfl | hx
    · rw [if_pos ⟨rfl, rfl⟩]
      rfl
    · rw [if_neg, he.sweptIndex h hn.1 hx hxc]
      rintro ⟨hc, ho⟩
      exact hfree hq (hc.symm.trans hxc) x hx hxc ho

theorem exactFor_add (h : b.WF) (he : b.ExactFor c) (hn : n.Admissible)
    (hfree : n.clientId = c → ∀ x ∈ b.book.ladders.entries, x.ids.clientId = c →
      x.ids.clientOrderId ≠ n.clientOrderId) : (b.add n).1.ExactFor c := by
  refine exactFor_add_of h he hn fun _ hnc x hx hxc ho => ?_
  obtain ⟨y, hy, hid⟩ := PriceTimeBook.afterSweep_mem h.book hn.1 hx
  exact hfree hnc y hy (by rw [hid, hxc]) (by rw [hid, ho])

theorem exactFor_cancel (h : b.WF) (he : b.ExactFor c) (c' o t : ℕ) :
    (b.cancel c' o t).1.ExactFor c := by
  unfold cancel
  cases hl : b.lookup c' o with
  | none => exact he
  | some y =>
    obtain ⟨hy, hyc, hyo, hyi⟩ := lookup_eq_some h hl
    intro x hx hxc
    obtain ⟨hxm, hne⟩ := (h.book.mem_drop hy).mp hx
    simp only [OrderIndex.forget, OrderIndex.set]
    rw [if_neg, he x hxm hxc]
    rintro ⟨hc, ho⟩
    exact hne (by rw [ExactFor.unique h he hxm hy hxc (hc.symm.trans hxc) ho])

def Exact (b : IndexedBook) : Prop :=
  ∀ x ∈ b.book.ladders.entries, b.index x.ids.clientId x.ids.clientOrderId =
    some x.ids.marketOrderId

theorem exact_iff : b.Exact ↔ ∀ c, b.ExactFor c :=
  ⟨fun h _ x hx _ => h x hx, fun h x hx => h x.ids.clientId x hx rfl⟩

theorem Exact.lookup_eq (h : b.WF) (he : b.Exact) (c o : ℕ) : b.lookup c o = b.book.find? c o := by
  cases hl : b.lookup c o with
  | some x =>
    obtain ⟨hx, rfl, rfl, -⟩ := lookup_eq_some h hl
    refine (PriceTimeBook.find?_eq_some (fun x hx y hy hc ho => ?_) hx).symm
    exact ExactFor.unique h (exact_iff.mp he _) hx hy rfl hc.symm ho
  | none =>
    have hi := (lookup_eq_none h).mp hl
    symm
    refine List.find?_eq_none.mpr fun x hx hco => ?_
    obtain ⟨rfl, rfl⟩ := of_decide_eq_true hco
    rw [he x hx] at hi
    exact Option.some_ne_none _ hi

theorem exact_new : new.Exact := exact_iff.mpr fun _ => exactFor_new

theorem exact_add (h : b.WF) (he : b.Exact) (hn : n.Admissible)
    (hfree : b.book.find? n.clientId n.clientOrderId = none) : (b.add n).1.Exact := by
  refine exact_iff.mpr fun c => exactFor_add h (exact_iff.mp he c) hn ?_
  rintro rfl x hx hxc ho
  have := List.find?_eq_none.mp hfree x hx
  simp [hxc, ho] at this

theorem exact_cancel (h : b.WF) (he : b.Exact) (c o t : ℕ) : (b.cancel c o t).1.Exact :=
  exact_iff.mpr fun c' => exactFor_cancel h (exact_iff.mp he c') c o t

end IndexedBook

end Exchange
