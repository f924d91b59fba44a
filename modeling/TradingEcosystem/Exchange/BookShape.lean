import TradingEcosystem.Exchange.Fills
import TradingEcosystem.Exchange.Runs

namespace Exchange

open Common

structure Prioritized (L : Level ℤ MEOrder) : Prop where
  increasing : L.orders.Pairwise fun x y => x.priority < y.priority
  le_id : ∀ o ∈ L.orders, o.priority ≤ o.ids.marketOrderId

namespace Prioritized

variable {p : ℤ} {o : MEOrder} {os : List MEOrder} {ls : List (Level ℤ MEOrder)} {side : Side}

theorem sublist {K L : Level ℤ MEOrder} (h : Prioritized L) (hsub : K.orders.Sublist L.orders) :
    Prioritized K :=
  ⟨h.increasing.sublist hsub, fun o ho => h.le_id o (hsub.subset ho)⟩

theorem withQty (h : Prioritized ⟨p, o :: os⟩) (q : ℕ) : Prioritized ⟨p, o.withQty q :: os⟩ where
  increasing := List.pairwise_cons.mpr (List.pairwise_cons.mp h.increasing)
  le_id := fun x hx => by
    rcases List.mem_cons.mp hx with rfl | hx
    · exact h.le_id o (List.mem_cons_self ..)
    · exact h.le_id x (List.mem_cons_of_mem _ hx)

theorem sweep (g : MEOrderBook.Aggressor) (price : ℤ) (leavesQty : ℕ) (hn : Ladder.NonEmpty ls)
    (h : ∀ L ∈ ls, Prioritized L) : ∀ L ∈ (sweep g price leavesQty ls).left, Prioritized L :=
  sweep_levels g price leavesQty (fun _ _ _ _ hL => hL.sublist (List.sublist_cons_self ..))
    (fun _ _ _ q _ _ hL => hL.withQty q) hn h

theorem le_last {L : Level ℤ MEOrder} {xs : List MEOrder} {z x : MEOrder} (h : Prioritized L)
    (hL : L.orders = xs ++ [z]) (hx : x ∈ L.orders) : x.priority ≤ z.priority := by
  have hinc := h.increasing
  rw [hL] at hx hinc
  rcases List.mem_append.mp hx with hx | hx
  · exact ((List.pairwise_append.mp hinc).2.2 x hx z (List.mem_singleton_self z)).le
  · rw [List.mem_singleton.mp hx]

theorem nextPriority_mem (hsort : Ladder.Sorted (better side) ls) {L : Level ℤ MEOrder} (hL : L ∈ ls)
    {xs : List MEOrder} {z : MEOrder} (hz : L.orders = xs ++ [z]) :
    PriceTimeBook.nextPriority L.price ls = (z.priority + 1) % 2 ^ 64 := by
  have hnodup : (ls.map Level.price).Nodup := by
    refine List.Pairwise.imp ?_ hsort
    rintro a _ hb rfl
    exact better_irrefl side a hb
  unfold PriceTimeBook.nextPriority
  cases hf : ls.find? (fun K => decide (K.price = L.price)) with
  | none =>
    have := List.find?_eq_none.mp hf L hL
    simp at this
  | some K =>
    have hK : K.price = L.price := by simpa using List.find?_some hf
    obtain rfl := List.inj_on_of_nodup_map hnodup (List.mem_of_find?_eq_some hf) hL hK
    simp [hz]

theorem nextPriority_le (h : ∀ L ∈ ls, Prioritized L) {next : ℕ} (hpos : 0 < next)
    (hfresh : ∀ x ∈ Ladder.entries ls, x.ids.marketOrderId < next) (price : ℤ) :
    PriceTimeBook.nextPriority price ls ≤ next := by
  unfold PriceTimeBook.nextPriority
  cases hf : ls.find? (fun K => decide (K.price = price)) with
  | none => exact hpos
  | some K =>
    dsimp only
    cases hlast : K.orders.getLast? with
    | none => exact hpos
    | some z =>
      have hK := List.mem_of_find?_eq_some hf
      have hz := List.mem_of_getLast? hlast
      have hle := (h K hK).le_id z hz
      have hlt := hfresh z (Ladder.mem_entries.mpr ⟨K, hK, hz⟩)
      exact (Nat.mod_le _ _).trans (by omega)

theorem insert (h : ∀ L ∈ ls, Prioritized L) (hok : SideOk side ls)
    (hfresh : ∀ x ∈ Ladder.entries ls, x.ids.marketOrderId < o.ids.marketOrderId)
    (hpos : 0 < o.ids.marketOrderId) (hroom : o.ids.marketOrderId < 2 ^ 64)
    (hprio : o.priority = PriceTimeBook.nextPriority o.price ls) :
    ∀ L ∈ Ladder.insert (better side) o.price o ls, Prioritized L := by
  have hle : o.priority ≤ o.ids.marketOrderId := hprio ▸ nextPriority_le h hpos hfresh o.price
  intro K hK
  rcases Ladder.mem_insert hK with hK | rfl | ⟨L, hL, hp, rfl⟩
  · exact h K hK
  · exact ⟨List.pairwise_singleton _ _, fun x hx => by rwa [List.mem_singleton.mp hx]⟩
  · obtain ⟨xs, z, hz⟩ : ∃ xs z, L.orders = xs ++ [z] :=
      ⟨_, _, (List.dropLast_append_getLast (hok.nonEmpty L hL)).symm⟩
    have hmem : z ∈ L.orders := hz ▸ List.mem_append_right _ (List.mem_singleton_self z)
    have hzid := (h L hL).le_id z hmem
    have hzlt := hfresh z (Ladder.mem_entries.mpr ⟨L, hL, hmem⟩)
    have hnew : o.priority = z.priority + 1 := by
      rw [hprio, ← hp, nextPriority_mem hok.sorted hL hz, Nat.mod_eq_of_lt (by omega)]
    refine ⟨List.pairwise_append.mpr ⟨(h L hL).increasing, List.pairwise_singleton _ _, ?_⟩, ?_⟩
    · intro x hx y hy
      rw [List.mem_singleton.mp hy, hnew]
      exact Nat.lt_succ_of_le ((h L hL).le_last hz hx)
    · intro x hx
      rcases List.mem_append.mp hx with hx | hx
      · exact (h L hL).le_id x hx
      · rwa [List.mem_singleton.mp hx]

end Prioritized

def PriceTimeBook.Prioritized (b : PriceTimeBook) : Prop :=
  ∀ side : Side, side.IsBuyOrSell → ∀ L ∈ b.ladders.side side, Exchange.Prioritized L

namespace IndexedBook

variable {b : IndexedBook} {n : NewOrder}

theorem prioritized_new : new.book.Prioritized := by
  rintro side (rfl | rfl) L hL <;> cases hL

theorem prioritized_add (hw : b.WF) (h : b.book.Prioritized) (hn : n.Admissible)
    (hpos : 0 < b.book.nextMarketOrderId) (hroom : b.book.nextMarketOrderId < 2 ^ 64) :
    (b.add n).1.book.Prioritized := by
  have hs := hn.1
  have hopp : ∀ L ∈ (b.add n).1.book.ladders.side n.side.opposite, Exchange.Prioritized L := by
    rw [show (b.add n).1.book.ladders.side n.side.opposite = _ from
      place_side_opposite b.book b.fillId hs]
    exact Prioritized.sweep _ _ _ (hw.book.sides _ hs.opposite).nonEmpty (h _ hs.opposite)
  have hown : ∀ L ∈ (b.add n).1.book.ladders.side n.side, Exchange.Prioritized L := by
    rw [show (b.add n).1.book.ladders.side n.side = _ from place_side_own b.book b.fillId hs]
    split_ifs with hq
    · exact h _ hs
    · refine Prioritized.insert (o := b.book.remainder b.fillId n) (h _ hs) (hw.book.sides _ hs)
        (fun x hx => ?_) hpos hroom ?_
      · exact hw.book.fresh x ((b.book.ladders.mem_entries_side hs).mpr (.inl hx))
      · rw [← side_afterSweep b.book b.fillId hs]
        rfl
  intro side hside
  rcases hs with hd | hd <;> rcases hside with rfl | rfl <;>
    simp only [hd, Side.opposite] at hown hopp <;> assumption

theorem prioritized_cancel (hw : b.WF) (h : b.book.Prioritized) (c o t : ℕ) :
    (b.cancel c o t).1.book.Prioritized := by
  unfold IndexedBook.cancel
  cases hl : b.lookup c o with
  | none => exact h
  | some y =>
    have hs := (hw.book.order_ok (lookup_eq_some hw hl).1).1
    have hown : ∀ L ∈ (b.book.drop y).ladders.side y.side, Exchange.Prioritized L := by
      rw [PriceTimeBook.drop, Ladders.drop, Ladders.side_setSide]
      intro K hK
      obtain ⟨-, L, hL, -, hsub⟩ := Ladder.mem_remove hK
      exact (h _ hs L hL).sublist hsub
    have hopp : ∀ L ∈ (b.book.drop y).ladders.side y.side.opposite, Exchange.Prioritized L := by
      rw [PriceTimeBook.drop, Ladders.drop, Ladders.side_setSide_opposite _ hs]
      exact h _ hs.opposite
    intro side hside
    rcases hs with hd | hd <;> rcases hside with rfl | rfl <;>
      simp only [hd, Side.opposite] at hown hopp <;> assumption

theorem prioritized_call (hw : b.WF) (h : b.book.Prioritized) {c : Call} (hc : c.Admissible)
    (hpos : 0 < b.book.nextMarketOrderId) (hroom : b.book.nextMarketOrderId < 2 ^ 64) :
    (b.call c).1.book.Prioritized := by
  cases c with
  | add n => exact prioritized_add hw h hc hpos hroom
  | cancel clientId orderId tickerId => exact prioritized_cancel hw h _ _ _

theorem prioritized_run (calls : List Call) (hw : b.WF) (h : b.book.Prioritized)
    (hc : ∀ c ∈ calls, c.Admissible) (hpos : 0 < b.book.nextMarketOrderId)
    (hroom : b.book.nextMarketOrderId + numAdds calls < 2 ^ 64) :
    (b.run calls).1.book.Prioritized := by
  induction calls generalizing b with
  | nil => exact h
  | cons c calls ih =>
    have hcc := hc c (List.mem_cons_self ..)
    rw [numAdds_cons] at hroom
    refine ih (wf_call hw hcc) (prioritized_call hw h hcc hpos (by omega))
      (fun x hx => hc x (List.mem_cons_of_mem _ hx)) ?_ ?_
    · rw [next_call]
      omega
    · rw [next_call]
      omega

end IndexedBook

structure MEOrderBook.Structured (p : MEOrderBook) (bids asks : List (LevelShape MEOrderIds)) :
    Prop where
  rep : p.book.Rep .buy bids asks [] []
  fifo : ∀ L ∈ bids ++ asks, L.orders.Pairwise fun x y =>
    x.2.priority < y.2.priority ∧ x.2.ids.marketOrderId < y.2.ids.marketOrderId

theorem Refines.structured {p : MEOrderBook} {b : IndexedBook} (h : Refines p b) (hw : b.WF)
    (hprio : b.book.Prioritized) : ∃ bids asks, p.Structured bids asks := by
  obtain ⟨s, htr, hlad, -⟩ := h
  obtain ⟨bids, asks, hrep, rfl⟩ := htr.stores
  have hview : ∀ side : Side, side.IsBuyOrSell → ∀ L : LevelShape MEOrderIds,
      L.toLevel ∈ b.book.ladders.side side → L.orders.Pairwise fun x y =>
        x.2.priority < y.2.priority ∧ x.2.ids.marketOrderId < y.2.ids.marketOrderId := by
    intro side hs L hL
    have hboth := (hprio side hs _ hL).increasing.and ((hw.book.sides side hs).fifo _ hL)
    exact (List.pairwise_map (R := fun x y : MEOrder => x.priority < y.priority ∧
      x.ids.marketOrderId < y.ids.marketOrderId)).mp hboth
  refine ⟨bids, asks, hrep, fun L hL => ?_⟩
  rcases List.mem_append.mp hL with hL | hL
  · refine hview .buy (.inl rfl) L ?_
    rw [hlad]
    exact List.mem_map_of_mem (List.mem_map_of_mem hL)
  · refine hview .sell (.inr rfl) L ?_
    rw [hlad]
    exact List.mem_map_of_mem (List.mem_map_of_mem hL)

theorem meOrderBook_structured (tickerId : ℕ) (calls : List Call) (hc : ∀ c ∈ calls, c.Admissible)
    (hadds : numAdds calls < meMaxOrderIds) :
    ∃ p events bids asks, (MEOrderBook.new true tickerId).run calls = .ok (p, events) ∧
      p.Structured bids asks := by
  have hroom : IndexedBook.new.book.nextMarketOrderId + numAdds calls ≤ meMaxOrderIds := by
    simp only [IndexedBook.new, PriceTimeBook.new]
    omega
  have hmax : meMaxOrderIds < 2 ^ 64 := by decide
  obtain ⟨p, hrun, href, hw⟩ := (refines_new true tickerId).run calls IndexedBook.wf_new hc hroom
  have hprio := IndexedBook.prioritized_run calls IndexedBook.wf_new IndexedBook.prioritized_new hc
    Nat.one_pos (by omega)
  obtain ⟨bids, asks, hshape⟩ := href.structured hw hprio
  exact ⟨p, _, bids, asks, hrun, hshape⟩

theorem meOrderBook_structured_sample :
    ∃ p events bids asks, (MEOrderBook.new true 0).run sampleCalls = .ok (p, events) ∧
      p.Structured bids asks :=
  meOrderBook_structured 0 sampleCalls (by decide) (by decide)

end Exchange
