import TradingEcosystem.Exchange.Fills
import TradingEcosystem.Exchange.MatchingEngine

namespace Exchange

open Common

def own (c : ℕ) (os : List MEOrder) : List MEOrder :=
  os.filter fun o => decide (o.ids.clientId = c)

def sentTo (c : ℕ) (side : Side) (events : List Event) : List MEClientResponse :=
  sent (fun r => decide (r.clientId = c ∧ r.side = side)) events

section Sent

variable {c : ℕ} {side : Side}

@[simp] theorem own_nil : own c [] = [] := rfl

@[simp] theorem own_append (xs ys : List MEOrder) : own c (xs ++ ys) = own c xs ++ own c ys :=
  List.filter_append ..

theorem own_cons (o : MEOrder) (os : List MEOrder) :
    own c (o :: os) = if o.ids.clientId = c then o :: own c os else own c os := by
  by_cases h : o.ids.clientId = c <;> simp [own, h]

theorem mem_own {o : MEOrder} {os : List MEOrder} :
    o ∈ own c os ↔ o ∈ os ∧ o.ids.clientId = c := by simp [own]

end Sent

section Sweep

variable {c : ℕ} (g : MEOrderBook.Aggressor) (price : ℤ) (leavesQty : ℕ)

def Passive (g : MEOrderBook.Aggressor) (os : List MEOrder) : Prop :=
  ∀ o ∈ os, o.side = g.side.opposite ∧ 0 < o.qty

variable {g}

theorem SideOk.passive {ls : List (Level ℤ MEOrder)} (h : SideOk g.side.opposite ls) :
    Passive g (Ladder.entries ls) := fun _ ho => h.entry ho

variable (g) (hs : g.side.IsBuyOrSell) {ls : List (Level ℤ MEOrder)} (hn : Ladder.NonEmpty ls)
  (hp : Passive g (Ladder.entries ls))

include hs hn hp

theorem sweep_sentTo_aggressor :
    Fills g.clientId g.tickerId g.side g.clientOrderId leavesQty
      (sentTo g.clientId g.side (sweep g price leavesQty ls).events)
      (sweep g price leavesQty ls).leavesQty := by
  refine sweep_fills_aggressor g price leavesQty hn (by simp [aggressorFill]) fun o ho => ?_
  obtain ⟨hside, hpos⟩ := hp o ho
  refine ⟨hpos, fun q => ?_⟩
  simp [passiveFill, hside, hs.opposite_ne]

theorem sweep_sentTo_passive {id q : ℕ} {p : ℤ} (hr : Rests id p q (own c (Ladder.entries ls))) :
    ∃ q', Fills c g.tickerId g.side.opposite id q
        (sentTo c g.side.opposite (sweep g price leavesQty ls).events) q' ∧
      Rests id p q' (own c (Ladder.entries (sweep g price leavesQty ls).left)) := by
  refine sweep_fills_passive g price leavesQty hn (fun _ _ => rfl)
    (by simp [aggressorFill, hs.opposite_ne.symm]) (fun o ho => ?_) hr
  obtain ⟨hside, hpos⟩ := hp o ho
  exact ⟨hpos, by simp [passiveFill, hside], fun h => ⟨by simpa using h, hside⟩⟩

theorem sweep_sentTo_other (hc : g.clientId ≠ c) :
    sentTo c g.side (sweep g price leavesQty ls).events = [] := by
  refine List.filter_eq_nil_iff.mpr ?_
  refine sweep_responses g price leavesQty hn (by simp [aggressorFill, hc]) fun o ho q => ?_
  simp [passiveFill, (hp o ho).1, hs.opposite_ne]

end Sweep

section Calls

variable {c : ℕ} {d : Side} {b : IndexedBook} {n : NewOrder} {id q : ℕ} {p : ℤ}

def ownSide (c : ℕ) (d : Side) (b : IndexedBook) : List MEOrder :=
  own c (Ladder.entries (b.book.ladders.side d))

theorem sentTo_place (fillId : ℕ) :
    sentTo c d (b.book.place fillId n).2 =
      (if n.clientId = c ∧ n.side = d then [⟨.accepted, n.clientId, n.tickerId, n.clientOrderId,
        b.book.nextMarketOrderId, n.side, n.price, 0, n.qty⟩] else []) ++
      sentTo c d (b.book.swept fillId n).events := by
  have := sent_place (f := fun r => decide (r.clientId = c ∧ r.side = d)) b.book n fillId
  simp only [decide_eq_true_eq] at this
  exact this

theorem own_insert_perm (price : ℤ) (o : MEOrder) (ls : List (Level ℤ MEOrder)) :
    (own c (Ladder.entries (Ladder.insert (better d) price o ls))).Perm
      (own c (o :: Ladder.entries ls)) :=
  (Ladder.entries_insert_perm price o ls).filter _

theorem add_passive (hw : b.WF) (hs : n.side.IsBuyOrSell)
    (hr : Rests id p q (ownSide c n.side.opposite b)) :
    ∃ q', Fills c n.tickerId n.side.opposite id q (sentTo c n.side.opposite (b.add n).2) q' ∧
      Rests id p q' (ownSide c n.side.opposite (b.add n).1) := by
  have hok := hw.book.sides _ hs.opposite
  obtain ⟨q', hfills, hrests⟩ := sweep_sentTo_passive
    ⟨n.tickerId, n.clientId, n.side, n.clientOrderId, b.fillId⟩ n.price n.qty hs hok.nonEmpty
    hok.passive hr
  refine ⟨q', ?_, ?_⟩
  · have hsent := sentTo_place b.fillId (c := c) (d := n.side.opposite) (b := b) (n := n)
    rw [if_neg fun h => hs.opposite_ne h.2.symm] at hsent
    exact hsent ▸ hfills
  · unfold ownSide IndexedBook.add
    rw [place_side_opposite _ _ hs]
    exact hrests

theorem add_own (hw : b.WF) (hs : n.side.IsBuyOrSell) (hc : n.clientId = c)
    (hnil : ownSide c n.side b = []) :
    ∃ q fills, sentTo c n.side (b.add n).2 = ⟨.accepted, n.clientId, n.tickerId, n.clientOrderId,
        b.book.nextMarketOrderId, n.side, n.price, 0, n.qty⟩ :: fills ∧
      Fills c n.tickerId n.side n.clientOrderId n.qty fills q ∧
      Rests n.clientOrderId n.price q (ownSide c n.side (b.add n).1) := by
  have hok := hw.book.sides _ hs.opposite
  obtain rfl := hc
  have hfills := sweep_sentTo_aggressor
    ⟨n.tickerId, n.clientId, n.side, n.clientOrderId, b.fillId⟩ n.price n.qty hs hok.nonEmpty
    hok.passive
  refine ⟨_, _, ?_, hfills, ?_⟩
  · have hsent := sentTo_place b.fillId (c := n.clientId) (d := n.side) (b := b) (n := n)
    rw [if_pos ⟨rfl, rfl⟩] at hsent
    exact hsent
  · change Rests _ _ (b.book.swept b.fillId n).leavesQty _
    unfold ownSide at hnil ⊢
    unfold IndexedBook.add
    rw [place_side_own _ _ hs]
    split_ifs with hq
    · exact .inl ⟨hq, hnil⟩
    · refine Rests.perm ?_ (own_insert_perm ..)
      rw [own_cons, if_pos (show (b.book.remainder b.fillId n).ids.clientId = n.clientId from rfl),
        hnil]
      exact .inr ⟨_, rfl, rfl, rfl, rfl, Nat.pos_of_ne_zero hq⟩

theorem add_other (hw : b.WF) (hs : n.side.IsBuyOrSell) (hc : n.clientId ≠ c)
    (hr : Rests id p q (ownSide c n.side b)) :
    sentTo c n.side (b.add n).2 = [] ∧ Rests id p q (ownSide c n.side (b.add n).1) := by
  have hok := hw.book.sides _ hs.opposite
  refine ⟨?_, ?_⟩
  · have hsent := sentTo_place b.fillId (c := c) (d := n.side) (b := b) (n := n)
    rw [if_neg fun h => hc h.1] at hsent
    refine hsent.trans ?_
    exact sweep_sentTo_other ⟨n.tickerId, n.clientId, n.side, n.clientOrderId, b.fillId⟩ n.price
      n.qty hs hok.nonEmpty hok.passive hc
  · unfold ownSide at hr ⊢
    unfold IndexedBook.add
    rw [place_side_own _ _ hs]
    split_ifs with hq
    · exact hr
    · refine Rests.perm ?_ (own_insert_perm ..)
      rw [own_cons, if_neg (show (b.book.remainder b.fillId n).ids.clientId ≠ c from hc)]
      exact hr

theorem ownSide_drop (hw : b.WF) {o : MEOrder} (ho : o ∈ b.book.ladders.entries)
    (hd : d.IsBuyOrSell) :
    own c (Ladder.entries ((b.book.drop o).ladders.side d)) =
      (ownSide c d b).filter fun x => !decide (x.ids.marketOrderId = o.ids.marketOrderId) := by
  have hs := (hw.book.order_ok ho).1
  unfold ownSide PriceTimeBook.drop Ladders.drop
  by_cases hside : o.side = d
  · subst hside
    rw [Ladders.side_setSide, Ladder.entries_remove, own, own, List.filter_filter,
      List.filter_filter]
    simp only [Bool.and_comm]
  · have hopp := hs.eq_opposite hd hside
    subst hopp
    rw [Ladders.side_setSide_opposite _ hs]
    refine (List.filter_eq_self.mpr fun x hx => ?_).symm
    -- an order of the other side cannot carry the id of `o`
    simp only [Bool.not_eq_true', decide_eq_false_iff_not]
    intro hid
    have hmem := (mem_own.mp hx).1
    have hxo := hw.book.eq_of_id ((b.book.ladders.mem_entries_side hs).mpr (.inr hmem)) ho hid
    subst hxo
    obtain ⟨L, hL, hxL⟩ := Ladder.mem_entries.mp hmem
    exact hs.opposite_ne ((hw.book.sides _ hs.opposite).orders L hL x hxL).side_eq.symm

theorem mem_ownSide (hd : d.IsBuyOrSell) {o : MEOrder} (ho : o ∈ ownSide c d b) :
    o ∈ b.book.ladders.entries ∧ o.ids.clientId = c :=
  ⟨(b.book.ladders.mem_entries_side hd).mpr (.inl (mem_own.mp ho).1), (mem_own.mp ho).2⟩

theorem ownSide_side (hw : b.WF) (hd : d.IsBuyOrSell) {o : MEOrder} (ho : o ∈ ownSide c d b) :
    o.side = d :=
  ((hw.book.sides _ hd).entry (mem_own.mp ho).1).1

theorem mem_ownSide_of (hw : b.WF) {o : MEOrder} (ho : o ∈ b.book.ladders.entries)
    (hc : o.ids.clientId = c) : o ∈ ownSide c o.side b :=
  mem_own.mpr ⟨(hw.book.order_ok ho).2.2.2, hc⟩

variable {c' o t : ℕ}

theorem cancel_other (hw : b.WF) (hc : c' ≠ c) (hd : d.IsBuyOrSell) :
    sentTo c d (b.cancel c' o t).2 = [] ∧ ownSide c d (b.cancel c' o t).1 = ownSide c d b := by
  unfold IndexedBook.cancel
  cases hl : b.lookup c' o with
  | none => exact ⟨by simp [PriceTimeBook.rejected, sentTo, sent_response, hc], rfl⟩
  | some y =>
    obtain ⟨hy, hyc, -, -⟩ := IndexedBook.lookup_eq_some hw hl
    refine ⟨by simp [PriceTimeBook.canceled, sentTo, sent_response, sent_update, hc], ?_⟩
    refine (ownSide_drop hw hy hd).trans (List.filter_eq_self.mpr fun x hx => ?_)
    simp only [Bool.not_eq_true', decide_eq_false_iff_not]
    obtain ⟨hxm, hxc⟩ := mem_ownSide hd hx
    intro hid
    exact hc (by rw [← hyc, ← hw.book.eq_of_id hxm hy hid, hxc])

theorem cancel_own_none (hw : b.WF)
    (hno : ∀ x ∈ b.book.ladders.entries, x.ids.clientId = c → x.ids.clientOrderId ≠ o) :
    b.cancel c o t = (b, PriceTimeBook.rejected c o t) := by
  unfold IndexedBook.cancel
  cases hl : b.lookup c o with
  | none => rfl
  | some y =>
    obtain ⟨hy, hyc, hyo, -⟩ := IndexedBook.lookup_eq_some hw hl
    exact absurd hyo (hno y hy hyc)

theorem sentTo_rejected (hd : d.IsBuyOrSell) : sentTo c d (PriceTimeBook.rejected c' o t) = [] := by
  rcases hd with rfl | rfl <;> simp [PriceTimeBook.rejected, sentTo, sent_response]

theorem cancel_own_some (hw : b.WF) (he : b.ExactFor c) {side : Side} (hs : side.IsBuyOrSell)
    {y : MEOrder} (hy : ownSide c side b = [y]) :
    sentTo c side (b.cancel c y.ids.clientOrderId t).2 =
        [⟨.canceled, c, t, y.ids.clientOrderId, y.ids.marketOrderId, side, y.price, qtyInvalid,
          y.qty⟩] ∧
      ownSide c side (b.cancel c y.ids.clientOrderId t).1 = [] ∧
      sentTo c side.opposite (b.cancel c y.ids.clientOrderId t).2 = [] ∧
      ownSide c side.opposite (b.cancel c y.ids.clientOrderId t).1 = ownSide c side.opposite b := by
  have hmem : y ∈ ownSide c side b := hy ▸ List.mem_singleton_self y
  obtain ⟨hym, hyc⟩ := mem_ownSide hs hmem
  have hyside := ownSide_side hw hs hmem
  have hcancel : b.cancel c y.ids.clientOrderId t =
      (⟨b.book.drop y, b.index.forget y⟩, PriceTimeBook.canceled c y.ids.clientOrderId t y) := by
    unfold IndexedBook.cancel
    rw [he.lookup hw hym hyc]
  rw [hcancel]
  refine ⟨?_, ?_, ?_, ?_⟩
  · simp [PriceTimeBook.canceled, sentTo, sent_response, sent_update, hyside]
  · refine (ownSide_drop hw hym hs).trans ?_
    rw [hy]
    simp
  · simp [PriceTimeBook.canceled, sentTo, sent_response, sent_update, hyside, hs.opposite_ne.symm]
  · refine (ownSide_drop hw hym hs.opposite).trans (List.filter_eq_self.mpr fun x hx => ?_)
    simp only [Bool.not_eq_true', decide_eq_false_iff_not]
    intro hid
    have hxs := ownSide_side hw hs.opposite hx
    rw [hw.book.eq_of_id (mem_ownSide hs.opposite hx).1 hym hid, hyside] at hxs
    exact hs.opposite_ne hxs.symm

theorem call_response (hw : b.WF) {req : MEClientRequest} (hreq : req.Admissible)
    {r : MEClientResponse} (hr : r ∈ clientResponses (b.call req.call).2) :
    r.tickerId = req.tickerId ∧
      (r.side.IsBuyOrSell ∨ r.type = .cancelRejected ∧ r.side = .invalid) := by
  obtain ⟨-, -, hcall⟩ := hreq
  unfold MEClientRequest.call at hr hcall
  split_ifs at hr hcall with hnew
  · obtain ⟨hs, -⟩ := hcall
    have hok := hw.book.sides _ hs.opposite
    have hsweep : ∀ r ∈ clientResponses (b.book.swept b.fillId ⟨req.clientId, req.orderId,
        req.tickerId, req.side, req.price, req.qty⟩).events,
        r.tickerId = req.tickerId ∧ r.side.IsBuyOrSell :=
      sweep_responses (P := fun r => r.tickerId = req.tickerId ∧ r.side.IsBuyOrSell) _ _ _
        hok.nonEmpty (fun _ _ _ => ⟨rfl, hs⟩)
        fun o ho _ => ⟨rfl, (congrArg Side.IsBuyOrSell (hok.entry ho).1).mpr hs.opposite⟩
    simp only [IndexedBook.call, IndexedBook.add, PriceTimeBook.place] at hr
    split_ifs at hr with hq <;>
      simp only [PriceTimeBook.accepted, PriceTimeBook.added, List.cons_append,
        clientResponses_response, clientResponses_append, clientResponses_update,
        clientResponses_nil, List.append_nil, List.mem_cons] at hr <;>
      rcases hr with rfl | hr
    · exact ⟨rfl, .inl hs⟩
    · exact ⟨(hsweep r hr).1, .inl (hsweep r hr).2⟩
    · exact ⟨rfl, .inl hs⟩
    · exact ⟨(hsweep r hr).1, .inl (hsweep r hr).2⟩
  · simp only [IndexedBook.call, IndexedBook.cancel] at hr
    cases hl : b.lookup req.clientId req.orderId with
    | none =>
      rw [hl] at hr
      rw [List.mem_singleton.mp hr]
      exact ⟨rfl, .inr ⟨rfl, rfl⟩⟩
    | some y =>
      obtain ⟨hy, -⟩ := IndexedBook.lookup_eq_some hw hl
      rw [hl] at hr
      rw [List.mem_singleton.mp hr]
      exact ⟨rfl, .inl (hw.book.order_ok hy).1⟩

end Calls

end Exchange
