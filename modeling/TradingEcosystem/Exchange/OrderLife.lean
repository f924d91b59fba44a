import TradingEcosystem.Exchange.Fills
import TradingEcosystem.Exchange.OrderIndex

namespace Exchange

open Common

def addsOf (calls : List Call) : List NewOrder :=
  calls.filterMap fun
    | .add n => some n
    | .cancel .. => none

def responsesOf (m : ℕ) (events : List Event) : List MEClientResponse :=
  sent (fun r => decide (r.marketOrderId = m)) events

def ordersOf (m : ℕ) (os : List MEOrder) : List MEOrder :=
  os.filter fun o => decide (o.ids.marketOrderId = m)

def restingQty (ladders : Ladders MEOrder) (m : ℕ) : ℕ :=
  ((ordersOf m ladders.entries).map OrderInfo.qty).sum

inductive Life (n : NewOrder) : List MEClientResponse → ℕ → Prop
  | accepted {r : MEClientResponse} (type : r.type = .accepted) (client : r.clientId = n.clientId)
      (order : r.clientOrderId = n.clientOrderId) (side : r.side = n.side) (exec : r.execQty = 0)
      (leaves : r.leavesQty = n.qty) : Life n [r] n.qty
  | filled {rs : List MEClientResponse} {q : ℕ} {r : MEClientResponse} (h : Life n rs q)
      (fill : IsFill n.clientId r.tickerId n.side n.clientOrderId q r) :
      Life n (rs ++ [r]) r.leavesQty
  | canceled {rs : List MEClientResponse} {q : ℕ} {r : MEClientResponse} (h : Life n rs q)
      (pos : 0 < q) (type : r.type = .canceled) (client : r.clientId = n.clientId)
      (order : r.clientOrderId = n.clientOrderId) (side : r.side = n.side)
      (leaves : r.leavesQty = q) : Life n (rs ++ [r]) 0

def execQtyTo (side : Side) (events : List Event) : ℕ :=
  ((sent (fun r => decide (r.type = .filled ∧ r.side = side)) events).map
    MEClientResponse.execQty).sum

def tradeQty (events : List Event) : ℕ :=
  (((marketUpdates events).filter fun u => decide (u.type = .trade)).map MEMarketUpdate.qty).sum

section Life

variable {n : NewOrder} {rs fs : List MEClientResponse} {t q q' : ℕ}

theorem Life.fills (h : Life n rs q) (k : Fills n.clientId t n.side n.clientOrderId q fs q') :
    Life n (rs ++ fs) q' := by
  induction k generalizing rs with
  | nil q => simpa using h
  | @cons q q' r fs head tail ih =>
    have hstep : Life n (rs ++ [r]) r.leavesQty := .filled h (head.ticker ▸ head)
    rw [show rs ++ r :: fs = rs ++ [r] ++ fs by simp]
    exact ih hstep

end Life

section Balance

theorem execQtyTo_append (side : Side) (xs ys : List Event) :
    execQtyTo side (xs ++ ys) = execQtyTo side xs + execQtyTo side ys := by
  simp [execQtyTo, sent_append]

theorem tradeQty_append (xs ys : List Event) : tradeQty (xs ++ ys) = tradeQty xs + tradeQty ys := by
  simp [tradeQty]

def Balanced (events : List Event) : Prop :=
  ∀ side : Side, side.IsBuyOrSell → execQtyTo side events = tradeQty events

theorem Balanced.append {xs ys : List Event} (hx : Balanced xs) (hy : Balanced ys) :
    Balanced (xs ++ ys) := fun side hs => by
  rw [execQtyTo_append, tradeQty_append, hx side hs, hy side hs]

theorem balanced_tradeEvents (g : MEOrderBook.Aggressor) (hs : g.side.IsBuyOrSell) {o : MEOrder}
    (ho : o.side = g.side.opposite) (fillQty leavesQty : ℕ) {u : MEMarketUpdate}
    (hu : u.type ≠ .trade) :
    Balanced (tradeEvents g o fillQty leavesQty ++ [.update u]) := by
  have htrade : tradeQty (tradeEvents g o fillQty leavesQty ++ [.update u]) = fillQty := by
    simp [tradeQty, tradeEvents, tradeUpdate, hu]
  intro side hside
  rw [htrade]
  rcases hs with hg | hg <;> rcases hside with rfl | rfl <;>
    simp [execQtyTo, tradeEvents, aggressorFill, passiveFill, sent_response, sent_update, ho, hg,
      Side.opposite]

theorem balanced_of_none {events : List Event}
    (hr : ∀ r ∈ clientResponses events, r.type ≠ .filled)
    (hu : ∀ u ∈ marketUpdates events, u.type ≠ .trade) : Balanced events := by
  intro side _
  have hsent : sent (fun r => decide (r.type = .filled ∧ r.side = side)) events = [] :=
    List.filter_eq_nil_iff.mpr fun r hr' => by simp [hr r hr']
  have htrade : (marketUpdates events).filter (fun u => decide (u.type = .trade)) = [] :=
    List.filter_eq_nil_iff.mpr fun u hu' => by simp [hu u hu']
  rw [execQtyTo, tradeQty, hsent, htrade]
  rfl

theorem balanced_nil : Balanced [] := balanced_of_none (by simp) (by simp)

theorem sweep_balanced (g : MEOrderBook.Aggressor) (price : ℤ) (leavesQty : ℕ)
    {ls : List (Level ℤ MEOrder)} (hn : Ladder.NonEmpty ls) (hs : g.side.IsBuyOrSell)
    (hp : ∀ o ∈ Ladder.entries ls, o.side = g.side.opposite) :
    Balanced (sweep g price leavesQty ls).events := by
  induction leavesQty, ls, hn using sweep_induct g price with
  | nil k hn => exact balanced_nil
  | zero ls hn =>
    rw [sweep_zero]
    exact balanced_nil
  | stop k L ls hn hx =>
    rw [sweep_stop g price ls k hx]
    exact balanced_nil
  | part k _ o os ls hn h0 hx hq =>
    rw [sweep_part g price os ls h0 hx hq]
    exact balanced_tradeEvents g hs (hp o (by simp)) _ _ (by simp)
  | filled k p' o os ls hn hn' h0 hx hq ih =>
    rw [sweep_filled g price os ls h0 hx hq]
    refine (balanced_tradeEvents g hs (hp o (by simp)) _ _ (by simp)).append (ih fun x hx => hp x ?_)
    rw [entries_keep_append] at hx
    exact List.mem_cons_of_mem _ hx

theorem call_balanced {b : IndexedBook} {c : Call} (hw : b.WF) (hc : c.Admissible) :
    Balanced (b.call c).2 := by
  cases c with
  | add n =>
    have hok := hw.book.sides _ (Side.IsBuyOrSell.opposite hc.1)
    have hswept : Balanced (b.book.swept b.fillId n).events :=
      sweep_balanced _ _ _ hok.nonEmpty hc.1 fun o ho => (hok.entry ho).1
    have haccepted : Balanced [b.book.accepted n] := balanced_of_none
      (by simp [PriceTimeBook.accepted]) (by simp [PriceTimeBook.accepted])
    have hadded : ∀ o, Balanced [PriceTimeBook.added o] := fun o => balanced_of_none
      (by simp [PriceTimeBook.added]) (by simp [PriceTimeBook.added])
    simp only [IndexedBook.call, IndexedBook.add, PriceTimeBook.place]
    split_ifs with hq
    · exact haccepted.append hswept
    · exact (haccepted.append hswept).append (hadded _)
  | cancel clientId orderId tickerId =>
    simp only [IndexedBook.call, IndexedBook.cancel]
    cases b.lookup clientId orderId with
    | none =>
      exact balanced_of_none (by simp [PriceTimeBook.rejected]) (by simp [PriceTimeBook.rejected])
    | some o =>
      exact balanced_of_none (by simp [PriceTimeBook.canceled]) (by simp [PriceTimeBook.canceled])

theorem run_balanced {b : IndexedBook} (calls : List Call) (hw : b.WF)
    (hc : ∀ c ∈ calls, c.Admissible) : Balanced (b.run calls).2 := by
  induction calls generalizing b with
  | nil => exact balanced_nil
  | cons c calls ih =>
    have hcc := hc c (List.mem_cons_self ..)
    exact (call_balanced hw hcc).append (ih (IndexedBook.wf_call hw hcc)
      fun x hx => hc x (List.mem_cons_of_mem _ hx))

end Balance

section Lives

variable {b : IndexedBook} {n : NewOrder} {m : ℕ}

structure LivesAs (n : NewOrder) (m : ℕ) (b : IndexedBook) (rs : List MEClientResponse) (q : ℕ) :
    Prop where
  life : Life n rs q
  rests : Rests n.clientOrderId n.price q (ordersOf m b.book.ladders.entries)
  owner : ∀ o ∈ ordersOf m b.book.ladders.entries, o.ids.clientId = n.clientId ∧ o.side = n.side

theorem Rests.of_append {id q : ℕ} {p : ℤ} {xs ys : List MEOrder} (h : Rests id p q (xs ++ ys)) :
    (xs = [] ∧ Rests id p q ys) ∨ (ys = [] ∧ Rests id p q xs) := by
  cases xs with
  | nil => exact .inl ⟨rfl, h⟩
  | cons x xs =>
    obtain ⟨hnil, -⟩ := h.cons
    obtain ⟨rfl, rfl⟩ := List.append_eq_nil_iff.mp hnil
    exact .inr ⟨rfl, by simpa using h⟩

theorem mem_ordersOf {o : MEOrder} {os : List MEOrder} :
    o ∈ ordersOf m os ↔ o ∈ os ∧ o.ids.marketOrderId = m := by simp [ordersOf]

theorem ordersOf_perm {s : Ladders MEOrder} {side : Side} (hs : side.IsBuyOrSell) (m : ℕ) :
    (ordersOf m s.entries).Perm (ordersOf m (Ladder.entries (s.side side)) ++
      ordersOf m (Ladder.entries (s.side side.opposite))) := by
  have := (s.entries_perm hs).filter fun o => decide (o.ids.marketOrderId = m)
  rwa [List.filter_append] at this

theorem responsesOf_place (fillId : ℕ) :
    responsesOf m (b.book.place fillId n).2 =
      (if b.book.nextMarketOrderId = m then [⟨.accepted, n.clientId, n.tickerId, n.clientOrderId,
        b.book.nextMarketOrderId, n.side, n.price, 0, n.qty⟩] else []) ++
      responsesOf m (b.book.swept fillId n).events := by
  have := sent_place (f := fun r => decide (r.marketOrderId = m)) b.book n fillId
  simp only [decide_eq_true_eq] at this
  exact this

theorem ordersOf_place_own (hs : n.side.IsBuyOrSell) :
    (ordersOf m (Ladder.entries ((b.add n).1.book.ladders.side n.side))).Perm
      ((if b.book.nextMarketOrderId = m ∧ (b.book.swept b.fillId n).leavesQty ≠ 0 then
        [b.book.remainder b.fillId n] else []) ++
        ordersOf m (Ladder.entries (b.book.ladders.side n.side))) := by
  have hid : (b.book.remainder b.fillId n).ids.marketOrderId = b.book.nextMarketOrderId := rfl
  unfold IndexedBook.add
  rw [place_side_own _ _ hs]
  split_ifs with hq hm hm
  · exact absurd hq hm.2
  · exact .refl _
  · refine ((Ladder.entries_insert_perm ..).filter _).trans ?_
    rw [List.filter_cons, hid, if_pos (decide_eq_true hm.1)]
    rfl
  · refine ((Ladder.entries_insert_perm ..).filter _).trans ?_
    rw [List.filter_cons, hid, if_neg fun h => hm ⟨of_decide_eq_true h, hq⟩]
    rfl

theorem swept_left_mem (hw : b.WF) (hs : n.side.IsBuyOrSell) {o : MEOrder}
    (ho : o ∈ Ladder.entries (b.book.swept b.fillId n).left) :
    ∃ x ∈ b.book.ladders.entries, x.ids = o.ids ∧ x.side = o.side := by
  have hok := hw.book.sides _ hs.opposite
  have hids := PriceTimeBook.sweep_ids
    ⟨n.tickerId, n.clientId, n.side, n.clientOrderId, b.fillId⟩ n.price n.qty hok.nonEmpty
  have hmem : o.ids ∈ (Ladder.entries (b.book.ladders.side n.side.opposite)).map OrderInfo.ids := by
    rw [hids]
    exact List.mem_append_right _ (List.mem_map_of_mem ho)
  obtain ⟨x, hx, hid⟩ := List.mem_map.mp hmem
  refine ⟨x, (b.book.ladders.mem_entries_side hs).mpr (.inr hx), hid, ?_⟩
  rw [(hok.entry hx).1]
  exact ((hok.sweep ⟨n.tickerId, n.clientId, n.side, n.clientOrderId, b.fillId⟩ n.price
    n.qty).entry ho).1.symm

theorem mem_add (hw : b.WF) (hs : n.side.IsBuyOrSell) {o : MEOrder}
    (ho : o ∈ (b.add n).1.book.ladders.entries) :
    o = b.book.remainder b.fillId n ∨ ∃ x ∈ b.book.ladders.entries, x.ids = o.ids ∧
      x.side = o.side := by
  rcases ((b.add n).1.book.ladders.mem_entries_side hs).mp ho with ho | ho
  · have hown := place_side_own b.book b.fillId hs
    rw [show (b.add n).1.book.ladders.side n.side = _ from hown] at ho
    split_ifs at ho with hq
    · exact .inr ⟨o, (b.book.ladders.mem_entries_side hs).mpr (.inl ho), rfl, rfl⟩
    · rcases Ladder.mem_entries_insert.mp ho with rfl | ho
      · exact .inl rfl
      · exact .inr ⟨o, (b.book.ladders.mem_entries_side hs).mpr (.inl ho), rfl, rfl⟩
  · have hopp := place_side_opposite b.book b.fillId hs
    rw [show (b.add n).1.book.ladders.side n.side.opposite = _ from hopp] at ho
    exact .inr (swept_left_mem hw hs ho)

theorem mem_cancel (hw : b.WF) (k o t : ℕ) {x : MEOrder}
    (hx : x ∈ (b.cancel k o t).1.book.ladders.entries) : x ∈ b.book.ladders.entries := by
  unfold IndexedBook.cancel at hx
  cases hl : b.lookup k o with
  | none =>
    rw [hl] at hx
    exact hx
  | some y =>
    rw [hl] at hx
    exact ((hw.book.mem_drop (IndexedBook.lookup_eq_some hw hl).1).mp hx).1

theorem LivesAs.add {n' : NewOrder} {rs : List MEClientResponse} {q : ℕ}
    (h : LivesAs n' m b rs q) (hw : b.WF) (hn : n.Admissible) (hm : b.book.nextMarketOrderId ≠ m)
    (hfill : b.fillId ≠ m) :
    ∃ q', LivesAs n' m (b.add n).1 (rs ++ responsesOf m (b.add n).2) q' := by
  have hs := hn.1
  have hok := hw.book.sides _ hs.opposite
  have hpart := h.rests.perm (ordersOf_perm hs m).symm
  have howner : ∀ o ∈ b.book.ladders.entries, o.ids.marketOrderId = m →
      o.ids.clientId = n'.clientId ∧ o.side = n'.side :=
    fun o ho hid => h.owner o (mem_ordersOf.mpr ⟨ho, hid⟩)
  have hafter : (ordersOf m (b.add n).1.book.ladders.entries).Perm
      (ordersOf m (Ladder.entries (b.book.ladders.side n.side)) ++
        ordersOf m (Ladder.entries (b.book.swept b.fillId n).left)) := by
    refine (ordersOf_perm hs m).trans ?_
    have hown := ordersOf_place_own (m := m) (b := b) hs
    rw [if_neg fun h => hm h.1, List.nil_append] at hown
    have hopp : (b.add n).1.book.ladders.side n.side.opposite = (b.book.swept b.fillId n).left :=
      place_side_opposite _ _ hs
    rw [hopp]
    exact hown.append_right _
  have hsent : responsesOf m (b.add n).2 = responsesOf m (b.book.swept b.fillId n).events := by
    have := responsesOf_place (m := m) (b := b) (n := n) b.fillId
    rwa [if_neg hm, List.nil_append] at this
  have hsel : ∀ o ∈ Ladder.entries (b.book.ladders.side n.side.opposite), 0 < o.qty ∧
      (∀ q, decide ((passiveFill ⟨n.tickerId, n.clientId, n.side, n.clientOrderId, b.fillId⟩ o
        q).marketOrderId = m) = decide (o.ids.marketOrderId = m)) ∧
      (decide (o.ids.marketOrderId = m) = true → o.ids.clientId = n'.clientId ∧ o.side = n'.side) :=
    fun o ho => ⟨(hok.entry ho).2, fun _ => rfl, fun hid =>
      howner o ((b.book.ladders.mem_entries_side hs).mpr (.inr ho)) (of_decide_eq_true hid)⟩
  have hkept : ∀ o ∈ ordersOf m (b.add n).1.book.ladders.entries,
      o.ids.clientId = n'.clientId ∧ o.side = n'.side := by
    intro o ho
    obtain ⟨hmem, hid⟩ := mem_ordersOf.mp ho
    rcases mem_add hw hs hmem with rfl | ⟨x, hx, hxid, hxside⟩
    · exact absurd hid hm
    · rw [← hxid, ← hxside]
      exact howner x hx (by rw [hxid, hid])
  rw [hsent]
  rcases hpart.of_append with ⟨hnil, hopp⟩ | ⟨hnil, hown⟩
  · obtain ⟨q', hfills, hrests⟩ := sweep_fills_passive (f := fun r => decide (r.marketOrderId = m))
      ⟨n.tickerId, n.clientId, n.side, n.clientOrderId, b.fillId⟩ n.price n.qty hok.nonEmpty
      (fun _ _ => rfl) (fun _ _ _ => decide_eq_false hfill) hsel hopp
    refine ⟨q', h.life.fills hfills, Rests.perm ?_ hafter, hkept⟩
    rw [hnil]
    exact hrests
  · obtain ⟨q', hfills, hrests⟩ := sweep_fills_passive (f := fun r => decide (r.marketOrderId = m))
      ⟨n.tickerId, n.clientId, n.side, n.clientOrderId, b.fillId⟩ n.price n.qty hok.nonEmpty
      (fun _ _ => rfl) (fun _ _ _ => decide_eq_false hfill) hsel
      (show Rests n'.clientOrderId n'.price 0 _ from rests_zero.mpr hnil)
    obtain ⟨hsweep, rfl⟩ := hfills.zero
    refine ⟨q, ?_, Rests.perm ?_ hafter, hkept⟩
    · rw [show responsesOf m (b.book.swept b.fillId n).events = [] from hsweep, List.append_nil]
      exact h.life
    · rw [show ordersOf m (Ladder.entries (b.book.swept b.fillId n).left) = [] from
        rests_zero.mp hrests, List.append_nil]
      exact hown

theorem livesAs_new (hw : b.WF) (hn : n.Admissible)
    (hfill : b.fillId = b.book.nextMarketOrderId) :
    ∃ q, LivesAs n b.book.nextMarketOrderId (b.add n).1
      (responsesOf b.book.nextMarketOrderId (b.add n).2) q := by
  have hs := hn.1
  have hok := hw.book.sides _ hs.opposite
  have hfresh : ∀ o ∈ b.book.ladders.entries, o.ids.marketOrderId ≠ b.book.nextMarketOrderId :=
    fun o ho => (hw.book.fresh o ho).ne
  have hfills := sweep_fills_aggressor (f := fun r =>
      decide (r.marketOrderId = b.book.nextMarketOrderId))
    ⟨n.tickerId, n.clientId, n.side, n.clientOrderId, b.fillId⟩ n.price n.qty hok.nonEmpty
    (fun _ _ _ => decide_eq_true hfill) fun o ho => ⟨(hok.entry ho).2, fun _ =>
      decide_eq_false (hfresh o ((b.book.ladders.mem_entries_side hs).mpr (.inr ho)))⟩
  have hnone : ∀ {os : List MEOrder}, (∀ o ∈ os, ∃ x ∈ b.book.ladders.entries, x.ids = o.ids) →
      ordersOf b.book.nextMarketOrderId os = [] := by
    intro os hos
    refine List.filter_eq_nil_iff.mpr fun o ho => ?_
    obtain ⟨x, hx, hid⟩ := hos o ho
    simpa [← hid] using hfresh x hx
  have hafter : (ordersOf b.book.nextMarketOrderId (b.add n).1.book.ladders.entries).Perm
      (if (b.book.swept b.fillId n).leavesQty ≠ 0 then [b.book.remainder b.fillId n] else []) := by
    refine (ordersOf_perm hs _).trans ?_
    have hown := ordersOf_place_own (m := b.book.nextMarketOrderId) (b := b) hs
    rw [hnone fun o ho => ⟨o, (b.book.ladders.mem_entries_side hs).mpr (.inl ho), rfl⟩,
      List.append_nil] at hown
    have hopp : (b.add n).1.book.ladders.side n.side.opposite = (b.book.swept b.fillId n).left :=
      place_side_opposite _ _ hs
    have hleft : ordersOf b.book.nextMarketOrderId
        (Ladder.entries (b.book.swept b.fillId n).left) = [] := by
      refine hnone fun o ho => ?_
      obtain ⟨x, hx, hid, -⟩ := swept_left_mem hw hs ho
      exact ⟨x, hx, hid⟩
    rw [hopp, hleft, List.append_nil]
    simpa using hown
  have hsent := responsesOf_place (m := b.book.nextMarketOrderId) (b := b) (n := n) b.fillId
  rw [if_pos rfl] at hsent
  refine ⟨(b.book.swept b.fillId n).leavesQty, ?_, Rests.perm ?_ hafter, fun o ho => ?_⟩
  · rw [show responsesOf b.book.nextMarketOrderId (b.add n).2 = _ from hsent]
    exact (Life.accepted rfl rfl rfl rfl rfl rfl).fills hfills
  · split_ifs with hq
    · exact .inr ⟨_, rfl, rfl, rfl, rfl, Nat.pos_of_ne_zero hq⟩
    · exact .inl ⟨not_not.mp hq, rfl⟩
  · have := hafter.mem_iff.mp ho
    split_ifs at this with hq
    · rw [List.mem_singleton.mp this]
      exact ⟨rfl, rfl⟩
    · cases this

theorem ordersOf_drop (hw : b.WF) {y : MEOrder} (hy : y ∈ b.book.ladders.entries) :
    (ordersOf m (b.book.drop y).ladders.entries).Perm
      (if y.ids.marketOrderId = m then [] else ordersOf m b.book.ladders.entries) := by
  refine ((hw.book.drop_entries hy).filter _).trans (.of_eq ?_)
  rw [List.filter_filter]
  split_ifs with hm
  · refine List.filter_eq_nil_iff.mpr fun x _ => ?_
    simp [hm]
  · refine List.filter_congr fun x _ => ?_
    by_cases hx : x.ids.marketOrderId = m
    · simp [hx, Ne.symm hm]
    · simp [hx]

theorem LivesAs.cancel {n : NewOrder} {rs : List MEClientResponse} {q : ℕ} (h : LivesAs n m b rs q)
    (hw : b.WF) (hm : m ≠ orderIdInvalid) (c o t : ℕ) :
    ∃ q', LivesAs n m (b.cancel c o t).1 (rs ++ responsesOf m (b.cancel c o t).2) q' := by
  unfold IndexedBook.cancel
  cases hl : b.lookup c o with
  | none =>
    have hnil : responsesOf m (PriceTimeBook.rejected c o t) = [] := by
      simp [responsesOf, PriceTimeBook.rejected, sent_response, Ne.symm hm]
    refine ⟨q, ?_⟩
    rw [hnil, List.append_nil]
    exact h
  | some y =>
    obtain ⟨hy, hyc, hyo, -⟩ := IndexedBook.lookup_eq_some hw hl
    have hdrop := ordersOf_drop (m := m) hw hy
    have hsent : responsesOf m (PriceTimeBook.canceled c o t y) =
        if y.ids.marketOrderId = m then [⟨.canceled, c, t, o, y.ids.marketOrderId, y.side, y.price,
          qtyInvalid, y.qty⟩] else [] := by
      simp [responsesOf, PriceTimeBook.canceled, sent_response, sent_update]
    rw [hsent]
    by_cases hym : y.ids.marketOrderId = m
    · rw [if_pos hym] at hdrop ⊢
      have hmem : y ∈ ordersOf m b.book.ladders.entries := mem_ordersOf.mpr ⟨hy, hym⟩
      obtain ⟨hclient, hside⟩ := h.owner y hmem
      rcases h.rests with ⟨-, hnil⟩ | ⟨x, hone, hid, -, hqty, hpos⟩
      · rw [hnil] at hmem
        cases hmem
      · rw [hone] at hmem
        obtain rfl := List.mem_singleton.mp hmem
        refine ⟨0, .canceled h.life hpos rfl (hyc.symm.trans hclient) (hyo.symm.trans hid) hside
          hqty, rests_zero.mpr hdrop.eq_nil, fun z hz => ?_⟩
        cases hdrop.mem_iff.mp hz
    · rw [if_neg hym] at hdrop ⊢
      rw [List.append_nil]
      exact ⟨q, h.life, h.rests.perm hdrop, fun z hz => h.owner z (hdrop.mem_iff.mp hz)⟩

end Lives

section Run

variable {adds : List NewOrder} {events : List Event} {b : IndexedBook}

def Named (count : ℕ) (r : MEClientResponse) : Prop :=
  (r.type = .cancelRejected ∧ r.marketOrderId = orderIdInvalid) ∨
    ∃ i < count, r.marketOrderId = i + 1

theorem Named.mono {k k' : ℕ} {r : MEClientResponse} (h : Named k r) (hk : k ≤ k') : Named k' r := by
  rcases h with h | ⟨i, hi, hid⟩
  · exact .inl h
  · exact .inr ⟨i, hi.trans_le hk, hid⟩

structure Lives (adds : List NewOrder) (events : List Event) (b : IndexedBook) : Prop where
  next : b.book.nextMarketOrderId = adds.length + 1
  resting : ∀ o ∈ b.book.ladders.entries, 0 < o.ids.marketOrderId
  named : ∀ r ∈ clientResponses events, Named adds.length r
  life : ∀ i n, adds[i]? = some n → ∃ q, LivesAs n (i + 1) b (responsesOf (i + 1) events) q

theorem lives_new : Lives [] [] IndexedBook.new :=
  ⟨rfl, by simp [IndexedBook.new, PriceTimeBook.new, Ladders.entries], by simp, by simp⟩

theorem responsesOf_append (m : ℕ) (xs ys : List Event) :
    responsesOf m (xs ++ ys) = responsesOf m xs ++ responsesOf m ys := sent_append xs ys

theorem Lives.responsesOf_next (h : Lives adds events b) (hroom : adds.length + 1 < orderIdInvalid) :
    responsesOf (adds.length + 1) events = [] := by
  refine List.filter_eq_nil_iff.mpr fun r hr hid => ?_
  have hid := of_decide_eq_true hid
  rcases h.named r hr with ⟨-, hinv⟩ | ⟨i, hi, hi'⟩
  · omega
  · omega

theorem Lives.id_mem (h : Lives adds events b) (hw : b.WF) {o : MEOrder}
    (ho : o ∈ b.book.ladders.entries) : ∃ i < adds.length, o.ids.marketOrderId = i + 1 := by
  have hpos := h.resting o ho
  have hlt := hw.book.fresh o ho
  rw [h.next] at hlt
  exact ⟨o.ids.marketOrderId - 1, by omega, by omega⟩

theorem Lives.add (h : Lives adds events b) (hw : b.WF) {n : NewOrder} (hn : n.Admissible)
    (hroom : adds.length + 1 < 2 ^ 32) :
    Lives (adds ++ [n]) (events ++ (b.add n).2) (b.add n).1 where
  next := by
    rw [show (b.add n).1.book.nextMarketOrderId = _ from b.next_call (.add n), h.next,
      List.length_append]
    rfl
  resting := by
    intro o ho
    rcases mem_add hw hn.1 ho with rfl | ⟨x, hx, hid, -⟩
    · exact (Nat.succ_pos _).trans_eq h.next.symm
    · rw [← hid]
      exact h.resting x hx
  named := by
    have hfill : b.fillId = adds.length + 1 := by
      rw [IndexedBook.fillId, h.next, Nat.mod_eq_of_lt hroom]
    have hnew : adds.length < (adds ++ [n]).length := by simp
    have hok := hw.book.sides _ hn.1.opposite
    have hsweep : ∀ r ∈ clientResponses (b.book.swept b.fillId n).events,
        Named (adds ++ [n]).length r :=
      sweep_responses _ _ _ hok.nonEmpty (fun _ _ _ => .inr ⟨_, hnew, hfill⟩) fun o ho _ => by
        obtain ⟨i, hi, hid⟩ := h.id_mem hw ((b.book.ladders.mem_entries_side hn.1).mpr (.inr ho))
        exact .inr ⟨i, hi.trans hnew, hid⟩
    intro r hr
    rw [clientResponses_append] at hr
    rcases List.mem_append.mp hr with hr | hr
    · exact (h.named r hr).mono hnew.le
    · have hplace := sent_place (f := fun _ => true) b.book n b.fillId
      simp only [sent, List.filter_true, if_true] at hplace
      rw [show clientResponses (b.add n).2 = _ from hplace] at hr
      rcases List.mem_cons.mp hr with rfl | hr
      · exact .inr ⟨_, hnew, h.next⟩
      · exact hsweep r hr
  life := by
    have hfill : b.fillId = b.book.nextMarketOrderId := by
      rw [IndexedBook.fillId, h.next, Nat.mod_eq_of_lt hroom]
    intro i n' hi
    rw [responsesOf_append]
    rw [List.getElem?_append] at hi
    split_ifs at hi with hlt
    · obtain ⟨q, hlives⟩ := h.life i n' hi
      have hne : b.book.nextMarketOrderId ≠ i + 1 := by
        rw [h.next]
        omega
      exact hlives.add hw hn hne (hfill ▸ hne)
    · obtain ⟨hzero, rfl⟩ : i - adds.length = 0 ∧ n = n' := by
        cases hk : i - adds.length with
        | zero => simpa [hk] using hi
        | succ k => simp [hk] at hi
      obtain rfl : i = adds.length := by omega
      have hinv : adds.length + 1 < orderIdInvalid := hroom.trans (by decide)
      obtain ⟨q, hlives⟩ := livesAs_new hw hn hfill
      rw [h.responsesOf_next hinv, List.nil_append]
      rw [h.next] at hlives
      exact ⟨q, hlives⟩

theorem Lives.cancel (h : Lives adds events b) (hw : b.WF) (hroom : adds.length < 2 ^ 32)
    (c o t : ℕ) : Lives adds (events ++ (b.cancel c o t).2) (b.cancel c o t).1 where
  next := (b.next_call (.cancel c o t)).trans h.next
  resting := fun x hx => h.resting x (mem_cancel hw c o t hx)
  named := by
    intro r hr
    rw [clientResponses_append] at hr
    rcases List.mem_append.mp hr with hr | hr
    · exact h.named r hr
    · unfold IndexedBook.cancel at hr
      cases hl : b.lookup c o with
      | none =>
        rw [hl] at hr
        obtain rfl := List.mem_singleton.mp hr
        exact .inl ⟨rfl, rfl⟩
      | some y =>
        rw [hl] at hr
        obtain rfl := List.mem_singleton.mp hr
        exact .inr (h.id_mem hw (IndexedBook.lookup_eq_some hw hl).1)
  life := by
    intro i n hi
    obtain ⟨q, hlives⟩ := h.life i n hi
    have hlt : i < adds.length := (List.getElem?_eq_some_iff.mp hi).1
    have hne : i + 1 ≠ orderIdInvalid := by
      have : (2 : ℕ) ^ 32 < orderIdInvalid := by decide
      omega
    rw [responsesOf_append]
    exact hlives.cancel hw hne c o t

theorem addsOf_cons (c : Call) (calls : List Call) :
    addsOf (c :: calls) = addsOf [c] ++ addsOf calls := by
  cases c with
  | add n => rfl
  | cancel clientId orderId tickerId => rfl

theorem length_addsOf (calls : List Call) : (addsOf calls).length = numAdds calls := by
  induction calls with
  | nil => rfl
  | cons c calls ih =>
    rw [addsOf_cons, numAdds_cons, List.length_append, ih]
    cases c <;> rfl

theorem Lives.call (h : Lives adds events b) (hw : b.WF) {c : Call} (hc : c.Admissible)
    (hroom : adds.length + 1 < 2 ^ 32) :
    Lives (adds ++ addsOf [c]) (events ++ (b.call c).2) (b.call c).1 := by
  cases c with
  | add n => exact h.add hw hc hroom
  | cancel clientId orderId tickerId =>
    rw [show addsOf [.cancel clientId orderId tickerId] = [] from rfl, List.append_nil]
    exact h.cancel hw (by omega) _ _ _

theorem Lives.run (calls : List Call) (h : Lives adds events b) (hw : b.WF)
    (hc : ∀ c ∈ calls, c.Admissible) (hroom : adds.length + numAdds calls < meMaxOrderIds) :
    Lives (adds ++ addsOf calls) (events ++ (b.run calls).2) (b.run calls).1 := by
  induction calls generalizing adds events b with
  | nil =>
    rw [show addsOf [] = [] from rfl, List.append_nil]
    exact (List.append_nil events).symm ▸ h
  | cons c calls ih =>
    have hmax : meMaxOrderIds < 2 ^ 32 := by decide
    have hcc := hc c (List.mem_cons_self ..)
    rw [numAdds_cons] at hroom
    rw [addsOf_cons, ← List.append_assoc]
    have hstep := h.call hw hcc (by omega)
    have hrun := ih hstep (IndexedBook.wf_call hw hcc) (fun x hx => hc x (List.mem_cons_of_mem _ hx))
      (by rw [List.length_append, length_addsOf]; omega)
    rwa [List.append_assoc events] at hrun

theorem LivesAs.restingQty_eq {n : NewOrder} {m q : ℕ} {rs : List MEClientResponse}
    (h : LivesAs n m b rs q) : restingQty b.book.ladders m = q := by
  unfold restingQty
  rcases h.rests with ⟨rfl, hnil⟩ | ⟨o, hone, -, -, hqty, -⟩
  · rw [hnil]
    rfl
  · rw [hone]
    simpa using hqty

theorem orders_live_once (checked : Bool) (tickerId : ℕ) (calls : List Call)
    (hc : ∀ c ∈ calls, c.Admissible) (hadds : numAdds calls < meMaxOrderIds) :
    ∃ p events ladders, (MEOrderBook.new checked tickerId).run calls = .ok (p, events) ∧
      p.book.decode = some ladders ∧
      (∀ i n, (addsOf calls)[i]? = some n →
        Life n (responsesOf (i + 1) events) (restingQty ladders (i + 1))) ∧
      (∀ r ∈ clientResponses events, r.type = .cancelRejected ∨
        ∃ i < (addsOf calls).length, r.marketOrderId = i + 1) ∧
      execQtyTo .buy events = tradeQty events ∧ execQtyTo .sell events = tradeQty events := by
  have hroom : IndexedBook.new.book.nextMarketOrderId + numAdds calls ≤ meMaxOrderIds := by
    simp only [IndexedBook.new, PriceTimeBook.new]
    omega
  obtain ⟨p, hrun, href, -⟩ := (refines_new checked tickerId).run calls IndexedBook.wf_new hc hroom
  have hlives : Lives (addsOf calls) (IndexedBook.new.run calls).2 (IndexedBook.new.run calls).1 :=
    lives_new.run calls IndexedBook.wf_new hc (by simpa using hadds)
  have hbalanced := run_balanced calls IndexedBook.wf_new hc
  refine ⟨p, _, _, hrun, href.decode, fun i n hi => ?_, fun r hr => ?_, hbalanced .buy (.inl rfl),
    hbalanced .sell (.inr rfl)⟩
  · obtain ⟨q, hq⟩ := hlives.life i n hi
    rw [hq.restingQty_eq]
    exact hq.life
  · exact (hlives.named r hr).imp And.left id

theorem orders_live_once_sample :
    ∃ p events ladders, (MEOrderBook.new true 0).run sampleCalls = .ok (p, events) ∧
      p.book.decode = some ladders ∧
      (∀ i n, (addsOf sampleCalls)[i]? = some n →
        Life n (responsesOf (i + 1) events) (restingQty ladders (i + 1))) ∧
      (∀ r ∈ clientResponses events, r.type = .cancelRejected ∨
        ∃ i < (addsOf sampleCalls).length, r.marketOrderId = i + 1) ∧
      execQtyTo .buy events = tradeQty events ∧ execQtyTo .sell events = tradeQty events :=
  orders_live_once true 0 sampleCalls (by decide) (by decide)

end Run

end Exchange
