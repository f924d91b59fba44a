import TradingEcosystem.Common.BookLadder
import TradingEcosystem.Exchange.MEOrderBook

namespace Exchange

open Common

structure Swept (α : Type) where
  left : α
  leavesQty : ℕ
  removed : List MEOrder
  events : List Event

def Within (limit price : ℤ) : Side → Prop
  | .buy => price ≤ limit
  | _ => limit ≤ price

instance instDecidableWithin (limit price : ℤ) (side : Side) :
    Decidable (Within limit price side) := by
  cases side <;> exact inferInstanceAs (Decidable (_ ≤ _))

theorem noMoreCrosses_iff {side : Side} {limit price : ℤ} :
    MEOrderBook.noMoreCrosses side limit price ↔ ¬ Within limit price side := by
  cases side <;> simp [MEOrderBook.noMoreCrosses, Within]

def aggressorFill (g : MEOrderBook.Aggressor) (price : ℤ) (fillQty leavesQty : ℕ) :
    MEClientResponse :=
  ⟨.filled, g.clientId, g.tickerId, g.clientOrderId, g.newMarketOrderId, g.side, price, fillQty,
    leavesQty⟩

def passiveFill (g : MEOrderBook.Aggressor) (o : MEOrder) (fillQty : ℕ) : MEClientResponse :=
  ⟨.filled, o.ids.clientId, g.tickerId, o.ids.clientOrderId, o.ids.marketOrderId, o.side, o.price,
    fillQty, o.qty - fillQty⟩

def tradeUpdate (g : MEOrderBook.Aggressor) (price : ℤ) (fillQty : ℕ) : MEMarketUpdate :=
  ⟨.trade, orderIdInvalid, g.tickerId, g.side, price, fillQty, priorityInvalid⟩

/-- Both parties hear of a fill, the aggressor first, and then the market does: at the price of the
order that was resting. -/
def tradeEvents (g : MEOrderBook.Aggressor) (o : MEOrder) (fillQty leavesQty : ℕ) : List Event :=
  [.response (aggressorFill g o.price fillQty leavesQty), .response (passiveFill g o fillQty),
    .update (tradeUpdate g o.price fillQty)]

theorem fillEvents_eq_tradeEvents (g : MEOrderBook.Aggressor) (o : MEOrder)
    (fillQty leavesQty : ℕ) :
    MEOrderBook.fillEvents g o fillQty leavesQty = tradeEvents g o fillQty leavesQty := rfl

def filledEvents (g : MEOrderBook.Aggressor) (o : MEOrder) (leavesQty : ℕ) : List Event :=
  tradeEvents g o o.qty (leavesQty - o.qty) ++
    [.update ⟨.cancel, o.ids.marketOrderId, g.tickerId, o.side, o.price, o.qty, priorityInvalid⟩]

def partialEvents (g : MEOrderBook.Aggressor) (o : MEOrder) (leavesQty : ℕ) : List Event :=
  tradeEvents g o leavesQty 0 ++
    [.update ⟨.modify, o.ids.marketOrderId, g.tickerId, o.side, o.price, o.qty - leavesQty,
      o.priority⟩]

def sweepLevel (g : MEOrderBook.Aggressor) : ℕ → List MEOrder → Swept (List MEOrder)
  | leavesQty, [] => ⟨[], leavesQty, [], []⟩
  | leavesQty, o :: os =>
      if leavesQty = 0 then ⟨o :: os, 0, [], []⟩
      else if leavesQty < o.qty then
        ⟨o.withQty (o.qty - leavesQty) :: os, 0, [], partialEvents g o leavesQty⟩
      else
        let r := sweepLevel g (leavesQty - o.qty) os
        ⟨r.left, r.leavesQty, o :: r.removed, filledEvents g o leavesQty ++ r.events⟩

def sweep (g : MEOrderBook.Aggressor) (price : ℤ) :
    ℕ → List (Level ℤ MEOrder) → Swept (List (Level ℤ MEOrder))
  | leavesQty, [] => ⟨[], leavesQty, [], []⟩
  | leavesQty, L :: ls =>
      if leavesQty = 0 ∨ ¬ Within price L.price g.side then
        ⟨L :: ls, leavesQty, [], []⟩
      else
        let r := sweepLevel g leavesQty L.orders
        if r.left = [] then
          let r' := sweep g price r.leavesQty ls
          ⟨r'.left, r'.leavesQty, r.removed ++ r'.removed, r.events ++ r'.events⟩
        else ⟨⟨L.price, r.left⟩ :: ls, r.leavesQty, r.removed, r.events⟩

section Sweep

variable (g : MEOrderBook.Aggressor) (price : ℤ)

theorem sweepLevel_zero (os : List MEOrder) : sweepLevel g 0 os = ⟨os, 0, [], []⟩ := by
  cases os <;> rfl

theorem sweep_zero (ls : List (Level ℤ MEOrder)) : sweep g price 0 ls = ⟨ls, 0, [], []⟩ := by
  cases ls with
  | nil => rfl
  | cons L ls => rw [sweep, if_pos (.inl rfl)]

theorem sweep_stop {L : Level ℤ MEOrder} (ls : List (Level ℤ MEOrder)) (leavesQty : ℕ)
    (h : MEOrderBook.noMoreCrosses g.side price L.price) :
    sweep g price leavesQty (L :: ls) = ⟨L :: ls, leavesQty, [], []⟩ := by
  rw [sweep, if_pos (.inr (noMoreCrosses_iff.mp h))]

theorem sweep_part {p : ℤ} {o : MEOrder} (os : List MEOrder) (ls : List (Level ℤ MEOrder))
    {leavesQty : ℕ} (h0 : leavesQty ≠ 0) (hc : ¬ MEOrderBook.noMoreCrosses g.side price p)
    (hq : leavesQty < o.qty) :
    sweep g price leavesQty (⟨p, o :: os⟩ :: ls) =
      ⟨⟨p, o.withQty (o.qty - leavesQty) :: os⟩ :: ls, 0, [], partialEvents g o leavesQty⟩ := by
  have hcond : ¬ (leavesQty = 0 ∨ ¬ Within price p g.side) := by
    rintro (h | h)
    · exact h0 h
    · exact hc (noMoreCrosses_iff.mpr h)
  rw [sweep, if_neg hcond]
  simp [sweepLevel, h0, hq]

theorem sweep_filled {p : ℤ} {o : MEOrder} (os : List MEOrder) (ls : List (Level ℤ MEOrder))
    {leavesQty : ℕ} (h0 : leavesQty ≠ 0) (hc : ¬ MEOrderBook.noMoreCrosses g.side price p)
    (hq : o.qty ≤ leavesQty) :
    sweep g price leavesQty (⟨p, o :: os⟩ :: ls) =
      let r := sweep g price (leavesQty - o.qty) (Ladder.keep ⟨p, os⟩ ++ ls)
      ⟨r.left, r.leavesQty, o :: r.removed, filledEvents g o leavesQty ++ r.events⟩ := by
  have hcond : ¬ (leavesQty = 0 ∨ ¬ Within price p g.side) := by
    rintro (h | h)
    · exact h0 h
    · exact hc (noMoreCrosses_iff.mpr h)
  rw [sweep, if_neg hcond]
  simp only [sweepLevel, if_neg h0, if_neg (Nat.not_lt.mpr hq)]
  cases os with
  | nil => simp [sweepLevel, Ladder.keep]
  | cons o' os =>
    simp only [Ladder.keep, List.isEmpty_cons, Bool.false_eq_true, if_false, List.singleton_append]
    by_cases h1 : leavesQty - o.qty = 0
    · simp [h1, sweepLevel_zero, sweep_zero]
    · have hcond' : ¬ (leavesQty - o.qty = 0 ∨ ¬ Within price p g.side) := by
        rintro (h | h)
        · exact h1 h
        · exact hc (noMoreCrosses_iff.mpr h)
      rw [sweep, if_neg hcond']
      by_cases hl : (sweepLevel g (leavesQty - o.qty) (o' :: os)).left = [] <;> simp [hl]

end Sweep

inductive Eaten (rest : List MEOrder) : List MEOrder → ℕ → Prop
  | whole (leavesQty : ℕ) : Eaten rest rest leavesQty
  | part (o : MEOrder) (os : List MEOrder) (qty : ℕ) (h : rest = o :: os) (h0 : 0 < qty)
      (hq : qty < o.qty) : Eaten rest (o.withQty qty :: os) 0

theorem sweep_induct (g : MEOrderBook.Aggressor) (price : ℤ)
    {motive : ∀ (_ : ℕ) (ls : List (Level ℤ MEOrder)), Ladder.NonEmpty ls → Prop}
    (nil : ∀ leavesQty hn, motive leavesQty [] hn)
    (zero : ∀ ls hn, motive 0 ls hn)
    (stop : ∀ leavesQty L ls hn, MEOrderBook.noMoreCrosses g.side price L.price →
      motive leavesQty (L :: ls) hn)
    (part : ∀ leavesQty p o os ls hn, leavesQty ≠ 0 →
      ¬ MEOrderBook.noMoreCrosses g.side price p → leavesQty < o.qty →
      motive leavesQty (⟨p, o :: os⟩ :: ls) hn)
    (filled : ∀ leavesQty p o os ls hn hn', leavesQty ≠ 0 →
      ¬ MEOrderBook.noMoreCrosses g.side price p → o.qty ≤ leavesQty →
      motive (leavesQty - o.qty) (Ladder.keep ⟨p, os⟩ ++ ls) hn' →
      motive leavesQty (⟨p, o :: os⟩ :: ls) hn)
    (leavesQty : ℕ) (ls : List (Level ℤ MEOrder)) (hn : Ladder.NonEmpty ls) :
    motive leavesQty ls hn := by
  induction h : (Ladder.entries ls).length generalizing leavesQty ls with
  | zero =>
    cases ls with
    | nil => exact nil leavesQty hn
    | cons L ls =>
      have hL := (Ladder.nonEmpty_cons.mp hn).1
      simp only [Ladder.entries_cons, List.length_append, Nat.add_eq_zero_iff,
        List.length_eq_zero_iff] at h
      exact absurd h.1 hL
  | succ n ih =>
    cases ls with
    | nil => exact nil leavesQty hn
    | cons L ls =>
      obtain ⟨p, os⟩ := L
      obtain ⟨hL, hls⟩ := Ladder.nonEmpty_cons.mp hn
      obtain ⟨o, os, rfl⟩ := List.exists_cons_of_ne_nil hL
      by_cases h0 : leavesQty = 0
      · subst h0
        exact zero _ hn
      by_cases hc : MEOrderBook.noMoreCrosses g.side price p
      · exact stop leavesQty _ ls hn hc
      by_cases hq : leavesQty < o.qty
      · exact part leavesQty p o os ls hn h0 hc hq
      · have hn' : Ladder.NonEmpty (Ladder.keep ⟨p, os⟩ ++ ls) :=
          Ladder.nonEmpty_append.mpr ⟨Ladder.nonEmpty_keep _, hls⟩
        refine filled leavesQty p o os ls hn hn' h0 hc (Nat.not_lt.mp hq) (ih _ _ hn' ?_)
        rw [Ladder.entries_append, Ladder.entries_keep]
        simp only [Ladder.entries_cons, List.cons_append, List.length_cons] at h
        simpa using h

section Sweep

variable (g : MEOrderBook.Aggressor) (price : ℤ) (leavesQty : ℕ) {ls : List (Level ℤ MEOrder)}

theorem sweep_eaten (hn : Ladder.NonEmpty ls) :
    ∃ rest, Ladder.entries ls = (sweep g price leavesQty ls).removed ++ rest ∧
      Eaten rest (Ladder.entries (sweep g price leavesQty ls).left)
        (sweep g price leavesQty ls).leavesQty := by
  induction leavesQty, ls, hn using sweep_induct g price with
  | nil q hn => exact ⟨[], rfl, .whole _⟩
  | zero ls hn =>
    rw [sweep_zero]
    exact ⟨_, rfl, .whole _⟩
  | stop q L ls hn hc =>
    rw [sweep_stop g price ls q hc]
    exact ⟨_, rfl, .whole _⟩
  | part q p o os ls hn h0 hc hq =>
    rw [sweep_part g price os ls h0 hc hq]
    exact ⟨_, rfl, .part o (os ++ Ladder.entries ls) (o.qty - q) rfl (by omega) (by omega)⟩
  | filled q p o os ls hn hn' h0 hc hq ih =>
    rw [sweep_filled g price os ls h0 hc hq]
    obtain ⟨rest, he, hr⟩ := ih
    rw [Ladder.entries_append, Ladder.entries_keep] at he
    refine ⟨rest, ?_, hr⟩
    rw [Ladder.entries_cons]
    exact congrArg (o :: ·) he

theorem sweep_leavesQty_le (hn : Ladder.NonEmpty ls) :
    (sweep g price leavesQty ls).leavesQty ≤ leavesQty := by
  induction leavesQty, ls, hn using sweep_induct g price with
  | nil q hn => exact Nat.le_refl _
  | zero ls hn => rw [sweep_zero]
  | stop q L ls hn hc => rw [sweep_stop g price ls q hc]
  | part q p o os ls hn h0 hc hq =>
    rw [sweep_part g price os ls h0 hc hq]
    exact Nat.zero_le _
  | filled q p o os ls hn hn' h0 hc hq ih =>
    rw [sweep_filled g price os ls h0 hc hq]
    exact ih.trans (Nat.sub_le _ _)

theorem sweep_prices (hn : Ladder.NonEmpty ls) :
    ((sweep g price leavesQty ls).left.map Level.price).Sublist (ls.map Level.price) := by
  induction leavesQty, ls, hn using sweep_induct g price with
  | nil q hn => exact .slnil
  | zero ls hn => rw [sweep_zero]
  | stop q L ls hn hc => rw [sweep_stop g price ls q hc]
  | part q p o os ls hn h0 hc hq =>
    rw [sweep_part g price os ls h0 hc hq]
    exact List.Sublist.refl _
  | filled q p o os ls hn hn' h0 hc hq ih =>
    rw [sweep_filled g price os ls h0 hc hq]
    refine ih.trans ?_
    unfold Ladder.keep
    split_ifs
    · exact List.sublist_cons_self _ _
    · exact List.Sublist.refl _

theorem sweep_levels {Q : Level ℤ MEOrder → Prop}
    (hrest : ∀ p o os, os ≠ [] → Q ⟨p, o :: os⟩ → Q ⟨p, os⟩)
    (hpart : ∀ p o os q, 0 < q → q < o.qty → Q ⟨p, o :: os⟩ → Q ⟨p, o.withQty q :: os⟩)
    (hn : Ladder.NonEmpty ls) (h : ∀ L ∈ ls, Q L) : ∀ L ∈ (sweep g price leavesQty ls).left, Q L := by
  induction leavesQty, ls, hn using sweep_induct g price with
  | nil q hn => simp [sweep]
  | zero ls hn => rwa [sweep_zero]
  | stop q L ls hn hc => rwa [sweep_stop g price ls q hc]
  | part q p o os ls hn h0 hc hq =>
    rw [sweep_part g price os ls h0 hc hq]
    intro L hL
    rcases List.mem_cons.mp hL with rfl | hL
    · exact hpart p o os _ (by omega) (by omega) (h _ (List.mem_cons_self ..))
    · exact h L (List.mem_cons_of_mem _ hL)
  | filled q p o os ls hn hn' h0 hc hq ih =>
    rw [sweep_filled g price os ls h0 hc hq]
    refine ih fun L hL => ?_
    rcases List.mem_append.mp hL with hL | hL
    · unfold Ladder.keep at hL
      split_ifs at hL with he
      · exact absurd hL (by simp)
      · rw [List.mem_singleton.mp hL]
        exact hrest p o os (by simpa using he) (h _ (List.mem_cons_self ..))
    · exact h L (List.mem_cons_of_mem _ hL)

theorem sweep_done (hs : g.side.IsBuyOrSell) (hsort : Ladder.Sorted (better g.side.opposite) ls)
    (hn : Ladder.NonEmpty ls) :
    (sweep g price leavesQty ls).leavesQty = 0 ∨
      ∀ L ∈ (sweep g price leavesQty ls).left,
        MEOrderBook.noMoreCrosses g.side price L.price := by
  induction leavesQty, ls, hn using sweep_induct g price with
  | nil q hn => exact .inr (by simp [sweep])
  | zero ls hn => exact .inl (by rw [sweep_zero])
  | stop q L ls hn hc =>
    rw [sweep_stop g price ls q hc]
    refine .inr fun K hK => ?_
    rcases List.mem_cons.mp hK with rfl | hK
    · exact hc
    · have hb := (List.pairwise_cons.mp hsort).1 K.price (List.mem_map_of_mem hK)
      unfold MEOrderBook.noMoreCrosses at *
      rcases hs with h | h <;> simp [h, better, Side.opposite] at * <;> omega
  | part q p o os ls hn h0 hc hq => exact .inl (by rw [sweep_part g price os ls h0 hc hq])
  | filled q p o os ls hn hn' h0 hc hq ih =>
    rw [sweep_filled g price os ls h0 hc hq]
    refine ih (List.Pairwise.sublist ?_ hsort)
    unfold Ladder.keep
    split_ifs
    · exact List.sublist_cons_self _ _
    · exact List.Sublist.refl _

end Sweep

structure NewOrder where
  clientId : ℕ
  clientOrderId : ℕ
  tickerId : ℕ
  side : Side
  price : ℤ
  qty : ℕ
  deriving DecidableEq, Repr

structure PriceTimeBook where
  ladders : Ladders MEOrder
  nextMarketOrderId : ℕ
  deriving DecidableEq, Repr

namespace PriceTimeBook

def new : PriceTimeBook := ⟨⟨[], []⟩, 1⟩

def nextPriority (price : ℤ) (ls : List (Level ℤ MEOrder)) : ℕ :=
  match ls.find? (fun L => decide (L.price = price)) with
  | none => 1
  | some L =>
      match L.orders.getLast? with
      | none => 1
      | some o => (o.priority + 1) % 2 ^ 64

/-- `fillId` is the market order id that the aggressor's own fills report. -/
def swept (b : PriceTimeBook) (fillId : ℕ) (n : NewOrder) : Swept (List (Level ℤ MEOrder)) :=
  sweep ⟨n.tickerId, n.clientId, n.side, n.clientOrderId, fillId⟩ n.price n.qty
    (b.ladders.side n.side.opposite)

def afterSweep (b : PriceTimeBook) (fillId : ℕ) (n : NewOrder) : Ladders MEOrder :=
  b.ladders.setSide n.side.opposite (b.swept fillId n).left

def remainder (b : PriceTimeBook) (fillId : ℕ) (n : NewOrder) : MEOrder :=
  ⟨⟨n.tickerId, n.clientId, n.clientOrderId, b.nextMarketOrderId⟩, n.side, n.price,
    (b.swept fillId n).leavesQty, nextPriority n.price ((b.afterSweep fillId n).side n.side)⟩

def accepted (b : PriceTimeBook) (n : NewOrder) : Event :=
  .response ⟨.accepted, n.clientId, n.tickerId, n.clientOrderId, b.nextMarketOrderId, n.side,
    n.price, 0, n.qty⟩

def added (o : MEOrder) : Event :=
  .update ⟨.add, o.ids.marketOrderId, o.ids.tickerId, o.side, o.price, o.qty, o.priority⟩

def place (b : PriceTimeBook) (fillId : ℕ) (n : NewOrder) : PriceTimeBook × List Event :=
  if (b.swept fillId n).leavesQty = 0 then
    (⟨b.afterSweep fillId n, b.nextMarketOrderId + 1⟩, b.accepted n :: (b.swept fillId n).events)
  else
    (⟨(b.afterSweep fillId n).rest (b.remainder fillId n), b.nextMarketOrderId + 1⟩,
      b.accepted n :: (b.swept fillId n).events ++ [added (b.remainder fillId n)])

def add (b : PriceTimeBook) (n : NewOrder) : PriceTimeBook × List Event :=
  b.place b.nextMarketOrderId n

def drop (b : PriceTimeBook) (o : MEOrder) : PriceTimeBook :=
  { b with ladders := b.ladders.drop MEOrderIds.marketOrderId o.side o.ids.marketOrderId }

def canceled (clientId orderId tickerId : ℕ) (o : MEOrder) : List Event :=
  [.update ⟨.cancel, o.ids.marketOrderId, tickerId, o.side, o.price, 0, o.priority⟩,
    .response ⟨.canceled, clientId, tickerId, orderId, o.ids.marketOrderId, o.side, o.price,
      qtyInvalid, o.qty⟩]

def rejected (clientId orderId tickerId : ℕ) : List Event :=
  [.response ⟨.cancelRejected, clientId, tickerId, orderId, orderIdInvalid, .invalid, priceInvalid,
    qtyInvalid, qtyInvalid⟩]

def find? (b : PriceTimeBook) (clientId orderId : ℕ) : Option MEOrder :=
  b.ladders.entries.find? fun o =>
    decide (o.ids.clientId = clientId ∧ o.ids.clientOrderId = orderId)

def cancel (b : PriceTimeBook) (clientId orderId tickerId : ℕ) : PriceTimeBook × List Event :=
  match b.find? clientId orderId with
  | none => (b, rejected clientId orderId tickerId)
  | some o => (b.drop o, canceled clientId orderId tickerId o)

end PriceTimeBook

structure OrderOk (side : Side) (price : ℤ) (o : MEOrder) : Prop where
  side_eq : o.side = side
  price_eq : o.price = price
  qty_pos : 0 < o.qty
  qty_lt : o.qty < 2 ^ 32
  inRange : MEOrderBook.InRange o.ids.clientId o.ids.clientOrderId

structure SideOk (side : Side) (ls : List (Level ℤ MEOrder)) : Prop where
  sorted : Ladder.Sorted (better side) ls
  nonEmpty : Ladder.NonEmpty ls
  prices : ∀ L ∈ ls, PriceInRange L.price
  orders : ∀ L ∈ ls, ∀ o ∈ L.orders, OrderOk side L.price o
  fifo : ∀ L ∈ ls, L.orders.Pairwise fun x y => x.ids.marketOrderId < y.ids.marketOrderId

namespace SideOk

variable {side : Side} {ls : List (Level ℤ MEOrder)}

theorem nil (side : Side) : SideOk side [] := ⟨.nil, by simp [Ladder.NonEmpty], by simp, by simp, by simp⟩

theorem remove (h : SideOk side ls) (q : MEOrder → Bool) : SideOk side (Ladder.remove q ls) where
  sorted := List.Pairwise.sublist (Ladder.prices_remove_sublist q ls) h.sorted
  nonEmpty := Ladder.nonEmpty_remove q ls
  prices := fun K hK => by
    obtain ⟨-, L, hL, hp, -⟩ := Ladder.mem_remove hK
    rw [hp]
    exact h.prices L hL
  orders := fun K hK o ho => by
    obtain ⟨-, L, hL, hp, hsub⟩ := Ladder.mem_remove hK
    rw [hp]
    exact h.orders L hL o (hsub.subset ho)
  fifo := fun K hK => by
    obtain ⟨-, L, hL, -, hsub⟩ := Ladder.mem_remove hK
    exact (h.fifo L hL).sublist hsub

theorem insert (h : SideOk side ls) {p : ℤ} {o : MEOrder} (hp : PriceInRange p)
    (ho : OrderOk side p o)
    (hnew : ∀ x ∈ Ladder.entries ls, x.ids.marketOrderId < o.ids.marketOrderId) :
    SideOk side (Ladder.insert (better side) p o ls) where
  sorted := Ladder.sorted_insert h.sorted
  nonEmpty := Ladder.nonEmpty_insert h.nonEmpty
  prices := fun K hK => by
    rcases Ladder.mem_insert hK with hK | rfl | ⟨L, hL, -, rfl⟩
    · exact h.prices K hK
    · exact hp
    · exact hp
  orders := fun K hK x hx => by
    rcases Ladder.mem_insert hK with hK | rfl | ⟨L, hL, rfl, rfl⟩
    · exact h.orders K hK x hx
    · rw [List.mem_singleton.mp hx]
      exact ho
    · rcases List.mem_append.mp hx with hx | hx
      · exact h.orders L hL x hx
      · rw [List.mem_singleton.mp hx]
        exact ho
  fifo := fun K hK => by
    rcases Ladder.mem_insert hK with hK | rfl | ⟨L, hL, rfl, rfl⟩
    · exact h.fifo K hK
    · exact List.pairwise_singleton _ _
    · refine List.pairwise_append.mpr ⟨h.fifo L hL, List.pairwise_singleton _ _, ?_⟩
      intro x hx y hy
      rw [List.mem_singleton.mp hy]
      exact hnew x (Ladder.mem_entries.mpr ⟨L, hL, hx⟩)

theorem sweep (h : SideOk side ls) (g : MEOrderBook.Aggressor) (price : ℤ) (leavesQty : ℕ) :
    SideOk side (sweep g price leavesQty ls).left where
  sorted := List.Pairwise.sublist (sweep_prices g price leavesQty h.nonEmpty) h.sorted
  nonEmpty := sweep_levels g price leavesQty (fun _ _ _ hne _ => hne)
    (fun _ _ _ _ _ _ _ => by simp)
    h.nonEmpty h.nonEmpty
  prices := sweep_levels g price leavesQty (fun _ _ _ _ hp => hp)
    (fun _ _ _ _ _ _ hp => hp)
    h.nonEmpty h.prices
  orders := by
    refine sweep_levels g price leavesQty (fun p o os _ ho x hx => ho x (by simp [hx])) ?_
      h.nonEmpty h.orders
    intro p o os q hq hlt ho x hx
    rcases List.mem_cons.mp hx with rfl | hx
    · have hoo := ho o (List.mem_cons_self ..)
      exact ⟨hoo.side_eq, hoo.price_eq, hq, hlt.trans hoo.qty_lt, hoo.inRange⟩
    · exact ho x (List.mem_cons_of_mem _ hx)
  fifo := by
    refine sweep_levels g price leavesQty (fun p o os _ hp => (List.pairwise_cons.mp hp).2) ?_
      h.nonEmpty h.fifo
    intro p o os q _ _ hp
    exact List.pairwise_cons.mpr (List.pairwise_cons.mp hp)

end SideOk

end Exchange
