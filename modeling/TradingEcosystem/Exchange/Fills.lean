import TradingEcosystem.Exchange.IndexedBook

namespace Exchange

open Common

structure IsFill (c tickerId : ℕ) (side : Side) (orderId q : ℕ) (r : MEClientResponse) : Prop where
  type : r.type = .filled
  client : r.clientId = c
  ticker : r.tickerId = tickerId
  side : r.side = side
  order : r.clientOrderId = orderId
  pos : 0 < r.execQty
  le : r.execQty ≤ q
  leaves : r.leavesQty = q - r.execQty

inductive Fills (c tickerId : ℕ) (side : Side) (orderId : ℕ) :
    ℕ → List MEClientResponse → ℕ → Prop
  | nil (q : ℕ) : Fills c tickerId side orderId q [] q
  | cons {q q' : ℕ} {r : MEClientResponse} {rs : List MEClientResponse}
      (head : IsFill c tickerId side orderId q r)
      (tail : Fills c tickerId side orderId r.leavesQty rs q') :
      Fills c tickerId side orderId q (r :: rs) q'

def Rests (orderId : ℕ) (price : ℤ) (q : ℕ) (os : List MEOrder) : Prop :=
  (q = 0 ∧ os = []) ∨
    ∃ o, os = [o] ∧ o.ids.clientOrderId = orderId ∧ o.price = price ∧ o.qty = q ∧ 0 < q

section Fills

variable {c t id q q' q'' : ℕ} {side : Side} {rs ss : List MEClientResponse}

theorem Fills.append (h : Fills c t side id q rs q') (k : Fills c t side id q' ss q'') :
    Fills c t side id q (rs ++ ss) q'' := by
  induction h with
  | nil q => exact k
  | cons head tail ih => exact .cons head (ih k)

theorem Fills.pos (h : Fills c t side id q rs q') (hq : 0 < q') : 0 < q := by
  cases h with
  | nil q => exact hq
  | cons head tail => exact head.pos.trans_le head.le

theorem Fills.zero (h : Fills c t side id 0 rs q') : rs = [] ∧ q' = 0 := by
  cases h with
  | nil q => exact ⟨rfl, rfl⟩
  | cons head tail => exact absurd (head.pos.trans_le head.le) (Nat.lt_irrefl 0)

end Fills

section Rests

variable {id q : ℕ} {p : ℤ} {o : MEOrder} {os : List MEOrder}

theorem Rests.cons (h : Rests id p q (o :: os)) :
    os = [] ∧ o.ids.clientOrderId = id ∧ o.price = p ∧ o.qty = q := by
  rcases h with ⟨-, h⟩ | ⟨x, h, hid, hprice, hqty, -⟩
  · cases h
  · obtain ⟨rfl, rfl⟩ := List.cons_eq_cons.mp h
    exact ⟨rfl, hid, hprice, hqty⟩

theorem Rests.perm {xs ys : List MEOrder} (h : Rests id p q xs) (hxy : ys.Perm xs) :
    Rests id p q ys := by
  rcases h with ⟨hq, rfl⟩ | ⟨o, rfl, h⟩
  · exact .inl ⟨hq, hxy.eq_nil⟩
  · exact .inr ⟨o, hxy.eq_singleton, h⟩

theorem Rests.eq {r : ℕ} (h : Rests id p q os) (k : Rests id p r os) : q = r := by
  rcases h with ⟨rfl, rfl⟩ | ⟨o, rfl, -, -, rfl, -⟩
  · rcases k with ⟨rfl, -⟩ | ⟨x, hx, -⟩
    · rfl
    · cases hx
  · exact k.cons.2.2.2

theorem rests_nil : Rests id p q [] ↔ q = 0 :=
  ⟨fun h => h.eq (.inl ⟨rfl, rfl⟩), fun h => .inl ⟨h, rfl⟩⟩

theorem rests_zero : Rests id p 0 os ↔ os = [] := by
  constructor
  · rintro (⟨-, h⟩ | ⟨o, -, -, -, -, h⟩)
    · exact h
    · exact absurd h (Nat.lt_irrefl 0)
  · exact fun h => .inl ⟨rfl, h⟩

end Rests

def sent (f : MEClientResponse → Bool) (events : List Event) : List MEClientResponse :=
  (clientResponses events).filter f

section Sent

variable {f : MEClientResponse → Bool}

theorem sent_append (xs ys : List Event) : sent f (xs ++ ys) = sent f xs ++ sent f ys := by
  simp [sent]

@[simp] theorem sent_nil : sent f [] = [] := rfl

theorem sent_response (r : MEClientResponse) (events : List Event) :
    sent f (.response r :: events) = (if f r then [r] else []) ++ sent f events := by
  simp only [sent, clientResponses_response, List.filter_cons]
  split_ifs <;> rfl

theorem sent_update (u : MEMarketUpdate) (events : List Event) :
    sent f (.update u :: events) = sent f events := rfl

theorem sent_part (g : MEOrderBook.Aggressor) (o : MEOrder) (leavesQty : ℕ) :
    sent f (partialEvents g o leavesQty) =
      (if f (aggressorFill g o.price leavesQty 0) then [aggressorFill g o.price leavesQty 0]
        else []) ++
      (if f (passiveFill g o leavesQty) then [passiveFill g o leavesQty] else []) := by
  refine (sent_response ..).trans (congrArg _ ?_)
  refine (sent_response ..).trans ?_
  exact List.append_nil _

theorem sent_filled_append (g : MEOrderBook.Aggressor) (o : MEOrder) (leavesQty : ℕ)
    (events : List Event) :
    sent f (filledEvents g o leavesQty ++ events) =
      (if f (aggressorFill g o.price o.qty (leavesQty - o.qty)) then
        [aggressorFill g o.price o.qty (leavesQty - o.qty)] else []) ++
      ((if f (passiveFill g o o.qty) then [passiveFill g o o.qty] else []) ++ sent f events) := by
  refine (sent_response ..).trans (congrArg _ ?_)
  exact sent_response ..

end Sent

theorem entries_cons_cons (p : ℤ) (o : MEOrder) (os : List MEOrder) (ls : List (Level ℤ MEOrder)) :
    Ladder.entries (⟨p, o :: os⟩ :: ls) = o :: (os ++ Ladder.entries ls) := rfl

theorem entries_keep_append (p : ℤ) (os : List MEOrder) (ls : List (Level ℤ MEOrder)) :
    Ladder.entries (Ladder.keep ⟨p, os⟩ ++ ls) = os ++ Ladder.entries ls := by
  rw [Ladder.entries_append, Ladder.entries_keep]

theorem SideOk.entry {side : Side} {ls : List (Level ℤ MEOrder)} (h : SideOk side ls) {o : MEOrder}
    (ho : o ∈ Ladder.entries ls) : o.side = side ∧ 0 < o.qty := by
  obtain ⟨L, hL, hoL⟩ := Ladder.mem_entries.mp ho
  have hok := h.orders L hL o hoL
  exact ⟨hok.side_eq, hok.qty_pos⟩

section Sweep

variable (g : MEOrderBook.Aggressor) (price : ℤ) (leavesQty : ℕ) {f : MEClientResponse → Bool}
  {ls : List (Level ℤ MEOrder)} (hn : Ladder.NonEmpty ls)

include hn

theorem sweep_fills_aggressor (hf : ∀ p q l, f (aggressorFill g p q l) = true)
    (hp : ∀ o ∈ Ladder.entries ls, 0 < o.qty ∧ ∀ q, f (passiveFill g o q) = false) :
    Fills g.clientId g.tickerId g.side g.clientOrderId leavesQty
      (sent f (sweep g price leavesQty ls).events) (sweep g price leavesQty ls).leavesQty := by
  induction leavesQty, ls, hn using sweep_induct g price with
  | nil q hn => exact .nil q
  | zero ls hn =>
    rw [sweep_zero]
    exact .nil 0
  | stop q L ls hn hx =>
    rw [sweep_stop g price ls q hx]
    exact .nil q
  | part q p o os ls hn h0 hx hq =>
    obtain ⟨-, hno⟩ := hp o (by simp)
    rw [sweep_part g price os ls h0 hx hq]
    dsimp only
    rw [sent_part, if_pos (hf ..), if_neg (by simp [hno])]
    refine .cons ⟨rfl, rfl, rfl, rfl, rfl, Nat.pos_of_ne_zero h0, le_rfl, ?_⟩ (.nil 0)
    exact (Nat.sub_self q).symm
  | filled q p o os ls hn hn' h0 hx hq ih =>
    obtain ⟨hpos, hno⟩ := hp o (by simp)
    rw [sweep_filled g price os ls h0 hx hq]
    dsimp only
    rw [sent_filled_append, if_pos (hf ..), if_neg (by simp [hno])]
    refine .cons ⟨rfl, rfl, rfl, rfl, rfl, hpos, hq, rfl⟩ (ih fun x hx => hp x ?_)
    rw [entries_keep_append] at hx
    exact List.mem_cons_of_mem _ hx

theorem sweep_fills_passive {c : ℕ} {d : Side} {φ : MEOrder → Bool}
    (hφ : ∀ o q, φ (o.withQty q) = φ o) (hf : ∀ p q l, f (aggressorFill g p q l) = false)
    (hp : ∀ o ∈ Ladder.entries ls, 0 < o.qty ∧ (∀ q, f (passiveFill g o q) = φ o) ∧
      (φ o = true → o.ids.clientId = c ∧ o.side = d)) {id q : ℕ} {p : ℤ}
    (hr : Rests id p q ((Ladder.entries ls).filter φ)) :
    ∃ q', Fills c g.tickerId d id q (sent f (sweep g price leavesQty ls).events) q' ∧
      Rests id p q' ((Ladder.entries (sweep g price leavesQty ls).left).filter φ) := by
  induction leavesQty, ls, hn using sweep_induct g price generalizing q with
  | nil k hn => exact ⟨q, .nil q, hr⟩
  | zero ls hn =>
    rw [sweep_zero]
    exact ⟨q, .nil q, hr⟩
  | stop k L ls hn hx =>
    rw [sweep_stop g price ls k hx]
    exact ⟨q, .nil q, hr⟩
  | part k _ o os ls hn h0 hx hq =>
    obtain ⟨hpos, hsel, hφo⟩ := hp o (by simp)
    rw [sweep_part g price os ls h0 hx hq]
    dsimp only
    rw [sent_part, if_neg (by simp [hf]), hsel]
    rw [entries_cons_cons, List.filter_cons] at hr ⊢
    rw [hφ]
    cases ho : φ o with
    | true =>
      obtain ⟨hc, hd⟩ := hφo ho
      rw [if_pos ho] at hr
      obtain ⟨hnil, hid, hprice, hqty⟩ := hr.cons
      rw [if_pos rfl, if_pos rfl, hnil]
      refine ⟨o.qty - k, ?_, .inr ⟨_, rfl, hid, hprice, rfl, by omega⟩⟩
      refine .cons ⟨rfl, hc, rfl, hd, hid, Nat.pos_of_ne_zero h0, hqty ▸ hq.le, ?_⟩ (.nil _)
      exact congrArg (· - k) hqty
    | false =>
      rw [if_neg (by simp [ho])] at hr
      exact ⟨q, .nil q, hr⟩
  | filled k p' o os ls hn hn' h0 hx hq ih =>
    obtain ⟨hpos, hsel, hφo⟩ := hp o (by simp)
    rw [sweep_filled g price os ls h0 hx hq]
    dsimp only
    rw [sent_filled_append, if_neg (by simp [hf]), hsel]
    rw [entries_cons_cons, List.filter_cons] at hr
    rw [entries_keep_append] at ih
    have hp' := fun x hx => hp x (List.mem_cons_of_mem _ hx)
    cases ho : φ o with
    | true =>
      obtain ⟨hc, hd⟩ := hφo ho
      rw [if_pos ho] at hr
      obtain ⟨hnil, hid, hprice, hqty⟩ := hr.cons
      obtain ⟨q', hfills, hrests⟩ := ih hp' (q := 0) (.inl ⟨rfl, hnil⟩)
      refine ⟨q', .cons ⟨rfl, hc, rfl, hd, hid, hpos, hqty.le, ?_⟩ ?_, hrests⟩
      · exact congrArg (· - o.qty) hqty
      · rw [show (passiveFill g o o.qty).leavesQty = 0 from Nat.sub_self _]
        exact hfills
    | false =>
      rw [if_neg (by simp [ho])] at hr
      exact ih hp' hr

theorem sweep_responses {P : MEClientResponse → Prop} (ha : ∀ p q l, P (aggressorFill g p q l))
    (hp : ∀ o ∈ Ladder.entries ls, ∀ q, P (passiveFill g o q)) :
    ∀ r ∈ clientResponses (sweep g price leavesQty ls).events, P r := by
  induction leavesQty, ls, hn using sweep_induct g price with
  | nil k hn => exact fun r hr => absurd hr (by simp [sweep])
  | zero ls hn =>
    rw [sweep_zero]
    simp
  | stop k L ls hn hx =>
    rw [sweep_stop g price ls k hx]
    simp
  | part k _ o os ls hn h0 hx hq =>
    rw [sweep_part g price os ls h0 hx hq]
    have ho := hp o (by simp) k
    intro r hr
    rcases List.mem_cons.mp hr with rfl | hr
    · exact ha ..
    · rw [List.mem_singleton.mp hr]
      exact ho
  | filled k p' o os ls hn hn' h0 hx hq ih =>
    rw [sweep_filled g price os ls h0 hx hq]
    have ho := hp o (by simp) o.qty
    intro r hr
    rcases List.mem_cons.mp hr with rfl | hr
    · exact ha ..
    · rcases List.mem_cons.mp hr with rfl | hr
      · exact ho
      · refine ih (fun x hx => hp x ?_) r hr
        rw [entries_keep_append] at hx
        exact List.mem_cons_of_mem _ hx

end Sweep

section Place

variable {n : NewOrder}

theorem sent_place {f : MEClientResponse → Bool} (book : PriceTimeBook) (n : NewOrder)
    (fillId : ℕ) :
    sent f (book.place fillId n).2 =
      (if f ⟨.accepted, n.clientId, n.tickerId, n.clientOrderId, book.nextMarketOrderId, n.side,
        n.price, 0, n.qty⟩ then [⟨.accepted, n.clientId, n.tickerId, n.clientOrderId,
        book.nextMarketOrderId, n.side, n.price, 0, n.qty⟩] else []) ++
      sent f (book.swept fillId n).events := by
  unfold PriceTimeBook.place
  split_ifs with hq <;>
    simp_all [PriceTimeBook.accepted, PriceTimeBook.added, sent_response, sent_append, sent_update]

theorem place_side_opposite (book : PriceTimeBook) (fillId : ℕ) (hs : n.side.IsBuyOrSell) :
    (book.place fillId n).1.ladders.side n.side.opposite = (book.swept fillId n).left := by
  have hswept : (book.afterSweep fillId n).side n.side.opposite = (book.swept fillId n).left :=
    Ladders.side_setSide ..
  unfold PriceTimeBook.place
  split_ifs with hq
  · exact hswept
  · exact (Ladders.side_setSide_opposite _ hs _).trans hswept

theorem side_afterSweep (book : PriceTimeBook) (fillId : ℕ) (hs : n.side.IsBuyOrSell) :
    (book.afterSweep fillId n).side n.side = book.ladders.side n.side := by
  have := Ladders.side_setSide_opposite book.ladders hs.opposite (book.swept fillId n).left
  rwa [hs.opposite_opposite] at this

theorem place_side_own (book : PriceTimeBook) (fillId : ℕ) (hs : n.side.IsBuyOrSell) :
    (book.place fillId n).1.ladders.side n.side =
      if (book.swept fillId n).leavesQty = 0 then book.ladders.side n.side
      else Ladder.insert (better n.side) n.price (book.remainder fillId n)
        (book.ladders.side n.side) := by
  have hside := side_afterSweep book fillId hs
  unfold PriceTimeBook.place
  split_ifs with hq
  · exact hside
  · refine (Ladders.side_setSide ..).trans ?_
    rw [← hside]
    rfl

end Place

end Exchange
