import TradingEcosystem.Exchange.MatchingEngine
import TradingEcosystem.Exchange.OrderLife

namespace Exchange

open Common

/-- A resting order known by its place in the sequence of adds instead of by its market order id. -/
structure NumberedOrder where
  number : ℕ
  clientId : ℕ
  clientOrderId : ℕ
  price : ℤ
  qty : ℕ
  deriving DecidableEq, Repr

/-- The book as two queues in order of priority. It gives out no market order ids: `adds` counts the
orders so far, and a cancel finds its order by number. -/
structure NumberedBook where
  bids : List NumberedOrder
  asks : List NumberedOrder
  index : OrderIndex
  adds : ℕ

structure Filled where
  left : List NumberedOrder
  leavesQty : ℕ
  whole : List NumberedOrder
  touched : List ℕ

namespace NumberedBook

def new : NumberedBook := ⟨[], [], fun _ _ => none, 0⟩

def side (b : NumberedBook) (side : Side) : List NumberedOrder :=
  if side = .buy then b.bids else b.asks

def setSide (b : NumberedBook) (side : Side) (q : List NumberedOrder) : NumberedBook :=
  if side = .buy then { b with bids := q } else { b with asks := q }

def fill (side : Side) (price : ℤ) : ℕ → List NumberedOrder → Filled
  | q, [] => ⟨[], q, [], []⟩
  | q, x :: xs =>
      if q = 0 ∨ MEOrderBook.noMoreCrosses side price x.price then ⟨x :: xs, q, [], []⟩
      else if q < x.qty then ⟨{ x with qty := x.qty - q } :: xs, 0, [], [x.number]⟩
      else
        let r := fill side price (q - x.qty) xs
        ⟨r.left, r.leavesQty, x :: r.whole, x.number :: r.touched⟩

def enqueue (side : Side) (x : NumberedOrder) : List NumberedOrder → List NumberedOrder
  | [] => [x]
  | y :: ys => if better side x.price y.price then x :: y :: ys else y :: enqueue side x ys

def forget (index : OrderIndex) (x : NumberedOrder) : OrderIndex :=
  index.set x.clientId x.clientOrderId none

/-- One fill is told to both orders; the trade names neither, and the last update is about the
resting one. -/
def fillLabels (i j : ℕ) : List (Option ℕ) := [some i, some j, none, some j]

def filled (b : NumberedBook) (n : NewOrder) : Filled :=
  fill n.side n.price n.qty (b.side n.side.opposite)

def afterFill (b : NumberedBook) (n : NewOrder) : NumberedBook :=
  { b.setSide n.side.opposite (b.filled n).left with
    index := (b.filled n).whole.foldl forget b.index
    adds := b.adds + 1 }

def rest (b : NumberedBook) (n : NewOrder) (leavesQty : ℕ) : NumberedBook :=
  { b.setSide n.side (enqueue n.side
      ⟨b.adds, n.clientId, n.clientOrderId, n.price, leavesQty⟩ (b.side n.side)) with
    index := b.index.set n.clientId n.clientOrderId (some b.adds) }

def add (b : NumberedBook) (n : NewOrder) : NumberedBook × List (Option ℕ) :=
  let labels := some (b.adds + 1) :: (b.filled n).touched.flatMap (fillLabels (b.adds + 1))
  if (b.filled n).leavesQty = 0 then (b.afterFill n, labels)
  else ((b.afterFill n).rest n (b.filled n).leavesQty, labels ++ [some (b.adds + 1)])

def without (b : NumberedBook) (i : ℕ) : NumberedBook where
  bids := b.bids.filter fun x => !decide (x.number = i)
  asks := b.asks.filter fun x => !decide (x.number = i)
  index := b.index
  adds := b.adds

def cancel (b : NumberedBook) (clientId orderId : ℕ) : NumberedBook × List (Option ℕ) :=
  match b.index clientId orderId with
  | none => (b, [none])
  | some i =>
      ({ b.without i with index := b.index.set clientId orderId none }, [some i, some i])

theorem fill_zero (side : Side) (price : ℤ) (xs : List NumberedOrder) :
    fill side price 0 xs = ⟨xs, 0, [], []⟩ := by
  cases xs with
  | nil => rfl
  | cons x xs => rw [fill, if_pos (.inl rfl)]

@[simp] theorem side_setSide (b : NumberedBook) (side : Side) (q : List NumberedOrder) :
    (b.setSide side q).side side = q := by
  unfold setSide NumberedBook.side
  split_ifs <;> rfl

theorem side_setSide_opposite (b : NumberedBook) {side : Side} (h : side.IsBuyOrSell)
    (q : List NumberedOrder) : (b.setSide side q).side side.opposite = b.side side.opposite := by
  rcases h with rfl | rfl <;> rfl

@[simp] theorem adds_setSide (b : NumberedBook) (side : Side) (q : List NumberedOrder) :
    (b.setSide side q).adds = b.adds := by
  unfold setSide
  split_ifs <;> rfl

theorem ext_side {b b' : NumberedBook} {side : Side} (h : side.IsBuyOrSell)
    (hown : b.side side = b'.side side) (hopp : b.side side.opposite = b'.side side.opposite)
    (hindex : b.index = b'.index) (hadds : b.adds = b'.adds) : b = b' := by
  obtain ⟨bids, asks, index, adds⟩ := b
  obtain ⟨bids', asks', index', adds'⟩ := b'
  obtain rfl : index = index' := hindex
  obtain rfl : adds = adds' := hadds
  rcases h with rfl | rfl
  · obtain rfl : bids = bids' := hown
    obtain rfl : asks = asks' := hopp
    rfl
  · obtain rfl : asks = asks' := hown
    obtain rfl : bids = bids' := hopp
    rfl

theorem enqueue_skip {side : Side} {x : NumberedOrder} {xs : List NumberedOrder}
    (h : ∀ y ∈ xs, ¬ better side x.price y.price) (ys : List NumberedOrder) :
    enqueue side x (xs ++ ys) = xs ++ enqueue side x ys := by
  induction xs with
  | nil => rfl
  | cons y xs ih =>
    rw [List.cons_append, enqueue, if_neg (h y List.mem_cons_self),
      ih fun z hz => h z (List.mem_cons_of_mem _ hz)]
    rfl

theorem enqueue_first {side : Side} {x : NumberedOrder} {ys : List NumberedOrder}
    (h : ∀ y ∈ ys, better side x.price y.price) : enqueue side x ys = x :: ys := by
  cases ys with
  | nil => rfl
  | cons y ys => rw [enqueue, if_pos (h y List.mem_cons_self)]

def call (b : NumberedBook) : Call → NumberedBook × List (Option ℕ)
  | .add n => b.add n
  | .cancel clientId orderId _ => b.cancel clientId orderId

def run (b : NumberedBook) : List Call → NumberedBook × List (Option ℕ)
  | [] => (b, [])
  | c :: calls => (((b.call c).1.run calls).1, (b.call c).2 ++ ((b.call c).1.run calls).2)

end NumberedBook

def whose (calls : List Call) : List (Option ℕ) := (NumberedBook.new.run calls).2

section Numbered

def toNumbered (o : MEOrder) : NumberedOrder :=
  ⟨o.ids.marketOrderId, o.ids.clientId, o.ids.clientOrderId, o.price, o.qty⟩

def IndexedBook.numbered (b : IndexedBook) : NumberedBook where
  bids := (Ladder.entries b.book.ladders.bids).map toNumbered
  asks := (Ladder.entries b.book.ladders.asks).map toNumbered
  index := b.index
  adds := b.book.nextMarketOrderId - 1

variable {b : IndexedBook} {n : NewOrder} {g : MEOrderBook.Aggressor} {side : Side} {price : ℤ}
  {q : ℕ} {ls : List (Level ℤ MEOrder)}

theorem numbered_side (b : IndexedBook) (side : Side) :
    b.numbered.side side = (Ladder.entries (b.book.ladders.side side)).map toNumbered := by
  unfold NumberedBook.side Ladders.side
  split_ifs <;> rfl

def Priced (ls : List (Level ℤ MEOrder)) : Prop := ∀ L ∈ ls, ∀ o ∈ L.orders, o.price = L.price

theorem Priced.keep {p : ℤ} {o : MEOrder} {os : List MEOrder} (h : Priced (⟨p, o :: os⟩ :: ls)) :
    Priced (Ladder.keep ⟨p, os⟩ ++ ls) := by
  intro L hL x hx
  rcases List.mem_append.mp hL with hL | hL
  · unfold Ladder.keep at hL
    split_ifs at hL
    · cases hL
    · obtain rfl := List.mem_singleton.mp hL
      exact h _ List.mem_cons_self x (List.mem_cons_of_mem _ hx)
  · exact h L (List.mem_cons_of_mem _ hL) x hx

section Fill

variable {p : ℤ} {o : MEOrder} {os : List MEOrder} (hp : Priced (⟨p, o :: os⟩ :: ls))

include hp

theorem Priced.first : (toNumbered o).price = p := hp _ List.mem_cons_self o List.mem_cons_self

theorem fill_stop (q : ℕ) (hx : MEOrderBook.noMoreCrosses side price p) :
    NumberedBook.fill side price q ((Ladder.entries (⟨p, o :: os⟩ :: ls)).map toNumbered) =
      ⟨(Ladder.entries (⟨p, o :: os⟩ :: ls)).map toNumbered, q, [], []⟩ := by
  rw [entries_cons_cons, List.map_cons, NumberedBook.fill, if_pos (.inr (by rwa [hp.first]))]

theorem fill_go (h0 : q ≠ 0) (hx : ¬ MEOrderBook.noMoreCrosses side price p) :
    ¬ (q = 0 ∨ MEOrderBook.noMoreCrosses side price (toNumbered o).price) :=
  not_or.mpr ⟨h0, by rwa [hp.first]⟩

theorem fill_part (h0 : q ≠ 0) (hx : ¬ MEOrderBook.noMoreCrosses side price p) (hq : q < o.qty) :
    NumberedBook.fill side price q ((Ladder.entries (⟨p, o :: os⟩ :: ls)).map toNumbered) =
      ⟨{ toNumbered o with qty := o.qty - q } :: (os ++ Ladder.entries ls).map toNumbered, 0, [],
        [o.ids.marketOrderId]⟩ := by
  have hpart : q < (toNumbered o).qty := hq
  rw [entries_cons_cons, List.map_cons, NumberedBook.fill, if_neg (fill_go hp h0 hx),
    if_pos hpart]
  rfl

theorem fill_whole (h0 : q ≠ 0) (hx : ¬ MEOrderBook.noMoreCrosses side price p)
    (hq : o.qty ≤ q) :
    NumberedBook.fill side price q ((Ladder.entries (⟨p, o :: os⟩ :: ls)).map toNumbered) =
      let r := NumberedBook.fill side price (q - o.qty) ((os ++ Ladder.entries ls).map toNumbered)
      ⟨r.left, r.leavesQty, toNumbered o :: r.whole, o.ids.marketOrderId :: r.touched⟩ := by
  have hwhole : ¬ q < (toNumbered o).qty := Nat.not_lt.mpr hq
  rw [entries_cons_cons, List.map_cons, NumberedBook.fill, if_neg (fill_go hp h0 hx),
    if_neg hwhole]
  rfl

end Fill

theorem fill_numbered (hn : Ladder.NonEmpty ls) (hp : Priced ls) :
    let r := sweep g price q ls
    (NumberedBook.fill g.side price q ((Ladder.entries ls).map toNumbered)).left =
        (Ladder.entries r.left).map toNumbered ∧
      (NumberedBook.fill g.side price q ((Ladder.entries ls).map toNumbered)).leavesQty =
        r.leavesQty ∧
      (NumberedBook.fill g.side price q ((Ladder.entries ls).map toNumbered)).whole =
        r.removed.map toNumbered := by
  induction q, ls, hn using sweep_induct g price with
  | nil q hn => exact ⟨rfl, rfl, rfl⟩
  | zero ls hn =>
    rw [sweep_zero, NumberedBook.fill_zero]
    exact ⟨rfl, rfl, rfl⟩
  | stop q L ls hn hx =>
    obtain ⟨p, os⟩ := L
    obtain ⟨o, os, rfl⟩ := List.exists_cons_of_ne_nil (Ladder.nonEmpty_cons.mp hn).1
    rw [sweep_stop g price ls q hx, fill_stop hp q hx]
    exact ⟨rfl, rfl, rfl⟩
  | part q p o os ls hn h0 hx hq =>
    rw [sweep_part g price os ls h0 hx hq, fill_part hp h0 hx hq]
    exact ⟨rfl, rfl, rfl⟩
  | filled q p o os ls hn hn' h0 hx hq ih =>
    obtain ⟨hleft, hleaves, hremoved⟩ := ih hp.keep
    rw [entries_keep_append] at hleft hleaves hremoved
    rw [sweep_filled g price os ls h0 hx hq, fill_whole hp h0 hx hq]
    exact ⟨hleft, hleaves, congrArg _ hremoved⟩

theorem Priced.tail {L : Level ℤ MEOrder} (h : Priced (L :: ls)) : Priced ls := fun K hK =>
  h K (List.mem_cons_of_mem _ hK)

theorem Priced.better_entries {L : Level ℤ MEOrder} (hp : Priced (L :: ls))
    (hs : Ladder.Sorted (better side) (L :: ls)) :
    ∀ x ∈ Ladder.entries ls, better side L.price x.price := by
  intro x hx
  obtain ⟨K, hK, hxK⟩ := Ladder.mem_entries.mp hx
  rw [hp.tail K hK x hxK]
  exact (List.pairwise_cons.mp hs).1 _ (List.mem_map_of_mem hK)

theorem insert_numbered (o : MEOrder) (hp : Priced ls) (hs : Ladder.Sorted (better side) ls) :
    (Ladder.entries (Ladder.insert (better side) o.price o ls)).map toNumbered =
      NumberedBook.enqueue side (toNumbered o) ((Ladder.entries ls).map toNumbered) := by
  induction ls with
  | nil => rfl
  | cons L ls ih =>
    have hL : ∀ x ∈ L.orders, x.price = L.price := hp L List.mem_cons_self
    have hlater := hp.better_entries hs
    unfold Ladder.insert
    split_ifs with he hb
    · rw [Ladder.entries_cons, Ladder.entries_cons, List.map_append, List.map_append,
        List.map_append, NumberedBook.enqueue_skip, NumberedBook.enqueue_first]
      · simp
      · simp only [List.mem_map]
        rintro _ ⟨x, hx, rfl⟩
        change better side o.price x.price
        rw [← he]
        exact hlater x hx
      · simp only [List.mem_map]
        rintro _ ⟨x, hx, rfl⟩
        have hx := hL x hx
        simp only [toNumbered, hx, he]
        exact better_irrefl side o.price
    · rw [NumberedBook.enqueue_first]
      · rfl
      · simp only [List.mem_map, Ladder.entries_cons, List.mem_append]
        rintro _ ⟨x, hx | hx, rfl⟩
        · have hx := hL x hx
          simp only [toNumbered, hx]
          exact hb
        · exact better_trans hb (hlater x hx)
    · rw [Ladder.entries_cons, Ladder.entries_cons, List.map_append, List.map_append,
        NumberedBook.enqueue_skip, ih hp.tail (List.pairwise_cons.mp hs).2]
      simp only [List.mem_map]
      rintro _ ⟨x, hx, rfl⟩
      have hx := hL x hx
      simp only [toNumbered, hx]
      exact hb

theorem SideOk.priced (h : SideOk side ls) : Priced ls := fun L hL o ho =>
  (h.orders L hL o ho).price_eq

theorem filled_numbered (hw : b.WF) (hs : n.side.IsBuyOrSell) :
    (b.numbered.filled n).left = (Ladder.entries (b.book.swept b.fillId n).left).map toNumbered ∧
      (b.numbered.filled n).leavesQty = (b.book.swept b.fillId n).leavesQty ∧
      (b.numbered.filled n).whole = (b.book.swept b.fillId n).removed.map toNumbered := by
  have hok := hw.book.sides _ hs.opposite
  unfold NumberedBook.filled
  rw [numbered_side]
  exact fill_numbered (g := ⟨n.tickerId, n.clientId, n.side, n.clientOrderId, b.fillId⟩)
    hok.nonEmpty hok.priced

theorem adds_numbered (hw : b.WF) : b.numbered.adds + 1 = b.book.nextMarketOrderId :=
  Nat.sub_add_cancel ((Nat.zero_le _).trans_lt hw.book.count)

theorem sweptIndex_numbered (hw : b.WF) (hs : n.side.IsBuyOrSell) :
    (b.numbered.filled n).whole.foldl NumberedBook.forget b.index = b.sweptIndex n := by
  rw [(filled_numbered hw hs).2.2, List.foldl_map]
  rfl

theorem add_numbered (hw : b.WF) (hs : n.side.IsBuyOrSell) :
    (b.numbered.add n).1 = (b.add n).1.numbered := by
  obtain ⟨hleft, hleaves, -⟩ := filled_numbered (n := n) hw hs
  have hindex := sweptIndex_numbered (n := n) hw hs
  have hadds := adds_numbered hw
  have hown : (b.add n).1.numbered.side n.side = _ := numbered_side ..
  have hopp : (b.add n).1.numbered.side n.side.opposite = _ := numbered_side ..
  have hnext : (b.add n).1.numbered.adds = b.numbered.adds + 1 := by
    change (b.call (.add n)).1.book.nextMarketOrderId - 1 = _
    rw [b.next_call (.add n), hadds]
    rfl
  rw [show (b.add n).1.book.ladders.side n.side = _ from place_side_own b.book b.fillId hs] at hown
  rw [show (b.add n).1.book.ladders.side n.side.opposite = _ from
    place_side_opposite b.book b.fillId hs, ← hleft] at hopp
  have hafter : (b.numbered.afterFill n).side n.side = (Ladder.entries
      (b.book.ladders.side n.side)).map toNumbered := by
    have := NumberedBook.side_setSide_opposite b.numbered hs.opposite (b.numbered.filled n).left
    rw [hs.opposite_opposite, numbered_side] at this
    exact this
  by_cases hq : (b.book.swept b.fillId n).leavesQty = 0
  · rw [NumberedBook.add, if_pos (hleaves.trans hq)]
    rw [if_pos hq] at hown
    refine NumberedBook.ext_side hs (hafter.trans hown.symm) ?_ ?_ hnext.symm
    · rw [hopp]
      exact NumberedBook.side_setSide ..
    · refine hindex.trans ?_
      simp only [IndexedBook.numbered, IndexedBook.add, if_pos hq]
  · rw [NumberedBook.add, if_neg fun h => hq (hleaves.symm.trans h)]
    rw [if_neg hq] at hown
    have hok := hw.book.sides _ hs
    refine NumberedBook.ext_side hs ?_ ?_ ?_ ?_
    · have hrest : ((b.numbered.afterFill n).rest n (b.numbered.filled n).leavesQty).side n.side =
          NumberedBook.enqueue n.side ⟨b.numbered.adds + 1, n.clientId, n.clientOrderId, n.price,
            (b.numbered.filled n).leavesQty⟩ ((b.numbered.afterFill n).side n.side) :=
        NumberedBook.side_setSide ..
      rw [hown, hrest, hafter, hadds, hleaves]
      exact (insert_numbered (b.book.remainder b.fillId n) hok.priced hok.sorted).symm
    · rw [hopp]
      refine (NumberedBook.side_setSide_opposite _ hs _).trans ?_
      exact NumberedBook.side_setSide ..
    · change ((b.numbered.filled n).whole.foldl _ b.index).set _ _ (some (b.numbered.adds + 1)) = _
      rw [hindex, hadds]
      simp only [IndexedBook.numbered, IndexedBook.add, if_neg hq]
    · refine (NumberedBook.adds_setSide ..).trans hnext.symm

theorem side_without (b : NumberedBook) (i : ℕ) (side : Side) :
    (b.without i).side side = (b.side side).filter fun x => !decide (x.number = i) := by
  unfold NumberedBook.side
  split_ifs <;> rfl

theorem without_numbered (hw : b.WF) {y : MEOrder} (hy : y ∈ b.book.ladders.entries) :
    ({ b with book := b.book.drop y } : IndexedBook).numbered =
      b.numbered.without y.ids.marketOrderId := by
  have hs := (hw.book.order_ok hy).1
  have hfilter : ∀ os : List MEOrder,
      (os.map toNumbered).filter (fun x => !decide (x.number = y.ids.marketOrderId)) =
        (os.filter fun x => !decide (x.ids.marketOrderId = y.ids.marketOrderId)).map toNumbered :=
    fun os => List.filter_map
  refine NumberedBook.ext_side hs ?_ ?_ rfl rfl
  · rw [side_without, numbered_side, numbered_side, hfilter, ← Ladder.entries_remove]
    exact congrArg (fun ls => (Ladder.entries ls).map toNumbered) (Ladders.side_setSide ..)
  · rw [side_without, numbered_side, numbered_side, hfilter]
    have hself : (Ladder.entries (b.book.ladders.side y.side.opposite)).filter
        (fun x => !decide (x.ids.marketOrderId = y.ids.marketOrderId)) =
          Ladder.entries (b.book.ladders.side y.side.opposite) :=
      List.filter_eq_self.mpr fun x hx => by simpa using hw.book.opposite_ne hy hx
    rw [hself]
    exact congrArg (fun ls => (Ladder.entries ls).map toNumbered)
      (Ladders.side_setSide_opposite _ hs _)

theorem cancel_numbered (hw : b.WF) (c o t : ℕ) :
    (b.numbered.cancel c o).1 = (b.cancel c o t).1.numbered := by
  have hi : b.numbered.index c o = b.index c o := rfl
  unfold NumberedBook.cancel IndexedBook.cancel
  cases hl : b.lookup c o with
  | none =>
    rw [hi, (IndexedBook.lookup_eq_none hw).mp hl]
  | some y =>
    obtain ⟨hy, rfl, rfl, hidx⟩ := IndexedBook.lookup_eq_some hw hl
    rw [hi, hidx]
    simp only [← without_numbered hw hy]
    rfl

theorem call_numbered (hw : b.WF) {c : Call} (hc : c.Admissible) :
    (b.numbered.call c).1 = (b.call c).1.numbered := by
  cases c with
  | add n => exact add_numbered hw hc.1
  | cancel clientId orderId tickerId => exact cancel_numbered hw clientId orderId tickerId

end Numbered

section Labels

variable {b : IndexedBook} {n : NewOrder} {g : MEOrderBook.Aggressor} {price : ℤ} {q i : ℕ}
  {ls : List (Level ℤ MEOrder)}

def Crosses (side : Side) (price : ℤ) (q : ℕ) (ls : List (Level ℤ MEOrder)) : Prop :=
  q ≠ 0 ∧ ∃ L ∈ ls.head?, ¬ MEOrderBook.noMoreCrosses side price L.price

def IndexedBook.Trades (b : IndexedBook) (n : NewOrder) : Prop :=
  Crosses n.side n.price n.qty (b.book.ladders.side n.side.opposite)

def IndexedBook.aggressor (b : IndexedBook) (n : NewOrder) : MEOrderBook.Aggressor :=
  ⟨n.tickerId, n.clientId, n.side, n.clientOrderId, b.fillId⟩

inductive Told (b : IndexedBook) : Call → Option ℕ → Event → Prop
  | accepted (n : NewOrder) :
      Told b (.add n) (some b.book.nextMarketOrderId) (b.book.accepted n)
  | aggressor (n : NewOrder) (trades : b.Trades n) (price : ℤ) (fillQty leavesQty : ℕ) :
      Told b (.add n) (some b.book.nextMarketOrderId)
        (.response (aggressorFill (b.aggressor n) price fillQty leavesQty))
  | passive (n : NewOrder) {o : MEOrder} (ho : o ∈ b.book.ladders.entries) (fillQty : ℕ) :
      Told b (.add n) (some o.ids.marketOrderId) (.response (passiveFill (b.aggressor n) o fillQty))
  | trade (n : NewOrder) {u : MEMarketUpdate} (type : u.type = .trade)
      (id : u.orderId = orderIdInvalid) : Told b (.add n) none (.update u)
  | eaten (n : NewOrder) {o : MEOrder} (ho : o ∈ b.book.ladders.entries) {u : MEMarketUpdate}
      (type : u.type = .modify ∨ u.type = .cancel) (id : u.orderId = o.ids.marketOrderId)
      (side : u.side = o.side) : Told b (.add n) (some o.ids.marketOrderId) (.update u)
  | added (n : NewOrder) {u : MEMarketUpdate} (type : u.type = .add)
      (id : u.orderId = b.book.nextMarketOrderId) (side : u.side = n.side) :
      Told b (.add n) (some b.book.nextMarketOrderId) (.update u)
  | rejected (c o t : ℕ) {r : MEClientResponse} (type : r.type = .cancelRejected)
      (id : r.marketOrderId = orderIdInvalid) : Told b (.cancel c o t) none (.response r)
  | dropped (c o t : ℕ) {y : MEOrder} (hy : y ∈ b.book.ladders.entries) {u : MEMarketUpdate}
      (type : u.type = .cancel) (id : u.orderId = y.ids.marketOrderId) (side : u.side = y.side) :
      Told b (.cancel c o t) (some y.ids.marketOrderId) (.update u)
  | canceled (c o t : ℕ) {y : MEOrder} (hy : y ∈ b.book.ladders.entries) {r : MEClientResponse}
      (type : r.type = .canceled) (id : r.marketOrderId = y.ids.marketOrderId)
      (client : r.clientId = y.ids.clientId) (order : r.clientOrderId = y.ids.clientOrderId)
      (side : r.side = y.side) : Told b (.cancel c o t) (some y.ids.marketOrderId) (.response r)

theorem sweep_labels {R : Option ℕ → Event → Prop} (hn : Ladder.NonEmpty ls) (hp : Priced ls)
    (ha : Crosses g.side price q ls → ∀ p k l, R (some i) (.response (aggressorFill g p k l)))
    (hpassive : ∀ o ∈ Ladder.entries ls, ∀ k,
      R (some o.ids.marketOrderId) (.response (passiveFill g o k)))
    (htrade : ∀ u : MEMarketUpdate, u.type = .trade → u.orderId = orderIdInvalid →
      R none (.update u))
    (heaten : ∀ o ∈ Ladder.entries ls, ∀ u : MEMarketUpdate, u.type = .modify ∨ u.type = .cancel →
      u.orderId = o.ids.marketOrderId → u.side = o.side →
        R (some o.ids.marketOrderId) (.update u)) :
    List.Forall₂ R ((NumberedBook.fill g.side price q
        ((Ladder.entries ls).map toNumbered)).touched.flatMap (NumberedBook.fillLabels i))
      (sweep g price q ls).events := by
  induction q, ls, hn using sweep_induct g price with
  | nil q hn => exact .nil
  | zero ls hn =>
    rw [sweep_zero, NumberedBook.fill_zero]
    exact .nil
  | stop q L ls hn hx =>
    obtain ⟨p, os⟩ := L
    obtain ⟨o, os, rfl⟩ := List.exists_cons_of_ne_nil (Ladder.nonEmpty_cons.mp hn).1
    rw [sweep_stop g price ls q hx, fill_stop hp q hx]
    exact .nil
  | part q p o os ls hn h0 hx hq =>
    have ho : o ∈ Ladder.entries (⟨p, o :: os⟩ :: ls) := List.mem_cons_self
    rw [sweep_part g price os ls h0 hx hq, fill_part hp h0 hx hq]
    exact .cons (ha ⟨h0, _, rfl, hx⟩ _ _ _) (.cons (hpassive o ho _) (.cons (htrade _ rfl rfl)
      (.cons (heaten o ho _ (.inl rfl) rfl rfl) .nil)))
  | filled q p o os ls hn hn' h0 hx hq ih =>
    have ho : o ∈ Ladder.entries (⟨p, o :: os⟩ :: ls) := List.mem_cons_self
    have hfill := ha ⟨h0, _, rfl, hx⟩
    rw [entries_keep_append] at ih
    have hrest := ih hp.keep (fun _ => hfill) (fun x hx => hpassive x (List.mem_cons_of_mem _ hx))
      fun x hx => heaten x (List.mem_cons_of_mem _ hx)
    rw [sweep_filled g price os ls h0 hx hq, fill_whole hp h0 hx hq]
    exact .cons (hfill _ _ _) (.cons (hpassive o ho _) (.cons (htrade _ rfl rfl)
      (.cons (heaten o ho _ (.inr rfl) rfl rfl) hrest)))

theorem swept_told (hw : b.WF) (hs : n.side.IsBuyOrSell) :
    List.Forall₂ (Told b (.add n)) ((b.numbered.filled n).touched.flatMap
      (NumberedBook.fillLabels b.book.nextMarketOrderId)) (b.book.swept b.fillId n).events := by
  have hok := hw.book.sides _ hs.opposite
  have hmem : ∀ o ∈ Ladder.entries (b.book.ladders.side n.side.opposite),
      o ∈ b.book.ladders.entries := fun o ho => (b.book.ladders.mem_entries_side hs).mpr (.inr ho)
  unfold NumberedBook.filled
  rw [numbered_side]
  exact sweep_labels (g := b.aggressor n) hok.nonEmpty hok.priced (fun h => .aggressor n h)
    (fun o ho => .passive n (hmem o ho)) (fun u => .trade n) fun o ho u => .eaten n (hmem o ho)

theorem call_told (hw : b.WF) {c : Call} (hc : c.Admissible) :
    List.Forall₂ (Told b c) (b.numbered.call c).2 (b.call c).2 := by
  cases c with
  | add n =>
    have hswept := swept_told hw hc.1
    have hleaves := (filled_numbered (n := n) hw hc.1).2.1
    have hadds := adds_numbered hw
    have hhead := List.Forall₂.cons (Told.accepted (b := b) n) hswept
    simp only [NumberedBook.call, IndexedBook.call, NumberedBook.add, IndexedBook.add,
      PriceTimeBook.place, hadds, hleaves]
    split_ifs with hq
    · exact hhead
    · exact List.rel_append hhead (.cons (.added n rfl rfl rfl) .nil)
  | cancel c o t =>
    have hi : b.numbered.index c o = b.index c o := rfl
    simp only [NumberedBook.call, IndexedBook.call, NumberedBook.cancel, IndexedBook.cancel]
    cases hl : b.lookup c o with
    | none =>
      rw [hi, (IndexedBook.lookup_eq_none hw).mp hl]
      exact .cons (.rejected c o t rfl rfl) .nil
    | some y =>
      obtain ⟨hy, hyc, hyo, hidx⟩ := IndexedBook.lookup_eq_some hw hl
      rw [hi, hidx]
      exact .cons (.dropped c o t hy rfl rfl rfl)
        (.cons (.canceled c o t hy rfl rfl hyc.symm hyo.symm rfl) .nil)

end Labels

end Exchange
