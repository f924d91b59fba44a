import TradingEcosystem.Common.BookDecode
import TradingEcosystem.Exchange.Refinement
import TradingEcosystem.Library.Trace

namespace Exchange

open Common

inductive Call where
  | add (n : NewOrder)
  | cancel (clientId orderId tickerId : ℕ)
  deriving DecidableEq, Repr

def Call.Admissible : Call → Prop
  | .add n => n.Admissible
  | .cancel clientId orderId _ => MEOrderBook.InRange clientId orderId

instance : (c : Call) → Decidable c.Admissible
  | .add n => inferInstanceAs (Decidable n.Admissible)
  | .cancel clientId orderId _ => inferInstanceAs (Decidable (MEOrderBook.InRange clientId orderId))

def numAdds : List Call → ℕ
  | [] => 0
  | .add _ :: calls => numAdds calls + 1
  | .cancel .. :: calls => numAdds calls

def MEOrderBook.call (p : MEOrderBook) : Call → Outcome (MEOrderBook × List Event)
  | .add n => p.add n.clientId n.clientOrderId n.tickerId n.side n.price n.qty
  | .cancel clientId orderId tickerId => p.cancel clientId orderId tickerId

def MEOrderBook.run (p : MEOrderBook) : List Call → Outcome (MEOrderBook × List Event)
  | [] => pure (p, [])
  | c :: calls => do
      let (p, events) ← p.call c
      let (p, more) ← p.run calls
      pure (p, events ++ more)

def runCalls {σ : Type} (step : σ → Call → σ × List Event) : σ → List Call → σ × List Event
  | b, [] => (b, [])
  | b, c :: calls =>
      let r := runCalls step (step b c).1 calls
      (r.1, (step b c).2 ++ r.2)

def PriceTimeBook.call (b : PriceTimeBook) : Call → PriceTimeBook × List Event
  | .add n => b.add n
  | .cancel clientId orderId tickerId => b.cancel clientId orderId tickerId

def PriceTimeBook.run : PriceTimeBook → List Call → PriceTimeBook × List Event :=
  runCalls PriceTimeBook.call

def IndexedBook.call (b : IndexedBook) : Call → IndexedBook × List Event
  | .add n => b.add n
  | .cancel clientId orderId tickerId => b.cancel clientId orderId tickerId

def IndexedBook.run : IndexedBook → List Call → IndexedBook × List Event :=
  runCalls IndexedBook.call

def PriceTimeBook.NoReuse (b : PriceTimeBook) : List Call → Prop
  | [] => True
  | .add n :: calls => b.find? n.clientId n.clientOrderId = none ∧ (b.add n).1.NoReuse calls
  | .cancel clientId orderId tickerId :: calls => (b.cancel clientId orderId tickerId).1.NoReuse calls

instance decidableNoReuse : (b : PriceTimeBook) → (calls : List Call) → Decidable (b.NoReuse calls)
  | _, [] => isTrue trivial
  | b, .add n :: calls =>
      have := decidableNoReuse (b.add n).1 calls
      inferInstanceAs (Decidable (_ ∧ _))
  | b, .cancel clientId orderId tickerId :: calls =>
      decidableNoReuse (b.cancel clientId orderId tickerId).1 calls

def MEOrderBook.restingOrder (p : MEOrderBook) (clientId orderId : ℕ) : Option MEOrder :=
  (p.cidOidToOrder clientId orderId).map fun a => (p.book.orderAt a).toOrderInfo

def PriceTimeBook.levelAtPrice (b : PriceTimeBook) (price : ℤ) : Option (Level ℤ MEOrder) :=
  (b.ladders.bids ++ b.ladders.asks).find? fun L => decide (L.price = price)

variable {p : MEOrderBook} {b : IndexedBook}

theorem IndexedBook.wf_call (h : b.WF) {c : Call} (hc : c.Admissible) : (b.call c).1.WF := by
  cases c with
  | add n => exact IndexedBook.wf_add h hc
  | cancel clientId orderId tickerId => exact IndexedBook.wf_cancel h clientId orderId tickerId

theorem IndexedBook.next_call (b : IndexedBook) (c : Call) :
    (b.call c).1.book.nextMarketOrderId = b.book.nextMarketOrderId + numAdds [c] := by
  cases c with
  | add n =>
    simp only [IndexedBook.call, IndexedBook.add, PriceTimeBook.place]
    split_ifs <;> rfl
  | cancel clientId orderId tickerId =>
    simp only [IndexedBook.call, IndexedBook.cancel]
    cases b.lookup clientId orderId <;> rfl

theorem numAdds_cons (c : Call) (calls : List Call) :
    numAdds (c :: calls) = numAdds [c] + numAdds calls := by
  cases c with
  | add n => exact Nat.add_comm _ _
  | cancel clientId orderId tickerId => exact (Nat.zero_add _).symm

def IndexedBook.Fits (b : IndexedBook) : Call → Prop
  | .add n => (b.book.swept b.fillId n).leavesQty ≠ 0 → b.book.nextMarketOrderId < meMaxOrderIds
  | .cancel .. => True

theorem IndexedBook.fits_of_room {c : Call}
    (hroom : b.book.nextMarketOrderId + numAdds [c] ≤ meMaxOrderIds) : b.Fits c := by
  cases c with
  | add n => exact fun _ => hroom
  | cancel clientId orderId tickerId => trivial

theorem IndexedBook.fits_run (calls : List Call)
    (hroom : b.book.nextMarketOrderId + numAdds calls ≤ meMaxOrderIds) :
    Trace.Every (fun b c => (IndexedBook.call b c).1) IndexedBook.Fits b calls := by
  induction calls generalizing b with
  | nil => trivial
  | cons c calls ih =>
    rw [numAdds_cons] at hroom
    refine ⟨fits_of_room (by omega), ih ?_⟩
    rw [IndexedBook.next_call]
    omega

theorem Refines.call (h : Refines p b) (hw : b.WF) {c : Call} (hc : c.Admissible)
    (hroom : b.book.nextMarketOrderId + numAdds [c] ≤ meMaxOrderIds) :
    ∃ p', p.call c = .ok (p', (b.call c).2) ∧ Refines p' (b.call c).1 := by
  cases c with
  | cancel clientId orderId tickerId => exact h.cancel hw tickerId hc
  | add n =>
    refine h.add hw hc (.inr ?_)
    have hcount : (b.book.afterSweep b.fillId n).entries.length < b.book.nextMarketOrderId :=
      (PriceTimeBook.wf_afterSweep hw.book hc.1).count
    simp only [numAdds] at hroom
    omega

theorem Refines.run (calls : List Call) (h : Refines p b) (hw : b.WF)
    (hc : ∀ c ∈ calls, c.Admissible)
    (hroom : b.book.nextMarketOrderId + numAdds calls ≤ meMaxOrderIds) :
    ∃ p', p.run calls = .ok (p', (b.run calls).2) ∧ Refines p' (b.run calls).1 ∧
      (b.run calls).1.WF := by
  induction calls generalizing p b with
  | nil => exact ⟨p, rfl, h, hw⟩
  | cons c calls ih =>
    rw [numAdds_cons] at hroom
    obtain ⟨p₁, hcall, h₁⟩ := h.call hw (hc c (List.mem_cons_self ..)) (by omega)
    obtain ⟨p₂, hrun, h₂, hw₂⟩ := ih h₁ (IndexedBook.wf_call hw (hc c (List.mem_cons_self ..)))
      (fun x hx => hc x (List.mem_cons_of_mem _ hx)) (by rw [IndexedBook.next_call]; omega)
    refine ⟨p₂, ?_, h₂, hw₂⟩
    simp only [MEOrderBook.run, hcall, ok_bind, hrun, pure_ok]
    rfl

theorem IndexedBook.run_eq (calls : List Call) (hw : b.WF) (he : b.Exact)
    (hc : ∀ c ∈ calls, c.Admissible)
    (hroom : b.book.nextMarketOrderId + numAdds calls ≤ meMaxOrderIds)
    (hreuse : b.book.NoReuse calls) :
    (b.run calls).1.book = (b.book.run calls).1 ∧ (b.run calls).2 = (b.book.run calls).2 ∧
      (b.run calls).1.Exact := by
  induction calls generalizing b with
  | nil => exact ⟨rfl, rfl, he⟩
  | cons c calls ih =>
    rw [numAdds_cons] at hroom
    have hcc := hc c (List.mem_cons_self ..)
    have hstep : (b.call c).1.book = (b.book.call c).1 ∧ (b.call c).2 = (b.book.call c).2 ∧
        (b.call c).1.Exact ∧ (b.book.call c).1.NoReuse calls := by
      cases c with
      | add n =>
        have hid : b.fillId = b.book.nextMarketOrderId := by
          refine Nat.mod_eq_of_lt ?_
          simp only [numAdds, meMaxOrderIds] at hroom
          omega
        have hadd : b.book.add n = b.book.place b.fillId n := by rw [hid]; rfl
        refine ⟨?_, ?_, IndexedBook.exact_add hw he hcc hreuse.1, hreuse.2⟩
        · simp only [IndexedBook.call, PriceTimeBook.call, hadd]
          rfl
        · simp only [IndexedBook.call, PriceTimeBook.call, hadd]
          rfl
      | cancel clientId orderId tickerId =>
        have hl := IndexedBook.Exact.lookup_eq hw he clientId orderId
        refine ⟨?_, ?_, IndexedBook.exact_cancel hw he _ _ _, hreuse⟩ <;>
          simp only [IndexedBook.call, PriceTimeBook.call, IndexedBook.cancel,
            PriceTimeBook.cancel, hl] <;>
          cases b.book.find? clientId orderId <;> rfl
    obtain ⟨hbook, hev, hex, hno⟩ := hstep
    obtain ⟨ih₁, ih₂, ih₃⟩ := ih (b := (b.call c).1) (IndexedBook.wf_call hw hcc) hex
      (fun x hx => hc x (List.mem_cons_of_mem _ hx)) (by rw [IndexedBook.next_call]; omega)
      (hbook ▸ hno)
    refine ⟨?_, ?_, ih₃⟩
    · exact ih₁.trans (by rw [hbook]; rfl)
    · change (b.call c).2 ++ ((b.call c).1.run calls).2 = _
      rw [hev, ih₂, hbook]
      rfl

theorem Refines.restingOrder (h : Refines p b) (hw : b.WF) (clientId orderId : ℕ) :
    p.restingOrder clientId orderId = b.lookup clientId orderId := by
  obtain ⟨s, htr, hlad, -⟩ := h
  have hp := htr.points clientId orderId
  unfold MEOrderBook.restingOrder
  cases hl : b.lookup clientId orderId with
  | none =>
    rw [(IndexedBook.lookup_eq_none hw).mp hl] at hp
    generalize p.cidOidToOrder clientId orderId = a at hp
    cases hp
    rfl
  | some x =>
    obtain ⟨hx, -, -, hi⟩ := IndexedBook.lookup_eq_some hw hl
    rw [hi] at hp
    generalize p.cidOidToOrder clientId orderId = a at hp
    generalize hm : x.ids.marketOrderId = m at hp
    cases hp with
    | order e he hc ho =>
      have hmem : e.2 ∈ b.book.ladders.entries := by
        rw [hlad, Ladders.entries_mapOrders]
        exact List.mem_map_of_mem he
      rw [Option.map_some, htr.stores.info he, hw.book.eq_of_id hmem hx hm.symm]

theorem meOrderBook_refines_priceTimeBook (checked : Bool) (tickerId : ℕ) (calls : List Call)
    (hc : ∀ c ∈ calls, c.Admissible) (hadds : numAdds calls < meMaxOrderIds)
    (hreuse : PriceTimeBook.new.NoReuse calls) :
    ∃ p, (MEOrderBook.new checked tickerId).run calls =
        .ok (p, (PriceTimeBook.new.run calls).2) ∧
      p.book.decode = some (PriceTimeBook.new.run calls).1.ladders ∧
      (∀ clientId orderId, p.restingOrder clientId orderId =
        (PriceTimeBook.new.run calls).1.find? clientId orderId) ∧
      (∀ price, PriceInRange price →
        p.book.levelAtPrice price = (PriceTimeBook.new.run calls).1.levelAtPrice price) ∧
      Ladder.Sorted (better .buy) (PriceTimeBook.new.run calls).1.ladders.bids ∧
      Ladder.Sorted (better .sell) (PriceTimeBook.new.run calls).1.ladders.asks := by
  have hroom : IndexedBook.new.book.nextMarketOrderId + numAdds calls ≤ meMaxOrderIds := by
    simp only [IndexedBook.new, PriceTimeBook.new]
    omega
  obtain ⟨p, hrun, href, hw⟩ := (refines_new checked tickerId).run calls IndexedBook.wf_new hc hroom
  obtain ⟨hbook, hev, hex⟩ := IndexedBook.run_eq calls IndexedBook.wf_new IndexedBook.exact_new hc
    hroom hreuse
  have hbook' : (IndexedBook.new.run calls).1.book = (PriceTimeBook.new.run calls).1 := hbook
  obtain ⟨s, htr, hlad, -⟩ := id href
  refine ⟨p, hev ▸ hrun, ?_, ?_, ?_, ?_, ?_⟩
  · rw [htr.stores.decode, ← hlad, hbook']
  · intro clientId orderId
    rw [href.restingOrder hw, IndexedBook.Exact.lookup_eq hw hex, hbook']
  · intro price hp
    rw [htr.stores.levelAtPrice hp, ← hlad, hbook']
    rfl
  · exact hbook' ▸ (hw.book.sides .buy (.inl rfl)).sorted
  · exact hbook' ▸ (hw.book.sides .sell (.inr rfl)).sorted

def sampleCalls : List Call :=
  [.add ⟨1, 10, 0, .sell, 101, 5⟩, .add ⟨1, 11, 0, .sell, 100, 7⟩, .add ⟨2, 10, 0, .sell, 100, 4⟩,
    .add ⟨3, 20, 0, .buy, 101, 13⟩, .add ⟨3, 21, 0, .buy, 99, 6⟩, .cancel 1 10 0, .cancel 1 11 0]

theorem meOrderBook_refines_priceTimeBook_sample :
    ∃ p, (MEOrderBook.new true 0).run sampleCalls =
        .ok (p, (PriceTimeBook.new.run sampleCalls).2) ∧
      p.book.decode = some (PriceTimeBook.new.run sampleCalls).1.ladders ∧
      (∀ clientId orderId, p.restingOrder clientId orderId =
        (PriceTimeBook.new.run sampleCalls).1.find? clientId orderId) ∧
      (∀ price, PriceInRange price →
        p.book.levelAtPrice price = (PriceTimeBook.new.run sampleCalls).1.levelAtPrice price) ∧
      Ladder.Sorted (better .buy) (PriceTimeBook.new.run sampleCalls).1.ladders.bids ∧
      Ladder.Sorted (better .sell) (PriceTimeBook.new.run sampleCalls).1.ladders.asks :=
  meOrderBook_refines_priceTimeBook true 0 sampleCalls (by decide) (by decide) (by decide)

theorem meOrderBook_never_crossed (checked : Bool) (tickerId : ℕ) (calls : List Call)
    (hc : ∀ c ∈ calls, c.Admissible) (hadds : numAdds calls < meMaxOrderIds) :
    ∃ p events ladders, (MEOrderBook.new checked tickerId).run calls = .ok (p, events) ∧
      p.book.decode = some ladders ∧
      (ladders.bids = [] ∨ ladders.asks = [] ∨ ∃ B bs A as, ladders.bids = B :: bs ∧
        ladders.asks = A :: as ∧ B.price < A.price) ∧
      (∀ o ∈ ladders.entries, 0 < o.qty) ∧
      (∀ B ∈ ladders.bids, ∀ A ∈ ladders.asks, priceToIndex B.price ≠ priceToIndex A.price) ∧
      ∀ L ∈ ladders.bids ++ ladders.asks, p.book.levelAtPrice L.price = some L := by
  have hroom : IndexedBook.new.book.nextMarketOrderId + numAdds calls ≤ meMaxOrderIds := by
    simp only [IndexedBook.new, PriceTimeBook.new]
    omega
  obtain ⟨p, hrun, href, hw⟩ := (refines_new checked tickerId).run calls IndexedBook.wf_new hc hroom
  obtain ⟨s, htr, hlad, -⟩ := href
  refine ⟨p, _, (IndexedBook.new.run calls).1.book.ladders, hrun, ?_, ?_, ?_, ?_, ?_⟩
  · rw [htr.stores.decode, hlad]
  · have hun := hw.book.uncrossed
    cases hb : (IndexedBook.new.run calls).1.book.ladders.bids with
    | nil => exact .inl rfl
    | cons B bs =>
      cases ha : (IndexedBook.new.run calls).1.book.ladders.asks with
      | nil => exact .inr (.inl rfl)
      | cons A as =>
        rw [hb, ha] at hun
        exact .inr (.inr ⟨B, bs, A, as, rfl, rfl, hun B (by simp) A (by simp)⟩)
  · exact fun o ho => (hw.book.order_ok ho).2.2.1.qty_pos
  · intro B hB A hA he
    have hBA := priceToIndex_inj ((hw.book.sides .buy (.inl rfl)).prices B hB)
      ((hw.book.sides .sell (.inr rfl)).prices A hA) he
    exact absurd hBA (hw.book.uncrossed B hB A hA).ne
  · rw [hlad]
    exact fun L hL => htr.stores.levelAtPrice_mem hL

theorem meOrderBook_never_crossed_sample :
    ∃ p events ladders, (MEOrderBook.new false 0).run (sampleCalls ++ sampleCalls) =
        .ok (p, events) ∧
      p.book.decode = some ladders ∧
      (ladders.bids = [] ∨ ladders.asks = [] ∨ ∃ B bs A as, ladders.bids = B :: bs ∧
        ladders.asks = A :: as ∧ B.price < A.price) ∧
      (∀ o ∈ ladders.entries, 0 < o.qty) ∧
      (∀ B ∈ ladders.bids, ∀ A ∈ ladders.asks, priceToIndex B.price ≠ priceToIndex A.price) ∧
      ∀ L ∈ ladders.bids ++ ladders.asks, p.book.levelAtPrice L.price = some L :=
  meOrderBook_never_crossed false 0 (sampleCalls ++ sampleCalls) (by decide) (by decide)

end Exchange
