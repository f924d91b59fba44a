import TradingEcosystem.Exchange.Runs

namespace Exchange

open Common

structure MatchingEngine where
  tickerOrderBook : ℕ → MEOrderBook

namespace MatchingEngine

def new (checked : Bool) : MatchingEngine := ⟨MEOrderBook.new checked⟩

def setBook (e : MatchingEngine) (tickerId : ℕ) (book : MEOrderBook) : MatchingEngine :=
  ⟨Function.update e.tickerOrderBook tickerId book⟩

def processClientRequest (e : MatchingEngine) (req : MEClientRequest) :
    Outcome (MatchingEngine × List Event) := do
  require (req.tickerId < meMaxTickers) .outOfRange
  let orderBook := e.tickerOrderBook req.tickerId
  match req.type with
  | .new => do
      let (book, events) ← orderBook.add req.clientId req.orderId req.tickerId req.side req.price
        req.qty
      pure (e.setBook req.tickerId book, events)
  | .cancel => do
      let (book, events) ← orderBook.cancel req.clientId req.orderId req.tickerId
      pure (e.setBook req.tickerId book, events)
  | _ => .error .fatal

def run (e : MatchingEngine) : List MEClientRequest → Outcome (MatchingEngine × List Event)
  | [] => pure (e, [])
  | req :: reqs => do
      let (e, events) ← e.processClientRequest req
      let (e, more) ← e.run reqs
      pure (e, events ++ more)

end MatchingEngine

def MEClientRequest.call (req : MEClientRequest) : Call :=
  if req.type = .new then
    .add ⟨req.clientId, req.orderId, req.tickerId, req.side, req.price, req.qty⟩
  else .cancel req.clientId req.orderId req.tickerId

def MEClientRequest.Admissible (req : MEClientRequest) : Prop :=
  req.tickerId < meMaxTickers ∧ (req.type = .new ∨ req.type = .cancel) ∧ req.call.Admissible

instance (req : MEClientRequest) : Decidable req.Admissible :=
  inferInstanceAs (Decidable (_ ∧ _ ∧ _))

def numNews (reqs : List MEClientRequest) : ℕ := numAdds (reqs.map MEClientRequest.call)

theorem numNews_cons (req : MEClientRequest) (reqs : List MEClientRequest) :
    numNews (req :: reqs) = numNews [req] + numNews reqs :=
  numAdds_cons _ _

theorem numNews_append (xs ys : List MEClientRequest) :
    numNews (xs ++ ys) = numNews xs + numNews ys := by
  induction xs with
  | nil => exact (Nat.zero_add _).symm
  | cons x xs ih =>
    rw [List.cons_append, numNews_cons, ih, numNews_cons x xs]
    omega

abbrev IndexedBooks := ℕ → IndexedBook

namespace IndexedBooks

def new : IndexedBooks := fun _ => IndexedBook.new

def step (B : IndexedBooks) (req : MEClientRequest) : IndexedBooks × List Event :=
  (Function.update B req.tickerId ((B req.tickerId).call req.call).1,
    ((B req.tickerId).call req.call).2)

def run (B : IndexedBooks) : List MEClientRequest → IndexedBooks × List Event
  | [] => (B, [])
  | req :: reqs =>
      let r := run (B.step req).1 reqs
      (r.1, (B.step req).2 ++ r.2)

theorem run_append (B : IndexedBooks) (xs ys : List MEClientRequest) :
    B.run (xs ++ ys) = (((B.run xs).1.run ys).1, (B.run xs).2 ++ ((B.run xs).1.run ys).2) := by
  induction xs generalizing B with
  | nil => rfl
  | cons x xs ih => simp [run, ih]

end IndexedBooks

variable {p : MEOrderBook} {b : IndexedBook} {e : MatchingEngine} {B : IndexedBooks}
  {req : MEClientRequest}

theorem Refines.add_of_ok {n : NewOrder} {r : MEOrderBook × List Event} (h : Refines p b)
    (hw : b.WF) (hn : n.Admissible)
    (hr : p.add n.clientId n.clientOrderId n.tickerId n.side n.price n.qty = .ok r) :
    r.2 = (b.add n).2 ∧ Refines r.1 (b.add n).1 := by
  by_cases hroom : (b.book.swept b.fillId n).leavesQty = 0 ∨
      (b.book.afterSweep b.fillId n).entries.length + 1 < meMaxOrderIds
  · obtain ⟨p', hadd, href⟩ := h.add hw hn hroom
    rw [hadd] at hr
    cases hr
    exact ⟨rfl, href⟩
  · obtain ⟨hq, hlen⟩ := not_or.mp hroom
    obtain ⟨p₁, s, hmatch, -, htr, hlad⟩ := h.checkForMatch hn.1
    have hfull : s.entries.length + 1 = meMaxOrderIds := by
      have := htr.stores.length_lt
      rw [← hlad, Ladders.entries_mapOrders, List.length_map] at hlen
      simp only [List.length_nil] at this
      omega
    simp only [MEOrderBook.add, hmatch, ok_bind, MEOrderBook.rest, if_neg hq] at hr
    cases hp : p₁.getNextPriority n.price with
    | error f => simp [hp] at hr
    | ok priority => simp [hp, htr.stores.allocateOrder_full hfull] at hr

theorem Refines.call_of_ok {c : Call} {r : MEOrderBook × List Event} (h : Refines p b) (hw : b.WF)
    (hc : c.Admissible) (hr : p.call c = .ok r) : r.2 = (b.call c).2 ∧ Refines r.1 (b.call c).1 := by
  cases c with
  | add n => exact h.add_of_ok hw hc hr
  | cancel clientId orderId tickerId =>
    obtain ⟨p', hcancel, href⟩ := h.cancel hw tickerId hc
    rw [MEOrderBook.call, hcancel] at hr
    cases hr
    exact ⟨rfl, href⟩

theorem MatchingEngine.processClientRequest_eq (ht : req.tickerId < meMaxTickers)
    (htype : req.type = .new ∨ req.type = .cancel) :
    e.processClientRequest req =
      ((e.tickerOrderBook req.tickerId).call req.call >>= fun r =>
        .ok (e.setBook req.tickerId r.1, r.2)) := by
  rw [MatchingEngine.processClientRequest, require_of _ ht, ok_bind]
  rcases htype with hnew | hcancel
  · simp only [hnew, MEClientRequest.call, if_true]
    rfl
  · simp only [hcancel, MEClientRequest.call]
    rfl

structure RefinesAll (e : MatchingEngine) (B : IndexedBooks) : Prop where
  books : ∀ t, Refines (e.tickerOrderBook t) (B t)
  wf : ∀ t, (B t).WF

theorem refinesAll_new (checked : Bool) : RefinesAll (MatchingEngine.new checked) IndexedBooks.new where
  books := fun t => refines_new checked t
  wf := fun _ => IndexedBook.wf_new

theorem RefinesAll.set (h : RefinesAll e B) {t : ℕ} (hp : Refines p b) (hw : b.WF) :
    RefinesAll (e.setBook t p) (Function.update B t b) where
  books := fun s => by
    rw [MatchingEngine.setBook]
    by_cases hs : s = t
    · simpa [hs] using hp
    · simpa [hs] using h.books s
  wf := fun s => by
    by_cases hs : s = t
    · simpa [hs] using hw
    · simpa [hs] using h.wf s

theorem RefinesAll.step_of_ok {r : MatchingEngine × List Event} (h : RefinesAll e B)
    (hreq : req.Admissible) (hr : e.processClientRequest req = .ok r) :
    r.2 = (B.step req).2 ∧ RefinesAll r.1 (B.step req).1 := by
  rw [MatchingEngine.processClientRequest_eq hreq.1 hreq.2.1] at hr
  obtain ⟨⟨book, events⟩, hcall, hr⟩ := bind_eq_ok.mp hr
  cases hr
  obtain ⟨hev, href⟩ := (h.books _).call_of_ok (h.wf _) hreq.2.2 hcall
  exact ⟨hev, h.set href (IndexedBook.wf_call (h.wf _) hreq.2.2)⟩

theorem RefinesAll.step (h : RefinesAll e B) (hreq : req.Admissible)
    (hroom : (B req.tickerId).book.nextMarketOrderId + numNews [req] ≤ meMaxOrderIds) :
    ∃ e', e.processClientRequest req = .ok (e', (B.step req).2) ∧ RefinesAll e' (B.step req).1 := by
  obtain ⟨p', hcall, href⟩ := (h.books _).call (h.wf _) hreq.2.2 hroom
  refine ⟨e.setBook req.tickerId p', ?_, h.set href (IndexedBook.wf_call (h.wf _) hreq.2.2)⟩
  rw [MatchingEngine.processClientRequest_eq hreq.1 hreq.2.1, hcall]
  rfl

def HasRoom (B : IndexedBooks) (n : ℕ) : Prop :=
  ∀ t, (B t).book.nextMarketOrderId + n ≤ meMaxOrderIds

theorem hasRoom_new {n : ℕ} (h : n < meMaxOrderIds) : HasRoom IndexedBooks.new n := by
  intro t
  simp only [IndexedBooks.new, IndexedBook.new, PriceTimeBook.new]
  omega

theorem HasRoom.step {n : ℕ} (h : HasRoom B (numNews [req] + n)) : HasRoom (B.step req).1 n := by
  intro t
  have ht := h t
  by_cases hs : t = req.tickerId
  · subst hs
    have hnext := (B req.tickerId).next_call req.call
    have hnum : numNews [req] = numAdds [req.call] := rfl
    simp only [IndexedBooks.step, Function.update_self]
    omega
  · simp only [IndexedBooks.step, Function.update_of_ne hs]
    omega

theorem RefinesAll.run (reqs : List MEClientRequest) (h : RefinesAll e B)
    (hreqs : ∀ req ∈ reqs, req.Admissible) (hroom : HasRoom B (numNews reqs)) :
    ∃ e', e.run reqs = .ok (e', (B.run reqs).2) ∧ RefinesAll e' (B.run reqs).1 := by
  induction reqs generalizing e B with
  | nil => exact ⟨e, rfl, h⟩
  | cons req reqs ih =>
    rw [numNews_cons] at hroom
    have hreq := hreqs req (List.mem_cons_self ..)
    obtain ⟨e₁, hstep, h₁⟩ := h.step hreq (by have := hroom req.tickerId; omega)
    obtain ⟨e₂, hrun, h₂⟩ := ih h₁ (fun x hx => hreqs x (List.mem_cons_of_mem _ hx)) hroom.step
    refine ⟨e₂, ?_, h₂⟩
    simp only [MatchingEngine.run, hstep, ok_bind, hrun, pure_ok]
    rfl

end Exchange
