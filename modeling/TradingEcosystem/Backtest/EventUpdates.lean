import TradingEcosystem.Backtest.SlotMoves
import TradingEcosystem.Library.Trace

namespace Backtest

open Common Exchange Trading

namespace BacktestEngine

variable {E : Type} (calls : EngineCalls E)

def feed : E → List MEMarketUpdate → Outcome (E × List MEClientRequest)
  | s, [] => pure (s, [])
  | s, u :: us => do
      let (s, reqs) ← calls.onMarketUpdate s u
      let (s, more) ← feed s us
      pure (s, reqs ++ more)

def withdrawal (tickerId : ℕ) (side : Side) (oid : ℕ) (price : ℤ) (qty : ℕ) : List MEMarketUpdate :=
  if oid ≠ orderIdInvalid then [⟨.cancel, oid, tickerId, side, price, qty, 0⟩] else []

def quotation (tickerId : ℕ) (side : Side) (oid : ℕ) (price : ℤ) (qty : ℕ) : List MEMarketUpdate :=
  if price ≠ priceInvalid then [⟨.add, oid, tickerId, side, price, qty, 0⟩] else []

def wrapOid (oid : ℕ) : ℕ := if 900000 ≤ oid + 1 then 500000 else oid + 1

section Updates

variable (e : BacktestEngine E) (ev : BookTopEvent)

def newBid : Bool := e.bidChanged ev && decide (ev.bidPrice ≠ priceInvalid)

def newAsk : Bool := e.askChanged ev && decide (ev.askPrice ≠ priceInvalid)

/-- The id the ask of the event takes: the bid takes its own first. -/
def askOid : ℕ := if e.newBid ev then wrapOid e.nextSynthOid else e.nextSynthOid

def bookUpdates : List MEMarketUpdate :=
  (if e.bidChanged ev then withdrawal e.tickerId .buy e.restingBidOid e.lastBidPrice e.lastBidQty
    else []) ++
  ((if e.askChanged ev then withdrawal e.tickerId .sell e.restingAskOid e.lastAskPrice e.lastAskQty
    else []) ++
  ((if e.bidChanged ev then quotation e.tickerId .buy e.nextSynthOid ev.bidPrice ev.bidQty
    else []) ++
  if e.askChanged ev then quotation e.tickerId .sell (e.askOid ev) ev.askPrice ev.askQty else []))

def recorded : BacktestEngine E :=
  { e with
    nextSynthOid := if e.newAsk ev then wrapOid (e.askOid ev) else e.askOid ev
    restingBidOid := if e.newBid ev then e.nextSynthOid
      else if e.bidChanged ev then orderIdInvalid else e.restingBidOid
    restingAskOid := if e.newAsk ev then e.askOid ev
      else if e.askChanged ev then orderIdInvalid else e.restingAskOid
    lastBidPrice := ev.bidPrice
    lastBidQty := ev.bidQty
    lastAskPrice := ev.askPrice
    lastAskQty := ev.askQty }

def fed (p : E × List MEClientRequest) : BacktestEngine E :=
  { e with engine := p.1, clientRequests := e.clientRequests ++ p.2 }

end Updates

variable {calls} {e : BacktestEngine E}

theorem feed_append (s : E) (us vs : List MEMarketUpdate) :
    feed calls s (us ++ vs) = feed calls s us >>= fun p =>
      (feed calls p.1 vs).map fun q => (q.1, p.2 ++ q.2) := by
  induction us generalizing s with
  | nil =>
    rw [List.nil_append, feed, pure_ok, ok_bind]
    cases feed calls s vs <;> rfl
  | cons u us ih =>
    rw [List.cons_append, feed, feed]
    cases calls.onMarketUpdate s u with
    | error f => rfl
    | ok p =>
      rw [ok_bind, ok_bind]
      dsimp only
      rw [ih]
      cases feed calls p.1 us with
      | error f => rfl
      | ok q =>
        rw [ok_bind, ok_bind, pure_ok, ok_bind]
        dsimp only
        cases feed calls q.1 vs with
        | error f => rfl
        | ok r => exact congrArg (fun x => Except.ok (r.1, x)) (List.append_assoc ..).symm

def Stage (calls : EngineCalls E) (f : BacktestEngine E → Outcome (BacktestEngine E))
    (e : BacktestEngine E) (us : List MEMarketUpdate) (e' : BacktestEngine E) : Prop :=
  ∀ p, f (e.fed p) = (feed calls p.1 us).map fun q => e'.fed (q.1, p.2 ++ q.2)

variable {f g : BacktestEngine E → Outcome (BacktestEngine E)} {e₁ e₂ : BacktestEngine E}
  {us vs : List MEMarketUpdate}

theorem stage_cache {m : BacktestEngine E → BacktestEngine E} (hm : ∀ p, m (e.fed p) = (m e).fed p) :
    Stage calls (fun e => pure (m e)) e [] (m e) := by
  intro p
  dsimp only
  rw [hm, feed]
  exact congrArg (fun x => Except.ok ((m e).fed (p.1, x))) (List.append_nil _).symm

theorem stage_publish (e : BacktestEngine E) (u : MEMarketUpdate) :
    Stage calls (fun e => e.publishMarketUpdate calls u) e [u] e := by
  intro p
  change (calls.onMarketUpdate p.1 u >>= _) = Except.map _ (calls.onMarketUpdate p.1 u >>= _)
  cases calls.onMarketUpdate p.1 u with
  | error f => rfl
  | ok q => simp [feed, fed, Except.map]

theorem Stage.bind (hf : Stage calls f e us e₁) (hg : Stage calls g e₁ vs e₂) :
    Stage calls (fun e => f e >>= g) e (us ++ vs) e₂ := by
  intro p
  dsimp only
  rw [hf p, feed_append]
  cases feed calls p.1 us with
  | error f => rfl
  | ok q =>
    rw [ok_bind]
    change g (e₁.fed (q.1, p.2 ++ q.2)) = _
    rw [hg]
    dsimp only
    cases feed calls q.1 vs with
    | error f => rfl
    | ok r => simp [Except.map]

theorem stage_idle (e : BacktestEngine E) : Stage calls pure e [] e :=
  stage_cache (m := id) fun _ => rfl

theorem stage_withdrawal (clear : BacktestEngine E → BacktestEngine E) {side : Side} {oid : ℕ}
    {price : ℤ} {qty : ℕ} (hclear : ∀ p, clear (e.fed p) = (clear e).fed p)
    (hnone : oid = orderIdInvalid → clear e = e)
    (hf : ∀ p, f (e.fed p) = if oid ≠ orderIdInvalid then do
        let e ← (e.fed p).publishMarketUpdate calls ⟨.cancel, oid, e.tickerId, side, price, qty, 0⟩
        pure (clear e)
      else pure (e.fed p)) (c : Bool) :
    Stage calls (whenever c f) e (if c then withdrawal e.tickerId side oid price qty else [])
      (if c then clear e else e) := by
  intro p
  cases c with
  | false => exact stage_idle e p
  | true =>
    rw [whenever, if_pos rfl, if_pos rfl, if_pos rfl, hf, withdrawal]
    by_cases hoid : oid = orderIdInvalid
    · rw [if_neg (not_not_intro hoid), if_neg (not_not_intro hoid), hnone hoid]
      exact stage_idle e p
    · rw [if_pos hoid, if_pos hoid]
      exact (stage_publish e _).bind (stage_cache hclear) p

theorem stage_quotation (take mark : BacktestEngine E → BacktestEngine E) {side : Side} {oid : ℕ}
    {price : ℤ} {qty : ℕ} (htake : ∀ p, take (e.fed p) = (take e).fed p)
    (hmark : ∀ e p, mark (fed e p) = (mark e).fed p)
    (hf : ∀ p, f (e.fed p) =
      (if price ≠ priceInvalid then
        (take (e.fed p)).publishMarketUpdate calls ⟨.add, oid, e.tickerId, side, price, qty, 0⟩
      else pure (e.fed p)) >>= fun e => pure (mark e)) (c : Bool) :
    Stage calls (whenever c f) e (if c then quotation e.tickerId side oid price qty else [])
      (if c then mark (if price ≠ priceInvalid then take e else e) else e) := by
  intro p
  cases c with
  | false => exact stage_idle e p
  | true =>
    rw [whenever, if_pos rfl, if_pos rfl, if_pos rfl, hf, quotation]
    by_cases hp : price = priceInvalid
    · rw [if_neg (not_not_intro hp), if_neg (not_not_intro hp), if_neg (not_not_intro hp)]
      exact stage_cache (m := mark) (hmark e) p
    · rw [if_pos hp, if_pos hp, if_pos hp, htake]
      exact (stage_publish (take e) _).bind (stage_cache (m := mark) (hmark (take e))) p

theorem stage_cancelBid (c : Bool) (e : BacktestEngine E) :
    Stage calls (whenever c (cancelBid calls)) e
      (if c then withdrawal e.tickerId .buy e.restingBidOid e.lastBidPrice e.lastBidQty else [])
      { e with restingBidOid := if c then orderIdInvalid else e.restingBidOid } := by
  have h := stage_withdrawal (f := cancelBid calls) (e := e)
    (fun e => { e with restingBidOid := orderIdInvalid }) (fun _ => rfl)
    (fun h => by rw [← h]) (fun _ => rfl) c
  cases c <;> exact h

theorem stage_cancelAsk (c : Bool) (e : BacktestEngine E) :
    Stage calls (whenever c (cancelAsk calls)) e
      (if c then withdrawal e.tickerId .sell e.restingAskOid e.lastAskPrice e.lastAskQty else [])
      { e with restingAskOid := if c then orderIdInvalid else e.restingAskOid } := by
  have h := stage_withdrawal (f := cancelAsk calls) (e := e)
    (fun e => { e with restingAskOid := orderIdInvalid }) (fun _ => rfl)
    (fun h => by rw [← h]) (fun _ => rfl) c
  cases c <;> exact h

theorem stage_addBid (c : Bool) (ev : BookTopEvent) (e : BacktestEngine E) :
    Stage calls (whenever c (addBid calls ev)) e
      (if c then quotation e.tickerId .buy e.nextSynthOid ev.bidPrice ev.bidQty else [])
      { e with
        nextSynthOid := if c && decide (ev.bidPrice ≠ priceInvalid) then wrapOid e.nextSynthOid
          else e.nextSynthOid
        restingBidOid := if c && decide (ev.bidPrice ≠ priceInvalid) then e.nextSynthOid
          else e.restingBidOid
        lastBidPrice := if c then ev.bidPrice else e.lastBidPrice
        lastBidQty := if c then ev.bidQty else e.lastBidQty } := by
  have h := stage_quotation (f := addBid calls ev) (e := e)
    (fun e => { e.bumpSynthOid with restingBidOid := e.nextSynthOid })
    (fun e => { e with lastBidPrice := ev.bidPrice, lastBidQty := ev.bidQty })
    (fun _ => rfl) (fun _ _ => rfl) (fun _ => rfl) c
  cases c with
  | false => exact h
  | true =>
    by_cases hp : ev.bidPrice = priceInvalid
    · simpa only [hp, ne_eq, not_true_eq_false, decide_false, Bool.and_false, if_false,
        if_true, Bool.false_eq_true] using h
    · simp only [hp, ne_eq, not_false_eq_true, decide_true, Bool.and_true, if_true] at h ⊢
      exact h

theorem stage_addAsk (c : Bool) (ev : BookTopEvent) (e : BacktestEngine E) :
    Stage calls (whenever c (addAsk calls ev)) e
      (if c then quotation e.tickerId .sell e.nextSynthOid ev.askPrice ev.askQty else [])
      { e with
        nextSynthOid := if c && decide (ev.askPrice ≠ priceInvalid) then wrapOid e.nextSynthOid
          else e.nextSynthOid
        restingAskOid := if c && decide (ev.askPrice ≠ priceInvalid) then e.nextSynthOid
          else e.restingAskOid
        lastAskPrice := if c then ev.askPrice else e.lastAskPrice
        lastAskQty := if c then ev.askQty else e.lastAskQty } := by
  have h := stage_quotation (f := addAsk calls ev) (e := e)
    (fun e => { e.bumpSynthOid with restingAskOid := e.nextSynthOid })
    (fun e => { e with lastAskPrice := ev.askPrice, lastAskQty := ev.askQty })
    (fun _ => rfl) (fun _ _ => rfl) (fun _ => rfl) c
  cases c with
  | false => exact h
  | true =>
    by_cases hp : ev.askPrice = priceInvalid
    · simpa only [hp, ne_eq, not_true_eq_false, decide_false, Bool.and_false, if_false,
        if_true, Bool.false_eq_true] using h
    · simp only [hp, ne_eq, not_false_eq_true, decide_true, Bool.and_true, if_true] at h ⊢
      exact h

theorem bid_of_not_changed {ev : BookTopEvent} (h : e.bidChanged ev = false) :
    e.lastBidPrice = ev.bidPrice ∧ e.lastBidQty = ev.bidQty := by
  have hsame : ev.bidPrice = e.lastBidPrice ∧ ev.bidQty = e.lastBidQty := by
    simpa [bidChanged] using h
  exact ⟨hsame.1.symm, hsame.2.symm⟩

theorem ask_of_not_changed {ev : BookTopEvent} (h : e.askChanged ev = false) :
    e.lastAskPrice = ev.askPrice ∧ e.lastAskQty = ev.askQty := by
  have hsame : ev.askPrice = e.lastAskPrice ∧ ev.askQty = e.lastAskQty := by
    simpa [askChanged] using h
  exact ⟨hsame.1.symm, hsame.2.symm⟩

theorem quoteBookEvent_eq (e : BacktestEngine E) (ev : BookTopEvent) :
    e.quoteBookEvent calls ev =
      (feed calls e.engine (e.bookUpdates ev)).map (e.recorded ev).fed := by
  have hstages : Stage calls (fun x => whenever (e.bidChanged ev) (cancelBid calls) x >>= fun x =>
      whenever (e.askChanged ev) (cancelAsk calls) x >>= fun x =>
      whenever (e.bidChanged ev) (addBid calls ev) x >>=
      whenever (e.askChanged ev) (addAsk calls ev)) e (e.bookUpdates ev) _ :=
    (stage_cancelBid _ e).bind ((stage_cancelAsk _ _).bind ((stage_addBid _ ev _).bind
      (stage_addAsk _ ev _)))
  have h := hstages (e.engine, [])
  have he : e.fed (e.engine, []) = e := by simp [fed]
  simp only [he, List.nil_append] at h
  refine h.trans ?_
  have hbid : (if e.bidChanged ev then ev.bidPrice else e.lastBidPrice) = ev.bidPrice ∧
      (if e.bidChanged ev then ev.bidQty else e.lastBidQty) = ev.bidQty := by
    cases hb : e.bidChanged ev with
    | false => exact bid_of_not_changed hb
    | true => exact ⟨rfl, rfl⟩
  have hask : (if e.askChanged ev then ev.askPrice else e.lastAskPrice) = ev.askPrice ∧
      (if e.askChanged ev then ev.askQty else e.lastAskQty) = ev.askQty := by
    cases ha : e.askChanged ev with
    | false => exact ask_of_not_changed ha
    | true => exact ⟨rfl, rfl⟩
  simp only [hbid, hask]
  rfl

theorem tickerId_bookUpdates (e : BacktestEngine E) (ev : BookTopEvent) :
    ∀ u ∈ e.bookUpdates ev, u.tickerId = e.tickerId := by
  have hw : ∀ (c : Bool) (side : Side) (oid : ℕ) (price : ℤ) (qty : ℕ),
      ∀ u ∈ if c then withdrawal e.tickerId side oid price qty else [], u.tickerId = e.tickerId := by
    intro c side oid price qty u hu
    unfold withdrawal at hu
    split_ifs at hu
    · rw [List.mem_singleton.mp hu]
    · cases hu
    · cases hu
  have hq : ∀ (c : Bool) (side : Side) (oid : ℕ) (price : ℤ) (qty : ℕ),
      ∀ u ∈ if c then quotation e.tickerId side oid price qty else [], u.tickerId = e.tickerId := by
    intro c side oid price qty u hu
    unfold quotation at hu
    split_ifs at hu
    · rw [List.mem_singleton.mp hu]
    · cases hu
    · cases hu
  intro u hu
  simp only [bookUpdates, List.mem_append] at hu
  rcases hu with hu | hu | hu | hu
  · exact hw _ _ _ _ _ u hu
  · exact hw _ _ _ _ _ u hu
  · exact hq _ _ _ _ _ u hu
  · exact hq _ _ _ _ _ u hu

def updates (e : BacktestEngine E) : TapeEvent → List MEMarketUpdate
  | .book ev => e.bookUpdates ev
  | .trade ev => [⟨.trade, orderIdInvalid, e.tickerId, ev.side, ev.price, ev.qty, 0⟩]
  | .update _ u => [u]

section Replay

variable (calls : EngineCalls E)

def Delivers (s : E) (u : MEMarketUpdate) (s' : E) : Prop :=
  ∃ reqs, calls.onMarketUpdate s u = .ok (s', reqs)

def Advances (e : BacktestEngine E) (ev : TapeEvent) (e' : BacktestEngine E) : Prop :=
  e.step calls ev = .ok e'

def EachOf (P : E → MEMarketUpdate → Prop) (e : BacktestEngine E) (ev : TapeEvent) : Prop :=
  Trace.Each (Delivers calls) P e.engine (e.updates ev)

def EachUpdate (P : E → MEMarketUpdate → Prop) (e : BacktestEngine E) (tape : List TapeEvent) :
    Prop :=
  Trace.Each (Advances calls) (fun e ev => e.EachOf calls P ev) e tape

instance instDecidableEachUpdate {P : E → MEMarketUpdate → Prop} [∀ s u, Decidable (P s u)]
    (e : BacktestEngine E) (tape : List TapeEvent) : Decidable (e.EachUpdate calls P tape) := by
  have hdelivers : ∀ s u s', Delivers calls s u s' ↔
      (calls.onMarketUpdate s u).toOption.map Prod.fst = some s' := by
    intro s u s'
    unfold Delivers
    cases calls.onMarketUpdate s u <;> simp [Except.toOption, Prod.ext_iff]
  have hadvances : ∀ e ev e', Advances calls e ev e' ↔ (e.step calls ev).toOption = some e' := by
    intro e ev e'
    unfold Advances
    cases e.step calls ev <;> simp [Except.toOption]
  have : ∀ (e : BacktestEngine E) (ev : TapeEvent), Decidable (e.EachOf calls P ev) :=
    fun e ev => Trace.decidableEach hdelivers e.engine (e.updates ev)
  exact Trace.decidableEach hadvances e tape

end Replay

theorem quoteBookEvent_sameSlots {ev : BookTopEvent} {e' : BacktestEngine E}
    (h : e.quoteBookEvent calls ev = .ok e') : SameSlots e e' := by
  rw [quoteBookEvent_eq] at h
  obtain ⟨p, -, rfl⟩ := map_eq_ok h
  exact ⟨rfl, rfl, rfl⟩

section Publishes

variable {P : BacktestEngine E → Prop} {Q : E → MEMarketUpdate → Prop} {e' : BacktestEngine E}
  (hcore : ∀ {e e' : BacktestEngine E}, SameCore e e' → P e → P e')
  (hpub : ∀ {e e' : BacktestEngine E} {u : MEMarketUpdate}, u.tickerId = e.tickerId →
    Q e.engine u → P e → e.publishMarketUpdate calls u = .ok e' → P e')

include hpub

theorem feed_induct {us : List MEMarketUpdate} {p : E × List MEClientRequest}
    (hus : ∀ u ∈ us, u.tickerId = e.tickerId) (hq : Trace.Each (Delivers calls) Q e.engine us)
    (he : P e) (h : feed calls e.engine us = .ok p) : P (e.fed p) := by
  induction us generalizing e p with
  | nil =>
    cases h
    simpa [fed] using he
  | cons u us ih =>
    obtain ⟨⟨s, reqs⟩, hs, h⟩ := bind_eq_ok.mp h
    obtain ⟨⟨s', more⟩, hmore, h⟩ := bind_eq_ok.mp h
    cases h
    have hstep : e.publishMarketUpdate calls u = .ok (e.fed (s, reqs)) := by
      rw [publishMarketUpdate, hs]
      rfl
    have hnext := ih (e := e.fed (s, reqs)) (fun x hx => hus x (List.mem_cons_of_mem _ hx))
      (hq.2 s ⟨reqs, hs⟩) (hpub (hus u (List.mem_cons_self ..)) hq.1 he hstep) hmore
    simpa [fed, List.append_assoc] using hnext

include hcore

theorem applyEvent_induct {ev : TapeEvent} (hev : ev.On e.tickerId) (hq : e.EachOf calls Q ev)
    (he : P e) (h : e.applyEvent calls ev = .ok e') : ∃ e₁ x, P e₁ ∧ Matched x e₁ e' := by
  cases ev with
  | book ev =>
    obtain ⟨e₁, he₁, h⟩ := bind_eq_ok.mp h
    obtain ⟨rs, hm⟩ := matchAgainstBBO_matched h
    rw [quoteBookEvent_eq] at he₁
    obtain ⟨p, hp, rfl⟩ := map_eq_ok he₁
    refine ⟨_, _, ?_, hm⟩
    exact hcore (e := e.fed p) ⟨⟨rfl, rfl, rfl⟩, rfl, rfl⟩
      (feed_induct hpub (tickerId_bookUpdates e ev) hq he hp)
  | trade ev =>
    obtain ⟨e₁, he₁, h⟩ := bind_eq_ok.mp h
    obtain ⟨rs, hm⟩ := matchAgainstTrade_matched h
    exact ⟨e₁, _, hpub rfl hq.1 he he₁, hm⟩
  | update eventNs u =>
    obtain ⟨e₁, he₁, h⟩ := bind_eq_ok.mp h
    obtain ⟨e₂, he₂, h⟩ := bind_eq_ok.mp h
    obtain ⟨bbo, -, he₂⟩ := bind_eq_ok.mp he₂
    cases he₂
    have h₁ : P e₁ := hpub hev hq.1 he he₁
    split_ifs at h
    · obtain ⟨rs, hm⟩ := matchAgainstTrade_matched h
      refine ⟨_, _, ?_, hm⟩
      exact hcore (e := e₁) ⟨⟨rfl, rfl, rfl⟩, rfl, rfl⟩ h₁
    · obtain ⟨rs, hm⟩ := matchAgainstBBO_matched h
      refine ⟨_, _, ?_, hm⟩
      exact hcore (e := e₁) ⟨⟨rfl, rfl, rfl⟩, rfl, rfl⟩ h₁

end Publishes

end BacktestEngine

end Backtest
