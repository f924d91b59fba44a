import TradingEcosystem.Backtest.EventUpdates
import TradingEcosystem.Backtest.QueueSeed
import TradingEcosystem.Trading.TopBook

namespace Backtest

open Common Exchange Trading

section Book

variable {m : MarketOrderBook} {side : Side} {own opp : Option Cell} {oid qty : ℕ} {price : ℤ}

def Rests (side : Side) (oid : ℕ) (price : ℤ) (qty : ℕ) (own : Option Cell) : Prop :=
  if price = priceInvalid then own = none ∧ oid = orderIdInvalid
  else ∃ c, own = some c ∧ c.info = ⟨oid, side, price, qty, 0⟩

theorem Rests.info {c : Cell} (h : Rests side oid price qty own) (hc : c ∈ own) :
    c.info = ⟨oid, side, price, qty, 0⟩ ∧ price ≠ priceInvalid := by
  unfold Rests at h
  split_ifs at h with hp
  · rw [h.1] at hc
    cases hc
  · obtain ⟨d, rfl, hd⟩ := h
    cases hc
    exact ⟨hd, hp⟩

theorem Rests.touch (h : Rests side oid price qty own) :
    Cell.price own = price ∧ Cell.qty own = if price = priceInvalid then qtyInvalid else qty := by
  unfold Rests at h
  split_ifs at h ⊢ with hp
  · obtain ⟨rfl, -⟩ := h
    exact ⟨hp.symm, rfl⟩
  · obtain ⟨c, rfl, hc⟩ := h
    simp [Cell.price, Cell.qty, hc]

theorem takes_withdrawal (c : Bool) (tickerId : ℕ) (h : TopBook m side own opp)
    (hr : Rests side oid price qty own) :
    ∃ m', Takes m (if c then BacktestEngine.withdrawal tickerId side oid price qty else []) m' ∧
      TopBook m' side (if c then none else own) opp := by
  cases c with
  | false => exact ⟨m, takes_nil m, h⟩
  | true =>
    rw [if_pos rfl, if_pos rfl]
    unfold BacktestEngine.withdrawal
    cases own with
    | none =>
      have hoid : oid = orderIdInvalid := by
        unfold Rests at hr
        split_ifs at hr
        · exact hr.2
        · obtain ⟨c, hc, -⟩ := hr
          cases hc
      rw [if_neg (not_not_intro hoid)]
      exact ⟨m, takes_nil m, h⟩
    | some c =>
      obtain ⟨hinfo, -⟩ := hr.info rfl
      have hrange := h.idRange c (mem_cells.mpr (.inl rfl))
      have hoid : oid ≠ orderIdInvalid := by
        rintro rfl
        rw [hinfo] at hrange
        exact absurd (show orderIdInvalid < meMaxOrderIds from hrange) (by decide)
      rw [if_pos hoid]
      obtain ⟨hnames, m', call, hm', htop⟩ := h.cancel
        (u := ⟨.cancel, oid, tickerId, side, price, qty, 0⟩) (h.ids_ne c rfl) rfl
        (by rw [hinfo]) rfl (by rw [hinfo])
      exact ⟨m', takes_single hnames hm', htop⟩

theorem takes_quotation (c : Bool) (tickerId oid : ℕ) (price : ℤ) (qty : ℕ)
    (h : TopBook m side (if c then none else own) opp)
    (hnew : c = true → price ≠ priceInvalid → oid < meMaxOrderIds ∧
      ∀ d ∈ opp, oid ≠ d.info.ids ∧ priceToIndex price ≠ priceToIndex d.info.price) :
    ∃ m' own', Takes m (if c then BacktestEngine.quotation tickerId side oid price qty else []) m' ∧
      TopBook m' side own' opp ∧
      if c then Rests side (if price = priceInvalid then orderIdInvalid else oid) price qty own'
      else own' = own := by
  cases c with
  | false => exact ⟨m, own, takes_nil m, h, rfl⟩
  | true =>
    rw [if_pos rfl] at h
    simp only [if_true]
    unfold BacktestEngine.quotation Rests
    by_cases hp : price = priceInvalid
    · simp only [if_neg (not_not_intro hp), if_pos hp]
      exact ⟨m, none, takes_nil m, h, rfl, trivial⟩
    · simp only [if_pos hp, if_neg hp]
      obtain ⟨hoid, hopp⟩ := hnew rfl hp
      obtain ⟨hnone, m', call, c, hm', htop, hinfo⟩ := h.add
        (u := ⟨.add, oid, tickerId, side, price, qty, 0⟩) rfl rfl hoid
        (fun d hd => (hopp d hd).1) (fun d hd => (hopp d hd).2)
      refine ⟨m', some c, takes_single ?_ hm', htop, c, rfl, hinfo⟩
      intro a ha
      rw [hnone] at ha
      cases ha

theorem rests_recorded {c : Bool} {last : ℕ} {own' : Option Cell}
    (hlast : c = false → Rests side last price qty own)
    (h : if c then Rests side (if price = priceInvalid then orderIdInvalid else oid) price qty own'
      else own' = own) :
    Rests side (if c && decide (price ≠ priceInvalid) then oid
      else if c then orderIdInvalid else last) price qty own' := by
  cases c with
  | false =>
    obtain rfl : own' = own := h
    exact hlast rfl
  | true =>
    simp only [if_true, Bool.true_and, decide_eq_true_eq, ne_eq, ite_not] at h ⊢
    exact h

end Book

/-- When both sides are there, they do not touch and have different places in the price table. -/
def BookTopEvent.Proper (ev : BookTopEvent) : Prop :=
  ev.bidPrice ≠ priceInvalid → ev.askPrice ≠ priceInvalid →
    ev.bidPrice < ev.askPrice ∧ ev.askPrice < ev.bidPrice + meMaxPriceLevels

instance (ev : BookTopEvent) : Decidable ev.Proper :=
  inferInstanceAs (Decidable (_ → _ → _ ∧ _))

theorem priceToIndex_ne {p q : ℤ} (h : p < q) (h' : q < p + meMaxPriceLevels) :
    priceToIndex p ≠ priceToIndex q := by
  have hN : (meMaxPriceLevels : ℤ) = 131072 := rfl
  unfold priceToIndex
  rw [hN] at h' ⊢
  omega

theorem BookTopEvent.Proper.index_ne {ev : BookTopEvent} (h : ev.Proper)
    (hb : ev.bidPrice ≠ priceInvalid) (ha : ev.askPrice ≠ priceInvalid) :
    priceToIndex ev.bidPrice ≠ priceToIndex ev.askPrice :=
  priceToIndex_ne (h hb ha).1 (h hb ha).2

section Event

variable {E : Type} {e : BacktestEngine E} {ev : BookTopEvent} {m : MarketOrderBook}
  {bid ask : Option Cell}

/-- `nextSynthOid` does not return the id of the order the event leaves on the other side. -/
def Fresh (e : BacktestEngine E) (ev : BookTopEvent) : Prop :=
  (e.newBid ev = true → e.askChanged ev = false → e.nextSynthOid ≠ e.restingAskOid) ∧
    (e.newAsk ev = true → e.bidChanged ev = false → e.nextSynthOid ≠ e.restingBidOid)

instance (e : BacktestEngine E) (ev : BookTopEvent) : Decidable (Fresh e ev) :=
  inferInstanceAs (Decidable ((_ → _ → _) ∧ _))

def InWindow (oid : ℕ) : Prop := 500000 ≤ oid ∧ oid < 900000

theorem inWindow_wrapOid {oid : ℕ} (h : InWindow oid) : InWindow (BacktestEngine.wrapOid oid) := by
  unfold InWindow BacktestEngine.wrapOid at *
  split_ifs <;> omega

theorem wrapOid_ne {oid : ℕ} (h : InWindow oid) : BacktestEngine.wrapOid oid ≠ oid := by
  unfold InWindow BacktestEngine.wrapOid at *
  split_ifs <;> omega

theorem InWindow.lt {oid : ℕ} (h : InWindow oid) : oid < meMaxOrderIds :=
  h.2.trans (by decide)

theorem inWindow_askOid (h : InWindow e.nextSynthOid) (ev : BookTopEvent) :
    InWindow (e.askOid ev) := by
  unfold BacktestEngine.askOid
  split_ifs
  · exact inWindow_wrapOid h
  · exact h

structure Shown (e : BacktestEngine E) (m : MarketOrderBook) (bid ask : Option Cell) : Prop where
  book : TopBook m .buy bid ask
  bid : Rests .buy e.restingBidOid e.lastBidPrice e.lastBidQty bid
  ask : Rests .sell e.restingAskOid e.lastAskPrice e.lastAskQty ask
  window : InWindow e.nextSynthOid

theorem Shown.event (h : Shown e m bid ask) (hp : ev.Proper) (hf : Fresh e ev) :
    ∃ m' bid' ask', Takes m (e.bookUpdates ev) m' ∧ Shown (e.recorded ev) m' bid' ask' := by
  obtain ⟨m₁, ht₁, h₁⟩ := takes_withdrawal (e.bidChanged ev) e.tickerId h.book h.bid
  obtain ⟨m₂, ht₂, h₂⟩ := takes_withdrawal (e.askChanged ev) e.tickerId h₁.swap h.ask
  obtain ⟨m₃, bid', ht₃, h₃, hbid⟩ := takes_quotation (e.bidChanged ev) e.tickerId
    e.nextSynthOid ev.bidPrice ev.bidQty h₂.swap (by
      intro hb hbp
      refine ⟨h.window.lt, fun d hd => ?_⟩
      cases ha : e.askChanged ev with
      | true =>
        rw [ha] at hd
        cases hd
      | false =>
        rw [ha] at hd
        obtain ⟨hinfo, hap⟩ := h.ask.info hd
        rw [hinfo]
        obtain ⟨hlast, -⟩ := BacktestEngine.ask_of_not_changed ha
        refine ⟨hf.1 (by simp [BacktestEngine.newBid, hb, hbp]) ha, ?_⟩
        rw [hlast] at hap ⊢
        exact hp.index_ne hbp hap)
  have hbid' : Rests .buy (e.recorded ev).restingBidOid ev.bidPrice ev.bidQty bid' := by
    refine rests_recorded (fun hb => ?_) hbid
    obtain ⟨hprice, hqty⟩ := BacktestEngine.bid_of_not_changed hb
    exact hprice ▸ hqty ▸ h.bid
  obtain ⟨m₄, ask', ht₄, h₄, hask⟩ := takes_quotation (e.askChanged ev) e.tickerId
    (e.askOid ev) ev.askPrice ev.askQty h₃.swap (by
      intro ha hap
      refine ⟨(inWindow_askOid h.window ev).lt, fun d hd => ?_⟩
      obtain ⟨hinfo, hbp⟩ := hbid'.info hd
      rw [hinfo]
      refine ⟨?_, (hp.index_ne hbp hap).symm⟩
      have hresting : (e.recorded ev).restingBidOid = if e.newBid ev then e.nextSynthOid
          else if e.bidChanged ev then orderIdInvalid else e.restingBidOid := rfl
      rw [hresting]
      unfold BacktestEngine.askOid
      cases hb : e.bidChanged ev with
      | true =>
        have hnew : e.newBid ev = true := by simp [BacktestEngine.newBid, hb, hbp]
        rw [hnew]
        exact wrapOid_ne h.window
      | false =>
        have hold : e.newBid ev = false := by simp [BacktestEngine.newBid, hb]
        rw [hold]
        exact hf.2 (by simp [BacktestEngine.newAsk, ha, hap]) hb)
  have hask' : Rests .sell (e.recorded ev).restingAskOid ev.askPrice ev.askQty ask' := by
    refine rests_recorded (fun ha => ?_) hask
    obtain ⟨hprice, hqty⟩ := BacktestEngine.ask_of_not_changed ha
    exact hprice ▸ hqty ▸ h.ask
  refine ⟨m₄, bid', ask', ht₁.append (ht₂.append (ht₃.append ht₄)), h₄.swap, hbid', hask', ?_⟩
  change InWindow (if e.newAsk ev then _ else _)
  split_ifs
  · exact inWindow_wrapOid (inWindow_askOid h.window ev)
  · exact inWindow_askOid h.window ev

end Event

section Frame

variable {E : Type} {e e' : BacktestEngine E} {m : MarketOrderBook} {bid ask : Option Cell}

def SameCaches (e e' : BacktestEngine E) : Prop :=
  e' = { e with engine := e'.engine, clientRequests := e'.clientRequests,
                clientResponses := e'.clientResponses, live := e'.live, numFills := e'.numFills,
                numRequotes := e'.numRequotes }

theorem Matched.sameCaches {x : Entry} (h : Matched x e e') : SameCaches e e' := by
  rw [h.frame]
  rfl

theorem pumpRequests_sameCaches {nowNs : ℤ} {reqs : List MEClientRequest}
    (h : BacktestEngine.pumpRequests nowNs e reqs = .ok e') : SameCaches e e' := by
  rw [pumpRequests_eq h]
  rfl

theorem Shown.sameCaches (h : Shown e m bid ask) (hc : SameCaches e e') : Shown e' m bid ask := by
  rw [hc]
  exact ⟨h.book, h.bid, h.ask, h.window⟩

end Frame

def TapeEvent.Proper : TapeEvent → Prop
  | .book ev => ev.Proper
  | .trade _ => True
  | .update _ _ => False

instance : (ev : TapeEvent) → Decidable ev.Proper
  | .book ev => inferInstanceAs (Decidable ev.Proper)
  | .trade _ => isTrue trivial
  | .update _ _ => isFalse id

def TapeEvent.IsTop : TapeEvent → Prop
  | .update _ _ => False
  | _ => True

instance : (ev : TapeEvent) → Decidable ev.IsTop
  | .book _ => isTrue trivial
  | .trade _ => isTrue trivial
  | .update _ _ => isFalse id

theorem TapeEvent.Proper.isTop {ev : TapeEvent} (h : ev.Proper) : ev.IsTop := by
  cases ev with
  | update eventNs u => exact h
  | _ => trivial

def Along {E : Type} (calls : EngineCalls E) (P : BacktestEngine E → BookTopEvent → Prop) :
    BacktestEngine E → List TapeEvent → Prop
  | _, [] => True
  | e, ev :: tape =>
      (∀ b, ev = .book b → P e b) ∧ ∀ e', e.step calls ev = .ok e' → Along calls P e' tape

section Strategy

variable {K : Type} [Field K] [LinearOrder K] [FloorRing K] {P : Platform K} {clock : ℕ → ℤ}
  {tickerId : ℕ} {cfg : StrategyCfg K} {s s' : Strategy K MarketOrderBook} {m : MarketOrderBook}
  {us : List MEMarketUpdate}

theorem perform_ok (ht : tickerId < meMaxTickers) (e : TradeEngine) (lossTooLarge : Bool)
    (reaction : Reaction) : ∃ p, e.perform tickerId lossTooLarge reaction = .ok p := by
  cases reaction with
  | none => exact ⟨_, rfl⟩
  | pull =>
    rw [TradeEngine.perform, TradeEngine.cancelOrders, require_of _ ht]
    exact ⟨_, rfl⟩
  | quote bidPrice askPrice clip =>
    rw [TradeEngine.perform, TradeEngine.moveOrders, require_of _ ht]
    exact ⟨_, rfl⟩

theorem onMarketUpdate_ok (P : Platform K) (clock : ℕ → ℤ) (cfgs : ℕ → StrategyCfg K)
    {u : MEMarketUpdate} {call : Callback} (ht : u.tickerId < meMaxTickers)
    (h : (s.books u.tickerId).onMarketUpdate u = .ok (m, call)) :
    ∃ s' reqs, s.onMarketUpdate P clock cfgs MarketOrderBook.calls u = .ok (s', reqs) ∧
      s'.books u.tickerId = m := by
  have hok : ∃ p, s.onMarketUpdate P clock cfgs MarketOrderBook.calls u = .ok p := by
    have hcall := MarketOrderBook.calls.callback h
    rw [Strategy.onMarketUpdate, require_of _ ht, ok_bind]
    change ∃ p, ((s.books u.tickerId).onMarketUpdate u >>= _) = .ok p
    rw [h, ok_bind, hcall]
    by_cases htype : u.type = .trade
    · rw [if_pos htype]
      exact ⟨_, rfl⟩
    · rw [if_neg htype]
      dsimp only
      rw [Strategy.onOrderBookUpdate]
      dsimp only
      obtain ⟨q, hq⟩ := perform_ok ht _ _ _
      rw [hq]
      exact ⟨_, rfl⟩
  obtain ⟨⟨s', reqs⟩, hs'⟩ := hok
  obtain ⟨b, c, hb, hbooks, -⟩ := onMarketUpdate_books hs'
  refine ⟨s', reqs, hs', ?_⟩
  have heq : (s.books u.tickerId).onMarketUpdate u = .ok (b, c) := hb
  rw [h] at heq
  cases heq
  rw [hbooks, Function.update_self]

theorem feed_ok (P : Platform K) (clock : ℕ → ℤ) (cfg : StrategyCfg K)
    (ht : tickerId < meMaxTickers) (hus : ∀ u ∈ us, u.tickerId = tickerId)
    (h : (s.books tickerId).run us = .ok m) :
    ∃ s' reqs, BacktestEngine.feed (strategyCalls P clock tickerId cfg MarketOrderBook.calls) s us =
      .ok (s', reqs) ∧ s'.books tickerId = m := by
  induction us generalizing s with
  | nil =>
    cases h
    exact ⟨s, [], rfl, rfl⟩
  | cons u us ih =>
    obtain ⟨⟨m₁, call⟩, hm₁, h⟩ := bind_eq_ok.mp h
    have hu := hus u (List.mem_cons_self ..)
    rw [← hu] at hm₁
    obtain ⟨s₁, reqs, hs₁, hbook⟩ :=
      onMarketUpdate_ok P clock (tickerCfg tickerId cfg) (by rw [hu]; exact ht) hm₁
    rw [hu] at hbook
    obtain ⟨s', more, hs', hm⟩ := ih (fun x hx => hus x (List.mem_cons_of_mem _ hx))
      (show (s₁.books tickerId).run us = .ok m by rw [hbook]; exact h)
    refine ⟨s', reqs ++ more, ?_, hm⟩
    rw [BacktestEngine.feed]
    change (s.onMarketUpdate P clock (tickerCfg tickerId cfg) MarketOrderBook.calls u >>= _) = _
    rw [hs₁, ok_bind]
    dsimp only
    rw [hs']
    rfl

theorem feed_books {reqs : List MEClientRequest} (hus : ∀ u ∈ us, u.tickerId = tickerId)
    (h : BacktestEngine.feed (strategyCalls P clock tickerId cfg MarketOrderBook.calls) s us =
      .ok (s', reqs)) : (s.books tickerId).run us = .ok (s'.books tickerId) := by
  induction us generalizing s reqs with
  | nil =>
    cases h
    rfl
  | cons u us ih =>
    obtain ⟨⟨s₁, r₁⟩, hs₁, h⟩ := bind_eq_ok.mp h
    obtain ⟨⟨s₂, r₂⟩, hs₂, h⟩ := bind_eq_ok.mp h
    cases h
    obtain ⟨b, c, hb, hbooks, -⟩ := onMarketUpdate_books hs₁
    have hu := hus u (List.mem_cons_self ..)
    have hb' : (s.books tickerId).onMarketUpdate u = .ok (b, c) := by
      rw [← hu]
      exact hb
    have hrest := ih (fun x hx => hus x (List.mem_cons_of_mem _ hx)) hs₂
    rw [hbooks, hu, Function.update_self] at hrest
    rw [MarketOrderBook.run, hb', ok_bind]
    exact hrest

variable {e e₁ e' : BacktestEngine (Strategy K MarketOrderBook)} {bid ask : Option Cell}

theorem applyBookEvent_takes {ev : BookTopEvent} (htick : e.tickerId = tickerId)
    (h : e.applyBookEvent (strategyCalls P clock tickerId cfg MarketOrderBook.calls) ev = .ok e₁) :
    (∃ reqs, BacktestEngine.feed (strategyCalls P clock tickerId cfg MarketOrderBook.calls) e.engine
        (e.bookUpdates ev) = .ok (e₁.engine, reqs)) ∧
      (e.engine.books tickerId).run (e.bookUpdates ev) = .ok (e₁.engine.books tickerId) ∧
      SameCaches (e.recorded ev) e₁ := by
  obtain ⟨e₂, he₂, h⟩ := bind_eq_ok.mp h
  rw [BacktestEngine.quoteBookEvent_eq] at he₂
  obtain ⟨⟨s, reqs⟩, hfeed, rfl⟩ := map_eq_ok he₂
  obtain ⟨rs, hm⟩ := matchAgainstBBO_matched h
  have heng : e₁.engine = s := by
    rw [hm.frame]
    rfl
  refine ⟨⟨reqs, heng ▸ hfeed⟩, ?_, ?_⟩
  · rw [heng]
    exact feed_books (htick ▸ e.tickerId_bookUpdates ev) hfeed
  · rw [hm.sameCaches]
    rfl

theorem applyBookEvent_ok (P : Platform K) (clock : ℕ → ℤ) (cfg : StrategyCfg K)
    (ht : tickerId < meMaxTickers) {ev : BookTopEvent} (htick : e.tickerId = tickerId)
    (h : (e.engine.books tickerId).run (e.bookUpdates ev) = .ok m) :
    ∃ e₁, e.applyBookEvent (strategyCalls P clock tickerId cfg MarketOrderBook.calls) ev = .ok e₁ := by
  obtain ⟨s, reqs, hfeed, -⟩ := feed_ok P clock cfg ht (htick ▸ e.tickerId_bookUpdates ev) h
  rw [BacktestEngine.applyBookEvent, BacktestEngine.quoteBookEvent_eq, hfeed]
  change ∃ e₁, BacktestEngine.matchAgainstBBO _ = .ok e₁
  rw [BacktestEngine.matchAgainstBBO, require_of _ (by rw [← htick] at ht; exact ht)]
  exact ⟨_, rfl⟩

theorem applyTradeEvent_books {ev : TradeEvent}
    (h : e.applyTradeEvent (strategyCalls P clock tickerId cfg MarketOrderBook.calls) ev = .ok e₁) :
    e₁.engine.books = e.engine.books ∧ SameCaches e e₁ := by
  obtain ⟨e₂, he₂, h⟩ := bind_eq_ok.mp h
  obtain ⟨⟨s, reqs⟩, hs, he₂⟩ := bind_eq_ok.mp he₂
  cases he₂
  obtain ⟨rs, hm⟩ := matchAgainstTrade_matched h
  have heng : e₁.engine = s := by rw [hm.frame]
  refine ⟨?_, ?_⟩
  · obtain ⟨b, c, hb, hbooks, -⟩ := onMarketUpdate_books hs
    obtain ⟨_, -, hb⟩ := bind_eq_ok.mp hb
    obtain ⟨_, -, hb⟩ := bind_eq_ok.mp hb
    cases hb
    rw [heng, hbooks, Function.update_eq_self]
  · rw [hm.sameCaches]
    rfl

theorem pumps_books {nowNs : ℤ} {e₂ : BacktestEngine (Strategy K MarketOrderBook)}
    (hpump : e.pumpClientRequests nowNs = .ok e₂)
    (hans : e₂.pumpClientResponses (strategyCalls P clock tickerId cfg MarketOrderBook.calls) =
      .ok e') : e'.engine.books = e.engine.books ∧ SameCaches e e' := by
  obtain ⟨s, hs, hans⟩ := bind_eq_ok.mp hans
  cases hans
  obtain ⟨-, heng, -⟩ := pumpRequests_frame hpump
  refine ⟨?_, ?_⟩
  · rw [show BacktestEngine.engine _ = s from rfl, answerAll_books hs, heng]
  · have hsame := pumpRequests_sameCaches hpump
    rw [SameCaches, hsame]

section Induct

variable {I : BacktestEngine (Strategy K MarketOrderBook) → Prop}
  {Q : BacktestEngine (Strategy K MarketOrderBook) → BookTopEvent → Prop}
  (hframe : ∀ {e e' : BacktestEngine (Strategy K MarketOrderBook)},
    e'.engine.books = e.engine.books → SameCaches e e' → I e → I e')

include hframe

theorem step_induct {ev : TapeEvent} (hev : ev.IsTop)
    (hbook : ∀ b, ev = .book b → ∀ e₁,
      e.applyBookEvent (strategyCalls P clock tickerId cfg MarketOrderBook.calls) b = .ok e₁ → I e₁)
    (h : I e) (he : e.step (strategyCalls P clock tickerId cfg MarketOrderBook.calls) ev = .ok e') :
    I e' := by
  obtain ⟨e₁, he₁, he⟩ := bind_eq_ok.mp he
  obtain ⟨e₂, he₂, he⟩ := bind_eq_ok.mp he
  obtain ⟨hbooks, hc⟩ := pumps_books he₂ he
  refine hframe hbooks hc ?_
  cases ev with
  | book ev => exact hbook ev rfl e₁ he₁
  | trade ev =>
    obtain ⟨hbooks₁, hc₁⟩ := applyTradeEvent_books he₁
    exact hframe hbooks₁ hc₁ h
  | update eventNs u => exact hev.elim

theorem run_induct {tape : List TapeEvent} (htop : ∀ ev ∈ tape, ev.IsTop)
    (hbook : ∀ {e e₁ b}, TapeEvent.book b ∈ tape → Q e b → I e →
      e.applyBookEvent (strategyCalls P clock tickerId cfg MarketOrderBook.calls) b = .ok e₁ → I e₁)
    (hQ : Along (strategyCalls P clock tickerId cfg MarketOrderBook.calls) Q e tape) (h : I e)
    (he : e.run (strategyCalls P clock tickerId cfg MarketOrderBook.calls) tape = .ok e') :
    I e' := by
  induction tape generalizing e with
  | nil =>
    cases he
    exact h
  | cons ev tape ih =>
    obtain ⟨e₁, he₁, he⟩ := bind_eq_ok.mp he
    have h₁ : I e₁ := by
      refine step_induct hframe (htop ev (List.mem_cons_self ..)) ?_ h he₁
      rintro b rfl e₂ he₂
      exact hbook (List.mem_cons_self ..) (hQ.1 b rfl) h he₂
    exact ih (fun x hx => htop x (List.mem_cons_of_mem _ hx))
      (fun hmem => hbook (List.mem_cons_of_mem _ hmem)) (hQ.2 e₁ he₁) h₁ he

end Induct

structure Replayed (tickerId : ℕ) (e : BacktestEngine (Strategy K MarketOrderBook)) : Prop where
  ticker : e.tickerId = tickerId
  shown : ∃ bid ask, Shown e (e.engine.books tickerId) bid ask

omit [FloorRing K] in
theorem replayed_new (checked : Bool) (tickerId : ℕ) (cfg : StrategyCfg K)
    (openVwap : ℕ → ℕ → K) :
    Replayed tickerId (backtest tickerId cfg (MarketOrderBook.new checked) openVwap) where
  ticker := rfl
  shown := ⟨none, none, topBook_new checked tickerId (.inl rfl), ⟨rfl, rfl⟩, ⟨rfl, rfl⟩,
    le_refl _, show 500000 < 900000 by decide⟩

omit [Field K] [LinearOrder K] [FloorRing K] in
theorem Replayed.frame (h : Replayed tickerId e) (hbooks : e'.engine.books = e.engine.books)
    (hc : SameCaches e e') : Replayed tickerId e' := by
  obtain ⟨bid, ask, hs⟩ := h.shown
  refine ⟨?_, bid, ask, ?_⟩
  · rw [hc]
    exact h.ticker
  · rw [hbooks]
    exact hs.sameCaches hc

theorem Replayed.event (P : Platform K) (clock : ℕ → ℤ) (cfg : StrategyCfg K)
    (ht : tickerId < meMaxTickers) {ev : BookTopEvent} (h : Replayed tickerId e) (hp : ev.Proper)
    (hf : Fresh e ev) :
    ∃ e₁ bid ask, e.applyBookEvent (strategyCalls P clock tickerId cfg MarketOrderBook.calls) ev =
        .ok e₁ ∧
      Takes (e.engine.books tickerId) (e.bookUpdates ev) (e₁.engine.books tickerId) ∧
      SameCaches (e.recorded ev) e₁ ∧ Shown e₁ (e₁.engine.books tickerId) bid ask := by
  obtain ⟨_, _, hs⟩ := h.shown
  obtain ⟨m, bid, ask, htakes, hs'⟩ := hs.event hp hf
  obtain ⟨e₁, he₁⟩ := applyBookEvent_ok P clock cfg ht h.ticker htakes.2
  obtain ⟨-, hrun, hc⟩ := applyBookEvent_takes h.ticker he₁
  have hm : e₁.engine.books tickerId = m := by
    rw [htakes.2] at hrun
    cases hrun
    rfl
  refine ⟨e₁, bid, ask, he₁, ?_, hc, ?_⟩
  · rw [hm]
    exact htakes
  · rw [hm]
    exact hs'.sameCaches hc

theorem Replayed.run (ht : tickerId < meMaxTickers) {tape : List TapeEvent}
    (h : Replayed tickerId e) (hp : ∀ ev ∈ tape, ev.Proper)
    (hf : Along (strategyCalls P clock tickerId cfg MarketOrderBook.calls) Fresh e tape)
    (he : e.run (strategyCalls P clock tickerId cfg MarketOrderBook.calls) tape = .ok e') :
    Replayed tickerId e' := by
  refine run_induct (fun hbooks hc h => h.frame hbooks hc) (fun x hx => (hp x hx).isTop) ?_ hf h he
  intro e e₁ ev hmem hfresh h he₁
  obtain ⟨e₂, bid, ask, he₂, -, hc, hs⟩ := h.event P clock cfg ht (hp _ hmem) hfresh
  have heq := he₂.symm.trans he₁
  cases heq
  refine ⟨?_, bid, ask, hs⟩
  rw [hc]
  exact h.ticker

end Strategy

def topLevels (side : Side) (oid : ℕ) (price : ℤ) (qty : ℕ) : List (Level ℤ MarketOrder) :=
  if price = priceInvalid then [] else [⟨price, [⟨oid, side, price, qty, 0⟩]⟩]

def BookTopEvent.bbo (ev : BookTopEvent) : BBO where
  bidPrice := ev.bidPrice
  askPrice := ev.askPrice
  bidQty := if ev.bidPrice = priceInvalid then qtyInvalid else ev.bidQty
  askQty := if ev.askPrice = priceInvalid then qtyInvalid else ev.askQty

theorem Rests.levels {side : Side} {oid qty : ℕ} {price : ℤ} {own : Option Cell}
    (h : Rests side oid price qty own) : Cell.levels own = topLevels side oid price qty := by
  unfold Rests at h
  unfold topLevels
  split_ifs at h ⊢
  · rw [h.1]
    rfl
  · obtain ⟨c, rfl, hc⟩ := h
    simp [Cell.levels, hc]

theorem Shown.bbo {E : Type} {e : BacktestEngine E} {m : MarketOrderBook} {bid ask : Option Cell}
    (h : Shown e m bid ask) : m.bbo.bidPrice = e.lastBidPrice ∧ m.bbo.askPrice = e.lastAskPrice ∧
      m.bbo.bidQty = (if e.lastBidPrice = priceInvalid then qtyInvalid else e.lastBidQty) ∧
      m.bbo.askQty = if e.lastAskPrice = priceInvalid then qtyInvalid else e.lastAskQty :=
  ⟨h.book.ownTouch.1.trans h.bid.touch.1, h.book.oppTouch.1.trans h.ask.touch.1,
    h.book.ownTouch.2.trans h.bid.touch.2, h.book.oppTouch.2.trans h.ask.touch.2⟩

theorem replay_mirrors_tape {K : Type} [Field K] [LinearOrder K] [FloorRing K] (P : Platform K)
    (clock : ℕ → ℤ) (checked : Bool) {tickerId : ℕ} (ht : tickerId < meMaxTickers)
    (cfg : StrategyCfg K) (openVwap : ℕ → ℕ → K) {tape : List TapeEvent}
    (htape : ∀ ev ∈ tape, ev.Proper) {e : BacktestEngine (Strategy K MarketOrderBook)}
    (hrun : (backtest tickerId cfg (MarketOrderBook.new checked) openVwap).run
      (strategyCalls P clock tickerId cfg MarketOrderBook.calls) tape = .ok e)
    (hfresh : Along (strategyCalls P clock tickerId cfg MarketOrderBook.calls) Fresh
      (backtest tickerId cfg (MarketOrderBook.new checked) openVwap) tape)
    {ev : BookTopEvent} (hev : ev.Proper) (hnew : Fresh e ev) :
    ∃ e₁ reqs,
      e.applyBookEvent (strategyCalls P clock tickerId cfg MarketOrderBook.calls) ev = .ok e₁ ∧
      BacktestEngine.feed (strategyCalls P clock tickerId cfg MarketOrderBook.calls) e.engine
        (e.bookUpdates ev) = .ok (e₁.engine, reqs) ∧
      CleanRun (e.engine.books tickerId) (e.bookUpdates ev) ∧
      (e.engine.books tickerId).run (e.bookUpdates ev) = .ok (e₁.engine.books tickerId) ∧
      (e₁.engine.books tickerId).bbo = ev.bbo ∧
      (e₁.engine.books tickerId).book.decode =
        some ⟨topLevels .buy e₁.restingBidOid ev.bidPrice ev.bidQty,
          topLevels .sell e₁.restingAskOid ev.askPrice ev.askQty⟩ := by
  have h := (replayed_new checked tickerId cfg openVwap).run ht htape hfresh hrun
  obtain ⟨e₁, bid, ask, he₁, htakes, hc, hs⟩ := h.event P clock cfg ht hev hnew
  obtain ⟨⟨reqs, hfeed⟩, -, -⟩ := applyBookEvent_takes h.ticker he₁
  have hlast : (e₁.lastBidPrice = ev.bidPrice ∧ e₁.lastBidQty = ev.bidQty) ∧
      e₁.lastAskPrice = ev.askPrice ∧ e₁.lastAskQty = ev.askQty := by
    rw [hc]
    exact ⟨⟨rfl, rfl⟩, rfl, rfl⟩
  obtain ⟨⟨hbp, hbq⟩, hap, haq⟩ := hlast
  refine ⟨e₁, reqs, he₁, hfeed, htakes.1, htakes.2, ?_, ?_⟩
  · obtain ⟨h₁, h₂, h₃, h₄⟩ := hs.bbo
    rw [hbp] at h₁ h₃
    rw [hbq] at h₃
    rw [hap] at h₂ h₄
    rw [haq] at h₄
    rw [BookTopEvent.bbo, ← h₃, ← h₄, ← h₁, ← h₂]
  · rw [hs.book.decode, hs.bid.levels, hs.ask.levels, hbp, hbq, hap, haq]

section Sample

def topTape : List TapeEvent := [.book ⟨1, 10000, 5, 10002, 5⟩]

def throughEvent : BookTopEvent := ⟨2, 10002, 4, 10004, 6⟩

def topRun : Outcome (BacktestEngine (Strategy ℚ MarketOrderBook)) :=
  (backtest 0 (quoteCfg 0) (MarketOrderBook.new true) fun _ _ => 0).run (quoteCalls 0) topTape

theorem topRun_fresh : (topRun.map fun e => decide (Fresh e throughEvent)) = .ok true := by
  decide +kernel

theorem replay_mirrors_tape_sample :
    ∃ e e₁, topRun = .ok e ∧ Fresh e throughEvent ∧
      e.applyBookEvent (quoteCalls 0) throughEvent = .ok e₁ ∧
      CleanRun (e.engine.books 0) (e.bookUpdates throughEvent) ∧
      (e₁.engine.books 0).bbo = ⟨10002, 10004, 4, 6⟩ := by
  obtain ⟨e, he, hf⟩ := map_eq_ok topRun_fresh
  have hfresh : Along (quoteCalls 0) Fresh
      (backtest 0 (quoteCfg 0) (MarketOrderBook.new true) fun _ _ => 0) topTape := by
    refine ⟨?_, fun _ _ => trivial⟩
    rintro b ⟨⟩
    decide
  obtain ⟨e₁, -, he₁, -, hclean, -, hbbo, -⟩ := replay_mirrors_tape exactPlatform (fun _ => 0) true
    (show 0 < meMaxTickers by decide) (quoteCfg 0) (fun _ _ => 0)
    (show ∀ ev ∈ topTape, ev.Proper by decide) he hfresh
    (show throughEvent.Proper by decide) (of_decide_eq_true hf)
  exact ⟨e, e₁, he, of_decide_eq_true hf, he₁, hclean, hbbo⟩

end Sample

end Backtest
