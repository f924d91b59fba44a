import TradingEcosystem.Backtest.BookReplay
import TradingEcosystem.Backtest.Lockstep
import TradingEcosystem.Backtest.SynthTape
import TradingEcosystem.Backtest.VpinRuns

namespace Backtest

open Common Exchange Trading

theorem sideUpdated_ok {m : MarketOrderBook} {side : Side} {own opp : Option Cell}
    (h : TopBook m side own opp) (u : MEMarketUpdate) : ∃ c, m.sideUpdated side u = .ok c := by
  unfold MarketOrderBook.sideUpdated
  rw [h.ownHead]
  split_ifs
  · cases own with
    | none => exact ⟨true, rfl⟩
    | some c =>
      have hlive : m.book.LiveLevel c.level := h.liveLevel (mem_cells.mpr (.inl rfl))
      simp only [Option.map_some, BookStore.level_ok hlive, ok_bind]
      exact ⟨_, rfl⟩
  · exact ⟨false, rfl⟩

theorem onMarketUpdate_trade {m : MarketOrderBook} {bid ask : Option Cell}
    (h : TopBook m .buy bid ask) {u : MEMarketUpdate} (ht : u.type = .trade) :
    m.onMarketUpdate u = .ok (m, .onTradeUpdate u) := by
  obtain ⟨c, hc⟩ := sideUpdated_ok h u
  obtain ⟨d, hd⟩ := sideUpdated_ok h.swap u
  have hd' : m.sideUpdated .sell u = .ok d := hd
  rw [MarketOrderBook.onMarketUpdate, hc, ok_bind, hd', ok_bind, if_pos ht, pure_ok]

section Pumps

variable {E : Type} {e e' e'' : BacktestEngine E}

theorem SameCaches.trans (h : SameCaches e e') (h' : SameCaches e' e'') : SameCaches e e'' := by
  unfold SameCaches at *
  rw [h', h]

theorem pumpRequests_ok (nowNs : ℤ) {reqs : List MEClientRequest} (ht : e.tickerId < meMaxTickers)
    (hmine : ∀ req ∈ reqs, req.tickerId = e.tickerId ∧ req.side.IsBuyOrSell) :
    ∃ e', BacktestEngine.pumpRequests nowNs e reqs = .ok e' := by
  induction reqs generalizing e with
  | nil => exact ⟨e, rfl⟩
  | cons req reqs ih =>
    obtain ⟨htick, hs⟩ := hmine req (List.mem_cons_self ..)
    have hside : sideToIndex req.side < sideToIndex .max + 1 := by
      rcases hs with hs | hs <;> rw [hs] <;> decide
    have hone : ∃ e₁, e.pumpRequest nowNs req = .ok e₁ ∧ e₁.tickerId = e.tickerId := by
      unfold BacktestEngine.pumpRequest
      rw [require_of _ (by rw [htick]; exact ht), ok_bind, require_of _ hside, ok_bind]
      split_ifs
      · exact ⟨_, rfl, rfl⟩
      · exact ⟨_, rfl, rfl⟩
    obtain ⟨e₁, he₁, htick₁⟩ := hone
    obtain ⟨e', he'⟩ := ih (e := e₁) (by rw [htick₁]; exact ht) fun q hq => by
      rw [htick₁]
      exact hmine q (List.mem_cons_of_mem _ hq)
    refine ⟨e', ?_⟩
    rw [BacktestEngine.pumpRequests, he₁]
    exact he'

end Pumps

section Step

variable {K B : Type} [Field K] [LinearOrder K] [FloorRing K] (P : Platform K) (clock : ℕ → ℤ)
  {tickerId : ℕ} (cfg : StrategyCfg K) (book : BookCalls B)

theorem answerAll_ok (tickerId : ℕ) {s : Strategy K B} {rs : List MEClientResponse}
    (h : ∀ r ∈ rs, r.tickerId < meMaxTickers ∧ r.side.IsBuyOrSell) :
    ∃ s', BacktestEngine.answerAll (strategyCalls P clock tickerId cfg book) s rs = .ok s' := by
  induction rs generalizing s with
  | nil => exact ⟨s, rfl⟩
  | cons r rs ih =>
    obtain ⟨ht, hs⟩ := h r (List.mem_cons_self ..)
    obtain ⟨engine, he⟩ := s.engine.onOrderUpdate_ok ht (.inl hs)
    have hone : ∃ s₁, s.onOrderUpdate (tickerCfg tickerId cfg) r = .ok s₁ := by
      rw [Strategy.onOrderUpdate, he]
      exact ⟨_, rfl⟩
    obtain ⟨s₁, hs₁⟩ := hone
    obtain ⟨s', hs'⟩ := ih (s := s₁) fun x hx => h x (List.mem_cons_of_mem _ hx)
    refine ⟨s', ?_⟩
    rw [BacktestEngine.answerAll]
    change (s.onOrderUpdate (tickerCfg tickerId cfg) r >>= _) = _
    rw [hs₁]
    exact hs'

variable {sized : Prop} {e e₁ : BacktestEngine (Strategy K B)} {x : Entry}

theorem Publishing.settle_ok (nowNs : ℤ) (ht : tickerId < meMaxTickers)
    (h : Publishing sized tickerId e)
    (hmatch : Matched x e e₁) :
    ∃ e₂ e', e₁.pumpClientRequests nowNs = .ok e₂ ∧
      e₂.pumpClientResponses (strategyCalls P clock tickerId cfg book) = .ok e' := by
  have ht₁ : e₁.tickerId = tickerId := by
    rw [hmatch.frame]
    exact h.ticker
  have hreqs₁ : e₁.clientRequests = e.clientRequests := by rw [hmatch.frame]
  have hresp₁ : e₁.clientResponses = x.responses := by
    rw [hmatch.frame]
    change e.clientResponses ++ x.responses = x.responses
    rw [h.silent, List.nil_append]
  have hmine : ∀ req ∈ e₁.clientRequests, req.tickerId = e₁.tickerId ∧ req.side.IsBuyOrSell := by
    intro req hreq
    rw [hreqs₁] at hreq
    rw [ht₁]
    exact h.phases.mine req hreq
  obtain ⟨e₂, he₂⟩ := pumpRequests_ok (e := { e₁ with clientRequests := [] }) nowNs
    (by rw [show BacktestEngine.tickerId _ = tickerId from ht₁]; exact ht) hmine
  obtain ⟨rs, hall⟩ := pumpRequests_pumped (e := { e₁ with clientRequests := [] }) hmine he₂
  have hsides : ∀ r ∈ e₂.clientResponses, r.tickerId < meMaxTickers ∧ r.side.IsBuyOrSell := by
    intro r hr
    rw [hall.responses] at hr
    change r ∈ e₁.clientResponses ++ rs at hr
    rw [hresp₁] at hr
    rcases List.mem_append.mp hr with hr | hr
    · obtain ⟨hrt, hrs⟩ := hmatch.mine r hr
      exact ⟨by rw [hrt, h.ticker]; exact ht, hrs⟩
    · obtain ⟨hrt, hrs⟩ := hall.mine r hr
      refine ⟨?_, hrs⟩
      rw [hrt, show BacktestEngine.tickerId _ = tickerId from ht₁]
      exact ht
  obtain ⟨s, hs⟩ := answerAll_ok P clock cfg book tickerId (s := e₂.engine) hsides
  refine ⟨e₂, { e₂ with engine := s, clientResponses := [] }, he₂, ?_⟩
  rw [BacktestEngine.pumpClientResponses, hs]
  rfl

end Step

section Ids

variable {E : Type} {e e' : BacktestEngine E} {ev : BookTopEvent} {n : ℕ}

/-- After `n` events `nextSynthOid` has not come round: what rests bears an id it has passed. -/
structure Counted (n : ℕ) (e : BacktestEngine E) : Prop where
  low : 500000 ≤ e.nextSynthOid
  high : e.nextSynthOid ≤ 500000 + 2 * n
  bid : e.restingBidOid = orderIdInvalid ∨ e.restingBidOid < e.nextSynthOid
  ask : e.restingAskOid = orderIdInvalid ∨ e.restingAskOid < e.nextSynthOid

theorem Counted.fresh (h : Counted n e) (hn : n < 200000) (ev : BookTopEvent) : Fresh e ev := by
  have hinv : orderIdInvalid = 2 ^ 64 - 1 := rfl
  have hhigh := h.high
  refine ⟨fun _ _ hc => ?_, fun _ _ hc => ?_⟩
  · rcases h.ask with ha | ha <;> omega
  · rcases h.bid with hb | hb <;> omega

theorem Counted.recorded (h : Counted n e) (hn : n + 1 < 200000) (ev : BookTopEvent) :
    Counted (n + 1) (e.recorded ev) := by
  have hstep : ∀ oid, oid ≤ 500000 + 2 * n + 1 → BacktestEngine.wrapOid oid = oid + 1 := by
    intro oid hoid
    rw [BacktestEngine.wrapOid, if_neg (by omega)]
  have hlow := h.low
  have hhigh := h.high
  have hask : e.askOid ev = if e.newBid ev then e.nextSynthOid + 1 else e.nextSynthOid := by
    rw [BacktestEngine.askOid, hstep _ (by omega)]
  have hnext : (e.recorded ev).nextSynthOid =
      if e.newAsk ev then e.askOid ev + 1 else e.askOid ev := by
    have hle : e.askOid ev ≤ 500000 + 2 * n + 1 := by
      rw [hask]
      split_ifs <;> omega
    change (if e.newAsk ev then BacktestEngine.wrapOid (e.askOid ev) else e.askOid ev) = _
    rw [hstep _ hle]
  have hge : e.nextSynthOid ≤ e.askOid ev := by
    rw [hask]
    split_ifs <;> omega
  have hnextGe : e.askOid ev ≤ (e.recorded ev).nextSynthOid := by
    rw [hnext]
    split_ifs <;> omega
  refine ⟨by omega, ?_, ?_, ?_⟩
  · rw [hnext, hask]
    split_ifs <;> omega
  · change (if e.newBid ev then e.nextSynthOid
      else if e.bidChanged ev then orderIdInvalid else e.restingBidOid) = orderIdInvalid ∨
      (if e.newBid ev then e.nextSynthOid
        else if e.bidChanged ev then orderIdInvalid else e.restingBidOid) < _
    split_ifs with hb hc
    · rw [if_pos hb] at hask
      exact .inr (by omega)
    · exact .inl rfl
    · exact h.bid.imp_right fun hlt => by omega
  · change (if e.newAsk ev then e.askOid ev
      else if e.askChanged ev then orderIdInvalid else e.restingAskOid) = orderIdInvalid ∨
      (if e.newAsk ev then e.askOid ev
        else if e.askChanged ev then orderIdInvalid else e.restingAskOid) < _
    split_ifs with ha hc
    · rw [if_pos ha] at hnext
      exact .inr (by omega)
    · exact .inl rfl
    · exact h.ask.imp_right fun hlt => by omega

theorem Counted.sameCaches (h : Counted n e) (hc : SameCaches e e') : Counted n e' := by
  rw [hc]
  exact ⟨h.low, h.high, h.bid, h.ask⟩

end Ids

theorem TapeEvent.Proper.on {ev : TapeEvent} (h : ev.Proper) (tickerId : ℕ) : ev.On tickerId := by
  cases ev with
  | update _ u => exact h.elim
  | _ => trivial

def TapeEvent.isBook : TapeEvent → Bool
  | .book _ => true
  | _ => false

def TapeEvent.touch (t : BookTopEvent) : TapeEvent → BookTopEvent
  | .book ev => ev
  | _ => t

def BookTopEvent.empty : BookTopEvent := ⟨0, priceInvalid, 0, priceInvalid, 0⟩

def lastTouch (tape : List TapeEvent) : BookTopEvent := tape.foldl TapeEvent.touch .empty

section Run

variable {K : Type} [Field K] [LinearOrder K] [FloorRing K] (P : Platform K) (clock : ℕ → ℤ)
  {tickerId : ℕ} (cfg : StrategyCfg K) {e : BacktestEngine (Strategy K MarketOrderBook)}

def TouchIs (e : BacktestEngine (Strategy K MarketOrderBook)) (t : BookTopEvent) : Prop :=
  (e.lastBidPrice = t.bidPrice ∧ e.lastBidQty = t.bidQty) ∧
    e.lastAskPrice = t.askPrice ∧ e.lastAskQty = t.askQty

structure Sails (tickerId n : ℕ) (t : BookTopEvent)
    (e : BacktestEngine (Strategy K MarketOrderBook)) : Prop where
  replayed : Replayed tickerId e
  publishing : Publishing False tickerId e
  idle : e.clientRequests = []
  counted : n < 200000 → Counted n e
  touch : TouchIs e t

theorem applyTradeEvent_ok (ht : tickerId < meMaxTickers) (h : Replayed tickerId e)
    (ev : TradeEvent) :
    ∃ e₁, e.applyTradeEvent (strategyCalls P clock tickerId cfg MarketOrderBook.calls) ev =
      .ok e₁ := by
  obtain ⟨bid, ask, hs⟩ := h.shown
  have htick := h.ticker
  subst htick
  obtain ⟨s, reqs, hup, -⟩ := onMarketUpdate_ok P clock (tickerCfg e.tickerId cfg)
    (u := ⟨.trade, orderIdInvalid, e.tickerId, ev.side, ev.price, ev.qty, 0⟩) ht
    (onMarketUpdate_trade hs.book rfl)
  rw [BacktestEngine.applyTradeEvent, BacktestEngine.publishMarketUpdate]
  change ∃ e₁, ((e.engine.onMarketUpdate P clock (tickerCfg e.tickerId cfg) MarketOrderBook.calls
    _ >>= _) >>= _) = .ok e₁
  rw [hup, ok_bind]
  dsimp only
  rw [pure_ok, ok_bind, BacktestEngine.matchAgainstTrade, require_of _ ht, ok_bind]
  split_ifs <;> exact ⟨_, rfl⟩

theorem Sails.step (ht : tickerId < meMaxTickers) {n : ℕ} {t : BookTopEvent}
    {ev : TapeEvent} (hev : ev.Proper)
    (hn : n + (if ev.isBook then 1 else 0) ≤ 200000) (h : Sails tickerId n t e) :
    (∀ b, ev = .book b → Fresh e b) ∧
      ∃ e', e.step (strategyCalls P clock tickerId cfg MarketOrderBook.calls) ev = .ok e' ∧
        Sails tickerId (n + if ev.isBook then 1 else 0) (ev.touch t) e' := by
  have hon := hev.on tickerId
  have hfresh : ∀ b, ev = .book b → Fresh e b := by
    rintro b rfl
    have hlt : n < 200000 := hn
    exact (h.counted hlt).fresh hlt b
  refine ⟨hfresh, ?_⟩
  have happly : ∃ e₁, e.applyEvent (strategyCalls P clock tickerId cfg MarketOrderBook.calls) ev =
      .ok e₁ ∧ Replayed tickerId e₁ ∧ (n + (if ev.isBook then 1 else 0) < 200000 →
        Counted (n + if ev.isBook then 1 else 0) e₁) ∧ TouchIs e₁ (ev.touch t) := by
    cases ev with
    | book b =>
      obtain ⟨e₁, bid, ask, he₁, -, hc, hs⟩ := h.replayed.event P clock cfg ht hev (hfresh b rfl)
      refine ⟨e₁, he₁, ⟨?_, bid, ask, hs⟩, fun hlt => ?_, ?_⟩
      · rw [hc]
        exact h.replayed.ticker
      · have hlt' : n + 1 < 200000 := hlt
        exact ((h.counted (by omega)).recorded hlt' b).sameCaches hc
      · rw [hc]
        exact ⟨⟨rfl, rfl⟩, rfl, rfl⟩
    | trade tr =>
      obtain ⟨e₁, he₁⟩ := applyTradeEvent_ok P clock cfg ht h.replayed tr
      obtain ⟨hbooks, hc⟩ := applyTradeEvent_books he₁
      refine ⟨e₁, he₁, h.replayed.frame hbooks hc, fun hlt => (h.counted hlt).sameCaches hc, ?_⟩
      rw [hc]
      exact h.touch
    | update _ u => exact hev.elim
  obtain ⟨e₁, he₁, hrep, hcount, htouch⟩ := happly
  obtain ⟨e₀, x, h₀, hmatch⟩ := h.publishing.applyEvent nofun hon
    (Trace.each_of_forall fun _ _ => nofun) he₁
  obtain ⟨e₂, e', he₂, he'⟩ := h₀.settle_ok P clock cfg MarketOrderBook.calls ev.nowNs ht
    hmatch
  obtain ⟨hpub, hidle⟩ := h₀.settle hmatch he₂ he'
  obtain ⟨hbooks, hc⟩ := pumps_books he₂ he'
  refine ⟨e', ?_, hrep.frame hbooks hc, hpub, hidle, fun hlt => (hcount hlt).sameCaches hc, ?_⟩
  · rw [BacktestEngine.step, he₁, ok_bind, he₂, ok_bind, he']
  · rw [hc]
    exact htouch

theorem Sails.run (ht : tickerId < meMaxTickers) {n : ℕ} {t : BookTopEvent}
    {tape : List TapeEvent} (htape : ∀ ev ∈ tape, ev.Proper)
    (hn : n + tape.countP TapeEvent.isBook ≤ 200000) (h : Sails tickerId n t e) :
    Along (strategyCalls P clock tickerId cfg MarketOrderBook.calls) Fresh e tape ∧
      ∃ e', e.run (strategyCalls P clock tickerId cfg MarketOrderBook.calls) tape = .ok e' ∧
        Sails tickerId (n + tape.countP TapeEvent.isBook) (tape.foldl TapeEvent.touch t) e' := by
  induction tape generalizing e n t with
  | nil => exact ⟨trivial, e, rfl, h⟩
  | cons ev tape ih =>
    rw [List.countP_cons] at hn ⊢
    have hone : n + (if ev.isBook then 1 else 0) ≤ 200000 := by omega
    obtain ⟨hfresh, e₁, he₁, h₁⟩ := h.step P clock cfg ht (htape ev (List.mem_cons_self ..)) hone
    obtain ⟨halong, e', he', h'⟩ := ih (fun x hx => htape x (List.mem_cons_of_mem _ hx))
      (by omega) h₁
    refine ⟨⟨hfresh, fun e₂ he₂ => ?_⟩, e', ?_, ?_⟩
    · rw [he₁] at he₂
      cases he₂
      exact halong
    · rw [BacktestEngine.run, he₁]
      exact he'
    · rwa [Nat.add_assoc, Nat.add_comm (if ev.isBook then 1 else 0)] at h'

omit [FloorRing K] in
theorem sails_new (checked : Bool) (tickerId : ℕ) (openVwap : ℕ → ℕ → K) :
    Sails tickerId 0 .empty (backtest tickerId cfg (MarketOrderBook.new checked) openVwap) where
  replayed := replayed_new checked tickerId cfg openVwap
  publishing := publishing_new False tickerId cfg _ openVwap
  idle := rfl
  counted _ := ⟨le_refl _, le_refl _, .inl rfl, .inl rfl⟩
  touch := ⟨⟨rfl, rfl⟩, rfl, rfl⟩

def ShowsTouch (tickerId : ℕ) (e : BacktestEngine (Strategy K MarketOrderBook)) (t : BookTopEvent) :
    Prop :=
  (e.engine.books tickerId).bbo = t.bbo ∧
    (e.engine.books tickerId).book.decode =
      some ⟨topLevels .buy e.restingBidOid t.bidPrice t.bidQty,
        topLevels .sell e.restingAskOid t.askPrice t.askQty⟩

omit [Field K] [LinearOrder K] [FloorRing K] in
theorem Sails.showsTouch {n : ℕ} {t : BookTopEvent} (h : Sails tickerId n t e) :
    ShowsTouch tickerId e t := by
  obtain ⟨bid, ask, hs⟩ := h.replayed.shown
  obtain ⟨⟨hbp, hbq⟩, hap, haq⟩ := h.touch
  refine ⟨?_, ?_⟩
  · obtain ⟨h₁, h₂, h₃, h₄⟩ := hs.bbo
    rw [hbp] at h₁ h₃
    rw [hbq] at h₃
    rw [hap] at h₂ h₄
    rw [haq] at h₄
    rw [BookTopEvent.bbo, ← h₃, ← h₄, ← h₁, ← h₂]
  · rw [hs.book.decode, hs.bid.levels, hs.ask.levels, hbp, hbq, hap, haq]

variable [IsStrictOrderedRing K]

theorem l1_replay (checked : Bool) (ht : tickerId < meMaxTickers) (hvpin : cfg.features.VpinWhole)
    (openVwap : ℕ → ℕ → K) {dtNs : ℚ → ℤ} {fuel : ℕ} {r : TapeReader} {tape : List TapeEvent}
    (hdrain : r.drain dtNs fuel = .ok tape) (htape : ∀ ev ∈ tape, ev.Proper)
    (hlen : tape.countP TapeEvent.isBook ≤ 200000) :
    (backtest tickerId cfg (MarketOrderBook.new checked) openVwap).EachUpdate
        (strategyCalls P clock tickerId cfg MarketOrderBook.calls) VpinEnds tape ∧
      ∃ e, (backtest tickerId cfg (MarketOrderBook.new checked) openVwap).runReader
          (strategyCalls P clock tickerId cfg MarketOrderBook.calls) dtNs fuel r = .ok e ∧
        (e.clientRequests = [] ∧ e.clientResponses = []) ∧
        ShowsTouch tickerId e (lastTouch tape) := by
  obtain ⟨-, e, he, h⟩ := (sails_new cfg checked tickerId openVwap).run P clock cfg ht htape
    (by rwa [Nat.zero_add])
  refine ⟨vpinEnds_eachUpdate (fun ev hev => (htape ev hev).on _) (vpinWhole_new hvpin _ _), e, ?_,
    ⟨h.idle, h.publishing.silent⟩, h.showsTouch⟩
  rw [BacktestEngine.runReader_eq hdrain, he, ok_bind,
    BacktestEngine.pumpClientResponses_nil h.publishing.silent]

end Run

theorem l1_replay_completes {K : Type} [Field K] [LinearOrder K] [IsStrictOrderedRing K]
    [FloorRing K] (P : Platform K) (clock : ℕ → ℤ) (checked : Bool) {tickerId : ℕ}
    (ht : tickerId < meMaxTickers) (cfg : StrategyCfg K) (hvpin : cfg.features.VpinWhole)
    (openVwap : ℕ → ℕ → K) (tape : List TapeEvent) (htape : ∀ ev ∈ tape, ev.Proper)
    (hlen : tape.countP TapeEvent.isBook ≤ 200000) :
    Along (strategyCalls P clock tickerId cfg MarketOrderBook.calls) Fresh
        (backtest tickerId cfg (MarketOrderBook.new checked) openVwap) tape ∧
      (backtest tickerId cfg (MarketOrderBook.new checked) openVwap).EachUpdate
        (strategyCalls P clock tickerId cfg MarketOrderBook.calls) VpinEnds tape ∧
      ∃ e, (backtest tickerId cfg (MarketOrderBook.new checked) openVwap).run
          (strategyCalls P clock tickerId cfg MarketOrderBook.calls) tape = .ok e ∧
        ShowsTouch tickerId e (lastTouch tape) := by
  obtain ⟨halong, e, he, h⟩ := (sails_new cfg checked tickerId openVwap).run P clock cfg ht htape
    (by rwa [Nat.zero_add])
  exact ⟨halong, vpinEnds_eachUpdate (fun ev hev => (htape ev hev).on _) (vpinWhole_new hvpin _ _),
    e, he, h.showsTouch⟩

def bucketCfg : StrategyCfg ℚ :=
  { sampleCfg with features := { FeatureCfg.default with useVpin := true, vpinBucketSize := 2 } }

theorem l1_replay_completes_sample :
    ∃ e, (backtest 0 bucketCfg (MarketOrderBook.new true) fun _ _ => 0).run
        (strategyCalls exactPlatform (fun _ => 0) 0 bucketCfg MarketOrderBook.calls)
        [.book ⟨1, 10000, 5, 10002, 5⟩, .trade ⟨2, 10002, 3, .buy⟩, .book ⟨3, 10002, 4, 10004, 6⟩] =
          .ok e ∧ (e.engine.books 0).bbo = ⟨10002, 10004, 4, 6⟩ := by
  obtain ⟨-, -, e, he, hbbo, -⟩ := l1_replay_completes exactPlatform (fun _ => 0) true
    (show 0 < meMaxTickers by decide) bucketCfg
    (fun _ _ => ⟨2, by decide, by norm_num [bucketCfg]⟩) (fun _ _ => 0)
    [.book ⟨1, 10000, 5, 10002, 5⟩, .trade ⟨2, 10002, 3, .buy⟩, .book ⟨3, 10002, 4, 10004, 6⟩]
    (by decide) (by decide)
  exact ⟨e, he, hbbo⟩

theorem Synth.Around.proper {mid : ℤ} {ev : TapeEvent} (h : Synth.Around mid ev) : ev.Proper := by
  cases ev with
  | book ev =>
    obtain ⟨hbid, hask, -⟩ := h
    have hN : (meMaxPriceLevels : ℤ) = 131072 := rfl
    intro _ _
    omega
  | trade ev => trivial
  | update _ u => exact h

theorem synth_backtest_completes {K : Type} [Field K] [LinearOrder K] [IsStrictOrderedRing K]
    [FloorRing K] (P : Platform K) (clock : ℕ → ℤ) (checked : Bool) {tickerId : ℕ}
    (ht : tickerId < meMaxTickers) (cfg : StrategyCfg K) (hvpin : cfg.features.VpinWhole)
    (openVwap : ℕ → ℕ → K) (dtNs : ℚ → ℤ)
    (hdt : ∀ u, 1 / 10 ^ 9 ≤ u → u < 1 → 0 ≤ dtNs u ∧ dtNs u < 2 ^ 40) (tape : TapeReaderCfg)
    (hf : tape.format = .synth) (file : List Char) {fuel : ℕ} (hfuel : tape.synthLength < fuel) :
    (backtest tickerId cfg (MarketOrderBook.new checked) openVwap).EachUpdate
        (strategyCalls P clock tickerId cfg MarketOrderBook.calls) VpinEnds
        ((List.range tape.synthLength).map (Synth.event dtNs)) ∧
      ∃ e, (backtest tickerId cfg (MarketOrderBook.new checked) openVwap).runReader
          (strategyCalls P clock tickerId cfg MarketOrderBook.calls) dtNs fuel (.new tape file) =
            .ok e ∧
        (e.clientRequests = [] ∧ e.clientResponses = []) ∧
        ShowsTouch tickerId e
          (lastTouch ((List.range tape.synthLength).map (Synth.event dtNs))) := by
  have hdrain := TapeReader.drain_new dtNs hf file hfuel
  set events := (List.range tape.synthLength).map (Synth.event dtNs) with hevents
  have hproper : ∀ ev ∈ events, ev.Proper := by
    intro ev hev
    obtain ⟨n, -, rfl⟩ := List.mem_map.mp hev
    exact (Synth.after_spec hdt n).2.around.proper
  have hcount : events.countP TapeEvent.isBook ≤ 200000 := by
    refine List.countP_le_length.trans ?_
    rw [hevents, List.length_map, List.length_range]
    exact synthLength_le tape
  exact l1_replay P clock cfg checked ht hvpin openVwap hdrain hproper hcount

theorem synth_backtest_completes_log :
    ∃ e, (backtest 0 bucketCfg (MarketOrderBook.new true) fun _ _ => 0).runReader
        (strategyCalls exactPlatform (fun _ => 0) 0 bucketCfg MarketOrderBook.calls) logNs 200001
        (.new ⟨.synth, 1, 1, 0, Rounding.nearest⟩ []) = .ok e ∧ e.clientResponses = [] := by
  obtain ⟨-, e, he, ⟨-, hresp⟩, -⟩ := synth_backtest_completes exactPlatform (fun _ => 0) true
    (show 0 < meMaxTickers by decide) bucketCfg
    (fun _ _ => ⟨2, by decide, by norm_num [bucketCfg]⟩) (fun _ _ => 0) logNs logNs_bounds
    ⟨.synth, 1, 1, 0, Rounding.nearest⟩ rfl [] (show 200000 < 200001 by decide)
  exact ⟨e, he, hresp⟩

end Backtest
