import TradingEcosystem.Backtest.BookReplay
import TradingEcosystem.Library.Trace

namespace Trading

open Common Exchange

section Maker

variable {K : Type} [Field K] [LinearOrder K]

namespace MarketMaker

/-- `onOrderBookUpdate` gets to the formulas that multiply `tau` by something other than 0. -/
def UsesClock (cfg : TradeEngineCfg K) (m : Market K) : Prop :=
  m.bidPrice ≠ priceInvalid ∧ m.askPrice ≠ priceInvalid ∧ kills cfg m = false ∧
    ∃ sigma, asReady cfg m = some sigma ∧ gamma cfg m sigma ≠ 0

instance instDecidableUsesClock (cfg : TradeEngineCfg K) (m : Market K) :
    Decidable (UsesClock cfg m) :=
  inferInstanceAs (Decidable (_ ∧ _ ∧ _ ∧ ∃ sigma ∈ asReady cfg m, gamma cfg m sigma ≠ 0))

variable {cfg : TradeEngineCfg K} {m : Market K} {position : ℤ} {sigma : K}

theorem asBid_of_gamma_eq_zero (h : gamma cfg m sigma = 0) (elapsedNs : K) :
    asBid cfg (m.at elapsedNs) position sigma = asBid cfg m position sigma := by
  have hat : gamma cfg (m.at elapsedNs) sigma = 0 := h
  simp only [asBid, reservation, spread, h, hat, zero_mul, mul_zero]
  rfl

theorem asAsk_of_gamma_eq_zero (h : gamma cfg m sigma = 0) (elapsedNs : K) :
    asAsk cfg (m.at elapsedNs) position sigma = asAsk cfg m position sigma := by
  have hat : gamma cfg (m.at elapsedNs) sigma = 0 := h
  simp only [asAsk, reservation, spread, h, hat, zero_mul, mul_zero]
  rfl

theorem asBid_at (cfg : TradeEngineCfg K) (m : Market K) (position : ℤ) (sigma elapsedNs : K) :
    asBid cfg (m.at elapsedNs) position sigma =
      m.mktPrice + (if cfg.useOfi then cfg.betaOfi * m.ofi else 0) - m.logTerm / 2 -
        bidWiden cfg m -
        (position + 1 / 2) * (gamma cfg m sigma * sigma * sigma) * tau cfg (m.at elapsedNs) := by
  change m.mktPrice - position * gamma cfg m sigma * sigma * sigma * tau cfg (m.at elapsedNs) +
    (if cfg.useOfi then cfg.betaOfi * m.ofi else 0) -
      (gamma cfg m sigma * sigma * sigma * tau cfg (m.at elapsedNs) + m.logTerm) / 2 -
        bidWiden cfg m = _
  ring

theorem asAsk_at (cfg : TradeEngineCfg K) (m : Market K) (position : ℤ) (sigma elapsedNs : K) :
    asAsk cfg (m.at elapsedNs) position sigma =
      m.mktPrice + (if cfg.useOfi then cfg.betaOfi * m.ofi else 0) + m.logTerm / 2 +
        askWiden cfg m +
        (1 / 2 - position) * (gamma cfg m sigma * sigma * sigma) * tau cfg (m.at elapsedNs) := by
  change m.mktPrice - position * gamma cfg m sigma * sigma * sigma * tau cfg (m.at elapsedNs) +
    (if cfg.useOfi then cfg.betaOfi * m.ofi else 0) +
      (gamma cfg m sigma * sigma * sigma * tau cfg (m.at elapsedNs) + m.logTerm) / 2 +
        askWiden cfg m = _
  ring

variable [FloorRing K]

theorem onOrderBookUpdate_at (h : ¬ UsesClock cfg m) (position : ℤ) (elapsedNs : K) :
    onOrderBookUpdate cfg (m.at elapsedNs) position = onOrderBookUpdate cfg m position := by
  have hready : asReady cfg (m.at elapsedNs) = asReady cfg m := rfl
  have hkills : kills cfg (m.at elapsedNs) = kills cfg m := rfl
  have hclip : clip cfg (m.at elapsedNs) position = clip cfg m position := rfl
  unfold onOrderBookUpdate
  rw [hkills, hclip]
  by_cases hside : m.bidPrice = priceInvalid ∨ m.askPrice = priceInvalid
  · rw [if_pos hside]
    exact if_pos hside
  · rw [if_neg hside]
    refine (if_neg hside).trans ?_
    by_cases hk : kills cfg m = true
    · rw [if_pos hk, if_pos hk]
    · rw [if_neg hk, if_neg hk]
      obtain ⟨hbid, hask⟩ := not_or.mp hside
      unfold bidPrice askPrice
      rw [hready]
      cases hs : asReady cfg m with
      | none => rfl
      | some sigma =>
        have hgamma : gamma cfg m sigma = 0 := by
          by_contra hne
          exact h ⟨hbid, hask, Bool.eq_false_iff.mpr hk, sigma, hs, hne⟩
        dsimp only
        rw [asBid_of_gamma_eq_zero hgamma, asAsk_of_gamma_eq_zero hgamma]
        rfl

section Exact

variable [IsStrictOrderedRing K]

theorem exists_le_tau (h : cfg.sessionHours ≠ 0) (bound : K) :
    ∃ t : ℤ, bound ≤ tau cfg (m.at t) := by
  set session : K := cfg.sessionHours * 3600 * 10 ^ 9 with hsession
  have hne : session ≠ 0 := mul_ne_zero (mul_ne_zero h (by norm_num)) (by norm_num)
  have htau (t : ℤ) (ht : t * (1 / session) ≤ 1 - bound) : bound ≤ tau cfg (m.at t) := by
    refine le_max_of_le_right ?_
    change bound ≤ (session - t) / session
    rw [sub_div, div_self hne]
    rw [mul_one_div] at ht
    linarith
  rcases lt_or_gt_of_ne (one_div_ne_zero hne) with hneg | hpos
  · refine ⟨⌈(1 - bound) / (1 / session)⌉, htau _ ?_⟩
    exact (div_le_iff_of_neg hneg).mp (Int.le_ceil _)
  · refine ⟨⌊(1 - bound) / (1 / session)⌋, htau _ ?_⟩
    exact (le_div_iff₀ hpos).mp (Int.floor_le _)

theorem exists_lt_slope {slope : K} (h : cfg.sessionHours ≠ 0) (hslope : 0 < slope) (bound : K) :
    ∃ t : ℤ, bound < slope * tau cfg (m.at t) := by
  obtain ⟨t, ht⟩ := exists_le_tau (m := m) h (bound / slope + 1)
  refine ⟨t, ?_⟩
  have hmul := mul_le_mul_of_nonneg_left ht hslope.le
  have hcancel : slope * (bound / slope + 1) = bound + slope := by
    rw [mul_add, mul_one, mul_div_cancel₀ _ hslope.ne']
  linarith

theorem exists_bid_below (hready : asReady cfg m = some sigma) (hhours : cfg.sessionHours ≠ 0)
    (hrisk : 0 < gamma cfg m sigma * sigma * sigma) (hposition : 0 ≤ position) (p : ℤ) :
    ∃ t : ℤ, bidPrice cfg (m.at t) position < p := by
  have hcast : (0 : K) ≤ position := by exact_mod_cast hposition
  have hslope : 0 < ((position : K) + 1 / 2) * (gamma cfg m sigma * sigma * sigma) :=
    mul_pos (by linarith) hrisk
  obtain ⟨t, ht⟩ := exists_lt_slope (m := m) hhours hslope
    (m.mktPrice + (if cfg.useOfi then cfg.betaOfi * m.ofi else 0) - m.logTerm / 2 -
      bidWiden cfg m - p)
  refine ⟨t, bidPrice_lt_iff.mpr ?_⟩
  have hlt : asBid cfg (m.at t) position sigma < p := by
    rw [asBid_at]
    linarith
  rw [BidBelow, show asReady cfg (m.at t) = some sigma from hready]
  exact .inr hlt

theorem exists_ask_above (hready : asReady cfg m = some sigma) (hhours : cfg.sessionHours ≠ 0)
    (hrisk : 0 < gamma cfg m sigma * sigma * sigma) (hposition : position < 0) (p : ℤ) :
    ∃ t : ℤ, p < askPrice cfg (m.at t) position := by
  have hcast : (position : K) < 0 := by exact_mod_cast hposition
  have hslope : 0 < (1 / 2 - (position : K)) * (gamma cfg m sigma * sigma * sigma) :=
    mul_pos (by linarith) hrisk
  obtain ⟨t, ht⟩ := exists_lt_slope (m := m) hhours hslope
    (p - (m.mktPrice + (if cfg.useOfi then cfg.betaOfi * m.ofi else 0) + m.logTerm / 2 +
      askWiden cfg m))
  refine ⟨t, lt_askPrice_iff.mpr ?_⟩
  have hlt : (p : K) < asAsk cfg (m.at t) position sigma := by
    rw [asAsk_at]
    linarith
  rw [AskAbove, show asReady cfg (m.at t) = some sigma from hready]
  exact .inr hlt

theorem usesClock_iff (hcfg : cfg.Proper) (hhours : cfg.sessionHours ≠ 0) (position : ℤ) :
    UsesClock cfg m ↔ ∃ t t' : ℤ, onOrderBookUpdate cfg (m.at t) position ≠
      onOrderBookUpdate cfg (m.at t') position := by
  constructor
  · rintro ⟨hbid, hask, hk, sigma, hready, hne⟩
    have hsigma := sigma_pos hready
    have hrisk : 0 < gamma cfg m sigma * sigma * sigma :=
      mul_pos (mul_pos (lt_of_le_of_ne (gamma_nonneg hcfg hsigma) hne.symm) hsigma) hsigma
    have hquote (t : ℤ) : onOrderBookUpdate cfg (m.at t) position =
        .quote (bidPrice cfg (m.at t) position) (askPrice cfg (m.at t) position)
          (clip cfg m position) := by
      refine (if_neg (not_or.mpr ⟨hbid, hask⟩)).trans ?_
      exact if_neg (Bool.eq_false_iff.mp hk)
    rcases le_or_gt 0 position with hposition | hposition
    · obtain ⟨t, ht⟩ := exists_bid_below hready hhours hrisk hposition
        (bidPrice cfg (m.at (0 : ℤ)) position)
      refine ⟨t, 0, fun h => ht.ne ?_⟩
      rw [hquote, hquote] at h
      exact (Reaction.quote.inj h).1
    · obtain ⟨t, ht⟩ := exists_ask_above hready hhours hrisk hposition
        (askPrice cfg (m.at (0 : ℤ)) position)
      refine ⟨t, 0, fun h => ht.ne' ?_⟩
      rw [hquote, hquote] at h
      exact (Reaction.quote.inj h).2.1
  · rintro ⟨t, t', hne⟩
    by_contra h
    exact hne ((onOrderBookUpdate_at h position t).trans (onOrderBookUpdate_at h position t').symm)

end Exact

end MarketMaker

end Maker

namespace Strategy

variable {K B : Type} [Field K] [LinearOrder K] (P : Platform K) (cfg : ℕ → StrategyCfg K)
  (book : BookCalls B)

def UsesClock (s : Strategy K B) (u : MEMarketUpdate) : Prop :=
  u.type ≠ .trade ∧ ∃ b c x, book.onMarketUpdate (s.books u.tickerId) u = .ok (b, c) ∧
    (s.observed P book u.tickerId b).features.mktPrice = .num x ∧
    MarketMaker.UsesClock (cfg u.tickerId).maker
      ((s.observed P book u.tickerId b).market P (cfg u.tickerId) (book.getBBO b) 0 x)

instance instDecidableUsesClock (s : Strategy K B) (u : MEMarketUpdate) :
    Decidable (s.UsesClock P cfg book u) :=
  match hb : book.onMarketUpdate (s.books u.tickerId) u with
  | .error _ => isFalse fun ⟨_, _, _, _, h, _⟩ => by
      rw [hb] at h
      cases h
  | .ok (b, c) =>
      match hx : (s.observed P book u.tickerId b).features.mktPrice with
      | .nonFinite _ => isFalse fun ⟨_, _, _, _, h, hnum, _⟩ => by
          rw [hb] at h
          cases h
          rw [hx] at hnum
          cases hnum
      | .num x => decidable_of_iff (u.type ≠ .trade ∧ MarketMaker.UsesClock (cfg u.tickerId).maker
          ((s.observed P book u.tickerId b).market P (cfg u.tickerId) (book.getBBO b) 0 x))
          ⟨fun ⟨ht, huse⟩ => ⟨ht, b, c, x, hb, hx, huse⟩, fun ⟨ht, _, _, _, h, hnum, huse⟩ => by
            rw [hb] at h
            cases h
            rw [hx] at hnum
            cases hnum
            exact ⟨ht, huse⟩⟩

variable {P cfg book} {s : Strategy K B} {u : MEMarketUpdate}

variable [FloorRing K]

theorem reaction_at {c : StrategyCfg K} {bbo : BBO} (h : ∀ x, s.features.mktPrice = .num x →
      ¬ MarketMaker.UsesClock c.maker (s.market P c bbo 0 x)) (elapsedNs position : ℤ) :
    s.reaction P c bbo elapsedNs position = s.reaction P c bbo 0 position := by
  unfold reaction
  cases hprice : s.features.mktPrice with
  | num x =>
    dsimp only
    rw [market_at]
    exact MarketMaker.onOrderBookUpdate_at (h x hprice) position elapsedNs
  | nonFinite fair =>
    dsimp only
    rw [market_at]
    rfl

theorem onOrderBookUpdate_clock {tickerId : ℕ}
    (h : ∀ x, (s.observe P book tickerId).features.mktPrice = .num x →
      ¬ MarketMaker.UsesClock (cfg tickerId).maker ((s.observe P book tickerId).market P
        (cfg tickerId) (book.getBBO (s.books tickerId)) 0 x)) (clock clock' : ℕ → ℤ) :
    s.onOrderBookUpdate P clock cfg book tickerId =
      s.onOrderBookUpdate P clock' cfg book tickerId := by
  have hbook : (s.observe P book tickerId).books tickerId = s.books tickerId := rfl
  unfold onOrderBookUpdate
  dsimp only
  rw [hbook, reaction_at h (clock _ - clock 0), reaction_at h (clock' _ - clock' 0)]

theorem onMarketUpdate_clock (h : ¬ s.UsesClock P cfg book u) (clock clock' : ℕ → ℤ) :
    s.onMarketUpdate P clock cfg book u = s.onMarketUpdate P clock' cfg book u := by
  unfold onMarketUpdate
  cases require (u.tickerId < meMaxTickers) .outOfRange with
  | error e => rfl
  | ok _ =>
    rw [ok_bind, ok_bind]
    cases hb : book.onMarketUpdate (s.books u.tickerId) u with
    | error e => rfl
    | ok r =>
      obtain ⟨b, c⟩ := r
      rw [ok_bind, ok_bind, book.callback hb]
      by_cases ht : u.type = .trade
      · rw [if_pos ht]
      · rw [if_neg ht]
        refine onOrderBookUpdate_clock (fun x hx huse => h ⟨ht, b, c, x, hb, hx, ?_⟩) clock clock'
        have hbook : Function.update s.books u.tickerId b u.tickerId = b := Function.update_self ..
        dsimp only at huse
        rwa [hbook] at huse

end Strategy

end Trading

namespace Backtest

open Common Exchange Trading

namespace BacktestEngine

variable {E : Type}

structure Row (E : Type) where
  requests : List MEClientRequest
  responses : List MEClientResponse
  after : BacktestEngine E

section Replay

variable (calls : EngineCalls E)

def replay : BacktestEngine E → List TapeEvent → Outcome (List (Row E))
  | _, [] => pure []
  | e, ev :: tape => do
      let applied ← e.applyEvent calls ev
      let pumped ← applied.pumpClientRequests ev.nowNs
      let after ← pumped.pumpClientResponses calls
      let rows ← replay after tape
      pure (⟨applied.clientRequests, pumped.clientResponses, after⟩ :: rows)

def lastOf (e : BacktestEngine E) (rows : List (Row E)) : BacktestEngine E :=
  (rows.getLast?.map Row.after).getD e

theorem lastOf_cons (e : BacktestEngine E) (row : Row E) (rows : List (Row E)) :
    e.lastOf (row :: rows) = row.after.lastOf rows := by
  unfold lastOf
  rw [List.getLast?_cons]
  cases rows.getLast? <;> rfl

theorem replay_run (e : BacktestEngine E) (tape : List TapeEvent) :
    (e.replay calls tape).map e.lastOf = e.run calls tape := by
  induction tape generalizing e with
  | nil => rfl
  | cons ev tape ih =>
    rw [replay, run, step]
    cases e.applyEvent calls ev with
    | error f => rfl
    | ok applied =>
      rw [ok_bind, ok_bind]
      cases applied.pumpClientRequests ev.nowNs with
      | error f => rfl
      | ok pumped =>
        rw [ok_bind, ok_bind]
        cases pumped.pumpClientResponses calls with
        | error f => rfl
        | ok after =>
          rw [ok_bind, ok_bind, ← ih]
          cases after.replay calls tape with
          | error f => rfl
          | ok rows => exact congrArg Except.ok (lastOf_cons e _ rows)

end Replay

section TwoEngines

variable {calls calls' : EngineCalls E} {e : BacktestEngine E}

def Agree (calls calls' : EngineCalls E) (s : E) (u : MEMarketUpdate) : Prop :=
  calls.onMarketUpdate s u = calls'.onMarketUpdate s u

theorem feed_congr {s : E} {us : List MEMarketUpdate}
    (h : Trace.Each (Delivers calls) (Agree calls calls') s us) :
    feed calls s us = feed calls' s us := by
  induction us generalizing s with
  | nil => rfl
  | cons u us ih =>
    obtain ⟨hu, hus⟩ := h
    have hu : calls.onMarketUpdate s u = calls'.onMarketUpdate s u := hu
    rw [feed, feed, ← hu]
    cases hs : calls.onMarketUpdate s u with
    | error f => rfl
    | ok r =>
      rw [ok_bind, ok_bind]
      dsimp only
      rw [ih (hus r.1 ⟨r.2, hs⟩)]

theorem applyEvent_congr (hbbo : calls.getBBO = calls'.getBBO) {ev : TapeEvent}
    (h : Trace.Each (Delivers calls) (Agree calls calls') e.engine (e.updates ev)) :
    e.applyEvent calls ev = e.applyEvent calls' ev := by
  cases ev with
  | book ev =>
    have hfeed := feed_congr h
    rw [updates] at hfeed
    rw [applyEvent, applyEvent, applyBookEvent, applyBookEvent, quoteBookEvent_eq,
      quoteBookEvent_eq, hfeed]
  | trade ev =>
    have hu : calls.onMarketUpdate e.engine _ = calls'.onMarketUpdate e.engine _ := h.1
    rw [applyEvent, applyEvent, applyTradeEvent, applyTradeEvent, publishMarketUpdate,
      publishMarketUpdate, hu]
  | update eventNs u =>
    have hu : calls.onMarketUpdate e.engine u = calls'.onMarketUpdate e.engine u := h.1
    have hsync (e : BacktestEngine E) : e.syncBBOFromBook calls = e.syncBBOFromBook calls' := by
      rw [syncBBOFromBook, syncBBOFromBook, hbbo]
    simp only [applyEvent, applyUpdate, publishMarketUpdate, hu, hsync]

theorem answerAll_congr (hupdate : calls.onOrderUpdate = calls'.onOrderUpdate) (s : E)
    (rs : List MEClientResponse) : answerAll calls s rs = answerAll calls' s rs := by
  induction rs generalizing s with
  | nil => rfl
  | cons r rs ih =>
    rw [answerAll, answerAll, hupdate]
    exact bind_congr fun t => ih t

theorem replay_congr (hbbo : calls.getBBO = calls'.getBBO)
    (hupdate : calls.onOrderUpdate = calls'.onOrderUpdate) {tape : List TapeEvent}
    (h : e.EachUpdate calls (Agree calls calls') tape) :
    e.replay calls tape = e.replay calls' tape := by
  induction tape generalizing e with
  | nil => rfl
  | cons ev tape ih =>
    obtain ⟨hev, htape⟩ := h
    rw [replay, replay, ← applyEvent_congr hbbo hev]
    cases happlied : e.applyEvent calls ev with
    | error f => rfl
    | ok applied =>
      rw [ok_bind, ok_bind]
      cases hpumped : applied.pumpClientRequests ev.nowNs with
      | error f => rfl
      | ok pumped =>
        have hanswers : pumped.pumpClientResponses calls = pumped.pumpClientResponses calls' := by
          rw [pumpClientResponses, pumpClientResponses, answerAll_congr hupdate]
        rw [ok_bind, ok_bind, ← hanswers]
        cases hafter : pumped.pumpClientResponses calls with
        | error f => rfl
        | ok after =>
          have hstep : e.step calls ev = .ok after := by
            simp only [step, happlied, hpumped, hafter, ok_bind]
          rw [ok_bind, ok_bind, ih (htape after hstep)]

end TwoEngines

end BacktestEngine

theorem clock_irrelevant {K B : Type} [Field K] [LinearOrder K] [FloorRing K] (P : Platform K)
    (clock clock' : ℕ → ℤ) (tickerId : ℕ) (cfg : StrategyCfg K) (book : BookCalls B)
    (books : ℕ → B) (openVwap : ℕ → ℕ → K) {tape : List TapeEvent}
    (h : (backtest tickerId cfg books openVwap).EachUpdate (strategyCalls P clock tickerId cfg book)
      (fun s u => ¬ s.UsesClock P (tickerCfg tickerId cfg) book u) tape) :
    (backtest tickerId cfg books openVwap).replay (strategyCalls P clock tickerId cfg book) tape =
      (backtest tickerId cfg books openVwap).replay (strategyCalls P clock' tickerId cfg book)
        tape := by
  have hagree : (backtest tickerId cfg books openVwap).EachUpdate
      (strategyCalls P clock tickerId cfg book)
      (BacktestEngine.Agree (strategyCalls P clock tickerId cfg book)
        (strategyCalls P clock' tickerId cfg book)) tape :=
    h.mono fun e ev => Trace.Each.mono fun s u hu => Strategy.onMarketUpdate_clock hu clock clock'
  refine BacktestEngine.replay_congr ?_ ?_ hagree <;> rfl

theorem eachUpdate_of_as_off {K B : Type} [Field K] [LinearOrder K] [FloorRing K] (P : Platform K)
    (clock : ℕ → ℤ) (tickerId : ℕ) {cfg : StrategyCfg K} (book : BookCalls B) (books : ℕ → B)
    (openVwap : ℕ → ℕ → K) (tape : List TapeEvent) (has : cfg.maker.useAs = false) :
    (backtest tickerId cfg books openVwap).EachUpdate (strategyCalls P clock tickerId cfg book)
      (fun s u => ¬ s.UsesClock P (tickerCfg tickerId cfg) book u) tape := by
  have hoff (t : ℕ) : (tickerCfg tickerId cfg t).maker.useAs = false := by
    unfold tickerCfg
    rw [Function.update_apply]
    split_ifs
    · exact has
    · rfl
  refine Trace.each_of_forall fun e ev => Trace.each_of_forall fun s u huse => ?_
  obtain ⟨-, b, c, x, -, -, -, -, -, sigma, hready, -⟩ := huse
  rw [MarketMaker.asReady, hoff] at hready
  cases hready

section Sample

/-- At this `kappa` the logarithm term of the spread is 1, which is what `exactPlatform` has. -/
def asCfg : StrategyCfg ℚ :=
  { sampleCfg with
    kappa := 195 / 100
    maker := { sampleCfg.maker with useAs := true }
    features := { FeatureCfg.default with ewmaDecay := 0, volBootstrap := 1 } }

def movingTape : List TapeEvent :=
  [.book ⟨1, 100, 5, 110, 5⟩, .book ⟨2, 104, 5, 114, 5⟩, .book ⟨3, 106, 5, 120, 5⟩]

/-- The spread widens and a trade prints, but the mid never moves, so that sigma stays 0. -/
def stillTape : List TapeEvent :=
  [.book ⟨1, 100, 5, 110, 5⟩, .trade ⟨2, 110, 3, .buy⟩, .book ⟨3, 99, 5, 111, 5⟩,
    .book ⟨4, 98, 5, 112, 5⟩]

theorem clock_irrelevant_sample :
    (backtest 0 asCfg (MarketOrderBook.new true) fun _ _ => 0).replay
        (strategyCalls exactPlatform (fun _ => 0) 0 asCfg MarketOrderBook.calls) stillTape =
      (backtest 0 asCfg (MarketOrderBook.new true) fun _ _ => 0).replay
        (strategyCalls exactPlatform (fun n => 10 ^ 12 * n) 0 asCfg MarketOrderBook.calls)
        stillTape :=
  clock_irrelevant exactPlatform (fun _ => 0) (fun n => 10 ^ 12 * n) 0 asCfg
    MarketOrderBook.calls (MarketOrderBook.new true) (fun _ _ => 0) (by decide +kernel)

def requestsUnder (clock : ℕ → ℤ) : Outcome (List (List MEClientRequest)) :=
  ((backtest 0 asCfg (MarketOrderBook.new true) fun _ _ => 0).replay
    (strategyCalls exactPlatform clock 0 asCfg MarketOrderBook.calls) movingTape).map fun rows => rows.map BacktestEngine.Row.requests

/-- The same tape, once in no time at all and once at 1000 s an update. -/
theorem quotes_move_with_clock :
    requestsUnder (fun _ => 0) = .ok [
      [⟨.new, 1, 0, 1, .buy, 100, 10⟩, ⟨.new, 1, 0, 2, .sell, 110, 10⟩],
      [⟨.cancel, 1, 0, 1, .buy, 100, 10⟩, ⟨.cancel, 1, 0, 2, .sell, 110, 10⟩],
      [⟨.new, 1, 0, 3, .buy, 111, 10⟩, ⟨.new, 1, 0, 4, .sell, 115, 10⟩]] ∧
    requestsUnder (fun n => 10 ^ 12 * n) = .ok [
      [⟨.new, 1, 0, 1, .buy, 100, 10⟩, ⟨.new, 1, 0, 2, .sell, 110, 10⟩],
      [⟨.cancel, 1, 0, 1, .buy, 100, 10⟩, ⟨.cancel, 1, 0, 2, .sell, 110, 10⟩],
      [⟨.new, 1, 0, 3, .buy, 112, 10⟩, ⟨.new, 1, 0, 4, .sell, 114, 10⟩]] := by
  decide +kernel

end Sample

end Backtest
