import TradingEcosystem.Backtest.BacktestEngine
import TradingEcosystem.Trading.FeatureEngine
import TradingEcosystem.Trading.PositionKeeper

namespace Trading

open Common Exchange

variable {K : Type} [Field K] [LinearOrder K]

/-- What the exact arithmetic leaves open: the square root, the logarithm term of the spread as a
function of `gamma` and `kappa`, and the cast of a quote that is no number to a price. -/
structure Platform (K : Type) where
  sqrt : K → K
  logTerm : K → K → K
  castPrice : NonFinite → ℤ

structure StrategyCfg (K : Type) where
  maker : TradeEngineCfg K
  maxLoss : K
  kappa : K
  makerRebateBps : K
  features : FeatureCfg K

def TradeEngineCfg.default : TradeEngineCfg K where
  clip := 0
  threshold := 0
  riskCfg := ⟨0, 0⟩
  useAs := false
  gamma := 1 / 10
  sessionHours := 13 / 2
  useOfi := false
  betaOfi := 0
  hysteresisTicks := 0
  useAdaptiveClip := false
  sigmaRef := 1
  spreadWidenOfi := 0
  useKillswitch := false
  killswitchOfi := 0
  killswitchMicroTicks := 0
  useRegimeGamma := false
  regimeGammaScale := 1
  useVpin := false
  vpinThreshold := 46 / 100
  vpinWidenMult := 2
  vpinKillScale := 1 / 2

def StrategyCfg.default : StrategyCfg K := ⟨.default, 0, 3 / 2, 0, .default⟩

def Market.at (m : Market K) (elapsedNs : K) : Market K := { m with elapsedNs := elapsedNs }

namespace MarketMaker

def killsNonFinite (cfg : TradeEngineCfg K) (m : Market K) (fair : NonFinite) : Bool :=
  let killOfiEff := if vpinToxic cfg m then cfg.killswitchOfi * cfg.vpinKillScale
    else cfg.killswitchOfi
  cfg.useKillswitch && (decide (killOfiEff < |m.ofi|) || decide (fair ≠ .nan))

variable [FloorRing K]

/-- `onOrderBookUpdate` under a fair price that is no number: comparisons with a NaN are false, an
infinite one is at any distance from the touch, and the quotes of the AS branch are casts. -/
def onNonFinite (P : Platform K) (cfg : TradeEngineCfg K) (m : Market K) (fair : NonFinite)
    (position : ℤ) : Reaction :=
  if m.bidPrice = priceInvalid ∨ m.askPrice = priceInvalid then .none
  else if killsNonFinite cfg m fair then .pull
  else
    let bid := P.castPrice fair
    let ask := P.castPrice fair
    match asReady cfg m with
    | some _ => .quote (if m.askPrice ≤ bid then m.askPrice - 1 else bid)
        (if ask ≤ m.bidPrice then m.bidPrice + 1 else ask) (clip cfg m position)
    | none => .quote (m.bidPrice - if fair = .posInf then 0 else 1)
        (m.askPrice + if fair = .negInf then 0 else 1) (clip cfg m position)

end MarketMaker

def TradeEngine.perform (e : TradeEngine) (tickerId : ℕ) (lossTooLarge : Bool) :
    Reaction → Outcome (TradeEngine × List MEClientRequest)
  | .none => pure (e, [])
  | .pull => e.cancelOrders tickerId
  | .quote bidPrice askPrice clip => e.moveOrders tickerId bidPrice askPrice clip lossTooLarge

theorem TradeEngine.perform_onOrderBookUpdate [FloorRing K] (e : TradeEngine)
    (cfg : ℕ → TradeEngineCfg K) (tickerId : ℕ) (m : Market K) (lossTooLarge : Bool) :
    e.onOrderBookUpdate cfg tickerId m lossTooLarge = e.perform tickerId lossTooLarge
      (MarketMaker.onOrderBookUpdate (cfg tickerId) m (e.positions tickerId).position) := by
  unfold TradeEngine.onOrderBookUpdate
  cases MarketMaker.onOrderBookUpdate (cfg tickerId) m (e.positions tickerId).position <;> rfl

structure BookCalls (B : Type) where
  onMarketUpdate : B → MEMarketUpdate → Outcome (B × Callback)
  getBBO : B → BBO
  callback : ∀ {b u b' c}, onMarketUpdate b u = .ok (b', c) → c =
    if u.type = .trade then .onTradeUpdate u else .onOrderBookUpdate u.tickerId u.price u.side

def MarketOrderBook.calls : BookCalls MarketOrderBook where
  onMarketUpdate := MarketOrderBook.onMarketUpdate
  getBBO := MarketOrderBook.bbo
  callback := by
    intro b u b' c h
    obtain ⟨_, -, h⟩ := bind_eq_ok.mp h
    obtain ⟨_, -, h⟩ := bind_eq_ok.mp h
    split_ifs at h ⊢ with ht
    · cases h
      rfl
    · obtain ⟨_, -, h⟩ := bind_eq_ok.mp h
      obtain ⟨_, -, h⟩ := bind_eq_ok.mp h
      cases h
      rfl

/-- The `TradeEngine` with all it holds. `ticks` counts the calls of `onOrderBookUpdate`; the n-th
of them reads the clock at `clock n`, the constructor at `clock 0`. -/
structure Strategy (K B : Type) where
  engine : TradeEngine
  pnl : ℕ → Pnl K
  features : FeatureEngine K
  books : ℕ → B
  ticks : ℕ

namespace Strategy

variable {B : Type}

def new (cfg : ℕ → StrategyCfg K) (books : ℕ → B) (openVwap : ℕ → ℕ → K) : Strategy K B where
  engine := TradeEngine.new 1 (fun t => (cfg t).maker.riskCfg) fun t => (cfg t).maker.hysteresisTicks
  pnl := fun t => Pnl.new (openVwap t)
  -- the knobs of the feature engine are those of ticker 0
  features := FeatureEngine.new (cfg 0).features
  books := books
  ticks := 0

def market (s : Strategy K B) (P : Platform K) (cfg : StrategyCfg K) (bbo : BBO) (elapsedNs : ℤ)
    (mktPrice : K) : Market K :=
  let m : Market K :=
    { bidPrice := bbo.bidPrice
      askPrice := bbo.askPrice
      mktPrice := mktPrice
      volatility := s.features.volatility
      volatilityLong := s.features.volatilityLong
      ofi := s.features.ofi
      vpin := s.features.vpin.value
      elapsedNs := elapsedNs
      logTerm := 0 }
  match m.volatility with
  | none => m
  | some sigma =>
      let gamma := MarketMaker.gamma cfg.maker m sigma
      { m with logTerm := P.logTerm gamma (max (1 / 10 ^ 6) cfg.kappa) }

theorem market_at (s : Strategy K B) (P : Platform K) (cfg : StrategyCfg K) (bbo : BBO)
    (elapsedNs : ℤ) (x : K) :
    s.market P cfg bbo elapsedNs x = (s.market P cfg bbo 0 x).at elapsedNs := by
  unfold market
  dsimp only
  cases s.features.volatility <;> rfl

theorem market_touch (s : Strategy K B) (P : Platform K) (cfg : StrategyCfg K) (bbo : BBO)
    (elapsedNs : ℤ) (x : K) : (s.market P cfg bbo elapsedNs x).bidPrice = bbo.bidPrice ∧
      (s.market P cfg bbo elapsedNs x).askPrice = bbo.askPrice ∧
      (s.market P cfg bbo elapsedNs x).volatility = s.features.volatility := by
  unfold market
  dsimp only
  cases s.features.volatility <;> exact ⟨rfl, rfl, rfl⟩

variable [FloorRing K]

def reaction (s : Strategy K B) (P : Platform K) (cfg : StrategyCfg K) (bbo : BBO)
    (elapsedNs position : ℤ) : Reaction :=
  match s.features.mktPrice with
  | .num x => MarketMaker.onOrderBookUpdate cfg.maker (s.market P cfg bbo elapsedNs x) position
  | .nonFinite fair =>
      MarketMaker.onNonFinite P cfg.maker (s.market P cfg bbo elapsedNs 0) fair position

variable (P : Platform K) (clock : ℕ → ℤ) (cfg : ℕ → StrategyCfg K) (book : BookCalls B)

def kills (s : Strategy K B) (P : Platform K) (cfg : StrategyCfg K) (bbo : BBO) : Bool :=
  match s.features.mktPrice with
  | .num x => MarketMaker.kills cfg.maker (s.market P cfg bbo 0 x)
  | .nonFinite fair => MarketMaker.killsNonFinite cfg.maker (s.market P cfg bbo 0 0) fair

/-- The adaptive clip of a quote is in the range of a `Qty` when it is cast to one. -/
def QuoteFits (s : Strategy K B) (P : Platform K) (cfg : StrategyCfg K) (bbo : BBO)
    (position : ℤ) : Prop :=
  bbo.bidPrice ≠ priceInvalid → bbo.askPrice ≠ priceInvalid → s.kills P cfg bbo = false →
    cfg.maker.useAdaptiveClip → 0 < cfg.maker.riskCfg.maxPosition →
    ∀ sigma ∈ MarketMaker.asReady cfg.maker (s.market P cfg bbo 0 0),
      MarketMaker.scaledClip cfg.maker position sigma < 2 ^ 32

def observe (s : Strategy K B) (tickerId : ℕ) : Strategy K B :=
  let bbo := book.getBBO (s.books tickerId)
  let position := (s.engine.positions tickerId).position
  { s with
    pnl := Function.update s.pnl tickerId ((s.pnl tickerId).updateBBO position bbo)
    features := s.features.onOrderBookUpdate P.sqrt bbo
    ticks := s.ticks + 1 }

def observed (s : Strategy K B) (tickerId : ℕ) (b : B) : Strategy K B :=
  ({ s with books := Function.update s.books tickerId b } : Strategy K B).observe P book tickerId

def onOrderBookUpdate (s : Strategy K B) (tickerId : ℕ) :
    Outcome (Strategy K B × List MEClientRequest) := do
  let s := s.observe P book tickerId
  let (engine, reqs) ← s.engine.perform tickerId
    (decide ((s.pnl tickerId).totalPnl < (cfg tickerId).maxLoss))
    (s.reaction P (cfg tickerId) (book.getBBO (s.books tickerId)) (clock s.ticks - clock 0)
      (s.engine.positions tickerId).position)
  pure ({ s with engine := engine }, reqs)

def ClipFits (s : Strategy K B) (u : MEMarketUpdate) : Prop :=
  u.type ≠ .trade → ∀ b c, book.onMarketUpdate (s.books u.tickerId) u = .ok (b, c) →
    (s.observed P book u.tickerId b).QuoteFits P (cfg u.tickerId) (book.getBBO b)
      (s.engine.positions u.tickerId).position

def onTradeUpdate (s : Strategy K B) (u : MEMarketUpdate) : Strategy K B :=
  { s with features := s.features.onTradeUpdate u }

def onMarketUpdate (s : Strategy K B) (u : MEMarketUpdate) :
    Outcome (Strategy K B × List MEClientRequest) := do
  require (u.tickerId < meMaxTickers) .outOfRange
  let (b, c) ← book.onMarketUpdate (s.books u.tickerId) u
  let s := { s with books := Function.update s.books u.tickerId b }
  match c with
  | .onTradeUpdate u => pure (s.onTradeUpdate u, [])
  | .onOrderBookUpdate tickerId _ _ => s.onOrderBookUpdate P clock cfg book tickerId

def onOrderUpdate (s : Strategy K B) (r : MEClientResponse) : Outcome (Strategy K B) := do
  let engine ← s.engine.onOrderUpdate r
  pure { s with
    engine := engine
    pnl :=
      if r.type = .filled then
        Function.update s.pnl r.tickerId ((s.pnl r.tickerId).addFill (cfg r.tickerId).makerRebateBps
          (s.engine.positions r.tickerId).position (engine.positions r.tickerId).position r)
      else s.pnl }

def getBBO (s : Strategy K B) (tickerId : ℕ) : Outcome BBO := do
  require (tickerId < meMaxTickers) .outOfRange
  pure (book.getBBO (s.books tickerId))

end Strategy

end Trading

namespace Backtest

open Common Exchange Trading

variable {K B : Type} [Field K] [LinearOrder K]

/-- Only the configured ticker gets the configuration of the run. -/
def tickerCfg (tickerId : ℕ) (cfg : StrategyCfg K) : ℕ → StrategyCfg K :=
  Function.update (fun _ => .default) tickerId cfg

def strategyCalls [FloorRing K] (P : Platform K) (clock : ℕ → ℤ) (tickerId : ℕ)
    (cfg : StrategyCfg K) (book : BookCalls B) : EngineCalls (Strategy K B) where
  onMarketUpdate := Strategy.onMarketUpdate P clock (tickerCfg tickerId cfg) book
  getBBO := Strategy.getBBO book
  onOrderUpdate := Strategy.onOrderUpdate (tickerCfg tickerId cfg)

def backtest (tickerId : ℕ) (cfg : StrategyCfg K) (books : ℕ → B) (openVwap : ℕ → ℕ → K) :
    BacktestEngine (Strategy K B) :=
  BacktestEngine.new tickerId (Strategy.new (tickerCfg tickerId cfg) books openVwap)

end Backtest
