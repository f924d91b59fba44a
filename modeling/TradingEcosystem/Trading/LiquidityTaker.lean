import TradingEcosystem.Backtest.Strategy
import TradingEcosystem.Trading.ClientBook

namespace Trading

open Common Exchange

inductive AlgoType where
  | invalid
  | random
  | maker
  | taker
  | max
  deriving DecidableEq, Repr

variable {K : Type} [Field K] [LinearOrder K]

def Quotient.reaches (threshold : K) : Quotient K → Bool
  | .num x => decide (threshold ≤ x)
  | .nonFinite x => decide (x = .posInf)

namespace LiquidityTaker

def onTradeUpdate (cfg : TradeEngineCfg K) (bbo : BBO) (aggQtyRatio : Quotient K)
    (u : MEMarketUpdate) : Reaction :=
  -- the third test of the source compares the ratio with a NaN, from which everything differs
  if bbo.bidPrice = priceInvalid ∨ bbo.askPrice = priceInvalid then .none
  else if aggQtyRatio.reaches cfg.threshold then
    if u.side = .buy then .quote bbo.askPrice priceInvalid cfg.clip
    else .quote priceInvalid bbo.bidPrice cfg.clip
  else .none

end LiquidityTaker

/-- The `TradeEngine` under the algorithm its constructor was given. `aggTradeQtyRatio` is the
feature that only the taker reads. -/
structure AlgoEngine (K B : Type) where
  algoType : AlgoType
  strategy : Strategy K B
  aggTradeQtyRatio : Quotient K

def Strategy.addFill {B : Type} (cfg : ℕ → StrategyCfg K) (s : Strategy K B)
    (r : MEClientResponse) : Outcome (Strategy K B) := do
  if r.type = .filled then
    let engine ← s.engine.addFill r
    pure { s with
      engine := engine
      pnl := Function.update s.pnl r.tickerId
        ((s.pnl r.tickerId).addFill (cfg r.tickerId).makerRebateBps
          (s.engine.positions r.tickerId).position (engine.positions r.tickerId).position r) }
  else pure s

namespace AlgoEngine

variable {B : Type}

def new (clientId : ℕ) (algoType : AlgoType) (cfg : ℕ → StrategyCfg K) (books : ℕ → B)
    (openVwap : ℕ → ℕ → K) : AlgoEngine K B where
  algoType := algoType
  strategy := { Strategy.new cfg books openVwap with
    engine := TradeEngine.new clientId (fun t => (cfg t).maker.riskCfg)
      fun t => (cfg t).maker.hysteresisTicks }
  aggTradeQtyRatio := .nonFinite .nan

variable [FloorRing K] (P : Platform K) (clock : ℕ → ℤ) (cfg : ℕ → StrategyCfg K)
  (book : BookCalls B)

def bbo (a : AlgoEngine K B) (tickerId : ℕ) : BBO := book.getBBO (a.strategy.books tickerId)

def position (a : AlgoEngine K B) (tickerId : ℕ) : ℤ :=
  (a.strategy.engine.positions tickerId).position

def aggRatio (a : AlgoEngine K B) (u : MEMarketUpdate) : Quotient K :=
  let bbo := a.bbo book u.tickerId
  if bbo.bidPrice ≠ priceInvalid ∧ bbo.askPrice ≠ priceInvalid then
    FeatureEngine.divide u.qty (if u.side = .buy then bbo.askQty else bbo.bidQty)
  else a.aggTradeQtyRatio

def dispatchOnOrderBookUpdate (a : AlgoEngine K B) (tickerId : ℕ) : Reaction :=
  match a.algoType with
  | .maker => a.strategy.reaction P (cfg tickerId) (a.bbo book tickerId)
      (clock a.strategy.ticks - clock 0) (a.position tickerId)
  | _ => .none

def dispatchOnTradeUpdate (a : AlgoEngine K B) (u : MEMarketUpdate) : Reaction :=
  match a.algoType with
  | .taker => LiquidityTaker.onTradeUpdate (cfg u.tickerId).maker (a.bbo book u.tickerId)
      a.aggTradeQtyRatio u
  | _ => .none

def onOrderBookUpdate (a : AlgoEngine K B) (tickerId : ℕ) : AlgoEngine K B × Reaction :=
  let a := { a with strategy := a.strategy.observe P book tickerId }
  (a, a.dispatchOnOrderBookUpdate P clock cfg book tickerId)

def onTradeUpdate (a : AlgoEngine K B) (u : MEMarketUpdate) : AlgoEngine K B × Reaction :=
  let a := { a with
    strategy := a.strategy.onTradeUpdate u
    aggTradeQtyRatio := a.aggRatio book u }
  (a, a.dispatchOnTradeUpdate cfg book u)

/-- What `run` does with a market update, up to the call of `moveOrders` or `cancelOrders`. -/
def react (a : AlgoEngine K B) (u : MEMarketUpdate) : Outcome (AlgoEngine K B × Reaction) := do
  require (u.tickerId < meMaxTickers) .assertFailed
  let (b, c) ← book.onMarketUpdate (a.strategy.books u.tickerId) u
  let a := { a with
    strategy := { a.strategy with books := Function.update a.strategy.books u.tickerId b } }
  match c with
  | .onTradeUpdate u => pure (a.onTradeUpdate cfg book u)
  | .onOrderBookUpdate tickerId _ _ => pure (a.onOrderBookUpdate P clock cfg book tickerId)

def lossTooLarge (a : AlgoEngine K B) (tickerId : ℕ) : Bool :=
  decide ((a.strategy.pnl tickerId).totalPnl < (cfg tickerId).maxLoss)

def perform (a : AlgoEngine K B) (tickerId : ℕ) (r : Reaction) :
    Outcome (AlgoEngine K B × List MEClientRequest) := do
  let (engine, reqs) ← a.strategy.engine.perform tickerId (a.lossTooLarge cfg tickerId) r
  pure ({ a with strategy := { a.strategy with engine := engine } }, reqs)

def onMarketUpdate (a : AlgoEngine K B) (u : MEMarketUpdate) :
    Outcome (AlgoEngine K B × List MEClientRequest) := do
  let (a, r) ← a.react P clock cfg book u
  a.perform cfg u.tickerId r

def onOrderUpdate (a : AlgoEngine K B) (r : MEClientResponse) : Outcome (AlgoEngine K B) := do
  let s ← match a.algoType with
    | .maker | .taker => a.strategy.onOrderUpdate cfg r
    -- neither algorithm was made, and no order manager hears of the response
    | _ => a.strategy.addFill cfg r
  pure { a with strategy := s }

section Maker

variable {P clock cfg book} {a : AlgoEngine K B} {u : MEMarketUpdate}

theorem onMarketUpdate_maker (ha : a.algoType = .maker) (ht : u.tickerId < meMaxTickers) :
    (a.onMarketUpdate P clock cfg book u).map (fun r => (r.1.strategy, r.2)) =
      a.strategy.onMarketUpdate P clock cfg book u := by
  rw [onMarketUpdate, react, Strategy.onMarketUpdate, require_of _ ht, require_of _ ht]
  simp only [ok_bind]
  cases hb : book.onMarketUpdate (a.strategy.books u.tickerId) u with
  | error e => rfl
  | ok r =>
    obtain ⟨b, c⟩ := r
    have hc := book.callback hb
    split_ifs at hc with htrade
    · obtain rfl := hc
      simp only [ok_bind, pure_ok, onTradeUpdate, dispatchOnTradeUpdate, ha]
      rfl
    · obtain rfl := hc
      simp only [ok_bind, pure_ok, onOrderBookUpdate, dispatchOnOrderBookUpdate, ha, perform,
        Strategy.onOrderBookUpdate, lossTooLarge, bbo, position]
      generalize TradeEngine.perform _ _ _ _ = x
      cases x <;> rfl

end Maker

end AlgoEngine

def Reaction.Valid : Reaction → Prop
  | .quote bidPrice askPrice clip =>
      (bidPrice = priceInvalid ∨ PriceInRange bidPrice) ∧
        (askPrice = priceInvalid ∨ PriceInRange askPrice) ∧ clip < 2 ^ 32
  | _ => True

instance Reaction.decidableValid : (r : Reaction) → Decidable r.Valid
  | .none => isTrue trivial
  | .pull => isTrue trivial
  | .quote .. => inferInstanceAs (Decidable (_ ∧ _ ∧ _))

omit [Field K] in
theorem LiquidityTaker.onTradeUpdate_valid {cfg : TradeEngineCfg K} {bbo : BBO} {q : Quotient K}
    {u : MEMarketUpdate} (hbid : bbo.bidPrice = priceInvalid ∨ PriceInRange bbo.bidPrice)
    (hask : bbo.askPrice = priceInvalid ∨ PriceInRange bbo.askPrice) (hclip : cfg.clip < 2 ^ 32) :
    (onTradeUpdate cfg bbo q u).Valid := by
  unfold onTradeUpdate
  split_ifs
  · trivial
  · exact ⟨hask, .inl rfl, hclip⟩
  · exact ⟨.inl rfl, hbid, hclip⟩
  · trivial

section Touch

variable {m : MarketOrderBook} {s : Ladders MarketOrder} {side : Side}

theorem Mirrors.best_valid (h : Mirrors m s) (hs : side.IsBuyOrSell) :
    (bestLevel (s.side side)).1 = priceInvalid ∨ PriceInRange (bestLevel (s.side side)).1 := by
  obtain ⟨a, hl, rfl⟩ := h.linked
  obtain ⟨own, opp, hrep, hown, -⟩ := hl.stores.rep hs
  rw [Ladders.side_mapOrders, hown]
  cases own with
  | nil => exact .inl rfl
  | cons K own => exact .inr (hrep.inRange K (by simp))

theorem Mirrors.touch_valid (h : Mirrors m s) :
    (m.bbo.bidPrice = priceInvalid ∨ PriceInRange m.bbo.bidPrice) ∧
      (m.bbo.askPrice = priceInvalid ∨ PriceInRange m.bbo.askPrice) := by
  rw [h.bbo]
  exact ⟨h.best_valid (.inl rfl), h.best_valid (.inr rfl)⟩

end Touch

end Trading
