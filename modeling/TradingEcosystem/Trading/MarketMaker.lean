import Mathlib.Data.Rat.Floor
import TradingEcosystem.Trading.OrderManager

namespace Trading

open Common Exchange

/-- Prices and coefficients in exact arithmetic, over any ordered field with floors. -/
structure TradeEngineCfg (K : Type) where
  clip : ℕ
  threshold : K
  riskCfg : RiskCfg
  useAs : Bool
  gamma : K
  sessionHours : K
  useOfi : Bool
  betaOfi : K
  hysteresisTicks : ℤ
  useAdaptiveClip : Bool
  sigmaRef : K
  spreadWidenOfi : K
  useKillswitch : Bool
  killswitchOfi : K
  killswitchMicroTicks : K
  useRegimeGamma : Bool
  regimeGammaScale : K
  useVpin : Bool
  vpinThreshold : K
  vpinWidenMult : K
  vpinKillScale : K

/-- What `onOrderBookUpdate` reads of the book, the feature engine and the clock; a feature that is
not a number yet is `none`, and `logTerm` stands for `(2 / gamma) * log1p(gamma / kappa)`. -/
structure Market (K : Type) where
  bidPrice : ℤ
  askPrice : ℤ
  mktPrice : K
  volatility : Option K
  volatilityLong : Option K
  ofi : K
  vpin : Option K
  elapsedNs : K
  logTerm : K

inductive Reaction where
  | none
  | pull
  | quote (bidPrice askPrice : ℤ) (clip : ℕ)
  deriving DecidableEq, Repr

section Definitions

variable {K : Type} [Field K] [LinearOrder K]

def clamp (x lo hi : K) : K := if x < lo then lo else if hi < x then hi else x

namespace MarketMaker

def vpinToxic (cfg : TradeEngineCfg K) (m : Market K) : Bool :=
  cfg.useVpin && match m.vpin with
    | none => false
    | some vpin => decide (cfg.vpinThreshold < vpin)

def kills (cfg : TradeEngineCfg K) (m : Market K) : Bool :=
  let mid : K := (m.bidPrice + m.askPrice) / 2
  let killOfiEff := if vpinToxic cfg m then cfg.killswitchOfi * cfg.vpinKillScale
    else cfg.killswitchOfi
  let killMicroEff := if vpinToxic cfg m then cfg.killswitchMicroTicks * cfg.vpinKillScale
    else cfg.killswitchMicroTicks
  cfg.useKillswitch && (decide (killOfiEff < |m.ofi|) ||
    decide (killMicroEff < |m.mktPrice - mid|))

def asReady (cfg : TradeEngineCfg K) (m : Market K) : Option K :=
  if cfg.useAs then m.volatility.filter fun sigma => decide (0 < sigma) else none

def gamma (cfg : TradeEngineCfg K) (m : Market K) (sigma : K) : K :=
  if cfg.useRegimeGamma ∧ 1 < cfg.regimeGammaScale then
    match m.volatilityLong with
    | none => cfg.gamma
    | some sigmaLong =>
        if 0 < sigmaLong then
          cfg.gamma * clamp (sigma / sigmaLong) (1 / cfg.regimeGammaScale) cfg.regimeGammaScale
        else cfg.gamma
  else cfg.gamma

def tau (cfg : TradeEngineCfg K) (m : Market K) : K :=
  let sessionNs := cfg.sessionHours * 3600 * 10 ^ 9
  max (1 / 1000) ((sessionNs - m.elapsedNs) / sessionNs)

def reservation (cfg : TradeEngineCfg K) (m : Market K) (position : ℤ) (sigma : K) : K :=
  m.mktPrice - position * gamma cfg m sigma * sigma * sigma * tau cfg m +
    if cfg.useOfi then cfg.betaOfi * m.ofi else 0

def spread (cfg : TradeEngineCfg K) (m : Market K) (sigma : K) : K :=
  gamma cfg m sigma * sigma * sigma * tau cfg m + m.logTerm

def ofiNow (cfg : TradeEngineCfg K) (m : Market K) : K := if cfg.useOfi then m.ofi else 0

def widenK (cfg : TradeEngineCfg K) (m : Market K) : K :=
  if vpinToxic cfg m then cfg.spreadWidenOfi * cfg.vpinWidenMult else cfg.spreadWidenOfi

def bidWiden (cfg : TradeEngineCfg K) (m : Market K) : K := widenK cfg m * max (-ofiNow cfg m) 0

def askWiden (cfg : TradeEngineCfg K) (m : Market K) : K := widenK cfg m * max (ofiNow cfg m) 0

def asBid (cfg : TradeEngineCfg K) (m : Market K) (position : ℤ) (sigma : K) : K :=
  reservation cfg m position sigma - spread cfg m sigma / 2 - bidWiden cfg m

def asAsk (cfg : TradeEngineCfg K) (m : Market K) (position : ℤ) (sigma : K) : K :=
  reservation cfg m position sigma + spread cfg m sigma / 2 + askWiden cfg m

def bidStep (cfg : TradeEngineCfg K) (m : Market K) : ℤ :=
  if cfg.threshold ≤ m.mktPrice - m.bidPrice then 0 else 1

def askStep (cfg : TradeEngineCfg K) (m : Market K) : ℤ :=
  if cfg.threshold ≤ m.askPrice - m.mktPrice then 0 else 1

variable [FloorRing K]

def bidPrice (cfg : TradeEngineCfg K) (m : Market K) (position : ℤ) : ℤ :=
  match asReady cfg m with
  | some sigma =>
      let bid := ⌊asBid cfg m position sigma⌋
      if m.askPrice ≤ bid then m.askPrice - 1 else bid
  | none => m.bidPrice - bidStep cfg m

def askPrice (cfg : TradeEngineCfg K) (m : Market K) (position : ℤ) : ℤ :=
  match asReady cfg m with
  | some sigma =>
      let ask := ⌈asAsk cfg m position sigma⌉
      if ask ≤ m.bidPrice then m.bidPrice + 1 else ask
  | none => m.askPrice + askStep cfg m

def scaledClip (cfg : TradeEngineCfg K) (position : ℤ) (sigma : K) : ℤ :=
  let invRoom : K := max 0 (1 - |(position : K)| / cfg.riskCfg.maxPosition)
  let sigmaScale := clamp (cfg.sigmaRef / sigma) (1 / 2) (3 / 2)
  -- std::round of a number that is not negative
  max 1 ⌊cfg.clip * invRoom * sigmaScale + 1 / 2⌋

def clip (cfg : TradeEngineCfg K) (m : Market K) (position : ℤ) : ℕ :=
  match asReady cfg m with
  | some sigma =>
      if cfg.useAdaptiveClip ∧ 0 < cfg.riskCfg.maxPosition then
        -- the cast to a Qty keeps the low 32 bits
        (scaledClip cfg position sigma).toNat % 2 ^ 32
      else cfg.clip
  | none => cfg.clip

def onOrderBookUpdate (cfg : TradeEngineCfg K) (m : Market K) (position : ℤ) : Reaction :=
  if m.bidPrice = priceInvalid ∨ m.askPrice = priceInvalid then .none
  else if kills cfg m then .pull
  else .quote (bidPrice cfg m position) (askPrice cfg m position) (clip cfg m position)

end MarketMaker

def TradeEngine.onOrderBookUpdate (e : TradeEngine) (cfg : ℕ → TradeEngineCfg K) (tickerId : ℕ)
    (m : Market K) (lossTooLarge : Bool) [FloorRing K] :
    Outcome (TradeEngine × List MEClientRequest) :=
  match MarketMaker.onOrderBookUpdate (cfg tickerId) m (e.positions tickerId).position with
  | .none => pure (e, [])
  | .pull => e.cancelOrders tickerId
  | .quote bidPrice askPrice clip => e.moveOrders tickerId bidPrice askPrice clip lossTooLarge

end Definitions

structure TradeEngineCfg.Proper {K : Type} [Field K] [LinearOrder K] (cfg : TradeEngineCfg K) :
    Prop where
  gamma : 0 ≤ cfg.gamma
  spreadWidenOfi : 0 ≤ cfg.spreadWidenOfi
  vpinWidenMult : 0 ≤ cfg.vpinWidenMult

namespace MarketMaker

section Ready

variable {K : Type} [Field K] [LinearOrder K] {cfg : TradeEngineCfg K} {m : Market K} {sigma : K}

theorem sigma_pos (h : asReady cfg m = some sigma) : 0 < sigma := by
  unfold asReady at h
  split_ifs at h
  exact of_decide_eq_true (Option.filter_eq_some_iff.mp h).2

theorem useAs_of_asReady (h : asReady cfg m = some sigma) : cfg.useAs = true := by
  unfold asReady at h
  split_ifs at h with huse
  exact huse

theorem clamp_nonneg {x lo hi : K} (hx : 0 ≤ x) (hlo : 0 ≤ lo) (hhi : 0 ≤ hi) :
    0 ≤ clamp x lo hi := by
  unfold clamp
  split_ifs <;> assumption

end Ready

section Rounding

variable {K : Type} [Field K] [LinearOrder K] [FloorRing K] {cfg : TradeEngineCfg K} {m : Market K}
  {position p : ℤ}

def AskAbove (cfg : TradeEngineCfg K) (m : Market K) (position p : ℤ) : Prop :=
  match asReady cfg m with
  | some sigma => p ≤ m.bidPrice ∨ (p : K) < asAsk cfg m position sigma
  | none => p < m.askPrice + askStep cfg m

def BidBelow (cfg : TradeEngineCfg K) (m : Market K) (position p : ℤ) : Prop :=
  match asReady cfg m with
  | some sigma => m.askPrice ≤ p ∨ asBid cfg m position sigma < (p : K)
  | none => m.bidPrice - bidStep cfg m < p

theorem lt_askPrice_iff : p < askPrice cfg m position ↔ AskAbove cfg m position p := by
  unfold askPrice AskAbove
  cases asReady cfg m with
  | none => rfl
  | some sigma =>
    dsimp only
    rw [← Int.lt_ceil]
    split_ifs <;> omega

theorem bidPrice_lt_iff : bidPrice cfg m position < p ↔ BidBelow cfg m position p := by
  unfold bidPrice BidBelow
  cases asReady cfg m with
  | none => rfl
  | some sigma =>
    dsimp only
    rw [← Int.floor_lt]
    split_ifs <;> omega

instance : Decidable (AskAbove cfg m position p) := decidable_of_iff _ lt_askPrice_iff

instance : Decidable (BidBelow cfg m position p) := decidable_of_iff _ bidPrice_lt_iff

end Rounding

section Spread

variable {K : Type} [Field K] [LinearOrder K] [IsStrictOrderedRing K] {cfg : TradeEngineCfg K}
  {m : Market K} {position : ℤ} {sigma : K}

theorem gamma_nonneg (hcfg : cfg.Proper) (h : 0 < sigma) : 0 ≤ gamma cfg m sigma := by
  unfold gamma
  split_ifs with hregime
  · have hscale : 0 ≤ cfg.regimeGammaScale := zero_le_one.trans hregime.2.le
    cases m.volatilityLong with
    | none => exact hcfg.gamma
    | some sigmaLong =>
      dsimp only
      split_ifs with hlong
      · exact mul_nonneg hcfg.gamma (clamp_nonneg (div_pos h hlong).le
          (one_div_nonneg.mpr hscale) hscale)
      · exact hcfg.gamma
  · exact hcfg.gamma

theorem tau_pos (cfg : TradeEngineCfg K) (m : Market K) : 0 < tau cfg m :=
  (one_div_pos.mpr (by norm_num)).trans_le (le_max_left _ _)

theorem spread_pos (hcfg : cfg.Proper) (hlog : 0 < m.logTerm) (h : 0 < sigma) :
    0 < spread cfg m sigma := by
  have hrisk : 0 ≤ gamma cfg m sigma * sigma * sigma * tau cfg m :=
    mul_nonneg (mul_nonneg (mul_nonneg (gamma_nonneg hcfg h) h.le) h.le) (tau_pos cfg m).le
  exact add_pos_of_nonneg_of_pos hrisk hlog

theorem widenK_nonneg (hcfg : cfg.Proper) : 0 ≤ widenK cfg m := by
  unfold widenK
  split_ifs
  · exact mul_nonneg hcfg.spreadWidenOfi hcfg.vpinWidenMult
  · exact hcfg.spreadWidenOfi

theorem asBid_lt_asAsk (hcfg : cfg.Proper) (hlog : 0 < m.logTerm) (h : 0 < sigma) :
    asBid cfg m position sigma < asAsk cfg m position sigma := by
  have hspread := spread_pos hcfg hlog h
  have hbid : 0 ≤ bidWiden cfg m := mul_nonneg (widenK_nonneg hcfg) (le_max_right _ _)
  have hask : 0 ≤ askWiden cfg m := mul_nonneg (widenK_nonneg hcfg) (le_max_right _ _)
  unfold asBid asAsk
  linarith

theorem bidPrice_lt_askPrice [FloorRing K] (hcfg : cfg.useAs = true → cfg.Proper)
    (hlog : 0 < m.logTerm) (hbbo : m.bidPrice < m.askPrice) :
    bidPrice cfg m position < askPrice cfg m position := by
  unfold bidPrice askPrice
  cases hready : asReady cfg m with
  | none =>
    dsimp only
    unfold bidStep askStep
    split_ifs <;> omega
  | some sigma =>
    have hlt : ⌊asBid cfg m position sigma⌋ < ⌈asAsk cfg m position sigma⌉ :=
      Int.floor_lt_ceil_of_lt
        (asBid_lt_asAsk (hcfg (useAs_of_asReady hready)) hlog (sigma_pos hready))
    dsimp only
    split_ifs <;> omega

end Spread

end MarketMaker

end Trading
