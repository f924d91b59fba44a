import Mathlib.Algebra.Order.Floor.Semiring
import TradingEcosystem.Trading.MarketOrderBook
import TradingEcosystem.Trading.MarketMaker

namespace Trading

open Common Exchange

def kVpinWindow : ℕ := 50

structure Vpin (kWindow : ℕ) (K : Type) where
  bucketSize : K
  curBuy : K
  curSell : K
  curFilled : K
  imbalances : ℕ → K
  head : ℕ
  bucketsSeen : ℕ

namespace Vpin

variable {kWindow : ℕ} {K : Type} [Field K] [LinearOrder K]

def new (bucketSize : K) : Vpin kWindow K := ⟨bucketSize, 0, 0, 0, fun _ => 0, 0, 0⟩

def closeBucket (v : Vpin kWindow K) : Vpin kWindow K :=
  { v with
    imbalances := Function.update v.imbalances v.head
      (if 0 < v.bucketSize then |v.curBuy - v.curSell| / v.bucketSize else 0)
    head := (v.head + 1) % kWindow
    bucketsSeen := if v.bucketsSeen < kWindow * 2 then v.bucketsSeen + 1 else v.bucketsSeen
    curBuy := 0
    curSell := 0
    curFilled := 0 }

def take (v : Vpin kWindow K) (isBuyerInitiated : Bool) (qty : K) : Vpin kWindow K :=
  let v := { v with
    curBuy := if isBuyerInitiated then v.curBuy + qty else v.curBuy
    curSell := if isBuyerInitiated then v.curSell else v.curSell + qty
    curFilled := v.curFilled + qty }
  if v.bucketSize ≤ v.curFilled then v.closeBucket else v

def fill (isBuyerInitiated : Bool) : ℕ → Vpin kWindow K → K → Vpin kWindow K × K
  | 0, v, remaining => (v, remaining)
  | fuel + 1, v, remaining =>
      if 0 < remaining then
        let qty := min (v.bucketSize - v.curFilled) remaining
        fill isBuyerInitiated fuel (v.take isBuyerInitiated qty) (remaining - qty)
      else (v, remaining)

def onTrade [FloorRing K] (v : Vpin kWindow K) (qty : K) (isBuyerInitiated : Bool) : Vpin kWindow K :=
  if v.bucketSize ≤ 0 then v
  else (fill isBuyerInitiated (⌈qty / v.bucketSize⌉.toNat + 1) v qty).1

def value (v : Vpin kWindow K) : Option K :=
  if v.bucketsSeen < kWindow then none
  else some (((List.range kWindow).map v.imbalances).sum / kWindow)

end Vpin

structure FeatureCfg (K : Type) where
  ewmaDecay : K
  ewmaDecayLong : K
  volBootstrap : ℕ
  useStoikovMicro : Bool
  ofiDecay : K
  useVpin : Bool
  vpinBucketSize : K

def FeatureCfg.default {K : Type} [Field K] : FeatureCfg K :=
  ⟨94 / 100, 985 / 1000, 50, false, 9 / 10, false, 0⟩

inductive NonFinite where
  | nan
  | posInf
  | negInf
  deriving DecidableEq, Repr

inductive Quotient (K : Type) where
  | num (x : K)
  | nonFinite (x : NonFinite)

/-- A feature that is no number yet is `none`; the trade quantity ratio, which the maker never
reads, is left out. -/
structure FeatureEngine (K : Type) where
  cfg : FeatureCfg K
  mktPrice : Quotient K
  prevMid : Option K
  ewmaVariance : K
  ewmaVarianceLong : K
  volatility : Option K
  volatilityLong : Option K
  volSamples : ℕ
  prevBbo : BBO
  ofi : K
  vpin : Vpin kVpinWindow K

namespace FeatureEngine

variable {K : Type} [Field K] [LinearOrder K]

def new (cfg : FeatureCfg K) : FeatureEngine K where
  cfg := cfg
  mktPrice := .nonFinite .nan
  prevMid := none
  ewmaVariance := 0
  ewmaVarianceLong := 0
  volatility := none
  volatilityLong := none
  volSamples := 0
  prevBbo := BBO.default
  ofi := 0
  vpin := Vpin.new (if cfg.useVpin ∧ 0 < cfg.vpinBucketSize then cfg.vpinBucketSize else 0)

def mid (bbo : BBO) : K := (bbo.bidPrice + bbo.askPrice) / 2

def divide (x : ℤ) (y : ℕ) : Quotient K :=
  if y = 0 then .nonFinite (if x = 0 then .nan else if 0 < x then .posInf else .negInf)
  else .num ((x : K) / y)

def microPrice (cfg : FeatureCfg K) (bbo : BBO) : Quotient K :=
  -- the sum of the two sizes is a 32-bit one
  let totalQ : ℕ := (bbo.bidQty + bbo.askQty) % 2 ^ 32
  if cfg.useStoikovMicro then
    let imb : K := if 0 < totalQ then ((bbo.bidQty : K) - bbo.askQty) / totalQ else 0
    .num (mid bbo + (bbo.askPrice - bbo.bidPrice) / 2 * imb)
  else divide (bbo.bidPrice * bbo.askQty + bbo.askPrice * bbo.bidQty) totalQ

def microPriceInt64 (cfg : FeatureCfg K) (bbo : BBO) : Outcome (Quotient K) := do
  let totalQ : ℕ := (bbo.bidQty + bbo.askQty) % 2 ^ 32
  if cfg.useStoikovMicro then do
    let sum ← int64 (bbo.bidPrice + bbo.askPrice)
    let spread ← int64 (bbo.askPrice - bbo.bidPrice)
    let imb : K := if 0 < totalQ then ((bbo.bidQty : K) - bbo.askQty) / totalQ else 0
    pure (.num ((sum : K) / 2 + (spread : K) / 2 * imb))
  else do
    let bidTerm ← int64 (bbo.bidPrice * bbo.askQty)
    let askTerm ← int64 (bbo.askPrice * bbo.bidQty)
    let sum ← int64 (bidTerm + askTerm)
    pure (divide sum totalQ)

def root (sqrt : K → K) (variance : K) : Option K :=
  if variance < 0 then none else some (sqrt variance)

def updateVolatility (f : FeatureEngine K) (sqrt : K → K) (bbo : BBO) : FeatureEngine K :=
  match f.prevMid with
  | none => { f with prevMid := some (mid bbo) }
  | some prevMid =>
      let ret := mid bbo - prevMid
      let ewmaVariance := f.cfg.ewmaDecay * f.ewmaVariance + (1 - f.cfg.ewmaDecay) * ret * ret
      let ewmaVarianceLong :=
        f.cfg.ewmaDecayLong * f.ewmaVarianceLong + (1 - f.cfg.ewmaDecayLong) * ret * ret
      let ready := f.cfg.volBootstrap ≤ f.volSamples + 1
      { f with
        ewmaVariance := ewmaVariance
        ewmaVarianceLong := ewmaVarianceLong
        volSamples := f.volSamples + 1
        volatility := if ready then root sqrt ewmaVariance else f.volatility
        volatilityLong := if ready then root sqrt ewmaVarianceLong else f.volatilityLong
        prevMid := some (mid bbo) }

/-- The signed contribution of a side whose best went from `prev` to `cur`; `improved` says whether
the price got better. -/
def flow (improved : Bool) (cur prev : ℤ) (qty prevQty : ℕ) : K :=
  if improved then qty else if cur = prev then (qty : K) - prevQty else -prevQty

def updateOfi (f : FeatureEngine K) (bbo : BBO) : FeatureEngine K :=
  let prev := f.prevBbo
  let f :=
    if prev.bidPrice ≠ priceInvalid ∧ prev.askPrice ≠ priceInvalid then
      let eBid : K := flow (decide (prev.bidPrice < bbo.bidPrice)) bbo.bidPrice prev.bidPrice
        bbo.bidQty prev.bidQty
      let eAsk : K := flow (decide (bbo.askPrice < prev.askPrice)) bbo.askPrice prev.askPrice
        bbo.askQty prev.askQty
      { f with ofi := f.cfg.ofiDecay * f.ofi + (1 - f.cfg.ofiDecay) * (eBid - eAsk) }
    else f
  { f with prevBbo := bbo }

def onOrderBookUpdate (f : FeatureEngine K) (sqrt : K → K) (bbo : BBO) : FeatureEngine K :=
  if bbo.bidPrice ≠ priceInvalid ∧ bbo.askPrice ≠ priceInvalid then
    ({ f with mktPrice := microPrice f.cfg bbo }.updateVolatility sqrt bbo).updateOfi bbo
  else f

def onOrderBookUpdateInt64 (f : FeatureEngine K) (sqrt : K → K) (bbo : BBO) :
    Outcome (FeatureEngine K) :=
  if bbo.bidPrice ≠ priceInvalid ∧ bbo.askPrice ≠ priceInvalid then do
    let mktPrice ← microPriceInt64 f.cfg bbo
    let _ ← int64 (bbo.bidPrice + bbo.askPrice)
    pure (({ f with mktPrice := mktPrice }.updateVolatility sqrt bbo).updateOfi bbo)
  else pure f

def onTradeUpdate [FloorRing K] (f : FeatureEngine K) (u : MEMarketUpdate) : FeatureEngine K :=
  if f.cfg.useVpin then { f with vpin := f.vpin.onTrade u.qty (u.side = .buy) } else f

end FeatureEngine

namespace Vpin

variable {kWindow : ℕ} {K : Type} [Field K] [LinearOrder K] [IsStrictOrderedRing K]
  {v : Vpin kWindow K}

omit [IsStrictOrderedRing K] in
@[simp] theorem bucketSize_take (v : Vpin kWindow K) (buyer : Bool) (qty : K) :
    (v.take buyer qty).bucketSize = v.bucketSize := by
  unfold take
  dsimp only
  split_ifs <;> rfl

omit [IsStrictOrderedRing K] in
theorem curFilled_take (v : Vpin kWindow K) (buyer : Bool) (qty : K) :
    (v.take buyer qty).curFilled =
      if v.bucketSize ≤ v.curFilled + qty then 0 else v.curFilled + qty := by
  unfold take
  dsimp only
  split_ifs <;> rfl

theorem fill_drains (buyer : Bool) (n : ℕ) {remaining : K} (hv : v.curFilled < v.bucketSize)
    (h0 : 0 ≤ v.curFilled) (h : remaining ≤ n * v.bucketSize + (v.bucketSize - v.curFilled)) :
    (fill buyer (n + 1) v remaining).2 ≤ 0 := by
  have hpos : 0 < v.bucketSize := h0.trans_lt hv
  induction n generalizing v remaining with
  | zero =>
    simp only [fill, Nat.cast_zero, zero_mul, zero_add] at h ⊢
    split_ifs with hr
    · rw [min_eq_right h, sub_self]
    · exact not_lt.mp hr
  | succ n ih =>
    rw [fill]
    split_ifs with hr
    · set qty := min (v.bucketSize - v.curFilled) remaining with hqty
      have hq : 0 ≤ qty := le_min (sub_pos.mpr hv).le hr.le
      have hlt : (v.take buyer qty).curFilled < v.bucketSize := by
        rw [curFilled_take]
        split_ifs with hfull
        · exact hpos
        · exact not_le.mp hfull
      have hnn : 0 ≤ (v.take buyer qty).curFilled := by
        rw [curFilled_take]
        split_ifs
        · exact le_rfl
        · exact add_nonneg h0 hq
      refine ih (by simpa using hlt) hnn ?_ (by simpa using hpos)
      rw [bucketSize_take]
      rcases le_total (v.bucketSize - v.curFilled) remaining with hle | hle
      -- either the bucket is closed, or nothing remains
      · have hq' : qty = v.bucketSize - v.curFilled := min_eq_left hle
        rw [curFilled_take, if_pos (by rw [hq']; linarith), hq']
        push_cast at h
        linarith
      · have hn : (0 : K) ≤ n * v.bucketSize := mul_nonneg (Nat.cast_nonneg n) hpos.le
        have hq' : qty = remaining := min_eq_right hle
        rw [hq', sub_self, ← hq']
        linarith
    · exact not_lt.mp hr

/-- The fuel of `onTrade` covers every turn the loop of the source makes. -/
theorem onTrade_drains [FloorRing K] (hv : v.curFilled < v.bucketSize) (h0 : 0 ≤ v.curFilled)
    (buyer : Bool) (qty : K) :
    (fill buyer (⌈qty / v.bucketSize⌉.toNat + 1) v qty).2 ≤ 0 := by
  have hpos : 0 < v.bucketSize := h0.trans_lt hv
  refine fill_drains buyer _ hv h0 ?_
  have hceil : qty / v.bucketSize ≤ (⌈qty / v.bucketSize⌉.toNat : K) := by
    refine (Int.le_ceil _).trans ?_
    exact_mod_cast Int.self_le_toNat _
  have hqty : qty ≤ ⌈qty / v.bucketSize⌉.toNat * v.bucketSize := (div_le_iff₀ hpos).mp hceil
  linarith

end Vpin

end Trading
