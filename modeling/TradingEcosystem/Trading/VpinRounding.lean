import TradingEcosystem.Backtest.Strategy
import TradingEcosystem.Library.Rounding
import TradingEcosystem.Trading.VolumeBuckets

namespace Trading

open Common Exchange Rounding

namespace Vpin

variable {kWindow : ℕ} {K : Type} [Field K] [LinearOrder K]

def takeRounded (fl : K → K) (v : Vpin kWindow K) (isBuyerInitiated : Bool) (qty : K) :
    Vpin kWindow K :=
  let v := { v with
    curBuy := if isBuyerInitiated then fl (v.curBuy + qty) else v.curBuy
    curSell := if isBuyerInitiated then v.curSell else fl (v.curSell + qty)
    curFilled := fl (v.curFilled + qty) }
  if v.bucketSize ≤ v.curFilled then
    { v.closeBucket with
      imbalances := Function.update v.imbalances v.head
        (fl (|fl (v.curBuy - v.curSell)| / v.bucketSize)) }
  else v

/-- The loop of `onTrade` on doubles, run to its end: `fl` rounds the result of each operation. -/
inductive FillsRounded (fl : K → K) (isBuyerInitiated : Bool) :
    Vpin kWindow K → K → Vpin kWindow K → Prop
  | done {v remaining} : ¬ 0 < remaining → FillsRounded fl isBuyerInitiated v remaining v
  | turn {v w remaining} : 0 < remaining →
      FillsRounded fl isBuyerInitiated
        (v.takeRounded fl isBuyerInitiated (min (fl (v.bucketSize - v.curFilled)) remaining))
        (fl (remaining - min (fl (v.bucketSize - v.curFilled)) remaining)) w →
      FillsRounded fl isBuyerInitiated v remaining w

structure Counts (size buy sell : ℕ) (v : Vpin kWindow K) : Prop where
  bucketSize : v.bucketSize = size
  curBuy : v.curBuy = buy
  curSell : v.curSell = sell
  curFilled : v.curFilled = (buy + sell : ℕ)
  room : buy + sell < size

def Whole (limit : ℕ) (v : Vpin kWindow K) : Prop :=
  ∃ size buy sell : ℕ, size < limit ∧ v.Counts size buy sell

def SameCounts (v w : Vpin kWindow K) : Prop :=
  v.bucketSize = w.bucketSize ∧ v.curBuy = w.curBuy ∧ v.curSell = w.curSell ∧
    v.curFilled = w.curFilled

variable {v w : Vpin kWindow K} {fl : K → K} {limit size buy sell qty : ℕ}
  {buyer : Bool}

omit [LinearOrder K] in
theorem Counts.congr (h : v.Counts size buy sell) (hs : SameCounts w v) :
    w.Counts size buy sell :=
  ⟨hs.1.trans h.bucketSize, hs.2.1.trans h.curBuy, hs.2.2.1.trans h.curSell,
    hs.2.2.2.trans h.curFilled, h.room⟩

omit [LinearOrder K] in
theorem Counts.same (h : v.Counts size buy sell) (h' : w.Counts size buy sell) :
    SameCounts v w :=
  ⟨h.bucketSize.trans h'.bucketSize.symm, h.curBuy.trans h'.curBuy.symm,
    h.curSell.trans h'.curSell.symm, h.curFilled.trans h'.curFilled.symm⟩

omit [LinearOrder K] in
theorem Counts.room_eq (h : v.Counts size buy sell) :
    v.bucketSize - v.curFilled = (size - (buy + sell) : ℕ) := by
  rw [h.bucketSize, h.curFilled, Nat.cast_sub h.room.le]

def nextCounts (size buy sell : ℕ) (buyer : Bool) (qty : ℕ) : ℕ × ℕ :=
  if size ≤ buy + sell + qty then (0, 0)
  else if buyer then (buy + qty, sell) else (buy, sell + qty)

theorem sameCounts_take (v : Vpin kWindow K) (buyer : Bool) (qty : K) :
    SameCounts (v.take buyer qty) (v.takeRounded id buyer qty) := by
  unfold take takeRounded
  dsimp only [id]
  split_ifs <;> exact ⟨rfl, rfl, rfl, rfl⟩

variable [IsStrictOrderedRing K]

theorem Counts.takeRounded (h : v.Counts size buy sell) (hfl : Keeps limit fl) (hsize : size < limit)
    (hqty : buy + sell + qty ≤ size) (buyer : Bool) :
    (v.takeRounded fl buyer qty).Counts size (nextCounts size buy sell buyer qty).1
      (nextCounts size buy sell buyer qty).2 := by
  have hsum (n : ℕ) (hn : n + qty ≤ size) : fl ((n : K) + qty) = (n + qty : ℕ) := by
    rw [← Nat.cast_add]
    exact hfl _ (by omega)
  have hfilled : fl (v.curFilled + qty) = (buy + sell + qty : ℕ) := by
    rw [h.curFilled]
    exact hsum _ hqty
  have hle : v.bucketSize ≤ ((buy + sell + qty : ℕ) : K) ↔ size ≤ buy + sell + qty := by
    rw [h.bucketSize, Nat.cast_le]
  unfold Vpin.takeRounded nextCounts
  dsimp only
  rw [hfilled]
  by_cases hfull : size ≤ buy + sell + qty
  · rw [if_pos (hle.mpr hfull), if_pos hfull]
    have hroom : 0 + 0 < size := by
      have := h.room
      omega
    exact ⟨h.bucketSize, Nat.cast_zero.symm, Nat.cast_zero.symm, Nat.cast_zero.symm, hroom⟩
  · rw [if_neg fun hc => hfull (hle.mp hc), if_neg hfull]
    cases buyer with
    | true =>
      refine ⟨h.bucketSize, ?_, h.curSell, congrArg Nat.cast (Nat.add_right_comm ..), ?_⟩
      · change fl (v.curBuy + qty) = (buy + qty : ℕ)
        rw [h.curBuy]
        exact hsum buy (by omega)
      · change buy + qty + sell < size
        omega
    | false =>
      refine ⟨h.bucketSize, h.curBuy, ?_, congrArg Nat.cast (Nat.add_assoc ..), ?_⟩
      · change fl (v.curSell + qty) = (sell + qty : ℕ)
        rw [h.curSell]
        exact hsum sell (by omega)
      · change buy + (sell + qty) < size
        omega

/-- Two loops over the same counters, on doubles and on exact numbers. The induction is on what
remains: a turn takes at least one. -/
theorem Counts.fillsRounded (h : v.Counts size buy sell) (h' : w.Counts size buy sell)
    (hfl : Keeps limit fl) (hsize : size < limit) (hqty : qty < limit) (buyer : Bool) :
    ∃ v' w' closed b s, FillsRounded fl buyer v qty v' ∧ Fills buyer w qty w' closed ∧
      v'.Counts size b s ∧ w'.Counts size b s := by
  induction qty using Nat.strong_induction_on generalizing v w buy sell with
  | _ qty ih =>
    by_cases hzero : qty = 0
    · subst hzero
      exact ⟨v, w, [], buy, sell, .done (by simp), .done (by simp), h, h'⟩
    have hroom := h.room
    have hpos : (0 : K) < qty := Nat.cast_pos.mpr (Nat.pos_of_ne_zero hzero)
    set turn := min (size - (buy + sell)) qty with hturn
    have hmin : min (w.bucketSize - w.curFilled) (qty : K) = turn := by
      rw [h'.room_eq, ← Nat.cast_min]
    have hminRounded : min (fl (v.bucketSize - v.curFilled)) (qty : K) = turn := by
      rw [h.room_eq, hfl _ (by omega), ← Nat.cast_min]
    have hleft : (qty : K) - turn = (qty - turn : ℕ) := (Nat.cast_sub (by omega)).symm
    have hfits : buy + sell + turn ≤ size := by omega
    have hnext := h.takeRounded hfl hsize hfits buyer
    have hnext' := (h'.takeRounded (keeps_id limit) hsize hfits buyer).congr
      (sameCounts_take w buyer turn)
    obtain ⟨v', w', closed, b, s, hv, hw, hvs, hws⟩ :=
      ih (qty - turn) (by omega) hnext hnext' (by omega)
    refine ⟨v', w', w.closes buyer _ ++ closed, b, s, .turn hpos ?_, .turn hpos ?_, hvs, hws⟩
    · rw [hminRounded, hleft, hfl _ (by omega)]
      exact hv
    · rw [hmin, hleft]
      exact hw

variable [FloorRing K]

theorem Counts.onTrade (h : v.Counts size buy sell) (hs : SameCounts w v) (hfl : Keeps limit fl)
    (hsize : size < limit) (hqty : qty < limit) (buyer : Bool) :
    ∃ w' b s, FillsRounded fl buyer w qty w' ∧ SameCounts w' (v.onTrade qty buyer) ∧
      (v.onTrade qty buyer).Counts size b s := by
  obtain ⟨w', v', closed, b, s, hw, hv, hws, hvs⟩ :=
    (h.congr hs).fillsRounded h hfl hsize hqty buyer
  have hpos : 0 < v.bucketSize := by
    rw [h.bucketSize, Nat.cast_pos]
    exact (Nat.zero_le _).trans_lt h.room
  have hroom : v.curFilled < v.bucketSize := by
    rw [h.bucketSize, h.curFilled, Nat.cast_lt]
    exact h.room
  have hnn : 0 ≤ v.curFilled := by
    rw [h.curFilled]
    exact Nat.cast_nonneg _
  obtain ⟨later, hlater⟩ := fills_of_drained _ (onTrade_drains hroom hnn buyer qty)
  have heq : v.onTrade qty buyer = v' := by
    rw [Vpin.onTrade, if_neg (not_le.mpr hpos)]
    exact (hlater.unique hv).1
  rw [heq]
  exact ⟨w', b, s, hw, hws.same hvs, hvs⟩

theorem Whole.fillsRounded (h : v.Whole limit) (hs : SameCounts w v) (hfl : Keeps limit fl)
    (hqty : qty < limit) (buyer : Bool) :
    ∃ w', FillsRounded fl buyer w qty w' ∧ SameCounts w' (v.onTrade qty buyer) := by
  obtain ⟨size, buy, sell, hsize, hc⟩ := h
  obtain ⟨w', -, -, hw, hsame, -⟩ := hc.onTrade hs hfl hsize hqty buyer
  exact ⟨w', hw, hsame⟩

theorem Whole.onTrade (h : v.Whole limit) (qty : ℕ) (buyer : Bool) :
    (v.onTrade qty buyer).Whole limit := by
  obtain ⟨size, buy, sell, hsize, hc⟩ := h
  obtain ⟨-, b, s, -, -, hc'⟩ := hc.onTrade ⟨rfl, rfl, rfl, rfl⟩ (keeps_id (size + qty + 1))
    (by omega) (show qty < size + qty + 1 by omega) buyer
  exact ⟨size, b, s, hsize, hc'⟩

end Vpin

section Features

variable {K B : Type} [Field K] [LinearOrder K]

def FeatureCfg.VpinWhole (cfg : FeatureCfg K) : Prop :=
  cfg.useVpin → 0 < cfg.vpinBucketSize → ∃ n : ℕ, n < 2 ^ 53 ∧ cfg.vpinBucketSize = n

def FeatureEngine.VpinWhole (f : FeatureEngine K) : Prop :=
  f.cfg.useVpin → f.vpin.bucketSize ≤ 0 ∨ f.vpin.Whole (2 ^ 53)

/-- The loop of `onTrade` over a trade ends on doubles, with the counters that it leaves here. -/
def FeatureEngine.VpinEnds [FloorRing K] (f : FeatureEngine K) (u : MEMarketUpdate) : Prop :=
  f.cfg.useVpin → 0 < f.vpin.bucketSize → u.qty < 2 ^ 32 →
    ∀ (fl : K → K) (v : Vpin kVpinWindow K), Keeps (2 ^ 53) fl → Vpin.SameCounts v f.vpin →
      ∃ w, Vpin.FillsRounded fl (decide (u.side = .buy)) v u.qty w ∧
        Vpin.SameCounts w (f.onTradeUpdate u).vpin

variable [IsStrictOrderedRing K]

theorem FeatureCfg.VpinWhole.new {cfg : FeatureCfg K} (h : cfg.VpinWhole) :
    (FeatureEngine.new cfg).VpinWhole := by
  intro huse
  have huse : cfg.useVpin = true := huse
  by_cases hpos : 0 < cfg.vpinBucketSize
  · obtain ⟨n, hn, heq⟩ := h huse hpos
    have hsize : (FeatureEngine.new cfg).vpin.bucketSize = n := by
      refine (if_pos ⟨huse, hpos⟩).trans heq
    refine .inr ⟨n, 0, 0, hn, hsize, Nat.cast_zero.symm, Nat.cast_zero.symm, Nat.cast_zero.symm, ?_⟩
    rw [heq, Nat.cast_pos] at hpos
    exact hpos
  · exact .inl (if_neg fun hc => hpos hc.2).le

omit [IsStrictOrderedRing K] in
theorem FeatureCfg.vpinWhole_default : (FeatureCfg.default : FeatureCfg K).VpinWhole := nofun

variable [FloorRing K] {f : FeatureEngine K}

theorem FeatureEngine.VpinWhole.onTradeUpdate (h : f.VpinWhole) (u : MEMarketUpdate) :
    (f.onTradeUpdate u).VpinWhole := by
  unfold FeatureEngine.onTradeUpdate
  split_ifs with huse
  · intro _
    rcases h huse with hsize | hwhole
    · refine .inl ?_
      dsimp only
      rw [Vpin.onTrade, if_pos hsize]
      exact hsize
    · exact .inr (hwhole.onTrade u.qty _)
  · exact fun hc => absurd hc huse

theorem FeatureEngine.VpinWhole.ends (h : f.VpinWhole) (u : MEMarketUpdate) : f.VpinEnds u := by
  intro huse hpos hqty fl v hfl hs
  rcases h huse with hsize | hwhole
  · exact absurd hpos (not_lt.mpr hsize)
  · rw [FeatureEngine.onTradeUpdate, if_pos huse]
    exact hwhole.fillsRounded hs hfl (hqty.trans (by norm_num)) _

omit [IsStrictOrderedRing K] [FloorRing K]

theorem FeatureEngine.vpin_updateVolatility (f : FeatureEngine K) (sqrt : K → K) (bbo : BBO) :
    (f.updateVolatility sqrt bbo).cfg = f.cfg ∧ (f.updateVolatility sqrt bbo).vpin = f.vpin := by
  unfold FeatureEngine.updateVolatility
  cases f.prevMid <;> exact ⟨rfl, rfl⟩

omit [LinearOrder K] in
theorem FeatureEngine.vpin_updateOfi (f : FeatureEngine K) (bbo : BBO) :
    (f.updateOfi bbo).cfg = f.cfg ∧ (f.updateOfi bbo).vpin = f.vpin := by
  unfold FeatureEngine.updateOfi
  dsimp only
  split_ifs <;> exact ⟨rfl, rfl⟩

theorem FeatureEngine.VpinWhole.onOrderBookUpdate (h : f.VpinWhole) (sqrt : K → K) (bbo : BBO) :
    (f.onOrderBookUpdate sqrt bbo).VpinWhole := by
  unfold FeatureEngine.onOrderBookUpdate
  split_ifs
  · obtain ⟨hcfg, hvpin⟩ := vpin_updateVolatility { f with mktPrice := microPrice f.cfg bbo } sqrt bbo
    rw [FeatureEngine.VpinWhole, (vpin_updateOfi _ bbo).1, (vpin_updateOfi _ bbo).2, hcfg, hvpin]
    exact h
  · exact h

end Features

end Trading
