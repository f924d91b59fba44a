import Mathlib.Tactic.FieldSimp
import TradingEcosystem.Trading.ClientBook
import TradingEcosystem.Trading.FeatureEngine

namespace Trading

open Common Exchange

section Modes

variable {K : Type} [Field K] [LinearOrder K]

def FeatureCfg.withMicro (cfg : FeatureCfg K) (useStoikovMicro : Bool) : FeatureCfg K :=
  { cfg with useStoikovMicro := useStoikovMicro }

namespace FeatureEngine

def withMicro (f : FeatureEngine K) (useStoikovMicro : Bool) : FeatureEngine K :=
  { f with cfg := f.cfg.withMicro useStoikovMicro }

theorem mktPrice_updateVolatility (f : FeatureEngine K) (sqrt : K → K) (bbo : BBO) :
    (f.updateVolatility sqrt bbo).mktPrice = f.mktPrice := by
  rw [updateVolatility]
  cases f.prevMid <;> rfl

omit [LinearOrder K] in
theorem mktPrice_updateOfi (f : FeatureEngine K) (bbo : BBO) :
    (f.updateOfi bbo).mktPrice = f.mktPrice := by
  rw [updateOfi]
  split_ifs <;> rfl

theorem mktPrice_onOrderBookUpdate (f : FeatureEngine K) (sqrt : K → K) {bbo : BBO}
    (h : bbo.bidPrice ≠ priceInvalid ∧ bbo.askPrice ≠ priceInvalid) :
    (f.onOrderBookUpdate sqrt bbo).mktPrice = microPrice f.cfg bbo := by
  rw [onOrderBookUpdate, if_pos h, mktPrice_updateOfi, mktPrice_updateVolatility]

end FeatureEngine

end Modes

variable {K : Type} [Field K] [LinearOrder K] [IsStrictOrderedRing K] {bbo : BBO}

namespace BBO

def total (bbo : BBO) : ℕ := (bbo.bidQty + bbo.askQty) % 2 ^ 32

def Inside (bbo : BBO) (x : Quotient K) : Prop :=
  ∃ y, x = .num y ∧ (bbo.bidPrice : K) ≤ y ∧ y ≤ bbo.askPrice

/-- A spread around price 0, wide enough for the two sums that went past `2 ^ 32`. -/
def Straddles (bbo : BBO) : Prop :=
  bbo.bidQty + bbo.askQty ≠ 2 ^ 32 ∧
    |(bbo.bidQty : ℤ) - bbo.askQty| ≤ bbo.bidQty + bbo.askQty - 2 ^ 32 ∧
    bbo.askPrice * 2 ^ 32 ≤ (bbo.askPrice - bbo.bidPrice) * bbo.askQty ∧
    -bbo.bidPrice * 2 ^ 32 ≤ (bbo.askPrice - bbo.bidPrice) * bbo.bidQty

def Weighable (bbo : BBO) : Prop :=
  0 < bbo.bidQty + bbo.askQty ∧ (bbo.bidQty + bbo.askQty < 2 ^ 32 ∨ bbo.Straddles)

def FitsMode (bbo : BBO) (useStoikovMicro : Bool) : Prop :=
  if useStoikovMicro then
    InInt64 (bbo.bidPrice + bbo.askPrice) ∧ InInt64 (bbo.askPrice - bbo.bidPrice)
  else
    InInt64 (bbo.bidPrice * bbo.askQty) ∧ InInt64 (bbo.askPrice * bbo.bidQty) ∧
      InInt64 (bbo.bidPrice * bbo.askQty + bbo.askPrice * bbo.bidQty) ∧
      InInt64 (bbo.bidPrice + bbo.askPrice)

structure FitsInt64 (bbo : BBO) : Prop where
  bidTerm : InInt64 (bbo.bidPrice * bbo.askQty)
  askTerm : InInt64 (bbo.askPrice * bbo.bidQty)
  terms : InInt64 (bbo.bidPrice * bbo.askQty + bbo.askPrice * bbo.bidQty)
  sum : InInt64 (bbo.bidPrice + bbo.askPrice)
  spread : InInt64 (bbo.askPrice - bbo.bidPrice)

theorem fitsInt64_iff : bbo.FitsInt64 ↔ bbo.FitsMode false ∧ bbo.FitsMode true :=
  ⟨fun h => ⟨⟨h.bidTerm, h.askTerm, h.terms, h.sum⟩, h.sum, h.spread⟩,
    fun ⟨⟨hbid, hask, hterms, hsum⟩, _, hspread⟩ => ⟨hbid, hask, hterms, hsum, hspread⟩⟩

theorem fitsInt64_of_inRange (hbid : PriceInRange bbo.bidPrice) (hask : PriceInRange bbo.askPrice)
    (hb : bbo.bidQty < 2 ^ 32) (ha : bbo.askQty < 2 ^ 32) : bbo.FitsInt64 := by
  obtain ⟨hb0, hb1⟩ := hbid
  obtain ⟨ha0, ha1⟩ := hask
  simp only [meMaxPriceLevels] at *
  have hterm : ∀ (p : ℤ) (q : ℕ), 0 < p → p < 2 ^ 17 → q < 2 ^ 32 →
      0 ≤ p * q ∧ p * q ≤ 2 ^ 49 := by
    intro p q h0 h1 hq
    have hq' : (q : ℤ) ≤ 2 ^ 32 := by exact_mod_cast hq.le
    have hq0 : (0 : ℤ) ≤ q := Int.natCast_nonneg q
    constructor <;> nlinarith
  have hx := hterm bbo.bidPrice bbo.askQty hb0 (by omega) ha
  have hy := hterm bbo.askPrice bbo.bidQty ha0 (by omega) hb
  constructor <;> constructor <;> omega

end BBO

namespace FeatureEngine

theorem stoikov_inside (cfg : FeatureCfg K) (h : bbo.bidPrice < bbo.askPrice)
    (ht : 0 < bbo.total) :
    bbo.Inside (microPrice (cfg.withMicro true) bbo) ↔
      |(bbo.bidQty : ℤ) - bbo.askQty| ≤ bbo.total := by
  have ht' : (0 : K) < bbo.total := by exact_mod_cast ht
  have hspread : (0 : K) < bbo.askPrice - bbo.bidPrice := by
    rw [sub_pos]
    exact_mod_cast h
  have habs : |(bbo.bidQty : ℤ) - bbo.askQty| ≤ bbo.total ↔
      |((bbo.bidQty : K) - bbo.askQty) / bbo.total| ≤ 1 := by
    rw [abs_div, abs_of_pos ht', div_le_one ht']
    exact_mod_cast Iff.rfl
  rw [habs, abs_le]
  have hx : microPrice (cfg.withMicro true) bbo = .num (mid bbo +
      (bbo.askPrice - bbo.bidPrice) / 2 * (((bbo.bidQty : K) - bbo.askQty) / bbo.total)) := by
    simp only [microPrice, FeatureCfg.withMicro, if_true]
    rw [if_pos (show 0 < (bbo.bidQty + bbo.askQty) % 2 ^ 32 from ht)]
    rfl
  generalize ((bbo.bidQty : K) - bbo.askQty) / bbo.total = imb at hx
  rw [hx, BBO.Inside, mid]
  constructor
  · rintro ⟨y, hy, hlow, hhigh⟩
    obtain rfl := Quotient.num.inj hy
    constructor <;> nlinarith
  · rintro ⟨hlow, hhigh⟩
    refine ⟨_, rfl, ?_, ?_⟩ <;> nlinarith

theorem vwap_inside (cfg : FeatureCfg K) :
    bbo.Inside (microPrice (cfg.withMicro false) bbo) ↔ 0 < bbo.total ∧
      bbo.bidPrice * bbo.total ≤ bbo.bidPrice * bbo.askQty + bbo.askPrice * bbo.bidQty ∧
      bbo.bidPrice * bbo.askQty + bbo.askPrice * bbo.bidQty ≤ bbo.askPrice * bbo.total := by
  have hx : microPrice (cfg.withMicro false) bbo =
      divide (bbo.bidPrice * bbo.askQty + bbo.askPrice * bbo.bidQty) bbo.total := rfl
  rw [hx, divide]
  rcases Nat.eq_zero_or_pos bbo.total with ht | ht
  · rw [if_pos ht, ht]
    exact iff_of_false (by rintro ⟨y, hy, -⟩; cases hy) fun h => (lt_irrefl 0 h.1)
  · have ht' : (0 : K) < bbo.total := by exact_mod_cast ht
    rw [if_neg ht.ne']
    constructor
    · rintro ⟨y, hy, hlow, hhigh⟩
      obtain rfl := Quotient.num.inj hy
      rw [le_div_iff₀ ht'] at hlow
      rw [div_le_iff₀ ht'] at hhigh
      exact ⟨ht, by exact_mod_cast hlow, by exact_mod_cast hhigh⟩
    · rintro ⟨-, hlow, hhigh⟩
      refine ⟨_, rfl, ?_, ?_⟩
      · rw [le_div_iff₀ ht']
        exact_mod_cast hlow
      · rw [div_le_iff₀ ht']
        exact_mod_cast hhigh

theorem inside_iff (cfg : FeatureCfg K) (h : bbo.bidPrice < bbo.askPrice)
    (hb : bbo.bidQty < 2 ^ 32) (ha : bbo.askQty < 2 ^ 32) :
    (∀ micro, bbo.Inside (microPrice (cfg.withMicro micro) bbo)) ↔ bbo.Weighable := by
  have hmodes : (∀ micro, bbo.Inside (microPrice (cfg.withMicro micro) bbo)) ↔
      0 < bbo.total ∧ |(bbo.bidQty : ℤ) - bbo.askQty| ≤ bbo.total ∧
      bbo.bidPrice * bbo.total ≤ bbo.bidPrice * bbo.askQty + bbo.askPrice * bbo.bidQty ∧
      bbo.bidPrice * bbo.askQty + bbo.askPrice * bbo.bidQty ≤ bbo.askPrice * bbo.total := by
    rw [Bool.forall_bool, vwap_inside]
    constructor
    · rintro ⟨⟨ht, hv⟩, hs⟩
      exact ⟨ht, (stoikov_inside cfg h ht).mp hs, hv⟩
    · rintro ⟨ht, hs, hv⟩
      exact ⟨⟨ht, hv⟩, (stoikov_inside cfg h ht).mpr hs⟩
  rw [hmodes, BBO.Weighable, BBO.Straddles]
  generalize hB : bbo.bidPrice = B at h ⊢
  generalize hA : bbo.askPrice = A at h ⊢
  have hq : (0 : ℤ) ≤ bbo.bidQty := Int.natCast_nonneg _
  have hr : (0 : ℤ) ≤ bbo.askQty := Int.natCast_nonneg _
  rcases Nat.lt_or_ge (bbo.bidQty + bbo.askQty) (2 ^ 32) with hsum | hsum
  · have ht : bbo.total = bbo.bidQty + bbo.askQty := Nat.mod_eq_of_lt hsum
    rw [ht]
    push_cast
    refine ⟨fun h => ⟨h.1, Or.inl hsum⟩, fun h' => ⟨h'.1, ?_, ?_, ?_⟩⟩
    · rw [abs_le]
      omega
    · nlinarith
    · nlinarith
  · have ht : bbo.total = bbo.bidQty + bbo.askQty - 2 ^ 32 := by
      rw [BBO.total, Nat.mod_eq_sub_mod hsum, Nat.mod_eq_of_lt (by omega)]
    have htz : (bbo.total : ℤ) = bbo.bidQty + bbo.askQty - 2 ^ 32 := by
      rw [ht, Nat.cast_sub hsum]
      push_cast
      rfl
    rw [htz]
    constructor
    · rintro ⟨hpos, habs, hlow, hhigh⟩
      refine ⟨by omega, Or.inr ⟨by omega, habs, ?_, ?_⟩⟩ <;> linarith
    · rintro ⟨hpos, hlt | ⟨hne, habs, hlow, hhigh⟩⟩
      · omega
      · refine ⟨by omega, habs, ?_, ?_⟩ <;> linarith

omit [LinearOrder K] [IsStrictOrderedRing K] in
theorem microPriceInt64_eq_ok (cfg : FeatureCfg K) {q : Quotient K} :
    (microPriceInt64 cfg bbo = .ok q ∧ InInt64 (bbo.bidPrice + bbo.askPrice)) ↔
      bbo.FitsMode cfg.useStoikovMicro ∧ microPrice cfg bbo = q := by
  unfold microPriceInt64 microPrice BBO.FitsMode
  cases cfg.useStoikovMicro with
  | true =>
    simp only [if_true, bind_eq_ok, int64_eq_ok, pure_ok, Except.ok.injEq, mid]
    constructor
    · rintro ⟨⟨_, ⟨hsum, rfl⟩, _, ⟨hspread, rfl⟩, rfl⟩, -⟩
      exact ⟨⟨hsum, hspread⟩, by push_cast; rfl⟩
    · rintro ⟨⟨hsum, hspread⟩, rfl⟩
      exact ⟨⟨_, ⟨hsum, rfl⟩, _, ⟨hspread, rfl⟩, by push_cast; rfl⟩, hsum⟩
  | false =>
    simp only [Bool.false_eq_true, if_false, bind_eq_ok, int64_eq_ok, pure_ok, Except.ok.injEq]
    constructor
    · rintro ⟨⟨_, ⟨hbid, rfl⟩, _, ⟨hask, rfl⟩, _, ⟨hterms, rfl⟩, rfl⟩, hsum⟩
      exact ⟨⟨hbid, hask, hterms, hsum⟩, rfl⟩
    · rintro ⟨⟨hbid, hask, hterms, hsum⟩, rfl⟩
      exact ⟨⟨_, ⟨hbid, rfl⟩, _, ⟨hask, rfl⟩, _, ⟨hterms, rfl⟩, rfl⟩, hsum⟩

omit [IsStrictOrderedRing K] in
theorem onOrderBookUpdateInt64_eq_ok (f : FeatureEngine K) (sqrt : K → K) {f' : FeatureEngine K}
    (h : bbo.bidPrice ≠ priceInvalid ∧ bbo.askPrice ≠ priceInvalid) :
    f.onOrderBookUpdateInt64 sqrt bbo = .ok f' ↔
      bbo.FitsMode f.cfg.useStoikovMicro ∧ f.onOrderBookUpdate sqrt bbo = f' := by
  simp only [onOrderBookUpdateInt64, onOrderBookUpdate, if_pos h, bind_eq_ok, int64_eq_ok, pure_ok,
    Except.ok.injEq]
  constructor
  · rintro ⟨q, hq, _, ⟨hsum, -⟩, rfl⟩
    obtain ⟨hfits, rfl⟩ := (microPriceInt64_eq_ok f.cfg).mp ⟨hq, hsum⟩
    exact ⟨hfits, rfl⟩
  · rintro ⟨hfits, rfl⟩
    obtain ⟨hq, hsum⟩ := (microPriceInt64_eq_ok f.cfg).mpr ⟨hfits, rfl⟩
    exact ⟨_, hq, _, ⟨hsum, rfl⟩, rfl⟩

theorem microPrice_modes_agree (cfg : FeatureCfg K) (hpos : 0 < bbo.bidQty + bbo.askQty)
    (hlt : bbo.bidQty + bbo.askQty < 2 ^ 32) :
    microPrice (cfg.withMicro true) bbo = microPrice (cfg.withMicro false) bbo := by
  have htotal : bbo.total = bbo.bidQty + bbo.askQty := Nat.mod_eq_of_lt hlt
  have hne : (bbo.bidQty : K) + bbo.askQty ≠ 0 := by exact_mod_cast hpos.ne'
  have hs : microPrice (cfg.withMicro true) bbo = .num (mid bbo +
      (bbo.askPrice - bbo.bidPrice) / 2 * (if 0 < bbo.total then
        ((bbo.bidQty : K) - bbo.askQty) / bbo.total else 0)) := rfl
  have hv : microPrice (cfg.withMicro false) bbo =
      divide (bbo.bidPrice * bbo.askQty + bbo.askPrice * bbo.bidQty) bbo.total := rfl
  rw [hs, hv, divide, htotal, if_pos hpos, if_neg hpos.ne', mid]
  congr 1
  push_cast
  field_simp
  ring

end FeatureEngine

theorem Mirrors.touch {m : MarketOrderBook} {s : Ladders MarketOrder} (h : Mirrors m s)
    {side : Side} (hs : side.IsBuyOrSell) {L : Level ℤ MarketOrder}
    {ls : List (Level ℤ MarketOrder)} (hside : s.side side = L :: ls) :
    ∃ x : LevelShape ℕ, Touch m.book side x ∧ x.price = L.price ∧
      (x.orders.map fun e => e.2.qty) = L.orders.map OrderInfo.qty := by
  obtain ⟨a, hl, rfl⟩ := h.linked
  rw [Ladders.side_mapOrders] at hside
  obtain ⟨K, ks, ha, hK, -⟩ := List.map_eq_cons_iff.mp hside
  obtain ⟨x, htouch, hp, ho⟩ := hl.touch hs ha
  refine ⟨x, htouch, by rw [hp, ← hK], ?_⟩
  rw [ho, ← hK, List.map_map]
  rfl

def quoted (L M : LevelShape ℕ) : BBO :=
  ⟨L.price, M.price, (L.orders.map fun e => e.2.qty).sum % 2 ^ 32,
    (M.orders.map fun e => e.2.qty).sum % 2 ^ 32⟩

theorem Touch.updateBBO {m : MarketOrderBook} {L M : LevelShape ℕ}
    (hL : Touch m.book .buy L) (hM : Touch m.book .sell M) :
    m.updateBBO true true = .ok { m with bbo := quoted L M } := by
  have hbid : m.updateBid true = .ok { m with bbo := { m.bbo with
      bidPrice := L.price, bidQty := (L.orders.map fun e => e.2.qty).sum % 2 ^ 32 } } := by
    rw [MarketOrderBook.updateBid, if_pos rfl, hL.bestOf]
    rfl
  rw [MarketOrderBook.updateBBO, hbid, ok_bind, MarketOrderBook.updateAsk, if_pos rfl, hM.bestOf]
  rfl

theorem fairPrice_inside_iff {m : MarketOrderBook} {L M : LevelShape ℕ}
    (hL : Touch m.book .buy L) (hM : Touch m.book .sell M) (hlt : L.price < M.price)
    (hvalid : L.price ≠ priceInvalid ∧ M.price ≠ priceInvalid) (f : FeatureEngine K)
    (sqrt : K → K) :
    ∃ m', m.updateBBO true true = .ok m' ∧ m'.bbo = quoted L M ∧
      ((∀ micro, ∃ f', (f.withMicro micro).onOrderBookUpdateInt64 sqrt m'.bbo = .ok f' ∧
          m'.bbo.Inside f'.mktPrice) ↔ m'.bbo.FitsInt64 ∧ m'.bbo.Weighable) := by
  refine ⟨_, hL.updateBBO hM, rfl, ?_⟩
  have hvalid' : (quoted L M).bidPrice ≠ priceInvalid ∧ (quoted L M).askPrice ≠ priceInvalid := hvalid
  have hqty : (quoted L M).bidQty < 2 ^ 32 ∧ (quoted L M).askQty < 2 ^ 32 :=
    ⟨Nat.mod_lt _ (by norm_num), Nat.mod_lt _ (by norm_num)⟩
  have hinside := FeatureEngine.inside_iff f.cfg (show (quoted L M).bidPrice < (quoted L M).askPrice
    from hlt) hqty.1 hqty.2
  have hmode : ∀ micro, (∃ f', (f.withMicro micro).onOrderBookUpdateInt64 sqrt (quoted L M) =
      .ok f' ∧ (quoted L M).Inside f'.mktPrice) ↔ (quoted L M).FitsMode micro ∧
        (quoted L M).Inside (FeatureEngine.microPrice (f.cfg.withMicro micro) (quoted L M)) := by
    intro micro
    simp only [FeatureEngine.onOrderBookUpdateInt64_eq_ok _ sqrt hvalid']
    constructor
    · rintro ⟨f', ⟨hfits, rfl⟩, hin⟩
      rw [FeatureEngine.mktPrice_onOrderBookUpdate _ sqrt hvalid'] at hin
      exact ⟨hfits, hin⟩
    · rintro ⟨hfits, hin⟩
      refine ⟨_, ⟨hfits, rfl⟩, ?_⟩
      rw [FeatureEngine.mktPrice_onOrderBookUpdate _ sqrt hvalid']
      exact hin
  rw [← hinside, BBO.fitsInt64_iff, Bool.forall_bool, Bool.forall_bool]
  dsimp only
  rw [hmode, hmode]
  tauto

def touching (bidQty askQty : ℕ) : List MEMarketUpdate :=
  [⟨.add, 1, 0, .buy, 100, bidQty, 1⟩, ⟨.add, 2, 0, .sell, 102, askQty, 1⟩]

theorem touching_run {bidQty askQty : ℕ} (hb : bidQty < 2 ^ 32) (ha : askQty < 2 ^ 32) :
    ∃ m L M, (MarketOrderBook.new true 0).run (touching bidQty askQty) = .ok m ∧
      Touch m.book .buy L ∧ Touch m.book .sell M ∧ quoted L M = ⟨100, 102, bidQty, askQty⟩ := by
  have happ : ApplicableAll ⟨[], []⟩ (touching bidQty askQty) := by
    have hid {i : ℕ} (hi : i ≤ 2) : i < meMaxOrderIds := hi.trans_lt (by decide)
    refine ⟨⟨Or.inl rfl, (by decide : PriceInRange 100), hid one_le_two, hb, nofun, nofun,
      hid one_le_two⟩, ⟨Or.inr rfl, (by decide : PriceInRange 102), hid le_rfl, ha, ?_,
      (by decide : (102 : ℤ) ∉ [100]), hid le_rfl⟩, trivial⟩
    change ∀ o ∈ [(⟨1, .buy, 100, bidQty, 1⟩ : MarketOrder)], o.ids ≠ 2
    simp
  obtain ⟨m, hrun, hm⟩ := (mirrors_new true 0).run happ
  obtain ⟨L, hL, hLp, hLq⟩ := hm.touch (Or.inl rfl : Side.IsBuyOrSell .buy)
    (show _ = [⟨100, [⟨1, .buy, 100, bidQty, 1⟩]⟩] from rfl)
  obtain ⟨M, hM, hMp, hMq⟩ := hm.touch (Or.inr rfl : Side.IsBuyOrSell .sell)
    (show _ = [⟨102, [⟨2, .sell, 102, askQty, 1⟩]⟩] from rfl)
  refine ⟨m, L, M, hrun, hL, hM, ?_⟩
  rw [quoted, hLp, hMp, hLq, hMq]
  simpa using ⟨hb, ha⟩

theorem fairPrice_inside_iff_sample :
    ∃ m m', (MarketOrderBook.new true 0).run (touching 30 10) = .ok m ∧
      m.updateBBO true true = .ok m' ∧ ∀ micro, ∃ f',
        ((FeatureEngine.new FeatureCfg.default : FeatureEngine ℚ).withMicro
          micro).onOrderBookUpdateInt64 id m'.bbo = .ok f' ∧ m'.bbo.Inside f'.mktPrice := by
  obtain ⟨m, L, M, hrun, hL, hM, hq⟩ := touching_run (show 30 < 2 ^ 32 by norm_num)
    (show 10 < 2 ^ 32 by norm_num)
  have hLp : L.price = 100 := congrArg BBO.bidPrice hq
  have hMp : M.price = 102 := congrArg BBO.askPrice hq
  obtain ⟨m', hm', hbbo, hiff⟩ := fairPrice_inside_iff hL hM (by rw [hLp, hMp]; decide)
    (by rw [hLp, hMp]; decide) (FeatureEngine.new FeatureCfg.default : FeatureEngine ℚ) id
  refine ⟨m, m', hrun, hm', hiff.mpr ?_⟩
  rw [hbbo, hq]
  exact ⟨BBO.fitsInt64_of_inRange (by decide) (by decide) (by decide) (by decide),
    by decide, Or.inl (by decide)⟩

/-- Two orders of 3000000000 put the fair price of a market of 100 at 102 above 355. -/
theorem fairPrice_outside_spread :
    ∃ m L M m' f' x, (MarketOrderBook.new true 0).run (touching 3000000000 3000000000) = .ok m ∧
      Touch m.book .buy L ∧ Touch m.book .sell M ∧ L.price < M.price ∧
      m.updateBBO true true = .ok m' ∧ m'.bbo = ⟨100, 102, 3000000000, 3000000000⟩ ∧
      (FeatureEngine.new FeatureCfg.default : FeatureEngine ℚ).onOrderBookUpdateInt64
        id m'.bbo = .ok f' ∧ f'.mktPrice = .num x ∧ 355 < x := by
  obtain ⟨m, L, M, hrun, hL, hM, hq⟩ := touching_run (show 3000000000 < 2 ^ 32 by norm_num)
    (show 3000000000 < 2 ^ 32 by norm_num)
  have hLp : L.price = 100 := congrArg BBO.bidPrice hq
  have hMp : M.price = 102 := congrArg BBO.askPrice hq
  have hvalid : (quoted L M).bidPrice ≠ priceInvalid ∧ (quoted L M).askPrice ≠ priceInvalid := by
    rw [hq]
    decide
  refine ⟨m, L, M, _, _, 606000000000 / 1705032704, hrun, hL, hM, by rw [hLp, hMp]; decide,
    hL.updateBBO hM, hq,
    (FeatureEngine.onOrderBookUpdateInt64_eq_ok _ id hvalid).mpr ⟨?_, rfl⟩, ?_, by norm_num⟩
  · rw [hq]
    exact (BBO.fitsInt64_iff.mp (BBO.fitsInt64_of_inRange (by decide) (by decide) (by decide)
      (by decide))).1
  · rw [FeatureEngine.mktPrice_onOrderBookUpdate _ _ hvalid, hq]
    norm_num [FeatureEngine.microPrice, FeatureEngine.new, FeatureCfg.default, FeatureEngine.divide]

end Trading
