import TradingEcosystem.Backtest.L3Replay
import TradingEcosystem.Backtest.MergedTape

namespace Backtest

open Common Exchange Trading

/-- `_dollars`, with the empty text for `None`. -/
def dollars (x : ℤ) : List Char := if kSentinel ≤ |x| then [] else Decimal.fixed 4 x

structure TapeTop where
  bidPrice : List Char
  bidQty : List Char
  askPrice : List Char
  askQty : List Char
  deriving DecidableEq

def qtyBeside (price : List Char) (size : ℤ) : List Char :=
  if price = [] then [] else Decimal.intText size

def tapeTop (askP askS bidP bidS : ℤ) : TapeTop :=
  ⟨dollars bidP, qtyBeside (dollars bidP) bidS, dollars askP, qtyBeside (dollars askP) askS⟩

def TapeTop.row (top : TapeTop) (ts : ℤ) : TapeRow :=
  ⟨ts, ['B'], [], [], top.bidPrice, top.bidQty, top.askPrice, top.askQty, []⟩

def execRow (m : Message) : TapeRow :=
  ⟨m.ts, ['T'], Decimal.fixed 4 m.price, Decimal.intText m.size, [], [], [], [],
    if m.direction = 1 then ['1'] else ['0']⟩

def execRows (m : Message) : List TapeRow :=
  if (m.type = 4 ∨ m.type = 5) ∧ 0 < m.price then [execRow m] else []

def topRows (ts : ℤ) (last : Option TapeTop) (top : TapeTop) : List TapeRow :=
  if some top = last then [] else [top.row ts]

/-- The loop of `lobster_to_tape.py`. An empty line has fewer than six fields; `last` starts as no
row's top of book. -/
def lobsterToTape : Option TapeTop → List (Option Row) → List TapeRow
  | _, [] => []
  | last, none :: lines => lobsterToTape last lines
  | last, some row :: lines =>
      match row.orderbook with
      | askP :: askS :: bidP :: bidS :: _ =>
          execRows row.message ++
            topRows row.message.ts last (tapeTop askP askS bidP bidS) ++
            lobsterToTape (some (tapeTop askP askS bidP bidS)) lines
      | _ => lobsterToTape last lines

/-- The configuration the script's documentation gives. -/
def lobsterCfg (round : ℚ → ℚ) : TapeReaderCfg := ⟨.binance, round (1 / 100), 1, 0, round⟩

section Texts

variable {round : ℚ → ℚ} {x size : ℤ} {m : Message}

theorem plainText_iff {s : List Char} : plainText s = true ↔ ∀ c ∈ s, special c = false := by
  simp [plainText]

theorem plainText_intText (x : ℤ) : plainText (Decimal.intText x) = true :=
  plainText_iff.mpr (special_intText x)

theorem plainText_fixed (k : ℕ) (x : ℤ) : plainText (Decimal.fixed k x) = true := by
  refine plainText_iff.mpr fun c hc => ?_
  rcases Decimal.mem_fixed hc with rfl | rfl | hd
  · rfl
  · rfl
  · exact special_of_isDigit hd

theorem plainText_dollars (x : ℤ) : plainText (dollars x) = true := by
  unfold dollars
  split_ifs
  · rfl
  · exact plainText_fixed 4 x

theorem plainText_qtyBeside (price : List Char) (size : ℤ) :
    plainText (qtyBeside price size) = true := by
  unfold qtyBeside
  split_ifs
  · rfl
  · exact plainText_intText size

theorem plain_execRow (m : Message) : (execRow m).Plain := by
  have hflag : plainText (if m.direction = 1 then ['1'] else ['0']) = true := by
    split_ifs <;> rfl
  simp [TapeRow.Plain, TapeRow.texts, execRow, plainText_fixed, plainText_intText, hflag,
    show plainText ['T'] = true from rfl, show plainText [] = true from rfl]

theorem plain_topRow (askP askS bidP bidS ts : ℤ) : ((tapeTop askP askS bidP bidS).row ts).Plain := by
  simp [TapeRow.Plain, TapeRow.texts, TapeTop.row, tapeTop, plainText_dollars, plainText_qtyBeside,
    show plainText ['B'] = true from rfl, show plainText [] = true from rfl]

theorem tick_near (hround : Rounding.Near round) :
    |(lobsterCfg round).tickSize - 1 / 100| ≤ 1 / 2 ^ 59 := by
  have h := hround (1 / 100) (by rw [abs_of_pos] <;> norm_num)
  rw [abs_of_pos (by norm_num : (0 : ℚ) < 1 / 100)] at h
  exact h.trans (by norm_num)

theorem tick_proper (hround : Rounding.Near round) : ProperStep (lobsterCfg round).tickSize := by
  obtain ⟨hlow, hhigh⟩ := abs_le.mp (tick_near hround)
  exact ⟨by norm_num at hlow ⊢; linarith, by norm_num at hhigh ⊢; linarith⟩

theorem ticks_near (hround : Rounding.Near round) (y : ℚ) :
    |y / 100 / (lobsterCfg round).tickSize - y| ≤ |y| / 2 ^ 52 := by
  have hnear := tick_near hround
  set tick := (lobsterCfg round).tickSize with htick
  obtain ⟨hlow, -⟩ := abs_le.mp hnear
  have hbound : 1 / 128 ≤ tick := by norm_num at hlow ⊢; linarith
  have hpos : 0 < tick := lt_of_lt_of_le (by norm_num) hbound
  have heq : y / 100 / tick - y = y * ((1 / 100 - tick) / tick) := by
    field_simp
  rw [heq, abs_mul, abs_div, abs_of_pos hpos, abs_sub_comm]
  calc |y| * (|tick - 1 / 100| / tick) ≤ |y| * (1 / 2 ^ 59 / (1 / 128)) := by gcongr
    _ = |y| / 2 ^ 52 := by ring

theorem toTicks_fixed (hround : Rounding.Near round) (h : x % 100 = 0) (hx : |x| < kSentinel) :
    toTicks (lobsterCfg round) (Decimal.fixed 4 x) = .ok (toCents x) := by
  obtain ⟨k, rfl⟩ := Int.dvd_of_emod_eq_zero h
  have hcents : toCents (100 * k) = k := by
    unfold toCents
    rw [Int.sign_mul, Int.natAbs_mul]
    have hdiv : ((100 : ℤ).natAbs * k.natAbs + 50) / 100 = k.natAbs := by
      change (100 * k.natAbs + 50) / 100 = _
      omega
    rw [hdiv, show (100 : ℤ).sign = 1 from rfl, one_mul]
    exact Int.sign_mul_natAbs k
  have hsentinel : kSentinel = 9999999990 := rfl
  have hk : |k| ≤ 2 ^ 48 := by
    rw [abs_mul] at hx
    have hnn := abs_nonneg k
    have habs : |(100 : ℤ)| = 100 := rfl
    rw [habs] at hx
    omega
  have hticks := ticks_near hround k
  have hkq : |(k : ℚ)| ≤ 2 ^ 48 := by exact_mod_cast hk
  have hvalue : ((100 * k : ℤ) : ℚ) / 10 ^ 4 = k / 100 := by
    push_cast
    ring
  rw [hcents]
  refine toTicks_onGrid hround (tick_proper hround)
    ((Decimal.number_fixed (by decide) _).trans (congrArg some hvalue)) ?_ hk
  exact hticks.trans (by linarith)

theorem inInt64_llround {y : ℚ} (h : |y| ≤ 2 ^ 60) : InInt64 (llround y) := by
  obtain ⟨hlow, hhigh⟩ := abs_le.mp h
  have hfloor : ∀ z : ℚ, -2 ^ 60 ≤ z → z ≤ 2 ^ 60 →
      -2 ^ 62 ≤ ⌊z + 1 / 2⌋ ∧ ⌊z + 1 / 2⌋ ≤ 2 ^ 62 := by
    intro z hz hz'
    refine ⟨Int.le_floor.mpr ?_, Int.floor_le_iff.mpr ?_⟩
    · push_cast
      linarith
    · push_cast
      linarith
  unfold llround
  split_ifs
  · obtain ⟨h₁, h₂⟩ := hfloor y hlow hhigh
    exact ⟨by omega, by omega⟩
  · obtain ⟨h₁, h₂⟩ := hfloor (-y) (by linarith) (by linarith)
    exact ⟨by omega, by omega⟩

theorem toTicks_ok (hround : Rounding.Near round) (hx : |x| ≤ 2 ^ 48) :
    ∃ p, toTicks (lobsterCfg round) (Decimal.fixed 4 x) = .ok p := by
  set y : ℚ := (x : ℚ) / 10 ^ 4 with hy
  have hxq : |(x : ℚ)| ≤ 2 ^ 48 := by exact_mod_cast hx
  have hcents : |100 * y| ≤ 2 ^ 48 := by
    rw [hy, abs_mul, abs_div, abs_of_pos (by norm_num : (0 : ℚ) < 100),
      abs_of_pos (by norm_num : (0 : ℚ) < 10 ^ 4)]
    linarith [abs_nonneg (x : ℚ)]
  have hticks := ticks_near hround (100 * y)
  rw [mul_div_cancel_left₀ _ (by norm_num : (100 : ℚ) ≠ 0)] at hticks
  obtain ⟨hlow, hhigh⟩ := tick_proper hround
  set q := y / (lobsterCfg round).tickSize with hq
  have htri := abs_sub_abs_le_abs_sub q (100 * y)
  have hbound : |q| ≤ 2 ^ 49 := by linarith
  have herr := hround.div hlow hhigh (hbound.trans (by norm_num))
  rw [← hq] at herr
  have htri' := abs_sub_abs_le_abs_sub (round (round y / (lobsterCfg round).tickSize)) q
  have hfits : InInt64 (llround (round (round y / (lobsterCfg round).tickSize))) :=
    inInt64_llround (by linarith)
  refine ⟨llround (round (round y / (lobsterCfg round).tickSize)), ?_⟩
  rw [toTicks, if_neg (Decimal.fixed_ne_nil 4 _), stod, Decimal.number_fixed (by decide)]
  change int64 (llround (round (round y / (lobsterCfg round).tickSize))) = _
  exact int64_eq_ok.mpr ⟨hfits, rfl⟩

theorem toLots_intText (hround : Rounding.Near round) (h : |size| < 2 ^ 32) :
    toLots (lobsterCfg round) (Decimal.intText size) = .ok (max 1 size).toNat := by
  have hgrid : OnGrid 1 (size : ℚ) size := by
    rw [OnGrid, div_one, sub_self, abs_zero]
    norm_num
  have hstep : ProperStep (lobsterCfg round).qtyStep :=
    ⟨by norm_num [lobsterCfg], by norm_num [lobsterCfg]⟩
  exact toLots_onGrid hround hstep (Decimal.number_intText size) hgrid h

end Texts

def cents (price size : ℤ) : ℤ × ℕ :=
  if kSentinel ≤ |price| then (priceInvalid, qtyInvalid) else (toCents price, toQty size)

structure Message.Fits (m : Message) : Prop where
  ts : -2 ^ 63 ≤ m.ts ∧ m.ts < 2 ^ 63
  price : |m.price| ≤ 2 ^ 48
  size : |m.size| < 2 ^ 32

instance (m : Message) : Decidable m.Fits :=
  decidable_of_iff ((-2 ^ 63 ≤ m.ts ∧ m.ts < 2 ^ 63) ∧ |m.price| ≤ 2 ^ 48 ∧ |m.size| < 2 ^ 32)
    ⟨fun h => ⟨h.1, h.2.1, h.2.2⟩, fun h => ⟨h.ts, h.price, h.size⟩⟩

/-- The first level is the best of its side, in whole cents, or nothing is on the side. -/
def FirstIsBest (side : Side) (m : PriceMap) (price size : ℤ) : Prop :=
  if kSentinel ≤ |price| then m.entries = []
  else price % 100 = 0 ∧ (0 < size ∧ size < 2 ^ 32) ∧ IsBest side m (toCents price) (toQty size)

def Row.Regular (levels : ℕ) (row : Row) : Prop :=
  match row.orderbook with
  | askP :: askS :: bidP :: bidS :: _ =>
      row.message.Fits ∧
        FirstIsBest .buy (row.bids levels) bidP bidS ∧ FirstIsBest .sell (row.asks levels) askP askS
  | _ => False

instance (side : Side) (m : PriceMap) (price : ℤ) (qty : ℕ) : Decidable (IsBest side m price qty) :=
  decidable_of_iff ((m.entries = [] ∧ price = priceInvalid ∧ qty = qtyInvalid) ∨
      (m.lookup price = some qty ∧ ∀ p ∈ m.keys, p ≠ price → better side price p)) Iff.rfl

instance (side : Side) (m : PriceMap) (price size : ℤ) : Decidable (FirstIsBest side m price size) :=
  inferInstanceAs (Decidable (if kSentinel ≤ |price| then m.entries = []
    else price % 100 = 0 ∧ (0 < size ∧ size < 2 ^ 32) ∧ IsBest side m (toCents price) (toQty size)))

instance (levels : ℕ) : (row : Row) → Decidable (row.Regular levels)
  | ⟨_, _ :: _ :: _ :: _ :: _⟩ => inferInstanceAs (Decidable (_ ∧ FirstIsBest .. ∧ FirstIsBest ..))
  | ⟨_, []⟩ => isFalse id
  | ⟨_, [_]⟩ => isFalse id
  | ⟨_, [_, _]⟩ => isFalse id
  | ⟨_, [_, _, _]⟩ => isFalse id

abbrev Quote := (ℤ × ℕ) × ℤ × ℕ

def BookTopEvent.quote (ev : BookTopEvent) : Quote :=
  ((ev.bidPrice, ev.bidQty), ev.askPrice, ev.askQty)

def Row.quote (row : Row) : Quote :=
  match row.orderbook with
  | askP :: askS :: bidP :: bidS :: _ => (cents bidP bidS, cents askP askS)
  | _ => BookTopEvent.empty.quote

structure TapeTop.Reads (round : ℚ → ℚ) (top : TapeTop) (q : Quote) : Prop where
  bidPrice : toTicks (lobsterCfg round) top.bidPrice = .ok q.1.1
  bidQty : toLots (lobsterCfg round) top.bidQty = .ok q.1.2
  askPrice : toTicks (lobsterCfg round) top.askPrice = .ok q.2.1
  askQty : toLots (lobsterCfg round) top.askQty = .ok q.2.2

section Sides

variable {round : ℚ → ℚ} {side : Side} {m : PriceMap} {price size : ℤ} {p p' : ℤ} {q q' : ℕ}

theorem IsBest.unique (h : IsBest side m p q) (h' : IsBest side m p' q') : p = p' ∧ q = q' := by
  have hnone : ∀ x, m.entries = [] → m.lookup x = none := by
    intro x hm
    rw [AList.lookup_eq_none]
    change x ∉ m.entries.keys
    rw [hm]
    exact List.not_mem_nil
  rcases h with ⟨hm, hp, hq⟩ | ⟨hl, hbest⟩ <;> rcases h' with ⟨hm', hp', hq'⟩ | ⟨hl', hbest'⟩
  · exact ⟨hp.trans hp'.symm, hq.trans hq'.symm⟩
  · rw [hnone p' hm] at hl'
    cases hl'
  · rw [hnone p hm'] at hl
    cases hl
  · have hpp : p = p' := by
      by_contra hne
      have hb := hbest p' (mem_of_lookup hl') fun hc => hne hc.symm
      exact better_irrefl side p (better_trans hb (hbest' p (mem_of_lookup hl) hne))
    subst hpp
    exact ⟨rfl, Option.some.inj (hl.symm.trans hl')⟩

theorem FirstIsBest.isBest (h : FirstIsBest side m price size) :
    IsBest side m (cents price size).1 (cents price size).2 := by
  unfold FirstIsBest at h
  unfold cents
  split_ifs at h ⊢
  · exact .inl ⟨h, rfl, rfl⟩
  · exact h.2.2

theorem FirstIsBest.reads (hround : Rounding.Near round) (h : FirstIsBest side m price size) :
    toTicks (lobsterCfg round) (dollars price) = .ok (cents price size).1 ∧
      toLots (lobsterCfg round) (qtyBeside (dollars price) size) = .ok (cents price size).2 := by
  unfold FirstIsBest at h
  unfold cents dollars qtyBeside
  split_ifs at h ⊢ with hs hnil hnil
  · exact ⟨rfl, rfl⟩
  · exact absurd rfl hnil
  · exact absurd hnil (Decimal.fixed_ne_nil 4 _)
  · obtain ⟨hcents, ⟨hpos, hlt⟩, -⟩ := h
    have hqty : (max 1 size).toNat = toQty size := by
      rw [toQty, Int.emod_eq_of_lt hpos.le hlt, max_eq_right hpos]
    have habs : |size| < 2 ^ 32 := by rwa [abs_of_pos hpos]
    exact ⟨toTicks_fixed hround hcents (not_le.mp hs),
      by rw [toLots_intText hround habs, hqty]⟩

theorem IsBest.qty (h : IsBest side m p q) (hm : ∀ x ∈ m, PriceInRange x) :
    (if p = priceInvalid then qtyInvalid else q) = q := by
  rcases h with ⟨-, hp, hq⟩ | ⟨hl, -⟩
  · rw [if_pos hp, hq]
  · have hinv : priceInvalid = 2 ^ 63 - 1 := rfl
    have hN : (meMaxPriceLevels : ℤ) = 131072 := rfl
    have hlt := (hm p (mem_of_lookup hl)).2
    rw [if_neg (by omega)]

theorem IsBest.mem (h : IsBest side m p q) (hp : p ≠ priceInvalid) : p ∈ m := by
  rcases h with ⟨-, hinv, -⟩ | ⟨hl, -⟩
  · exact absurd hinv hp
  · exact mem_of_lookup hl

end Sides

section Rows

variable {round : ℚ → ℚ} {levels : ℕ} {row : Row}

theorem TapeTop.Reads.unique {top : TapeTop} {q q' : Quote} (h : top.Reads round q)
    (h' : top.Reads round q') : q = q' := by
  obtain ⟨⟨bp, bq⟩, ap, aq⟩ := q
  obtain ⟨⟨bp', bq'⟩, ap', aq'⟩ := q'
  obtain rfl : bp = bp' := Except.ok.inj (h.bidPrice.symm.trans h'.bidPrice)
  obtain rfl : bq = bq' := Except.ok.inj (h.bidQty.symm.trans h'.bidQty)
  obtain rfl : ap = ap' := Except.ok.inj (h.askPrice.symm.trans h'.askPrice)
  obtain rfl : aq = aq' := Except.ok.inj (h.askQty.symm.trans h'.askQty)
  rfl

theorem toNanos_ok {ts : ℤ} (h : -2 ^ 63 ≤ ts ∧ ts < 2 ^ 63) : toNanos ts = .ok ts := by
  rw [toNanos, require_of _ h]
  rfl

theorem TapeTop.Reads.event {top : TapeTop} {q : Quote} (h : top.Reads round q) {ts : ℤ}
    (hts : -2 ^ 63 ≤ ts ∧ ts < 2 ^ 63) :
    (top.row ts).event (lobsterCfg round) = .ok (.book ⟨ts, q.1.1, q.1.2, q.2.1, q.2.2⟩) := by
  change (toNanos ts >>= fun _ => _) = _
  rw [toNanos_ok hts, ok_bind]
  change (toTicks (lobsterCfg round) top.bidPrice >>= fun _ => _) = _
  rw [h.bidPrice, ok_bind]
  change (toLots (lobsterCfg round) top.bidQty >>= fun _ => _) = _
  rw [h.bidQty, ok_bind]
  change (toTicks (lobsterCfg round) top.askPrice >>= fun _ => _) = _
  rw [h.askPrice, ok_bind]
  change (toLots (lobsterCfg round) top.askQty >>= fun _ => _) = _
  rw [h.askQty]
  rfl

theorem execRow_event (hround : Rounding.Near round) {m : Message} (h : m.Fits) :
    ∃ ev, (execRow m).event (lobsterCfg round) = .ok (.trade ev) := by
  obtain ⟨price, hprice⟩ := toTicks_ok hround h.price
  refine ⟨⟨m.ts, price, (max 1 m.size).toNat, if isSet (execRow m).isBuyerMaker then .sell else .buy⟩,
    ?_⟩
  change (toNanos m.ts >>= fun _ => _) = _
  rw [toNanos_ok h.ts, ok_bind]
  change (toTicks (lobsterCfg round) (Decimal.fixed 4 m.price) >>= fun _ => _) = _
  rw [hprice, ok_bind]
  change (toLots (lobsterCfg round) (Decimal.intText m.size) >>= fun _ => _) = _
  rw [toLots_intText hround h.size]
  rfl

theorem Row.Proper.quote {q : Quote} (h : row.Proper levels)
    (hbid : IsBest .buy (row.bids levels) q.1.1 q.1.2)
    (hask : IsBest .sell (row.asks levels) q.2.1 q.2.2) (ts : ℤ) :
    BookTopEvent.Proper ⟨ts, q.1.1, q.1.2, q.2.1, q.2.2⟩ := by
  intro hbp hap
  have hb := hbid.mem hbp
  have ha := hask.mem hap
  have hlow := (h.bidRange _ hb).1
  have hhigh := (h.askRange _ ha).2
  refine ⟨h.uncrossed _ hb _ ha, ?_⟩
  dsimp only
  omega

theorem Row.Regular.first (h : row.Regular levels) : ∃ askP askS bidP bidS v,
    row.orderbook = askP :: askS :: bidP :: bidS :: v ∧
      row.quote = (cents bidP bidS, cents askP askS) ∧ row.message.Fits ∧
      FirstIsBest .buy (row.bids levels) bidP bidS ∧
      FirstIsBest .sell (row.asks levels) askP askS := by
  unfold Row.Regular at h
  split at h
  · next askP askS bidP bidS v hbook =>
    refine ⟨askP, askS, bidP, bidS, v, hbook, ?_, h⟩
    rw [Row.quote, hbook]
  · exact h.elim

theorem Row.Regular.best (h : row.Regular levels) :
    IsBest .buy (row.bids levels) row.quote.1.1 row.quote.1.2 ∧
      IsBest .sell (row.asks levels) row.quote.2.1 row.quote.2.2 := by
  obtain ⟨_, _, _, _, _, -, hquote, -, hbid, hask⟩ := h.first
  rw [hquote]
  exact ⟨hbid.isBest, hask.isBest⟩

end Rows

section Tape

variable {round : ℚ → ℚ} {levels : ℕ} {t : BookTopEvent}

theorem execRows_events (hround : Rounding.Near round) {m : Message} (h : m.Fits)
    (t : BookTopEvent) :
    ∃ evs, (execRows m).mapM (TapeRow.event (lobsterCfg round)) = .ok evs ∧ (∀ ev ∈ evs, ev.Proper) ∧
      evs.countP TapeEvent.isBook = 0 ∧ evs.foldl TapeEvent.touch t = t := by
  unfold execRows
  split_ifs
  · obtain ⟨ev, hev⟩ := execRow_event hround h
    refine ⟨[.trade ev], ?_, fun x hx => ?_, rfl, rfl⟩
    · rw [List.mapM_cons, hev, ok_bind, List.mapM_nil]
      rfl
    · rw [List.mem_singleton.mp hx]
      trivial
  · exact ⟨[], rfl, fun x hx => absurd hx List.not_mem_nil, rfl, rfl⟩

/-- A row is left out only when it would repeat what the reader has last been told. -/
theorem topRows_events {top : TapeTop} {q : Quote} {ts : ℤ} {last : Option TapeTop}
    (hreads : top.Reads round q) (hts : -2 ^ 63 ≤ ts ∧ ts < 2 ^ 63)
    (hproper : BookTopEvent.Proper ⟨ts, q.1.1, q.1.2, q.2.1, q.2.2⟩)
    (hlast : ∀ x, last = some x → x.Reads round t.quote) :
    ∃ evs, (topRows ts last top).mapM (TapeRow.event (lobsterCfg round)) = .ok evs ∧
      (∀ ev ∈ evs, ev.Proper) ∧ evs.countP TapeEvent.isBook ≤ 1 ∧
      (evs.foldl TapeEvent.touch t).quote = q := by
  unfold topRows
  split_ifs with h
  · refine ⟨[], rfl, fun x hx => absurd hx List.not_mem_nil, Nat.zero_le _, ?_⟩
    exact (hlast top h.symm).unique hreads
  · refine ⟨[.book ⟨ts, q.1.1, q.1.2, q.2.1, q.2.2⟩], ?_, fun x hx => ?_, Nat.le_refl 1, rfl⟩
    · rw [List.mapM_cons, hreads.event hts, ok_bind, List.mapM_nil]
      rfl
    · rw [List.mem_singleton.mp hx]
      exact hproper

theorem lobsterToTape_events (hround : Rounding.Near round) {lines : List (Option Row)}
    (hrows : ∀ row ∈ lines.filterMap id, row.Proper levels ∧ row.Regular levels)
    {last : Option TapeTop} (hlast : ∀ x, last = some x → x.Reads round t.quote) :
    ∃ evs, (lobsterToTape last lines).mapM (TapeRow.event (lobsterCfg round)) = .ok evs ∧
      (∀ ev ∈ evs, ev.Proper) ∧
      evs.countP TapeEvent.isBook ≤ (lines.filterMap id).length ∧
      (evs.foldl TapeEvent.touch t).quote =
        ((lines.filterMap id).getLast?.map Row.quote).getD t.quote := by
  induction lines generalizing last t with
  | nil => exact ⟨[], rfl, fun x hx => absurd hx List.not_mem_nil, Nat.le_refl 0, rfl⟩
  | cons line lines ih =>
    cases line with
    | none => exact ih hrows hlast
    | some row =>
      obtain ⟨hrow, hregular⟩ := hrows row (List.mem_cons_self ..)
      obtain ⟨askP, askS, bidP, bidS, v, hbook, hquote, hfits, hbid, hask⟩ := hregular.first
      have hreads : (tapeTop askP askS bidP bidS).Reads round row.quote := by
        rw [hquote]
        exact ⟨(hbid.reads hround).1, (hbid.reads hround).2, (hask.reads hround).1,
          (hask.reads hround).2⟩
      have hproper := hrow.quote hregular.best.1 hregular.best.2 row.message.ts
      obtain ⟨execs, hexecs, hexecsProper, hnone, hsame⟩ := execRows_events hround hfits t
      obtain ⟨tops, htops, htopsProper, hone, htouch⟩ := topRows_events hreads hfits.ts hproper hlast
      obtain ⟨evs, hevs, hevsProper, hcount, hend⟩ :=
        @ih (tops.foldl TapeEvent.touch t) (fun x hx => hrows x (List.mem_cons_of_mem _ hx))
          (some (tapeTop askP askS bidP bidS)) (by
            rintro x ⟨⟩
            rw [htouch]
            exact hreads)
      refine ⟨execs ++ tops ++ evs, ?_, ?_, ?_, ?_⟩
      · rw [lobsterToTape, hbook]
        dsimp only
        rw [List.mapM_append, List.mapM_append, hexecs, ok_bind, htops, ok_bind]
        change (Except.ok (execs ++ tops) >>= fun _ => _) = _
        rw [ok_bind, hevs]
        rfl
      · intro ev hev
        rcases List.mem_append.mp hev with hev | hev
        · rcases List.mem_append.mp hev with hev | hev
          · exact hexecsProper ev hev
          · exact htopsProper ev hev
        · exact hevsProper ev hev
      · rw [List.countP_append, List.countP_append, hnone, List.filterMap_cons]
        dsimp only [id]
        rw [List.length_cons]
        omega
      · rw [List.foldl_append, List.foldl_append, hsame, hend, htouch, List.filterMap_cons]
        dsimp only [id]
        rw [List.getLast?_cons]
        cases (lines.filterMap id).getLast? <;> rfl

theorem isEvent_lobsterToTape (last : Option TapeTop) (lines : List (Option Row)) :
    ∀ r ∈ lobsterToTape last lines, r.IsEvent ∧ r.Plain := by
  induction lines generalizing last with
  | nil =>
    intro r hr
    cases hr
  | cons line lines ih =>
    cases line with
    | none => exact ih last
    | some row =>
      rw [lobsterToTape]
      split
      · next askP askS bidP bidS v _ =>
        intro r hr
        rcases List.mem_append.mp hr with hr | hr
        · rcases List.mem_append.mp hr with hr | hr
          · unfold execRows at hr
            split_ifs at hr
            · rw [List.mem_singleton.mp hr]
              exact ⟨.inr rfl, plain_execRow _⟩
            · cases hr
          · unfold topRows at hr
            split_ifs at hr
            · cases hr
            · rw [List.mem_singleton.mp hr]
              exact ⟨.inl rfl, plain_topRow askP askS bidP bidS _⟩
        · exact ih _ r hr
      · exact ih last

end Tape

def Quote.bbo (q : Quote) : BBO where
  bidPrice := q.1.1
  askPrice := q.2.1
  bidQty := if q.1.1 = priceInvalid then qtyInvalid else q.1.2
  askQty := if q.2.1 = priceInvalid then qtyInvalid else q.2.2

theorem Displays.bbo {m : MarketOrderBook} {bids asks : PriceMap} {q : Quote}
    (h : Displays m bids asks) (hbid : IsBest .buy bids q.1.1 q.1.2)
    (hask : IsBest .sell asks q.2.1 q.2.2) (hb : ∀ x ∈ bids, PriceInRange x)
    (ha : ∀ x ∈ asks, PriceInRange x) : m.bbo = Quote.bbo q := by
  obtain ⟨hbp, hbq⟩ := h.bestBid.unique hbid
  obtain ⟨hap, haq⟩ := h.bestAsk.unique hask
  rw [Quote.bbo, hbid.qty hb, hask.qty ha, ← hbp, ← hbq, ← hap, ← haq]

theorem l1_and_l3_replays_agree {K : Type} [Field K] [LinearOrder K] [IsStrictOrderedRing K]
    [FloorRing K] (P : Platform K) (clock : ℕ → ℤ) (checked : Bool) (hash : ℕ → HashOrder)
    (dtNs : ℚ → ℤ) {round : ℚ → ℚ} (hround : Rounding.Near round) {tickerId : ℕ}
    (ht : tickerId < meMaxTickers) (cfg : StrategyCfg K) (hvpin : cfg.features.VpinWhole)
    (openVwap : ℕ → ℕ → K) (levels : ℕ) (lines : List (Option Row))
    (hrows : ∀ row ∈ lines.filterMap id, row.Proper levels ∧ row.Regular levels)
    (hcompat : Compatible levels ∅ (lines.filterMap id))
    (hlen : (lines.filterMap id).length ≤ 200000) :
    (backtest tickerId cfg (MarketOrderBook.new checked) openVwap).EachUpdate
        (strategyCalls P clock tickerId cfg MarketOrderBook.calls) VpinEnds
        (lobsterEvents ((LobsterReader.new tickerId levels 0 lines).left hash)) ∧
      ∃ turns, ∀ fuel, turns < fuel → ∃ tape l1 l3,
        (TapeReader.new (lobsterCfg round) (tapeFile (lobsterToTape none lines))).drain dtNs fuel =
          .ok tape ∧
        (backtest tickerId cfg (MarketOrderBook.new checked) openVwap).EachUpdate
          (strategyCalls P clock tickerId cfg MarketOrderBook.calls) VpinEnds tape ∧
        (backtest tickerId cfg (MarketOrderBook.new checked) openVwap).runReader
          (strategyCalls P clock tickerId cfg MarketOrderBook.calls) dtNs fuel
          (.new (lobsterCfg round) (tapeFile (lobsterToTape none lines))) = .ok l1 ∧
        (backtest tickerId cfg (MarketOrderBook.new checked) openVwap).runLobster
          (strategyCalls P clock tickerId cfg MarketOrderBook.calls) hash fuel
          (.new tickerId levels 0 lines) = .ok l3 ∧
        (l1.engine.books tickerId).bbo = (l3.engine.books tickerId).bbo := by
  set rows := lobsterToTape none lines with hrowsEq
  obtain ⟨evs, hevs, hproper, hcount, hquote⟩ :=
    @lobsterToTape_events round levels .empty hround lines hrows none (by rintro x ⟨⟩)
  have hevent := isEvent_lobsterToTape none lines
  have hl3 {fuel : ℕ} (hfuel : lines.length +
      ((LobsterReader.new tickerId levels 0 lines).left hash).length < fuel) :=
    l3_replay P clock cfg checked hash ht hvpin openVwap
      (show ∀ row ∈ replayedRows 0 lines, row.Proper levels from fun row hrow => (hrows row hrow).1)
      hcompat hfuel
  refine ⟨(hl3 (Nat.lt_succ_self _)).1, max (rows.length + 1)
    (lines.length + ((LobsterReader.new tickerId levels 0 lines).left hash).length),
    fun fuel hfuel => ?_⟩
  obtain ⟨hfuel₁, hfuel₃⟩ := max_lt_iff.mp hfuel
  have hdrain : (TapeReader.new (lobsterCfg round) (tapeFile rows)).drain dtNs fuel = .ok evs := by
    rw [drain_tapeFile dtNs rfl (fun r hr => (hevent r hr).2) hfuel₁,
      rowEvents_eq fun r hr => (hevent r hr).1]
    change (rows.take (rows.length + 1)).mapM _ = _
    rw [List.take_of_length_le (Nat.le_succ _), hevs]
  obtain ⟨hends, l1, hl1, -, hbbo, -⟩ := l1_replay P clock cfg checked ht hvpin openVwap hdrain
    hproper (hcount.trans hlen)
  obtain ⟨-, l3, hl3, -, hdisp⟩ := hl3 hfuel₃
  have hlast : lastTouch evs = evs.foldl TapeEvent.touch .empty := rfl
  refine ⟨evs, l1, l3, hdrain, hends, hl1, hl3, hbbo.trans ?_⟩
  change Quote.bbo (lastTouch evs).quote = _
  rw [hlast, hquote]
  have hleft : (LobsterReader.new tickerId levels 0 lines).rowsLeft = lines.filterMap id := rfl
  rw [LobsterReader.lastBook, hleft] at hdisp
  cases hend : (lines.filterMap id).getLast? with
  | none =>
    rw [hend] at hdisp
    have hnone : ∀ x ∈ (∅ : PriceMap), PriceInRange x := fun x hx => absurd hx (AList.notMem_empty x)
    have hbbo₃ := @Displays.bbo _ _ _ ((priceInvalid, qtyInvalid), priceInvalid, qtyInvalid) hdisp
      (.inl ⟨rfl, rfl, rfl⟩) (.inl ⟨rfl, rfl, rfl⟩) hnone hnone
    rw [hbbo₃]
    rfl
  | some row =>
    obtain ⟨hrow, hregular⟩ := hrows row (List.mem_of_getLast? hend)
    rw [hend] at hdisp
    exact (hdisp.bbo hregular.best.1 hregular.best.2 hrow.bidRange hrow.askRange).symm

def lobsterLines : List (Option Row) :=
  [some ⟨⟨1, 1, 7, 10000, 1⟩, [10200, 5, 10000, 7, 10300, 4, 9900, 2]⟩, none,
    some ⟨⟨2, 4, 5, 10200, -1⟩, [10300, 4, 10100, 7, 10400, 1, 10000, 7]⟩,
    some ⟨⟨3, 3, 4, 10300, -1⟩, [9999999999, 0, 10100, 7, 9999999999, 0, 10000, 7]⟩]

theorem l1_and_l3_replays_agree_sample :
    ∃ turns, ∀ fuel, turns < fuel → ∃ l1 l3,
      (backtest 0 bucketCfg (MarketOrderBook.new true) fun _ _ => 0).runReader
          (strategyCalls exactPlatform (fun _ => 0) 0 bucketCfg MarketOrderBook.calls) (fun _ => 0)
          fuel (.new (lobsterCfg Rounding.nearest) (tapeFile (lobsterToTape none lobsterLines))) =
            .ok l1 ∧
        (backtest 0 bucketCfg (MarketOrderBook.new true) fun _ _ => 0).runLobster
          (strategyCalls exactPlatform (fun _ => 0) 0 bucketCfg MarketOrderBook.calls)
          (fun _ => inOrder) fuel (.new 0 2 0 lobsterLines) = .ok l3 ∧
        (l1.engine.books 0).bbo = (l3.engine.books 0).bbo := by
  obtain ⟨-, turns, h⟩ := l1_and_l3_replays_agree exactPlatform (fun _ => 0) true
    (fun _ => inOrder) (fun _ => 0) Rounding.near_nearest (show 0 < meMaxTickers by decide)
    bucketCfg (fun _ _ => ⟨2, by decide, by norm_num [bucketCfg]⟩) (fun _ _ => 0) 2 lobsterLines
    (by decide) (by decide) (by decide)
  refine ⟨turns, fun fuel hfuel => ?_⟩
  obtain ⟨_, l1, l3, -, -, hl1, hl3, hbbo⟩ := h fuel hfuel
  exact ⟨l1, l3, hl1, hl3, hbbo⟩

end Backtest
