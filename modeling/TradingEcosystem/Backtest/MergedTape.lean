import TradingEcosystem.Backtest.TapeFile

namespace Backtest

open Common Exchange Trading

/-- What `merge_binance.py` uses of a row of the book file; `eventTime` is `int(event_time)`. -/
structure BookTickerRow where
  bestBidPrice : List Char
  bestBidQty : List Char
  bestAskPrice : List Char
  bestAskQty : List Char
  eventTime : ℤ

structure TradesRow where
  price : List Char
  qty : List Char
  time : ℤ
  isBuyerMaker : List Char

def BookTickerRow.tapeRow (r : BookTickerRow) : TapeRow :=
  ⟨r.eventTime * 1000000, ['B'], [], [], r.bestBidPrice, r.bestBidQty, r.bestAskPrice,
    r.bestAskQty, []⟩

def isTrueWord (s : List Char) : Bool :=
  s.map Char.toLower = "true".toList || s.map Char.toLower = ['1']

def TradesRow.tapeRow (r : TradesRow) : TapeRow :=
  ⟨r.time * 1000000, ['T'], r.price, r.qty, [], [], [], [],
    if isTrueWord r.isBuyerMaker then ['1'] else ['0']⟩

def rawRows (books : List BookTickerRow) (trades : List TradesRow) : List TapeRow :=
  books.map BookTickerRow.tapeRow ++ trades.map TradesRow.tapeRow

def notAfter (a b : TapeRow) : Bool := a.tsNs ≤ b.tsNs

/-- `events.sort(key=lambda r: r[0])`, which is stable. -/
def mergeBinance (books : List BookTickerRow) (trades : List TradesRow) : List TapeRow :=
  (rawRows books trades).mergeSort notAfter

def TapeRow.event (cfg : TapeReaderCfg) (r : TapeRow) : Outcome TapeEvent := do
  let tsNs ← toNanos r.tsNs
  if r.kind = ['B'] then do
    let bidPrice ← toTicks cfg r.bidPrice
    let bidQty ← toLots cfg r.bidQty
    let askPrice ← toTicks cfg r.askPrice
    let askQty ← toLots cfg r.askQty
    pure (.book ⟨tsNs, bidPrice, bidQty, askPrice, askQty⟩)
  else do
    let price ← toTicks cfg r.price
    let qty ← toLots cfg r.qty
    pure (.trade ⟨tsNs, price, qty, if isSet r.isBuyerMaker then .sell else .buy⟩)

def TapeRow.IsEvent (r : TapeRow) : Prop := r.kind = ['B'] ∨ r.kind = ['T']

instance (r : TapeRow) : Decidable r.IsEvent := inferInstanceAs (Decidable (_ ∨ _))

section Rows

variable {cfg : TapeReaderCfg} {r : TapeRow} {rows : List TapeRow}

theorem rowEvent_eq (h : r.IsEvent) : rowEvent cfg r = r.event cfg >>= fun ev => pure (some ev) := by
  unfold rowEvent TapeRow.event
  rw [bind_assoc]
  refine bind_congr fun tsNs => ?_
  rcases h with h | h
  · rw [if_pos h, if_pos h]
    simp only [bind_assoc, pure_bind]
  · have hb : r.kind ≠ ['B'] := by rw [h]; decide
    rw [if_neg hb, if_pos h, if_neg hb]
    simp only [bind_assoc, pure_bind]

theorem rowEvents_eq (h : ∀ r ∈ rows, r.IsEvent) (n : ℕ) :
    rowEvents cfg n rows = (rows.take n).mapM (TapeRow.event cfg) := by
  induction rows generalizing n with
  | nil => cases n <;> rfl
  | cons r rows ih =>
    cases n with
    | zero => rfl
    | succ n =>
      rw [rowEvents, rowEvent_eq (h r (List.mem_cons_self ..)), List.take_succ_cons, List.mapM_cons,
        bind_assoc]
      refine bind_congr fun ev => ?_
      rw [pure_bind]
      dsimp only
      rw [ih fun x hx => h x (List.mem_cons_of_mem _ hx)]

theorem event_nowNs {ev : TapeEvent} (h : r.event cfg = .ok ev) : ev.nowNs = r.tsNs := by
  obtain ⟨tsNs, hts, h⟩ := bind_eq_ok.mp h
  obtain ⟨_, -, hts⟩ := bind_eq_ok.mp hts
  cases hts
  by_cases hb : r.kind = ['B']
  · rw [if_pos hb] at h
    obtain ⟨_, -, h⟩ := bind_eq_ok.mp h
    obtain ⟨_, -, h⟩ := bind_eq_ok.mp h
    obtain ⟨_, -, h⟩ := bind_eq_ok.mp h
    obtain ⟨_, -, h⟩ := bind_eq_ok.mp h
    cases h
    rfl
  · rw [if_neg hb] at h
    obtain ⟨_, -, h⟩ := bind_eq_ok.mp h
    obtain ⟨_, -, h⟩ := bind_eq_ok.mp h
    cases h
    rfl

theorem mapM_nowNs {tape : List TapeEvent} (h : rows.mapM (TapeRow.event cfg) = .ok tape) :
    tape.map TapeEvent.nowNs = rows.map TapeRow.tsNs := by
  induction rows generalizing tape with
  | nil =>
    cases h
    rfl
  | cons r rows ih =>
    rw [List.mapM_cons] at h
    obtain ⟨ev, hev, h⟩ := bind_eq_ok.mp h
    obtain ⟨rest, hrest, h⟩ := bind_eq_ok.mp h
    cases h
    rw [List.map_cons, List.map_cons, event_nowNs hev, ih hrest]

theorem notAfter_trans (a b c : TapeRow) (hab : notAfter a b) (hbc : notAfter b c) :
    notAfter a c :=
  decide_eq_true ((of_decide_eq_true hab).trans (of_decide_eq_true hbc))

theorem notAfter_total (a b : TapeRow) : (notAfter a b || notAfter b a) = true := by
  simpa [notAfter] using le_total a.tsNs b.tsNs

end Rows

section Merge

variable {books : List BookTickerRow} {trades : List TradesRow}

theorem isEvent_rawRows : ∀ r ∈ rawRows books trades, r.IsEvent := by
  intro r hr
  rcases List.mem_append.mp hr with hr | hr
  · obtain ⟨b, -, rfl⟩ := List.mem_map.mp hr
    exact .inl rfl
  · obtain ⟨t, -, rfl⟩ := List.mem_map.mp hr
    exact .inr rfl

theorem mergeBinance_perm : (mergeBinance books trades).Perm (rawRows books trades) :=
  List.mergeSort_perm _ _

theorem mergeBinance_sorted : (mergeBinance books trades).Pairwise fun a b => a.tsNs ≤ b.tsNs :=
  (List.pairwise_mergeSort notAfter_trans notAfter_total _).imp of_decide_eq_true

end Merge

theorem merged_tape_reads_back (dtNs : ℚ → ℤ) (cfg : TapeReaderCfg) (hf : cfg.format = .binance)
    (hround : Rounding.Near cfg.round) (htick : ProperStep cfg.tickSize)
    (hlot : ProperStep cfg.qtyStep) (books : List BookTickerRow) (trades : List TradesRow)
    (hplain : ∀ r ∈ rawRows books trades, r.Plain ∧ r.Numeric) {fuel : ℕ}
    (hfuel : books.length + trades.length + 1 < fuel) :
    (TapeReader.new cfg (tapeFile (mergeBinance books trades))).drain dtNs fuel =
        ((mergeBinance books trades).take
          (cfg.allowance (books.length + trades.length + 1))).mapM (TapeRow.event cfg) ∧
      (mergeBinance books trades).Perm (rawRows books trades) ∧
      (∀ a b, [a, b].Sublist (rawRows books trades) → a.tsNs ≤ b.tsNs →
        [a, b].Sublist (mergeBinance books trades)) ∧
      (∀ tape, (TapeReader.new cfg (tapeFile (mergeBinance books trades))).drain dtNs fuel =
        .ok tape → (tape.map TapeEvent.nowNs).Pairwise (· ≤ ·)) ∧
      ∀ r ∈ rawRows books trades, ∀ s ∈ r.numbers, ∀ x, Decimal.number s = some x → ∀ n : ℤ,
        (OnGrid cfg.tickSize x n → |n| ≤ 2 ^ 48 → toTicks cfg s = .ok n) ∧
          (OnGrid cfg.qtyStep x n → |n| < 2 ^ 32 → toLots cfg s = .ok (max 1 n).toNat) := by
  have hlen : (mergeBinance books trades).length = books.length + trades.length := by
    rw [mergeBinance_perm.length_eq, rawRows, List.length_append, List.length_map, List.length_map]
  have hread : (TapeReader.new cfg (tapeFile (mergeBinance books trades))).drain dtNs fuel =
      ((mergeBinance books trades).take
        (cfg.allowance (books.length + trades.length + 1))).mapM (TapeRow.event cfg) := by
    rw [drain_tapeFile dtNs hf (fun r hr => (hplain r (mergeBinance_perm.mem_iff.mp hr)).1)
      (by rw [hlen]; exact hfuel), hlen]
    exact rowEvents_eq (fun r hr => isEvent_rawRows r (mergeBinance_perm.mem_iff.mp hr)) _
  refine ⟨hread, mergeBinance_perm, fun a b hab hle => ?_, fun tape htape => ?_,
    fun r _ s _ x hx n => ⟨fun hgrid hn => ?_, fun hgrid hn => ?_⟩⟩
  · exact List.pair_sublist_mergeSort notAfter_trans notAfter_total (decide_eq_true hle) hab
  · rw [hread] at htape
    rw [mapM_nowNs htape, List.pairwise_map]
    exact mergeBinance_sorted.sublist (List.take_sublist _ _)
  · exact toTicks_onGrid hround htick hx hgrid hn
  · exact toLots_onGrid hround hlot hx hgrid hn

def sampleBooks : List BookTickerRow :=
  [⟨"100.25".toList, "5".toList, "100.5".toList, "7".toList, 2⟩]

def sampleTrades : List TradesRow := [⟨"100.5".toList, "4".toList, 1, "False".toList⟩]

/-- Ticks of an eighth: no operation on a field has a result that a `double` would round. -/
def eighthsCfg : TapeReaderCfg := ⟨.binance, 1 / 8, 1, 0, id⟩

theorem merged_tape_reads_back_sample :
    (TapeReader.new eighthsCfg (tapeFile (mergeBinance sampleBooks sampleTrades))).drain
        (fun _ => 0) 9 = .ok [.trade ⟨1000000, 804, 4, .buy⟩, .book ⟨2000000, 802, 5, 804, 7⟩] := by
  have hstep : ProperStep eighthsCfg.tickSize ∧ ProperStep eighthsCfg.qtyStep := by
    norm_num [ProperStep, eighthsCfg]
  obtain ⟨hread, -⟩ := merged_tape_reads_back (fun _ => 0) eighthsCfg rfl Rounding.near_id hstep.1
    hstep.2 sampleBooks sampleTrades (by decide +kernel)
    (show sampleBooks.length + sampleTrades.length + 1 < 9 by decide)
  have hsort : mergeBinance sampleBooks sampleTrades =
      sampleTrades.map TradesRow.tapeRow ++ sampleBooks.map BookTickerRow.tapeRow := by
    simp [mergeBinance, rawRows, sampleBooks, sampleTrades, List.mergeSort, notAfter,
      BookTickerRow.tapeRow, TradesRow.tapeRow]
  rw [hread, hsort]
  decide +kernel

end Backtest
