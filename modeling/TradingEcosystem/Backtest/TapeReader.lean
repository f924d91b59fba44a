import TradingEcosystem.Backtest.BacktestEngine
import TradingEcosystem.Library.Decimal
import TradingEcosystem.Library.Delimited
import TradingEcosystem.Library.Rounding
import TradingEcosystem.Library.Xorshift

namespace Backtest

open Common Exchange Trading

/-- Every format that is not `binance` is read as the synthetic one. -/
inductive TapeFormat where
  | binance
  | synth
  deriving DecidableEq, Repr

/-- `round` is what a `double` keeps of the exact result of an operation. -/
structure TapeReaderCfg where
  format : TapeFormat
  tickSize : ℚ
  qtyStep : ℚ
  maxEvents : ℕ
  round : ℚ → ℚ

structure Synth where
  seed : BitVec 64
  mid : ℤ
  ns : ℤ
  deriving DecidableEq

def kAnchor : ℤ := 100000
def kBandHalf : ℤ := 100

namespace Synth

def new : Synth := ⟨0xC0FFEE, 100000, 0⟩

def rng (s : Synth) : BitVec 64 × Synth :=
  let x := Xorshift.step 12 25 27 s.seed
  (x * 2685821657736338717, { s with seed := x })

/-- `uniform(0.0, 1.0)`: 53 bits, which a `double` holds exactly. -/
def uniform (s : Synth) : ℚ × Synth :=
  let (x, s) := s.rng
  ((x >>> 11).toNat / 2 ^ 53, s)

/-- `dtNs u` is `static_cast<Nanos>(-std::log(u) * 50'000.0)`. -/
def arrive (dtNs : ℚ → ℤ) (s : Synth) : Synth :=
  let (u, s) := s.uniform
  { s with ns := s.ns + dtNs (max (1 / 10 ^ 9) u) }

def jump (p : ℚ) (ticks : ℤ) (s : Synth) : Synth :=
  let (u, s) := s.uniform
  if u < p then
    let (v, s) := s.uniform
    { s with mid := s.mid + if v < 1 / 2 then ticks else -ticks }
  else s

def pull (s : Synth) : Synth := { s with mid := s.mid - (s.mid - kAnchor).tdiv 64 }

def clamp (s : Synth) : Synth :=
  let s := if s.mid < kAnchor - kBandHalf then { s with mid := kAnchor - kBandHalf } else s
  if kAnchor + kBandHalf < s.mid then { s with mid := kAnchor + kBandHalf } else s

-- No multiple of `2 ^ -53` lies between 0.55 or 0.002 and the `double` next to it.
def walk (s : Synth) : Synth := (jump (1 / 500) 5 (jump (11 / 20) 1 s)).pull.clamp

def trade (s : Synth) : TradeEvent × Synth :=
  let (u, s) := s.uniform
  let side := if u < 1 / 2 then Side.buy else .sell
  let (x, s) := s.rng
  (⟨s.ns, s.mid + if side = .buy then 1 else -1, 1 + (x % 4).toNat, side⟩, s)

def book (s : Synth) : BookTopEvent × Synth :=
  let (x, s) := s.rng
  let (y, s) := s.rng
  (⟨s.ns, s.mid - 1, 1 + (x % 3).toNat, s.mid + 1, 1 + (y % 3).toNat⟩, s)

def emit (s : Synth) : TapeEvent × Synth :=
  let (u, s) := s.uniform
  if u < 11 / 20 then
    let (ev, s) := s.trade
    (.trade ev, s)
  else
    let (ev, s) := s.book
    (.book ev, s)

def next (dtNs : ℚ → ℤ) (s : Synth) : TapeEvent × Synth := (s.arrive dtNs).walk.emit

end Synth

def toNanos (x : ℤ) : Outcome ℤ := do
  require (-2 ^ 63 ≤ x ∧ x < 2 ^ 63) .fatal
  pure x

/-- An exception of `stoll` or `stod` ends the program. -/
def stoll (s : List Char) : Outcome ℤ :=
  match Decimal.int s with
  | none => .error .fatal
  | some x => toNanos x

/-- Decimal texts only: no field is in hexadecimal, infinite or not a number. -/
def stod (cfg : TapeReaderCfg) (s : List Char) : Outcome ℚ :=
  match Decimal.number s with
  | none => .error .fatal
  | some x => pure (cfg.round x)

def llround (x : ℚ) : ℤ := if 0 ≤ x then ⌊x + 1 / 2⌋ else -⌊-x + 1 / 2⌋

def toTicks (cfg : TapeReaderCfg) (s : List Char) : Outcome ℤ :=
  if s = [] then pure priceInvalid
  else do
    let x ← stod cfg s
    int64 (llround (cfg.round (x / cfg.tickSize)))

def toLots (cfg : TapeReaderCfg) (s : List Char) : Outcome ℕ :=
  if s = [] then pure qtyInvalid
  else do
    let x ← stod cfg s
    let lots := max 1 (llround (cfg.round (x / cfg.qtyStep)))
    -- past the type the cast to a Qty is undefined
    require (lots < 2 ^ 32) .overflow
    pure lots.toNat

/-- A number of steps that a text gives, to a quarter of a step. -/
def OnGrid (step x : ℚ) (n : ℤ) : Prop := |x / step - n| ≤ 1 / 4

def ProperStep (step : ℚ) : Prop := 1 / 2 ^ 50 ≤ step ∧ step ≤ 2 ^ 50

section Numbers

variable {cfg : TapeReaderCfg} {s : List Char} {x step : ℚ} {n : ℤ}

theorem llround_near {y : ℚ} (h : |y - n| < 1 / 2) : llround y = n := by
  obtain ⟨hlow, hhigh⟩ := abs_lt.mp h
  unfold llround
  split_ifs
  · exact Int.floor_eq_iff.mpr ⟨by linarith, by linarith⟩
  · have hfloor : ⌊-y + 1 / 2⌋ = -n :=
      Int.floor_eq_iff.mpr ⟨by push_cast; linarith, by push_cast; linarith⟩
    rw [hfloor, neg_neg]

theorem llround_onGrid {fl : ℚ → ℚ} (hround : Rounding.Near fl) (hstep : ProperStep step)
    (hgrid : OnGrid step x n) (hn : |n| ≤ 2 ^ 48) : llround (fl (fl x / step)) = n := by
  have habs : |(n : ℚ)| ≤ 2 ^ 48 := by exact_mod_cast hn
  have htri := abs_sub_abs_le_abs_sub (x / step) n
  have hgrid : |x / step - n| ≤ 1 / 4 := hgrid
  have hq : |x / step| ≤ 2 ^ 48 + 1 := by linarith
  have herr := hround.div hstep.1 hstep.2 (hq.trans (by norm_num))
  have hsum := abs_sub_le (fl (fl x / step)) (x / step) n
  exact llround_near (by linarith)

theorem toTicks_onGrid (hround : Rounding.Near cfg.round) (hstep : ProperStep cfg.tickSize)
    (hx : Decimal.number s = some x) (hgrid : OnGrid cfg.tickSize x n) (hn : |n| ≤ 2 ^ 48) :
    toTicks cfg s = .ok n := by
  have hne : s ≠ [] := by
    rintro rfl
    cases hx
  have hbounds := abs_le.mp hn
  have hfits : InInt64 n := ⟨by omega, by omega⟩
  rw [toTicks, if_neg hne, stod, hx]
  change int64 (llround (cfg.round (cfg.round x / cfg.tickSize))) = _
  rw [llround_onGrid hround hstep hgrid hn, int64_eq_ok]
  exact ⟨hfits, rfl⟩

theorem toLots_onGrid (hround : Rounding.Near cfg.round) (hstep : ProperStep cfg.qtyStep)
    (hx : Decimal.number s = some x) (hgrid : OnGrid cfg.qtyStep x n) (hn : |n| < 2 ^ 32) :
    toLots cfg s = .ok (max 1 n).toNat := by
  have hne : s ≠ [] := by
    rintro rfl
    cases hx
  have hbounds := abs_lt.mp hn
  rw [toLots, if_neg hne, stod, hx]
  change (require (max 1 (llround (cfg.round (cfg.round x / cfg.qtyStep))) < 2 ^ 32) .overflow >>=
    fun _ => _) = _
  rw [llround_onGrid hround hstep hgrid (hn.le.trans (by norm_num)),
    require_of _ (by omega : max 1 n < 2 ^ 32), ok_bind]
  rfl

end Numbers

def isHeader : List Char → Bool
  | [] => true
  | c :: _ => c = '#' || c = 't'

def isSet : List Char → Bool
  | [] => false
  | c :: _ => c = 't' || c = '1'

def parseLine (cfg : TapeReaderCfg) (line : List Char) : Outcome (Option TapeEvent) :=
  if isHeader line then pure none
  else
    match Delimited.pieces ',' line with
    | ts :: kind :: p :: q :: bp :: bq :: ap :: aq :: rest => do
        let tsNs ← stoll ts
        if kind = ['B'] then do
          let bidPrice ← toTicks cfg bp
          let bidQty ← toLots cfg bq
          let askPrice ← toTicks cfg ap
          let askQty ← toLots cfg aq
          pure (some (.book ⟨tsNs, bidPrice, bidQty, askPrice, askQty⟩))
        else if kind = ['T'] then do
          let price ← toTicks cfg p
          let qty ← toLots cfg q
          pure (some (.trade ⟨tsNs, price, qty, if isSet (rest.headD []) then .sell else .buy⟩))
        else pure none
    | _ => pure none

/-- `lines` is what `getline` will still take from the file. -/
structure TapeReader where
  cfg : TapeReaderCfg
  lines : List (List Char)
  eof : Bool
  count : ℕ
  synth : Synth

namespace TapeReader

def new (cfg : TapeReaderCfg) (file : List Char) : TapeReader :=
  ⟨cfg, Delimited.pieces '\n' file, false, 0, .new⟩

def nextBinance (r : TapeReader) : List (List Char) → Outcome (Option TapeEvent × TapeReader)
  | [] => pure (none, { r with lines := [], eof := true })
  | line :: rest => do
      match ← parseLine r.cfg line with
      | some ev => pure (some ev, { r with lines := rest })
      | none => r.nextBinance rest

def nextSynth (r : TapeReader) (dtNs : ℚ → ℤ) : Option TapeEvent × TapeReader :=
  if 200000 ≤ r.count then (none, { r with eof := true })
  else
    let (ev, synth) := r.synth.next dtNs
    (some ev, { r with synth := synth })

def nextOf (r : TapeReader) (dtNs : ℚ → ℤ) : Outcome (Option TapeEvent × TapeReader) :=
  match r.cfg.format with
  | .binance => r.nextBinance r.lines
  | .synth => pure (r.nextSynth dtNs)

def next (r : TapeReader) (dtNs : ℚ → ℤ) : Outcome (Option TapeEvent × TapeReader) :=
  if r.eof then pure (none, r)
  else if r.cfg.maxEvents ≠ 0 ∧ r.cfg.maxEvents ≤ r.count then pure (none, { r with eof := true })
  else do
    let (ev, r) ← r.nextOf dtNs
    pure (ev, if ev.isSome then { r with count := r.count + 1 } else r)

def drain (dtNs : ℚ → ℤ) : ℕ → TapeReader → Outcome (List TapeEvent)
  | 0, _ => .error .outOfFuel
  | fuel + 1, r => do
      let (ev, r) ← r.next dtNs
      match ev with
      | none => pure []
      | some ev => do
          let tape ← drain dtNs fuel r
          pure (ev :: tape)

end TapeReader

namespace BacktestEngine

variable {E : Type} (calls : EngineCalls E)

def runReader (dtNs : ℚ → ℤ) : ℕ → TapeReader → BacktestEngine E → Outcome (BacktestEngine E)
  | 0, _, _ => .error .outOfFuel
  | fuel + 1, r, e => do
      let (ev, r) ← r.next dtNs
      match ev with
      | none => e.pumpClientResponses calls
      | some ev => do
          let e ← e.step calls ev
          runReader dtNs fuel r e

variable {calls}

theorem pumpClientResponses_nil {e : BacktestEngine E} (h : e.clientResponses = []) :
    e.pumpClientResponses calls = .ok e := by
  rw [pumpClientResponses, h]
  cases e
  cases h
  rfl

theorem runReader_eq {dtNs : ℚ → ℤ} {fuel : ℕ} {r : TapeReader} {tape : List TapeEvent}
    (h : r.drain dtNs fuel = .ok tape) (e : BacktestEngine E) :
    e.runReader calls dtNs fuel r = e.run calls tape >>= fun e => e.pumpClientResponses calls := by
  induction fuel generalizing r tape e with
  | zero => cases h
  | succ fuel ih =>
    obtain ⟨⟨ev, r'⟩, hnext, h⟩ := bind_eq_ok.mp h
    rw [runReader, hnext, ok_bind]
    cases ev with
    | none =>
      cases h
      rfl
    | some ev =>
      obtain ⟨rest, hrest, h⟩ := bind_eq_ok.mp h
      cases h
      rw [run, bind_assoc]
      exact bind_congr fun e₁ => ih hrest e₁

end BacktestEngine

end Backtest
