import TradingEcosystem.Backtest.L1Replay
import TradingEcosystem.Backtest.QueueSeed

namespace Backtest

open Common Exchange Trading

namespace LobsterReader

def left (hash : ℕ → HashOrder) (r : LobsterReader) : List (ℤ × MEMarketUpdate) :=
  r.pending ++ LobsterReader.tape hash { r with pending := [] } r.lines.length

def after (hash : ℕ → HashOrder) (r : LobsterReader) : ℕ → LobsterReader
  | 0 => r
  | n + 1 => after hash { (r.fillStep (hash r.lines.length)).1 with pending := [] } n

def lastBook (r : LobsterReader) : PriceMap × PriceMap :=
  match r.rowsLeft.getLast? with
  | none => (r.prevBid, r.prevAsk)
  | some row => (row.bids r.levels, row.asks r.levels)

end LobsterReader

namespace BacktestEngine

variable {E : Type} (calls : EngineCalls E)

/-- One turn takes an update from `pending_` or, where there is none, calls `fillStep`. -/
def runLobster (hash : ℕ → HashOrder) :
    ℕ → LobsterReader → BacktestEngine E → Outcome (BacktestEngine E)
  | 0, _, _ => .error .outOfFuel
  | fuel + 1, r, e =>
      match r.pending with
      | (eventNs, u) :: pending => do
          let e ← e.step calls (.update eventNs u)
          runLobster hash fuel { r with pending := pending } e
      | [] =>
          if (r.fillStep (hash r.lines.length)).2 then
            runLobster hash fuel (r.fillStep (hash r.lines.length)).1 e
          else e.pumpClientResponses calls

end BacktestEngine

section Reader

variable {hash : ℕ → HashOrder} {r : LobsterReader} {s : Ladders MarketOrder}

theorem fillStep_done {order : HashOrder} (h : (r.fillStep order).2 = false) :
    (r.fillStep order).1 = { r with eof := true } := by
  unfold LobsterReader.fillStep at h ⊢
  by_cases he : r.eof = true
  · rw [if_pos he, ← he]
  rw [if_neg he] at h ⊢
  by_cases hmax : r.maxEvents ≠ 0 ∧ r.maxEvents ≤ r.count
  · rw [if_pos hmax]
  rw [if_neg hmax] at h ⊢
  cases hl : r.lines with
  | nil => rfl
  | cons line lines =>
    rw [hl] at h
    cases line <;> cases h

theorem fillStep_more {order : HashOrder} (h : (r.fillStep order).2 = true) :
    ∃ line lines, r.lines = line :: lines ∧ (r.fillStep order).1.lines = lines := by
  unfold LobsterReader.fillStep at h ⊢
  by_cases he : r.eof = true
  · rw [if_pos he] at h
    cases h
  rw [if_neg he] at h ⊢
  by_cases hmax : r.maxEvents ≠ 0 ∧ r.maxEvents ≤ r.count
  · rw [if_pos hmax] at h
    cases h
  rw [if_neg hmax] at h ⊢
  cases hl : r.lines with
  | nil =>
    rw [hl] at h
    cases h
  | cons line lines =>
    refine ⟨line, lines, rfl, ?_⟩
    cases line <;> rfl

theorem tape_eof (he : r.eof = true) (hp : r.pending = []) (n : ℕ) : r.tape hash n = [] := by
  induction n with
  | zero => rfl
  | succ n ih =>
    have hfill : (r.fillStep (hash r.lines.length)).1 = r := by
      rw [LobsterReader.fillStep, if_pos he]
    have hr : { r with pending := [] } = r := by rw [← hp]
    rw [LobsterReader.tape]
    simp only [hfill, hr]
    rw [hp, ih, List.append_nil]

theorem after_eof (he : r.eof = true) (hp : r.pending = []) (n : ℕ) : r.after hash n = r := by
  induction n with
  | zero => rfl
  | succ n ih =>
    have hfill : (r.fillStep (hash r.lines.length)).1 = r := by
      rw [LobsterReader.fillStep, if_pos he]
    have hr : { r with pending := [] } = r := by rw [← hp]
    rw [LobsterReader.after, hfill, hr, ih]

theorem left_done (hp : r.pending = []) (h : (r.fillStep (hash r.lines.length)).2 = false) :
    r.left hash = [] := by
  have hr : { r with pending := [] } = r := by rw [← hp]
  rw [LobsterReader.left, hp, List.nil_append, hr]
  cases hl : r.lines.length with
  | zero => rfl
  | succ n =>
    rw [LobsterReader.tape, hl]
    rw [hl] at h
    simp only [fillStep_done h]
    rw [hp, List.nil_append]
    exact tape_eof rfl rfl n

theorem left_more (hp : r.pending = []) (h : (r.fillStep (hash r.lines.length)).2 = true) :
    r.left hash = LobsterReader.left hash (r.fillStep (hash r.lines.length)).1 := by
  obtain ⟨line, lines, hl, hl'⟩ := fillStep_more h
  have hr : { r with pending := [] } = r := by rw [← hp]
  have hlen : r.lines.length = lines.length + 1 := by rw [hl, List.length_cons]
  generalize hr' : (r.fillStep (hash r.lines.length)).1 = r' at hl' ⊢
  rw [LobsterReader.left, hp, List.nil_append, hr, hlen, LobsterReader.tape, hr',
    LobsterReader.left, hl']

theorem Shows.after (hash : ℕ → HashOrder) (h : Shows s r.depth) (hp : r.pending = [])
    (hrows : ∀ row ∈ r.rowsLeft, row.Proper r.levels)
    (hcompat : Compatible r.levels r.prevAsk r.rowsLeft) (n : ℕ) :
    Shows (applyAll s ((r.tape hash n).map Prod.snd)) (r.after hash n).depth := by
  induction n generalizing r s with
  | zero => exact h
  | succ n ih =>
    rw [LobsterReader.tape, LobsterReader.after, List.map_append, applyAll_append]
    rcases fillStep_cases r (hash r.lines.length) with ⟨hleft, hfill⟩ | ⟨lines, -, hfill, hleft⟩ |
      ⟨row, lines, -, hfill, hleft⟩
    · rw [hfill, show ({ r with eof := true } : LobsterReader).pending = [] from hp]
      refine ih (r := { r with eof := true, pending := [] }) h rfl ?_ ?_
      · rintro row ⟨⟩
      · trivial
    · rw [hfill, show ({ r with lines := lines } : LobsterReader).pending = [] from hp]
      rw [hleft] at hrows hcompat
      exact ih (r := { r with lines := lines, pending := [] }) h rfl hrows hcompat
    · have hrow : row.Proper r.levels := hrows row (by simp [hleft])
      rw [hleft, Compatible] at hcompat
      have hstep := Shows.fillRow (r := { r with lines := lines, count := r.count + 1 })
        (hash r.lines.length) h hp hrow hcompat.1
      rw [hfill]
      refine ih hstep.2 rfl ?_ hcompat.2
      intro row' hr'
      exact hrows row' (by rw [hleft]; exact List.mem_cons_of_mem _ hr')

theorem after_lastBook (hash : ℕ → HashOrder) (hp : r.pending = []) {n : ℕ}
    (hn : r.lines.length ≤ n) :
    ((r.after hash n).prevBid, (r.after hash n).prevAsk) = r.lastBook := by
  induction n generalizing r with
  | zero =>
    have hlines : r.lines = [] := List.length_eq_zero_iff.mp (Nat.le_zero.mp hn)
    have hleft : r.rowsLeft = [] := by
      unfold LobsterReader.rowsLeft
      rw [hlines]
      simp
    rw [LobsterReader.lastBook, hleft]
    rfl
  | succ n ih =>
    rw [LobsterReader.after]
    rcases fillStep_cases r (hash r.lines.length) with ⟨hleft, hfill⟩ | ⟨lines, hl, hfill, hleft⟩ |
      ⟨row, lines, hl, hfill, hleft⟩
    · rw [hfill, LobsterReader.lastBook, hleft, after_eof rfl rfl]
      rfl
    · rw [hl, List.length_cons] at hn
      rw [hfill, ih (r := { r with lines := lines, pending := [] }) rfl (Nat.le_of_succ_le_succ hn),
        LobsterReader.lastBook, LobsterReader.lastBook, hleft]
      rfl
    · rw [hl, List.length_cons] at hn
      set r₁ := { r with lines := lines, count := r.count + 1 }.fillRow (hash r.lines.length) row
        with hr₁
      have hbids : r₁.prevBid = row.bids r.levels := rfl
      have hasks : r₁.prevAsk = row.asks r.levels := rfl
      rw [hfill, ih (r := { r₁ with pending := [] }) rfl (Nat.le_of_succ_le_succ hn),
        LobsterReader.lastBook, LobsterReader.lastBook, hleft, List.getLast?_cons]
      have hrest : LobsterReader.rowsLeft { r₁ with pending := [] } = r₁.rowsLeft := rfl
      rw [hrest]
      cases r₁.rowsLeft.getLast? <;> rfl

end Reader

section Run

variable {E : Type} {calls : EngineCalls E} {hash : ℕ → HashOrder}

theorem BacktestEngine.runLobster_eq {r : LobsterReader} {fuel : ℕ}
    (hfuel : r.lines.length + (r.left hash).length < fuel) (e : BacktestEngine E) :
    e.runLobster calls hash fuel r =
      e.run calls (lobsterEvents (r.left hash)) >>= fun e => e.pumpClientResponses calls := by
  induction fuel generalizing r e with
  | zero => exact absurd hfuel (Nat.not_lt_zero _)
  | succ fuel ih =>
    rw [BacktestEngine.runLobster]
    cases hp : r.pending with
    | cons x pending =>
      obtain ⟨eventNs, u⟩ := x
      have hleft : r.left hash =
          (eventNs, u) :: LobsterReader.left hash { r with pending := pending } := by
        rw [LobsterReader.left, hp]
        rfl
      rw [hleft, List.length_cons] at hfuel
      rw [hleft]
      change (e.step calls (.update eventNs u) >>= _) =
        ((e.step calls (.update eventNs u) >>= _) >>= _)
      rw [bind_assoc]
      exact bind_congr fun e₁ => ih (r := { r with pending := pending }) (by dsimp only; omega) e₁
    | nil =>
      dsimp only
      cases hmore : (r.fillStep (hash r.lines.length)).2 with
      | false =>
        rw [left_done hp hmore]
        rfl
      | true =>
        rw [left_more hp hmore] at hfuel ⊢
        obtain ⟨line, lines, hl, hl'⟩ := fillStep_more hmore
        have hlen : r.lines.length = lines.length + 1 := by rw [hl, List.length_cons]
        exact ih (by rw [hl']; omega) e

end Run

section Strategy

variable {K : Type} [Field K] [LinearOrder K] [FloorRing K] (P : Platform K) (clock : ℕ → ℤ)
  {tickerId : ℕ} (cfg : StrategyCfg K) {s : Ladders MarketOrder}
  {e : BacktestEngine (Strategy K MarketOrderBook)} {eventNs : ℤ} {u : MEMarketUpdate}

structure Plays (tickerId : ℕ) (s : Ladders MarketOrder)
    (e : BacktestEngine (Strategy K MarketOrderBook)) : Prop where
  follows : Follows tickerId s e
  publishing : Publishing False tickerId e

theorem applyUpdate_ok (ht : tickerId < meMaxTickers) (h : Follows tickerId s e)
    (hu : Applicable s u) (hut : u.tickerId = tickerId) :
    ∃ e₁, e.applyUpdate (strategyCalls P clock tickerId cfg MarketOrderBook.calls) eventNs u =
      .ok e₁ := by
  obtain ⟨m, c, hm, -⟩ := h.mirrors.step hu
  rw [← hut] at hm
  obtain ⟨s', reqs, hup, -⟩ := onMarketUpdate_ok P clock (tickerCfg tickerId cfg)
    (hut.trans_lt ht) hm
  rw [BacktestEngine.applyUpdate, BacktestEngine.publishMarketUpdate]
  change ∃ e₁, ((e.engine.onMarketUpdate P clock (tickerCfg tickerId cfg) MarketOrderBook.calls
    u >>= _) >>= _) = .ok e₁
  rw [hup, ok_bind]
  dsimp only
  rw [pure_ok, ok_bind, BacktestEngine.syncBBOFromBook]
  have hbbo : (strategyCalls P clock tickerId cfg MarketOrderBook.calls).getBBO s' e.tickerId =
      .ok (s'.books e.tickerId).bbo := by
    change s'.getBBO MarketOrderBook.calls e.tickerId = _
    rw [Strategy.getBBO, require_of _ (by rw [h.ticker]; exact ht), ok_bind]
    rfl
  dsimp only
  rw [hbbo, ok_bind, pure_ok, ok_bind]
  split_ifs
  · rw [BacktestEngine.matchAgainstTrade, require_of _ (by rw [h.ticker]; exact ht), ok_bind]
    split_ifs <;> exact ⟨_, rfl⟩
  · rw [BacktestEngine.matchAgainstBBO, require_of _ (by rw [h.ticker]; exact ht), ok_bind]
    exact ⟨_, rfl⟩

theorem Plays.step (ht : tickerId < meMaxTickers) (h : Plays tickerId s e)
    (hu : Applicable s u) (hut : u.tickerId = tickerId) :
    ∃ e', e.step (strategyCalls P clock tickerId cfg MarketOrderBook.calls) (.update eventNs u) =
      .ok e' ∧ Plays tickerId (applyUpdate s u) e' := by
  have hon : TapeEvent.On tickerId (.update eventNs u) := hut
  obtain ⟨e₁, he₁⟩ : ∃ e₁, e.applyUpdate
      (strategyCalls P clock tickerId cfg MarketOrderBook.calls) eventNs u = .ok e₁ :=
    applyUpdate_ok P clock cfg ht h.follows hu hut
  obtain ⟨e₀, x, h₀, hmatch⟩ := h.publishing.applyEvent nofun hon
    (Trace.each_of_forall fun _ _ => nofun) he₁
  obtain ⟨e₂, e', he₂, he'⟩ := h₀.settle_ok P clock cfg MarketOrderBook.calls eventNs ht hmatch
  obtain ⟨hpub, -⟩ := h₀.settle hmatch he₂ he'
  have hstep : e.step (strategyCalls P clock tickerId cfg MarketOrderBook.calls)
      (.update eventNs u) = .ok e' := by
    rw [BacktestEngine.step, BacktestEngine.applyEvent, he₁, ok_bind, TapeEvent.nowNs, he₂, ok_bind,
      he']
  exact ⟨e', hstep, h.follows.step hu hut hstep, hpub⟩

theorem Plays.run (ht : tickerId < meMaxTickers) {tape : List (ℤ × MEMarketUpdate)} (h : Plays tickerId s e)
    (htape : ApplicableAll s (tape.map Prod.snd)) (hut : ∀ x ∈ tape, x.2.tickerId = tickerId) :
    ∃ e', e.run (strategyCalls P clock tickerId cfg MarketOrderBook.calls) (lobsterEvents tape) =
      .ok e' ∧ Plays tickerId (applyAll s (tape.map Prod.snd)) e' := by
  induction tape generalizing e s with
  | nil => exact ⟨e, rfl, h⟩
  | cons x tape ih =>
    obtain ⟨e₁, he₁, h₁⟩ := h.step P clock cfg ht htape.1 (hut x (List.mem_cons_self ..))
    obtain ⟨e', he', h'⟩ := ih h₁ htape.2 fun y hy => hut y (List.mem_cons_of_mem _ hy)
    refine ⟨e', ?_, h'⟩
    change (e.step _ (.update x.1 x.2) >>= _) = _
    rw [he₁]
    exact he'

variable [IsStrictOrderedRing K]

theorem l3_replay (checked : Bool) (hash : ℕ → HashOrder) (ht : tickerId < meMaxTickers)
    (hvpin : cfg.features.VpinWhole) (openVwap : ℕ → ℕ → K) {levels maxEvents : ℕ}
    {lines : List (Option Row)} (hrows : ∀ row ∈ replayedRows maxEvents lines, row.Proper levels)
    (hcompat : Compatible levels ∅ (replayedRows maxEvents lines)) {fuel : ℕ}
    (hfuel : lines.length +
      ((LobsterReader.new tickerId levels maxEvents lines).left hash).length < fuel) :
    (backtest tickerId cfg (MarketOrderBook.new checked) openVwap).EachUpdate
        (strategyCalls P clock tickerId cfg MarketOrderBook.calls) VpinEnds
        (lobsterEvents ((LobsterReader.new tickerId levels maxEvents lines).left hash)) ∧
      ∃ e, (backtest tickerId cfg (MarketOrderBook.new checked) openVwap).runLobster
          (strategyCalls P clock tickerId cfg MarketOrderBook.calls) hash fuel
          (.new tickerId levels maxEvents lines) = .ok e ∧
        (e.clientRequests = [] ∧ e.clientResponses = []) ∧
        Displays (e.engine.books tickerId)
          (LobsterReader.new tickerId levels maxEvents lines).lastBook.1
          (LobsterReader.new tickerId levels maxEvents lines).lastBook.2 := by
  set r := LobsterReader.new tickerId levels maxEvents lines with hr
  have hleft : r.left hash = r.tape hash lines.length := rfl
  have happ := applicableAll_tape hash (shows_new tickerId levels maxEvents lines) rfl hrows
    hcompat lines.length
  have hshows := (shows_new tickerId levels maxEvents lines).after hash rfl hrows hcompat
    lines.length
  have hnew : Plays tickerId ⟨[], []⟩
      (backtest tickerId cfg (MarketOrderBook.new checked) openVwap) :=
    ⟨⟨rfl, mirrors_new checked tickerId, rfl⟩, publishing_new False tickerId cfg _ openVwap⟩
  obtain ⟨e, he, h⟩ := hnew.run P clock cfg ht happ (tickerId_tape rfl lines.length)
  refine ⟨vpinEnds_eachUpdate ?_ (vpinWhole_new hvpin _ _), e, ?_,
    ⟨h.follows.requests, h.publishing.silent⟩, ?_⟩
  · intro ev hev
    obtain ⟨x, hx, rfl⟩ := List.mem_map.mp hev
    exact tickerId_tape rfl lines.length x hx
  · rw [BacktestEngine.runLobster_eq hfuel, hleft, he, ok_bind,
      BacktestEngine.pumpClientResponses_nil h.publishing.silent]
  · have hdisp := hshows.displays h.follows.mirrors
    have hlast := @after_lastBook r hash rfl lines.length (le_refl _)
    rw [← hlast]
    exact hdisp

end Strategy

theorem l3_replay_completes {K : Type} [Field K] [LinearOrder K] [IsStrictOrderedRing K]
    [FloorRing K] (P : Platform K) (clock : ℕ → ℤ) (checked : Bool) (hash : ℕ → HashOrder)
    {tickerId : ℕ} (ht : tickerId < meMaxTickers) (cfg : StrategyCfg K)
    (hvpin : cfg.features.VpinWhole) (openVwap : ℕ → ℕ → K) (levels maxEvents : ℕ)
    (lines : List (Option Row)) (hrows : ∀ row ∈ replayedRows maxEvents lines, row.Proper levels)
    (hcompat : Compatible levels ∅ (replayedRows maxEvents lines)) :
    (backtest tickerId cfg (MarketOrderBook.new checked) openVwap).EachUpdate
        (strategyCalls P clock tickerId cfg MarketOrderBook.calls) VpinEnds
        (lobsterEvents ((LobsterReader.new tickerId levels maxEvents lines).left hash)) ∧
      ∃ turns, ∀ fuel, turns < fuel →
        ∃ e, (backtest tickerId cfg (MarketOrderBook.new checked) openVwap).runLobster
            (strategyCalls P clock tickerId cfg MarketOrderBook.calls) hash fuel
            (.new tickerId levels maxEvents lines) = .ok e ∧
          (e.clientRequests = [] ∧ e.clientResponses = []) ∧
          ∀ row, (replayedRows maxEvents lines).getLast? = some row →
            Displays (e.engine.books tickerId) (row.bids levels) (row.asks levels) := by
  have hreplay {fuel : ℕ} (hfuel : lines.length +
      ((LobsterReader.new tickerId levels maxEvents lines).left hash).length < fuel) :=
    l3_replay P clock cfg checked hash ht hvpin openVwap hrows hcompat hfuel
  refine ⟨(hreplay (Nat.lt_succ_self _)).1, lines.length +
    ((LobsterReader.new tickerId levels maxEvents lines).left hash).length, fun fuel hfuel => ?_⟩
  obtain ⟨-, e, he, hidle, hdisp⟩ := hreplay hfuel
  refine ⟨e, he, hidle, fun row hrow => ?_⟩
  have hlast : (LobsterReader.new tickerId levels maxEvents lines).rowsLeft.getLast? = some row :=
    hrow
  rw [LobsterReader.lastBook, hlast] at hdisp
  exact hdisp

theorem l3_replay_completes_sample :
    ∃ turns, ∀ fuel, turns < fuel →
      ∃ e, (backtest 0 bucketCfg (MarketOrderBook.new true) fun _ _ => 0).runLobster
          (strategyCalls exactPlatform (fun _ => 0) 0 bucketCfg MarketOrderBook.calls)
          (fun _ => inOrder) fuel
          (.new 0 10 0 [bookRow 10200 5 10000 7, none, bookRow 10300 5 10100 7]) = .ok e ∧
        e.clientResponses = [] := by
  obtain ⟨-, turns, h⟩ := l3_replay_completes exactPlatform (fun _ => 0) true (fun _ => inOrder)
    (show 0 < meMaxTickers by decide) bucketCfg
    (fun _ _ => ⟨2, by decide, by norm_num [bucketCfg]⟩) (fun _ _ => 0) 10 0
    [bookRow 10200 5 10000 7, none, bookRow 10300 5 10100 7] (by decide) (by decide)
  refine ⟨turns, fun fuel hfuel => ?_⟩
  obtain ⟨e, he, ⟨-, hresp⟩, -⟩ := h fuel hfuel
  exact ⟨e, he, hresp⟩

end Backtest
