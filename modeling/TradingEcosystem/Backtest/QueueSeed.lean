import TradingEcosystem.Backtest.LobsterReplay
import TradingEcosystem.Backtest.Lockstep
import TradingEcosystem.Backtest.QueuePosition

namespace Backtest

open Common Exchange Trading

def totalAt (price : ℤ) : List (Level ℤ MarketOrder) → ℕ
  | [] => 0
  | L :: ls => (if L.price = price then (L.orders.map OrderInfo.qty).sum else 0) + totalAt price ls

def restingQty (m : MarketOrderBook) (side : Side) (price : ℤ) : ℕ :=
  match m.book.decode with
  | none => 0
  | some s => totalAt price (s.side side)

section Depth

variable {side : Side} {price : ℤ} {ls : List (Level ℤ MarketOrder)} {m : MarketOrderBook}
  {s : Ladders MarketOrder}

theorem totalAt_of_better {L : Level ℤ MarketOrder}
    (h : ∀ p ∈ ls.map Level.price, better side L.price p) : totalAt L.price ls = 0 := by
  induction ls with
  | nil => rfl
  | cons K ls ih =>
    have hK : K.price ≠ L.price := by
      intro hc
      have := h K.price (by simp)
      rw [hc] at this
      exact better_irrefl _ _ this
    rw [totalAt, if_neg hK, Nat.zero_add]
    exact ih fun p hp => h p (List.mem_cons_of_mem _ hp)

theorem displayed_eq_iff (n : ℕ) :
    BacktestEngine.displayed (n % 2 ^ 32) = n ↔ n = 0 ∨ n < qtyInvalid := by
  unfold BacktestEngine.displayed qtyInvalid
  split_ifs <;> omega

theorem touch_seed_iff (h : Ladder.Sorted (better side) ls) :
    (if price = (bestLevel ls).1 then BacktestEngine.displayed (bestLevel ls).2 else 0) =
        totalAt price ls ↔
      totalAt price ls = 0 ∨ (price = (bestLevel ls).1 ∧ totalAt price ls < qtyInvalid) := by
  cases ls with
  | nil =>
    have : BacktestEngine.displayed (bestLevel []).2 = 0 := rfl
    simp [totalAt, this]
  | cons L ls =>
    by_cases hp : price = L.price
    · subst hp
      have hrest : totalAt L.price ls = 0 :=
        totalAt_of_better (List.pairwise_cons.mp h).1
      have htotal : totalAt L.price (L :: ls) = (L.orders.map OrderInfo.qty).sum := by
        rw [totalAt, if_pos rfl, hrest, Nat.add_zero]
      rw [htotal, bestLevel, if_pos rfl, displayed_eq_iff]
      simp
    · rw [bestLevel, if_neg hp]
      simp [hp, eq_comm]

theorem restingQty_of_mirrors (h : Mirrors m s) :
    restingQty m side price = totalAt price (s.side side) := by
  rw [restingQty, h.decode]

theorem touch_of_mirrors (side : Side) (h : Mirrors m s) :
    touchPrice m.bbo side = (bestLevel (s.side side)).1 ∧
      touchQty m.bbo side = (bestLevel (s.side side)).2 := by
  rw [h.bbo, touchPrice, touchQty, bboOf, Ladders.side]
  split_ifs <;> exact ⟨rfl, rfl⟩

end Depth

section Pump

variable {E : Type} {e e' : BacktestEngine E} {nowNs : ℤ}

theorem queueAhead_eq (e : BacktestEngine E) (side : Side) (price : ℤ) (hs : side.IsBuyOrSell)
    {bbo : BBO} (hbid : e.lastBidPrice = bbo.bidPrice ∧
      e.lastBidQty = BacktestEngine.displayed bbo.bidQty)
    (hask : e.lastAskPrice = bbo.askPrice ∧ e.lastAskQty = BacktestEngine.displayed bbo.askQty) :
    e.queueAhead side price =
      if price = touchPrice bbo side then BacktestEngine.displayed (touchQty bbo side) else 0 := by
  unfold BacktestEngine.queueAhead touchPrice touchQty
  rw [hbid.1, hbid.2, hask.1, hask.2]
  rcases hs with rfl | rfl <;> rfl

theorem pumpRequest_queueAhead {req : MEClientRequest} (h : e.pumpRequest nowNs req = .ok e') :
    (∀ side price, e'.queueAhead side price = e.queueAhead side price) ∧
      (req.type = .new → (e'.live req.tickerId (sideToIndex req.side)).ahead =
        e.queueAhead req.side req.price) := by
  obtain ⟨_, -, h⟩ := bind_eq_ok.mp h
  obtain ⟨_, -, h⟩ := bind_eq_ok.mp h
  split_ifs at h with hnew
  · cases h
    refine ⟨fun _ _ => rfl, fun _ => ?_⟩
    exact congrArg LiveAlgoOrder.ahead (if_pos ⟨rfl, rfl⟩)
  · cases h
    exact ⟨fun _ _ => rfl, fun hc => absurd hc hnew⟩

theorem pumpRequests_eq {reqs : List MEClientRequest}
    (h : BacktestEngine.pumpRequests nowNs e reqs = .ok e') :
    e' = { e with clientResponses := e'.clientResponses, live := e'.live,
                  numRequotes := e'.numRequotes } := by
  induction reqs generalizing e with
  | nil =>
    cases h
    rfl
  | cons req reqs ih =>
    obtain ⟨e₁, he₁, h⟩ := bind_eq_ok.mp h
    obtain ⟨_, -, he₁⟩ := bind_eq_ok.mp he₁
    obtain ⟨_, -, he₁⟩ := bind_eq_ok.mp he₁
    have hrest := ih h
    split_ifs at he₁ <;>
    · cases he₁
      exact hrest

theorem pumpRequests_frame {reqs : List MEClientRequest}
    (h : BacktestEngine.pumpRequests nowNs e reqs = .ok e') :
    e'.tickerId = e.tickerId ∧ e'.engine = e.engine ∧ e'.clientRequests = e.clientRequests := by
  rw [pumpRequests_eq h]
  exact ⟨rfl, rfl, rfl⟩

theorem pumpJournal_ahead {reqs : List MEClientRequest} {log : List Entry}
    (h : BacktestEngine.pumpJournal nowNs e reqs = .ok (e', log)) {req : MEClientRequest} {ahead : ℕ}
    (hmem : .request req ahead ∈ log) :
    req ∈ reqs ∧ (req.type = .new → ahead = e.queueAhead req.side req.price) := by
  induction reqs generalizing e log with
  | nil =>
    cases h
    cases hmem
  | cons q reqs ih =>
    obtain ⟨e₁, he₁, h⟩ := bind_eq_ok.mp h
    obtain ⟨⟨e₂, rest⟩, he₂, h⟩ := bind_eq_ok.mp h
    cases h
    obtain ⟨hsame, hseed⟩ := pumpRequest_queueAhead he₁
    rcases List.mem_cons.mp hmem with hq | hmem
    · cases hq
      exact ⟨List.mem_cons_self .., hseed⟩
    · obtain ⟨hin, hahead⟩ := ih he₂ hmem
      refine ⟨List.mem_cons_of_mem _ hin, fun hnew => ?_⟩
      rw [hahead hnew, hsame]

end Pump

section Strategy

variable {K B : Type} [Field K] [LinearOrder K] [FloorRing K] {P : Platform K} {clock : ℕ → ℤ}
  {tickerId : ℕ} {cfg : StrategyCfg K}

theorem side_of_perform {e e' : TradeEngine} {lossTooLarge : Bool} {reaction : Reaction}
    {reqs : List MEClientRequest}
    (h : e.perform tickerId lossTooLarge reaction = .ok (e', reqs)) {req : MEClientRequest}
    (hreq : req ∈ reqs) (hnew : req.type = .new) : req.side.IsBuyOrSell := by
  have hmove : ∀ (m : OrderManager) (price : ℤ) {side : Side} (qty : ℕ) (risk : RiskCheckResult),
      side.IsBuyOrSell → req ∈ (m.moveOrder e.clientId tickerId price side qty risk).2 →
        req.side.IsBuyOrSell := by
    intro m price side qty risk hs hmem
    rcases moveOrder_cases m e.clientId tickerId price side qty risk with heq | ⟨-, -, -, heq⟩ |
      ⟨-, heq⟩
    · rw [heq] at hmem
      cases hmem
    · rw [heq] at hmem
      obtain rfl := List.mem_singleton.mp hmem
      exact hs
    · rw [heq] at hmem
      obtain rfl := List.mem_singleton.mp hmem
      cases hnew
  have hcancel : ∀ (m : OrderManager) (side : Side),
      req ∉ (m.cancelLive e.clientId tickerId side).2 := by
    intro m side hmem
    rcases cancelLive_cases m e.clientId tickerId side with ⟨-, heq⟩ | ⟨-, heq⟩
    · rw [heq] at hmem
      cases hmem
    · rw [heq] at hmem
      obtain rfl := List.mem_singleton.mp hmem
      cases hnew
  cases reaction with
  | none =>
    cases h
    cases hreq
  | pull =>
    obtain ⟨_, -, h⟩ := bind_eq_ok.mp h
    cases h
    rcases List.mem_append.mp hreq with hreq | hreq
    · exact absurd hreq (hcancel _ _)
    · exact absurd hreq (hcancel _ _)
  | quote bidPrice askPrice clip =>
    obtain ⟨_, -, h⟩ := bind_eq_ok.mp h
    cases h
    rcases List.mem_append.mp hreq with hreq | hreq
    · exact hmove _ _ _ _ (.inl rfl) hreq
    · exact hmove _ _ _ _ (.inr rfl) hreq

theorem onMarketUpdate_books {book : BookCalls B} {cfgs : ℕ → StrategyCfg K} {s s' : Strategy K B}
    {u : MEMarketUpdate} {reqs : List MEClientRequest}
    (h : s.onMarketUpdate P clock cfgs book u = .ok (s', reqs)) :
    ∃ b c, book.onMarketUpdate (s.books u.tickerId) u = .ok (b, c) ∧
      s'.books = Function.update s.books u.tickerId b ∧
      ∀ req ∈ reqs, req.type = .new → req.side.IsBuyOrSell := by
  obtain ⟨_, -, h⟩ := bind_eq_ok.mp h
  obtain ⟨⟨b, c⟩, hb, h⟩ := bind_eq_ok.mp h
  refine ⟨b, c, hb, ?_⟩
  cases c with
  | onTradeUpdate v =>
    cases h
    exact ⟨rfl, nofun⟩
  | onOrderBookUpdate t price side =>
    obtain ⟨⟨engine, out⟩, hp, h⟩ := bind_eq_ok.mp h
    cases h
    exact ⟨rfl, fun req hreq hnew => side_of_perform hp hreq hnew⟩

theorem answerAll_books {book : BookCalls B} {s s' : Strategy K B} {rs : List MEClientResponse}
    (h : BacktestEngine.answerAll (strategyCalls P clock tickerId cfg book) s rs = .ok s') :
    s'.books = s.books := by
  induction rs generalizing s with
  | nil =>
    cases h
    rfl
  | cons r rs ih =>
    obtain ⟨s₁, hs₁, h⟩ := bind_eq_ok.mp h
    obtain ⟨engine, -, hs₁⟩ := bind_eq_ok.mp hs₁
    cases hs₁
    exact (ih h).trans rfl

variable {e e₁ e' : BacktestEngine (Strategy K MarketOrderBook)} {s : Ladders MarketOrder}
  {eventNs : ℤ} {u : MEMarketUpdate}

structure Follows (tickerId : ℕ) (s : Ladders MarketOrder)
    (e : BacktestEngine (Strategy K MarketOrderBook)) : Prop where
  ticker : e.tickerId = tickerId
  mirrors : Mirrors (e.engine.books tickerId) s
  requests : e.clientRequests = []

structure Synced (tickerId : ℕ) (s : Ladders MarketOrder)
    (e : BacktestEngine (Strategy K MarketOrderBook)) : Prop where
  ticker : e.tickerId = tickerId
  mirrors : Mirrors (e.engine.books tickerId) s
  bid : e.lastBidPrice = (e.engine.books tickerId).bbo.bidPrice ∧
    e.lastBidQty = BacktestEngine.displayed (e.engine.books tickerId).bbo.bidQty
  ask : e.lastAskPrice = (e.engine.books tickerId).bbo.askPrice ∧
    e.lastAskQty = BacktestEngine.displayed (e.engine.books tickerId).bbo.askQty
  sides : ∀ req ∈ e.clientRequests, req.type = .new → req.side.IsBuyOrSell

omit [Field K] [LinearOrder K] [FloorRing K] in
theorem Synced.matched {x : Entry} (h : Synced tickerId s e) (hm : Matched x e e') :
    Synced tickerId s e' := by
  rw [hm.frame]
  exact ⟨h.ticker, h.mirrors, h.bid, h.ask, h.sides⟩

theorem Follows.synced (h : Follows tickerId s e) (hu : Applicable s u)
    (ht : u.tickerId = tickerId)
    (he : e.applyUpdate (strategyCalls P clock tickerId cfg MarketOrderBook.calls) eventNs u =
      .ok e₁) : Synced tickerId (applyUpdate s u) e₁ := by
  obtain ⟨e₂, he₂, he⟩ := bind_eq_ok.mp he
  obtain ⟨⟨s', reqs⟩, hs', he₂⟩ := bind_eq_ok.mp he₂
  cases he₂
  obtain ⟨m, c, hm, hbooks, hsides⟩ := onMarketUpdate_books hs'
  obtain ⟨m', c', hm', hmirrors⟩ := h.mirrors.step hu
  rw [ht] at hm
  have hmm : m = m' := by
    have heq := hm.symm.trans hm'
    cases heq
    rfl
  have hbook : s'.books tickerId = m' := by rw [hbooks, ht, hmm, Function.update_self]
  obtain ⟨e₃, he₃, he⟩ := bind_eq_ok.mp he
  obtain ⟨bbo, hbbo, he₃⟩ := bind_eq_ok.mp he₃
  obtain ⟨_, -, hbbo⟩ := bind_eq_ok.mp hbbo
  cases hbbo
  cases he₃
  have hsync : Synced tickerId (applyUpdate s u)
      { e with
        engine := s'
        clientRequests := e.clientRequests ++ reqs
        lastBidPrice := (s'.books e.tickerId).bbo.bidPrice
        lastAskPrice := (s'.books e.tickerId).bbo.askPrice
        lastBidQty := BacktestEngine.displayed (s'.books e.tickerId).bbo.bidQty
        lastAskQty := BacktestEngine.displayed (s'.books e.tickerId).bbo.askQty } := by
    rw [h.ticker, h.requests]
    exact ⟨rfl, hbook ▸ hmirrors, ⟨rfl, rfl⟩, ⟨rfl, rfl⟩, hsides⟩
  split_ifs at he
  · obtain ⟨rs, hmatch⟩ := matchAgainstTrade_matched he
    exact hsync.matched hmatch
  · obtain ⟨rs, hmatch⟩ := matchAgainstBBO_matched he
    exact hsync.matched hmatch

theorem Follows.step (h : Follows tickerId s e) (hu : Applicable s u) (ht : u.tickerId = tickerId)
    (he : e.step (strategyCalls P clock tickerId cfg MarketOrderBook.calls) (.update eventNs u) =
      .ok e') : Follows tickerId (applyUpdate s u) e' := by
  obtain ⟨e₁, he₁, he⟩ := bind_eq_ok.mp he
  obtain ⟨e₂, he₂, he⟩ := bind_eq_ok.mp he
  have h₁ := h.synced hu ht he₁
  obtain ⟨ht₂, heng₂, hreqs₂⟩ := pumpRequests_frame he₂
  obtain ⟨s', hs', he⟩ := bind_eq_ok.mp he
  cases he
  have hbooks : s'.books = e₁.engine.books := by rw [answerAll_books hs', heng₂]
  refine ⟨ht₂.trans h₁.ticker, ?_, hreqs₂⟩
  change Mirrors (s'.books tickerId) _
  rw [hbooks]
  exact h₁.mirrors

theorem Follows.run {tape : List (ℤ × MEMarketUpdate)} (h : Follows tickerId s e)
    (htape : ApplicableAll s (tape.map Prod.snd)) (ht : ∀ x ∈ tape, x.2.tickerId = tickerId)
    (he : e.run (strategyCalls P clock tickerId cfg MarketOrderBook.calls)
      (tape.map fun x => .update x.1 x.2) = .ok e') :
    Follows tickerId (applyAll s (tape.map Prod.snd)) e' := by
  induction tape generalizing e s with
  | nil =>
    cases he
    exact h
  | cons x tape ih =>
    obtain ⟨e₁, he₁, he⟩ := bind_eq_ok.mp he
    exact ih (h.step htape.1 (ht x (List.mem_cons_self ..)) he₁) htape.2
      (fun y hy => ht y (List.mem_cons_of_mem _ hy)) he

omit [Field K] [LinearOrder K] [FloorRing K] in
theorem Synced.seed_iff (h : Synced tickerId s e) {log : List Entry}
    (he : BacktestEngine.pumpJournal eventNs { e with clientRequests := [] } e.clientRequests =
      .ok (e', log)) {req : MEClientRequest} {ahead : ℕ} (hmem : .request req ahead ∈ log)
    (hnew : req.type = .new) :
    ahead = restingQty (e.engine.books tickerId) req.side req.price ↔
      restingQty (e.engine.books tickerId) req.side req.price = 0 ∨
        (req.price = touchPrice (e.engine.books tickerId).bbo req.side ∧
          restingQty (e.engine.books tickerId) req.side req.price < qtyInvalid) := by
  obtain ⟨hreq, hahead⟩ := pumpJournal_ahead he hmem
  have hside := h.sides req hreq hnew
  obtain ⟨hprice, hqty⟩ := touch_of_mirrors req.side h.mirrors
  have hseed : ahead = e.queueAhead req.side req.price := hahead hnew
  rw [hseed, queueAhead_eq _ _ _ hside h.bid h.ask, restingQty_of_mirrors h.mirrors, hprice, hqty]
  exact touch_seed_iff (h.mirrors.sorted hside)

end Strategy

def LobsterReader.tape (hash : ℕ → HashOrder) (r : LobsterReader) : ℕ → List (ℤ × MEMarketUpdate)
  | 0 => []
  | n + 1 =>
      let r' := (r.fillStep (hash r.lines.length)).1
      r'.pending ++ LobsterReader.tape hash { r' with pending := [] } n

section Reader

variable {hash : ℕ → HashOrder} {r : LobsterReader} {s : Ladders MarketOrder}

theorem tickerId_tape (hp : r.pending = []) (n : ℕ) :
    ∀ x ∈ r.tape hash n, x.2.tickerId = r.tickerId := by
  induction n generalizing r with
  | zero => exact nofun
  | succ n ih =>
    intro x hx
    rcases List.mem_append.mp hx with hx | hx
    · rcases fillStep_cases r (hash r.lines.length) with ⟨-, hfill⟩ | ⟨lines, -, hfill, -⟩ |
        ⟨row, lines, -, hfill, -⟩
      · rw [hfill] at hx
        simp [hp] at hx
      · rw [hfill] at hx
        simp [hp] at hx
      · rw [hfill] at hx
        exact on_fillRow _ _ _ (by simp [hp]) x hx
    · rw [ih (r := { (r.fillStep (hash r.lines.length)).1 with pending := [] }) rfl x hx]
      rcases fillStep_cases r (hash r.lines.length) with ⟨-, hfill⟩ | ⟨lines, -, hfill, -⟩ |
        ⟨row, lines, -, hfill, -⟩
      · rw [hfill]
      · rw [hfill]
      · rw [hfill]
        rfl

theorem applicableAll_tape (hash : ℕ → HashOrder) (h : Shows s r.depth) (hp : r.pending = [])
    (hrows : ∀ row ∈ r.rowsLeft, row.Proper r.levels)
    (hcompat : Compatible r.levels r.prevAsk r.rowsLeft) (n : ℕ) :
    ApplicableAll s ((r.tape hash n).map Prod.snd) := by
  induction n generalizing r s with
  | zero => trivial
  | succ n ih =>
    rw [LobsterReader.tape, List.map_append, applicableAll_append]
    rcases fillStep_cases r (hash r.lines.length) with ⟨hleft, hfill⟩ | ⟨lines, -, hfill, hleft⟩ |
      ⟨row, lines, -, hfill, hleft⟩
    · rw [hfill, show ({ r with eof := true } : LobsterReader).pending = [] from hp]
      refine ⟨trivial, ih (r := { r with eof := true, pending := [] }) h rfl ?_ ?_⟩
      · exact nofun
      · trivial
    · rw [hfill, show ({ r with lines := lines } : LobsterReader).pending = [] from hp]
      rw [hleft] at hrows hcompat
      exact ⟨trivial, ih (r := { r with lines := lines, pending := [] }) h rfl hrows hcompat⟩
    · have hrow : row.Proper r.levels := hrows row (by simp [hleft])
      rw [hleft, Compatible] at hcompat
      have hstep := Shows.fillRow (r := { r with lines := lines, count := r.count + 1 })
        (hash r.lines.length) h hp hrow hcompat.1
      rw [hfill]
      refine ⟨hstep.1, ih hstep.2 rfl ?_ hcompat.2⟩
      intro row' hr'
      exact hrows row' (by rw [hleft]; exact List.mem_cons_of_mem _ hr')

end Reader

def lobsterEvents (tape : List (ℤ × MEMarketUpdate)) : List TapeEvent :=
  tape.map fun x => .update x.1 x.2

theorem seed_is_depth_iff_touch {K : Type} [Field K] [LinearOrder K] [FloorRing K]
    (P : Platform K) (clock : ℕ → ℤ) (checked : Bool) (hash : ℕ → HashOrder)
    (tickerId levels maxEvents : ℕ) (lines : List (Option Row)) (cfg : StrategyCfg K)
    (openVwap : ℕ → ℕ → K) (hrows : ∀ row ∈ replayedRows maxEvents lines, row.Proper levels)
    (hcompat : Compatible levels ∅ (replayedRows maxEvents lines)) {n : ℕ}
    {before after : List (ℤ × MEMarketUpdate)} {eventNs : ℤ} {u : MEMarketUpdate}
    (htape : (LobsterReader.new tickerId levels maxEvents lines).tape hash n =
      before ++ (eventNs, u) :: after)
    {e e₁ e₂ : BacktestEngine (Strategy K MarketOrderBook)} {log : List Entry}
    (hrun : (backtest tickerId cfg (MarketOrderBook.new checked) openVwap).run
      (strategyCalls P clock tickerId cfg MarketOrderBook.calls) (lobsterEvents before) = .ok e)
    (happly : e.applyUpdate (strategyCalls P clock tickerId cfg MarketOrderBook.calls) eventNs u =
      .ok e₁)
    (hpump : BacktestEngine.pumpJournal eventNs { e₁ with clientRequests := [] } e₁.clientRequests =
      .ok (e₂, log))
    {req : MEClientRequest} {ahead : ℕ} (hmem : .request req ahead ∈ log)
    (hnew : req.type = .new) :
    let book := e₁.engine.books tickerId
    ahead = restingQty book req.side req.price ↔
      restingQty book req.side req.price = 0 ∨
        (req.price = touchPrice book.bbo req.side ∧
          restingQty book req.side req.price < qtyInvalid) := by
  set r := LobsterReader.new tickerId levels maxEvents lines with hr
  have happ := applicableAll_tape hash (shows_new tickerId levels maxEvents lines) rfl
    hrows hcompat n
  have htick : ∀ x ∈ r.tape hash n, x.2.tickerId = tickerId := tickerId_tape rfl n
  rw [htape, List.map_append, applicableAll_append] at happ
  rw [htape] at htick
  have hnew₀ : Follows tickerId ⟨[], []⟩
      (backtest tickerId cfg (MarketOrderBook.new checked) openVwap) :=
    ⟨rfl, mirrors_new checked tickerId, rfl⟩
  have hfollows := hnew₀.run happ.1 (fun x hx => htick x (List.mem_append_left _ hx)) hrun
  exact (hfollows.synced happ.2.1 (htick _ (by simp)) happly).seed_iff hpump hmem hnew

section Sample

/-- Two levels a side: bids 7 at 100.00 and 9 at 99.99, asks 5 at 100.02 and 5 at 100.03. -/
def deepLines : List (Option Row) :=
  [some ⟨⟨34200000000000, 1, 7, 1000000, 1⟩, [1000200, 5, 1000000, 7, 1000300, 5, 999900, 9]⟩]

def quoteCfg (threshold : ℚ) : StrategyCfg ℚ :=
  { sampleCfg with maker := { sampleCfg.maker with threshold := threshold } }

def quoteCalls (threshold : ℚ) : EngineCalls (Strategy ℚ MarketOrderBook) :=
  strategyCalls exactPlatform (fun _ => 0) 0 (quoteCfg threshold) MarketOrderBook.calls

def addBids : List (ℤ × MEMarketUpdate) :=
  [(34200000000000, ⟨.add, 9999, 0, .buy, 9999, 9, 1⟩),
    (34200000000000, ⟨.add, 10000, 0, .buy, 10000, 7, 2⟩)]

def askUpdate : MEMarketUpdate := ⟨.add, 610003, 0, .sell, 10003, 5, 3⟩

theorem tape_deepLines :
    (LobsterReader.new 0 10 0 deepLines).tape (fun _ => inOrder) 1 =
      addBids ++ (34200000000000, askUpdate) ::
        [(34200000000000, ⟨.add, 610002, 0, .sell, 10002, 5, 4⟩)] := by
  decide +kernel

def firstBid (threshold : ℚ) (price : ℤ) : Outcome (List Entry × ℕ) := do
  let e ← (backtest 0 (quoteCfg threshold) (MarketOrderBook.new true) fun _ _ => 0).run
    (quoteCalls threshold) (lobsterEvents addBids)
  let e₁ ← e.applyUpdate (quoteCalls threshold) 34200000000000 askUpdate
  let p ← BacktestEngine.pumpJournal 34200000000000 { e₁ with clientRequests := [] }
    e₁.clientRequests
  pure (p.2.take 1, restingQty (e₁.engine.books 0) .buy price)

structure FirstBid (threshold : ℚ) (price : ℤ) (ahead qty : ℕ)
    (e e₁ e₂ : BacktestEngine (Strategy ℚ MarketOrderBook)) (log : List Entry) : Prop where
  run : (backtest 0 (quoteCfg threshold) (MarketOrderBook.new true) fun _ _ => 0).run
    (quoteCalls threshold) (lobsterEvents addBids) = .ok e
  apply : e.applyUpdate (quoteCalls threshold) 34200000000000 askUpdate = .ok e₁
  pump : BacktestEngine.pumpJournal 34200000000000 { e₁ with clientRequests := [] }
    e₁.clientRequests = .ok (e₂, log)
  mem : .request ⟨.new, 1, 0, 1, .buy, price, 10⟩ ahead ∈ log
  rests : restingQty (e₁.engine.books 0) .buy price = qty

theorem exists_firstBid {threshold : ℚ} {price : ℤ} {ahead qty : ℕ}
    (h : firstBid threshold price = .ok ([.request ⟨.new, 1, 0, 1, .buy, price, 10⟩ ahead], qty)) :
    ∃ e e₁ e₂ log, FirstBid threshold price ahead qty e e₁ e₂ log := by
  obtain ⟨e, hrun, h⟩ := bind_eq_ok.mp h
  obtain ⟨e₁, happly, h⟩ := bind_eq_ok.mp h
  obtain ⟨⟨e₂, log⟩, hpump, h⟩ := bind_eq_ok.mp h
  obtain ⟨hlog, hqty⟩ := Prod.mk.inj (Except.ok.inj h)
  refine ⟨e, e₁, e₂, log, hrun, happly, hpump, List.mem_of_mem_take (i := 1) ?_, hqty⟩
  rw [hlog]
  exact List.mem_singleton_self _

theorem seed_is_depth_iff_touch_sample :
    ∃ e e₁ e₂ log, FirstBid 0 10000 7 7 e e₁ e₂ log ∧
      (7 = restingQty (e₁.engine.books 0) .buy 10000 ↔
        restingQty (e₁.engine.books 0) .buy 10000 = 0 ∨
          (10000 = touchPrice (e₁.engine.books 0).bbo .buy ∧
            restingQty (e₁.engine.books 0) .buy 10000 < qtyInvalid)) := by
  obtain ⟨e, e₁, e₂, log, h⟩ := exists_firstBid
    (show firstBid 0 10000 = .ok ([.request ⟨.new, 1, 0, 1, .buy, 10000, 10⟩ 7], 7) by
      decide +kernel)
  refine ⟨e, e₁, e₂, log, h, ?_⟩
  exact seed_is_depth_iff_touch exactPlatform (fun _ => 0) true (fun _ => inOrder) 0 10 0 deepLines
    (quoteCfg 0) (fun _ _ => 0) (by decide) (by decide) tape_deepLines h.run h.apply h.pump h.mem rfl

theorem bid_below_touch_is_told_no_queue :
    (∀ row ∈ replayedRows 0 deepLines, row.Proper 10) ∧
      Compatible 10 ∅ (replayedRows 0 deepLines) ∧
      ∃ after, (LobsterReader.new 0 10 0 deepLines).tape (fun _ => inOrder) 1 =
        addBids ++ (34200000000000, askUpdate) :: after ∧
      ∃ e e₁ e₂ log, FirstBid 5 9999 0 9 e e₁ e₂ log := by
  refine ⟨by decide, by decide, _, tape_deepLines, ?_⟩
  exact exists_firstBid (by decide +kernel)

end Sample

end Backtest
