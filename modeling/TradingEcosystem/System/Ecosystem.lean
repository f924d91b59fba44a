import TradingEcosystem.System.MarketDataFeed
import TradingEcosystem.System.PositionLimit
import TradingEcosystem.Trading.LiquidityTaker
import TradingEcosystem.Trading.RandomLoop
import TradingEcosystem.Trading.VpinRounding

namespace Trading

open Common Exchange

def AlgoType.Quotes (a : AlgoType) : Prop := a = .maker ∨ a = .taker

section Perform

variable {c t : ℕ} {s : Session} {B : IndexedBooks} {owner : ℕ → ℕ × Side}

theorem TradeEngine.nextOrderId_moveOrder_le (e : TradeEngine) (t : ℕ) (price : ℤ) (d : Side)
    (qty : ℕ) (loss : Bool) :
    (e.moveOrder t price d qty loss).1.orderManager.nextOrderId ≤
      e.orderManager.nextOrderId + 1 := by
  unfold TradeEngine.moveOrder
  rcases moveOrder_cases e.orderManager e.clientId t price d qty (e.risk t loss d qty) with
    hr | ⟨-, -, -, hr⟩ | ⟨-, hr⟩
  · simp [hr]
  · simp [hr, OrderManager.newOrder]
  · simp [hr, OrderManager.cancelOrder]

theorem Session.Inv.perform (h : s.Inv c B owner) (hc : c < meMaxNumClients)
    (ht : t < meMaxTickers) {r : Reaction} (hr : r.Valid)
    (hids : s.nextOrderId + 2 ≤ meMaxOrderIds) (loss : Bool)
    (hcfg : ∀ t, (s.client.riskCfg t).maxPosition + (s.client.riskCfg t).maxOrderSize ≤ 2 ^ 31 - 1)
    (hlim : ∀ t, s.client.Limited t) :
    ∃ e reqs owner', s.client.perform t loss r = .ok (e, reqs) ∧ (s.send (e, reqs)).Inv c B owner' ∧
      e.riskCfg = s.client.riskCfg ∧ ∀ t, e.Limited t := by
  cases r with
  | none => exact ⟨s.client, [], owner, rfl, s.send_nil.symm ▸ h, rfl, hlim⟩
  | pull =>
    obtain ⟨r, hr⟩ : ∃ r, s.client.cancelOrders t = .ok r := by
      rw [TradeEngine.cancelOrders, require_of _ ht]
      exact ⟨_, rfl⟩
    have hnext : s.Next (.cancelOrders t) (s.send r) := by
      rw [Session.Next, Session.step, hr]
      rfl
    obtain ⟨hbase, hsteps⟩ := h.cancelOrders hc hr ((Nat.le_add_right _ 2).trans hids)
    have hlimited := fun t => h.limited_step hnext (hcfg t) (hlim t)
    exact ⟨r.1, r.2, owner, hr, h.of_base hbase hsteps, (hlimited t).1, fun t => (hlimited t).2⟩
  | quote bid ask clip =>
    obtain ⟨hbid, hask, hclip⟩ := hr
    obtain ⟨r, hr, hle⟩ : ∃ r, s.client.moveOrders t bid ask clip loss = .ok r ∧
        r.1.orderManager.nextOrderId ≤ s.nextOrderId + 2 := by
      rw [TradeEngine.moveOrders, require_of _ ht]
      exact ⟨_, rfl, (TradeEngine.nextOrderId_moveOrder_le ..).trans
        (Nat.succ_le_succ (TradeEngine.nextOrderId_moveOrder_le ..))⟩
    have hnext : s.Next (.moveOrders t bid ask clip loss) (s.send r) := by
      rw [Session.Next, Session.step, hr]
      rfl
    obtain ⟨owner', hbase, hsteps⟩ := h.moveOrders hc hbid hask hclip hr (hle.trans hids)
    have hlimited := fun t => h.limited_step hnext (hcfg t) (hlim t)
    exact ⟨r.1, r.2, owner', hr, h.of_base hbase hsteps, (hlimited t).1, fun t => (hlimited t).2⟩

end Perform

section React

variable {K : Type} [Field K] [LinearOrder K] [FloorRing K] {cfg : ℕ → StrategyCfg K}
  {a : AlgoEngine K MarketOrderBook} {S : TickerLadders} {b : OrderTable}
  {u : MEMarketUpdate}

structure AlgoEngine.Reacts (a a' : AlgoEngine K MarketOrderBook) (r : Reaction) : Prop where
  algoType : a'.algoType = a.algoType
  engine : a'.strategy.engine = a.strategy.engine
  taker : a.algoType = .taker → r.Valid
  idle : ¬ a.algoType.Quotes → r = .none

theorem AlgoEngine.react_ok (P : Platform K) (clock : ℕ → ℤ)
    (hclip : ∀ t, (cfg t).maker.clip < 2 ^ 32) (h : Tracked a.strategy.books S b) (hu : Emitted S u) :
    ∃ a' r, a.react P clock cfg MarketOrderBook.calls u = .ok (a', r) ∧ a.Reacts a' r ∧
      Tracked a'.strategy.books (applyTicker S u) (b.apply u) := by
  obtain ⟨M', hM, htr⟩ := h.step hu
  rw [TickerOrderBook.onMarketUpdate, require_of _ hu.feedable.1, ok_bind] at hM
  obtain ⟨⟨m, cb⟩, hm, hM⟩ := bind_eq_ok.mp hM
  cases hM
  have hcb := MarketOrderBook.calls.callback hm
  have htouch := (htr.mirrors u.tickerId).touch_valid
  rw [AlgoEngine.react, require_of _ hu.feedable.1, ok_bind]
  change ∃ a' r, (MarketOrderBook.onMarketUpdate (a.strategy.books u.tickerId) u >>= _) = _ ∧ _
  rw [hm, ok_bind]
  split_ifs at hcb with htrade
  · obtain rfl := hcb
    refine ⟨_, _, rfl, ⟨rfl, rfl, fun ht => ?_, fun hq => ?_⟩, htr⟩
    · dsimp only [AlgoEngine.onTradeUpdate, AlgoEngine.dispatchOnTradeUpdate]
      rw [ht]
      exact LiquidityTaker.onTradeUpdate_valid htouch.1 htouch.2 (hclip _)
    · dsimp only [AlgoEngine.onTradeUpdate, AlgoEngine.dispatchOnTradeUpdate]
      split
      · exact absurd (.inr ‹_›) hq
      · rfl
  · obtain rfl := hcb
    refine ⟨_, _, rfl, ⟨rfl, rfl, fun ht => ?_, fun hq => ?_⟩, htr⟩
    · dsimp only [AlgoEngine.onOrderBookUpdate, AlgoEngine.dispatchOnOrderBookUpdate]
      rw [ht]
      trivial
    · dsimp only [AlgoEngine.onOrderBookUpdate, AlgoEngine.dispatchOnOrderBookUpdate]
      split
      · exact absurd (.inl ‹_›) hq
      · rfl

end React

/-- A client process: its engine, the loop that `main` runs for a `RANDOM` client, and what is on
its way from it, to it and in its market data queue. -/
structure TradingMain (K : Type) where
  tradeEngine : AlgoEngine K MarketOrderBook
  loop : RandomLoop
  clientRequests : List MEClientRequest
  clientResponses : List MEClientResponse
  marketUpdates : List MEMarketUpdate

section Main

variable {K : Type} [Field K] [LinearOrder K]

namespace TradingMain

def new (checked : Bool) (clientId : ℕ) (algoType : AlgoType) (cfg : ℕ → StrategyCfg K)
    (openVwap : ℕ → ℕ → K) (draws : ℕ → ℕ) : TradingMain K where
  tradeEngine := AlgoEngine.new clientId algoType cfg (MarketOrderBook.new checked) openVwap
  loop := RandomLoop.new clientId draws
  clientRequests := []
  clientResponses := []
  marketUpdates := []

def receive (clientId : ℕ) (events : List Event) (m : TradingMain K) : TradingMain K :=
  { m with
    clientResponses := m.clientResponses ++
      (Exchange.clientResponses events).filter fun r => decide (r.clientId = clientId)
    marketUpdates := m.marketUpdates ++ Exchange.marketUpdates events }

def takeRandomTurn (rand : ℕ → ℕ) (m : TradingMain K) : Outcome (TradingMain K) := do
  let (loop, reqs) ← m.loop.step rand
  pure { m with loop := loop, clientRequests := m.clientRequests ++ reqs }

def takeResponse (cfg : ℕ → StrategyCfg K) (m : TradingMain K) : Outcome (TradingMain K) :=
  match m.clientResponses with
  | [] => pure m
  | r :: responses => do
      let engine ← m.tradeEngine.onOrderUpdate cfg r
      pure { m with tradeEngine := engine, clientResponses := responses }

def takeMarketUpdate [FloorRing K] (P : Platform K) (clock : ℕ → ℤ) (cfg : ℕ → StrategyCfg K)
    (m : TradingMain K) : Outcome (TradingMain K) :=
  match m.marketUpdates with
  | [] => pure m
  | u :: updates => do
      let (engine, reqs) ← m.tradeEngine.onMarketUpdate P clock cfg MarketOrderBook.calls u
      pure { m with
        tradeEngine := engine
        clientRequests := m.clientRequests ++ reqs
        marketUpdates := updates }

def engine (m : TradingMain K) : TradeEngine := m.tradeEngine.strategy.engine

def session (m : TradingMain K) (e : MatchingEngine) : Session :=
  ⟨m.engine, e, m.clientRequests, m.clientResponses⟩

end TradingMain

structure TradingMain.Ok (c : ℕ) (algo : AlgoType) (riskCfg : ℕ → RiskCfg) (e : MatchingEngine)
    (B : IndexedBooks) (m : TradingMain K) : Prop where
  algoType : m.tradeEngine.algoType = algo
  requests : ∀ req ∈ m.clientRequests, req.Admissible ∧ req.clientId = c
  responses : ∀ r ∈ m.clientResponses, r.tickerId < meMaxTickers
  loop : m.loop.Ok c
  books : ∃ S b, Tracked m.tradeEngine.strategy.books S b ∧
    Trace.Every applyTicker Emitted S m.marketUpdates ∧
      Trace.run applyTicker S m.marketUpdates = projectAll B
  orders : algo.Quotes → ∃ owner, (m.session e).Inv c B owner ∧ m.engine.riskCfg = riskCfg ∧
    ∀ t, m.engine.Limited t

variable {c : ℕ} {algo : AlgoType} {riskCfg : ℕ → RiskCfg} {e e' : MatchingEngine}
  {B : IndexedBooks} {m : TradingMain K} {req : MEClientRequest}

theorem TradingMain.ok_new (checked : Bool) (c : ℕ) (algo : AlgoType)
    (cfg : ℕ → StrategyCfg K) (openVwap : ℕ → ℕ → K) (draws : ℕ → ℕ) :
    (TradingMain.new checked c algo cfg openVwap draws).Ok c algo
      (fun t => (cfg t).maker.riskCfg) (MatchingEngine.new checked) IndexedBooks.new where
  algoType := rfl
  requests := by simp [TradingMain.new]
  responses := by simp [TradingMain.new]
  loop := RandomLoop.ok_new c draws
  books := ⟨_, _, tracked_new checked, trivial, rfl⟩
  orders := fun _ => by
    refine ⟨_, Session.inv_new checked c (fun t => (cfg t).maker.riskCfg)
      fun t => (cfg t).maker.hysteresisTicks, rfl, fun t => ?_⟩
    constructor <;> simp [TradingMain.engine, TradingMain.new, AlgoEngine.new, TradeEngine.new,
      OrderManager.new, OrderManager.slot, OMOrder.default, OMOrder.openQty]

theorem numNews_one_le (req : MEClientRequest) : numNews [req] ≤ 1 := by
  change numAdds [req.call] ≤ 1
  cases req.call
  · exact Nat.le_refl 1
  · exact Nat.zero_le 1

omit [Field K] [LinearOrder K] in
theorem TradingMain.Ok.receive (h : m.Ok c algo riskCfg e B) (hw : ∀ t, (B t).WF)
    (hadm : req.Admissible) (hroom : (B req.tickerId).book.nextMarketOrderId < meMaxOrderIds)
    {reqs : List MEClientRequest} (hreqs : ∀ q ∈ reqs, q ∈ m.clientRequests)
    (horders : algo.Quotes → ∃ owner,
      (TradingMain.session (.receive c (B.step req).2 { m with clientRequests := reqs }) e').Inv c
        (B.step req).1 owner) :
    TradingMain.Ok c algo riskCfg e' (B.step req).1
      (.receive c (B.step req).2 { m with clientRequests := reqs }) := by
  obtain ⟨S, b, htr, hev, hrun⟩ := h.books
  have hnum := numNews_one_le req
  obtain ⟨hev', hrun'⟩ := step_emits hw hadm (by omega)
  refine ⟨h.algoType, fun q hq => h.requests q (hreqs q hq), fun r hr => ?_, h.loop,
    ⟨S, b, htr, ?_, ?_⟩, fun hq => ?_⟩
  · rcases List.mem_append.mp hr with hr | hr
    · exact h.responses r hr
    · exact (call_response (hw _) hadm (List.mem_filter.mp hr).1).1 ▸ hadm.1
  · exact Trace.every_append.mpr ⟨hev, hrun.symm ▸ hev'⟩
  · dsimp only [TradingMain.receive]
    rw [Trace.run_append, hrun, hrun']
  · obtain ⟨owner, hinv⟩ := horders hq
    obtain ⟨-, -, hcfg, hlim⟩ := h.orders hq
    exact ⟨owner, hinv, hcfg, hlim⟩

omit [Field K] [LinearOrder K] in
theorem TradingMain.session_receive (hm : m.engine.clientId = c)
    {reqs : List MEClientRequest} {events : List Event}
    (he : e.processClientRequest req = .ok (e', events)) :
    Session.process { m.session e with requests := reqs } req =
      .ok (TradingMain.session (.receive c events { m with clientRequests := reqs }) e') := by
  rw [Session.process]
  change (e.processClientRequest req >>= _) = _
  rw [he, ok_bind]
  subst hm
  rfl

omit [Field K] [LinearOrder K] in
theorem TradingMain.Ok.sent (h : m.Ok c algo riskCfg e B) (hw : ∀ t, (B t).WF)
    (hroom : (B req.tickerId).book.nextMarketOrderId < meMaxOrderIds)
    (he : e.processClientRequest req = .ok (e', (B.step req).2)) {reqs : List MEClientRequest}
    (hreqs : m.clientRequests = req :: reqs) :
    TradingMain.Ok c algo riskCfg e' (B.step req).1
      (.receive c (B.step req).2 { m with clientRequests := reqs }) := by
  obtain ⟨hadm, -⟩ := h.requests req (hreqs ▸ List.mem_cons_self ..)
  refine h.receive hw hadm hroom (fun q hq => hreqs ▸ List.mem_cons_of_mem _ hq) fun hq => ?_
  obtain ⟨owner, hinv, -⟩ := h.orders hq
  obtain ⟨hbase, hsteps⟩ := hinv.exchange hreqs (session_receive hinv.client he)
  exact ⟨owner, hinv.of_base hbase hsteps⟩

omit [Field K] [LinearOrder K] in
theorem TradingMain.Ok.heard (h : m.Ok c algo riskCfg e B) (hw : ∀ t, (B t).WF)
    (hadm : req.Admissible) (hne : req.clientId ≠ c)
    (hroom : (B req.tickerId).book.nextMarketOrderId < meMaxOrderIds)
    (he : e.processClientRequest req = .ok (e', (B.step req).2)) :
    TradingMain.Ok c algo riskCfg e' (B.step req).1 (m.receive c (B.step req).2) := by
  refine h.receive hw hadm hroom (fun q hq => hq) fun hq => ?_
  obtain ⟨owner, hinv, -⟩ := h.orders hq
  have hproc : (m.session e).process req = _ :=
    @session_receive K c e e' m req hinv.client m.clientRequests (B.step req).2 he
  obtain ⟨hbase, hsteps⟩ := hinv.other hadm hne hproc
  exact ⟨owner, hinv.of_base hbase hsteps⟩

theorem Strategy.addFill_ok {B : Type} (s : Strategy K B) (cfg : ℕ → StrategyCfg K)
    {r : MEClientResponse} (ht : r.tickerId < meMaxTickers) :
    ∃ s', s.addFill cfg r = .ok s' ∧ s'.books = s.books := by
  unfold Strategy.addFill TradeEngine.addFill
  rw [require_of _ ht]
  split_ifs
  · exact ⟨_, rfl, rfl⟩
  · exact ⟨_, rfl, rfl⟩

theorem AlgoEngine.onOrderUpdate_idle {a : AlgoEngine K MarketOrderBook}
    (cfg : ℕ → StrategyCfg K) {r : MEClientResponse} (ha : ¬ a.algoType.Quotes)
    (ht : r.tickerId < meMaxTickers) :
    ∃ a', a.onOrderUpdate cfg r = .ok a' ∧ a'.algoType = a.algoType ∧
      a'.strategy.books = a.strategy.books := by
  obtain ⟨s, hs, hbooks⟩ := a.strategy.addFill_ok cfg ht
  refine ⟨{ a with strategy := s }, ?_, rfl, hbooks⟩
  unfold AlgoEngine.onOrderUpdate
  split
  · exact absurd (.inl ‹_›) ha
  · exact absurd (.inr ‹_›) ha
  · rw [hs]
    rfl

theorem AlgoEngine.onOrderUpdate_quotes {a : AlgoEngine K MarketOrderBook}
    (cfg : ℕ → StrategyCfg K) {r : MEClientResponse} (ha : a.algoType.Quotes) {engine : TradeEngine}
    (he : a.strategy.engine.onOrderUpdate r = .ok engine) :
    ∃ a', a.onOrderUpdate cfg r = .ok a' ∧ a'.algoType = a.algoType ∧
      a'.strategy.books = a.strategy.books ∧ a'.strategy.engine = engine := by
  unfold AlgoEngine.onOrderUpdate Strategy.onOrderUpdate
  rw [he]
  rcases ha with ha | ha
  · rw [ha]
    exact ⟨_, rfl, rfl, rfl, rfl⟩
  · rw [ha]
    exact ⟨_, rfl, rfl, rfl, rfl⟩

theorem TradingMain.Ok.onOrderUpdate (h : m.Ok c algo riskCfg e B) (cfg : ℕ → StrategyCfg K)
    (hq : algo.Quotes) {owner : ℕ → ℕ × Side} (hinv : (m.session e).Inv c B owner)
    {r : MEClientResponse} {rs : List MEClientResponse} (hresps : m.clientResponses = r :: rs) :
    ∃ a, m.tradeEngine.onOrderUpdate cfg r = .ok a ∧ a.algoType = m.tradeEngine.algoType ∧
      a.strategy.books = m.tradeEngine.strategy.books ∧
      m.engine.onOrderUpdate r = .ok a.strategy.engine := by
  have hr : r ∈ m.clientResponses := hresps ▸ List.mem_cons_self ..
  obtain ⟨-, hside⟩ := hinv.responses r hr
  obtain ⟨engine, he⟩ := m.engine.onOrderUpdate_ok (h.responses r hr) (hside.imp_right And.right)
  obtain ⟨a, ha, htype, hbooks, rfl⟩ :=
    AlgoEngine.onOrderUpdate_quotes cfg (h.algoType.symm ▸ hq) he
  exact ⟨a, ha, htype, hbooks, he⟩

theorem TradingMain.Ok.takeResponse (h : m.Ok c algo riskCfg e B)
    (hcfg : ∀ t, (riskCfg t).maxPosition + (riskCfg t).maxOrderSize ≤ 2 ^ 31 - 1)
    (cfg : ℕ → StrategyCfg K) :
    ∃ m', m.takeResponse cfg = .ok m' ∧ m'.Ok c algo riskCfg e B := by
  unfold TradingMain.takeResponse
  cases hresps : m.clientResponses with
  | nil => exact ⟨m, rfl, h⟩
  | cons r rs =>
    have hrest : ∀ q ∈ rs, q ∈ m.clientResponses := fun q hq => hresps ▸ List.mem_cons_of_mem _ hq
    by_cases hq : algo.Quotes
    · obtain ⟨owner, hinv, hrisk, hlim⟩ := h.orders hq
      obtain ⟨a', ha', htype, hbooks, he⟩ := h.onOrderUpdate cfg hq hinv hresps
      have hresps' : (m.session e).responses = r :: rs := hresps
      obtain ⟨hbase, hsteps⟩ := hinv.deliver hresps' he
      dsimp only
      rw [ha']
      refine ⟨_, rfl, ⟨htype.trans h.algoType, h.requests, fun q hq => h.responses q (hrest q hq),
        h.loop, ?_, fun _ => ⟨owner, hinv.of_base hbase hsteps, ?_, fun t => ?_⟩⟩⟩
      · dsimp only
        rw [hbooks]
        exact h.books
      · rw [← hrisk]
        change a'.strategy.engine.riskCfg = _
        rw [TradeEngine.onOrderUpdate_eq he]
      · exact (hlim t).deliver hinv (by rw [← hrisk] at hcfg; exact hcfg t) hresps' he
    · have ht := h.responses r (hresps ▸ List.mem_cons_self ..)
      obtain ⟨a', ha', htype, hbooks⟩ :=
        AlgoEngine.onOrderUpdate_idle cfg (h.algoType.symm ▸ hq) ht
      dsimp only
      rw [ha']
      refine ⟨_, rfl, ⟨htype.trans h.algoType, h.requests, fun q hq => h.responses q (hrest q hq),
        h.loop, ?_, fun hq' => absurd hq' hq⟩⟩
      dsimp only
      rw [hbooks]
      exact h.books

omit [Field K] [LinearOrder K] in
theorem TradingMain.Ok.takeRandomTurn (h : m.Ok c algo riskCfg e B) (hc : c < meMaxNumClients)
    (ha : algo = .random) (rand : ℕ → ℕ) :
    ∃ m', m.takeRandomTurn rand = .ok m' ∧ m'.Ok c algo riskCfg e B := by
  obtain ⟨l, reqs, hl, hok, hreqs⟩ := h.loop.step hc rand
  unfold TradingMain.takeRandomTurn
  rw [hl]
  refine ⟨_, rfl, ⟨h.algoType, fun q hq => ?_, h.responses, hok, h.books, fun hq => ?_⟩⟩
  · exact (List.mem_append.mp hq).elim (h.requests q) (hreqs q)
  · subst ha
    rcases hq with hq | hq <;> cases hq

section Quotes

variable [FloorRing K] {P : Platform K} {clock : ℕ → ℤ} {cfg : ℕ → StrategyCfg K}

def TradingMain.QuotesInRange (P : Platform K) (clock : ℕ → ℤ) (cfg : ℕ → StrategyCfg K)
    (m : TradingMain K) : Prop :=
  ∀ u ∈ m.marketUpdates.head?,
    ∀ r ∈ (m.tradeEngine.react P clock cfg MarketOrderBook.calls u).toOption, r.2.Valid

instance (m : TradingMain K) : Decidable (m.QuotesInRange P clock cfg) :=
  inferInstanceAs (Decidable (∀ u ∈ m.marketUpdates.head?,
    ∀ r ∈ (m.tradeEngine.react P clock cfg MarketOrderBook.calls u).toOption, r.2.Valid))

theorem TradingMain.Ok.takeMarketUpdate (h : m.Ok c algo riskCfg e B) (hc : c < meMaxNumClients)
    (hcfg : ∀ t, (riskCfg t).maxPosition + (riskCfg t).maxOrderSize ≤ 2 ^ 31 - 1)
    (hclip : ∀ t, (cfg t).maker.clip < 2 ^ 32)
    (hids : m.engine.orderManager.nextOrderId + 2 ≤ meMaxOrderIds)
    (hquotes : algo = .maker → m.QuotesInRange P clock cfg) :
    ∃ m', m.takeMarketUpdate P clock cfg = .ok m' ∧ m'.Ok c algo riskCfg e B := by
  unfold TradingMain.takeMarketUpdate
  obtain ⟨S, b, htr, hev, hrun⟩ := h.books
  cases hupd : m.marketUpdates with
  | nil => exact ⟨m, rfl, h⟩
  | cons u us =>
    rw [hupd] at hev hrun
    obtain ⟨hemit, hev⟩ := hev
    obtain ⟨a, r, hreact, hr, htr'⟩ := AlgoEngine.react_ok P clock hclip htr hemit
    have htype := hr.algoType.trans h.algoType
    simp only [AlgoEngine.onMarketUpdate, hreact, ok_bind, AlgoEngine.perform, hr.engine]
    by_cases hq : algo.Quotes
    · obtain ⟨owner, hinv, hrisk, hlim⟩ := h.orders hq
      have hvalid : r.Valid := by
        rcases hq with hq | hq
        · exact hquotes hq u (by rw [hupd]; rfl) (a, r) (by rw [hreact]; rfl)
        · exact hr.taker (h.algoType.trans hq)
      obtain ⟨e', reqs, owner', hperf, hinv', hrisk', hlim'⟩ := hinv.perform hc
        hemit.feedable.1 hvalid hids (a.lossTooLarge cfg u.tickerId) (hrisk.symm ▸ hcfg) hlim
      change m.tradeEngine.strategy.engine.perform _ _ _ = _ at hperf
      rw [hperf]
      refine ⟨_, rfl, ⟨htype, fun q hq => ?_, h.responses, h.loop, ⟨_, _, htr', hev, hrun⟩,
        fun _ => ⟨owner', hinv', hrisk'.trans hrisk, hlim'⟩⟩⟩
      obtain ⟨hadm, hclient, -⟩ := hinv'.requests q hq
      exact ⟨hadm, hclient⟩
    · obtain rfl := hr.idle (h.algoType.symm ▸ hq)
      refine ⟨_, rfl, ⟨htype, fun q hq => ?_, h.responses, h.loop, ⟨_, _, htr', hev, hrun⟩,
        fun hq' => absurd hq' hq⟩⟩
      exact h.requests q (by simpa using hq)

end Quotes

end Main

structure Ecosystem (K : Type) where
  engine : MatchingEngine
  mains : ℕ → TradingMain K

inductive Turn where
  | exchange (clientId : ℕ)
  | response (clientId : ℕ)
  | marketUpdate (clientId : ℕ)
  | random (clientId : ℕ) (rand : ℕ → ℕ)

section Clients

variable {K : Type} [Field K] [LinearOrder K] [FloorRing K]

namespace Ecosystem

def new (checked : Bool) (algo : ℕ → AlgoType) (cfg : ℕ → ℕ → StrategyCfg K)
    (openVwap : ℕ → ℕ → ℕ → K) (draws : ℕ → ℕ → ℕ) : Ecosystem K where
  engine := MatchingEngine.new checked
  mains := fun c => TradingMain.new checked c (algo c) (cfg c) (openVwap c) (draws c)

def setMain (s : Ecosystem K) (c : ℕ) (m : TradingMain K) : Ecosystem K :=
  { s with mains := Function.update s.mains c m }

variable (P : Platform K) (clock : ℕ → ℕ → ℤ) (cfg : ℕ → ℕ → StrategyCfg K)

def step (s : Ecosystem K) : Turn → Outcome (Ecosystem K)
  | .exchange c =>
      match (s.mains c).clientRequests with
      | [] => pure s
      | req :: reqs => do
          let (engine, events) ← s.engine.processClientRequest req
          let s := s.setMain c { s.mains c with clientRequests := reqs }
          pure ⟨engine, fun c => (s.mains c).receive c events⟩
  | .response c => do
      let m ← (s.mains c).takeResponse (cfg c)
      pure (s.setMain c m)
  | .marketUpdate c => do
      let m ← (s.mains c).takeMarketUpdate P (clock c) (cfg c)
      pure (s.setMain c m)
  | .random c rand => do
      let m ← (s.mains c).takeRandomTurn rand
      pure (s.setMain c m)

/-- The tables have room for what the turn may add, and a maker's quotes are prices of the
exchange. Nothing is asked of a taker. -/
def Allowed (s : Ecosystem K) : Turn → Prop
  | .exchange c => c < meMaxNumClients ∧ ∀ req ∈ (s.mains c).clientRequests.head?,
      (s.engine.tickerOrderBook req.tickerId).nextMarketOrderId < meMaxOrderIds
  | .response c => c < meMaxNumClients
  | .marketUpdate c => c < meMaxNumClients ∧
      (s.mains c).engine.orderManager.nextOrderId + 2 ≤ meMaxOrderIds ∧
      ((s.mains c).tradeEngine.algoType = .maker → (s.mains c).QuotesInRange P (clock c) (cfg c))
  | .random c _ => c < meMaxNumClients ∧ (s.mains c).tradeEngine.algoType = .random

instance (s : Ecosystem K) : (a : Turn) → Decidable (s.Allowed P clock cfg a)
  | .exchange _ => inferInstanceAs (Decidable (_ ∧ ∀ req ∈ List.head? _, _ < _))
  | .response _ => inferInstanceAs (Decidable (_ < _))
  | .marketUpdate _ => inferInstanceAs (Decidable (_ ∧ _ ∧ (_ → _)))
  | .random .. => inferInstanceAs (Decidable (_ ∧ _))

structure Ok (algo : ℕ → AlgoType) (s : Ecosystem K) (B : IndexedBooks) : Prop where
  refines : RefinesAll s.engine B
  mains : ∀ c < meMaxNumClients,
    (s.mains c).Ok c (algo c) (fun t => (cfg c t).maker.riskCfg) s.engine B

variable {P clock cfg} {algo : ℕ → AlgoType} {s : Ecosystem K} {B : IndexedBooks}

omit [Field K] [LinearOrder K] [FloorRing K] in
theorem Ok.setMain (h : s.Ok cfg algo B) {c : ℕ} {m : TradingMain K}
    (hm : m.Ok c (algo c) (fun t => (cfg c t).maker.riskCfg) s.engine B) :
    (s.setMain c m).Ok cfg algo B where
  refines := h.refines
  mains := fun c' hc' => by
    by_cases heq : c' = c
    · subst heq
      dsimp only [Ecosystem.setMain]
      rw [Function.update_self]
      exact hm
    · dsimp only [Ecosystem.setMain]
      rw [Function.update_of_ne heq]
      exact h.mains c' hc'

theorem Ok.exchange (h : s.Ok cfg algo B) {c : ℕ} {req : MEClientRequest}
    {reqs : List MEClientRequest} (hc : c < meMaxNumClients)
    (hreqs : (s.mains c).clientRequests = req :: reqs)
    (hroom : (s.engine.tickerOrderBook req.tickerId).nextMarketOrderId < meMaxOrderIds) :
    ∃ s', s.step P clock cfg (.exchange c) = .ok s' ∧ ∃ B', s'.Ok cfg algo B' := by
  obtain ⟨hadm, hclient⟩ := (h.mains c hc).requests req (hreqs ▸ List.mem_cons_self ..)
  obtain ⟨_, -, -, hnext⟩ := h.refines.books req.tickerId
  have hone := numNews_one_le req
  rw [hnext] at hroom
  obtain ⟨e, he, href⟩ := h.refines.step hadm (by omega)
  rw [Ecosystem.step, hreqs]
  dsimp only
  rw [he]
  refine ⟨_, rfl, _, href, fun c' hc' => ?_⟩
  dsimp only [Ecosystem.setMain]
  by_cases heq : c' = c
  · subst heq
    rw [Function.update_self]
    exact (h.mains c' hc').sent h.refines.wf hroom he hreqs
  · rw [Function.update_of_ne heq]
    exact (h.mains c' hc').heard h.refines.wf hadm (hclient ▸ Ne.symm heq) hroom he

theorem Ok.step (h : s.Ok cfg algo B)
    (hcfg : ∀ c t, (cfg c t).maker.riskCfg.maxPosition + (cfg c t).maker.riskCfg.maxOrderSize ≤
      2 ^ 31 - 1)
    (hclip : ∀ c t, (cfg c t).maker.clip < 2 ^ 32) {a : Turn} (ha : s.Allowed P clock cfg a) :
    ∃ s', s.step P clock cfg a = .ok s' ∧ ∃ B', s'.Ok cfg algo B' := by
  cases a with
  | exchange c =>
    obtain ⟨hc, hroom⟩ := ha
    cases hreqs : (s.mains c).clientRequests with
    | nil =>
      refine ⟨s, ?_, B, h⟩
      rw [Ecosystem.step, hreqs]
      rfl
    | cons req reqs => exact h.exchange hc hreqs (hroom req (by rw [hreqs]; rfl))
  | response c =>
    obtain ⟨m, hm, hok⟩ := (h.mains c ha).takeResponse (hcfg c) (cfg c)
    rw [Ecosystem.step, hm]
    exact ⟨_, rfl, B, h.setMain hok⟩
  | marketUpdate c =>
    obtain ⟨hc, hids, hquotes⟩ := ha
    have hmain := h.mains c hc
    obtain ⟨m, hm, hok⟩ := hmain.takeMarketUpdate hc (hcfg c) (hclip c) hids
      fun hq => hquotes (hmain.algoType.trans hq)
    rw [Ecosystem.step, hm]
    exact ⟨_, rfl, B, h.setMain hok⟩
  | random c rand =>
    obtain ⟨hc, hrandom⟩ := ha
    have hmain := h.mains c hc
    obtain ⟨m, hm, hok⟩ := hmain.takeRandomTurn hc (hmain.algoType.symm.trans hrandom) rand
    rw [Ecosystem.step, hm]
    exact ⟨_, rfl, B, h.setMain hok⟩

omit [FloorRing K] in
theorem ok_new (checked : Bool) (algo : ℕ → AlgoType) (cfg : ℕ → ℕ → StrategyCfg K)
    (openVwap : ℕ → ℕ → ℕ → K) (draws : ℕ → ℕ → ℕ) :
    (Ecosystem.new checked algo cfg openVwap draws).Ok cfg algo IndexedBooks.new where
  refines := refinesAll_new checked
  mains := fun c _ => TradingMain.ok_new checked c (algo c) (cfg c) (openVwap c) (draws c)

def Run (P : Platform K) (clock : ℕ → ℕ → ℤ) (cfg : ℕ → ℕ → StrategyCfg K)
    (s s' : Ecosystem K) : Prop :=
  Trace.Reach (fun s a s' => s.step P clock cfg a = .ok s') (Allowed P clock cfg) s s'

theorem Run.ok {s' : Ecosystem K} (h : Run P clock cfg s s') (hok : s.Ok cfg algo B)
    (hcfg : ∀ c t, (cfg c t).maker.riskCfg.maxPosition + (cfg c t).maker.riskCfg.maxOrderSize ≤
      2 ^ 31 - 1)
    (hclip : ∀ c t, (cfg c t).maker.clip < 2 ^ 32) : ∃ B', s'.Ok cfg algo B' := by
  induction h with
  | refl => exact ⟨B, hok⟩
  | step _ ha hs ih =>
    obtain ⟨B₁, h₁⟩ := ih
    obtain ⟨s₂, hs', h₂⟩ := h₁.step hcfg hclip ha
    obtain rfl := Except.ok.inj (hs'.symm.trans hs)
    exact h₂

end Ecosystem

variable {P : Platform K} {clock : ℕ → ℕ → ℤ} {cfg : ℕ → ℕ → StrategyCfg K}

section Vpin

variable {c : ℕ → StrategyCfg K} {ns : ℕ → ℤ} {a a' : AlgoEngine K MarketOrderBook}

omit [FloorRing K] in
theorem AlgoEngine.features_onOrderUpdate {r : MEClientResponse}
    (h : a.onOrderUpdate c r = .ok a') : a'.strategy.features = a.strategy.features := by
  unfold AlgoEngine.onOrderUpdate Strategy.onOrderUpdate Strategy.addFill at h
  split at h
  · obtain ⟨_, hs, h⟩ := bind_eq_ok.mp h
    obtain ⟨_, -, hs⟩ := bind_eq_ok.mp hs
    cases hs
    cases h
    rfl
  · obtain ⟨_, hs, h⟩ := bind_eq_ok.mp h
    obtain ⟨_, -, hs⟩ := bind_eq_ok.mp hs
    cases hs
    cases h
    rfl
  · obtain ⟨_, hs, h⟩ := bind_eq_ok.mp h
    split_ifs at hs
    · obtain ⟨_, -, hs⟩ := bind_eq_ok.mp hs
      cases hs
      cases h
      rfl
    · cases hs
      cases h
      rfl

variable [IsStrictOrderedRing K]

theorem AlgoEngine.vpinWhole_onMarketUpdate {u : MEMarketUpdate} {reqs : List MEClientRequest}
    (ha : a.strategy.features.VpinWhole)
    (h : a.onMarketUpdate P ns c MarketOrderBook.calls u = .ok (a', reqs)) :
    a'.strategy.features.VpinWhole := by
  obtain ⟨⟨a₁, r⟩, hreact, h⟩ := bind_eq_ok.mp h
  obtain ⟨⟨e, out⟩, -, h⟩ := bind_eq_ok.mp h
  cases h
  obtain ⟨_, -, hreact⟩ := bind_eq_ok.mp hreact
  obtain ⟨⟨b, cb⟩, -, hreact⟩ := bind_eq_ok.mp hreact
  cases cb with
  | onTradeUpdate v =>
    cases hreact
    exact ha.onTradeUpdate v
  | onOrderBookUpdate t price side =>
    cases hreact
    exact ha.onOrderBookUpdate P.sqrt _

def Ecosystem.VpinWhole (s : Ecosystem K) : Prop :=
  ∀ c, (s.mains c).tradeEngine.strategy.features.VpinWhole

omit [FloorRing K] [IsStrictOrderedRing K] in
theorem Ecosystem.VpinWhole.setMain {s : Ecosystem K} (h : s.VpinWhole) {c : ℕ} {m : TradingMain K}
    (hm : m.tradeEngine.strategy.features.VpinWhole) : (s.setMain c m).VpinWhole := by
  intro c'
  dsimp only [Ecosystem.setMain]
  by_cases heq : c' = c
  · subst heq
    rw [Function.update_self]
    exact hm
  · rw [Function.update_of_ne heq]
    exact h c'

theorem Ecosystem.VpinWhole.step {s s' : Ecosystem K} (h : s.VpinWhole) {a : Turn}
    (hs : s.step P clock cfg a = .ok s') : s'.VpinWhole := by
  cases a with
  | exchange c =>
    unfold Ecosystem.step at hs
    dsimp only at hs
    split at hs
    · cases hs
      exact h
    · next req reqs hreqs =>
      obtain ⟨⟨e, events⟩, -, hs⟩ := bind_eq_ok.mp hs
      cases hs
      intro c'
      have hset : (s.setMain c { s.mains c with clientRequests := reqs }).VpinWhole :=
        h.setMain (h c)
      exact hset c'
  | response c =>
    obtain ⟨m, hm, hs⟩ := bind_eq_ok.mp hs
    cases hs
    refine h.setMain ?_
    unfold TradingMain.takeResponse at hm
    split at hm
    · cases hm
      exact h c
    · obtain ⟨a, ha, hm⟩ := bind_eq_ok.mp hm
      cases hm
      exact (AlgoEngine.features_onOrderUpdate ha).symm ▸ h c
  | marketUpdate c =>
    obtain ⟨m, hm, hs⟩ := bind_eq_ok.mp hs
    cases hs
    refine h.setMain ?_
    unfold TradingMain.takeMarketUpdate at hm
    split at hm
    · cases hm
      exact h c
    · obtain ⟨⟨a, reqs⟩, ha, hm⟩ := bind_eq_ok.mp hm
      cases hm
      exact AlgoEngine.vpinWhole_onMarketUpdate (h c) ha
  | random c rand =>
    obtain ⟨m, hm, hs⟩ := bind_eq_ok.mp hs
    cases hs
    refine h.setMain ?_
    obtain ⟨⟨loop, reqs⟩, -, hm⟩ := bind_eq_ok.mp hm
    cases hm
    exact h c

end Vpin

variable [IsStrictOrderedRing K]

theorem ecosystem_stays_in_limits (checked : Bool) (algo : ℕ → AlgoType)
    (openVwap : ℕ → ℕ → ℕ → K) (draws : ℕ → ℕ → ℕ) {s : Ecosystem K}
    (hcfg : ∀ c t, (cfg c t).maker.riskCfg.maxPosition + (cfg c t).maker.riskCfg.maxOrderSize ≤
      2 ^ 31 - 1)
    (hclip : ∀ c t, (cfg c t).maker.clip < 2 ^ 32)
    (hvpin : ∀ c, (cfg c 0).features.VpinWhole)
    (h : Ecosystem.Run P clock cfg (.new checked algo cfg openVwap draws) s) :
    (∀ a, s.Allowed P clock cfg a → ∃ s', s.step P clock cfg a = .ok s') ∧
      (∀ c u, (s.mains c).tradeEngine.strategy.features.VpinEnds u) ∧
      ∀ c < meMaxNumClients,
        (∀ req ∈ (s.mains c).clientRequests, req.Admissible ∧ req.clientId = c) ∧
        (algo c = .maker ∨ algo c = .taker → ∀ t,
          let position := ((s.mains c).engine.positions t).position
          let maxPosition : ℤ := (cfg c t).maker.riskCfg.maxPosition
          |position| ≤ maxPosition ∧
            position + ((s.mains c).engine.orderManager.slot t .buy).openQty ≤ maxPosition ∧
            -maxPosition ≤ position - ((s.mains c).engine.orderManager.slot t .sell).openQty) ∧
        ((s.mains c).marketUpdates = [] → ∀ t,
          ShowsBook ((s.mains c).tradeEngine.strategy.books t) (s.engine.tickerOrderBook t)) := by
  obtain ⟨B, hok⟩ := h.ok (Ecosystem.ok_new checked algo cfg openVwap draws) hcfg hclip
  refine ⟨fun a ha => ?_, fun c u => ?_, fun c hc => ?_⟩
  · obtain ⟨s', hs', -⟩ := hok.step hcfg hclip ha
    exact ⟨s', hs'⟩
  · have hwhole : s.VpinWhole :=
      Trace.Reach.invariant h (fun c => (hvpin c).new) fun _ _ _ hs _ hstep => hs.step hstep
    exact (hwhole c).ends u
  have hmain := hok.mains c hc
  refine ⟨hmain.requests, fun hq t => ?_, fun hnil t => ?_⟩
  · obtain ⟨-, -, hrisk, hlim⟩ := hmain.orders hq
    have ht := hlim t
    unfold TradeEngine.Limited at ht
    rw [hrisk] at ht
    exact ⟨ht.position_le, ht.upper, ht.lower⟩
  · obtain ⟨S, b, htr, -, hrun⟩ := hmain.books
    rw [hnil] at hrun
    obtain rfl : S = projectAll B := hrun
    exact htr.showsBook hok.refines t

end Clients

def samplePlatform : Platform ℚ := ⟨id, fun _ _ => 0, fun _ => 0⟩

def ecosystemCfg : ℕ → ℕ → StrategyCfg ℚ := fun _ _ =>
  { StrategyCfg.default with
    maker := { TradeEngineCfg.default with clip := 5, threshold := 1 / 2, riskCfg := ⟨10, 20⟩ } }

/-- Clients 1 to 3 draw their orders at random, and client 4 takes liquidity. -/
def sampleEcosystem : Ecosystem ℚ :=
  .new true (fun c => if c = 4 then .taker else .random) ecosystemCfg (fun _ _ _ => 0) fun _ _ => 0

/-- An ask and a bid are met by a buyer of some of the ask, and the taker buys after him. -/
def sampleTurns : List Turn :=
  [.random 1 fun i => [0, 4, 20, 0].getD i 0, .exchange 1,
    .random 2 fun i => [0, 0, 8, 1].getD i 0, .exchange 2,
    .random 3 fun i => [0, 5, 9, 1].getD i 0, .exchange 3,
    .marketUpdate 4, .marketUpdate 4, .marketUpdate 4, .exchange 4, .marketUpdate 4, .response 4,
    .response 4]

theorem ecosystem_stays_in_limits_sample :
    ∃ s, Ecosystem.Run samplePlatform (fun _ _ => 0) ecosystemCfg sampleEcosystem s ∧
      ((s.mains 4).engine.positions 0).position = 5 ∧
      |((s.mains 4).engine.positions 0).position| ≤ 20 ∧
      ∃ s', s.step samplePlatform (fun _ _ => 0) ecosystemCfg (.marketUpdate 4) = .ok s' := by
  obtain ⟨s, hrun, hobs⟩ := map_eq_ok (show
    (Trace.checked (Ecosystem.step samplePlatform (fun _ _ => 0) ecosystemCfg)
      (Ecosystem.Allowed samplePlatform (fun _ _ => 0) ecosystemCfg) Fault.fatal sampleEcosystem
      sampleTurns).map (fun s => (((s.mains 4).engine.positions 0).position,
        decide (s.Allowed samplePlatform (fun _ _ => 0) ecosystemCfg (.marketUpdate 4)))) =
      .ok (5, true) by decide +kernel)
  obtain ⟨hpos, hallowed⟩ := Prod.mk.inj hobs
  have hreach := Trace.reach_of_checked hrun
  obtain ⟨hsteps, -, hclients⟩ := ecosystem_stays_in_limits true _ _ _
    (fun _ _ => show 20 + 10 ≤ 2 ^ 31 - 1 by decide) (fun _ _ => show 5 < 2 ^ 32 by decide)
    (fun _ => FeatureCfg.vpinWhole_default) hreach
  obtain ⟨-, hlimit, -⟩ := hclients 4 (by decide)
  exact ⟨s, hreach, hpos, (hlimit (.inr rfl) 0).1, hsteps _ (of_decide_eq_true hallowed)⟩

end Trading
