import TradingEcosystem.Backtest.EventUpdates

namespace Backtest

open Common Exchange Trading

section Journal

variable {E : Type}

def published (e e' : BacktestEngine E) : List MEClientResponse :=
  e'.clientResponses.drop e.clientResponses.length

namespace BacktestEngine

/-- The functions of the harness once more, with the entries of the calls they make. -/
def pumpJournal (nowNs : ℤ) :
    BacktestEngine E → List MEClientRequest → Outcome (BacktestEngine E × List Entry)
  | e, [] => pure (e, [])
  | e, req :: reqs => do
      let e₁ ← e.pumpRequest nowNs req
      let (e₂, log) ← pumpJournal nowNs e₁ reqs
      pure (e₂, .request req (e₁.live req.tickerId (sideToIndex req.side)).ahead :: log)

def touchJournal (e : BacktestEngine E) : Outcome (BacktestEngine E × List Entry) := do
  let e' ← e.matchAgainstBBO
  pure (e', [.touch (published e e')])

def printJournal (e : BacktestEngine E) (ev : TradeEvent) :
    Outcome (BacktestEngine E × List Entry) := do
  let e' ← e.matchAgainstTrade ev
  pure (e', [.print ev (published e e')])

variable (calls : EngineCalls E)

def applyJournal (e : BacktestEngine E) : TapeEvent → Outcome (BacktestEngine E × List Entry)
  | .book ev => do
      let e ← e.quoteBookEvent calls ev
      e.touchJournal
  | .trade ev => do
      let e ← e.publishMarketUpdate calls
        ⟨.trade, orderIdInvalid, e.tickerId, ev.side, ev.price, ev.qty, 0⟩
      e.printJournal ev
  | .update eventNs u => do
      let e ← e.publishMarketUpdate calls u
      let e ← e.syncBBOFromBook calls
      if u.type = .trade then e.printJournal ⟨eventNs, u.price, u.qty, u.side⟩ else e.touchJournal

def stepJournal (e : BacktestEngine E) (ev : TapeEvent) :
    Outcome (BacktestEngine E × List Entry) := do
  let (e, matched) ← e.applyJournal calls ev
  let (e, requests) ← pumpJournal ev.nowNs { e with clientRequests := [] } e.clientRequests
  let e ← e.pumpClientResponses calls
  pure (e, matched ++ requests)

def journal : BacktestEngine E → List TapeEvent → Outcome (BacktestEngine E × List Entry)
  | e, [] => pure (e, [])
  | e, ev :: tape => do
      let (e, log) ← e.stepJournal calls ev
      let (e, rest) ← journal e tape
      pure (e, log ++ rest)

theorem map_pumpJournal (nowNs : ℤ) (e : BacktestEngine E) (reqs : List MEClientRequest) :
    Prod.fst <$> pumpJournal nowNs e reqs = pumpRequests nowNs e reqs := by
  induction reqs generalizing e with
  | nil => rfl
  | cons req reqs ih =>
    rw [pumpJournal, pumpRequests, map_bind]
    refine bind_congr fun e₁ => ?_
    rw [map_bind, ← ih]
    simp only [map_pure, bind_pure_comp]

theorem map_applyJournal (e : BacktestEngine E) (ev : TapeEvent) :
    Prod.fst <$> e.applyJournal calls ev = e.applyEvent calls ev := by
  have htouch : ∀ e : BacktestEngine E, Prod.fst <$> e.touchJournal = e.matchAgainstBBO :=
    fun e => (map_bind _ _ _).trans (bind_pure _)
  have hprint : ∀ (e : BacktestEngine E) (ev : TradeEvent),
      Prod.fst <$> e.printJournal ev = e.matchAgainstTrade ev :=
    fun e ev => (map_bind _ _ _).trans (bind_pure _)
  cases ev with
  | book ev =>
    rw [applyJournal, applyEvent, applyBookEvent, map_bind]
    exact bind_congr fun e₁ => htouch e₁
  | trade ev =>
    rw [applyJournal, applyEvent, applyTradeEvent, map_bind]
    exact bind_congr fun e₁ => hprint e₁ ev
  | update eventNs u =>
    rw [applyJournal, applyEvent, applyUpdate, map_bind]
    refine bind_congr fun e₁ => ?_
    rw [map_bind]
    refine bind_congr fun e₂ => ?_
    split_ifs
    · exact hprint e₂ _
    · exact htouch e₂

theorem map_stepJournal (e : BacktestEngine E) (ev : TapeEvent) :
    Prod.fst <$> e.stepJournal calls ev = e.step calls ev := by
  rw [stepJournal, step, map_bind, ← map_applyJournal, bind_map_left]
  refine bind_congr fun p => ?_
  rw [map_bind, pumpClientRequests, ← map_pumpJournal, bind_map_left]
  refine bind_congr fun q => ?_
  rw [map_bind]
  exact bind_pure _

theorem map_journal (e : BacktestEngine E) (tape : List TapeEvent) :
    Prod.fst <$> e.journal calls tape = e.run calls tape := by
  induction tape generalizing e with
  | nil => rfl
  | cons ev tape ih =>
    rw [journal, run, map_bind, ← map_stepJournal, bind_map_left]
    refine bind_congr fun p => ?_
    rw [map_bind, ← ih]
    simp only [map_pure, bind_pure_comp]

end BacktestEngine

end Journal

def Entry.Addresses (tickerId : ℕ) (side : Side) : Entry → Prop
  | .request req _ => req.tickerId = tickerId ∧ sideToIndex req.side = sideToIndex side
  | _ => False

instance (tickerId : ℕ) (side : Side) : (x : Entry) → Decidable (x.Addresses tickerId side)
  | .request _ _ => inferInstanceAs (Decidable (_ ∧ _))
  | .touch _ => isFalse id
  | .print _ _ => isFalse id

def EntryMove (tickerId : ℕ) (side : Side) (o : LiveAlgoOrder) (x : Entry) (o' : LiveAlgoOrder) :
    Prop :=
  match x with
  | .request req ahead =>
      if req.tickerId = tickerId ∧ sideToIndex req.side = sideToIndex side then
        req.type = .new → o'.leaves = req.qty ∧ o'.price = req.price ∧ o'.ahead = ahead
      else o' = o
  | x => SlotMove o (x.volume side o.price) x.isPrint (answers tickerId side x.responses) o'

inductive SlotRun (tickerId : ℕ) (side : Side) :
    LiveAlgoOrder → List Entry → LiveAlgoOrder → Prop
  | nil (o : LiveAlgoOrder) : SlotRun tickerId side o [] o
  | cons {o o' o'' : LiveAlgoOrder} {x : Entry} {log : List Entry}
      (h : EntryMove tickerId side o x o') (hrun : SlotRun tickerId side o' log o'') :
      SlotRun tickerId side o (x :: log) o''

def Own (tickerId : ℕ) (x : Entry) : Prop :=
  ∀ r ∈ x.responses, r.tickerId = tickerId ∧ r.side.IsBuyOrSell

section Slots

variable {E : Type} {calls : EngineCalls E} {e e' : BacktestEngine E} {side : Side}
  {log : List Entry} {tickerId : ℕ} {o o' o'' : LiveAlgoOrder}

theorem SlotRun.append {log' : List Entry} (h : SlotRun tickerId side o log o')
    (h' : SlotRun tickerId side o' log' o'') : SlotRun tickerId side o (log ++ log') o'' := by
  induction h with
  | nil => exact h'
  | cons hx _ ih => exact .cons hx (ih h')

theorem SlotRun.split {log' : List Entry} (h : SlotRun tickerId side o (log ++ log') o'') :
    ∃ o', SlotRun tickerId side o log o' ∧ SlotRun tickerId side o' log' o'' := by
  induction log generalizing o with
  | nil => exact ⟨o, .nil o, h⟩
  | cons x log ih =>
    cases h with
    | cons hx hrun =>
      obtain ⟨o₁, h₁, h₂⟩ := ih hrun
      exact ⟨o₁, .cons hx h₁, h₂⟩

theorem Matched.published {x : Entry} (h : Matched x e e') : published e e' = x.responses := by
  rw [Backtest.published, h.frame, List.drop_left]

theorem Matched.tickerId_eq {x : Entry} (h : Matched x e e') : e'.tickerId = e.tickerId := by
  rw [h.frame]

structure Logged (side : Side) (e : BacktestEngine E) (log : List Entry) (e' : BacktestEngine E) :
    Prop where
  slots : SlotRun e.tickerId side (e.slot side) log (e'.slot side)
  tickerId : e'.tickerId = e.tickerId
  own : ∀ x ∈ log, Own e.tickerId x

theorem Logged.trans {e'' : BacktestEngine E} {log' : List Entry} (h : Logged side e log e')
    (h' : Logged side e' log' e'') : Logged side e (log ++ log') e'' := by
  refine ⟨h.slots.append (h.tickerId ▸ h'.slots), h'.tickerId.trans h.tickerId, ?_⟩
  intro x hx
  rcases List.mem_append.mp hx with hx | hx
  · exact h.own x hx
  · exact h.tickerId ▸ h'.own x hx

theorem SameSlots.logged (h : SameSlots e e') : Logged side e [] e' :=
  ⟨by rw [h.slot]; exact .nil _, h.tickerId, List.forall_mem_nil _⟩

theorem Matched.logged {x : Entry} (h : Matched x e e')
    (hmove : EntryMove e.tickerId side (e.slot side) x (e'.slot side)) : Logged side e [x] e' :=
  ⟨.cons hmove (.nil _), h.tickerId_eq, List.forall_mem_singleton.mpr h.mine⟩

theorem touchJournal_logged (hs : side.IsBuyOrSell) (h : e.touchJournal = .ok (e', log)) :
    Logged side e log e' := by
  obtain ⟨e₁, he₁, h⟩ := bind_eq_ok.mp h
  cases h
  obtain ⟨rs, hm⟩ := matchAgainstBBO_matched he₁
  rw [hm.published]
  exact hm.logged (hm.slots hs)

theorem printJournal_logged (hs : side.IsBuyOrSell) {ev : TradeEvent}
    (h : e.printJournal ev = .ok (e', log)) : Logged side e log e' := by
  obtain ⟨e₁, he₁, h⟩ := bind_eq_ok.mp h
  cases h
  obtain ⟨rs, hm⟩ := matchAgainstTrade_matched he₁
  rw [hm.published]
  exact hm.logged (hm.slots hs)

theorem applyJournal_logged (hs : side.IsBuyOrSell) {ev : TapeEvent}
    (h : e.applyJournal calls ev = .ok (e', log)) : Logged side e log e' := by
  cases ev with
  | book ev =>
    obtain ⟨e₁, he₁, h⟩ := bind_eq_ok.mp h
    exact (BacktestEngine.quoteBookEvent_sameSlots he₁).logged.trans (touchJournal_logged hs h)
  | trade ev =>
    obtain ⟨e₁, he₁, h⟩ := bind_eq_ok.mp h
    exact (publishMarketUpdate_sameSlots he₁).logged.trans (printJournal_logged hs h)
  | update eventNs u =>
    obtain ⟨e₁, he₁, h⟩ := bind_eq_ok.mp h
    obtain ⟨e₂, he₂, h⟩ := bind_eq_ok.mp h
    refine ((publishMarketUpdate_sameSlots he₁).trans
      (syncBBOFromBook_sameSlots he₂)).logged.trans ?_
    split_ifs at h
    · exact printJournal_logged hs h
    · exact touchJournal_logged hs h

theorem pumpRequest_entry (side : Side) {nowNs : ℤ} {req : MEClientRequest}
    (h : e.pumpRequest nowNs req = .ok e') :
    e'.tickerId = e.tickerId ∧ EntryMove e.tickerId side (e.slot side)
      (.request req (e'.live req.tickerId (sideToIndex req.side)).ahead) (e'.slot side) := by
  obtain ⟨_, -, h⟩ := bind_eq_ok.mp h
  obtain ⟨_, -, h⟩ := bind_eq_ok.mp h
  split_ifs at h with hnew
  · cases h
    refine ⟨rfl, ?_⟩
    simp only [EntryMove]
    split_ifs with ha
    · intro _
      have hslot : (e.putSlot req.side req.tickerId ⟨req.orderId, req.price, req.side, req.qty,
          e.queueAhead req.side req.price, nowNs⟩).live e.tickerId (sideToIndex side) =
          ⟨req.orderId, req.price, req.side, req.qty, e.queueAhead req.side req.price, nowNs⟩ :=
        if_pos ⟨ha.1.symm, ha.2.symm⟩
      refine ⟨congrArg LiveAlgoOrder.leaves hslot, congrArg LiveAlgoOrder.price hslot, ?_⟩
      refine (congrArg LiveAlgoOrder.ahead hslot).trans (congrArg LiveAlgoOrder.ahead ?_).symm
      exact if_pos ⟨rfl, rfl⟩
    · exact if_neg fun hc => ha ⟨hc.1.symm, hc.2.symm⟩
  · cases h
    refine ⟨rfl, ?_⟩
    simp only [EntryMove]
    split_ifs with ha
    · exact fun hc => absurd hc hnew
    · exact if_neg fun hc => ha ⟨hc.1.symm, hc.2.symm⟩

theorem pumpJournal_logged {nowNs : ℤ} {reqs : List MEClientRequest}
    (h : BacktestEngine.pumpJournal nowNs e reqs = .ok (e', log)) : Logged side e log e' := by
  induction reqs generalizing e log with
  | nil =>
    cases h
    exact (SameSlots.refl _).logged
  | cons req reqs ih =>
    obtain ⟨e₁, he₁, h⟩ := bind_eq_ok.mp h
    obtain ⟨⟨e₂, log'⟩, he₂, h⟩ := bind_eq_ok.mp h
    cases h
    obtain ⟨ht, hx⟩ := pumpRequest_entry side he₁
    have h₁ : Logged side e [.request req (e₁.live req.tickerId (sideToIndex req.side)).ahead] e₁ := by
      refine ⟨.cons hx (.nil _), ht, ?_⟩
      intro x hx
      obtain rfl := List.mem_singleton.mp hx
      exact nofun
    exact h₁.trans (ih he₂)

theorem stepJournal_logged (hs : side.IsBuyOrSell) {ev : TapeEvent}
    (h : e.stepJournal calls ev = .ok (e', log)) : Logged side e log e' := by
  obtain ⟨⟨e₁, l₁⟩, he₁, h⟩ := bind_eq_ok.mp h
  obtain ⟨⟨e₂, l₂⟩, he₂, h⟩ := bind_eq_ok.mp h
  obtain ⟨e₃, he₃, h⟩ := bind_eq_ok.mp h
  cases h
  obtain ⟨hlive, ht⟩ := pumpClientResponses_slots he₃
  have hreqs : Logged side _ l₂ e₂ := pumpJournal_logged he₂
  have hpump : Logged side e₁ l₂ e₂ := ⟨hreqs.slots, hreqs.tickerId, hreqs.own⟩
  have hslot : e'.slot side = e₂.slot side := by
    rw [BacktestEngine.slot, hlive, ht]
    rfl
  have hdrain : Logged side e₂ [] e' :=
    ⟨by rw [hslot]; exact .nil _, ht, List.forall_mem_nil _⟩
  simpa using ((applyJournal_logged hs he₁).trans hpump).trans hdrain

theorem journal_logged (hs : side.IsBuyOrSell) {tape : List TapeEvent}
    (h : e.journal calls tape = .ok (e', log)) : Logged side e log e' := by
  induction tape generalizing e log with
  | nil =>
    cases h
    exact (SameSlots.refl _).logged
  | cons ev tape ih =>
    obtain ⟨⟨e₁, l₁⟩, he₁, h⟩ := bind_eq_ok.mp h
    obtain ⟨⟨e₂, l₂⟩, he₂, h⟩ := bind_eq_ok.mp h
    cases h
    exact (stepJournal_logged hs he₁).trans (ih he₂)

end Slots

/-- The order whose fills are followed: its slot, its price, the quantity it was accepted with and
the queue position it was given. -/
structure AlgoOrder where
  tickerId : ℕ
  side : Side
  price : ℤ
  qty : ℕ
  ahead : ℕ

namespace AlgoOrder

variable (a : AlgoOrder)

def fillsIn (x : Entry) : List MEClientResponse :=
  (answers a.tickerId a.side x.responses).filter fun r => r.type = .filled

def fills (life : List Entry) : List MEClientResponse := life.flatMap a.fillsIn

def printFills (life : List Entry) : List MEClientResponse :=
  life.flatMap fun x => if x.isPrint then a.fillsIn x else []

def printed (life : List Entry) : ℕ := (life.map (Entry.volume a.side a.price)).sum

end AlgoOrder

def executed (rs : List MEClientResponse) : ℕ := (rs.map MEClientResponse.execQty).sum

def FillChain : ℕ → List MEClientResponse → Prop
  | _, [] => True
  | leaves, r :: rs =>
      r.execQty ≤ leaves ∧ r.leavesQty = leaves - r.execQty ∧ FillChain r.leavesQty rs

structure FairFills (a : AlgoOrder) (life : List Entry) : Prop where
  chain : FillChain a.qty (a.fills life)
  total : executed (a.fills life) ≤ a.qty
  waits : ∀ before x after, life = before ++ x :: after → a.fillsIn x ≠ [] →
    a.ahead ≤ a.printed (before ++ [x])
  prints : executed (a.printFills life) = 0 ∨
    a.ahead + executed (a.printFills life) ≤ a.printed life

theorem FillChain.executed_le {leaves : ℕ} {rs : List MEClientResponse} (h : FillChain leaves rs) :
    executed rs ≤ leaves := by
  induction rs generalizing leaves with
  | nil => exact Nat.zero_le _
  | cons r rs ih =>
    obtain ⟨hexec, hqty, hrest⟩ := h
    have := ih hrest
    simp only [executed, List.map_cons, List.sum_cons] at this ⊢
    omega

section Fair

variable {a : AlgoOrder} {life : List Entry} {x : Entry} {o o' : LiveAlgoOrder}

theorem FairFills.of_no_fills (h : ∀ x ∈ life, a.fillsIn x = []) : FairFills a life := by
  have hfills : a.fills life = [] := List.flatMap_eq_nil_iff.mpr h
  have hprint : a.printFills life = [] := by
    refine List.flatMap_eq_nil_iff.mpr fun x hx => ?_
    split_ifs
    · exact h x hx
    · rfl
  refine ⟨by rw [hfills]; trivial, by rw [hfills]; exact Nat.zero_le _, ?_,
    .inl (by rw [hprint]; rfl)⟩
  rintro before x after rfl hx
  exact absurd (h x (by simp)) hx

theorem fillsIn_of_idle (h : answers a.tickerId a.side x.responses = []) : a.fillsIn x = [] := by
  rw [AlgoOrder.fillsIn, h]
  rfl

theorem fillsIn_of_canceled {r : MEClientResponse}
    (h : answers a.tickerId a.side x.responses = [r]) (hr : r.type = .canceled) :
    a.fillsIn x = [] := by
  simp [AlgoOrder.fillsIn, h, hr]

theorem fillsIn_of_filled {r : MEClientResponse}
    (h : answers a.tickerId a.side x.responses = [r]) (hr : r.type = .filled) :
    a.fillsIn x = [r] := by
  simp [AlgoOrder.fillsIn, h, hr]

theorem EntryMove.slotMove (h : EntryMove a.tickerId a.side o x o')
    (hx : ¬ x.Addresses a.tickerId a.side) :
    SlotMove o (x.volume a.side o.price) x.isPrint (answers a.tickerId a.side x.responses) o' := by
  cases x with
  | request req ahead =>
    have hx' : ¬ (req.tickerId = a.tickerId ∧ sideToIndex req.side = sideToIndex a.side) := hx
    have h' : o' = o := by
      simp only [EntryMove] at h
      rwa [if_neg hx'] at h
    rw [h']
    exact .idle (.inr rfl)
  | touch rs => exact h
  | print ev rs => exact h

theorem SlotRun.dead (h : SlotRun a.tickerId a.side o life o')
    (hlife : ∀ x ∈ life, ¬ x.Addresses a.tickerId a.side) (ho : o.leaves = 0) :
    ∀ x ∈ life, a.fillsIn x = [] := by
  induction life generalizing o with
  | nil => exact nofun
  | cons x life ih =>
    cases h with
    | cons hx hrun =>
      have hmove := hx.slotMove (hlife x (List.mem_cons_self ..))
      have hrest := ih hrun fun y hy => hlife y (List.mem_cons_of_mem _ hy)
      generalize hrs : answers a.tickerId a.side x.responses = rs at hmove
      have hhead : a.fillsIn x = [] := by
        cases hmove with
        | idle _ => exact fillsIn_of_idle hrs
        | burned hl _ => omega
        | withdrawn r hl _ _ => omega
        | filled r hl => omega
      intro y hy
      rcases List.mem_cons.mp hy with rfl | hy
      · exact hhead
      · refine hrest ?_ y hy
        cases hmove with
        | idle _ => exact ho
        | burned hl _ => omega
        | withdrawn r hl _ _ => omega
        | filled r hl => omega

theorem FairFills.cons {l : List MEClientResponse} {b : AlgoOrder} (hb : FairFills b life)
    (hsame : b.tickerId = a.tickerId ∧ b.side = a.side ∧ b.price = a.price)
    (hfills : a.fillsIn x = l) (hchain : FillChain a.qty (l ++ b.fills life))
    (hwait : l ≠ [] → a.ahead ≤ x.volume a.side a.price)
    (hahead : a.ahead ≤ x.volume a.side a.price + b.ahead)
    (hprint : x.isPrint = true → l ≠ [] →
      a.ahead + executed l ≤ x.volume a.side a.price ∧ b.ahead = 0) :
    FairFills a (x :: life) := by
  obtain ⟨ht, hs, hp⟩ := hsame
  have hin : ∀ y, b.fillsIn y = a.fillsIn y := by
    intro y
    rw [AlgoOrder.fillsIn, AlgoOrder.fillsIn, ht, hs]
  have hfl : ∀ ys, b.fills ys = a.fills ys := fun ys => List.flatMap_congr fun y _ => hin y
  have hpr : ∀ ys, b.printed ys = a.printed ys := by
    intro ys
    rw [AlgoOrder.printed, AlgoOrder.printed, hs, hp]
  have hpf : ∀ ys, b.printFills ys = a.printFills ys :=
    fun ys => List.flatMap_congr fun y _ => by rw [hin]
  have hall : a.fills (x :: life) = l ++ b.fills life := by
    rw [hfl, ← hfills]
    rfl
  have hvol : a.printed (x :: life) = x.volume a.side a.price + a.printed life := by
    simp [AlgoOrder.printed]
  refine ⟨hall ▸ hchain, hall ▸ hchain.executed_le, ?_, ?_⟩
  · intro before y after hsplit hy
    cases before with
    | nil =>
      obtain ⟨rfl, rfl⟩ := List.cons_eq_cons.mp hsplit
      have := hwait (hfills ▸ hy)
      simpa [AlgoOrder.printed] using this
    | cons z before =>
      obtain ⟨rfl, htail⟩ := List.cons_eq_cons.mp hsplit
      have := hb.waits before y after htail (by rwa [hin])
      rw [hpr] at this
      have hz : a.printed (x :: before ++ [y]) =
          x.volume a.side a.price + a.printed (before ++ [y]) := by simp [AlgoOrder.printed]
      rw [hz]
      omega
  · have hsplit : executed (a.printFills (x :: life)) =
        executed (if x.isPrint then l else []) + executed (b.printFills life) := by
      rw [hpf, ← hfills]
      simp [AlgoOrder.printFills, executed]
    have hrest := hb.prints
    rw [hpr] at hrest
    rw [hsplit, hvol]
    split_ifs with hx
    · by_cases hl : l = []
      · subst hl
        simp only [executed, List.map_nil, List.sum_nil] at hrest ⊢
        omega
      · have := hprint hx hl
        omega
    · simp only [executed, List.map_nil, List.sum_nil] at hrest ⊢
      omega

theorem SlotRun.fair (h : SlotRun a.tickerId a.side o life o')
    (hlife : ∀ x ∈ life, ¬ x.Addresses a.tickerId a.side) (hqty : o.leaves = a.qty)
    (hprice : o.price = a.price) (hahead : o.ahead = a.ahead) : FairFills a life := by
  induction life generalizing o a with
  | nil => exact .of_no_fills nofun
  | cons x life ih =>
    by_cases hdead : o.leaves = 0
    · exact .of_no_fills (h.dead hlife hdead)
    cases h with
    | cons hx hrun =>
      have hlife' : ∀ y ∈ life, ¬ y.Addresses a.tickerId a.side := fun y hy =>
        hlife y (List.mem_cons_of_mem _ hy)
      have hmove := hx.slotMove (hlife x (List.mem_cons_self ..))
      rw [hprice] at hmove
      generalize hrs : answers a.tickerId a.side x.responses = rs at hmove
      cases hmove with
      | idle hv =>
        have hrest := ih hrun hlife' hqty hprice hahead
        exact hrest.cons ⟨rfl, rfl, rfl⟩ (fillsIn_of_idle hrs) hrest.chain (fun h => absurd rfl h)
          (Nat.le_add_left _ _) (fun _ h => absurd rfl h)
      | burned _ hv =>
        have hrest := ih (a := { a with ahead := a.ahead - x.volume a.side a.price }) hrun hlife'
          hqty hprice (by rw [← hahead])
        exact hrest.cons ⟨rfl, rfl, rfl⟩ (fillsIn_of_idle hrs) hrest.chain (fun h => absurd rfl h)
          (by dsimp only; omega) (fun _ h => absurd rfl h)
      | withdrawn r _ _ ht =>
        have hnone := hrun.dead hlife' rfl
        refine .of_no_fills fun y hy => ?_
        rcases List.mem_cons.mp hy with rfl | hy
        · exact fillsIn_of_canceled hrs ht
        · exact hnone y hy
      | filled r _ ht hexec hleft _ hv hprint =>
        have hrest : FairFills { a with qty := r.leavesQty, ahead := 0 } life := by
          by_cases hzero : r.leavesQty = 0
          · rw [if_pos hzero] at hrun
            exact .of_no_fills (hrun.dead (a := { a with qty := r.leavesQty, ahead := 0 }) hlife'
              rfl)
          · rw [if_neg hzero] at hrun
            exact ih (a := { a with qty := r.leavesQty, ahead := 0 }) hrun hlife' rfl hprice rfl
        refine hrest.cons ⟨rfl, rfl, rfl⟩ (fillsIn_of_filled hrs ht) ?_ ?_ ?_ ?_
        · exact ⟨hqty ▸ hexec, hqty ▸ hleft, hrest.chain⟩
        · exact fun _ => hahead ▸ hv
        · exact (hahead ▸ hv).trans (Nat.le_add_right _ _)
        · intro hp _
          have := hprint hp
          simp only [executed, List.map_cons, List.map_nil, List.sum_cons, List.sum_nil, and_true]
          omega

end Fair

def acceptedOrder (req : MEClientRequest) (ahead : ℕ) : AlgoOrder :=
  ⟨req.tickerId, req.side, req.price, req.qty, ahead⟩

theorem no_fill_jumps_queue {E : Type} (calls : EngineCalls E) (tickerId : ℕ) (engine : E)
    (tape : List TapeEvent) {e : BacktestEngine E}
    (h : (BacktestEngine.new tickerId engine).run calls tape = .ok e) :
    ∃ log, (BacktestEngine.new tickerId engine).journal calls tape = .ok (e, log) ∧
      ∀ before req ahead life after, log = before ++ .request req ahead :: (life ++ after) →
        req.type = .new → (∀ x ∈ life, ¬ x.Addresses req.tickerId req.side) →
          FairFills (acceptedOrder req ahead) life := by
  rw [← BacktestEngine.map_journal] at h
  obtain ⟨⟨e₁, log⟩, hlog, rfl⟩ := map_eq_ok h
  refine ⟨log, hlog, ?_⟩
  rintro before req ahead life after rfl hnew hlife
  by_cases hslot : req.tickerId = tickerId ∧ req.side.IsBuyOrSell
  · obtain ⟨rfl, hs⟩ := hslot
    obtain ⟨o, -, hrun⟩ := (journal_logged hs hlog).slots.split
    cases hrun with
    | cons hreq hrun =>
      obtain ⟨o', hrun, -⟩ := hrun.split
      simp only [EntryMove] at hreq
      rw [if_pos ⟨rfl, trivial⟩] at hreq
      have hacc := hreq hnew
      exact SlotRun.fair (a := acceptedOrder req ahead) hrun hlife hacc.1 hacc.2.1 hacc.2.2
  · refine .of_no_fills fun x hx => fillsIn_of_idle ?_
    have hown := (journal_logged (Or.inl rfl : Side.IsBuyOrSell .buy) hlog).own x (by simp [hx])
    refine List.filter_eq_nil_iff.mpr fun r hr hc => hslot ?_
    have hc : r.tickerId = req.tickerId ∧ r.side = req.side := of_decide_eq_true hc
    obtain ⟨ht, hs⟩ := hown r hr
    exact ⟨hc.1.symm.trans ht, hc.2 ▸ hs⟩

section Sample

def scripted : EngineCalls (List (List MEClientRequest)) where
  onMarketUpdate := fun script _ => .ok (script.tail, script.headD [])
  getBBO := fun _ _ => .ok BBO.default
  onOrderUpdate := fun script _ => .ok script

def joinBid : MEClientRequest := ⟨.new, 1, 0, 1, .buy, 100, 10⟩

def joinTape : List TapeEvent :=
  [.book ⟨1, 100, 5, 102, 5⟩, .trade ⟨2, 100, 4, .sell⟩, .trade ⟨3, 99, 4, .sell⟩]

theorem no_fill_jumps_queue_sample :
    ∃ e log, (BacktestEngine.new 0 [[], [joinBid]]).run scripted joinTape = .ok e ∧
      (BacktestEngine.new 0 [[], [joinBid]]).journal scripted joinTape = .ok (e, log) ∧
      ∃ life, log = [.touch [], .request joinBid 5] ++ life ∧
        FairFills (acceptedOrder joinBid 5) life ∧
        executed ((acceptedOrder joinBid 5).printFills life) = 3 := by
  obtain ⟨log, hlog, hfair⟩ := no_fill_jumps_queue scripted 0 [[], [joinBid]] joinTape rfl
  refine ⟨_, log, rfl, hlog, [.print ⟨2, 100, 4, .sell⟩ [], .print ⟨3, 99, 4, .sell⟩
    [⟨.filled, 1, 0, 1, 1, .buy, 100, 3, 7⟩]], ?_, ?_, by decide⟩
  · cases hlog
    rfl
  · refine hfair [.touch []] joinBid 5 _ [] ?_ rfl ?_
    · cases hlog
      rfl
    · decide

end Sample

end Backtest
