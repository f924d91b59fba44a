import TradingEcosystem.System.Ecosystem
import Mathlib.Algebra.BigOperators.ModEq

namespace Trading

open Common Exchange

section Lists

variable {α : Type}

theorem sum_filter_key (key : α → ℕ) (f : α → ℤ) {n : ℕ} (xs : List α) (h : ∀ x ∈ xs, key x < n) :
    ∑ k ∈ Finset.range n, ((xs.filter fun x => decide (key x = k)).map f).sum = (xs.map f).sum := by
  induction xs with
  | nil => simp
  | cons x xs ih =>
    have hx : key x ∈ Finset.range n := Finset.mem_range.mpr (h x (List.mem_cons_self ..))
    have hsplit : ∀ k, (((x :: xs).filter fun x => decide (key x = k)).map f).sum =
        (if key x = k then f x else 0) +
          ((xs.filter fun x => decide (key x = k)).map f).sum := by
      intro k
      rw [List.filter_cons]
      split_ifs with hk hk' hk'
      · rfl
      · exact absurd (of_decide_eq_true hk) hk'
      · exact absurd (decide_eq_true hk') hk
      · exact (Int.zero_add _).symm
    rw [Finset.sum_congr rfl fun k _ => hsplit k, Finset.sum_add_distrib, Finset.sum_ite_eq,
      if_pos hx, ih fun y hy => h y (List.mem_cons_of_mem _ hy), List.map_cons, List.sum_cons]

end Lists

def sharesOf (r : MEClientResponse) : ℤ :=
  if r.type = .filled then r.execQty * sideToValue r.side else 0

def filledQty (t : ℕ) (rs : List MEClientResponse) : ℤ :=
  ((rs.filter fun r => decide (r.tickerId = t)).map sharesOf).sum

theorem filledQty_append (t : ℕ) (xs ys : List MEClientResponse) :
    filledQty t (xs ++ ys) = filledQty t xs + filledQty t ys := by
  rw [filledQty, List.filter_append, List.map_append, List.sum_append]
  rfl

theorem filledQty_cons (t : ℕ) (r : MEClientResponse) (rs : List MEClientResponse) :
    filledQty t (r :: rs) = (if r.tickerId = t then sharesOf r else 0) + filledQty t rs := by
  rw [filledQty, List.filter_cons]
  split_ifs with h h' h'
  · rfl
  · exact absurd (of_decide_eq_true h) h'
  · exact absurd (decide_eq_true h') h
  · exact (Int.zero_add _).symm

section Exchange

variable {b : IndexedBook} {req : MEClientRequest}

theorem sweep_balances (g : MEOrderBook.Aggressor) (hs : g.side.IsBuyOrSell) (price : ℤ)
    (leavesQty : ℕ) {ls : List (Level ℤ MEOrder)} (hn : Ladder.NonEmpty ls)
    (hside : ∀ o ∈ Ladder.entries ls, o.side = g.side.opposite) :
    ((clientResponses (sweep g price leavesQty ls).events).map sharesOf).sum = 0 := by
  have hpair : ∀ (o : MEOrder) (q l : ℕ), o.side = g.side.opposite →
      sharesOf (aggressorFill g o.price q l) + sharesOf (passiveFill g o q) = 0 := by
    intro o q l ho
    simp only [sharesOf, aggressorFill, passiveFill, if_pos, ho]
    rcases hs with hs | hs <;> rw [hs] <;> simp [sideToValue, Side.opposite]
  induction leavesQty, ls, hn using sweep_induct g price with
  | nil q hn => rfl
  | zero ls hn =>
    rw [sweep_zero]
    rfl
  | stop q L ls hn hx =>
    rw [sweep_stop g price ls q hx]
    rfl
  | part q p o os ls hn h0 hx hq =>
    rw [sweep_part g price os ls h0 hx hq]
    have ho := hpair o q 0 (hside o (by simp))
    change sharesOf (aggressorFill g o.price q 0) + (sharesOf (passiveFill g o q) + 0) = 0
    rw [Int.add_zero, ho]
  | filled q p o os ls hn hn' h0 hx hq ih =>
    rw [sweep_filled g price os ls h0 hx hq]
    have ho := hpair o o.qty (q - o.qty) (hside o (by simp))
    have hrest := ih fun x hx => hside x (by
      rw [entries_keep_append] at hx
      exact List.mem_cons_of_mem _ hx)
    have hfill : clientResponses (filledEvents g o q) =
      [aggressorFill g o.price o.qty (q - o.qty), passiveFill g o o.qty] := rfl
    dsimp only
    rw [clientResponses_append, hfill, List.map_append, List.sum_append, hrest, Int.add_zero,
      List.map_cons, List.map_singleton, List.sum_cons, List.sum_singleton, ho]

theorem call_balances (hw : b.WF) (hreq : req.Admissible) :
    ((clientResponses (b.call req.call).2).map sharesOf).sum = 0 := by
  obtain ⟨-, htype, hcall⟩ := hreq
  rcases htype with hnew | hcancel
  · rw [MEClientRequest.call_new hnew] at hcall ⊢
    have hok := hw.book.sides _ hcall.1.opposite
    have hsweep := sweep_balances ⟨req.tickerId, req.clientId, req.side, req.orderId, b.fillId⟩
      hcall.1 req.price req.qty hok.nonEmpty fun o ho => (hok.entry ho).1
    simp only [IndexedBook.call, IndexedBook.add, PriceTimeBook.place]
    split_ifs with hq
    · exact (Int.zero_add _).trans hsweep
    · simp only [PriceTimeBook.accepted, PriceTimeBook.added, List.cons_append,
        clientResponses_response, clientResponses_append, clientResponses_update,
        clientResponses_nil, List.append_nil]
      exact (Int.zero_add _).trans hsweep
  · rw [MEClientRequest.call_cancel hcancel]
    simp only [IndexedBook.call, IndexedBook.cancel]
    cases b.lookup req.clientId req.orderId <;> rfl

theorem call_clients (hw : b.WF) {n : ℕ} (hreq : req.Admissible) (hc : req.clientId < n)
    (hb : ∀ o ∈ b.book.ladders.entries, o.ids.clientId < n) :
    ∀ r ∈ clientResponses (b.call req.call).2, r.clientId < n := by
  obtain ⟨-, htype, hcall⟩ := hreq
  rcases htype with hnew | hcancel
  · rw [MEClientRequest.call_new hnew] at hcall ⊢
    have hok := hw.book.sides _ hcall.1.opposite
    have hsweep : ∀ r ∈ clientResponses (b.book.swept b.fillId ⟨req.clientId, req.orderId,
        req.tickerId, req.side, req.price, req.qty⟩).events, r.clientId < n :=
      sweep_responses (P := fun r => r.clientId < n) _ _ _ hok.nonEmpty (fun _ _ _ => hc)
        fun o ho _ => hb o ((b.book.ladders.mem_entries_side hcall.1.opposite).mpr (.inl ho))
    intro r hr
    simp only [IndexedBook.call, IndexedBook.add, PriceTimeBook.place] at hr
    split_ifs at hr with hq <;>
      simp only [PriceTimeBook.accepted, PriceTimeBook.added, List.cons_append,
        clientResponses_response, clientResponses_append, clientResponses_update,
        clientResponses_nil, List.append_nil, List.mem_cons] at hr <;>
      rcases hr with rfl | hr
    · exact hc
    · exact hsweep r hr
    · exact hc
    · exact hsweep r hr
  · rw [MEClientRequest.call_cancel hcancel]
    intro r hr
    simp only [IndexedBook.call, IndexedBook.cancel] at hr
    cases hl : b.lookup req.clientId req.orderId with
    | none =>
      rw [hl] at hr
      rw [List.mem_singleton.mp hr]
      exact hc
    | some y =>
      rw [hl] at hr
      rw [List.mem_singleton.mp hr]
      exact hc

end Exchange

section Client

variable {n : ℤ} {c t : ℕ} {s : Session} {B : IndexedBooks} {owner : ℕ → ℕ × Side}
  {r : MEClientResponse} {rs : List MEClientResponse} {e : TradeEngine}

theorem int32_modEq (x : ℤ) : int32 x ≡ x [ZMOD 2 ^ 32] := Int.bmod_emod

theorem addFill_modEq (p : PositionInfo) (r : MEClientResponse) :
    (p.addFill r).position ≡ p.position + r.execQty * sideToValue r.side [ZMOD 2 ^ 32] := by
  refine (int32_modEq _).trans (Int.ModEq.add_left _ ?_)
  exact Int.ModEq.mul_right _ (int32_modEq _)

def positionsWith (r : MEClientResponse) (p : ℕ → PositionInfo) : ℕ → PositionInfo :=
  if r.type = .filled then Function.update p r.tickerId ((p r.tickerId).addFill r) else p

theorem TradeEngine.positions_onOrderUpdate {e' : TradeEngine} (h : e.onOrderUpdate r = .ok e') :
    e'.positions = positionsWith r e.positions := by
  rw [TradeEngine.onOrderUpdate_eq h, positionsWith]

def FillsPosition (n : ℤ) (t : ℕ) (r : MEClientResponse) (e e' : TradeEngine) : Prop :=
  (e'.positions t).position ≡
    (e.positions t).position + (if r.tickerId = t then sharesOf r else 0) [ZMOD n]

theorem fillsPosition_of {e e' : TradeEngine}
    (he : e'.positions = positionsWith r e.positions)
    (hfill : r.type = .filled → r.tickerId = t → ((e.positions t).addFill r).position ≡
      (e.positions t).position + r.execQty * sideToValue r.side [ZMOD n]) :
    FillsPosition n t r e e' := by
  unfold FillsPosition sharesOf
  rw [positionsWith] at he
  rw [he]
  by_cases htype : r.type = .filled
  · rw [if_pos htype, if_pos htype]
    by_cases ht : r.tickerId = t
    · subst ht
      rw [Function.update_self, if_pos rfl]
      exact hfill htype rfl
    · rw [Function.update_of_ne (Ne.symm ht), if_neg ht, Int.add_zero]
  · rw [if_neg htype, if_neg htype, ite_self, Int.add_zero]

theorem Session.Inv.fillsPosition (hi : s.Inv c B owner) (hlim : ∀ t, s.client.Limited t)
    (hcfg : ∀ t, (s.client.riskCfg t).maxPosition + (s.client.riskCfg t).maxOrderSize ≤ 2 ^ 31 - 1)
    (hresp : s.responses = r :: rs) (he : s.client.onOrderUpdate r = .ok e) :
    FillsPosition 0 t r s.client e := by
  refine fillsPosition_of (TradeEngine.positions_onOrderUpdate he) fun htype ht => ?_
  subst ht
  obtain ⟨-, hside⟩ := hi.responses r (hresp ▸ List.mem_cons_self ..)
  have hs : r.side.IsBuyOrSell := hside.resolve_right fun h => by simp [htype] at h
  have hhead : (s.view B r.tickerId r.side).responses =
      r :: slotResponses r.tickerId r.side rs := by
    simp [Session.view, hresp, slotResponses_cons]
  obtain ⟨-, hfound⟩ := (hi.slots r.tickerId r.side hs).head hhead
  rcases hfound with ⟨h, -⟩ | ⟨-, hstate, -, hexec, -⟩ | ⟨h, -⟩
  · simp [htype] at h
  · have hopen : (s.slot r.tickerId r.side).openQty = (s.slot r.tickerId r.side).qty :=
      openQty_of_open (.inr hstate)
    have hl := hlim r.tickerId
    have hc := hcfg r.tickerId
    have hup := hl.upper
    have hlow := hl.lower
    have hsize : (s.slot r.tickerId r.side).qty ≤ (s.client.riskCfg r.tickerId).maxOrderSize := by
      rw [← hopen]
      rcases hs with hs | hs <;> rw [hs]
      · exact hl.buySize
      · exact hl.sellSize
    have hle : r.execQty ≤ (s.slot r.tickerId r.side).qty := hexec
    rw [addFill_position hs (by omega) (by omega) (by omega)]
  · simp [htype] at h

end Client

section Positions

variable {K B : Type} [Field K] [LinearOrder K] [FloorRing K] {P : Platform K} {clock : ℕ → ℤ}
  {cfg : ℕ → StrategyCfg K} {book : BookCalls B} {a a' : AlgoEngine K B} {u : MEMarketUpdate}
  {r : MEClientResponse}

theorem TradeEngine.positions_perform {e e' : TradeEngine} {t : ℕ} {loss : Bool} {r : Reaction}
    {reqs : List MEClientRequest} (h : e.perform t loss r = .ok (e', reqs)) :
    e'.positions = e.positions := by
  cases r with
  | none =>
    cases h
    rfl
  | pull =>
    obtain ⟨_, -, h⟩ := bind_eq_ok.mp h
    cases h
    rfl
  | quote bid ask clip =>
    obtain ⟨_, -, h⟩ := bind_eq_ok.mp h
    cases h
    rfl

theorem AlgoEngine.engine_react {x : Reaction}
    (h : a.react P clock cfg book u = .ok (a', x)) :
    a'.strategy.engine = a.strategy.engine := by
  obtain ⟨_, -, h⟩ := bind_eq_ok.mp h
  obtain ⟨⟨b, c⟩, -, h⟩ := bind_eq_ok.mp h
  cases c with
  | onTradeUpdate v =>
    cases h
    rfl
  | onOrderBookUpdate t price side =>
    cases h
    rfl

theorem AlgoEngine.positions_onMarketUpdate {reqs : List MEClientRequest}
    (h : a.onMarketUpdate P clock cfg book u = .ok (a', reqs)) :
    a'.strategy.engine.positions = a.strategy.engine.positions := by
  obtain ⟨⟨a₁, x⟩, hreact, h⟩ := bind_eq_ok.mp h
  obtain ⟨⟨e, reqs₁⟩, hperform, h⟩ := bind_eq_ok.mp h
  cases h
  exact (TradeEngine.positions_perform hperform).trans
    (congrArg TradeEngine.positions (engine_react hreact))

omit [FloorRing K] in
theorem Strategy.positions_onOrderUpdate {x x' : Strategy K B}
    (h : x.onOrderUpdate cfg r = .ok x') :
    x'.engine.positions = positionsWith r x.engine.positions := by
  obtain ⟨e, he, h⟩ := bind_eq_ok.mp h
  cases h
  exact TradeEngine.positions_onOrderUpdate he

omit [FloorRing K] in
theorem Strategy.positions_addFill {x x' : Strategy K B} (h : x.addFill cfg r = .ok x') :
    x'.engine.positions = positionsWith r x.engine.positions := by
  unfold Strategy.addFill at h
  unfold positionsWith
  split_ifs at h ⊢
  · obtain ⟨e, he, h⟩ := bind_eq_ok.mp h
    obtain ⟨_, -, he⟩ := bind_eq_ok.mp he
    cases he
    cases h
    rfl
  · cases h
    rfl

omit [FloorRing K] in
theorem AlgoEngine.positions_onOrderUpdate (h : a.onOrderUpdate cfg r = .ok a') :
    a'.strategy.engine.positions = positionsWith r a.strategy.engine.positions := by
  unfold AlgoEngine.onOrderUpdate at h
  split at h <;> obtain ⟨x, hx, h⟩ := bind_eq_ok.mp h <;> cases h
  · exact Strategy.positions_onOrderUpdate hx
  · exact Strategy.positions_onOrderUpdate hx
  · exact Strategy.positions_addFill hx

end Positions

section Booked

variable {K : Type} {n : ℤ} {c t : ℕ} {m m' : TradingMain K}

/-- The position that the client has or is being told of. -/
def TradingMain.booked (m : TradingMain K) (t : ℕ) : ℤ :=
  (m.engine.positions t).position + filledQty t m.clientResponses

theorem TradingMain.booked_receive (m : TradingMain K) (c t : ℕ) (events : List Event) :
    (m.receive c events).booked t = m.booked t +
      filledQty t ((Exchange.clientResponses events).filter fun r => decide (r.clientId = c)) := by
  rw [booked, booked, Int.add_assoc, ← filledQty_append]
  rfl

variable [Field K] [LinearOrder K] {cfg : ℕ → StrategyCfg K}

theorem TradingMain.takeResponse_cases (h : m.takeResponse cfg = .ok m') :
    m' = m ∨ ∃ r rs a, m.clientResponses = r :: rs ∧ m.tradeEngine.onOrderUpdate cfg r = .ok a ∧
      m' = { m with tradeEngine := a, clientResponses := rs } := by
  unfold TradingMain.takeResponse at h
  cases hresps : m.clientResponses with
  | nil =>
    rw [hresps] at h
    cases h
    exact .inl rfl
  | cons r rs =>
    rw [hresps] at h
    obtain ⟨a, ha, h⟩ := bind_eq_ok.mp h
    cases h
    exact .inr ⟨r, rs, a, rfl, ha, rfl⟩

theorem TradingMain.booked_takeResponse (h : m.takeResponse cfg = .ok m')
    (hfill : ∀ r rs a, m.clientResponses = r :: rs → m.tradeEngine.onOrderUpdate cfg r = .ok a →
      FillsPosition n t r m.engine a.strategy.engine) :
    m'.booked t ≡ m.booked t [ZMOD n] := by
  obtain rfl | ⟨r, rs, a, hresps, ha, rfl⟩ := takeResponse_cases h
  · rfl
  · rw [booked, booked, hresps, filledQty_cons, ← Int.add_assoc]
    exact Int.ModEq.add_right _ (hfill r rs a hresps ha)

theorem TradingMain.booked_takeResponse_wrapped (h : m.takeResponse cfg = .ok m') :
    m'.booked t ≡ m.booked t [ZMOD 2 ^ 32] :=
  booked_takeResponse h fun _ _ _ _ ha =>
    fillsPosition_of (AlgoEngine.positions_onOrderUpdate ha) fun _ _ => addFill_modEq _ _

theorem TradingMain.Ok.booked_takeResponse {algo : AlgoType} {riskCfg : ℕ → RiskCfg}
    {e : MatchingEngine} {B : IndexedBooks} (hok : m.Ok c algo riskCfg e B) (hq : algo.Quotes)
    (hcfg : ∀ t, (riskCfg t).maxPosition + (riskCfg t).maxOrderSize ≤ 2 ^ 31 - 1)
    (h : m.takeResponse cfg = .ok m') : m'.booked t ≡ m.booked t [ZMOD 0] := by
  refine TradingMain.booked_takeResponse h fun r rs a hresps ha => ?_
  obtain ⟨owner, hinv, hrisk, hlim⟩ := hok.orders hq
  obtain ⟨a', ha', -, -, he⟩ := hok.onOrderUpdate cfg hq hinv hresps
  obtain rfl := Except.ok.inj (ha'.symm.trans ha)
  exact hinv.fillsPosition hlim (hrisk.symm ▸ hcfg) hresps he

omit [Field K] [LinearOrder K] in
theorem TradingMain.booked_takeRandomTurn {rand : ℕ → ℕ} (h : m.takeRandomTurn rand = .ok m') :
    m'.booked t = m.booked t := by
  obtain ⟨_, -, h⟩ := bind_eq_ok.mp h
  cases h
  rfl

theorem TradingMain.booked_takeMarketUpdate [FloorRing K] {P : Platform K} {clock : ℕ → ℤ}
    (h : m.takeMarketUpdate P clock cfg = .ok m') : m'.booked t = m.booked t := by
  unfold TradingMain.takeMarketUpdate at h
  split at h
  · cases h
    rfl
  · obtain ⟨⟨a, reqs⟩, ha, h⟩ := bind_eq_ok.mp h
    cases h
    rw [booked, booked, engine, engine, AlgoEngine.positions_onMarketUpdate ha]

end Booked

section Shares

variable {t : ℕ} {B : IndexedBooks} {req : MEClientRequest}

theorem filledQty_step (hw : ∀ t, (B t).WF) (hreq : req.Admissible) (t : ℕ) :
    filledQty t (clientResponses (B.step req).2) = 0 := by
  have hticker : ∀ r ∈ clientResponses (B.step req).2, r.tickerId = req.tickerId :=
    fun r hr => (call_response (hw req.tickerId) hreq hr).1
  by_cases ht : req.tickerId = t
  · rw [filledQty, List.filter_eq_self.mpr fun r hr => decide_eq_true ((hticker r hr).trans ht)]
    exact call_balances (hw req.tickerId) hreq
  · rw [filledQty, List.filter_eq_nil_iff.mpr fun r hr => by simpa [hticker r hr] using ht]
    rfl

theorem sum_filledQty (t : ℕ) {n : ℕ} {rs : List MEClientResponse} (h : ∀ r ∈ rs, r.clientId < n) :
    ∑ c ∈ Finset.range n, filledQty t (rs.filter fun r => decide (r.clientId = c)) =
      filledQty t rs := by
  have hsum := sum_filter_key MEClientResponse.clientId sharesOf
    (rs.filter fun r => decide (r.tickerId = t)) fun r hr => h r (List.mem_filter.mp hr).1
  rw [filledQty, ← hsum]
  refine Finset.sum_congr rfl fun c _ => ?_
  rw [filledQty, List.filter_filter, List.filter_filter]
  simp only [Bool.and_comm]

theorem clientId_lt {e : MatchingEngine} (h : RefinesAll e B) {o : MEOrder}
    (ho : o ∈ (B t).book.ladders.entries) : o.ids.clientId < meMaxNumClients := by
  obtain ⟨s, htr, hlad, -⟩ := h.books t
  rw [hlad, Ladders.entries_mapOrders] at ho
  obtain ⟨x, hx, rfl⟩ := List.mem_map.mp ho
  exact (htr.inRange x hx).1

variable {K : Type} [Field K] [LinearOrder K] [FloorRing K] {P : Platform K} {clock : ℕ → ℕ → ℤ}
  {cfg : ℕ → ℕ → StrategyCfg K} {algo : ℕ → AlgoType} {s s' : Ecosystem K} {a : Turn} {n : ℤ}

def Ecosystem.booked (s : Ecosystem K) (t : ℕ) : ℤ :=
  ∑ c ∈ Finset.range meMaxNumClients, (s.mains c).booked t

omit [Field K] [LinearOrder K] [FloorRing K] in
theorem Ecosystem.booked_setMain {c : ℕ} {m : TradingMain K}
    (hm : m.booked t ≡ (s.mains c).booked t [ZMOD n]) :
    (s.setMain c m).booked t ≡ s.booked t [ZMOD n] := by
  refine Int.ModEq.sum fun c' _ => ?_
  dsimp only [Ecosystem.setMain]
  by_cases heq : c' = c
  · subst heq
    rw [Function.update_self]
    exact hm
  · rw [Function.update_of_ne heq]

theorem Ecosystem.Ok.booked_exchange (h : s.Ok cfg algo B) {c : ℕ} (hc : c < meMaxNumClients)
    (hs : s.step P clock cfg (.exchange c) = .ok s') (t : ℕ) : s'.booked t = s.booked t := by
  unfold Ecosystem.step at hs
  cases hreqs : (s.mains c).clientRequests with
  | nil =>
    simp only [hreqs] at hs
    cases hs
    rfl
  | cons req reqs =>
    simp only [hreqs] at hs
    obtain ⟨⟨e, events⟩, he, hs⟩ := bind_eq_ok.mp hs
    cases hs
    obtain ⟨hadm, hclient⟩ := (h.mains c hc).requests req (hreqs ▸ List.mem_cons_self ..)
    obtain ⟨rfl, -⟩ := h.refines.step_of_ok hadm he
    have hlt : ∀ r ∈ clientResponses (B.step req).2, r.clientId < meMaxNumClients :=
      call_clients (h.refines.wf _) hadm (hclient ▸ hc) fun o ho => clientId_lt h.refines ho
    have hsame : (s.setMain c { s.mains c with clientRequests := reqs }).booked t ≡
        s.booked t [ZMOD 0] := Ecosystem.booked_setMain rfl
    have hsum : ∀ c', (((s.setMain c { s.mains c with clientRequests := reqs }).mains c').receive c'
        (B.step req).2).booked t =
          ((s.setMain c { s.mains c with clientRequests := reqs }).mains c').booked t +
            filledQty t ((clientResponses (B.step req).2).filter fun r =>
              decide (r.clientId = c')) := fun c' => TradingMain.booked_receive ..
    rw [Ecosystem.booked, Finset.sum_congr rfl fun c' _ => hsum c', Finset.sum_add_distrib,
      sum_filledQty t hlt, filledQty_step h.refines.wf hadm, Int.add_zero]
    exact Int.modEq_zero_iff.mp hsame

/-- The next fill of a client that keeps to no limit leaves its position inside `int32_t`. -/
def Ecosystem.FillFits (s : Ecosystem K) : Turn → Prop
  | .response c => (s.mains c).tradeEngine.algoType.Quotes ∨
      ∀ r ∈ (s.mains c).clientResponses.head?, r.type = .filled → r.execQty < 2 ^ 31 ∧
        -2 ^ 31 ≤ ((s.mains c).engine.positions r.tickerId).position + sharesOf r ∧
        ((s.mains c).engine.positions r.tickerId).position + sharesOf r < 2 ^ 31
  | _ => True

instance Ecosystem.instDecidableFillFits (s : Ecosystem K) : (a : Turn) → Decidable (s.FillFits a)
  | .response _ => inferInstanceAs (Decidable ((_ ∨ _) ∨ ∀ r ∈ List.head? _, _ → _ ∧ _ ∧ _))
  | .exchange _ => isTrue trivial
  | .marketUpdate _ => isTrue trivial
  | .random .. => isTrue trivial

omit [FloorRing K] in
theorem Ecosystem.FillFits.booked_takeResponse {c : ℕ} {m : TradingMain K}
    (h : s.FillFits (.response c)) (hq : ¬ (s.mains c).tradeEngine.algoType.Quotes)
    (hm : (s.mains c).takeResponse (cfg c) = .ok m) :
    m.booked t ≡ (s.mains c).booked t [ZMOD 0] := by
  refine TradingMain.booked_takeResponse hm fun r rs a hresps ha => ?_
  refine fillsPosition_of (AlgoEngine.positions_onOrderUpdate ha) fun htype ht => ?_
  subst ht
  obtain ⟨hexec, hlow, hhigh⟩ := h.resolve_left hq r (by rw [hresps]; rfl) htype
  rw [sharesOf, if_pos htype] at hlow hhigh
  have hcast : int32 r.execQty = r.execQty := int32_eq (by omega) (by omega)
  have hposition : (((s.mains c).engine.positions r.tickerId).addFill r).position =
      ((s.mains c).engine.positions r.tickerId).position + r.execQty * sideToValue r.side := by
    unfold PositionInfo.addFill
    rw [hcast]
    exact int32_eq hlow hhigh
  rw [hposition]

theorem Ecosystem.Ok.booked_step (h : s.Ok cfg algo B)
    (hcfg : ∀ c t, (cfg c t).maker.riskCfg.maxPosition + (cfg c t).maker.riskCfg.maxOrderSize ≤
      2 ^ 31 - 1)
    (hn : n = 2 ^ 32 ∨ n = 0 ∧ s.FillFits a)
    (ha : s.Allowed P clock cfg a) (hs : s.step P clock cfg a = .ok s') (t : ℕ) :
    s'.booked t ≡ s.booked t [ZMOD n] := by
  cases a with
  | exchange c => rw [h.booked_exchange ha.1 hs]
  | response c =>
    obtain ⟨m, hm, hs⟩ := bind_eq_ok.mp hs
    cases hs
    refine Ecosystem.booked_setMain ?_
    rcases hn with rfl | ⟨rfl, hfit⟩
    · exact TradingMain.booked_takeResponse_wrapped hm
    · by_cases hq : (s.mains c).tradeEngine.algoType.Quotes
      · have hmain := h.mains c ha
        exact hmain.booked_takeResponse (hmain.algoType ▸ hq) (hcfg c) hm
      · exact hfit.booked_takeResponse hq hm
  | marketUpdate c =>
    obtain ⟨m, hm, hs⟩ := bind_eq_ok.mp hs
    cases hs
    refine Ecosystem.booked_setMain ?_
    rw [TradingMain.booked_takeMarketUpdate hm]
  | random c rand =>
    obtain ⟨m, hm, hs⟩ := bind_eq_ok.mp hs
    cases hs
    refine Ecosystem.booked_setMain ?_
    rw [TradingMain.booked_takeRandomTurn hm]

theorem Ecosystem.booked_reach {Q : Ecosystem K → Turn → Prop}
    (h : Trace.Reach (fun s a s' => s.step P clock cfg a = .ok s') Q s s') (hok : s.Ok cfg algo B)
    (hcfg : ∀ c t, (cfg c t).maker.riskCfg.maxPosition + (cfg c t).maker.riskCfg.maxOrderSize ≤
      2 ^ 31 - 1)
    (hclip : ∀ c t, (cfg c t).maker.clip < 2 ^ 32)
    (hq : ∀ s a, Q s a → s.Allowed P clock cfg a)
    (hn : n = 2 ^ 32 ∨ n = 0 ∧ ∀ s a, Q s a → s.FillFits a) (t : ℕ) :
    s'.booked t ≡ s.booked t [ZMOD n] := by
  induction h with
  | refl => rfl
  | step hrun ha hs ih =>
    obtain ⟨B', hok'⟩ := Ecosystem.Run.ok (Trace.Reach.mono hrun hq) hok hcfg hclip
    have hstep := hok'.booked_step hcfg (hn.imp_right (And.imp_right fun h => h _ _ ha))
      (hq _ _ ha) hs t
    exact hstep.trans ih

def Ecosystem.UnwrappedRun (P : Platform K) (clock : ℕ → ℕ → ℤ) (cfg : ℕ → ℕ → StrategyCfg K)
    (s s' : Ecosystem K) : Prop :=
  Trace.Reach (fun s a s' => s.step P clock cfg a = .ok s')
    (fun s a => s.Allowed P clock cfg a ∧ s.FillFits a) s s'

omit [FloorRing K] in
theorem Ecosystem.booked_new (checked : Bool) (algo : ℕ → AlgoType) (cfg : ℕ → ℕ → StrategyCfg K)
    (openVwap : ℕ → ℕ → ℕ → K) (draws : ℕ → ℕ → ℕ) (t : ℕ) :
    (Ecosystem.new checked algo cfg openVwap draws).booked t = 0 :=
  Finset.sum_eq_zero fun _ _ => rfl

end Shares

end Trading
