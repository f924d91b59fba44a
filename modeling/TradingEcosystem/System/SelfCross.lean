import TradingEcosystem.System.OrderTracking
import TradingEcosystem.Trading.MarketMaker

namespace Trading

open Common Exchange

instance (o : OMOrder) : Decidable o.IsOpen := inferInstanceAs (Decidable (_ ∨ _ ∨ _))

def OMOrder.Keeps (o o' : OMOrder) : Prop := o'.IsOpen → o.IsOpen ∧ o'.price = o.price

section Slots

variable {P : ℕ → Prop} {c t : ℕ} {d : Side} {v w : SlotView} {o o' : OMOrder}

theorem OMOrder.Keeps.trans {o'' : OMOrder} (h : o.Keeps o') (h' : o'.Keeps o'') : o.Keeps o'' := by
  intro hopen
  obtain ⟨hopen', hprice'⟩ := h' hopen
  obtain ⟨hopen'', hprice⟩ := h hopen'
  exact ⟨hopen'', hprice'.trans hprice⟩

theorem OMOrder.Keeps.refl (o : OMOrder) : o.Keeps o := fun h => ⟨h, rfl⟩

theorem onResponse_keeps {r : MEClientResponse}
    (h : (r.type = .accepted ∧ o.orderState = .pendingNew) ∨ r.type = .filled ∨
      r.type = .canceled) : o.Keeps (o.onResponse r) := by
  rcases h with ⟨htype, hstate⟩ | htype | htype
  · rw [onResponse_accepted htype]
    exact fun _ => ⟨.inl hstate, rfl⟩
  · rw [onResponse_filled htype]
    intro hopen
    refine ⟨?_, rfl⟩
    unfold OMOrder.IsOpen at hopen ⊢
    dsimp only at hopen
    split_ifs at hopen
    · simp at hopen
    · exact hopen
  · rw [onResponse_canceled htype]
    intro hopen
    simp [OMOrder.IsOpen] at hopen

theorem SlotStep.keeps (h : SlotOk c t d v) (k : SlotStep P c t d v w) (hp : ∀ q, ¬ P q) :
    v.order.Keeps w.order := by
  cases k with
  | stay => exact .refl _
  | sendNew _ id price qty placed state => exact absurd placed (hp qty)
  | sendCancel _ req state type id => exact fun _ => ⟨.inr (.inl state), rfl⟩
  | accept => exact .refl _
  | trade => exact .refl _
  | cancel => exact .refl _
  | reject => exact .refl _
  | deliver order reqs r resps os =>
    refine onResponse_keeps ?_
    rcases (h.head rfl).2 with haccepted | ⟨hfilled, -⟩ | ⟨hcanceled, -⟩
    · exact .inl haccepted
    · exact .inr (.inl hfilled)
    · exact .inr (.inr hcanceled)

theorem isOpen_of_ne (h : o.orderState ≠ .invalid ∧ o.orderState ≠ .dead) : o.IsOpen := by
  unfold OMOrder.IsOpen
  cases hs : o.orderState <;> simp_all

theorem SlotSteps.keeps (h : SlotOk c t d v) (k : SlotSteps P c t d v w) (hp : ∀ q, ¬ P q) :
    v.order.Keeps w.order :=
  SlotSteps.keep (J := fun x => v.order.Keeps x.order) k h (.refl _)
    fun _ _ hx hk hkeep => hkeep.trans (hk.keeps hx hp)

end Slots

section Moves

variable {e : TradeEngine} {t : ℕ} {d : Side} {price : ℤ} {qty : ℕ} {loss : Bool}

theorem TradeEngine.price_of_places (h : e.Places t price d qty loss) :
    ((e.moveOrder t price d qty loss).1.orderManager.slot t d).price = price := by
  obtain ⟨hstate, hprice, hrisk⟩ := h
  have hmove : e.orderManager.moveOrder e.clientId t price d qty (e.risk t loss d qty) =
      e.orderManager.newOrder e.clientId t price d qty := by
    unfold OrderManager.moveOrder
    rcases hstate with hstate | hstate <;> rw [hstate] <;> exact if_pos ⟨hprice, hrisk⟩
  unfold TradeEngine.moveOrder
  rw [hmove]
  exact congrArg OMOrder.price (slot_setSlot ..)

theorem TradeEngine.slots_moveOrders {bid ask : ℤ} {r : TradeEngine × List MEClientRequest}
    (h : e.moveOrders t bid ask qty loss = .ok r) :
    (e.Places t bid .buy qty loss → (r.1.orderManager.slot t .buy).price = bid) ∧
      (e.Places t ask .sell qty loss → (r.1.orderManager.slot t .sell).price = ask) := by
  have hbuy : Side.buy.IsBuyOrSell := .inl rfl
  have hsell : Side.sell.IsBuyOrSell := .inr rfl
  obtain ⟨_, -, h⟩ := bind_eq_ok.mp h
  cases h
  constructor
  · intro hplaces
    refine (congrArg OMOrder.price ?_).trans (TradeEngine.price_of_places hplaces)
    exact TradeEngine.slot_moveOrder_of_ne hsell hbuy (by simp) ask qty loss
  · rintro ⟨hstate, hprice, hrisk⟩
    have hslot : (e.moveOrder t bid .buy qty loss).1.orderManager.slot t .sell =
        e.orderManager.slot t .sell :=
      TradeEngine.slot_moveOrder_of_ne hbuy hsell (by simp) bid qty loss
    refine TradeEngine.price_of_places (e := (e.moveOrder t bid .buy qty loss).1)
      ⟨?_, hprice, hrisk⟩
    rw [hslot]
    exact hstate

end Moves

def Session.Uncrossed (s : Session) : Prop :=
  ∀ t, (s.slot t .buy).IsOpen → (s.slot t .sell).IsOpen →
    (s.slot t .buy).price < (s.slot t .sell).price

def Session.Clears (s : Session) : Action → Prop
  | .moveOrders t bid ask clip loss =>
      (s.client.Places t bid .buy clip loss → (s.slot t .sell).IsOpen →
        bid < (s.slot t .sell).price) ∧
      (s.client.Places t ask .sell clip loss → (s.slot t .buy).IsOpen →
        (s.slot t .buy).price < ask) ∧
      (s.client.Places t bid .buy clip loss → s.client.Places t ask .sell clip loss → bid < ask)
  | _ => True

section Sessions

variable {c t : ℕ} {s s' : Session} {a : Action} {B : IndexedBooks} {owner : ℕ → ℕ × Side}

theorem Session.not_places {q : ℕ} {d : Side} (h : ∀ bid ask clip loss,
    a ≠ .moveOrders t bid ask clip loss) : ¬ s.Places a t d q := by
  intro hp
  cases a with
  | moveOrders t' bid ask clip loss =>
    obtain ⟨rfl, -⟩ := hp
    exact h bid ask clip loss rfl
  | cancelOrders => exact hp
  | exchange => exact hp
  | other => exact hp
  | deliver => exact hp

theorem Session.Inv.uncrossed_step (h : s.Inv c B owner) (hc : c < meMaxNumClients)
    (ha : a.Valid c) (hs : s.Next a s') (hnext : s'.nextOrderId ≤ meMaxOrderIds)
    (hclears : s.Clears a) (hu : s.Uncrossed) : s'.Uncrossed := by
  obtain ⟨B', owner', -, hsteps⟩ := h.step hc ha hs hnext
  have hkeeps : ∀ t d, d.IsBuyOrSell → (∀ q, ¬ s.Places a t d q) →
      (s.slot t d).Keeps (s'.slot t d) :=
    fun t d hd hp => SlotSteps.keeps (h.slots t d hd) (hsteps t d hd) hp
  have hbuy : Side.buy.IsBuyOrSell := .inl rfl
  have hsell : Side.sell.IsBuyOrSell := .inr rfl
  intro t hb hS
  by_cases hmove : ∃ bid ask clip loss, a = .moveOrders t bid ask clip loss
  · obtain ⟨bid, ask, clip, loss, rfl⟩ := hmove
    obtain ⟨r, hr, hs⟩ := bind_eq_ok.mp hs
    cases hs
    obtain ⟨hpriceB, hpriceS⟩ := TradeEngine.slots_moveOrders hr
    obtain ⟨hclearB, hclearS, hboth⟩ := hclears
    -- a slot either takes the new quote or keeps its old price
    have hcaseB : (s.client.Places t bid .buy clip loss ∧
        ((s.send r).slot t .buy).price = bid) ∨ (s.slot t .buy).IsOpen ∧
          ((s.send r).slot t .buy).price = (s.slot t .buy).price := by
      by_cases hp : s.client.Places t bid .buy clip loss
      · exact .inl ⟨hp, hpriceB hp⟩
      · exact .inr (hkeeps t .buy hbuy (fun q hq => hp hq.2.2) hb)
    have hcaseS : (s.client.Places t ask .sell clip loss ∧
        ((s.send r).slot t .sell).price = ask) ∨ (s.slot t .sell).IsOpen ∧
          ((s.send r).slot t .sell).price = (s.slot t .sell).price := by
      by_cases hp : s.client.Places t ask .sell clip loss
      · exact .inl ⟨hp, hpriceS hp⟩
      · exact .inr (hkeeps t .sell hsell (fun q hq => hp hq.2.2) hS)
    rcases hcaseB with ⟨hp, hb'⟩ | ⟨ho, hb'⟩ <;> rcases hcaseS with ⟨hp', hs'⟩ | ⟨ho', hs'⟩ <;>
      rw [hb', hs']
    · exact hboth hp hp'
    · exact hclearB hp ho'
    · exact hclearS hp' ho
    · exact hu t ho ho'
  · have hno : ∀ d q, ¬ s.Places a t d q := fun d q =>
      Session.not_places fun bid ask clip loss ha => hmove ⟨bid, ask, clip, loss, ha⟩
    obtain ⟨ho, hb'⟩ := hkeeps t .buy hbuy (hno .buy) hb
    obtain ⟨ho', hs'⟩ := hkeeps t .sell hsell (hno .sell) hS
    rw [hb', hs']
    exact hu t ho ho'

def Session.NoSelfMatch (s : Session) (c : ℕ) : Prop :=
  ∀ req ∈ s.requests, req.type = .new → ∀ os,
    restingOrders s.engine c req.tickerId req.side.opposite = some os →
      ∀ o ∈ os, MEOrderBook.noMoreCrosses req.side req.price o.price

theorem Session.Inv.noSelfMatch (h : s.Inv c B owner) (hu : s.Uncrossed) : s.NoSelfMatch c := by
  intro req hreq hnew os hos o ho
  obtain ⟨-, -, hside, -⟩ := h.requests req hreq
  have hmem : req ∈ (s.view B req.tickerId req.side).requests :=
    List.mem_filter.mpr ⟨hreq, decide_eq_true ⟨rfl, rfl⟩⟩
  obtain ⟨hpending, hprice⟩ := (h.slots req.tickerId req.side hside).pending_of_new hmem hnew
  have hopen := isOpen_of_ne (by rw [hpending]; decide)
  rw [h.restingOrders, Option.some_inj] at hos
  rw [← hos, ← h.view_resting] at ho
  obtain ⟨-, -, hprice', hstate⟩ :=
    (h.slots req.tickerId req.side.opposite hside.opposite).open_of_resting ho
  have hopen' := isOpen_of_ne hstate
  have hlt := hu req.tickerId
  rw [← hprice, hprice']
  unfold MEOrderBook.noMoreCrosses
  rcases hside with hd | hd
  · rw [hd] at hopen hopen' ⊢
    exact hlt hopen hopen'
  · rw [hd] at hopen hopen' ⊢
    exact hlt hopen' hopen

end Sessions

inductive MakerEvent (K : Type) where
  | book (tickerId : ℕ) (market : Market K) (lossTooLarge : Bool)
  | exchange
  | other (req : MEClientRequest)
  | deliver

section Maker

variable {K : Type} [Field K] [LinearOrder K] [FloorRing K]

def Session.position (s : Session) (tickerId : ℕ) : ℤ := (s.client.positions tickerId).position

def Session.makerStep (cfg : ℕ → TradeEngineCfg K) (s : Session) : MakerEvent K → Outcome Session
  | .book tickerId market lossTooLarge => do
      let r ← s.client.onOrderBookUpdate cfg tickerId market lossTooLarge
      pure (s.send r)
  | .exchange => s.step .exchange
  | .other req => s.step (.other req)
  | .deliver => s.step .deliver

def MakerEvent.action (cfg : ℕ → TradeEngineCfg K) (s : Session) : MakerEvent K → Option Action
  | .book tickerId market lossTooLarge =>
      match MarketMaker.onOrderBookUpdate (cfg tickerId) market (s.position tickerId) with
      | .none => none
      | .pull => some (.cancelOrders tickerId)
      | .quote bidPrice askPrice clip =>
          some (.moveOrders tickerId bidPrice askPrice clip lossTooLarge)
  | .exchange => some .exchange
  | .other req => some (.other req)
  | .deliver => some .deliver

def MakerEvent.UncrossedBBO : MakerEvent K → Prop
  | .book _ market _ => market.bidPrice < market.askPrice ∧ 0 < market.logTerm
  | _ => True

def MakerEvent.Valid (c : ℕ) (cfg : ℕ → TradeEngineCfg K) (s : Session) (ev : MakerEvent K) :
    Prop :=
  ev.UncrossedBBO ∧ ∀ a ∈ ev.action cfg s, a.Valid c

/-- Where one slot is free and the risk check would let its quote go, a slot that is open on the
other side has a price that this quote does not reach. -/
def Session.Meets (cfg : ℕ → TradeEngineCfg K) (s : Session) : MakerEvent K → Prop
  | .book t market loss => MarketMaker.kills (cfg t) market = false →
      (¬ (s.slot t .buy).IsOpen → s.client.risk t loss .buy
          (MarketMaker.clip (cfg t) market (s.position t)) = .allowed → (s.slot t .sell).IsOpen →
        MarketMaker.BidBelow (cfg t) market (s.position t) (s.slot t .sell).price) ∧
      (¬ (s.slot t .sell).IsOpen → s.client.risk t loss .sell
          (MarketMaker.clip (cfg t) market (s.position t)) = .allowed → (s.slot t .buy).IsOpen →
        MarketMaker.AskAbove (cfg t) market (s.position t) (s.slot t .buy).price)
  | _ => True

variable {cfg : ℕ → TradeEngineCfg K} {s : Session} {ev : MakerEvent K}

instance : (ev : MakerEvent K) → Decidable ev.UncrossedBBO
  | .book .. => inferInstanceAs (Decidable (_ ∧ _))
  | .exchange => isTrue trivial
  | .other _ => isTrue trivial
  | .deliver => isTrue trivial

instance (c : ℕ) : Decidable (ev.Valid c cfg s) := inferInstanceAs (Decidable (_ ∧ _))

instance : (ev : MakerEvent K) → Decidable (s.Meets cfg ev)
  | .book .. => inferInstanceAs (Decidable (_ → (_ → _ → _ → _) ∧ (_ → _ → _ → _)))
  | .exchange => isTrue trivial
  | .other _ => isTrue trivial
  | .deliver => isTrue trivial

theorem Session.makerStep_eq (cfg : ℕ → TradeEngineCfg K) (s : Session) (ev : MakerEvent K) :
    s.makerStep cfg ev = match ev.action cfg s with
      | none => .ok s
      | some a => s.step a := by
  cases ev with
  | book t market loss =>
    unfold Session.makerStep MakerEvent.action TradeEngine.onOrderBookUpdate Session.position
    dsimp only
    cases MarketMaker.onOrderBookUpdate (cfg t) market (s.client.positions t).position with
    | none => exact congrArg Except.ok s.send_nil
    | pull => rfl
    | quote bid ask clip => rfl
  | exchange => rfl
  | other req => rfl
  | deliver => rfl

theorem MarketMaker.onOrderBookUpdate_quote {cfg : TradeEngineCfg K} {market : Market K}
    {position bid ask : ℤ} {n : ℕ}
    (h : MarketMaker.onOrderBookUpdate cfg market position = .quote bid ask n) :
    kills cfg market = false ∧ bid = bidPrice cfg market position ∧
      ask = askPrice cfg market position ∧ n = clip cfg market position := by
  unfold onOrderBookUpdate at h
  split_ifs at h with hbbo hkills
  cases h
  exact ⟨Bool.eq_false_of_not_eq_true hkills, rfl, rfl, rfl⟩

theorem not_isOpen {o : OMOrder} (h : o.orderState = .invalid ∨ o.orderState = .dead) :
    ¬ o.IsOpen := by
  unfold OMOrder.IsOpen
  rcases h with h | h <;> simp [h]

theorem Session.clears_of_meets [IsStrictOrderedRing K] {c : ℕ} {a : Action}
    (hcfg : ∀ t, (cfg t).useAs = true → (cfg t).Proper) (hv : ev.Valid c cfg s)
    (hm : s.Meets cfg ev) (ha : ev.action cfg s = some a) : s.Clears a := by
  cases ev with
  | book t market loss =>
    obtain ⟨⟨hbbo, hlog⟩, -⟩ := hv
    unfold MakerEvent.action at ha
    dsimp only at ha
    cases hq : MarketMaker.onOrderBookUpdate (cfg t) market (s.position t) with
    | none =>
      rw [hq] at ha
      cases ha
    | pull =>
      rw [hq] at ha
      cases ha
      trivial
    | quote bid ask n =>
      rw [hq] at ha
      cases ha
      obtain ⟨hkills, rfl, rfl, rfl⟩ := MarketMaker.onOrderBookUpdate_quote hq
      obtain ⟨hbid, hask⟩ := hm hkills
      refine ⟨fun hp ho => ?_, fun hp ho => ?_, fun _ _ => ?_⟩
      · exact MarketMaker.bidPrice_lt_iff.mpr (hbid (not_isOpen hp.1) hp.2.2 ho)
      · exact MarketMaker.lt_askPrice_iff.mpr (hask (not_isOpen hp.1) hp.2.2 ho)
      · exact MarketMaker.bidPrice_lt_askPrice (hcfg t) hlog hbbo
  | exchange =>
    cases ha
    trivial
  | other req =>
    cases ha
    trivial
  | deliver =>
    cases ha
    trivial

def Session.MakerNext (cfg : ℕ → TradeEngineCfg K) (s : Session) (ev : MakerEvent K)
    (s' : Session) : Prop := s.makerStep cfg ev = .ok s'

def Session.newMaker (checked : Bool) (c : ℕ) (cfg : ℕ → TradeEngineCfg K) : Session :=
  Session.new checked c (fun t => (cfg t).riskCfg) fun t => (cfg t).hysteresisTicks

end Maker

def sampleCfg : ℕ → TradeEngineCfg ℚ := fun _ =>
  ⟨10, 0, ⟨10, 100⟩, false, 1 / 10, 13 / 2, false, 0, 0, false, 1, 0, false, 0, 0, false, 1, false,
    23 / 50, 2, 1 / 2⟩

def sampleMarket (bidPrice askPrice : ℤ) : Market ℚ :=
  ⟨bidPrice, askPrice, (bidPrice + askPrice) / 2, none, none, 0, none, 0, 1⟩

def askLifted : List (MakerEvent ℚ) :=
  [.book 0 (sampleMarket 100 105) false, .exchange, .exchange, .deliver, .deliver,
    .other ⟨.new, 2, 0, 7, .buy, 105, 10⟩, .deliver]

end Trading
