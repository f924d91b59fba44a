import TradingEcosystem.Backtest.EventUpdates
import TradingEcosystem.Backtest.LobsterReader
import TradingEcosystem.Backtest.Strategy

namespace Backtest

open Common Exchange Trading

def InStep (o : OMOrder) (l : LiveAlgoOrder) : Prop :=
  ((o.orderState = .invalid ∨ o.orderState = .dead) ∧ l.leaves = 0) ∨
    (o.orderState = .live ∧ l.orderId = o.orderId ∧ l.price = o.price ∧ l.leaves = o.qty ∧
      0 < o.qty)

instance (o : OMOrder) (l : LiveAlgoOrder) : Decidable (InStep o l) :=
  inferInstanceAs (Decidable (_ ∨ _))

/-- `InStep`, with the quantity bounded away from 0 only where `sized` holds. -/
def Tracks (sized : Prop) (o : OMOrder) (l : LiveAlgoOrder) : Prop :=
  ((o.orderState = .invalid ∨ o.orderState = .dead) ∧ l.leaves = 0) ∨
    (o.orderState = .live ∧ l.orderId = o.orderId ∧ l.price = o.price ∧ l.leaves = o.qty ∧
      (sized → 0 < o.qty))

def requestsOn (side : Side) (reqs : List MEClientRequest) : List MEClientRequest :=
  reqs.filter fun req => req.side = side

def IsFor (tickerId : ℕ) (side : Side) (o : OMOrder) : Prop :=
  o.tickerId = tickerId ∧ o.side = side

/-- Between the first update of an event and its pumps: the requests of the event so far, and the
slots they come from. -/
inductive SlotPhase (sized : Prop) (tickerId : ℕ) (side : Side) :
    List MEClientRequest → OMOrder → LiveAlgoOrder → Prop
  | quiet {o l} (hstep : Tracks sized o l) (hown : o.orderState = .live → IsFor tickerId side o) :
      SlotPhase sized tickerId side [] o l
  | asked {o l} (req : MEClientRequest) (htype : req.type = .new)
      (hreq : req.orderId = o.orderId ∧ req.price = o.price ∧ req.qty = o.qty)
      (hqty : sized → 0 < o.qty) (hstate : o.orderState = .pendingNew)
      (hown : IsFor tickerId side o) (hidle : l.leaves = 0) :
      SlotPhase sized tickerId side [req] o l
  | leaving {o l} (req : MEClientRequest) (htype : req.type = .cancel)
      (hstate : o.orderState = .pendingCancel) : SlotPhase sized tickerId side [req] o l

theorem SlotPhase.length_le {sized : Prop} {tickerId : ℕ} {side : Side}
    {reqs : List MEClientRequest} {o : OMOrder} {l : LiveAlgoOrder}
    (h : SlotPhase sized tickerId side reqs o l) :
    reqs.length ≤ 1 := by
  cases h <;> simp

structure Phases (sized : Prop) (tickerId : ℕ) (m : OrderManager) (live : Side → LiveAlgoOrder)
    (reqs : List MEClientRequest) : Prop where
  mine : ∀ req ∈ reqs, req.tickerId = tickerId ∧ req.side.IsBuyOrSell
  phase : ∀ {side : Side}, side.IsBuyOrSell →
    SlotPhase sized tickerId side (requestsOn side reqs) (m.slot tickerId side) (live side)

section Requests

variable {sized : Prop} {tickerId : ℕ} {side : Side} {m m' : OrderManager} {live : Side → LiveAlgoOrder}
  {reqs new : List MEClientRequest}

theorem requestsOn_of_side (h : ∀ req ∈ new, req.side = side) : requestsOn side new = new :=
  List.filter_eq_self.mpr fun req hr => decide_eq_true (h req hr)

theorem requestsOn_of_other {other : Side} (hne : other ≠ side)
    (h : ∀ req ∈ new, req.side = side) : requestsOn other new = [] :=
  List.filter_eq_nil_iff.mpr fun req hr hc => hne ((of_decide_eq_true hc).symm.trans (h req hr))

theorem requestsOn_append (side : Side) (reqs new : List MEClientRequest) :
    requestsOn side (reqs ++ new) = requestsOn side reqs ++ requestsOn side new :=
  List.filter_append ..

theorem Phases.push (h : Phases sized tickerId m live reqs) (hs : side.IsBuyOrSell) {o : OMOrder}
    (hnew : ∀ req ∈ new, req.tickerId = tickerId ∧ req.side = side)
    (hslots : ∀ {d : Side}, d.IsBuyOrSell →
      m'.slot tickerId d = if d = side then o else m.slot tickerId d)
    (hphase : SlotPhase sized tickerId side (requestsOn side reqs ++ new) o (live side)) :
    Phases sized tickerId m' live (reqs ++ new) := by
  refine ⟨?_, ?_⟩
  · intro req hr
    rcases List.mem_append.mp hr with hr | hr
    · exact h.mine req hr
    · exact ⟨(hnew req hr).1, (hnew req hr).2 ▸ hs⟩
  · intro d hd
    rw [hslots hd, requestsOn_append]
    by_cases hds : d = side
    · subst hds
      rw [if_pos rfl, requestsOn_of_side fun req hr => (hnew req hr).2]
      exact hphase
    · rw [if_neg hds, requestsOn_of_other hds fun req hr => (hnew req hr).2, List.append_nil]
      exact h.phase hd

theorem slot_set_eq (hs : side.IsBuyOrSell) (o : OMOrder) {d : Side} (hd : d.IsBuyOrSell) :
    (m.setSlot tickerId side o).slot tickerId d = if d = side then o else m.slot tickerId d := by
  by_cases hds : d = side
  · subst hds
    rw [if_pos rfl, Trading.slot_setSlot]
  · rw [if_neg hds, slot_setSlot_of_ne hs hd fun hc => hds (Prod.mk.inj hc).2]

theorem Phases.newOrder (h : Phases sized tickerId m live reqs) (hs : side.IsBuyOrSell)
    (hstate : (m.slot tickerId side).orderState = .invalid ∨
      (m.slot tickerId side).orderState = .dead) (clientId : ℕ) (price : ℤ) {qty : ℕ}
    (hqty : sized → 0 < qty) :
    Phases sized tickerId (m.newOrder clientId tickerId price side qty).1 live
      (reqs ++ (m.newOrder clientId tickerId price side qty).2) := by
  refine h.push hs ?_ (fun hd => slot_set_eq hs _ hd) ?_
  · intro req hr
    obtain rfl := List.mem_singleton.mp hr
    exact ⟨rfl, rfl⟩
  · have hphase := h.phase hs
    generalize requestsOn side reqs = rs at hphase ⊢
    generalize m.slot tickerId side = o at hphase hstate
    cases hphase with
    | quiet hstep hown =>
      have hidle : (live side).leaves = 0 := by
        rcases hstep with hstep | hstep
        · exact hstep.2
        · simp [hstep.1] at hstate
      exact .asked _ rfl ⟨rfl, rfl, rfl⟩ hqty rfl ⟨rfl, rfl⟩ hidle
    | asked req htype hreq hq hpend => simp [hpend] at hstate
    | leaving req htype hpend => simp [hpend] at hstate

theorem Phases.cancelOrder (h : Phases sized tickerId m live reqs) (hs : side.IsBuyOrSell)
    (hstate : (m.slot tickerId side).orderState = .live) (clientId : ℕ) :
    Phases sized tickerId (m.cancelOrder clientId tickerId side).1 live
      (reqs ++ (m.cancelOrder clientId tickerId side).2) := by
  have hphase := h.phase hs
  refine h.push hs ?_ (fun hd => slot_set_eq hs _ hd) ?_
  · intro req hr
    obtain rfl := List.mem_singleton.mp hr
    generalize requestsOn side reqs = rs at hphase
    generalize m.slot tickerId side = o at hphase hstate
    cases hphase with
    | quiet hstep hown => exact hown hstate
    | asked req htype hreq hq hpend => simp [hpend] at hstate
    | leaving req htype hpend => simp [hpend] at hstate
  · generalize requestsOn side reqs = rs at hphase ⊢
    generalize m.slot tickerId side = o at hphase hstate
    cases hphase with
    | quiet hstep hown => exact .leaving _ rfl rfl
    | asked req htype hreq hq hpend => simp [hpend] at hstate
    | leaving req htype hpend => simp [hpend] at hstate

theorem Phases.moveOrder (h : Phases sized tickerId m live reqs) (hs : side.IsBuyOrSell)
    (clientId : ℕ) (price : ℤ) {qty : ℕ} (hqty : sized → 0 < qty) (risk : RiskCheckResult) :
    Phases sized tickerId (m.moveOrder clientId tickerId price side qty risk).1 live
      (reqs ++ (m.moveOrder clientId tickerId price side qty risk).2) := by
  rcases moveOrder_cases m clientId tickerId price side qty risk with heq | ⟨hstate, -, -, heq⟩ |
    ⟨hstate, heq⟩
  · rw [heq, List.append_nil]
    exact h
  · rw [heq]
    exact h.newOrder hs hstate clientId price hqty
  · rw [heq]
    exact h.cancelOrder hs hstate clientId

theorem Phases.cancelLive (h : Phases sized tickerId m live reqs) (hs : side.IsBuyOrSell)
    (clientId : ℕ) :
    Phases sized tickerId (m.cancelLive clientId tickerId side).1 live
      (reqs ++ (m.cancelLive clientId tickerId side).2) := by
  rcases cancelLive_cases m clientId tickerId side with ⟨-, heq⟩ | ⟨hstate, heq⟩
  · rw [heq, List.append_nil]
    exact h
  · rw [heq]
    exact h.cancelOrder hs hstate clientId

def Sized : Reaction → Prop
  | .quote _ _ clip => 0 < clip
  | _ => True

theorem Phases.perform {e e' : TradeEngine} {lossTooLarge : Bool} {reaction : Reaction}
    (h : Phases sized tickerId e.orderManager live reqs) (hsize : sized → Sized reaction)
    (he : e.perform tickerId lossTooLarge reaction = .ok (e', new)) :
    Phases sized tickerId e'.orderManager live (reqs ++ new) := by
  cases reaction with
  | none =>
    cases he
    rw [List.append_nil]
    exact h
  | pull =>
    obtain ⟨_, -, he⟩ := bind_eq_ok.mp he
    cases he
    rw [← List.append_assoc]
    exact (h.cancelLive (.inl rfl) _).cancelLive (.inr rfl) _
  | quote bidPrice askPrice clip =>
    obtain ⟨_, -, he⟩ := bind_eq_ok.mp he
    cases he
    rw [← List.append_assoc]
    exact (h.moveOrder (.inl rfl) _ bidPrice hsize _).moveOrder (.inr rfl) _ askPrice hsize _

end Requests

inductive Pumped : List MEClientRequest → LiveAlgoOrder → List MEClientResponse →
    LiveAlgoOrder → Prop
  | nil (l : LiveAlgoOrder) : Pumped [] l [] l
  | new {req : MEClientRequest} {reqs : List MEClientRequest} {l o l' : LiveAlgoOrder}
      {r : MEClientResponse} {rs : List MEClientResponse} (htype : req.type = .new)
      (hr : r.type = .accepted)
      (ho : o.orderId = req.orderId ∧ o.price = req.price ∧ o.leaves = req.qty)
      (h : Pumped reqs o rs l') : Pumped (req :: reqs) l (r :: rs) l'
  | cancel {req : MEClientRequest} {reqs : List MEClientRequest} {l l' : LiveAlgoOrder}
      {r : MEClientResponse} {rs : List MEClientResponse} (htype : req.type ≠ .new)
      (hr : r.type = .canceled) (h : Pumped reqs .default rs l') : Pumped (req :: reqs) l (r :: rs) l'

theorem answers_cons_of_pos {tickerId : ℕ} {side : Side} {r : MEClientResponse}
    {rs : List MEClientResponse} (h : r.tickerId = tickerId ∧ r.side = side) :
    answers tickerId side (r :: rs) = r :: answers tickerId side rs :=
  List.filter_cons_of_pos (decide_eq_true h)

theorem answers_cons_of_neg {tickerId : ℕ} {side : Side} {r : MEClientResponse}
    {rs : List MEClientResponse} (h : ¬ (r.tickerId = tickerId ∧ r.side = side)) :
    answers tickerId side (r :: rs) = answers tickerId side rs :=
  List.filter_cons_of_neg (by simpa using h)

section Pump

variable {E : Type} {e e' : BacktestEngine E} {side : Side} {nowNs : ℤ}

structure PumpedAll (reqs : List MEClientRequest) (rs : List MEClientResponse)
    (e e' : BacktestEngine E) : Prop where
  ticker : e'.tickerId = e.tickerId
  engine : e'.engine = e.engine
  requests : e'.clientRequests = e.clientRequests
  responses : e'.clientResponses = e.clientResponses ++ rs
  mine : ∀ r ∈ rs, r.tickerId = e.tickerId ∧ r.side.IsBuyOrSell
  slots : ∀ {side : Side}, side.IsBuyOrSell →
    Pumped (requestsOn side reqs) (e.slot side) (answers e.tickerId side rs) (e'.slot side)

theorem slot_putSlot (hs : side.IsBuyOrSell) (o : LiveAlgoOrder) {d : Side} (hd : d.IsBuyOrSell) :
    (e.putSlot side e.tickerId o).slot d = if d = side then o else e.slot d := by
  by_cases hds : d = side
  · subst hds
    rw [if_pos rfl]
    exact if_pos ⟨rfl, rfl⟩
  · rw [if_neg hds]
    exact if_neg fun hc => hds (sideToIndex_inj hd hs hc.2)

theorem pumpRequest_eq {req : MEClientRequest} (ht : req.tickerId = e.tickerId)
    (hs : req.side.IsBuyOrSell) (h : e.pumpRequest nowNs req = .ok e') :
    ∃ o r, (r.tickerId = e.tickerId ∧ r.side = req.side) ∧
      (∀ {d : Side}, d.IsBuyOrSell → e'.slot d = if d = req.side then o else e.slot d) ∧
      (e'.tickerId = e.tickerId ∧ e'.engine = e.engine ∧ e'.clientRequests = e.clientRequests ∧
        e'.clientResponses = e.clientResponses ++ [r]) ∧
      ∀ {reqs l rs l'}, Pumped reqs o rs l' → Pumped (req :: reqs) l (r :: rs) l' := by
  obtain ⟨_, -, h⟩ := bind_eq_ok.mp h
  obtain ⟨_, -, h⟩ := bind_eq_ok.mp h
  rw [ht] at h
  split_ifs at h with hnew
  · cases h
    refine ⟨⟨req.orderId, req.price, req.side, req.qty, e.queueAhead req.side req.price, nowNs⟩, _,
      ⟨rfl, rfl⟩, fun hd => slot_putSlot (e := e) hs _ hd, ⟨rfl, rfl, rfl, rfl⟩, ?_⟩
    exact fun hp => .new hnew rfl ⟨rfl, rfl, rfl⟩ hp
  · cases h
    refine ⟨.default, _, ⟨rfl, rfl⟩, fun hd => slot_putSlot (e := e) hs _ hd,
      ⟨rfl, rfl, rfl, rfl⟩, ?_⟩
    exact fun hp => .cancel hnew rfl hp

theorem pumpRequests_pumped {reqs : List MEClientRequest}
    (hmine : ∀ req ∈ reqs, req.tickerId = e.tickerId ∧ req.side.IsBuyOrSell)
    (h : BacktestEngine.pumpRequests nowNs e reqs = .ok e') : ∃ rs, PumpedAll reqs rs e e' := by
  induction reqs generalizing e with
  | nil =>
    cases h
    exact ⟨[], rfl, rfl, rfl, (List.append_nil _).symm, nofun, fun _ => .nil _⟩
  | cons req reqs ih =>
    obtain ⟨e₁, he₁, h⟩ := bind_eq_ok.mp h
    obtain ⟨ht, hs⟩ := hmine req (List.mem_cons_self ..)
    obtain ⟨o, r, ⟨hrt, hrs⟩, hslots, ⟨htick, heng, hreqs, hresp⟩, hpump⟩ := pumpRequest_eq ht hs he₁
    obtain ⟨rs, hall⟩ := ih (fun q hq => by
      rw [htick]
      exact hmine q (List.mem_cons_of_mem _ hq)) h
    refine ⟨r :: rs, hall.ticker.trans htick, hall.engine.trans heng, hall.requests.trans hreqs,
      ?_, ?_, ?_⟩
    · rw [hall.responses, hresp, List.append_assoc, List.singleton_append]
    · intro x hx
      rcases List.mem_cons.mp hx with rfl | hx
      · exact ⟨hrt, hrs ▸ hs⟩
      · exact htick ▸ hall.mine x hx
    · intro d hd
      have hrest := hall.slots hd
      rw [hslots hd, htick] at hrest
      by_cases hds : d = req.side
      · have hq : requestsOn d (req :: reqs) = req :: requestsOn d reqs :=
          List.filter_cons_of_pos (decide_eq_true hds.symm)
        rw [if_pos hds] at hrest
        rw [hq, answers_cons_of_pos ⟨hrt, hrs.trans hds.symm⟩]
        exact hpump hrest
      · have hq : requestsOn d (req :: reqs) = requestsOn d reqs :=
          List.filter_cons_of_neg (by simpa using Ne.symm hds)
        rw [if_neg hds] at hrest
        rw [hq, answers_cons_of_neg fun hc => hds (hc.2.symm.trans hrs)]
        exact hrest

end Pump

theorem SlotMove.idle_of_leaves {o o' : LiveAlgoOrder} {volume : ℕ} {isPrint : Bool}
    {rs : List MEClientResponse} (h : SlotMove o volume isPrint rs o') (ho : o.leaves = 0) :
    rs = [] ∧ o' = o := by
  cases h with
  | idle => exact ⟨rfl, rfl⟩
  | burned hl => omega
  | withdrawn r hl => omega
  | filled r hl => omega

theorem Tracks.move {sized : Prop} {tickerId : ℕ} {side : Side} {o : OMOrder} {l l' : LiveAlgoOrder} {volume : ℕ}
    {isPrint : Bool} {rs : List MEClientResponse} (h : Tracks sized o l)
    (hown : o.orderState = .live → IsFor tickerId side o)
    (hmove : SlotMove l volume isPrint rs l') :
    SlotPhase sized tickerId side [] (rs.foldl OMOrder.onResponse o) l' := by
  rcases h with ⟨hstate, hleaves⟩ | ⟨hlive, hid, hprice, hleaves, hqty⟩
  · obtain ⟨rfl, rfl⟩ := hmove.idle_of_leaves hleaves
    exact .quiet (.inl ⟨hstate, hleaves⟩) hown
  cases hmove with
  | idle => exact .quiet (.inr ⟨hlive, hid, hprice, hleaves, hqty⟩) hown
  | burned => exact .quiet (.inr ⟨hlive, hid, hprice, hleaves, hqty⟩) hown
  | withdrawn r _ _ ht =>
    refine .quiet (.inl ⟨.inr ?_, rfl⟩) ?_ <;> simp [onResponse_canceled ht]
  | filled r _ ht =>
    by_cases hz : r.leavesQty = 0
    · rw [if_pos hz]
      refine .quiet (.inl ⟨.inr ?_, rfl⟩) ?_ <;> simp [onResponse_filled ht, hz]
    · rw [if_neg hz]
      refine .quiet (.inr ⟨?_, ?_⟩) fun _ => ?_
      · simp [onResponse_filled ht, hz, hlive]
      · simpa [onResponse_filled ht, hid, hprice] using fun _ => Nat.pos_of_ne_zero hz
      · simpa [onResponse_filled ht, IsFor] using hown hlive

theorem SlotPhase.settle {sized : Prop} {tickerId : ℕ} {side : Side} {reqs : List MEClientRequest} {o : OMOrder}
    {l l' l'' : LiveAlgoOrder} {volume : ℕ} {isPrint : Bool} {rs rs' : List MEClientResponse}
    (h : SlotPhase sized tickerId side reqs o l) (hmove : SlotMove l volume isPrint rs l')
    (hpump : Pumped reqs l' rs' l'') :
    SlotPhase sized tickerId side [] ((rs ++ rs').foldl OMOrder.onResponse o) l'' := by
  rw [List.foldl_append]
  cases h with
  | quiet hstep hown =>
    cases hpump
    exact hstep.move hown hmove
  | asked req htype hreq hqty hstate hown hidle =>
    obtain ⟨rfl, rfl⟩ := hmove.idle_of_leaves hidle
    cases hpump with
    | new _ hr ho hp =>
      cases hp
      refine .quiet ?_ fun _ => ?_
      · refine .inr ⟨by simp [onResponse_accepted hr], ?_⟩
        simpa [onResponse_accepted hr, ho, hreq] using hqty
      · rw [List.foldl_nil, List.foldl_cons, List.foldl_nil, onResponse_accepted hr]
        exact hown
    | cancel hne => exact absurd htype hne
  | leaving req htype hstate =>
    cases hpump with
    | new hnew => simp [hnew] at htype
    | cancel _ hr hp =>
      cases hp
      refine .quiet ?_ ?_
      · exact .inl ⟨by simp [onResponse_canceled hr], rfl⟩
      · simp [onResponse_canceled hr]

section Fits

variable {K B : Type} [Field K] [LinearOrder K] {c : TradeEngineCfg K} {m : Market K}
  {position : ℤ}

theorem asReady_of_volatility {m' : Market K} (h : m.volatility = m'.volatility) :
    MarketMaker.asReady c m = MarketMaker.asReady c m' := by
  unfold MarketMaker.asReady
  rw [h]

variable [FloorRing K]

theorem clip_pos (h : 0 < c.clip)
    (hfits : c.useAdaptiveClip → 0 < c.riskCfg.maxPosition →
      ∀ sigma ∈ MarketMaker.asReady c m, MarketMaker.scaledClip c position sigma < 2 ^ 32) :
    0 < MarketMaker.clip c m position := by
  unfold MarketMaker.clip
  cases hsigma : MarketMaker.asReady c m with
  | none => exact h
  | some sigma =>
    dsimp only
    split_ifs with hadaptive
    · have hlt := hfits hadaptive.1 hadaptive.2 sigma hsigma
      have hpos : 1 ≤ MarketMaker.scaledClip c position sigma := le_max_left _ _
      rw [Nat.mod_eq_of_lt (by omega)]
      omega
    · exact h

theorem sized_reaction {cfg : StrategyCfg K} {P : Platform K} {s : Strategy K B} {bbo : BBO}
    (h : 0 < cfg.maker.clip) (hfits : s.QuoteFits P cfg bbo position) (elapsedNs : ℤ) :
    Sized (s.reaction P cfg bbo elapsedNs position) := by
  have hready (x : K) : MarketMaker.asReady cfg.maker (s.market P cfg bbo elapsedNs x) =
      MarketMaker.asReady cfg.maker (s.market P cfg bbo 0 0) :=
    asReady_of_volatility ((s.market_touch P cfg bbo elapsedNs x).2.2.trans
      (s.market_touch P cfg bbo 0 0).2.2.symm)
  have hpos (x : K) (hbbo : ¬ (bbo.bidPrice = priceInvalid ∨ bbo.askPrice = priceInvalid))
      (hkill : s.kills P cfg bbo = false) :
      0 < MarketMaker.clip cfg.maker (s.market P cfg bbo elapsedNs x) position :=
    clip_pos h fun ha hm sigma hs => hfits (not_or.mp hbbo).1 (not_or.mp hbbo).2 hkill ha hm sigma
      (hready x ▸ hs)
  unfold Strategy.reaction
  cases hprice : s.features.mktPrice with
  | num x =>
    dsimp only
    unfold MarketMaker.onOrderBookUpdate
    obtain ⟨hbid, hask, -⟩ := s.market_touch P cfg bbo elapsedNs x
    rw [hbid, hask]
    split_ifs with hbbo hkill
    · trivial
    · trivial
    · refine hpos x hbbo ?_
      rw [Strategy.kills, hprice]
      rw [Strategy.market_at] at hkill
      exact Bool.eq_false_iff.mpr hkill
  | nonFinite fair =>
    dsimp only
    unfold MarketMaker.onNonFinite
    obtain ⟨hbid, hask, -⟩ := s.market_touch P cfg bbo elapsedNs 0
    rw [hbid, hask]
    by_cases hbbo : bbo.bidPrice = priceInvalid ∨ bbo.askPrice = priceInvalid
    · rw [if_pos hbbo]
      trivial
    rw [if_neg hbbo]
    by_cases hkill : MarketMaker.killsNonFinite cfg.maker (s.market P cfg bbo elapsedNs 0) fair
    · rw [if_pos hkill]
      trivial
    rw [if_neg hkill]
    have hclip := hpos 0 hbbo (by
      rw [Strategy.kills, hprice]
      rw [Strategy.market_at] at hkill
      exact Bool.eq_false_iff.mpr hkill)
    cases MarketMaker.asReady cfg.maker (s.market P cfg bbo elapsedNs 0) with
    | none => exact hclip
    | some sigma => exact hclip

end Fits

section Strategy

variable {sized : Prop} {K B : Type} [Field K] [LinearOrder K] [FloorRing K] {P : Platform K} {clock : ℕ → ℤ}
  {tickerId : ℕ} {cfg : StrategyCfg K} {book : BookCalls B} {live : Side → LiveAlgoOrder}
  {reqs new : List MEClientRequest} {s s' : Strategy K B}

theorem Phases.onMarketUpdate {u : MEMarketUpdate}
    (h : Phases sized tickerId s.engine.orderManager live reqs) (hclip : sized → 0 < cfg.maker.clip)
    (hfits : sized → s.ClipFits P (tickerCfg tickerId cfg) book u) (hu : u.tickerId = tickerId)
    (hs : s.onMarketUpdate P clock (tickerCfg tickerId cfg) book u = .ok (s', new)) :
    Phases sized tickerId s'.engine.orderManager live (reqs ++ new) := by
  obtain ⟨_, -, hs⟩ := bind_eq_ok.mp hs
  obtain ⟨⟨b, c⟩, hb, hs⟩ := bind_eq_ok.mp hs
  obtain rfl := book.callback hb
  subst hu
  dsimp only at hs
  split_ifs at hs with ht
  · cases hs
    rw [List.append_nil]
    exact h
  · obtain ⟨⟨engine, out⟩, hp, hs⟩ := bind_eq_ok.mp hs
    cases hs
    have hcfg : tickerCfg u.tickerId cfg u.tickerId = cfg := Function.update_self ..
    have hbook : (s.observed P book u.tickerId b).books u.tickerId = b := Function.update_self ..
    rw [hcfg] at hp
    refine h.perform (fun hsized => ?_) hp
    have hquote := hfits hsized ht b _ hb
    rw [hcfg] at hquote
    change Sized ((s.observed P book u.tickerId b).reaction P cfg
      (book.getBBO ((s.observed P book u.tickerId b).books u.tickerId)) _ _)
    rw [hbook]
    exact sized_reaction (hclip hsized) hquote _

structure Publishing (sized : Prop) (tickerId : ℕ) (e : BacktestEngine (Strategy K B)) : Prop where
  ticker : e.tickerId = tickerId
  silent : e.clientResponses = []
  phases : Phases sized tickerId e.engine.engine.orderManager (fun side => e.slot side) e.clientRequests

variable {e e' : BacktestEngine (Strategy K B)}

omit [Field K] [LinearOrder K] [FloorRing K] in
theorem Publishing.core (h : Publishing sized tickerId e) (hc : SameCore e e') :
    Publishing sized tickerId e' := by
  refine ⟨hc.slots.tickerId.trans h.ticker, hc.slots.clientResponses.trans h.silent, ?_⟩
  have hslot : (fun side => e'.slot side) = fun side => e.slot side := funext hc.slots.slot
  rw [hc.engine, hc.clientRequests, hslot]
  exact h.phases

theorem Publishing.publish (hclip : sized → 0 < cfg.maker.clip) {u : MEMarketUpdate}
    (hu : u.tickerId = e.tickerId)
    (hfits : sized → e.engine.ClipFits P (tickerCfg tickerId cfg) book u)
    (h : Publishing sized tickerId e)
    (he : e.publishMarketUpdate (strategyCalls P clock tickerId cfg book) u = .ok e') :
    Publishing sized tickerId e' := by
  obtain ⟨⟨s, new⟩, hs, he⟩ := bind_eq_ok.mp he
  cases he
  exact ⟨h.ticker, h.silent, h.phases.onMarketUpdate hclip hfits (hu.trans h.ticker) hs⟩

theorem Publishing.applyEvent (hclip : sized → 0 < cfg.maker.clip) {ev : TapeEvent}
    (hev : ev.On tickerId)
    (hfits : e.EachOf (strategyCalls P clock tickerId cfg book)
      (fun s u => sized → s.ClipFits P (tickerCfg tickerId cfg) book u) ev)
    (h : Publishing sized tickerId e)
    (he : e.applyEvent (strategyCalls P clock tickerId cfg book) ev = .ok e') :
    ∃ e₁ x, Publishing sized tickerId e₁ ∧ Matched x e₁ e' := by
  have ht := h.ticker
  exact BacktestEngine.applyEvent_induct (P := Publishing sized tickerId) (fun hc hp => hp.core hc)
    (fun hu hq hp hpub => hp.publish hclip hu hq hpub) (by rw [ht]; exact hev) hfits h he

omit [FloorRing K] in
theorem onOrderUpdate_slot {r : MEClientResponse} (hs : r.side.IsBuyOrSell)
    (h : s.onOrderUpdate (tickerCfg tickerId cfg) r = .ok s') {side : Side}
    (hside : side.IsBuyOrSell) :
    s'.engine.orderManager.slot tickerId side =
      if r.tickerId = tickerId ∧ r.side = side then
        (s.engine.orderManager.slot tickerId side).onResponse r
      else s.engine.orderManager.slot tickerId side := by
  obtain ⟨engine, he, h⟩ := bind_eq_ok.mp h
  cases h
  rw [TradeEngine.onOrderUpdate_eq he]
  by_cases hr : r.tickerId = tickerId ∧ r.side = side
  · rw [if_pos hr, ← hr.1, ← hr.2]
    exact Trading.slot_setSlot ..
  · rw [if_neg hr]
    exact slot_setSlot_of_ne hs hside fun hc => hr ⟨(Prod.mk.inj hc).1.symm, (Prod.mk.inj hc).2.symm⟩

theorem answerAll_slot {rs : List MEClientResponse} (hs : ∀ r ∈ rs, r.side.IsBuyOrSell)
    (h : BacktestEngine.answerAll (strategyCalls P clock tickerId cfg book) s rs = .ok s')
    {side : Side} (hside : side.IsBuyOrSell) :
    s'.engine.orderManager.slot tickerId side =
      (answers tickerId side rs).foldl OMOrder.onResponse
        (s.engine.orderManager.slot tickerId side) := by
  induction rs generalizing s with
  | nil =>
    cases h
    rfl
  | cons r rs ih =>
    obtain ⟨s₁, hs₁, h⟩ := bind_eq_ok.mp h
    rw [ih (fun x hx => hs x (List.mem_cons_of_mem _ hx)) h,
      onOrderUpdate_slot (hs r (List.mem_cons_self ..)) hs₁ hside]
    by_cases hr : r.tickerId = tickerId ∧ r.side = side
    · rw [if_pos hr, answers_cons_of_pos hr]
      rfl
    · rw [if_neg hr, answers_cons_of_neg hr]

theorem Publishing.settle {e₁ e₂ : BacktestEngine (Strategy K B)} {x : Entry} {nowNs : ℤ}
    (h : Publishing sized tickerId e) (hmatch : Matched x e e₁)
    (hpump : e₁.pumpClientRequests nowNs = .ok e₂)
    (hans : e₂.pumpClientResponses (strategyCalls P clock tickerId cfg book) = .ok e') :
    Publishing sized tickerId e' ∧ e'.clientRequests = [] := by
  have ht₁ : e₁.tickerId = tickerId := by
    rw [hmatch.frame]
    exact h.ticker
  have hreqs₁ : e₁.clientRequests = e.clientRequests := by rw [hmatch.frame]
  have heng₁ : e₁.engine = e.engine := by rw [hmatch.frame]
  have hresp₁ : e₁.clientResponses = x.responses := by
    rw [hmatch.frame]
    change e.clientResponses ++ x.responses = x.responses
    rw [h.silent, List.nil_append]
  obtain ⟨rs, hall⟩ := pumpRequests_pumped (fun req hreq => by
    rw [hreqs₁] at hreq
    rw [show BacktestEngine.tickerId _ = tickerId from ht₁]
    exact h.phases.mine req hreq) hpump
  obtain ⟨s, hs, hans⟩ := bind_eq_ok.mp hans
  cases hans
  have hresp₂ : e₂.clientResponses = x.responses ++ rs := by
    rw [hall.responses]
    exact congrArg (· ++ rs) hresp₁
  have hsides : ∀ r ∈ e₂.clientResponses, r.side.IsBuyOrSell := by
    intro r hr
    rw [hresp₂] at hr
    rcases List.mem_append.mp hr with hr | hr
    · exact (hmatch.mine r hr).2
    · exact (hall.mine r hr).2
  refine ⟨⟨hall.ticker.trans ht₁, rfl, ?_⟩, hall.requests⟩
  refine ⟨by rw [show e₂.clientRequests = [] from hall.requests]; exact nofun, ?_⟩
  intro side hside
  rw [show e₂.clientRequests = [] from hall.requests]
  have hphase := h.phases.phase hside
  have hmove := hmatch.slots hside
  have hpumped : Pumped (requestsOn side e₁.clientRequests) (e₁.slot side)
      (answers e₁.tickerId side rs) (e₂.slot side) := hall.slots hside
  rw [h.ticker] at hmove
  rw [ht₁, hreqs₁] at hpumped
  have hslot := answerAll_slot hsides hs hside
  rw [hresp₂, answers, List.filter_append, ← answers, ← answers, hall.engine] at hslot
  rw [show s.engine.orderManager.slot tickerId side = _ from hslot,
    show BacktestEngine.engine _ = e.engine from heng₁]
  exact hphase.settle hmove hpumped

theorem Publishing.step (hclip : sized → 0 < cfg.maker.clip) {ev : TapeEvent} (hev : ev.On tickerId)
    (hfits : e.EachOf (strategyCalls P clock tickerId cfg book)
      (fun s u => sized → s.ClipFits P (tickerCfg tickerId cfg) book u) ev)
    (h : Publishing sized tickerId e)
    (he : e.step (strategyCalls P clock tickerId cfg book) ev = .ok e') :
    Publishing sized tickerId e' ∧ e'.clientRequests = [] := by
  obtain ⟨e₁, he₁, he⟩ := bind_eq_ok.mp he
  obtain ⟨e₂, he₂, he⟩ := bind_eq_ok.mp he
  obtain ⟨e₀, x, h₀, hmatch⟩ := h.applyEvent hclip hev hfits he₁
  exact h₀.settle hmatch he₂ he

theorem Publishing.run (hclip : sized → 0 < cfg.maker.clip) {tape : List TapeEvent}
    (htape : ∀ ev ∈ tape, ev.On tickerId)
    (hfits : e.EachUpdate (strategyCalls P clock tickerId cfg book)
      (fun s u => sized → s.ClipFits P (tickerCfg tickerId cfg) book u) tape)
    (h : Publishing sized tickerId e) (hreqs : e.clientRequests = [])
    (he : e.run (strategyCalls P clock tickerId cfg book) tape = .ok e') :
    Publishing sized tickerId e' ∧ e'.clientRequests = [] := by
  induction tape generalizing e with
  | nil =>
    cases he
    exact ⟨h, hreqs⟩
  | cons ev tape ih =>
    obtain ⟨e₁, he₁, he⟩ := bind_eq_ok.mp he
    obtain ⟨h₁, hreqs₁⟩ := h.step hclip (htape ev (List.mem_cons_self ..)) hfits.1 he₁
    exact ih (fun x hx => htape x (List.mem_cons_of_mem _ hx)) (hfits.2 e₁ he₁) h₁ hreqs₁ he

omit [FloorRing K] in
theorem publishing_new (sized : Prop) (tickerId : ℕ) (cfg : StrategyCfg K) (books : ℕ → B)
    (openVwap : ℕ → ℕ → K) : Publishing sized tickerId (backtest tickerId cfg books openVwap) where
  ticker := rfl
  silent := rfl
  phases := ⟨nofun, fun _ => .quiet (.inl ⟨.inl rfl, rfl⟩) nofun⟩

end Strategy

section Reader

open LobsterReader

theorem tickerId_cancels (tickerId : ℕ) (side : Side) (oidBase : ℕ) (cur : PriceMap)
    (l : List (Σ _ : ℤ, ℕ)) : ∀ u ∈ cancels tickerId side oidBase cur l, u.tickerId = tickerId := by
  induction l with
  | nil => exact nofun
  | cons x l ih =>
    intro u hu
    simp only [cancels] at hu
    split_ifs at hu
    · exact ih u hu
    · rcases List.mem_cons.mp hu with rfl | hu
      · rfl
      · exact ih u hu

theorem tickerId_addsAndModifies (tickerId : ℕ) (side : Side) (oidBase : ℕ) (prev : PriceMap)
    (l : List (Σ _ : ℤ, ℕ)) (priority : ℕ) :
    ∀ u ∈ (addsAndModifies tickerId side oidBase prev l priority).1, u.tickerId = tickerId := by
  induction l generalizing priority with
  | nil => exact nofun
  | cons x l ih =>
    intro u hu
    simp only [addsAndModifies] at hu
    cases hx : prev.lookup x.1 with
    | none =>
      rw [hx] at hu
      rcases List.mem_cons.mp hu with rfl | hu
      · rfl
      · exact ih _ u hu
    | some q =>
      rw [hx] at hu
      dsimp only at hu
      split_ifs at hu
      · exact ih _ u hu
      · rcases List.mem_cons.mp hu with rfl | hu
        · rfl
        · exact ih _ u hu

theorem on_fillRow (r : LobsterReader) (hash : HashOrder) (row : Row)
    (h : ∀ x ∈ r.pending, (TapeEvent.update x.1 x.2).On r.tickerId) :
    ∀ x ∈ (r.fillRow hash row).pending, (TapeEvent.update x.1 x.2).On r.tickerId := by
  intro x hx
  rcases List.mem_append.mp hx with hx | hx
  · exact h x hx
  obtain ⟨u, hu, rfl⟩ := List.mem_map.mp hx
  rcases List.mem_append.mp hu with hu | hu
  · rcases List.mem_append.mp hu with hu | hu
    · unfold tradePrint at hu
      by_cases ht : row.message.type = 4 ∨ row.message.type = 5
      · rw [if_pos ht] at hu
        obtain rfl := List.mem_singleton.mp hu
        rfl
      · rw [if_neg ht] at hu
        cases hu
    · rcases List.mem_append.mp hu with hu | hu
      · exact tickerId_cancels _ _ _ _ _ u hu
      · exact tickerId_addsAndModifies _ _ _ _ _ _ u hu
  · rcases List.mem_append.mp hu with hu | hu
    · exact tickerId_cancels _ _ _ _ _ u hu
    · exact tickerId_addsAndModifies _ _ _ _ _ _ u hu

end Reader

section Small

variable {K B : Type} [Field K] [LinearOrder K] [IsStrictOrderedRing K] [FloorRing K]

theorem scaledClip_lt {c : TradeEngineCfg K} (h : 3 * c.clip + 1 < 2 ^ 33)
    (hmax : 0 < c.riskCfg.maxPosition) (position : ℤ) (sigma : K) :
    MarketMaker.scaledClip c position sigma < 2 ^ 32 := by
  have hroom : max 0 (1 - |(position : K)| / c.riskCfg.maxPosition) ≤ 1 := by
    refine max_le zero_le_one (sub_le_self 1 (div_nonneg (abs_nonneg _) ?_))
    exact_mod_cast hmax.le
  have hscale : clamp (c.sigmaRef / sigma) (1 / 2) (3 / 2) ≤ (3 / 2 : K) := by
    unfold clamp
    split_ifs <;> linarith
  have hnonneg : (0 : K) ≤ c.clip * max 0 (1 - |(position : K)| / c.riskCfg.maxPosition) :=
    mul_nonneg (Nat.cast_nonneg _) (le_max_left _ _)
  have hbound : (3 * c.clip + 1 : K) < 2 ^ 33 := by exact_mod_cast h
  refine max_lt (by norm_num) (Int.floor_lt.mpr ?_)
  calc (c.clip : K) * max 0 (1 - |(position : K)| / c.riskCfg.maxPosition) *
        clamp (c.sigmaRef / sigma) (1 / 2) (3 / 2) + 1 / 2
      ≤ c.clip * max 0 (1 - |(position : K)| / c.riskCfg.maxPosition) * (3 / 2) + 1 / 2 := by
        gcongr
    _ ≤ c.clip * 1 * (3 / 2) + 1 / 2 := by gcongr
    _ < ((2 ^ 32 : ℤ) : K) := by push_cast; linarith

/-- A clip below 2863311531 fits whatever the tape. -/
theorem eachUpdate_of_clip (P : Platform K) (clock : ℕ → ℤ) (tickerId : ℕ) {cfg : StrategyCfg K}
    (book : BookCalls B) (books : ℕ → B) (openVwap : ℕ → ℕ → K) (tape : List TapeEvent)
    (h : 3 * cfg.maker.clip + 1 < 2 ^ 33) :
    (backtest tickerId cfg books openVwap).EachUpdate (strategyCalls P clock tickerId cfg book)
      (Strategy.ClipFits P (tickerCfg tickerId cfg) book) tape := by
  refine Trace.each_of_forall fun e ev => Trace.each_of_forall fun s u => ?_
  intro _ b c _ _ _ _ _ hmax sigma _
  refine scaledClip_lt ?_ hmax _ sigma
  unfold tickerCfg
  rw [Function.update_apply]
  split_ifs
  · exact h
  · exact (by decide : 3 * 0 + 1 < 2 ^ 33)

end Small

def topOfBook : BookCalls BBO where
  onMarketUpdate := fun bbo u => .ok
    (match u.type, u.side with
      | .add, .buy => { bbo with bidPrice := u.price, bidQty := u.qty }
      | .add, .sell => { bbo with askPrice := u.price, askQty := u.qty }
      | .cancel, .buy => { bbo with bidPrice := priceInvalid, bidQty := qtyInvalid }
      | .cancel, .sell => { bbo with askPrice := priceInvalid, askQty := qtyInvalid }
      | _, _ => bbo,
    if u.type = .trade then .onTradeUpdate u else .onOrderBookUpdate u.tickerId u.price u.side)
  getBBO := id
  callback := by
    intro b u b' c h
    cases h
    rfl

def squareRoot (x : ℚ) : ℚ := (Nat.sqrt x.num.toNat : ℚ) / Nat.sqrt x.den

def exactPlatform : Platform ℚ := ⟨squareRoot, fun _ _ => 1, fun _ => 0⟩

def sampleCfg : StrategyCfg ℚ :=
  { StrategyCfg.default with
    maker := { TradeEngineCfg.default with clip := 10, riskCfg := ⟨100, 100⟩ }
    maxLoss := -1000 }

def sampleTape : List TapeEvent :=
  [.book ⟨1, 100, 5, 102, 5⟩, .book ⟨2, 100, 5, 102, 6⟩, .trade ⟨3, 100, 8, .sell⟩]

def sampleRun : Outcome (BacktestEngine (Strategy ℚ BBO)) :=
  (backtest 0 sampleCfg (fun _ => BBO.default) fun _ _ => 0).run
    (strategyCalls exactPlatform (fun _ => 0) 0 sampleCfg topOfBook) sampleTape

theorem sampleRun_leaves : (sampleRun.map fun e => (e.slot .buy).leaves) = .ok 7 := by
  decide +kernel

def oversizedCfg : StrategyCfg ℚ :=
  { sampleCfg with
    maker := { sampleCfg.maker with
      clip := 3435973837, useAs := true, useAdaptiveClip := true, sigmaRef := 5 / 4 }
    features := { FeatureCfg.default with ewmaDecay := 0, volBootstrap := 1 } }

def oversizedRun : Outcome (BacktestEngine (Strategy ℚ MarketOrderBook)) :=
  (backtest 0 oversizedCfg (MarketOrderBook.new true) fun _ _ => 0).run
    (strategyCalls exactPlatform (fun _ => 0) 0 oversizedCfg MarketOrderBook.calls)
    [.book ⟨1, 100, 5, 110, 5⟩, .book ⟨2, 101, 5, 111, 5⟩]

end Backtest
