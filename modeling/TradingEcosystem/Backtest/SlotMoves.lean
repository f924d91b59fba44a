import TradingEcosystem.Backtest.BacktestEngine

namespace Backtest

open Common Exchange Trading

/-- What happens to the algo orders in a run, with the responses published: a request taken from
`client_requests_` with the `ahead` it leaves in its slot, a call of `matchAgainstBBO`, a call of
`matchAgainstTrade`. -/
inductive Entry where
  | request (req : MEClientRequest) (ahead : ℕ)
  | touch (responses : List MEClientResponse)
  | print (ev : TradeEvent) (responses : List MEClientResponse)
  deriving DecidableEq, Repr

namespace Entry

def responses : Entry → List MEClientResponse
  | .request _ _ => []
  | .touch rs => rs
  | .print _ rs => rs

def isPrint : Entry → Bool
  | .print _ _ => true
  | _ => false

end Entry

def Reaches (side : Side) (price : ℤ) (ev : TradeEvent) : Prop :=
  ev.side = side.opposite ∧ if side = .buy then ev.price ≤ price else price ≤ ev.price

instance (side : Side) (price : ℤ) (ev : TradeEvent) : Decidable (Reaches side price ev) :=
  inferInstanceAs (Decidable (_ ∧ _))

def Entry.volume (side : Side) (price : ℤ) : Entry → ℕ
  | .print ev _ => if Reaches side price ev then ev.qty else 0
  | _ => 0

def answers (tickerId : ℕ) (side : Side) (rs : List MEClientResponse) : List MEClientResponse :=
  rs.filter fun r => decide (r.tickerId = tickerId ∧ r.side = side)

/-- Everything one matching call can do to a slot, and the response it publishes for it. -/
inductive SlotMove (o : LiveAlgoOrder) (volume : ℕ) (isPrint : Bool) :
    List MEClientResponse → LiveAlgoOrder → Prop
  | idle (h : o.leaves = 0 ∨ volume = 0) : SlotMove o volume isPrint [] o
  | burned (hleaves : 0 < o.leaves) (hvolume : volume ≤ o.ahead) :
      SlotMove o volume isPrint [] { o with ahead := o.ahead - volume }
  | withdrawn (r : MEClientResponse) (hleaves : 0 < o.leaves) (hahead : 0 < o.ahead)
      (htype : r.type = .canceled) : SlotMove o volume isPrint [r] .default
  | filled (r : MEClientResponse) (hleaves : 0 < o.leaves) (htype : r.type = .filled)
      (hexec : r.execQty ≤ o.leaves) (hqty : r.leavesQty = o.leaves - r.execQty)
      (hid : r.clientOrderId = o.orderId) (hahead : o.ahead ≤ volume)
      (hprint : isPrint = true → r.execQty ≤ volume - o.ahead) :
      SlotMove o volume isPrint [r]
        (if r.leavesQty = 0 then .default else { o with leaves := r.leavesQty, ahead := 0 })

section Matching

variable {E : Type} {e e' e'' : BacktestEngine E} {side : Side}

@[simp] theorem slot_setSlot (e : BacktestEngine E) (side : Side) (o : LiveAlgoOrder) :
    (e.setSlot side o).slot side = o :=
  if_pos ⟨rfl, rfl⟩

theorem live_setSlot {t i : ℕ} (o : LiveAlgoOrder)
    (h : ¬ (t = e.tickerId ∧ i = sideToIndex side)) : (e.setSlot side o).live t i = e.live t i :=
  if_neg h

structure SideMove (side : Side) (volume : ℕ) (isPrint : Bool) (rs : List MEClientResponse)
    (e e' : BacktestEngine E) : Prop where
  frame : e' = { e with live := e'.live, clientResponses := e.clientResponses ++ rs,
                        numFills := e'.numFills }
  own : SlotMove (e.slot side) volume isPrint rs (e'.slot side)
  others : ∀ t i, ¬ (t = e.tickerId ∧ i = sideToIndex side) → e'.live t i = e.live t i
  mine : ∀ r ∈ rs, r.tickerId = e.tickerId ∧ r.side = side

theorem SideMove.none {volume : ℕ} (isPrint : Bool)
    (h : (e.slot side).leaves = 0 ∨ volume = 0) : SideMove side volume isPrint [] e e where
  frame := by rw [List.append_nil]
  own := .idle h
  others := fun _ _ _ => rfl
  mine := nofun

theorem sideMove_fill {qty : ℕ} (price : ℤ) (isPrint : Bool)
    (hleaves : 0 < (e.slot side).leaves) (hahead : (e.slot side).ahead = 0) {volume : ℕ}
    (hqty : isPrint = true → qty ≤ volume) :
    ∃ rs, SideMove side volume isPrint rs e (e.fill side price qty) := by
  set o := e.slot side with ho
  let r : MEClientResponse := ⟨.filled, 1, e.tickerId, o.orderId, o.orderId, side, price,
    min o.leaves qty, o.leaves - min o.leaves qty⟩
  refine ⟨[r], rfl, ?_, ?_, ?_⟩
  · have hslot : (e.fill side price qty).slot side =
        if r.leavesQty = 0 then .default else { o with leaves := r.leavesQty, ahead := 0 } := by
      have heq : (e.fill side price qty).slot side =
          if r.leavesQty = 0 then .default else { o with leaves := r.leavesQty } :=
        slot_setSlot e side _
      rw [heq, ← hahead]
    rw [hslot]
    refine .filled r hleaves rfl (min_le_left _ _) rfl rfl ?_ ?_
    · rw [← ho, hahead]
      exact Nat.zero_le _
    · intro hp
      rw [← ho, hahead, Nat.sub_zero]
      exact (min_le_right _ _).trans (hqty hp)
  · exact fun t i h => live_setSlot _ h
  · intro x hx
    obtain rfl := List.mem_singleton.mp hx
    exact ⟨rfl, rfl⟩

theorem sideMove_sweep {price : ℤ} {qty : ℕ} (hleaves : 0 < (e.slot side).leaves) :
    ∃ rs, SideMove side 0 false rs e (e.sweep side price qty) := by
  unfold BacktestEngine.sweep
  split_ifs with hahead
  · refine ⟨[⟨.canceled, 1, e.tickerId, (e.slot side).orderId, (e.slot side).orderId, side,
      (e.slot side).price, 0, 0⟩], rfl, ?_, fun t i h => live_setSlot _ h, ?_⟩
    · have hslot : (e.withdraw side).slot side = .default := slot_setSlot e side _
      rw [hslot]
      exact .withdrawn _ hleaves hahead rfl
    · intro x hx
      obtain rfl := List.mem_singleton.mp hx
      exact ⟨rfl, rfl⟩
  · exact sideMove_fill price false hleaves (by omega) nofun

theorem sideMove_burn (qty : ℕ) (hleaves : 0 < (e.slot side).leaves) :
    ∃ rs, SideMove side qty true rs e (e.burn side qty) := by
  set o := e.slot side with ho
  unfold BacktestEngine.burn
  rw [← ho]
  dsimp only
  set e₁ := e.setSlot side { o with ahead := o.ahead - min o.ahead qty } with he₁
  have hslot : e₁.slot side = { o with ahead := o.ahead - min o.ahead qty } := slot_setSlot e side _
  split_ifs with hfill
  · obtain ⟨hpos, hzero⟩ := hfill
    obtain ⟨rs, hframe, hown, hothers, hmine⟩ := sideMove_fill o.price true (by rw [hslot]; exact hleaves)
      (by rw [hslot]; exact hzero) (fun _ => le_refl (qty - min o.ahead qty))
    refine ⟨rs, hframe, ?_, fun t i h => (hothers t i h).trans (live_setSlot _ h), hmine⟩
    have hmin : min o.ahead qty = o.ahead := by omega
    rw [hslot] at hown
    generalize (e₁.fill side o.price (qty - min o.ahead qty)).slot side = o' at hown ⊢
    cases hown with
    | idle h =>
      simp only at h
      omega
    | burned hl hv =>
      simp only at hv
      omega
    | withdrawn r hl ha ht =>
      simp only at ha
      omega
    | filled r hl ht hx hq hid ha hp =>
      refine .filled r hleaves ht hx hq hid ?_ ?_
      · rw [← ho]
        omega
      · intro h
        have := hp h
        simp only at this
        rw [← ho]
        omega
  · refine ⟨[], ?_, ?_, fun t i h => live_setSlot _ h, nofun⟩
    · rw [List.append_nil]
      rfl
    · rw [hslot]
      have hv : qty ≤ o.ahead := by omega
      rw [min_eq_right hv]
      exact .burned hleaves hv

structure Matched (x : Entry) (e e' : BacktestEngine E) : Prop where
  frame : e' = { e with live := e'.live, clientResponses := e.clientResponses ++ x.responses,
                        numFills := e'.numFills }
  slots : ∀ {side : Side}, side.IsBuyOrSell →
    SlotMove (e.slot side) (x.volume side (e.slot side).price) x.isPrint
      (answers e.tickerId side x.responses) (e'.slot side)
  others : ∀ t i, (∀ side : Side, side.IsBuyOrSell → ¬ (t = e.tickerId ∧ i = sideToIndex side)) →
    e'.live t i = e.live t i
  mine : ∀ r ∈ x.responses, r.tickerId = e.tickerId ∧ r.side.IsBuyOrSell

theorem answers_of_side {tickerId : ℕ} {rs : List MEClientResponse}
    (h : ∀ r ∈ rs, r.tickerId = tickerId ∧ r.side = side) : answers tickerId side rs = rs :=
  List.filter_eq_self.mpr fun r hr => decide_eq_true (h r hr)

theorem answers_of_other {tickerId : ℕ} {rs : List MEClientResponse} {other : Side}
    (hne : other ≠ side) (h : ∀ r ∈ rs, r.tickerId = tickerId ∧ r.side = other) :
    answers tickerId side rs = [] :=
  List.filter_eq_nil_iff.mpr fun r hr hc => hne ((h r hr).2 ▸ (of_decide_eq_true hc).2)

theorem SideMove.slot_other {volume : ℕ} {isPrint : Bool} {rs : List MEClientResponse}
    (h : SideMove side volume isPrint rs e e') {other : Side} (hs : side.IsBuyOrSell)
    (ho : other.IsBuyOrSell) (hne : other ≠ side) : e'.slot other = e.slot other := by
  have ht : e'.tickerId = e.tickerId := by rw [h.frame]
  rw [BacktestEngine.slot, ht]
  exact h.others _ _ fun hc => hne (sideToIndex_inj ho hs hc.2)

theorem matched_touch {bid ask : List MEClientResponse} (hb : SideMove .buy 0 false bid e e')
    (ha : SideMove .sell 0 false ask e' e'') : Matched (.touch (bid ++ ask)) e e'' := by
  have ht : e'.tickerId = e.tickerId := by rw [hb.frame]
  have hmine : ∀ r ∈ ask, r.tickerId = e.tickerId ∧ r.side = .sell := fun r hr =>
    ht ▸ ha.mine r hr
  refine ⟨?_, ?_, ?_, ?_⟩
  · rw [ha.frame, hb.frame]
    simp [Entry.responses]
  · rintro side (rfl | rfl)
    · rw [ha.slot_other (.inr rfl) (.inl rfl) (by decide)]
      have : answers e.tickerId .buy (bid ++ ask) = bid := by
        rw [answers, List.filter_append, ← answers, ← answers, answers_of_side hb.mine,
          answers_of_other (by decide) hmine, List.append_nil]
      rw [Entry.responses, this]
      exact hb.own
    · have : answers e.tickerId .sell (bid ++ ask) = ask := by
        rw [answers, List.filter_append, ← answers, ← answers, answers_of_other (by decide) hb.mine,
          answers_of_side hmine, List.nil_append]
      rw [Entry.responses, this, ← hb.slot_other (.inl rfl) (.inr rfl) (by decide)]
      exact ha.own
  · intro t i h
    rw [ha.others t i (by rw [ht]; exact h .sell (.inr rfl)), hb.others t i (h .buy (.inl rfl))]
  · intro r hr
    rcases List.mem_append.mp hr with hr | hr
    · exact ⟨(hb.mine r hr).1, .inl (hb.mine r hr).2⟩
    · exact ⟨(hmine r hr).1, .inr (hmine r hr).2⟩

theorem matched_print {ev : TradeEvent} {rs : List MEClientResponse} (hs : side.IsBuyOrSell)
    (hside : ev.side = side.opposite)
    (h : SideMove side ((Entry.print ev rs).volume side (e.slot side).price) true rs e e') :
    Matched (.print ev rs) e e' := by
  refine ⟨h.frame, ?_, fun t i hti => h.others t i (hti side hs), fun r hr =>
    ⟨(h.mine r hr).1, (h.mine r hr).2 ▸ hs⟩⟩
  intro d hd
  by_cases hds : d = side
  · subst hds
    rw [Entry.responses, answers_of_side h.mine]
    exact h.own
  · rw [Entry.responses, answers_of_other (Ne.symm hds) h.mine, h.slot_other hs hd hds]
    refine .idle (.inr (if_neg fun hr => ?_))
    have hopp : side.opposite = d.opposite := hside.symm.trans hr.1
    exact hds (by rw [← hd.opposite_opposite, ← hopp, hs.opposite_opposite])

theorem matchAgainstBBO_matched (h : e.matchAgainstBBO = .ok e') :
    ∃ rs, Matched (.touch rs) e e' := by
  obtain ⟨_, -, h⟩ := bind_eq_ok.mp h
  cases h
  have hbid : ∃ rs, SideMove .buy 0 false rs e e.matchBidAgainstBBO := by
    unfold BacktestEngine.matchBidAgainstBBO
    split_ifs with hc
    · exact sideMove_sweep hc.1
    · exact ⟨[], .none false (.inr rfl)⟩
  have hask : ∃ rs, SideMove .sell 0 false rs e.matchBidAgainstBBO
      e.matchBidAgainstBBO.matchAskAgainstBBO := by
    unfold BacktestEngine.matchAskAgainstBBO
    split_ifs with hc
    · exact sideMove_sweep hc.1
    · exact ⟨[], .none false (.inr rfl)⟩
  obtain ⟨bid, hbid⟩ := hbid
  obtain ⟨ask, hask⟩ := hask
  exact ⟨bid ++ ask, matched_touch hbid hask⟩

theorem matchAgainstTrade_matched {ev : TradeEvent} (h : e.matchAgainstTrade ev = .ok e') :
    ∃ rs, Matched (.print ev rs) e e' := by
  obtain ⟨_, -, h⟩ := bind_eq_ok.mp h
  split_ifs at h with hbuy hreach hsell hreach
  · cases h
    obtain ⟨rs, hm⟩ := sideMove_burn ev.qty hreach.1
    have hv : (Entry.print ev rs).volume .sell (e.slot .sell).price = ev.qty :=
      if_pos ⟨hbuy, hreach.2⟩
    exact ⟨rs, matched_print (.inr rfl) hbuy (by rw [hv]; exact hm)⟩
  · cases h
    refine ⟨[], matched_print (Or.inr rfl : Side.IsBuyOrSell .sell) hbuy (.none true ?_)⟩
    by_cases hl : (e.slot .sell).leaves = 0
    · exact .inl hl
    · exact .inr (if_neg fun hr => hreach ⟨Nat.pos_of_ne_zero hl, hr.2⟩)
  · cases h
    obtain ⟨rs, hm⟩ := sideMove_burn ev.qty hreach.1
    have hv : (Entry.print ev rs).volume .buy (e.slot .buy).price = ev.qty :=
      if_pos ⟨hsell, hreach.2⟩
    exact ⟨rs, matched_print (.inl rfl) hsell (by rw [hv]; exact hm)⟩
  · cases h
    refine ⟨[], matched_print (Or.inl rfl : Side.IsBuyOrSell .buy) hsell (.none true ?_)⟩
    by_cases hl : (e.slot .buy).leaves = 0
    · exact .inl hl
    · exact .inr (if_neg fun hr => hreach ⟨Nat.pos_of_ne_zero hl, hr.2⟩)
  · cases h
    refine ⟨[], ?_, ?_, fun _ _ _ => rfl, nofun⟩
    · simp [Entry.responses]
    · rintro side (rfl | rfl)
      · exact .idle (.inr (if_neg fun hr => hsell hr.1))
      · exact .idle (.inr (if_neg fun hr => hbuy hr.1))

end Matching

section Frame

variable {E : Type} {calls : EngineCalls E} {e e' e'' : BacktestEngine E}

/-- The part of the state that only the matching calls and the pumps write. -/
structure SameSlots (e e' : BacktestEngine E) : Prop where
  live : e'.live = e.live
  tickerId : e'.tickerId = e.tickerId
  clientResponses : e'.clientResponses = e.clientResponses

theorem SameSlots.refl (e : BacktestEngine E) : SameSlots e e := ⟨rfl, rfl, rfl⟩

theorem SameSlots.trans (h : SameSlots e e') (h' : SameSlots e' e'') : SameSlots e e'' :=
  ⟨h'.live.trans h.live, h'.tickerId.trans h.tickerId, h'.clientResponses.trans h.clientResponses⟩

theorem SameSlots.slot (h : SameSlots e e') (side : Side) : e'.slot side = e.slot side := by
  rw [BacktestEngine.slot, h.live, h.tickerId]
  rfl

theorem publishMarketUpdate_sameSlots {u : MEMarketUpdate}
    (h : e.publishMarketUpdate calls u = .ok e') : SameSlots e e' := by
  obtain ⟨⟨engine, reqs⟩, -, h⟩ := bind_eq_ok.mp h
  cases h
  exact ⟨rfl, rfl, rfl⟩

/-- The part of the state that an `applyBookEvent` only writes through its updates. -/
structure SameCore (e e' : BacktestEngine E) : Prop where
  slots : SameSlots e e'
  engine : e'.engine = e.engine
  clientRequests : e'.clientRequests = e.clientRequests

theorem syncBBOFromBook_sameSlots (h : e.syncBBOFromBook calls = .ok e') : SameSlots e e' := by
  obtain ⟨bbo, -, h⟩ := bind_eq_ok.mp h
  cases h
  exact ⟨rfl, rfl, rfl⟩

theorem pumpClientResponses_slots (h : e.pumpClientResponses calls = .ok e') :
    e'.live = e.live ∧ e'.tickerId = e.tickerId := by
  obtain ⟨engine, -, h⟩ := bind_eq_ok.mp h
  cases h
  exact ⟨rfl, rfl⟩

end Frame

end Backtest
