import TradingEcosystem.Backtest.Strategy
import TradingEcosystem.Trading.FairPrice

namespace Trading

open Common Exchange

def StrategyCfg.withMicro {K : Type} (cfg : StrategyCfg K) (useStoikovMicro : Bool) :
    StrategyCfg K :=
  { cfg with features := { cfg.features with useStoikovMicro := useStoikovMicro } }

def BBO.Bounded (bbo : BBO) : Prop :=
  bbo.bidPrice ≠ priceInvalid ∧ bbo.askPrice ≠ priceInvalid →
    0 < bbo.bidQty + bbo.askQty ∧ bbo.bidQty + bbo.askQty < 2 ^ 32

instance (bbo : BBO) : Decidable bbo.Bounded :=
  inferInstanceAs (Decidable (_ → _))

inductive Input where
  | market (u : MEMarketUpdate)
  | response (r : MEClientResponse)

/-- What an outsider sees of one input: the fair price after it, what the maker made of it and the
requests that left the engine. -/
structure Report (K : Type) where
  mktPrice : Quotient K
  reaction : Option Reaction
  requests : List MEClientRequest

def BoundedAlong {B : Type} (book : BookCalls B) : (ℕ → B) → List Input → Prop
  | _, [] => True
  | books, .response _ :: inputs => BoundedAlong book books inputs
  | books, .market u :: inputs => ∀ b c, book.onMarketUpdate (books u.tickerId) u = .ok (b, c) →
      (book.getBBO b).Bounded ∧
        BoundedAlong book (Function.update books u.tickerId b) inputs

theorem BoundedAlong.head {B : Type} {book : BookCalls B} {books : ℕ → B} {input : Input}
    {inputs : List Input} (h : BoundedAlong book books (input :: inputs)) :
    BoundedAlong book books [input] := by
  cases input with
  | market u => exact fun b c hb => ⟨(h b c hb).1, trivial⟩
  | response r => exact trivial

namespace Strategy

variable {K B : Type} [Field K] [LinearOrder K]

def withMicro (s : Strategy K B) (useStoikovMicro : Bool) : Strategy K B :=
  { s with features := s.features.withMicro useStoikovMicro }

variable [FloorRing K] (P : Platform K) (clock : ℕ → ℤ) (cfg : ℕ → StrategyCfg K)
  (book : BookCalls B)

def reacts (s : Strategy K B) (tickerId : ℕ) : Reaction :=
  let s := s.observe P book tickerId
  s.reaction P (cfg tickerId) (book.getBBO (s.books tickerId)) (clock s.ticks - clock 0)
    (s.engine.positions tickerId).position

def reactionTo (s : Strategy K B) (u : MEMarketUpdate) : Outcome (Option Reaction) := do
  require (u.tickerId < meMaxTickers) .outOfRange
  let (b, c) ← book.onMarketUpdate (s.books u.tickerId) u
  let s := { s with books := Function.update s.books u.tickerId b }
  match c with
  | .onTradeUpdate _ => pure none
  | .onOrderBookUpdate tickerId _ _ => pure (some (s.reacts P clock cfg book tickerId))

def step (s : Strategy K B) : Input → Outcome (Strategy K B × Report K)
  | .market u => do
      let reaction ← s.reactionTo P clock cfg book u
      let (s, reqs) ← s.onMarketUpdate P clock cfg book u
      pure (s, ⟨s.features.mktPrice, reaction, reqs⟩)
  | .response r => do
      let s ← s.onOrderUpdate cfg r
      pure (s, ⟨s.features.mktPrice, none, []⟩)

def run (s : Strategy K B) : List Input → Outcome (Strategy K B × List (Report K))
  | [] => pure (s, [])
  | input :: inputs => do
      let (s, report) ← s.step P clock cfg book input
      let (s, reports) ← s.run inputs
      pure (s, report :: reports)

end Strategy

theorem bind_map {α β γ : Type} (x : Outcome α) (f : α → Outcome β) (g : β → γ) :
    (x >>= f).map g = x >>= fun a => (f a).map g := by
  cases x <;> rfl

section TwoModes

variable {K : Type} [Field K] [LinearOrder K]

theorem FeatureEngine.updateVolatility_withMicro (f : FeatureEngine K) (sqrt : K → K) (bbo : BBO)
    (micro : Bool) : (f.withMicro micro).updateVolatility sqrt bbo =
      (f.updateVolatility sqrt bbo).withMicro micro := by
  rw [updateVolatility, updateVolatility, withMicro]
  cases f.prevMid <;> rfl

omit [LinearOrder K] in
theorem FeatureEngine.updateOfi_withMicro (f : FeatureEngine K) (bbo : BBO) (micro : Bool) :
    (f.withMicro micro).updateOfi bbo = (f.updateOfi bbo).withMicro micro := by
  have hprev : (f.withMicro micro).prevBbo = f.prevBbo := rfl
  rw [updateOfi, updateOfi]
  dsimp only
  rw [hprev]
  by_cases h : f.prevBbo.bidPrice ≠ priceInvalid ∧ f.prevBbo.askPrice ≠ priceInvalid
  · rw [if_pos h, if_pos h]
    rfl
  · rw [if_neg h, if_neg h]
    rfl

theorem FeatureEngine.onTradeUpdate_withMicro [FloorRing K] (f : FeatureEngine K)
    (u : MEMarketUpdate) (micro : Bool) : (f.withMicro micro).onTradeUpdate u =
      ((f.withMicro false).onTradeUpdate u).withMicro micro := by
  have huse (b : Bool) : (f.withMicro b).cfg.useVpin = f.cfg.useVpin := rfl
  rw [onTradeUpdate, onTradeUpdate, huse, huse]
  split_ifs <;> rfl

variable [IsStrictOrderedRing K]

theorem FeatureEngine.onOrderBookUpdate_withMicro (f : FeatureEngine K) (sqrt : K → K) {bbo : BBO}
    (h : bbo.Bounded) (micro : Bool) : (f.withMicro micro).onOrderBookUpdate sqrt bbo =
      ((f.withMicro false).onOrderBookUpdate sqrt bbo).withMicro micro := by
  rw [onOrderBookUpdate, onOrderBookUpdate]
  by_cases hv : bbo.bidPrice ≠ priceInvalid ∧ bbo.askPrice ≠ priceInvalid
  · have hprice : microPrice (f.withMicro micro).cfg bbo = microPrice (f.withMicro false).cfg bbo := by
      cases micro with
      | false => rfl
      | true => exact microPrice_modes_agree f.cfg (h hv).1 (h hv).2
    rw [if_pos hv, if_pos hv, hprice]
    generalize microPrice (f.withMicro false).cfg bbo = price
    rw [← updateOfi_withMicro, ← updateVolatility_withMicro]
    rfl
  · rw [if_neg hv, if_neg hv]
    rfl

namespace Strategy

variable {B : Type} {P : Platform K} {clock : ℕ → ℤ} {cfg : ℕ → StrategyCfg K}
  {book : BookCalls B} {s : Strategy K B} {micro : Bool}

theorem observe_withMicro (s : Strategy K B) {tickerId : ℕ}
    (h : (book.getBBO (s.books tickerId)).Bounded) (micro : Bool) :
    (s.withMicro micro).observe P book tickerId =
      ((s.withMicro false).observe P book tickerId).withMicro micro := by
  have hf := s.features.onOrderBookUpdate_withMicro P.sqrt h micro
  exact congrArg (fun f => ({ (s.withMicro false).observe P book tickerId with features := f } :
    Strategy K B)) hf

variable [FloorRing K]

theorem reacts_withMicro (s : Strategy K B) {tickerId : ℕ}
    (h : (book.getBBO (s.books tickerId)).Bounded) (micro : Bool) :
    (s.withMicro micro).reacts P clock cfg book tickerId =
      (s.withMicro false).reacts P clock cfg book tickerId := by
  rw [reacts, observe_withMicro s h, reacts]
  rfl

theorem onOrderBookUpdate_withMicro (s : Strategy K B) {tickerId : ℕ}
    (h : (book.getBBO (s.books tickerId)).Bounded) (micro : Bool) :
    (s.withMicro micro).onOrderBookUpdate P clock cfg book tickerId =
      ((s.withMicro false).onOrderBookUpdate P clock cfg book tickerId).map
        (Prod.map (·.withMicro micro) id) := by
  rw [onOrderBookUpdate, observe_withMicro s h, onOrderBookUpdate]
  generalize (s.withMicro false).observe P book tickerId = t
  rw [bind_map]
  rfl

theorem onMarketUpdate_withMicro (s : Strategy K B) {u : MEMarketUpdate}
    (h : ∀ b c, book.onMarketUpdate (s.books u.tickerId) u = .ok (b, c) →
      (book.getBBO b).Bounded) (micro : Bool) :
    (s.withMicro micro).onMarketUpdate P clock cfg book u =
      ((s.withMicro false).onMarketUpdate P clock cfg book u).map
        (Prod.map (·.withMicro micro) id) := by
  rw [onMarketUpdate, onMarketUpdate]
  cases require (u.tickerId < meMaxTickers) .outOfRange with
  | error e => rfl
  | ok _ =>
    change (book.onMarketUpdate (s.books u.tickerId) u >>= _) =
      Except.map _ (book.onMarketUpdate (s.books u.tickerId) u >>= _)
    cases hb : book.onMarketUpdate (s.books u.tickerId) u with
    | error e => rfl
    | ok r =>
      obtain ⟨b, c⟩ := r
      rw [book.callback hb]
      by_cases ht : u.type = .trade
      · rw [if_pos ht]
        exact congrArg (fun f => (.ok ({ s with
          books := Function.update s.books u.tickerId b, features := f }, []) :
          Outcome (Strategy K B × List MEClientRequest))) (s.features.onTradeUpdate_withMicro u micro)
      · rw [if_neg ht]
        have hbbo : (book.getBBO (Function.update s.books u.tickerId b u.tickerId)).Bounded := by
          rw [Function.update_self]
          exact h b c hb
        exact onOrderBookUpdate_withMicro { s with books := Function.update s.books u.tickerId b }
          hbbo micro

theorem reactionTo_withMicro (s : Strategy K B) {u : MEMarketUpdate}
    (h : ∀ b c, book.onMarketUpdate (s.books u.tickerId) u = .ok (b, c) →
      (book.getBBO b).Bounded) (micro : Bool) :
    (s.withMicro micro).reactionTo P clock cfg book u =
      (s.withMicro false).reactionTo P clock cfg book u := by
  rw [reactionTo, reactionTo]
  cases require (u.tickerId < meMaxTickers) .outOfRange with
  | error e => rfl
  | ok _ =>
    change (book.onMarketUpdate (s.books u.tickerId) u >>= _) =
      (book.onMarketUpdate (s.books u.tickerId) u >>= _)
    cases hb : book.onMarketUpdate (s.books u.tickerId) u with
    | error e => rfl
    | ok r =>
      obtain ⟨b, c⟩ := r
      rw [book.callback hb]
      by_cases ht : u.type = .trade
      · rw [if_pos ht]
        rfl
      · rw [if_neg ht]
        have hbbo : (book.getBBO (Function.update s.books u.tickerId b u.tickerId)).Bounded := by
          rw [Function.update_self]
          exact h b c hb
        exact congrArg (fun r => (.ok (some r) : Outcome (Option Reaction)))
          (reacts_withMicro { s with books := Function.update s.books u.tickerId b } hbbo micro)

omit [IsStrictOrderedRing K] [FloorRing K] in
theorem onOrderUpdate_withMicro (s : Strategy K B) (r : MEClientResponse) (micro : Bool) :
    (s.withMicro micro).onOrderUpdate cfg r =
      ((s.withMicro false).onOrderUpdate cfg r).map (·.withMicro micro) := by
  rw [onOrderUpdate, onOrderUpdate, bind_map]
  rfl

theorem step_withMicro (s : Strategy K B) (input : Input)
    (h : BoundedAlong book s.books [input]) (micro : Bool) :
    (s.withMicro micro).step P clock cfg book input =
      ((s.withMicro false).step P clock cfg book input).map (Prod.map (·.withMicro micro) id) := by
  cases input with
  | market u =>
    have hu : ∀ b c, book.onMarketUpdate (s.books u.tickerId) u = .ok (b, c) →
        (book.getBBO b).Bounded := fun b c hb => (h b c hb).1
    rw [step, step, reactionTo_withMicro s hu, onMarketUpdate_withMicro s hu, bind_map]
    cases (s.withMicro false).reactionTo P clock cfg book u with
    | error e => rfl
    | ok reaction =>
      cases (s.withMicro false).onMarketUpdate P clock cfg book u with
      | error e => rfl
      | ok r => rfl
  | response r =>
    rw [step, step, onOrderUpdate_withMicro]
    cases (s.withMicro false).onOrderUpdate cfg r with
    | error e => rfl
    | ok t => rfl

omit [IsStrictOrderedRing K] in
theorem books_onMarketUpdate {u : MEMarketUpdate} {t : Strategy K B} {reqs : List MEClientRequest}
    (h : s.onMarketUpdate P clock cfg book u = .ok (t, reqs)) :
    ∃ b c, book.onMarketUpdate (s.books u.tickerId) u = .ok (b, c) ∧
      t.books = Function.update s.books u.tickerId b := by
  obtain ⟨_, -, h⟩ := bind_eq_ok.mp h
  obtain ⟨⟨b, c⟩, hb, h⟩ := bind_eq_ok.mp h
  refine ⟨b, c, hb, ?_⟩
  cases c with
  | onTradeUpdate u =>
    cases h
    rfl
  | onOrderBookUpdate tickerId price side =>
    obtain ⟨_, -, h⟩ := bind_eq_ok.mp h
    cases h
    rfl

omit [IsStrictOrderedRing K] in
theorem boundedAlong_tail {input : Input} {inputs : List Input} {t : Strategy K B}
    {report : Report K} (hb : BoundedAlong book s.books (input :: inputs))
    (h : s.step P clock cfg book input = .ok (t, report)) : BoundedAlong book t.books inputs := by
  cases input with
  | market u =>
    obtain ⟨_, -, h⟩ := bind_eq_ok.mp h
    obtain ⟨⟨t', reqs⟩, hu, h⟩ := bind_eq_ok.mp h
    cases h
    obtain ⟨b, c, hbc, ht⟩ := books_onMarketUpdate hu
    rw [ht]
    exact (hb b c hbc).2
  | response r =>
    obtain ⟨t', hr, h⟩ := bind_eq_ok.mp h
    cases h
    obtain ⟨_, -, hr⟩ := bind_eq_ok.mp hr
    cases hr
    exact hb

theorem run_withMicro (s : Strategy K B) (inputs : List Input)
    (h : BoundedAlong book s.books inputs) (micro : Bool) :
    (s.withMicro micro).run P clock cfg book inputs =
      ((s.withMicro false).run P clock cfg book inputs).map (Prod.map (·.withMicro micro) id) := by
  induction inputs generalizing s with
  | nil => rfl
  | cons input inputs ih =>
    have hstep (b : Bool) : (s.withMicro b).step P clock cfg book input =
        ((s.withMicro false).step P clock cfg book input).map (Prod.map (·.withMicro b) id) :=
      step_withMicro s input h.head b
    rw [run, run, hstep micro]
    cases hs : (s.withMicro false).step P clock cfg book input with
    | error e => rfl
    | ok r =>
      obtain ⟨t, report⟩ := r
      -- the flag stays off along the second run
      have hself := hstep false
      rw [hs] at hself
      have ht : t = t.withMicro false := congrArg Prod.fst (Except.ok.inj hself)
      have htail : BoundedAlong book t.books inputs := boundedAlong_tail (s := s.withMicro false) h hs
      change ((t.withMicro micro).run P clock cfg book inputs >>= _) =
        Except.map _ (t.run P clock cfg book inputs >>= _)
      rw [ih t htail, ← ht]
      cases t.run P clock cfg book inputs with
      | error e => rfl
      | ok r => rfl

omit [IsStrictOrderedRing K] in
theorem run_cfg (s : Strategy K B) (inputs : List Input) (micro : Bool) :
    s.run P clock (fun t => (cfg t).withMicro micro) book inputs =
      s.run P clock cfg book inputs := by
  induction inputs generalizing s with
  | nil => rfl
  | cons input inputs ih =>
    have hstep : s.step P clock (fun t => (cfg t).withMicro micro) book input =
        s.step P clock cfg book input := by cases input <;> rfl
    rw [run, run, hstep]
    cases s.step P clock cfg book input with
    | error e => rfl
    | ok r =>
      obtain ⟨t, report⟩ := r
      rw [ok_bind, ok_bind]
      dsimp only
      rw [ih t]

end Strategy

theorem micro_modes_coincide {B : Type} [FloorRing K] (P : Platform K) (clock : ℕ → ℤ)
    (cfg : ℕ → StrategyCfg K) (book : BookCalls B) (engine : TradeEngine) (pnl : ℕ → Pnl K)
    (books : ℕ → B) (ticks : ℕ) {inputs : List Input} (h : BoundedAlong book books inputs) :
    let on (micro : Bool) : Outcome (Strategy K B × List (Report K)) :=
      Strategy.run P clock (fun t => (cfg t).withMicro micro) book
        ⟨engine, pnl, FeatureEngine.new ((cfg 0).withMicro micro).features, books, ticks⟩ inputs
    on true = (on false).map (Prod.map (·.withMicro true) id) := by
  intro on
  simp only [on, Strategy.run_cfg]
  exact Strategy.run_withMicro ⟨engine, pnl, FeatureEngine.new (cfg 0).features, books, ticks⟩
    inputs h true

end TwoModes

theorem Mirrors.boundedAlong {books : ℕ → MarketOrderBook} {tickerId : ℕ}
    {s : Ladders MarketOrder} {us : List MEMarketUpdate} (h : Mirrors (books tickerId) s)
    (ht : ∀ u ∈ us, u.tickerId = tickerId) (happ : ApplicableAll s us)
    (hb : ∀ pre ∈ us.inits, (bboOf (applyAll s pre)).Bounded) :
    BoundedAlong MarketOrderBook.calls books (us.map .market) := by
  induction us generalizing books s with
  | nil => exact trivial
  | cons u us ih =>
    intro b c hbc
    obtain rfl := ht u List.mem_cons_self
    obtain ⟨m', c', hstep, hm⟩ := h.step happ.1
    obtain ⟨rfl, rfl⟩ := Prod.ext_iff.mp (Except.ok.inj (hbc.symm.trans hstep))
    have htail : ∀ pre ∈ us.inits, (bboOf (applyAll (applyUpdate s u) pre)).Bounded := by
      intro pre hpre
      refine hb (u :: pre) ?_
      rw [List.inits_cons]
      exact List.mem_cons_of_mem _ (List.mem_map_of_mem hpre)
    refine ⟨?_, ih ?_ (fun v hv => ht v (List.mem_cons_of_mem u hv)) happ.2 htail⟩
    · have hfirst := htail [] (by simp)
      change b.bbo.Bounded
      rw [hm.bbo]
      exact hfirst
    · rw [Function.update_self]
      exact hm

theorem micro_modes_coincide_sample :
    let on (micro : Bool) : Outcome (Strategy ℚ MarketOrderBook × List (Report ℚ)) :=
      Strategy.run ⟨id, fun _ _ => 1, fun _ => 0⟩ (fun _ => 0)
        (fun _ => (StrategyCfg.default.withMicro micro)) MarketOrderBook.calls
        ⟨TradeEngine.new 1 (fun _ => ⟨0, 0⟩) fun _ => 0, fun _ => Pnl.new fun _ => 0,
          FeatureEngine.new (StrategyCfg.default.withMicro micro).features,
          MarketOrderBook.new true, 0⟩ ((touching 30 10).map .market)
    on true = (on false).map (Prod.map (·.withMicro true) id) :=
  micro_modes_coincide _ _ (fun _ => StrategyCfg.default) _ _ _ _ _
    ((mirrors_new true 0).boundedAlong (by decide) (by decide +kernel) (by decide +kernel))

end Trading
