import TradingEcosystem.Backtest.QueueSeed
import TradingEcosystem.Trading.VpinRounding

namespace Backtest

open Common Exchange Trading

section Strategy

variable {K B : Type} [Field K] [LinearOrder K] [IsStrictOrderedRing K] [FloorRing K]
  {P : Platform K} {clock : ℕ → ℤ} {tickerId : ℕ} {cfg : StrategyCfg K} {book : BookCalls B}
  {s s' : Strategy K B} {reqs : List MEClientRequest}

def VpinEnds (s : Strategy K B) (u : MEMarketUpdate) : Prop :=
  u.type = .trade → s.features.VpinEnds u

theorem vpinWhole_onMarketUpdate (h : s.features.VpinWhole) {u : MEMarketUpdate}
    (hs : s.onMarketUpdate P clock (tickerCfg tickerId cfg) book u = .ok (s', reqs)) :
    s'.features.VpinWhole := by
  obtain ⟨_, -, hs⟩ := bind_eq_ok.mp hs
  obtain ⟨⟨b, c⟩, hb, hs⟩ := bind_eq_ok.mp hs
  obtain rfl := book.callback hb
  dsimp only at hs
  split_ifs at hs with ht
  · cases hs
    exact h.onTradeUpdate u
  · obtain ⟨⟨engine, out⟩, -, hs⟩ := bind_eq_ok.mp hs
    cases hs
    exact h.onOrderBookUpdate P.sqrt _

omit [IsStrictOrderedRing K] in
theorem features_answerAll {rs : List MEClientResponse}
    (h : BacktestEngine.answerAll (strategyCalls P clock tickerId cfg book) s rs = .ok s') :
    s'.features = s.features := by
  induction rs generalizing s with
  | nil =>
    cases h
    rfl
  | cons r rs ih =>
    obtain ⟨s₁, hs₁, h⟩ := bind_eq_ok.mp h
    obtain ⟨engine, -, hs₁⟩ := bind_eq_ok.mp hs₁
    cases hs₁
    have hrest := ih h
    exact hrest

variable {e e' : BacktestEngine (Strategy K B)}

theorem vpinWhole_step {ev : TapeEvent} (hev : ev.On e.tickerId)
    (h : e.engine.features.VpinWhole)
    (he : e.step (strategyCalls P clock tickerId cfg book) ev = .ok e') :
    e'.engine.features.VpinWhole ∧ e'.tickerId = e.tickerId := by
  obtain ⟨e₁, he₁, he⟩ := bind_eq_ok.mp he
  obtain ⟨e₂, he₂, he⟩ := bind_eq_ok.mp he
  obtain ⟨e₀, x, h₀, hmatch⟩ := BacktestEngine.applyEvent_induct
    (P := fun a => a.engine.features.VpinWhole ∧ a.tickerId = e.tickerId) (Q := fun _ _ => True)
    (fun hc ha => ⟨hc.engine ▸ ha.1, hc.slots.tickerId.trans ha.2⟩)
    (fun {a a' u} _ _ ha hpub => by
      obtain ⟨⟨s, new⟩, hs, hpub⟩ := bind_eq_ok.mp hpub
      cases hpub
      exact ⟨vpinWhole_onMarketUpdate ha.1 hs, ha.2⟩)
    hev (Trace.each_of_forall fun _ _ => trivial) ⟨h, rfl⟩ he₁
  obtain ⟨htick, heng, -⟩ := pumpRequests_frame he₂
  obtain ⟨s, hs, he⟩ := bind_eq_ok.mp he
  cases he
  have heng₁ : e₁.engine = e₀.engine := by rw [hmatch.frame]
  have htick₁ : e₁.tickerId = e₀.tickerId := by rw [hmatch.frame]
  refine ⟨?_, htick.trans (htick₁.trans h₀.2)⟩
  change s.features.VpinWhole
  rw [features_answerAll hs, heng]
  change e₁.engine.features.VpinWhole
  rw [heng₁]
  exact h₀.1

theorem vpinEnds_eachOf (h : e.engine.features.VpinWhole) (ev : TapeEvent) :
    e.EachOf (strategyCalls P clock tickerId cfg book) VpinEnds ev := by
  refine Trace.each_of_invariant (I := fun s => s.features.VpinWhole) h
    (fun s u hs _ => hs.ends u) ?_
  rintro s u s' hs ⟨reqs, hu⟩
  exact vpinWhole_onMarketUpdate hs hu

theorem vpinEnds_eachUpdate {tape : List TapeEvent} (htape : ∀ ev ∈ tape, ev.On e.tickerId)
    (h : e.engine.features.VpinWhole) :
    e.EachUpdate (strategyCalls P clock tickerId cfg book) VpinEnds tape := by
  induction tape generalizing e with
  | nil => trivial
  | cons ev tape ih =>
    refine ⟨vpinEnds_eachOf h ev, fun e' he' => ?_⟩
    obtain ⟨h', htick⟩ := vpinWhole_step (htape ev (List.mem_cons_self ..)) h he'
    exact ih (fun x hx => htick ▸ htape x (List.mem_cons_of_mem _ hx)) h'

omit [FloorRing K] in
theorem vpinWhole_new (hcfg : cfg.features.VpinWhole) (books : ℕ → B) (openVwap : ℕ → ℕ → K) :
    (backtest tickerId cfg books openVwap).engine.features.VpinWhole := by
  refine FeatureCfg.VpinWhole.new ?_
  unfold tickerCfg
  rw [Function.update_apply]
  split_ifs
  · exact hcfg
  · exact FeatureCfg.vpinWhole_default

end Strategy

end Backtest
