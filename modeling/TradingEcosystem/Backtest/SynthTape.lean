import Mathlib.Analysis.Complex.ExponentialBounds
import TradingEcosystem.Backtest.TapeReader
import TradingEcosystem.Library.Unfold

namespace Backtest

open Common Exchange Trading

namespace Synth

variable {s s' : Synth} {dtNs : ℚ → ℤ}

structure Draws (s s' : Synth) : Prop where
  seed : s.seed ≠ 0 → s'.seed ≠ 0
  mid : s'.mid = s.mid
  ns : s'.ns = s.ns

theorem Draws.trans {s'' : Synth} (h : Draws s s') (h' : Draws s' s'') : Draws s s'' :=
  ⟨fun hs => h'.seed (h.seed hs), h'.mid.trans h.mid, h'.ns.trans h.ns⟩

theorem draws_rng (s : Synth) : Draws s s.rng.2 where
  seed h hc := h ((Xorshift.step_eq_zero (by decide) (by decide) (by decide)).mp hc)
  mid := rfl
  ns := rfl

theorem draws_uniform (s : Synth) : Draws s s.uniform.2 := draws_rng s

theorem uniform_lt_one (s : Synth) : s.uniform.1 < 1 := by
  change (((s.rng.1 >>> 11).toNat : ℚ) / 2 ^ 53) < 1
  have hlt : (s.rng.1 >>> 11).toNat < 2 ^ 53 := by
    rw [BitVec.toNat_ushiftRight, Nat.shiftRight_eq_div_pow]
    have := s.rng.1.isLt
    omega
  rw [div_lt_one (by positivity)]
  exact_mod_cast hlt

def InBand (mid : ℤ) : Prop := kAnchor - kBandHalf ≤ mid ∧ mid ≤ kAnchor + kBandHalf

structure Sound (s : Synth) : Prop where
  seed : s.seed ≠ 0
  band : InBand s.mid
  ns : 0 ≤ s.ns

theorem sound_new : Sound new := ⟨by decide, ⟨by decide, by decide⟩, le_refl _⟩

theorem jump_keeps (p : ℚ) (ticks : ℤ) (s : Synth) :
    ((jump p ticks s).ns = s.ns) ∧ (s.seed ≠ 0 → (jump p ticks s).seed ≠ 0) := by
  have h₁ := draws_uniform s
  have h₂ := h₁.trans (draws_uniform s.uniform.2)
  unfold jump
  dsimp only
  split_ifs
  · exact ⟨h₂.ns, h₂.seed⟩
  · exact ⟨h₂.ns, h₂.seed⟩
  · exact ⟨h₁.ns, h₁.seed⟩

theorem pull_keeps (s : Synth) : s.pull.ns = s.ns ∧ s.pull.seed = s.seed := ⟨rfl, rfl⟩

theorem clamp_keeps (s : Synth) :
    InBand s.clamp.mid ∧ s.clamp.ns = s.ns ∧ s.clamp.seed = s.seed := by
  have hwidth : kAnchor - kBandHalf ≤ kAnchor + kBandHalf := by decide
  unfold clamp InBand
  by_cases hlow : s.mid < kAnchor - kBandHalf
  · simp only [if_pos hlow, if_neg hwidth.not_gt]
    exact ⟨⟨le_refl _, hwidth⟩, trivial, trivial⟩
  · simp only [if_neg hlow]
    split_ifs with hhigh
    · exact ⟨⟨hwidth, le_refl _⟩, rfl, rfl⟩
    · exact ⟨⟨not_lt.mp hlow, not_lt.mp hhigh⟩, rfl, rfl⟩

theorem walk_keeps (s : Synth) :
    InBand s.walk.mid ∧ s.walk.ns = s.ns ∧ (s.seed ≠ 0 → s.walk.seed ≠ 0) := by
  rw [walk]
  generalize hs₁ : jump (11 / 20) 1 s = s₁
  obtain ⟨hns₁, hseed₁⟩ := hs₁ ▸ jump_keeps (11 / 20) 1 s
  generalize hs₂ : jump (1 / 500) 5 s₁ = s₂
  obtain ⟨hns₂, hseed₂⟩ := hs₂ ▸ jump_keeps (1 / 500) 5 s₁
  obtain ⟨hns₃, hseed₃⟩ := pull_keeps s₂
  obtain ⟨hband, hns, hseed⟩ := clamp_keeps s₂.pull
  refine ⟨hband, hns.trans (hns₃.trans (hns₂.trans hns₁)), fun h => ?_⟩
  rw [hseed, hseed₃]
  exact hseed₂ (hseed₁ h)

def Around (mid : ℤ) : TapeEvent → Prop
  | .book ev => ev.bidPrice = mid - 1 ∧ ev.askPrice = mid + 1 ∧
      (1 ≤ ev.bidQty ∧ ev.bidQty ≤ 3) ∧ 1 ≤ ev.askQty ∧ ev.askQty ≤ 3
  | .trade ev => ev.price = mid + sideToValue ev.side ∧ ev.side.IsBuyOrSell ∧ 1 ≤ ev.qty ∧ ev.qty ≤ 4
  | .update _ _ => False

theorem toNat_umod_le (x : BitVec 64) {n : ℕ} (hn : 0 < n) (hlt : n < 2 ^ 64) :
    1 ≤ 1 + (x % BitVec.ofNat 64 n).toNat ∧ 1 + (x % BitVec.ofNat 64 n).toNat ≤ n := by
  rw [BitVec.toNat_umod, BitVec.toNat_ofNat, Nat.mod_eq_of_lt hlt]
  have := Nat.mod_lt x.toNat hn
  omega

theorem trade_spec (s : Synth) :
    Around s.mid (.trade s.trade.1) ∧ s.trade.1.eventNs = s.ns ∧ Draws s s.trade.2 := by
  have h₁ := draws_uniform s
  have hside : s.uniform.2.mid = s.mid ∧ s.uniform.2.ns = s.ns := ⟨h₁.mid, h₁.ns⟩
  unfold trade
  dsimp only
  generalize s.uniform.1 = u at *
  generalize s.uniform.2 = s₁ at *
  have hwhich : (if u < 1 / 2 then Side.buy else .sell).IsBuyOrSell := by
    split_ifs
    · exact .inl rfl
    · exact .inr rfl
  generalize (if u < 1 / 2 then Side.buy else .sell) = side at *
  refine ⟨⟨?_, hwhich, toNat_umod_le _ (n := 4) (by decide) (by decide)⟩, hside.2,
    h₁.trans (draws_rng s₁)⟩
  rw [← hside.1]
  rcases hwhich with rfl | rfl <;> rfl

theorem book_spec (s : Synth) :
    Around s.mid (.book s.book.1) ∧ s.book.1.eventNs = s.ns ∧ Draws s s.book.2 :=
  ⟨⟨rfl, rfl, toNat_umod_le _ (n := 3) (by decide) (by decide),
    toNat_umod_le _ (n := 3) (by decide) (by decide)⟩, rfl,
    (draws_rng s).trans (draws_rng s.rng.2)⟩

theorem emit_spec (s : Synth) :
    Around s.mid s.emit.1 ∧ s.emit.1.nowNs = s.ns ∧ Draws s s.emit.2 := by
  have h := draws_uniform s
  unfold emit
  dsimp only
  rw [← h.mid, ← h.ns]
  split_ifs
  · obtain ⟨haround, hns, hdraws⟩ := trade_spec s.uniform.2
    exact ⟨haround, hns, h.trans hdraws⟩
  · obtain ⟨haround, hns, hdraws⟩ := book_spec s.uniform.2
    exact ⟨haround, hns, h.trans hdraws⟩

theorem arrive_keeps (dtNs : ℚ → ℤ) (s : Synth) :
    (s.arrive dtNs).ns = s.ns + dtNs (max (1 / 10 ^ 9) s.uniform.1) ∧
      (s.seed ≠ 0 → (s.arrive dtNs).seed ≠ 0) :=
  ⟨rfl, (draws_uniform s).seed⟩

structure Emits (s : Synth) (ev : TapeEvent) (s' : Synth) : Prop where
  around : Around s'.mid ev
  nowNs : ev.nowNs = s'.ns
  later : s.ns ≤ s'.ns
  soon : s'.ns < s.ns + 2 ^ 40

variable (hdt : ∀ u, 1 / 10 ^ 9 ≤ u → u < 1 → 0 ≤ dtNs u ∧ dtNs u < 2 ^ 40)

include hdt

theorem next_spec (h : Sound s) :
    Sound (s.next dtNs).2 ∧ Emits s (s.next dtNs).1 (s.next dtNs).2 := by
  have hu : (1 : ℚ) / 10 ^ 9 < 1 := by norm_num
  obtain ⟨hnonneg, hlt⟩ := hdt _ (le_max_left _ s.uniform.1) (max_lt hu s.uniform_lt_one)
  rw [next]
  obtain ⟨hns₁, hseed₁⟩ := arrive_keeps dtNs s
  generalize dtNs (max (1 / 10 ^ 9) s.uniform.1) = d at *
  generalize s.arrive dtNs = s₁ at *
  obtain ⟨hband, hns₂, hseed₂⟩ := walk_keeps s₁
  generalize s₁.walk = s₂ at *
  obtain ⟨haround, hnow, hdraws⟩ := emit_spec s₂
  have hnext := h.ns
  have hat : s₂.emit.2.ns = s.ns + d := hdraws.ns.trans (hns₂.trans hns₁)
  refine ⟨⟨hdraws.seed (hseed₂ (hseed₁ h.seed)), ?_, ?_⟩, ?_, hnow.trans hdraws.ns.symm, ?_, ?_⟩
  · rw [hdraws.mid]
    exact hband
  · rw [hat]
    omega
  · rw [hdraws.mid]
    exact haround
  · rw [hat]
    omega
  · rw [hat]
    omega

def after (dtNs : ℚ → ℤ) (n : ℕ) : Synth := Unfold.after (next dtNs) new n

def event (dtNs : ℚ → ℤ) (n : ℕ) : TapeEvent := Unfold.item (next dtNs) new n

omit hdt in
theorem next_after (dtNs : ℚ → ℤ) (n : ℕ) :
    (after dtNs n).next dtNs = (event dtNs n, after dtNs (n + 1)) := by
  unfold after event
  exact Unfold.step_after (next dtNs) new n

theorem after_spec (n : ℕ) :
    Sound (after dtNs n) ∧ Emits (after dtNs n) (event dtNs n) (after dtNs (n + 1)) := by
  unfold after event
  exact Unfold.invariant (next dtNs) new Sound Emits sound_new (fun _ h => next_spec hdt h) n

theorem monotone_ns : Monotone fun n => (after dtNs n).ns :=
  monotone_nat_of_le_succ fun n => (after_spec hdt n).2.later

theorem ns_after_le (n : ℕ) : (after dtNs n).ns ≤ n * 2 ^ 40 := by
  induction n with
  | zero =>
    have hzero : (after dtNs 0).ns = 0 := rfl
    rw [hzero, Nat.cast_zero, zero_mul]
  | succ n ih =>
    have := (after_spec hdt n).2.soon
    push_cast
    omega

end Synth

def TapeReaderCfg.synthLength (cfg : TapeReaderCfg) : ℕ :=
  if cfg.maxEvents = 0 then 200000 else min cfg.maxEvents 200000

theorem synthLength_le (cfg : TapeReaderCfg) : cfg.synthLength ≤ 200000 := by
  unfold TapeReaderCfg.synthLength
  split_ifs
  · exact le_refl _
  · exact min_le_right _ _

namespace TapeReader

variable {r : TapeReader} {dtNs : ℚ → ℤ}

theorem next_synth (hf : r.cfg.format = .synth) (heof : r.eof = false)
    (h : r.count < r.cfg.synthLength) :
    r.next dtNs = .ok (some (r.synth.next dtNs).1,
      { r with synth := (r.synth.next dtNs).2, count := r.count + 1 }) := by
  have hle := synthLength_le r.cfg
  have hmax : ¬ (r.cfg.maxEvents ≠ 0 ∧ r.cfg.maxEvents ≤ r.count) := by
    rintro ⟨hne, hmax⟩
    rw [TapeReaderCfg.synthLength, if_neg hne] at h
    exact absurd (h.trans_le (min_le_left _ _)) hmax.not_gt
  rw [next, heof, if_neg (by decide), if_neg hmax, nextOf, hf]
  dsimp only
  rw [nextSynth, if_neg (by omega)]
  obtain ⟨ev, synth⟩ := r.synth.next dtNs
  rw [pure_ok, ok_bind, heof]
  rfl

theorem next_synth_end (dtNs : ℚ → ℤ) (hf : r.cfg.format = .synth) (h : r.count = r.cfg.synthLength) :
    ∃ r', r.next dtNs = .ok (none, r') := by
  unfold next
  split_ifs with heof hmax
  · exact ⟨r, rfl⟩
  · exact ⟨_, rfl⟩
  · have hfull : 200000 ≤ r.count := by
      rw [h, TapeReaderCfg.synthLength]
      split_ifs with hzero
      · exact le_refl _
      · refine le_min ?_ (le_refl _)
        have hlt : r.count < r.cfg.maxEvents := not_le.mp fun hle => hmax ⟨hzero, hle⟩
        rw [h, TapeReaderCfg.synthLength, if_neg hzero] at hlt
        omega
    rw [nextOf, hf]
    dsimp only
    rw [nextSynth, if_pos hfull]
    exact ⟨_, rfl⟩

theorem drain_synth {n fuel : ℕ} (hf : r.cfg.format = .synth) (heof : r.eof = false)
    (hs : r.synth = .after dtNs r.count) (hn : r.count + n = r.cfg.synthLength) (hfuel : n < fuel) :
    r.drain dtNs fuel = .ok ((List.range' r.count n).map (Synth.event dtNs)) := by
  induction n generalizing r fuel with
  | zero =>
    obtain ⟨fuel, rfl⟩ := Nat.exists_eq_add_of_lt hfuel
    obtain ⟨r', hnext⟩ := next_synth_end dtNs hf hn
    rw [Nat.zero_add, drain, hnext]
    rfl
  | succ n ih =>
    obtain ⟨fuel, rfl⟩ := Nat.exists_eq_add_of_lt hfuel
    rw [drain, next_synth hf heof (by omega), ok_bind, hs, Synth.next_after]
    dsimp only
    rw [ih (r := { r with synth := Synth.after dtNs (r.count + 1), count := r.count + 1 }) hf heof
      rfl (by dsimp only; omega) (by omega), ok_bind, List.range'_succ, List.map_cons, pure_ok]

theorem drain_new (dtNs : ℚ → ℤ) {cfg : TapeReaderCfg} (hf : cfg.format = .synth) (file : List Char) {fuel : ℕ}
    (hfuel : cfg.synthLength < fuel) : (TapeReader.new cfg file).drain dtNs fuel =
      .ok ((List.range cfg.synthLength).map (Synth.event dtNs)) := by
  rw [List.range_eq_range']
  exact drain_synth (r := .new cfg file) hf rfl rfl (Nat.zero_add _) hfuel

end TapeReader

def TapeEvent.prices : TapeEvent → List ℤ
  | .book ev => [ev.bidPrice, ev.askPrice]
  | .trade ev => [ev.price]
  | .update _ u => [u.price]

theorem Synth.Around.prices {mid : ℤ} {ev : TapeEvent} (h : Around mid ev) (hm : InBand mid) :
    ∀ p ∈ ev.prices, |p - kAnchor| ≤ kBandHalf + 1 := by
  have ha : kAnchor = 100000 := rfl
  have hb : kBandHalf = 100 := rfl
  unfold InBand at hm
  cases ev with
  | book ev =>
    obtain ⟨hbid, hask, -⟩ := h
    intro p hp
    rw [abs_le]
    rcases List.mem_pair.mp hp with rfl | rfl <;> omega
  | trade ev =>
    obtain ⟨hprice, hside, -⟩ := h
    intro p hp
    obtain rfl := List.mem_singleton.mp hp
    rw [hprice, abs_le]
    rcases hside with hs | hs <;> rw [hs] <;> simp only [sideToValue] <;> omega
  | update _ u => exact h.elim

theorem synth_tape_sound (dtNs : ℚ → ℤ)
    (hdt : ∀ u, 1 / 10 ^ 9 ≤ u → u < 1 → 0 ≤ dtNs u ∧ dtNs u < 2 ^ 40) (cfg : TapeReaderCfg)
    (hf : cfg.format = .synth) (file : List Char) {fuel : ℕ} (hfuel : cfg.synthLength < fuel) :
    (TapeReader.new cfg file).drain dtNs fuel =
        .ok ((List.range cfg.synthLength).map (Synth.event dtNs)) ∧
      (Monotone fun n => (Synth.event dtNs n).nowNs) ∧
      ∀ n, (Synth.after dtNs n).Sound ∧
        Synth.Around (Synth.after dtNs (n + 1)).mid (Synth.event dtNs n) ∧
        (∀ p ∈ (Synth.event dtNs n).prices, PriceInRange p ∧ |p - kAnchor| ≤ kBandHalf + 1) ∧
        0 ≤ (Synth.event dtNs n).nowNs ∧
        (n < cfg.synthLength → (Synth.event dtNs n).nowNs < 2 ^ 63) := by
  refine ⟨TapeReader.drain_new dtNs hf file hfuel, fun m n hmn => ?_, fun n => ?_⟩
  · simp only [(Synth.after_spec hdt _).2.nowNs]
    exact Synth.monotone_ns hdt (Nat.add_le_add_right hmn 1)
  have hsound := (Synth.after_spec hdt (n + 1)).1
  obtain ⟨hprev, haround, hnow, -, -⟩ := Synth.after_spec hdt n
  refine ⟨hprev, haround, fun p hp => ?_, ?_, fun hn => ?_⟩
  · have hband := haround.prices hsound.band p hp
    refine ⟨?_, hband⟩
    have ha : kAnchor = 100000 := rfl
    have hb : kBandHalf = 100 := rfl
    have hN : (meMaxPriceLevels : ℤ) = 131072 := rfl
    rw [ha, hb, abs_le] at hband
    unfold PriceInRange
    omega
  · rw [hnow]
    exact hsound.ns
  · rw [hnow]
    have hle := Synth.ns_after_le hdt (n + 1)
    have hlt := hn.trans_le (synthLength_le cfg)
    push_cast at hle
    omega

section Log

/-- The waiting time the source computes, over the reals. -/
noncomputable def logNs (u : ℚ) : ℤ := ⌊-Real.log u * 50000⌋

theorem logNs_bounds (u : ℚ) (hlow : 1 / 10 ^ 9 ≤ u) (hhigh : u < 1) :
    0 ≤ logNs u ∧ logNs u < 2 ^ 40 := by
  have hpos : (0 : ℝ) < u := by
    have : (0 : ℚ) < u := lt_of_lt_of_le (by norm_num) hlow
    exact_mod_cast this
  have hneg : Real.log u ≤ 0 := Real.log_nonpos hpos.le (by exact_mod_cast hhigh.le)
  have hten : Real.log 10 < 3 := by
    rw [Real.log_lt_iff_lt_exp (by norm_num)]
    have he : (2.7 : ℝ) < Real.exp 1 := lt_trans (by norm_num) Real.exp_one_gt_d9
    have hcube : Real.exp 3 = Real.exp 1 ^ 3 := by rw [← Real.exp_nat_mul]; norm_num
    rw [hcube]
    calc (10 : ℝ) < 2.7 ^ 3 := by norm_num
      _ ≤ Real.exp 1 ^ 3 := pow_le_pow_left₀ (by norm_num) he.le 3
  have hlog : -27 < Real.log u := by
    have hle : Real.log ((1 / 10 ^ 9 : ℚ) : ℝ) ≤ Real.log u :=
      Real.log_le_log (by norm_num) (by exact_mod_cast hlow)
    have heq : Real.log ((1 / 10 ^ 9 : ℚ) : ℝ) = -(9 * Real.log 10) := by
      push_cast
      rw [one_div, Real.log_inv, Real.log_pow]
      norm_num
    linarith
  refine ⟨Int.floor_nonneg.mpr (by linarith), Int.floor_lt.mpr ?_⟩
  push_cast
  linarith

theorem synth_tape_sound_log :
    (TapeReader.new ⟨.synth, 1, 1, 0, Rounding.nearest⟩ []).drain logNs 200001 =
        .ok ((List.range 200000).map (Synth.event logNs)) ∧
      (Synth.event logNs 0).nowNs ≤ (Synth.event logNs 199999).nowNs ∧
      (Synth.event logNs 199999).nowNs < 2 ^ 63 := by
  obtain ⟨htape, hmono, hevents⟩ := synth_tape_sound logNs logNs_bounds
    ⟨.synth, 1, 1, 0, Rounding.nearest⟩ rfl [] (show 200000 < 200001 by decide)
  exact ⟨htape, hmono (Nat.zero_le _), (hevents 199999).2.2.2.2 (show 199999 < 200000 by decide)⟩

end Log

end Backtest
