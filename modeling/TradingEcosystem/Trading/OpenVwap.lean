import TradingEcosystem.Trading.Account

namespace Trading

open Common Exchange

variable {K : Type} [Field K] [LinearOrder K]

def Account.reports (a : Account K) : K × K × K × ℤ :=
  (a.pnl.realPnl, a.pnl.unrealPnl, a.pnl.totalPnl, a.info.position)

def Reproducible (makerRebateBps : K) (past : List AccountCall) : Prop :=
  ∀ (openVwap openVwap' : ℕ → K) (past' : List AccountCall), past' <:+ past →
    (Account.after makerRebateBps openVwap past').reports =
      (Account.after makerRebateBps openVwap' past').reports

def SameVwap (f f' : ℕ → K) : Prop :=
  ∀ side : Side, side.IsBuyOrSell → f (sideToIndex side) = f' (sideToIndex side)

omit [Field K] [LinearOrder K] in
theorem SameVwap.update {f f' : ℕ → K} (h : SameVwap f f') (i : ℕ) (x : K) :
    SameVwap (Function.update f i x) (Function.update f' i x) := by
  intro side hs
  rw [Function.update_apply, Function.update_apply, h side hs]

namespace Pnl

structure Alike (p p' : Pnl K) : Prop where
  realPnl : p.realPnl = p'.realPnl
  openVwap : SameVwap p.openVwap p'.openVwap

variable {p p' : Pnl K} {r : MEClientResponse} {old position : ℤ}

omit [LinearOrder K] in
theorem Alike.addOpen (h : Alike p p') (r : MEClientResponse) :
    Alike (p.addOpen r) (p'.addOpen r) := by
  refine ⟨h.realPnl, fun side hs => ?_⟩
  have hside := h.openVwap side hs
  change Function.update p.openVwap _ _ _ = Function.update p'.openVwap _ _ _
  rw [Function.update_apply, Function.update_apply, hside]
  by_cases hi : sideToIndex side = sideToIndex r.side
  · rw [if_pos hi, if_pos hi, ← hi, hside]
  · rw [if_neg hi, if_neg hi]

theorem Alike.addClose (h : Alike p p') (old position : ℤ) (r : MEClientResponse) :
    Alike (p.addClose old position r) (p'.addClose old position r) := by
  have hopp : (if r.side = .buy then Side.sell else .buy).IsBuyOrSell := by
    split_ifs
    · exact Or.inr rfl
    · exact Or.inl rfl
  rw [Pnl.addClose, Pnl.addClose]
  generalize (if r.side = .buy then Side.sell else .buy) = opp at hopp ⊢
  rw [h.openVwap opp hopp, h.realPnl]
  have hclosed := h.openVwap.update (sideToIndex opp)
    (p'.openVwap (sideToIndex opp) / |(old : K)| * |(position : K)|)
  refine ⟨rfl, ?_⟩
  dsimp only
  by_cases hflip : int32 (position * old) < 0
  · rw [if_pos hflip, if_pos hflip]
    exact (hclosed.update _ _).update _ _
  · rw [if_neg hflip, if_neg hflip]
    exact hclosed

theorem Alike.markTo (h : Alike p p') (position : ℤ) (price : K) :
    p.markTo position price = p'.markTo position price := by
  rw [Pnl.markTo, Pnl.markTo, h.openVwap .buy (Or.inl rfl), h.openVwap .sell (Or.inr rfl)]

structure Same (p p' : Pnl K) : Prop extends Alike p p' where
  unrealPnl : p.unrealPnl = p'.unrealPnl
  totalPnl : p.totalPnl = p'.totalPnl

theorem revalue_flat (hreal : p.realPnl = p'.realPnl) (price : ℤ) :
    Same (p.revalue 0 price) (p'.revalue 0 price) := by
  refine ⟨⟨hreal, ?_⟩, rfl, congrArg (0 + ·) hreal⟩
  rintro side (rfl | rfl) <;> rfl

theorem Alike.revalue (h : Alike p p') (position price : ℤ) :
    Same (p.revalue position price) (p'.revalue position price) := by
  by_cases h0 : position = 0
  · rw [h0]
    exact revalue_flat h.realPnl price
  · have hmark := h.markTo position (price : K)
    rw [Pnl.revalue, Pnl.revalue, if_neg h0, if_neg h0]
    exact ⟨⟨h.realPnl, h.openVwap⟩, hmark, congrArg₂ (· + ·) hmark h.realPnl⟩

theorem Same.rebate (h : Same p p') (makerRebateBps : K) (r : MEClientResponse) :
    Same (p.rebate makerRebateBps r) (p'.rebate makerRebateBps r) := by
  rw [rebate_spec, rebate_spec]
  exact ⟨⟨congrArg (· + _) h.realPnl, h.openVwap⟩, h.unrealPnl, congrArg (· + _) h.totalPnl⟩

theorem Alike.addFill (h : Alike p p') (makerRebateBps : K) (old position : ℤ)
    (r : MEClientResponse) :
    Same (p.addFill makerRebateBps old position r) (p'.addFill makerRebateBps old position r) := by
  rw [Pnl.addFill, Pnl.addFill]
  by_cases hdir : 0 ≤ int32 (old * sideToValue r.side)
  · rw [if_pos hdir, if_pos hdir]
    exact ((h.addOpen r).revalue position r.price).rebate makerRebateBps r
  · rw [if_neg hdir, if_neg hdir]
    exact ((h.addClose old position r).revalue position r.price).rebate makerRebateBps r

theorem addFill_idle (hreal : p.realPnl = p'.realPnl) (makerRebateBps : K)
    (r : MEClientResponse) :
    Same (p.addFill makerRebateBps 0 0 r) (p'.addFill makerRebateBps 0 0 r) := by
  have hdir : 0 ≤ int32 (0 * sideToValue r.side) := by
    rw [zero_mul]
    decide
  rw [Pnl.addFill, Pnl.addFill, if_pos hdir, if_pos hdir]
  have hopen : (p.addOpen r).realPnl = (p'.addOpen r).realPnl := hreal
  exact (revalue_flat hopen r.price).rebate makerRebateBps r

theorem Same.updateBBO (h : Same p p') (position : ℤ) (bbo : BBO) :
    Same (p.updateBBO position bbo) (p'.updateBBO position bbo) := by
  have hmark := h.toAlike.markTo position ((bbo.bidPrice + bbo.askPrice : K) / 2)
  rw [Pnl.updateBBO, Pnl.updateBBO]
  split_ifs
  · exact ⟨⟨h.realPnl, h.openVwap⟩, hmark, congrArg₂ (· + ·) hmark h.realPnl⟩
  · exact h

end Pnl

section Runs

variable {makerRebateBps : K} {openVwap openVwap' : ℕ → K} {past : List AccountCall}
  {r : MEClientResponse}

theorem after_quiet (h : fills past = []) :
    Account.after makerRebateBps openVwap past = Account.new openVwap := by
  induction past with
  | nil => rfl
  | cons c past ih =>
    cases c with
    | addFill r => cases h
    | updateBBO bbo =>
      rw [Account.after, ih h]
      rfl

def firstQty (r : MEClientResponse) : ℤ := int32 (int32 r.execQty * sideToValue r.side)

omit [LinearOrder K] in
theorem position_first (openVwap : ℕ → K) (r : MEClientResponse) :
    ((Account.new openVwap).info.addFill r).position = firstQty r := by
  simp only [PositionInfo.addFill, Account.new, zero_add, firstQty]

theorem same_after (makerRebateBps : K) (openVwap openVwap' : ℕ → K) (hne : fills past ≠ [])
    (hfirst : ∀ r ∈ (fills past).getLast?, firstQty r = 0) :
    (Account.after makerRebateBps openVwap past).info =
        (Account.after makerRebateBps openVwap' past).info ∧
      (Account.after makerRebateBps openVwap past).pnl.Same
        (Account.after makerRebateBps openVwap' past).pnl := by
  induction past with
  | nil => exact absurd rfl hne
  | cons c past ih =>
    cases c with
    | updateBBO bbo =>
      obtain ⟨hinfo, hsame⟩ := ih hne hfirst
      simp only [Account.after, Account.call]
      rw [hinfo]
      exact ⟨rfl, hsame.updateBBO _ bbo⟩
    | addFill r =>
      by_cases hpast : fills past = []
      · have hr : firstQty r = 0 := hfirst r (by
          change (r :: fills past).getLast? = some r
          rw [hpast]
          rfl)
        simp only [Account.after, after_quiet hpast, Account.call]
        rw [position_first, position_first, hr]
        have hreal : (Pnl.new openVwap).realPnl = (Pnl.new openVwap').realPnl := rfl
        exact ⟨rfl, Pnl.addFill_idle hreal makerRebateBps r⟩
      · have hlast : (fills (.addFill r :: past)).getLast? = (fills past).getLast? :=
          List.getLast?_cons_of_ne_nil hpast
        obtain ⟨hinfo, hsame⟩ := ih hpast (hlast ▸ hfirst)
        simp only [Account.after, Account.call]
        rw [hinfo]
        exact ⟨rfl, hsame.toAlike.addFill makerRebateBps _ _ r⟩

theorem fills_suffix {past' : List AccountCall} (h : past' <:+ past) (hne : fills past' ≠ []) :
    (fills past).getLast? = (fills past').getLast? := by
  obtain ⟨later, rfl⟩ := h
  rw [fills, List.filterMap_append]
  exact List.getLast?_append_of_ne_nil _ hne

theorem exists_first (h : (fills past).getLast? = some r) :
    ∃ quiet, .addFill r :: quiet <:+ past ∧ fills quiet = [] := by
  induction past with
  | nil => cases h
  | cons c past ih =>
    by_cases hpast : fills past = []
    · cases c with
      | updateBBO bbo =>
        rw [show fills (.updateBBO bbo :: past) = fills past from rfl, hpast] at h
        cases h
      | addFill r' =>
        rw [show fills (.addFill r' :: past) = r' :: fills past from rfl, hpast] at h
        obtain rfl : r' = r := Option.some.inj h
        exact ⟨past, List.suffix_rfl, hpast⟩
    · have hlast := fills_suffix (List.suffix_cons c past) hpast
      obtain ⟨quiet, hsuffix, hquiet⟩ := ih (hlast ▸ h)
      exact ⟨quiet, hsuffix.trans (List.suffix_cons c past), hquiet⟩

omit [LinearOrder K] in
theorem vwap_addOpen (p : Pnl K) (r : MEClientResponse) (i : ℕ) :
    (p.addOpen r).openVwap i =
      p.openVwap i + if i = sideToIndex r.side then (r.price : K) * r.execQty else 0 := by
  change Function.update p.openVwap _ _ _ = _
  rw [Function.update_apply]
  split_ifs with h
  · rw [h]
  · rw [add_zero]

theorem unrealPnl_first [IsStrictOrderedRing K] (makerRebateBps : K) (r : MEClientResponse)
    (hn : firstQty r ≠ 0) : ∃ x : K, ∀ openVwap : ℕ → K,
      ((Account.new openVwap).call makerRebateBps (.addFill r)).pnl.unrealPnl =
        x + if 0 < firstQty r then -openVwap (sideToIndex .buy)
          else openVwap (sideToIndex .sell) := by
  generalize hsize : |((firstQty r : ℤ) : K)| = size
  have hne : size ≠ 0 := hsize ▸ abs_ne_zero.mpr (Int.cast_ne_zero.mpr hn)
  have hdir : 0 ≤ int32 (0 * sideToValue r.side) := by
    rw [zero_mul]
    decide
  have hmark (openVwap : ℕ → K) :
      ((Account.new openVwap).call makerRebateBps (.addFill r)).pnl.unrealPnl =
        ((Pnl.new openVwap).addOpen r).markTo (firstQty r) r.price := by
    have h0 : (Account.new openVwap).info.position = 0 := rfl
    have hp : (Account.new openVwap).pnl = Pnl.new openVwap := rfl
    simp only [Account.call, position_first, Pnl.addFill, Pnl.rebate_spec, h0, hp, if_pos hdir,
      Pnl.revalue, if_neg hn]
  by_cases hpos : 0 < firstQty r
  · refine ⟨r.price * size - if sideToIndex .buy = sideToIndex r.side then
      (r.price : K) * r.execQty else 0, fun openVwap => ?_⟩
    rw [hmark, Pnl.markTo, hsize, if_pos hpos, if_pos hpos, sub_mul, div_mul_cancel₀ _ hne,
      vwap_addOpen]
    change _ - (openVwap _ + _) = _
    ring
  · refine ⟨(if sideToIndex .sell = sideToIndex r.side then (r.price : K) * r.execQty else 0) -
      r.price * size, fun openVwap => ?_⟩
    rw [hmark, Pnl.markTo, hsize, if_neg hpos, if_neg hpos, sub_mul, div_mul_cancel₀ _ hne,
      vwap_addOpen]
    change openVwap _ + _ - _ = _
    ring

end Runs

theorem reproducible_iff [IsStrictOrderedRing K] (makerRebateBps : K) (past : List AccountCall) :
    Reproducible makerRebateBps past ↔ ∀ r ∈ (fills past).getLast?, firstQty r = 0 := by
  constructor
  · intro h r hr
    by_contra hn
    obtain ⟨quiet, hsuffix, hquiet⟩ := exists_first hr
    obtain ⟨x, hx⟩ := unrealPnl_first makerRebateBps r hn
    have hsame := h (fun _ => 0) (fun _ => 1) _ hsuffix
    simp only [Account.after, after_quiet hquiet, Account.reports, Prod.mk.injEq] at hsame
    have hunreal := hsame.2.1
    rw [hx, hx, add_right_inj] at hunreal
    split_ifs at hunreal <;> simp at hunreal
  · intro h openVwap openVwap' past' hsuffix
    by_cases hne : fills past' = []
    · rw [after_quiet hne, after_quiet hne]
      rfl
    · obtain ⟨hinfo, hsame⟩ := same_after makerRebateBps openVwap openVwap' hne
        (fills_suffix hsuffix hne ▸ h)
      simp only [Account.reports, hinfo, hsame.realPnl, hsame.unrealPnl, hsame.totalPnl]

def purchase : List AccountCall := [.addFill (executed .buy 100 10)]

theorem purchase_not_reproducible :
    (Account.after 0 (fun _ => (0 : ℚ)) purchase).pnl.totalPnl = 0 ∧
      (Account.after 0 (fun _ => (1 : ℚ)) purchase).pnl.totalPnl = -1 ∧
      ¬ Reproducible (0 : ℚ) purchase := by
  have hzero : (Account.after 0 (fun _ => (0 : ℚ)) purchase).pnl.totalPnl = 0 := by decide +kernel
  have hone : (Account.after 0 (fun _ => (1 : ℚ)) purchase).pnl.totalPnl = -1 := by decide +kernel
  refine ⟨hzero, hone, fun h => ?_⟩
  have hsame := h (fun _ => 0) (fun _ => 1) purchase List.suffix_rfl
  simp only [Account.reports, Prod.mk.injEq, hzero, hone] at hsame
  exact absurd hsame.2.2.1 (by norm_num)

theorem reproducible_iff_sample :
    Reproducible (1 / 2 : ℚ) [.updateBBO ⟨98, 101, 4, 4⟩, .addFill (executed .sell 99 12),
      .updateBBO ⟨99, 103, 5, 7⟩, .addFill (executed .buy 101 10),
      .addFill (executed .sell 100 0), .updateBBO ⟨100, 102, 5, 7⟩] :=
  (reproducible_iff (1 / 2) _).mpr (by decide)

end Trading
