import Mathlib.Tactic.FieldSimp
import TradingEcosystem.Trading.PositionKeeper

namespace Trading

open Common Exchange

section Calls

variable {K : Type} [Field K] [LinearOrder K]

structure Account (K : Type) where
  info : PositionInfo
  pnl : Pnl K

inductive AccountCall where
  | addFill (r : MEClientResponse)
  | updateBBO (bbo : BBO)

namespace Account

def new (openVwap : ℕ → K) : Account K := ⟨⟨0, 0⟩, Pnl.new openVwap⟩

def call (makerRebateBps : K) (a : Account K) : AccountCall → Account K
  | .addFill r => ⟨a.info.addFill r,
      a.pnl.addFill makerRebateBps a.info.position (a.info.addFill r).position r⟩
  | .updateBBO bbo => ⟨a.info, a.pnl.updateBBO a.info.position bbo⟩

/-- The account after the calls `past`, of which the last comes first. -/
def after (makerRebateBps : K) (openVwap : ℕ → K) : List AccountCall → Account K
  | [] => new openVwap
  | c :: past => (after makerRebateBps openVwap past).call makerRebateBps c

end Account

def fills (past : List AccountCall) : List MEClientResponse :=
  past.filterMap fun
    | .addFill r => some r
    | .updateBBO _ => none

def signedQty (r : MEClientResponse) : ℤ := r.execQty * sideToValue r.side

def net (past : List AccountCall) : ℤ := ((fills past).map signedQty).sum

def cash (past : List AccountCall) : K :=
  ((fills past).map fun r => -(sideToValue r.side : K) * r.price * r.execQty).sum

def rebates (makerRebateBps : K) (past : List AccountCall) : K :=
  ((fills past).map fun r => (r.price : K) * r.execQty * makerRebateBps / 10 ^ 4).sum

/-- The price of the last fill or the mid of the last two-sided touch shown while there was a
position, whichever came later. -/
def mark : List AccountCall → K
  | [] => 0
  | .addFill r :: _ => r.price
  | .updateBBO bbo :: past =>
      if net past ≠ 0 ∧ bbo.bidPrice ≠ priceInvalid ∧ bbo.askPrice ≠ priceInvalid then
        (bbo.bidPrice + bbo.askPrice) / 2
      else mark past

end Calls

def InInt32 (x : ℤ) : Prop := -2 ^ 31 ≤ x ∧ x < 2 ^ 31

structure FillInRange (old : ℤ) (r : MEClientResponse) : Prop where
  cast : InInt32 r.execQty
  signed : InInt32 (signedQty r)
  position : InInt32 (old + signedQty r)
  direction : InInt32 (old * sideToValue r.side)
  absOld : old * sideToValue r.side < 0 → InInt32 |old|
  absNew : InInt32 |old + signedQty r|
  product : old * sideToValue r.side < 0 → InInt32 ((old + signedQty r) * old)

instance (x : ℤ) : Decidable (InInt32 x) := inferInstanceAs (Decidable (_ ∧ _))

instance (old : ℤ) (r : MEClientResponse) : Decidable (FillInRange old r) :=
  decidable_of_iff (InInt32 r.execQty ∧ InInt32 (signedQty r) ∧ InInt32 (old + signedQty r) ∧
      InInt32 (old * sideToValue r.side) ∧ (old * sideToValue r.side < 0 → InInt32 |old|) ∧
      InInt32 |old + signedQty r| ∧
      (old * sideToValue r.side < 0 → InInt32 ((old + signedQty r) * old)))
    ⟨fun ⟨a, b, c, d, e, f, g⟩ => ⟨a, b, c, d, e, f, g⟩,
      fun ⟨a, b, c, d, e, f, g⟩ => ⟨a, b, c, d, e, f, g⟩⟩

def Regular : List AccountCall → Prop
  | [] => True
  | .addFill r :: past => (r.side.IsBuyOrSell ∧ 0 < r.execQty ∧ FillInRange (net past) r) ∧
      Regular past
  | .updateBBO _ :: past => Regular past

instance decidableRegular : (past : List AccountCall) → Decidable (Regular past)
  | [] => isTrue trivial
  | .addFill _ :: past =>
      have := decidableRegular past
      inferInstanceAs (Decidable (_ ∧ _))
  | .updateBBO _ :: past => decidableRegular past

theorem InInt32.int32_eq {x : ℤ} (h : InInt32 x) : int32 x = x := Trading.int32_eq h.1 h.2

theorem addFill_position_eq {p : PositionInfo} {r : MEClientResponse}
    (h : FillInRange p.position r) : (p.addFill r).position = p.position + signedQty r := by
  rw [PositionInfo.addFill, h.cast.int32_eq]
  exact h.position.int32_eq

theorem net_addFill (r : MEClientResponse) (past : List AccountCall) :
    net (.addFill r :: past) = net past + signedQty r := by
  rw [add_comm]
  exact List.sum_cons

namespace Pnl

variable {K : Type} [Field K] [LinearOrder K] [IsStrictOrderedRing K] {p : Pnl K}
  {r : MEClientResponse} {position old : ℤ}

def held (p : Pnl K) (side : Side) : K := p.openVwap (sideToIndex side)

def basis (p : Pnl K) : K := p.realPnl - p.held .buy + p.held .sell

def Sided (p : Pnl K) (position : ℤ) : Prop :=
  (0 ≤ position → p.held .sell = 0) ∧ (position ≤ 0 → p.held .buy = 0)

theorem markTo_eq (h : p.Sided position) (hne : position ≠ 0) (price : K) :
    p.markTo position price = position * price - p.held .buy + p.held .sell := by
  have hsize : (|(position : K)|) ≠ 0 := abs_ne_zero.mpr (Int.cast_ne_zero.mpr hne)
  rw [markTo]
  split_ifs with hpos
  · have habs : |(position : K)| = position := abs_of_pos (Int.cast_pos.mpr hpos)
    rw [h.1 hpos.le, sub_mul, div_mul_cancel₀ _ hsize, habs, held]
    ring
  · have hneg : position < 0 := lt_of_le_of_ne (not_lt.mp hpos) hne
    have habs : |(position : K)| = -position := abs_of_neg (Int.cast_lt_zero.mpr hneg)
    rw [h.2 hneg.le, sub_mul, div_mul_cancel₀ _ hsize, habs, held]
    ring

theorem revalue_spec (h : p.Sided position) (price : ℤ) :
    let q := p.revalue position price
    q.held .buy = p.held .buy ∧ q.held .sell = p.held .sell ∧ q.realPnl = p.realPnl ∧
      q.unrealPnl = position * price - q.held .buy + q.held .sell ∧ q.totalPnl = q.unrealPnl + q.realPnl := by
  rw [revalue]
  by_cases h0 : position = 0
  · have hb := h.2 h0.le
    have hs := h.1 h0.ge
    rw [if_pos h0, h0]
    refine ⟨?_, ?_, rfl, ?_, rfl⟩
    · exact hb.symm
    · exact hs.symm
    · change (0 : K) = ((0 : ℤ) : K) * price - 0 + 0
      ring
  · rw [if_neg h0]
    exact ⟨rfl, rfl, rfl, markTo_eq h h0 _, rfl⟩

omit [IsStrictOrderedRing K] in
theorem rebate_spec (p : Pnl K) (makerRebateBps : K) (r : MEClientResponse) :
    p.rebate makerRebateBps r = { p with
      realPnl := p.realPnl + r.price * r.execQty * makerRebateBps / 10 ^ 4
      totalPnl := p.totalPnl + r.price * r.execQty * makerRebateBps / 10 ^ 4 } := by
  rw [rebate]
  split_ifs with h
  · rw [h]
    simp
  · rfl

omit [LinearOrder K] [IsStrictOrderedRing K] in
theorem basis_eq (p : Pnl K) {side : Side} (hs : side.IsBuyOrSell) :
    p.basis = p.realPnl - sideToValue side * p.held side +
      sideToValue side * p.held side.opposite := by
  rcases hs with rfl | rfl <;> simp only [basis, sideToValue, Side.opposite] <;> push_cast <;> ring

omit [LinearOrder K] [IsStrictOrderedRing K] in
theorem sided_iff {side : Side} (hs : side.IsBuyOrSell) : p.Sided position ↔
    (0 ≤ sideToValue side * position → p.held side.opposite = 0) ∧
      (sideToValue side * position ≤ 0 → p.held side = 0) := by
  rcases hs with rfl | rfl <;> simp [Sided, sideToValue, Side.opposite, and_comm]

theorem index_ne {side : Side} (hs : side.IsBuyOrSell) :
    sideToIndex side.opposite ≠ sideToIndex side := by
  rcases hs with rfl | rfl <;> decide

omit [LinearOrder K] [IsStrictOrderedRing K] in
theorem addOpen_spec (h : p.Sided old) (hs : r.side.IsBuyOrSell)
    (hdir : 0 ≤ sideToValue r.side * old) :
    (p.addOpen r).basis = p.basis - signedQty r * r.price ∧
      (p.addOpen r).held r.side.opposite = 0 := by
  have hopp : (p.addOpen r).held r.side.opposite = 0 := by
    refine Eq.trans ?_ (((sided_iff hs).mp h).1 hdir)
    exact Function.update_of_ne (index_ne hs) _ _
  have hside : (p.addOpen r).held r.side = p.held r.side + r.price * r.execQty :=
    Function.update_self ..
  refine ⟨?_, hopp⟩
  rw [basis_eq _ hs, basis_eq _ hs, hside, hopp, ((sided_iff hs).mp h).1 hdir, signedQty]
  push_cast
  change p.realPnl - _ + _ = _
  ring

theorem sideToValue_sq {side : Side} (hs : side.IsBuyOrSell) :
    sideToValue side * sideToValue side = 1 := by
  rcases hs with rfl | rfl <;> rfl

omit [IsStrictOrderedRing K] in
theorem addClose_eq (p : Pnl K) (hs : r.side.IsBuyOrSell)
    (hcast : int32 r.execQty = r.execQty) {n : ℤ} (hn : int32 (n * old) = n * old) :
    let q := p.addClose old n r
    let w := p.held r.side.opposite / |(old : K)|
    q.realPnl = p.realPnl + (min (r.execQty : ℤ) |old| : ℤ) * (w - r.price) * sideToValue r.side ∧
      q.held r.side = (if n * old < 0 then (r.price : K) * |(n : K)| else p.held r.side) ∧
      q.held r.side.opposite = if n * old < 0 then 0 else w * |(n : K)| := by
  have hopp : (if r.side = .buy then Side.sell else .buy) = r.side.opposite := by
    rcases hs with h | h <;> rw [h] <;> rfl
  have hne := index_ne hs
  simp only [addClose, hopp, hcast, hn, held]
  refine ⟨trivial, ?_, ?_⟩
  · split_ifs
    · rw [Function.update_of_ne hne.symm, Function.update_self]
    · rw [Function.update_of_ne hne.symm]
  · split_ifs <;> rw [Function.update_self]

theorem addClose_spec (h : p.Sided old) (hs : r.side.IsBuyOrSell)
    (hdir : sideToValue r.side * old < 0) (hr : FillInRange old r) :
    (p.addClose old (old + signedQty r) r).basis = p.basis - signedQty r * r.price ∧
      (p.addClose old (old + signedQty r) r).Sided (old + signedQty r) := by
  have hsq := sideToValue_sq hs
  have hown : p.held r.side = 0 := ((sided_iff hs).mp h).2 hdir.le
  obtain ⟨hreal, hside, hopp⟩ := addClose_eq p hs hr.cast.int32_eq
    (hr.product (by rwa [mul_comm])).int32_eq
  rw [basis_eq _ hs, basis_eq _ hs, sided_iff hs, hreal, hside, hopp, hown]
  generalize p.held r.side.opposite = V
  generalize hv : sideToValue r.side = v at *
  -- `n` units were held, and `q - n` are held on the other side now
  obtain ⟨n, hn⟩ : ∃ n : ℤ, n = -(v * old) := ⟨_, rfl⟩
  generalize hqty : (r.execQty : ℤ) = q
  have hnpos : 0 < n := by omega
  have hold : old = -(v * n) := by
    rw [hn, mul_neg, neg_neg, ← mul_assoc, hsq, one_mul]
  have hnew : old + signedQty r = v * (q - n) := by
    rw [signedQty, hv, hqty, hold]
    ring
  have habs (x : ℤ) : |v * x| = |x| := by
    rcases Int.isUnit_iff.mp (IsUnit.of_mul_eq_one v hsq) with h | h <;> rw [h] <;> simp
  have habsOld : |(old : K)| = n := by
    rw [hold, ← Int.cast_abs, abs_neg, habs, abs_of_pos hnpos]
  have habsNew : |((old + signedQty r : ℤ) : K)| = ((|q - n| : ℤ) : K) := by
    rw [hnew, ← Int.cast_abs, habs]
  have hvnew : v * (old + signedQty r) = q - n := by
    rw [hnew, ← mul_assoc, hsq, one_mul]
  have hflip : (old + signedQty r) * old < 0 ↔ n < q := by
    have : (old + signedQty r) * old = -(n * (q - n)) := by
      rw [hnew, hold]
      linear_combination (-(n * (q - n))) * hsq
    rw [this, neg_lt_zero, mul_pos_iff_of_pos_left hnpos, sub_pos]
  have hsigned : ((signedQty r : ℤ) : K) = v * q := by
    rw [signedQty, hv, hqty]
    push_cast
    ring
  have hnK : (n : K) ≠ 0 := Int.cast_ne_zero.mpr hnpos.ne'
  have holdAbs : |old| = n := by rw [hold, abs_neg, habs, abs_of_pos hnpos]
  rw [habsOld, habsNew, hvnew, hsigned, holdAbs]
  simp only [hflip]
  rcases lt_or_ge n q with hlt | hle
  · rw [if_pos hlt, if_pos hlt, min_eq_right hlt.le, abs_of_pos (sub_pos.mpr hlt)]
    refine ⟨?_, fun _ => rfl, fun hq => absurd hq (by omega)⟩
    push_cast
    field_simp
    ring
  · rw [if_neg (not_lt.mpr hle), if_neg (not_lt.mpr hle), min_eq_left hle,
      abs_of_nonpos (sub_nonpos.mpr hle)]
    refine ⟨?_, fun hq => ?_, fun _ => rfl⟩
    · push_cast
      field_simp
      ring
    · obtain rfl : q = n := by omega
      simp

theorem addFill_spec (h : p.Sided old) (hs : r.side.IsBuyOrSell) (hq : 0 < r.execQty)
    (hr : FillInRange old r) (makerRebateBps : K) :
    let q := p.addFill makerRebateBps old (old + signedQty r) r
    q.basis = p.basis - signedQty r * r.price + r.price * r.execQty * makerRebateBps / 10 ^ 4 ∧
      q.Sided (old + signedQty r) ∧
      q.unrealPnl = (old + signedQty r : ℤ) * r.price - q.held .buy + q.held .sell ∧
      q.totalPnl = q.unrealPnl + q.realPnl := by
  set p₁ := if 0 ≤ int32 (old * sideToValue r.side) then p.addOpen r
    else p.addClose old (old + signedQty r) r with hp₁
  have hspec : p₁.basis = p.basis - signedQty r * r.price ∧ p₁.Sided (old + signedQty r) := by
    rw [hr.direction.int32_eq, mul_comm] at hp₁
    rcases lt_or_ge (sideToValue r.side * old) 0 with hdir | hdir
    · rw [hp₁, if_neg (not_le.mpr hdir)]
      exact addClose_spec h hs hdir hr
    · rw [hp₁, if_pos hdir]
      obtain ⟨hbasis, hopp⟩ := addOpen_spec h hs hdir
      refine ⟨hbasis, (sided_iff hs).mpr ⟨fun _ => hopp, fun hle => absurd hle (not_le.mpr ?_)⟩⟩
      have hsigned : sideToValue r.side * signedQty r = r.execQty := by
        rw [signedQty, mul_left_comm, sideToValue_sq hs, mul_one]
      rw [mul_add, hsigned]
      omega
  obtain ⟨hbuy, hsell, hreal, hunreal, htotal⟩ := revalue_spec hspec.2 (r.price : ℤ)
  rw [addFill, ← hp₁, rebate_spec]
  generalize p₁.revalue (old + signedQty r) r.price = q at *
  refine ⟨?_, ?_, hunreal, ?_⟩
  · rw [← hspec.1, basis, basis, ← hbuy, ← hsell, ← hreal]
    change q.realPnl + _ - q.held .buy + q.held .sell = _
    ring
  · exact ⟨fun hle => hsell.trans (hspec.2.1 hle), fun hle => hbuy.trans (hspec.2.2 hle)⟩
  · change _ + _ = _ + (_ + _)
    rw [htotal]
    ring

theorem updateBBO_eq (h : p.Sided position) {bbo : BBO} (hv : position ≠ 0 ∧
    bbo.bidPrice ≠ priceInvalid ∧ bbo.askPrice ≠ priceInvalid) : p.updateBBO position bbo =
      { p with
        unrealPnl := position * ((bbo.bidPrice + bbo.askPrice) / 2) - p.held .buy + p.held .sell
        totalPnl := position * ((bbo.bidPrice + bbo.askPrice) / 2) - p.held .buy + p.held .sell +
          p.realPnl } := by
  rw [updateBBO, if_pos hv, markTo_eq h hv.1]

end Pnl

variable {K : Type} [Field K] [LinearOrder K] [IsStrictOrderedRing K] {makerRebateBps : K}
  {past : List AccountCall} {a : Account K}

structure Balanced (makerRebateBps : K) (past : List AccountCall) (a : Account K) : Prop where
  position : a.info.position = net past
  sided : a.pnl.Sided (net past)
  basis : a.pnl.basis = cash past + rebates makerRebateBps past
  unrealPnl : a.pnl.unrealPnl = net past * mark past - a.pnl.held .buy + a.pnl.held .sell
  totalPnl : a.pnl.totalPnl = a.pnl.unrealPnl + a.pnl.realPnl

omit [LinearOrder K] [IsStrictOrderedRing K] in
theorem balanced_new : Balanced makerRebateBps [] (Account.new fun _ => (0 : K)) := by
  refine ⟨rfl, ⟨fun _ => rfl, fun _ => rfl⟩, ?_, ?_, ?_⟩
  · simp [Pnl.basis, Account.new, Pnl.new, Pnl.held, cash, rebates, fills]
  · simp [Account.new, Pnl.new, Pnl.held, net, fills]
  · exact (add_zero 0).symm

theorem Balanced.addFill (h : Balanced makerRebateBps past a) {r : MEClientResponse}
    (hs : r.side.IsBuyOrSell) (hq : 0 < r.execQty) (hr : FillInRange (net past) r) :
    Balanced makerRebateBps (.addFill r :: past) (a.call makerRebateBps (.addFill r)) := by
  have hpos : (a.info.addFill r).position = net past + signedQty r := by
    rw [addFill_position_eq (h.position ▸ hr), h.position]
  obtain ⟨hbasis, hsided, hunreal, htotal⟩ := Pnl.addFill_spec h.sided hs hq hr makerRebateBps
  have hcall : a.call makerRebateBps (.addFill r) = ⟨a.info.addFill r,
      a.pnl.addFill makerRebateBps (net past) (net past + signedQty r) r⟩ := by
    rw [Account.call, hpos, h.position]
  rw [hcall]
  refine ⟨?_, ?_, ?_, ?_, htotal⟩
  · rw [net_addFill]
    exact hpos
  · rw [net_addFill]
    exact hsided
  · have hcash : (cash (.addFill r :: past) : K) =
        -(sideToValue r.side : K) * r.price * r.execQty + cash past := List.sum_cons
    have hreb : rebates makerRebateBps (.addFill r :: past) =
        (r.price : K) * r.execQty * makerRebateBps / 10 ^ 4 + rebates makerRebateBps past :=
      List.sum_cons
    change (Pnl.addFill _ _ _ _ _).basis = _
    rw [hbasis, h.basis, hcash, hreb, signedQty]
    push_cast
    ring
  · rw [net_addFill]
    exact hunreal

theorem Balanced.updateBBO (h : Balanced makerRebateBps past a) (bbo : BBO) :
    Balanced makerRebateBps (.updateBBO bbo :: past) (a.call makerRebateBps (.updateBBO bbo)) := by
  have hcall : a.call makerRebateBps (.updateBBO bbo) =
      ⟨a.info, a.pnl.updateBBO (net past) bbo⟩ := by
    rw [Account.call, h.position]
  rw [hcall]
  by_cases hv : net past ≠ 0 ∧ bbo.bidPrice ≠ priceInvalid ∧ bbo.askPrice ≠ priceInvalid
  · have hmark : (mark (.updateBBO bbo :: past) : K) = (bbo.bidPrice + bbo.askPrice) / 2 :=
      if_pos hv
    rw [Pnl.updateBBO_eq h.sided hv]
    refine ⟨h.position, h.sided, h.basis, ?_, rfl⟩
    rw [hmark]
    rfl
  · have hmark : (mark (.updateBBO bbo :: past) : K) = mark past := if_neg hv
    rw [Pnl.updateBBO, if_neg hv]
    refine ⟨h.position, h.sided, h.basis, ?_, h.totalPnl⟩
    rw [hmark]
    exact h.unrealPnl

theorem Balanced.after (hr : Regular past) :
    Balanced makerRebateBps past (Account.after makerRebateBps (fun _ => 0) past) := by
  induction past with
  | nil => exact balanced_new
  | cons c past ih =>
    cases c with
    | addFill r => exact (ih hr.2).addFill hr.1.1 hr.1.2.1 hr.1.2.2
    | updateBBO bbo => exact (ih hr).updateBBO bbo

theorem pnl_identity (makerRebateBps : K) {past : List AccountCall} (h : Regular past) :
    let a := Account.after makerRebateBps (fun _ => (0 : K)) past
    a.pnl.realPnl + a.pnl.unrealPnl = a.pnl.totalPnl ∧
      a.pnl.totalPnl = cash past + rebates makerRebateBps past + a.info.position * mark past ∧
      a.info.position = net past ∧
      (0 < a.info.position → a.pnl.openVwap (sideToIndex .sell) = 0) ∧
      (a.info.position < 0 → a.pnl.openVwap (sideToIndex .buy) = 0) ∧
      (a.info.position = 0 →
        a.pnl.openVwap (sideToIndex .buy) = 0 ∧ a.pnl.openVwap (sideToIndex .sell) = 0) := by
  have hb : Balanced makerRebateBps past (Account.after makerRebateBps (fun _ => (0 : K)) past) :=
    Balanced.after h
  generalize Account.after makerRebateBps (fun _ => (0 : K)) past = a at hb
  have hsided := hb.position ▸ hb.sided
  refine ⟨?_, ?_, hb.position, fun hp => hsided.1 hp.le, fun hp => hsided.2 hp.le,
    fun hp => ⟨hsided.2 hp.le, hsided.1 hp.ge⟩⟩
  · rw [hb.totalPnl, add_comm]
  · rw [hb.totalPnl, hb.unrealPnl, ← hb.basis, hb.position, Pnl.basis]
    ring

def executed (side : Side) (price : ℤ) (qty : ℕ) : MEClientResponse :=
  ⟨.filled, 1, 0, 1, 1, side, price, qty, 0⟩

def roundTrip : List AccountCall :=
  [.addFill (executed .buy 98 14), .addFill (executed .sell 99 20), .updateBBO ⟨100, 102, 5, 7⟩,
    .addFill (executed .sell 103 4), .addFill (executed .buy 100 10)]

theorem pnl_identity_sample :
    let a := Account.after (1 / 2) (fun _ => (0 : ℚ)) roundTrip
    a.pnl.totalPnl = cash roundTrip + rebates (1 / 2) roundTrip + a.info.position * mark roundTrip ∧
      a.info.position = net roundTrip :=
  have h := pnl_identity (1 / 2 : ℚ) (show Regular roundTrip by decide)
  ⟨h.2.1, h.2.2.1⟩

end Trading
