import Mathlib.Order.Interval.Finset.Nat
import Mathlib.Algebra.Order.Field.Rat
import TradingEcosystem.Trading.FeatureEngine

namespace Trading
namespace Vpin

variable {kWindow : ℕ} {K : Type} [Field K] [LinearOrder K]

def closes (v : Vpin kWindow K) (isBuyerInitiated : Bool) (qty : K) : List K :=
  let buy := if isBuyerInitiated then v.curBuy + qty else v.curBuy
  let sell := if isBuyerInitiated then v.curSell else v.curSell + qty
  if v.bucketSize ≤ v.curFilled + qty then [|buy - sell| / v.bucketSize] else []

/-- The loop of `onTrade` from its test on, run to its end; the list holds the imbalances of the
buckets it closes. -/
inductive Fills (isBuyerInitiated : Bool) :
    Vpin kWindow K → K → Vpin kWindow K → List K → Prop
  | done {v remaining} : ¬ 0 < remaining → Fills isBuyerInitiated v remaining v []
  | turn {v w remaining closed} : 0 < remaining →
      Fills isBuyerInitiated
        (v.take isBuyerInitiated (min (v.bucketSize - v.curFilled) remaining))
        (remaining - min (v.bucketSize - v.curFilled) remaining) w closed →
      Fills isBuyerInitiated v remaining w
        (v.closes isBuyerInitiated (min (v.bucketSize - v.curFilled) remaining) ++ closed)

inductive Feeds : Vpin kWindow K → List (K × Bool) → Vpin kWindow K → List K → Prop
  | nil {v} : Feeds v [] v []
  | cons {v w u : Vpin kWindow K} {qty buyer trades closed later} : Fills buyer v qty w closed →
      Feeds w trades u later → Feeds v ((qty, buyer) :: trades) u (closed ++ later)

def feed [FloorRing K] (v : Vpin kWindow K) (trades : List (K × Bool)) : Vpin kWindow K :=
  trades.foldl (fun v trade => v.onTrade trade.1 trade.2) v

def volume (trades : List (K × Bool)) : K := (trades.map Prod.fst).sum

def volumeUpTo (buyer : Bool) : List (K × Bool) → K → K
  | [], _ => 0
  | (qty, side) :: trades, x =>
      (if side = buyer then min qty x else 0) + volumeUpTo buyer trades (x - min qty x)

def volumeWithin (buyer : Bool) (trades : List (K × Bool)) (x y : K) : K :=
  volumeUpTo buyer trades y - volumeUpTo buyer trades x

def current (v : Vpin kWindow K) (buyer : Bool) : K := if buyer then v.curBuy else v.curSell

structure Chopped (size : K) (past : List (K × Bool)) (v : Vpin kWindow K) (closed : List K) :
    Prop where
  size_pos : 0 < size
  bucketSize : v.bucketSize = size
  filled : v.curFilled = v.curBuy + v.curSell
  nonneg : ∀ buyer, 0 ≤ v.current buyer
  room : v.curFilled < size
  total : volume past = closed.length * size + v.curFilled
  share : ∀ buyer,
    v.current buyer = volumeWithin buyer past (closed.length * size) (volume past)
  imbalance : ∀ (i : ℕ) (x : K), closed[i]? = some x →
    x = |volumeWithin true past (i * size) ((i + 1) * size) -
      volumeWithin false past (i * size) ((i + 1) * size)| / size
  unit : ∀ x ∈ closed, 0 ≤ x ∧ x ≤ 1
  head : v.head = closed.length % kWindow
  seen : v.bucketsSeen = min closed.length (kWindow * 2)
  ring : ∀ (i : ℕ) (x : K), closed[i]? = some x → closed.length ≤ i + kWindow →
    v.imbalances (i % kWindow) = x

variable {v w u : Vpin kWindow K} {past trades : List (K × Bool)} {closed later : List K}
  {size qty x y : K} {buyer : Bool}

omit [LinearOrder K] in
theorem volume_concat (past : List (K × Bool)) (qty : K) (buyer : Bool) :
    volume (past ++ [(qty, buyer)]) = volume past + qty := by
  simp [volume]

theorem nonneg_concat (hp : ∀ trade ∈ past, 0 ≤ trade.1) (hq : 0 ≤ qty) (buyer : Bool) :
    ∀ trade ∈ past ++ [(qty, buyer)], 0 ≤ trade.1 := by
  intro trade ht
  rcases List.mem_append.mp ht with ht | ht
  · exact hp trade ht
  · obtain rfl := List.mem_singleton.mp ht
    exact hq

theorem volumeUpTo_zero (hq : ∀ trade ∈ trades, 0 ≤ trade.1) : volumeUpTo buyer trades 0 = 0 := by
  induction trades with
  | nil => rfl
  | cons trade trades ih =>
    have hmin : min trade.1 0 = 0 := min_eq_right (hq trade List.mem_cons_self)
    rw [volumeUpTo, hmin, sub_zero, ih fun t ht => hq t (List.mem_cons_of_mem trade ht), ite_self,
      add_zero]

def added (v : Vpin kWindow K) (buyer : Bool) (qty : K) (side : Bool) : K :=
  v.current side + if buyer = side then qty else 0

theorem closes_eq (v : Vpin kWindow K) (buyer : Bool) (qty : K) :
    v.closes buyer qty = if v.bucketSize ≤ v.curFilled + qty then
      [|v.added buyer qty true - v.added buyer qty false| / v.bucketSize] else [] := by
  cases buyer <;> simp [closes, added, current]

theorem take_open (h : ¬ v.bucketSize ≤ v.curFilled + qty) :
    v.take buyer qty = { v with
      curBuy := v.added buyer qty true
      curSell := v.added buyer qty false
      curFilled := v.curFilled + qty } := by
  cases buyer <;> simp [take, h, added, current]

theorem take_full (h : v.bucketSize ≤ v.curFilled + qty) (hpos : 0 < v.bucketSize) :
    v.take buyer qty = { v with
      imbalances := Function.update v.imbalances v.head
        (|v.added buyer qty true - v.added buyer qty false| / v.bucketSize)
      head := (v.head + 1) % kWindow
      bucketsSeen := if v.bucketsSeen < kWindow * 2 then v.bucketsSeen + 1 else v.bucketsSeen
      curBuy := 0
      curSell := 0
      curFilled := 0 } := by
  cases buyer <;> simp [take, h, closeBucket, hpos, added, current]

variable [IsStrictOrderedRing K]

theorem volume_nonneg (hq : ∀ trade ∈ trades, 0 ≤ trade.1) : 0 ≤ volume trades := by
  refine List.sum_nonneg fun x hx => ?_
  obtain ⟨trade, ht, rfl⟩ := List.mem_map.mp hx
  exact hq trade ht

theorem volumeUpTo_append (hp : ∀ trade ∈ past, 0 ≤ trade.1) (hq : ∀ trade ∈ trades, 0 ≤ trade.1)
    (hx : 0 ≤ x) (hxp : x ≤ volume past) :
    volumeUpTo buyer (past ++ trades) x = volumeUpTo buyer past x := by
  induction past generalizing x with
  | nil =>
    obtain rfl : x = 0 := le_antisymm hxp hx
    exact volumeUpTo_zero hq
  | cons trade past ih =>
    rw [List.cons_append, volumeUpTo, volumeUpTo,
      ih (fun t ht => hp t (List.mem_cons_of_mem trade ht))]
    · exact sub_nonneg.mpr (min_le_right _ _)
    · have hv : volume (trade :: past) = trade.1 + volume past := List.sum_cons
      have := volume_nonneg fun t ht => hp t (List.mem_cons_of_mem trade ht)
      rcases min_cases trade.1 x with ⟨h, -⟩ | ⟨h, -⟩ <;> rw [h] <;> linarith

theorem volumeUpTo_append_add (hp : ∀ trade ∈ past, 0 ≤ trade.1) (hy : 0 ≤ y) :
    volumeUpTo buyer (past ++ trades) (volume past + y) =
      volumeUpTo buyer past (volume past) + volumeUpTo buyer trades y := by
  induction past with
  | nil => simp [volume, volumeUpTo]
  | cons trade past ih =>
    have hp' : ∀ t ∈ past, 0 ≤ t.1 := fun t ht => hp t (List.mem_cons_of_mem trade ht)
    have hv : volume (trade :: past) = trade.1 + volume past := List.sum_cons
    have hpos := volume_nonneg hp'
    have h₁ : min trade.1 (volume (trade :: past) + y) = trade.1 := min_eq_left (by linarith)
    have h₂ : min trade.1 (volume (trade :: past)) = trade.1 := min_eq_left (by linarith)
    rw [List.cons_append, volumeUpTo, volumeUpTo, h₁, h₂, hv, add_assoc trade.1,
      add_sub_cancel_left, add_sub_cancel_left, ih hp', add_assoc]

theorem chopped_new (hsize : 0 < size) : Chopped size [] (new size : Vpin kWindow K) [] := by
  refine ⟨hsize, rfl, ?_, ?_, hsize, ?_, ?_, nofun, nofun, ?_, ?_, nofun⟩
  · exact (add_zero _).symm
  · rintro (_ | _) <;> exact le_rfl
  · simp [volume, new]
  · rintro (_ | _) <;> simp [volumeWithin, volumeUpTo, current, new]
  · exact (Nat.zero_mod _).symm
  · exact (Nat.zero_min _).symm

namespace Chopped

variable (hc : Chopped size past v closed)

include hc

theorem filled_nonneg : 0 ≤ v.curFilled := by
  have hb : 0 ≤ v.curBuy := hc.nonneg true
  have hs : 0 ≤ v.curSell := hc.nonneg false
  rw [hc.filled]
  exact add_nonneg hb hs

theorem closed_le : (closed.length : K) * size ≤ volume past := by
  have := hc.filled_nonneg
  rw [hc.total]
  linarith

theorem added_nonneg (hq : 0 ≤ qty) (buyer side : Bool) : 0 ≤ v.added buyer qty side := by
  rw [added]
  split_ifs
  · exact add_nonneg (hc.nonneg side) hq
  · exact add_nonneg (hc.nonneg side) le_rfl

omit [IsStrictOrderedRing K] in
theorem added_sum (buyer : Bool) (qty : K) :
    v.added buyer qty true + v.added buyer qty false = v.curFilled + qty := by
  rw [hc.filled]
  cases buyer <;> simp [added, current] <;> ring

theorem added_eq (hp : ∀ trade ∈ past, 0 ≤ trade.1) (hq : 0 ≤ qty) (side : Bool) :
    v.added buyer qty side = volumeWithin side (past ++ [(qty, buyer)]) (closed.length * size)
      (volume past + qty) := by
  have hnn : (0 : K) ≤ closed.length * size := mul_nonneg (Nat.cast_nonneg _) hc.size_pos.le
  have hq' : ∀ trade ∈ [(qty, buyer)], 0 ≤ trade.1 := by simpa using hq
  rw [added, hc.share side, volumeWithin, volumeWithin, volumeUpTo_append_add hp hq,
    volumeUpTo_append hp hq' hnn hc.closed_le]
  simp only [volumeUpTo, min_self, add_zero]
  ring

theorem within_append {i : ℕ} (hp : ∀ trade ∈ past, 0 ≤ trade.1)
    (hq : ∀ trade ∈ trades, 0 ≤ trade.1) (hi : i < closed.length) (side : Bool) :
    volumeWithin side (past ++ trades) (i * size) ((i + 1) * size) =
      volumeWithin side past (i * size) ((i + 1) * size) := by
  have hsize := hc.size_pos
  have hle : ((i : K) + 1) * size ≤ volume past := by
    refine le_trans ?_ hc.closed_le
    have : ((i : K) + 1) ≤ closed.length := by exact_mod_cast hi
    gcongr
  have hle' : (i : K) * size ≤ ((i : K) + 1) * size := by nlinarith
  have hnn : (0 : K) ≤ i * size := by positivity
  rw [volumeWithin, volumeWithin, volumeUpTo_append hp hq (hnn.trans hle') hle,
    volumeUpTo_append hp hq hnn (hle'.trans hle)]

theorem take_stays (hp : ∀ trade ∈ past, 0 ≤ trade.1) (hq : 0 ≤ qty)
    (h : ¬ v.bucketSize ≤ v.curFilled + qty) :
    Chopped size (past ++ [(qty, buyer)]) (v.take buyer qty) (closed ++ v.closes buyer qty) := by
  have hq' : ∀ trade ∈ [(qty, buyer)], 0 ≤ trade.1 := by simpa using hq
  have htotal := volume_concat past qty buyer
  have hroom : v.curFilled + qty < size := hc.bucketSize ▸ not_le.mp h
  rw [closes_eq, if_neg h, take_open h, List.append_nil]
  refine ⟨hc.size_pos, hc.bucketSize, (hc.added_sum buyer qty).symm, ?_, hroom, ?_, ?_, ?_,
    hc.unit, hc.head, hc.seen, hc.ring⟩
  · rintro (_ | _) <;> exact hc.added_nonneg hq buyer _
  · rw [htotal, hc.total, add_assoc]
  · rw [htotal]
    rintro (_ | _) <;> exact hc.added_eq hp hq _
  · intro i x hx
    obtain ⟨hi, -⟩ := List.getElem?_eq_some_iff.mp hx
    rw [hc.within_append hp hq' hi, hc.within_append hp hq' hi]
    exact hc.imbalance i x hx

theorem take_closes (hp : ∀ trade ∈ past, 0 ≤ trade.1) (hq : 0 ≤ qty)
    (h : v.curFilled + qty = size) :
    Chopped size (past ++ [(qty, buyer)]) (v.take buyer qty) (closed ++ v.closes buyer qty) := by
  have hq' : ∀ trade ∈ [(qty, buyer)], 0 ≤ trade.1 := by simpa using hq
  have hsize := hc.size_pos
  have htotal : volume (past ++ [(qty, buyer)]) = (closed.length + 1) * size := by
    rw [volume_concat, hc.total]
    linarith
  have hfull : v.bucketSize ≤ v.curFilled + qty := (hc.bucketSize.trans h.symm).le
  have hshare (side : Bool) : v.added buyer qty side =
      volumeWithin side (past ++ [(qty, buyer)]) (closed.length * size)
        ((closed.length + 1) * size) := by
    rw [hc.added_eq hp hq, ← htotal, volume_concat]
  rw [closes_eq, if_pos hfull, take_full hfull (hc.bucketSize ▸ hsize), hc.bucketSize]
  generalize himb : |v.added buyer qty true - v.added buyer qty false| / size = imb
  have hunit : 0 ≤ imb ∧ imb ≤ 1 := by
    have hb := hc.added_nonneg hq buyer true
    have hs := hc.added_nonneg hq buyer false
    have hsum := hc.added_sum buyer qty
    rw [← himb]
    refine ⟨by positivity, (div_le_one hsize).mpr ?_⟩
    rw [abs_le]
    constructor <;> linarith
  have hlen : (closed ++ [imb]).length = closed.length + 1 := List.length_append
  have hsplit {i : ℕ} {x : K} (hx : (closed ++ [imb])[i]? = some x) :
      closed[i]? = some x ∧ i < closed.length ∨ i = closed.length ∧ x = imb := by
    rcases lt_trichotomy i closed.length with hi | hi | hi
    · rw [List.getElem?_append_left hi] at hx
      exact Or.inl ⟨hx, hi⟩
    · rw [hi, List.getElem?_concat_length] at hx
      exact Or.inr ⟨hi, (Option.some.inj hx).symm⟩
    · rw [List.getElem?_eq_none (by omega)] at hx
      cases hx
  refine ⟨hsize, rfl, (add_zero _).symm, ?_, hsize, ?_, ?_, ?_, ?_, ?_, ?_, ?_⟩
  · rintro (_ | _) <;> exact le_rfl
  · rw [htotal, hlen]
    push_cast
    exact (add_zero _).symm
  · rw [htotal, hlen]
    push_cast
    rintro (_ | _) <;> exact (sub_self _).symm
  · intro i x hx
    rcases hsplit hx with ⟨hx, hi⟩ | ⟨rfl, rfl⟩
    · rw [hc.within_append hp hq' hi, hc.within_append hp hq' hi]
      exact hc.imbalance i x hx
    · rw [← himb, hshare, hshare]
  · intro x hx
    rcases List.mem_append.mp hx with hx | hx
    · exact hc.unit x hx
    · obtain rfl := List.mem_singleton.mp hx
      exact hunit
  · dsimp only
    rw [hc.head, hlen, Nat.mod_add_mod]
  · dsimp only
    rw [hc.seen, hlen]
    split_ifs <;> omega
  · intro i x hx hwin
    dsimp only
    rw [hlen] at hwin
    rw [hc.head]
    rcases hsplit hx with ⟨hx, hi⟩ | ⟨rfl, rfl⟩
    -- the slot written is not one of the last `kWindow - 1`
    · have hne : i % kWindow ≠ closed.length % kWindow := by
        intro heq
        have hdvd := (Nat.modEq_iff_dvd' hi.le).mp heq
        have := Nat.le_of_dvd (by omega) hdvd
        omega
      rw [Function.update_of_ne hne]
      exact hc.ring i x hx (by omega)
    · exact Function.update_self ..

theorem take (hp : ∀ trade ∈ past, 0 ≤ trade.1) (buyer : Bool) (hq : 0 ≤ qty)
    (hle : qty ≤ v.bucketSize - v.curFilled) :
    Chopped size (past ++ [(qty, buyer)]) (v.take buyer qty) (closed ++ v.closes buyer qty) := by
  by_cases h : v.bucketSize ≤ v.curFilled + qty
  · have := hc.bucketSize
    exact hc.take_closes hp hq (by linarith)
  · exact hc.take_stays hp hq h

theorem congr {past' : List (K × Bool)} (hv : volume past' = volume past)
    (hu : ∀ side x, 0 ≤ x → volumeUpTo side past' x = volumeUpTo side past x) :
    Chopped size past' v closed := by
  have hsize := hc.size_pos
  have hw (side : Bool) {x y : K} (hx : 0 ≤ x) (hy : 0 ≤ y) :
      volumeWithin side past' x y = volumeWithin side past x y := by
    rw [volumeWithin, volumeWithin, hu side x hx, hu side y hy]
  have hle : (0 : K) ≤ closed.length * size := by positivity
  refine { hc with total := hv.trans hc.total, share := fun side => ?_, imbalance := ?_ }
  · rw [hv, hw side hle (hle.trans hc.closed_le)]
    exact hc.share side
  · intro i x hx
    have h₀ : (0 : K) ≤ i * size := by positivity
    have h₁ : (0 : K) ≤ (i + 1) * size := by positivity
    rw [hw true h₀ h₁, hw false h₀ h₁]
    exact hc.imbalance i x hx

end Chopped

theorem volumeUpTo_same (buyer side : Bool) (past : List (K × Bool)) {a b : K} (hb : 0 ≤ b)
    (x : K) : volumeUpTo side (past ++ [(a, buyer)] ++ [(b, buyer)]) x =
      volumeUpTo side (past ++ [(a + b, buyer)]) x := by
  have hmin (x : K) : min a x + min b (x - min a x) = min (a + b) x := by
    rcases le_total a x with h | h
    · rw [min_eq_left h, ← min_add_add_left, add_sub_cancel]
    · rw [min_eq_right h, sub_self, min_eq_right hb, add_zero, min_eq_right (by linarith)]
  induction past generalizing x with
  | nil =>
    simp only [List.nil_append, List.cons_append, volumeUpTo, add_zero]
    split_ifs
    · exact hmin x
    · exact add_zero 0
  | cons trade past ih =>
    simp only [List.cons_append, volumeUpTo] at ih ⊢
    rw [ih]

theorem volumeUpTo_idle (buyer side : Bool) (past : List (K × Bool)) {x : K} (hx : 0 ≤ x) :
    volumeUpTo side (past ++ [(0, buyer)]) x = volumeUpTo side past x := by
  induction past generalizing x with
  | nil => simp [volumeUpTo, hx]
  | cons trade past ih =>
    rw [List.cons_append, volumeUpTo, volumeUpTo, ih (sub_nonneg.mpr (min_le_right _ _))]

theorem Chopped.fill (hc : Chopped size past v closed) (hp : ∀ trade ∈ past, 0 ≤ trade.1)
    (hq : 0 ≤ qty) (hf : Fills buyer v qty w later) :
    Chopped size (past ++ [(qty, buyer)]) w (closed ++ later) := by
  induction hf generalizing past closed with
  | @done v remaining h =>
    obtain rfl : remaining = 0 := le_antisymm (not_lt.mp h) hq
    rw [List.append_nil]
    have hv := (volume_concat past 0 buyer).trans (add_zero _)
    exact hc.congr hv fun side x hx => volumeUpTo_idle buyer side past hx
  | @turn v w remaining later hpos hf ih =>
    have hroom : 0 ≤ v.bucketSize - v.curFilled := by
      have := hc.room
      have := hc.bucketSize
      linarith
    have htake := hc.take hp buyer (le_min hroom hq) (min_le_left _ _)
    have hrest : 0 ≤ remaining - min (v.bucketSize - v.curFilled) remaining :=
      sub_nonneg.mpr (min_le_right _ _)
    have hp' := nonneg_concat hp (le_min hroom hq) buyer
    rw [← List.append_assoc]
    refine (ih htake hp' hrest).congr ?_ fun side x hx => ?_
    · simp only [volume_concat]
      ring
    · rw [volumeUpTo_same buyer side past hrest, add_sub_cancel]

theorem Chopped.feed (hc : Chopped size past v closed) (hp : ∀ trade ∈ past, 0 ≤ trade.1)
    (hq : ∀ trade ∈ trades, 0 ≤ trade.1) (hf : Feeds v trades w later) :
    Chopped size (past ++ trades) w (closed ++ later) := by
  induction hf generalizing past closed with
  | nil => rwa [List.append_nil, List.append_nil]
  | @cons v w u qty buyer trades closed' later hfill _ ih =>
    have hqty : 0 ≤ qty := hq (qty, buyer) List.mem_cons_self
    have hp' := nonneg_concat hp hqty buyer
    have hrest := ih (hc.fill hp hqty hfill) hp' fun t ht => hq t (List.mem_cons_of_mem _ ht)
    rwa [List.append_assoc, List.append_assoc] at hrest

omit [LinearOrder K] [IsStrictOrderedRing K] in
theorem ring_sum (hring : ∀ (i : ℕ) (x : K), closed[i]? = some x → closed.length ≤ i + kWindow →
    v.imbalances (i % kWindow) = x) (hlen : kWindow ≤ closed.length) :
    ((List.range kWindow).map v.imbalances).sum = (closed.drop (closed.length - kWindow)).sum := by
  set m := closed.length - kWindow with hm
  have hdrop : closed.drop m = (List.range' m kWindow).map fun i => v.imbalances (i % kWindow) := by
    refine List.ext_getElem (by simp; omega) fun i h₁ h₂ => ?_
    simp only [List.getElem_drop, List.getElem_map, List.getElem_range', one_mul]
    rw [List.length_map, List.length_range'] at h₂
    exact (hring (m + i) _ (List.getElem?_eq_getElem (by omega)) (by omega)).symm
  have hmod := Nat.multiset_Ico_map_mod m kWindow
  have hico : Multiset.Ico m (m + kWindow) = ((List.range' m kWindow : List ℕ) : Multiset ℕ) := by
    change ((List.range' m (m + kWindow - m) : List ℕ) : Multiset ℕ) = _
    rw [Nat.add_sub_cancel_left]
  have hsum := congrArg (fun s => (s.map v.imbalances).sum) hmod
  rw [hico] at hsum
  simp only [Multiset.map_coe, Multiset.sum_coe, List.map_map] at hsum
  rw [hdrop]
  exact hsum.symm

omit [IsStrictOrderedRing K] in
theorem Chopped.value (hc : Chopped size past v closed) :
    v.value = if closed.length < kWindow then none
      else some ((closed.drop (closed.length - kWindow)).sum / kWindow) := by
  have hseen := hc.seen
  rw [Vpin.value]
  by_cases h : closed.length < kWindow
  · rw [if_pos h, if_pos (by omega)]
  · rw [if_neg h, if_neg (by omega), ring_sum hc.ring (not_lt.mp h)]

theorem Chopped.value_mem (hc : Chopped size past v closed) (hx : v.value = some x) :
    0 ≤ x ∧ x ≤ 1 := by
  rw [hc.value] at hx
  split_ifs at hx with h
  obtain rfl := Option.some.inj hx
  have hlast : ∀ x ∈ closed.drop (closed.length - kWindow), 0 ≤ x ∧ x ≤ 1 := fun x hx =>
    hc.unit x (List.mem_of_mem_drop hx)
  have hnn := List.sum_nonneg fun x hx => (hlast x hx).1
  have hle := List.sum_le_card_nsmul _ 1 fun x hx => (hlast x hx).2
  have hlen : (closed.drop (closed.length - kWindow)).length = kWindow := by
    rw [List.length_drop]
    omega
  rw [hlen, nsmul_one] at hle
  exact ⟨div_nonneg hnn (Nat.cast_nonneg _), div_le_one_of_le₀ hle (Nat.cast_nonneg _)⟩

omit [IsStrictOrderedRing K] in
theorem fills_of_drained (n : ℕ) (h : (Vpin.fill buyer n v qty).2 ≤ 0) :
    ∃ closed, Fills buyer v qty (Vpin.fill buyer n v qty).1 closed := by
  induction n generalizing v qty with
  | zero => exact ⟨_, .done (not_lt.mpr h)⟩
  | succ n ih =>
    rw [Vpin.fill] at h ⊢
    split_ifs at h ⊢ with hpos
    · obtain ⟨closed, hf⟩ := ih h
      exact ⟨_, .turn hpos hf⟩
    · exact ⟨_, .done hpos⟩

omit [IsStrictOrderedRing K] in
theorem Fills.unique (h : Fills buyer v qty w closed) (h' : Fills buyer v qty u later) :
    w = u ∧ closed = later := by
  induction h generalizing u later with
  | done hno =>
    cases h' with
    | done _ => exact ⟨rfl, rfl⟩
    | turn hpos _ => exact absurd hpos hno
  | turn hpos _ ih =>
    cases h' with
    | done hno => exact absurd hpos hno
    | turn _ hrest =>
      obtain ⟨rfl, rfl⟩ := ih hrest
      exact ⟨rfl, rfl⟩

omit [IsStrictOrderedRing K] in
theorem take_take {a b : K} (h : ¬ v.bucketSize ≤ v.curFilled + a) :
    (v.take buyer a).take buyer b = v.take buyer (a + b) := by
  rw [take_open h]
  cases buyer <;> simp [take, added, current, add_assoc]

theorem Fills.append {a b : K} (ha : 0 ≤ a) (hb : 0 ≤ b) (h : Fills buyer v a w closed)
    (h' : Fills buyer w b u later) : ∃ both, Fills buyer v (a + b) u both := by
  induction h generalizing later with
  | @done v remaining hno =>
    obtain rfl : remaining = 0 := le_antisymm (not_lt.mp hno) ha
    rw [zero_add]
    exact ⟨later, h'⟩
  | @turn v w remaining closed hpos hf ih =>
    have hab : 0 < remaining + b := by linarith
    rcases le_or_gt (v.bucketSize - v.curFilled) remaining with hle | hlt
    · have hmin : min (v.bucketSize - v.curFilled) (remaining + b) =
          min (v.bucketSize - v.curFilled) remaining := by
        rw [min_eq_left hle, min_eq_left (by linarith)]
      obtain ⟨both, hboth⟩ := ih (sub_nonneg.mpr (min_le_right _ _)) h'
      rw [← hmin, ← add_sub_right_comm] at hboth
      exact ⟨_, .turn hab hboth⟩
    -- the bucket stays open, and the first turn over `b` goes on filling it
    · have hopen : ¬ v.bucketSize ≤ v.curFilled + remaining := by linarith
      have hlast := hf
      rw [min_eq_right hlt.le, sub_self] at hlast
      obtain ⟨rfl, -⟩ := hlast.unique (.done (lt_irrefl 0))
      cases h' with
      | done hno =>
        obtain rfl : b = 0 := le_antisymm (not_lt.mp hno) hb
        rw [add_zero]
        exact ⟨_, .turn hpos hf⟩
      | @turn _ _ _ later hbpos hrest =>
        have hroom : (v.take buyer remaining).bucketSize - (v.take buyer remaining).curFilled =
            v.bucketSize - v.curFilled - remaining := by
          rw [bucketSize_take, curFilled_take, if_neg hopen]
          ring
        have hmin : remaining + min (v.bucketSize - v.curFilled - remaining) b =
            min (v.bucketSize - v.curFilled) (remaining + b) := by
          rw [← min_add_add_left, add_sub_cancel]
        rw [hroom, take_take hopen, hmin] at hrest
        have hrem : b - min (v.bucketSize - v.curFilled - remaining) b =
            remaining + b - min (v.bucketSize - v.curFilled) (remaining + b) := by
          rw [← hmin]
          ring
        rw [hrem] at hrest
        exact ⟨_, .turn hab hrest⟩

section Run

variable [FloorRing K]

theorem Chopped.onTrade_fills (hc : Chopped size past v closed) (buyer : Bool) (qty : K) :
    ∃ later, Fills buyer v qty (v.onTrade qty buyer) later := by
  have hsize := hc.size_pos
  have hroom := hc.room
  rw [← hc.bucketSize] at hsize hroom
  rw [onTrade, if_neg (not_le.mpr hsize)]
  exact fills_of_drained _ (onTrade_drains hroom hc.filled_nonneg buyer qty)

theorem Chopped.feeds (hc : Chopped size past v closed) (hp : ∀ trade ∈ past, 0 ≤ trade.1)
    (hq : ∀ trade ∈ trades, 0 ≤ trade.1) : ∃ later, Feeds v trades (v.feed trades) later := by
  induction trades generalizing v past closed with
  | nil => exact ⟨[], .nil⟩
  | cons trade trades ih =>
    obtain ⟨qty, buyer⟩ := trade
    have hqty : 0 ≤ qty := hq (qty, buyer) List.mem_cons_self
    obtain ⟨first, hfill⟩ := hc.onTrade_fills buyer qty
    have hp' := nonneg_concat hp hqty buyer
    obtain ⟨later, hrest⟩ :=
      ih (hc.fill hp hqty hfill) hp' fun t ht => hq t (List.mem_cons_of_mem _ ht)
    exact ⟨_, .cons hfill hrest⟩

omit [FloorRing K] in
theorem Feeds.merge {parts : List K} (hparts : ∀ part ∈ parts, 0 ≤ part)
    (h : Feeds v (parts.map (·, buyer)) u closed) : ∃ later, Fills buyer v parts.sum u later := by
  induction parts generalizing v closed with
  | nil =>
    cases h
    exact ⟨_, .done (lt_irrefl 0)⟩
  | cons part parts ih =>
    cases h with
    | cons hfill hrest =>
      have htail : ∀ part ∈ parts, 0 ≤ part := fun p hp => hparts p (List.mem_cons_of_mem _ hp)
      obtain ⟨later, hlater⟩ := ih htail hrest
      rw [List.sum_cons]
      exact hfill.append (hparts part List.mem_cons_self) (List.sum_nonneg htail) hlater

variable (kWindow) in
theorem onTrade_chops {size : K} (hsize : 0 < size) {trades : List (K × Bool)}
    (hq : ∀ trade ∈ trades, 0 ≤ trade.1) :
    ∃ (v : Vpin kWindow K) (closed : List K), v = (new size).feed trades ∧
      Feeds (new size) trades v closed ∧
      0 ≤ v.curFilled ∧ v.curFilled = v.curBuy + v.curSell ∧ v.curFilled < v.bucketSize ∧
      volume trades = closed.length * size + v.curFilled ∧
      (∀ (i : ℕ) (x : K), closed[i]? = some x →
        x = |volumeWithin true trades (i * size) ((i + 1) * size) -
          volumeWithin false trades (i * size) ((i + 1) * size)| / size) ∧
      v.value = (if closed.length < kWindow then none
        else some ((closed.drop (closed.length - kWindow)).sum / kWindow)) ∧
      (∀ x, v.value = some x → 0 ≤ x ∧ x ≤ 1) ∧
      ∀ (buyer : Bool) (parts : List K), (∀ part ∈ parts, 0 ≤ part) →
        v.feed (parts.map (·, buyer)) = v.onTrade parts.sum buyer := by
  have hnew : Chopped size [] (new size : Vpin kWindow K) [] := chopped_new hsize
  obtain ⟨closed, hfeeds⟩ := hnew.feeds nofun hq
  have hc := hnew.feed nofun hq hfeeds
  have hroom := hc.room.trans_eq hc.bucketSize.symm
  refine ⟨_, closed, rfl, hfeeds, hc.filled_nonneg, hc.filled, hroom, hc.total,
    hc.imbalance, hc.value, fun x hx => hc.value_mem hx, fun buyer parts hparts => ?_⟩
  have hparts' : ∀ trade ∈ parts.map (·, buyer), 0 ≤ trade.1 := by simpa using hparts
  obtain ⟨later, hsplit⟩ := hc.feeds hq hparts'
  obtain ⟨_, hmerged⟩ := hsplit.merge hparts
  obtain ⟨_, hwhole⟩ := hc.onTrade_fills buyer parts.sum
  exact (hmerged.unique hwhole).1

end Run

theorem onTrade_chops_sample :
    ∃ (v : Vpin kVpinWindow ℚ) (closed : List ℚ),
      v = (new 10).feed [(7, true), (28, false)] ∧
      Feeds (new 10) [(7, true), (28, false)] v closed ∧
      volume [((7 : ℚ), true), (28, false)] = closed.length * 10 + v.curFilled := by
  obtain ⟨v, closed, hv, hfeeds, -, -, -, htotal, -⟩ :=
    onTrade_chops kVpinWindow (show (0 : ℚ) < 10 by norm_num)
      (show ∀ trade ∈ [((7 : ℚ), true), (28, false)], 0 ≤ trade.1 by decide)
  exact ⟨v, closed, hv, hfeeds, htotal⟩

end Vpin
end Trading
