import Mathlib.Data.Rat.Floor
import TradingEcosystem.Common.Fault
import TradingEcosystem.Library.Sorting

namespace Common

/-- `count` and `buckets` stand for `uint64_t` counters, which hold them (`counters_fit`). -/
structure LatencyHistogram where
  buckets : ℕ → ℕ
  count : ℕ
  sum : ℕ
  min : ℤ
  max : ℤ

namespace LatencyHistogram

def new : LatencyHistogram := ⟨fun _ => 0, 0, 0, 2 ^ 63 - 1, 0⟩

def clamp (value : ℤ) : ℕ := value.toNat

/-- `63 - __builtin_clzll(value)` is the binary logarithm. -/
def bucketOf (value : ℕ) : ℕ := if value = 0 then 0 else value.log2

def record (h : LatencyHistogram) (value : ℤ) : Outcome LatencyHistogram := do
  let value := clamp value
  let bucket := bucketOf value
  require (bucket < 64) .outOfRange
  pure { buckets := fun i => if i = bucket then h.buckets i + 1 else h.buckets i
         count := h.count + 1
         sum := (h.sum + value) % 2 ^ 64
         min := if value < h.min then value else h.min
         max := if h.max < value then value else h.max }

def recordAll (h : LatencyHistogram) : List ℤ → Outcome LatencyHistogram
  | [] => pure h
  | value :: values => do
      let h ← h.record value
      h.recordAll values

/-- `1ULL << n`. -/
def shift (n : ℕ) : Outcome ℕ := do
  require (n < 64) .outOfRange
  pure (2 ^ n)

def interpolate (h : LatencyHistogram) (target i cumulative : ℕ) : Outcome ℤ :=
  if i = 0 then pure 0
  else do
    let low ← shift i
    let high ← shift (i + 1)
    let prev := cumulative - h.buckets i
    let frac : ℚ := if 0 < h.buckets i then ((target - prev : ℕ) : ℚ) / h.buckets i else 0
    pure ⌊(low : ℚ) + frac * (high - low : ℕ)⌋

def scan (h : LatencyHistogram) (target : ℕ) : ℕ → ℕ → ℕ → Outcome ℤ
  | 0, _, _ => pure h.max
  | n + 1, i, cumulative =>
      let cumulative := cumulative + h.buckets i
      if target ≤ cumulative then h.interpolate target i cumulative
      else scan h target n (i + 1) cumulative

def target (h : LatencyHistogram) (p : ℚ) : ℕ :=
  let p := if p < 0 then 0 else p
  let p := if 1 < p then 1 else p
  ⌊p * h.count⌋₊

def percentile (h : LatencyHistogram) (p : ℚ) : Outcome ℤ :=
  if h.count = 0 then pure 0 else h.scan (h.target p) 64 0 0

def upTo (h : LatencyHistogram) (i : ℕ) : ℕ := ((List.range (i + 1)).map h.buckets).sum

def StopsAt (h : LatencyHistogram) (target i : ℕ) : Prop :=
  target ≤ h.upTo i ∧ ∀ j < i, h.upTo j < target

variable {h : LatencyHistogram} {t u i k : ℕ}

theorem upTo_succ (h : LatencyHistogram) (i : ℕ) :
    h.upTo (i + 1) = h.upTo i + h.buckets (i + 1) := by
  simp only [upTo, List.range_succ (n := i + 1), List.map_append, List.sum_append, List.map_cons,
    List.map_nil, List.sum_singleton]

theorem bucket_le_upTo (h : LatencyHistogram) (i : ℕ) : h.buckets i ≤ h.upTo i := by
  cases i with
  | zero => simp [upTo]
  | succ i =>
    rw [upTo_succ]
    exact Nat.le_add_left ..

theorem scan_stops (hk : h.StopsAt t k) {n : ℕ} (hik : i ≤ k) (hkn : k < i + n) :
    h.scan t n i (h.upTo i - h.buckets i) = h.interpolate t k (h.upTo k) := by
  induction n generalizing i with
  | zero => omega
  | succ n ih =>
    rw [scan, Nat.sub_add_cancel (h.bucket_le_upTo i)]
    rcases Nat.lt_or_eq_of_le hik with hlt | rfl
    · have hnot : ¬ t ≤ h.upTo i := Nat.not_le.mpr (hk.2 i hlt)
      rw [if_neg hnot]
      have hnext := ih (i := i + 1) hlt (by omega)
      rw [upTo_succ, Nat.add_sub_cancel] at hnext
      exact hnext
    · rw [if_pos hk.1]

theorem exists_stopsAt {m : ℕ} (ht : t ≤ h.upTo m) : ∃ k ≤ m, h.StopsAt t k := by
  have hex : ∃ k, t ≤ h.upTo k := ⟨m, ht⟩
  refine ⟨Nat.find hex, Nat.find_min' hex ht, Nat.find_spec hex, fun j hj => ?_⟩
  exact Nat.not_le.mp (Nat.find_min hex hj)

theorem StopsAt.mono (ht : h.StopsAt t i) (hu : h.StopsAt u k) (htu : t ≤ u) : i ≤ k := by
  by_contra hlt
  have := ht.2 k (Nat.not_le.mp hlt)
  have := hu.1
  omega

def valueAt (h : LatencyHistogram) (t : ℕ) : ℕ → ℤ
  | 0 => 0
  | k + 1 => ⌊(2 ^ (k + 1) : ℚ) + ((t - h.upTo k : ℕ) : ℚ) / h.buckets (k + 1) * 2 ^ (k + 1)⌋

theorem StopsAt.share (hs : h.StopsAt t (k + 1)) :
    0 < t - h.upTo k ∧ t - h.upTo k ≤ h.buckets (k + 1) := by
  have h₁ := hs.1
  have h₂ := hs.2 k (Nat.lt_succ_self k)
  rw [upTo_succ] at h₁
  omega

theorem interpolate_eq (hs : h.StopsAt t k) (hk : k + 1 < 64) :
    h.interpolate t k (h.upTo k) = .ok (h.valueAt t k) := by
  cases k with
  | zero => rfl
  | succ k =>
    obtain ⟨hpos, hle⟩ := hs.share
    have hprev : h.upTo (k + 1) - h.buckets (k + 1) = h.upTo k := by
      rw [upTo_succ, Nat.add_sub_cancel]
    have hwidth : (2 ^ (k + 1 + 1) - 2 ^ (k + 1) : ℕ) = 2 ^ (k + 1) := by
      rw [pow_succ 2 (k + 1)]
      omega
    rw [interpolate, if_neg (Nat.succ_ne_zero k), shift, require_of _ (by omega), ok_bind, pure_ok,
      ok_bind, shift, require_of _ hk, ok_bind, pure_ok, ok_bind]
    dsimp only
    rw [hprev, if_pos (hpos.trans_le hle), hwidth]
    simp [valueAt]

theorem valueAt_bounds (hs : h.StopsAt t (k + 1)) :
    2 ^ (k + 1) ≤ h.valueAt t (k + 1) ∧ h.valueAt t (k + 1) ≤ 2 ^ (k + 1 + 1) := by
  obtain ⟨hpos, hle⟩ := hs.share
  have hb : (0 : ℚ) < h.buckets (k + 1) := by exact_mod_cast hpos.trans_le hle
  have hshare : ((t - h.upTo k : ℕ) : ℚ) / h.buckets (k + 1) ≤ 1 := by
    rw [div_le_one hb]
    exact_mod_cast hle
  have hnonneg : (0 : ℚ) ≤ ((t - h.upTo k : ℕ) : ℚ) / h.buckets (k + 1) := by positivity
  have hpow : (0 : ℚ) < 2 ^ (k + 1) := by positivity
  constructor
  · refine Int.le_floor.mpr ?_
    push_cast
    nlinarith
  · have hfloor := Int.floor_le
      ((2 ^ (k + 1) : ℚ) + ((t - h.upTo k : ℕ) : ℚ) / h.buckets (k + 1) * 2 ^ (k + 1))
    have hup : (h.valueAt t (k + 1) : ℚ) ≤ 2 ^ (k + 1 + 1) := by
      refine hfloor.trans ?_
      rw [pow_succ (2 : ℚ) (k + 1)]
      nlinarith
    exact_mod_cast hup

theorem valueAt_mono (ht : h.StopsAt t i) (hu : h.StopsAt u k) (htu : t ≤ u) :
    h.valueAt t i ≤ h.valueAt u k := by
  have hik := ht.mono hu htu
  cases k with
  | zero =>
    obtain rfl := Nat.le_zero.mp hik
    exact le_rfl
  | succ k =>
    cases i with
    | zero => exact (show (0 : ℤ) ≤ 2 ^ (k + 1) by positivity).trans (valueAt_bounds hu).1
    | succ i =>
      rcases Nat.lt_or_eq_of_le hik with hlt | heq
      · refine (valueAt_bounds ht).2.trans (le_trans ?_ (valueAt_bounds hu).1)
        exact pow_le_pow_right₀ one_le_two hlt
      · obtain rfl : i = k := Nat.succ_injective heq
        refine Int.floor_le_floor ?_
        have hle : ((t - h.upTo i : ℕ) : ℚ) ≤ ((u - h.upTo i : ℕ) : ℚ) := by
          exact_mod_cast Nat.sub_le_sub_right htu _
        gcongr

theorem bucketOf_le_iff (v i : ℕ) : bucketOf v ≤ i ↔ v < 2 ^ (i + 1) := by
  rw [bucketOf]
  split_ifs with hv
  · rw [hv]
    exact iff_of_true (Nat.zero_le i) (by positivity)
  · rw [← Nat.log2_lt hv, Nat.lt_succ_iff]

theorem upTo_bump (h h' : LatencyHistogram) (b : ℕ)
    (hb : ∀ i, h'.buckets i = if i = b then h.buckets i + 1 else h.buckets i) (i : ℕ) :
    h'.upTo i = h.upTo i + if b ≤ i then 1 else 0 := by
  induction i with
  | zero =>
    have h₀ : ∀ g : LatencyHistogram, g.upTo 0 = g.buckets 0 := fun g => by simp [upTo]
    rw [h₀, h₀, hb]
    split_ifs <;> omega
  | succ i ih =>
    rw [upTo_succ, upTo_succ, ih, hb]
    split_ifs <;> omega

def Counts (h : LatencyHistogram) (values : List ℕ) : Prop :=
  h.count = values.length ∧ ∀ i, h.upTo i = values.countP (· < 2 ^ (i + 1))

theorem counts_new : new.Counts [] := by
  refine ⟨rfl, fun i => ?_⟩
  induction i with
  | zero => rfl
  | succ i ih =>
    rw [upTo_succ, ih]
    rfl

theorem Counts.record {past : List ℕ} {v : ℤ} (hc : h.Counts past) (hv : v < 2 ^ 62) :
    ∃ h', h.record v = .ok h' ∧ h'.Counts (clamp v :: past) := by
  have hclamp : clamp v < 2 ^ (61 + 1) := by
    rw [clamp]
    omega
  have hbucket : bucketOf (clamp v) < 64 := by
    have := (bucketOf_le_iff (clamp v) 61).mpr hclamp
    omega
  refine ⟨_, by rw [LatencyHistogram.record, require_of _ hbucket, ok_bind]; rfl, ?_, fun i => ?_⟩
  · exact congrArg (· + 1) hc.1
  · rw [upTo_bump h _ (bucketOf (clamp v)) (fun i => rfl), hc.2 i, List.countP_cons]
    simp only [bucketOf_le_iff, decide_eq_true_eq]

theorem Counts.recordAll {past : List ℕ} {values : List ℤ} (hc : h.Counts past)
    (hlt : ∀ v ∈ values, v < 2 ^ 62) :
    ∃ h', h.recordAll values = .ok h' ∧ h'.Counts ((values.map clamp).reverse ++ past) := by
  induction values generalizing h past with
  | nil => exact ⟨h, rfl, hc⟩
  | cons v values ih =>
    obtain ⟨h₁, hv, hc₁⟩ := hc.record (hlt v List.mem_cons_self)
    obtain ⟨h', hrest, hc'⟩ := ih hc₁ fun w hw => hlt w (List.mem_cons_of_mem v hw)
    refine ⟨h', ?_, ?_⟩
    · rw [LatencyHistogram.recordAll, hv, ok_bind, hrest]
    · simpa using hc'

theorem Counts.fit {past : List ℕ} (hc : h.Counts past) (hlen : past.length < 2 ^ 64) :
    h.count < 2 ^ 64 ∧ ∀ i, h.buckets i < 2 ^ 64 := by
  refine ⟨hc.1 ▸ hlen, fun i => ?_⟩
  refine ((h.bucket_le_upTo i).trans ?_).trans_lt hlen
  rw [hc.2]
  exact List.countP_le_length

theorem counters_fit {values : List ℤ} (hlt : ∀ v ∈ values, v < 2 ^ 62)
    (hlen : values.length < 2 ^ 64) :
    ∃ h, new.recordAll values = .ok h ∧ h.count < 2 ^ 64 ∧ ∀ i, h.buckets i < 2 ^ 64 := by
  obtain ⟨h, hrec, hc⟩ := counts_new.recordAll hlt
  refine ⟨h, hrec, hc.fit ?_⟩
  rw [List.append_nil, List.length_reverse, List.length_map]
  exact hlen

theorem Counts.perm {past ranked : List ℕ} (hc : h.Counts past) (hp : ranked.Perm past) :
    h.Counts ranked :=
  ⟨hc.1.trans hp.length_eq.symm, fun i => (hc.2 i).trans (hp.countP_eq _).symm⟩

theorem Counts.stopsAt {ranked : List ℕ} {v : ℕ} (hc : h.Counts ranked)
    (hsorted : ranked.Pairwise (· ≤ ·)) (ht : 1 ≤ t) (hv : ranked[t - 1]? = some v)
    (hhigh : v < 2 ^ (k + 1)) (hlow : ∀ j < k, 2 ^ (j + 1) ≤ v) : h.StopsAt t k := by
  constructor
  · have := (Sorting.lt_iff_rank hsorted hv).mp hhigh
    rw [hc.2]
    omega
  · intro j hj
    have hnot := mt (Sorting.lt_iff_rank hsorted hv).mpr (Nat.not_lt.mpr (hlow j hj))
    rw [hc.2]
    omega

theorem target_eq (h : LatencyHistogram) {p : ℚ} (hp : 0 ≤ p) (hp' : p ≤ 1) :
    h.target p = ⌊p * h.count⌋₊ := by
  rw [target, if_neg (not_lt.mpr hp), if_neg (not_lt.mpr hp')]

theorem target_le (h : LatencyHistogram) {p : ℚ} (hp : 0 ≤ p) (hp' : p ≤ 1) :
    h.target p ≤ h.count := by
  rw [target_eq h hp hp']
  refine (Nat.floor_le_floor (mul_le_of_le_one_left ?_ hp')).trans (Nat.floor_natCast _).le
  positivity

theorem target_mono (h : LatencyHistogram) {p q : ℚ} (hp : 0 ≤ p) (hpq : p ≤ q) (hq : q ≤ 1) :
    h.target p ≤ h.target q := by
  rw [target_eq h hp (hpq.trans hq), target_eq h (hp.trans hpq) hq]
  gcongr

theorem percentile_eq (hpos : 0 < h.count) {p : ℚ} (hs : h.StopsAt (h.target p) k)
    (hk : k ≤ 61) : h.percentile p = .ok (h.valueAt (h.target p) k) := by
  rw [percentile, if_neg hpos.ne', ← interpolate_eq hs (by omega)]
  have hfirst : h.upTo 0 - h.buckets 0 = 0 := by simp [upTo]
  have hscan := scan_stops hs (n := 64) (Nat.zero_le k) (by omega)
  rwa [hfirst] at hscan

theorem Counts.stops {values : List ℕ} (hc : h.Counts values) (hlt : ∀ v ∈ values, v < 2 ^ 62)
    {p : ℚ} (hp : 0 ≤ p) (hp' : p ≤ 1) : ∃ k ≤ 61, h.StopsAt (h.target p) k := by
  have hall : h.upTo 61 = h.count := by
    rw [hc.2, hc.1, List.countP_eq_length]
    intro v hv
    exact decide_eq_true (hlt v hv)
  exact exists_stopsAt ((h.target_le hp hp').trans hall.ge)

theorem percentile_within_bucket {values : List ℤ} (hne : values ≠ [])
    (hlt : ∀ v ∈ values, v < 2 ^ 62) :
    ∃ h, new.recordAll values = .ok h ∧
      (∀ p q : ℚ, 0 ≤ p → p ≤ q → q ≤ 1 →
        ∃ x y, h.percentile p = .ok x ∧ h.percentile q = .ok y ∧ x ≤ y) ∧
      ∀ (p : ℚ) (ranked : List ℕ) (v : ℕ), 0 ≤ p → p ≤ 1 →
        ranked.Perm (values.map clamp) → ranked.Pairwise (· ≤ ·) →
        1 ≤ ⌊p * values.length⌋₊ → ranked[⌊p * values.length⌋₊ - 1]? = some v →
          ∃ x, h.percentile p = .ok x ∧ (v ≤ 1 → x = 0) ∧
            (1 < v → ∀ k, 2 ^ k ≤ v → v < 2 ^ (k + 1) → 2 ^ k ≤ x ∧ x ≤ 2 ^ (k + 1)) := by
  obtain ⟨h, hrec, hc⟩ := counts_new.recordAll hlt
  have hperm : ((values.map clamp).reverse ++ []).Perm (values.map clamp) := by
    rw [List.append_nil]
    exact List.reverse_perm _
  replace hc := hc.perm hperm.symm
  have hcount : h.count = values.length := hc.1.trans (List.length_map _)
  have hpos : 0 < h.count := hcount ▸ List.length_pos_iff.mpr hne
  have hclamp : ∀ v ∈ values.map clamp, v < 2 ^ 62 := by
    intro v hv
    obtain ⟨w, hw, rfl⟩ := List.mem_map.mp hv
    have := hlt w hw
    rw [clamp]
    omega
  refine ⟨h, hrec, ?_, ?_⟩
  · intro p q hp hpq hq
    obtain ⟨i, hi, hsi⟩ := hc.stops hclamp hp (hpq.trans hq)
    obtain ⟨k, hk, hsk⟩ := hc.stops hclamp (hp.trans hpq) hq
    exact ⟨_, _, percentile_eq hpos hsi hi, percentile_eq hpos hsk hk,
      valueAt_mono hsi hsk (h.target_mono hp hpq hq)⟩
  · intro p ranked v hp hp' hranked hsorted ht hv
    rw [← hcount, ← h.target_eq hp hp'] at ht hv
    have hstop {k} := (hc.perm hranked).stopsAt (k := k) hsorted ht hv
    obtain ⟨i, hi, hsi⟩ := hc.stops hclamp hp hp'
    refine ⟨_, percentile_eq hpos hsi hi, ?_, ?_⟩
    · intro hv₁
      have hs := hstop (k := 0) (by omega) nofun
      obtain rfl : i = 0 := Nat.le_zero.mp (hsi.mono hs le_rfl)
      rfl
    · intro hv₁ k hlow hhigh
      have hs := hstop hhigh fun j hj => (Nat.pow_le_pow_right two_pos hj).trans hlow
      obtain rfl : i = k := le_antisymm (hsi.mono hs le_rfl) (hs.mono hsi le_rfl)
      cases i with
      | zero => omega
      | succ i => exact valueAt_bounds hs

theorem percentile_within_bucket_sample :
    ∃ h, new.recordAll [-3, 1, 5, 9, 6] = .ok h ∧
      ∃ x, h.percentile (3 / 5) = .ok x ∧ 4 ≤ x ∧ x ≤ 8 := by
  obtain ⟨h, hrec, -, hrank⟩ := percentile_within_bucket
    (show ([-3, 1, 5, 9, 6] : List ℤ) ≠ [] by decide) (by decide)
  have hfloor : ⌊(3 / 5 : ℚ) * ([-3, 1, 5, 9, 6] : List ℤ).length⌋₊ = 3 := by norm_num
  obtain ⟨x, hx, -, hbounds⟩ := hrank (3 / 5) [0, 1, 5, 6, 9] 5 (by norm_num) (by norm_num)
    (by decide) (by decide) (by rw [hfloor]; decide) (by rw [hfloor]; rfl)
  exact ⟨h, hrec, x, hx, hbounds (by decide) 2 (by decide) (by decide)⟩

end LatencyHistogram

end Common
