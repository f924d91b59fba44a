import TradingEcosystem.Common.BookFrame
import TradingEcosystem.Backtest.BookReplay

namespace Backtest

open Common Exchange Trading

def FreshRun (m : MarketOrderBook) : List MEMarketUpdate → Prop
  | [] => True
  | u :: us => (u.type = .add → m.oidToOrder u.orderId = none) ∧
      ∀ m' c, m.onMarketUpdate u = .ok (m', c) → FreshRun m' us

structure Tracked (m : MarketOrderBook) (ids : ℕ → Prop) : Prop where
  block : ∀ i a, m.oidToOrder i = some a →
    (m.book.orderPool.store a).isFree = false ∧ (m.book.orderPool.store a).object.ids = i
  ids_iff : ∀ i, m.oidToOrder i ≠ none ↔ ids i

section Book

variable {m m' : MarketOrderBook} {u : MEMarketUpdate} {us vs : List MEMarketUpdate}
  {ids ids' : ℕ → Prop} {c : Callback}

theorem freshRun_append : FreshRun m (us ++ vs) ↔
    FreshRun m us ∧ ∀ m', m.run us = .ok m' → FreshRun m' vs :=
  along_append (fun _ => trivial) Iff.rfl

theorem Tracked.congr (h : Tracked m ids) (hids : ∀ i, ids i ↔ ids' i) : Tracked m ids' :=
  ⟨h.block, fun i => (h.ids_iff i).trans (hids i)⟩

theorem Tracked.eq_none (h : Tracked m ids) (i : ℕ) : m.oidToOrder i = none ↔ ¬ ids i := by
  rw [← h.ids_iff, not_not]

theorem tracked_new (checked : Bool) (tickerId : ℕ) :
    Tracked (MarketOrderBook.new checked tickerId) fun _ => False :=
  ⟨nofun, fun _ => ⟨fun h => h rfl, False.elim⟩⟩

theorem onMarketUpdate_mutate (ht : u.type ≠ .trade) (h : m.onMarketUpdate u = .ok (m', c)) :
    ∃ m₁, m.mutate u = .ok m₁ ∧ m'.oidToOrder = m₁.oidToOrder ∧ m'.book = m₁.book := by
  have hbid : ∀ {n n' : MarketOrderBook} {up : Bool}, n.updateBid up = .ok n' →
      n'.oidToOrder = n.oidToOrder ∧ n'.book = n.book := by
    intro n n' up h
    unfold MarketOrderBook.updateBid at h
    split_ifs at h
    · obtain ⟨⟨price, qty⟩, -, h⟩ := bind_eq_ok.mp h
      cases h
      exact ⟨rfl, rfl⟩
    · cases h
      exact ⟨rfl, rfl⟩
  have hask : ∀ {n n' : MarketOrderBook} {up : Bool}, n.updateAsk up = .ok n' →
      n'.oidToOrder = n.oidToOrder ∧ n'.book = n.book := by
    intro n n' up h
    unfold MarketOrderBook.updateAsk at h
    split_ifs at h
    · obtain ⟨⟨price, qty⟩, -, h⟩ := bind_eq_ok.mp h
      cases h
      exact ⟨rfl, rfl⟩
    · cases h
      exact ⟨rfl, rfl⟩
  obtain ⟨_, -, h⟩ := bind_eq_ok.mp h
  obtain ⟨_, -, h⟩ := bind_eq_ok.mp h
  rw [if_neg ht] at h
  obtain ⟨m₁, hm₁, h⟩ := bind_eq_ok.mp h
  obtain ⟨m₂, hm₂, h⟩ := bind_eq_ok.mp h
  cases h
  obtain ⟨m₃, hm₃, hm₂⟩ := bind_eq_ok.mp hm₂
  obtain ⟨ho₃, hb₃⟩ := hbid hm₃
  obtain ⟨ho₂, hb₂⟩ := hask hm₂
  exact ⟨m₁, hm₁, ho₂.trans ho₃, hb₂.trans hb₃⟩

theorem isFree_of_allocate {α : Type} {pool pool' : MemPool α} {object : α} {index : ℕ}
    (h : pool.allocate object = .ok (index, pool')) : (pool.store index).isFree = true := by
  obtain ⟨rfl, -⟩ := MemPool.allocate_eq_ok h
  obtain ⟨_, hfree, -⟩ := bind_eq_ok.mp h
  exact of_require hfree

theorem Tracked.add (h : Tracked m ids) (ht : u.type = .add)
    (hm : m.onMarketUpdate u = .ok (m', c)) : Tracked m' fun i => ids i ∨ i = u.orderId := by
  obtain ⟨m₁, hmut, hix, hbook⟩ := onMarketUpdate_mutate (by simp [ht]) hm
  rw [MarketOrderBook.mutate, ht] at hmut
  obtain ⟨⟨x, b⟩, hal, hmut⟩ := bind_eq_ok.mp hmut
  obtain ⟨⟨new, pool⟩, hpool, hal⟩ := bind_eq_ok.mp hal
  cases hal
  obtain ⟨-, hstore⟩ := MemPool.allocate_eq_ok hpool
  have hfree := isFree_of_allocate hpool
  obtain ⟨rfl, -⟩ := MemPool.allocate_eq_ok hpool
  obtain ⟨b', hlink, hmut⟩ := bind_eq_ok.mp hmut
  obtain ⟨o, ho, hmut⟩ := bind_eq_ok.mp hmut
  obtain ⟨_, -, hmut⟩ := bind_eq_ok.mp hmut
  cases hmut
  set x := m.book.orderPool.nextFreeIndex
  have hsame := BookStore.sameOrders_linkOrder hlink
  have hx : (b'.orderPool.store x).isFree = false ∧
      (b'.orderPool.store x).object.ids = u.orderId := by
    have hinfo := hsame.info x
    have hput := congrFun hstore x
    rw [MemPool.store_put, if_pos rfl] at hput
    rw [hsame.isFree, hinfo]
    change (pool.store x).isFree = false ∧ (pool.store x).object.ids = u.orderId
    rw [hput]
    exact ⟨rfl, rfl⟩
  have hother : ∀ a, a ≠ x → (b'.orderPool.store a).isFree = (m.book.orderPool.store a).isFree ∧
      (b'.orderPool.store a).object.ids = (m.book.orderPool.store a).object.ids := by
    intro a ha
    have hinfo := hsame.info a
    have hput := congrFun hstore a
    rw [MemPool.store_put, if_neg ha] at hput
    rw [hsame.isFree, hinfo]
    change (pool.store a).isFree = _ ∧ (pool.store a).object.ids = _
    rw [hput]
    exact ⟨rfl, rfl⟩
  have hids : o.ids = u.orderId := by
    rw [← MemPool.read_eq_ok ho]
    exact hx.2
  have hix' : ∀ i, m'.oidToOrder i = if i = u.orderId then some x else m.oidToOrder i := by
    intro i
    rw [hix, ← hids]
    rfl
  refine ⟨fun i a ha => ?_, fun i => ?_⟩
  · rw [hix'] at ha
    rw [hbook]
    split_ifs at ha with hi
    · cases ha
      rw [hi]
      exact hx
    · obtain ⟨hlive, hid⟩ := h.block i a ha
      have hne : a ≠ x := by
        rintro rfl
        rw [hfree] at hlive
        cases hlive
      exact ⟨(hother a hne).1.trans hlive, (hother a hne).2.trans hid⟩
  · rw [hix']
    split_ifs with hi
    · simp [hi]
    · simp [hi, h.ids_iff]

theorem Tracked.cancel (h : Tracked m ids) (ht : u.type = .cancel)
    (hm : m.onMarketUpdate u = .ok (m', c)) : Tracked m' fun i => ids i ∧ i ≠ u.orderId := by
  obtain ⟨m₁, hmut, hix, hbook⟩ := onMarketUpdate_mutate (by simp [ht]) hm
  rw [MarketOrderBook.mutate, ht] at hmut
  obtain ⟨x, hfind, hmut⟩ := bind_eq_ok.mp hmut
  obtain ⟨_, -, hfind⟩ := bind_eq_ok.mp hfind
  have hfound : m.oidToOrder u.orderId = some x := by
    cases hx : m.oidToOrder u.orderId with
    | none =>
      rw [hx] at hfind
      cases hfind
    | some y =>
      rw [hx] at hfind
      cases hfind
      rfl
  obtain ⟨b, hunlink, hmut⟩ := bind_eq_ok.mp hmut
  obtain ⟨o, ho, hmut⟩ := bind_eq_ok.mp hmut
  obtain ⟨m₂, hm₂, hmut⟩ := bind_eq_ok.mp hmut
  obtain ⟨_, -, hm₂⟩ := bind_eq_ok.mp hm₂
  cases hm₂
  obtain ⟨b', hde, hmut⟩ := bind_eq_ok.mp hmut
  obtain ⟨pool, hpool, hde⟩ := bind_eq_ok.mp hde
  obtain rfl := MemPool.deallocate_eq_ok hpool
  cases hde
  cases hmut
  have hsame := BookStore.sameOrders_unlinkOrder hunlink
  have hids : o.ids = u.orderId := by
    have hinfo := hsame.info x
    rw [← MemPool.read_eq_ok ho, hinfo]
    exact (h.block _ _ hfound).2
  have hix' : ∀ i, m'.oidToOrder i = if i = u.orderId then none else m.oidToOrder i := by
    intro i
    rw [hix, ← hids]
    rfl
  refine ⟨fun i a ha => ?_, fun i => ?_⟩
  · rw [hix'] at ha
    split_ifs at ha with hi
    obtain ⟨hlive, hid⟩ := h.block i a ha
    have hne : a ≠ x := by
      rintro rfl
      exact hi (hid.symm.trans (h.block _ _ hfound).2)
    have hinfo := hsame.info a
    have hstore : (m'.book.orderPool.store a) = b.orderPool.store a := by
      rw [hbook]
      exact (MemPool.store_put _ _ _ _).trans (if_neg hne)
    rw [hstore, hsame.isFree, hinfo]
    exact ⟨hlive, hid⟩
  · rw [hix']
    split_ifs with hi
    · simp [hi]
    · simp [hi, h.ids_iff]

theorem run_single (h : m.run [u] = .ok m') : ∃ c, m.onMarketUpdate u = .ok (m', c) := by
  obtain ⟨⟨m₁, c⟩, hm, h⟩ := bind_eq_ok.mp h
  cases h
  exact ⟨c, hm⟩

variable {tickerId oid qty : ℕ} {side : Side} {price : ℤ}

theorem Tracked.withdrawal (c : Bool) (h : Tracked m ids)
    (hrun : m.run (if c then BacktestEngine.withdrawal tickerId side oid price qty else []) =
      .ok m') : Tracked m' fun i => ids i ∧ (c = true → oid ≠ orderIdInvalid → i ≠ oid) := by
  unfold BacktestEngine.withdrawal at hrun
  by_cases hc : c = true
  · rw [if_pos hc] at hrun
    split_ifs at hrun with ho
    · obtain ⟨_, hm⟩ := run_single hrun
      exact (h.cancel rfl hm).congr fun i => by simp [hc, ho]
    · cases hrun
      exact h.congr fun i => by simp [ho]
  · rw [if_neg hc] at hrun
    cases hrun
    exact h.congr fun i => by simp [hc]

theorem Tracked.quotation (c : Bool) (h : Tracked m ids)
    (hrun : m.run (if c then BacktestEngine.quotation tickerId side oid price qty else []) =
      .ok m') : Tracked m' fun i => ids i ∨ (c = true ∧ price ≠ priceInvalid ∧ i = oid) := by
  unfold BacktestEngine.quotation at hrun
  by_cases hc : c = true
  · rw [if_pos hc] at hrun
    split_ifs at hrun with hp
    · obtain ⟨_, hm⟩ := run_single hrun
      exact (h.add rfl hm).congr fun i => by simp [hc, hp]
    · cases hrun
      exact h.congr fun i => by simp [hp]
  · rw [if_neg hc] at hrun
    cases hrun
    exact h.congr fun i => by simp [hc]

theorem freshRun_withdrawal (m : MarketOrderBook) (c : Bool) (tickerId : ℕ) (side : Side) (oid : ℕ)
    (price : ℤ) (qty : ℕ) :
    FreshRun m (if c then BacktestEngine.withdrawal tickerId side oid price qty else []) := by
  unfold BacktestEngine.withdrawal
  split_ifs
  · exact ⟨nofun, fun _ _ _ => trivial⟩
  · trivial
  · trivial

theorem Tracked.freshRun_quotation (c : Bool) (tickerId : ℕ) (side : Side) (qty : ℕ)
    (h : Tracked m ids) (hnew : c = true → price ≠ priceInvalid → ¬ ids oid) :
    FreshRun m (if c then BacktestEngine.quotation tickerId side oid price qty else []) := by
  unfold BacktestEngine.quotation
  split_ifs with hc hp
  · exact ⟨fun _ => (h.eq_none oid).mpr (hnew hc hp), fun _ _ _ => trivial⟩
  · trivial
  · trivial

end Book

section Event

variable {E : Type} {e e' : BacktestEngine E} {ev : BookTopEvent} {m m' : MarketOrderBook}

structure Numbered (e : BacktestEngine E) (m : MarketOrderBook) : Prop where
  tracked : Tracked m fun i => (i = e.restingBidOid ∨ i = e.restingAskOid) ∧ i ≠ orderIdInvalid
  distinct : e.restingBidOid = e.restingAskOid → e.restingBidOid = orderIdInvalid
  window : InWindow e.nextSynthOid

theorem InWindow.ne_invalid {oid : ℕ} (h : InWindow oid) : oid ≠ orderIdInvalid := by
  rintro rfl
  exact absurd h.lt (by decide)

def Kept (e : BacktestEngine E) (ev : BookTopEvent) (i : ℕ) : Prop :=
  (e.bidChanged ev = false ∧ i = e.restingBidOid ∨ e.askChanged ev = false ∧ i = e.restingAskOid) ∧
    i ≠ orderIdInvalid

theorem Numbered.kept {m₁ m₂ : MarketOrderBook} (h : Numbered e m)
    (h₁ : m.run (if e.bidChanged ev then BacktestEngine.withdrawal e.tickerId .buy e.restingBidOid
      e.lastBidPrice e.lastBidQty else []) = .ok m₁)
    (h₂ : m₁.run (if e.askChanged ev then BacktestEngine.withdrawal e.tickerId .sell
      e.restingAskOid e.lastAskPrice e.lastAskQty else []) = .ok m₂) :
    Tracked m₂ (Kept e ev) := by
  refine ((h.tracked.withdrawal _ h₁).withdrawal _ h₂).congr fun i => ?_
  have hd := h.distinct
  unfold Kept
  cases e.bidChanged ev <;> cases e.askChanged ev <;> simp <;> grind

theorem Numbered.freshRun (h : Numbered e m) (hf : Fresh e ev) : FreshRun m (e.bookUpdates ev) := by
  refine freshRun_append.mpr ⟨freshRun_withdrawal .., fun m₁ h₁ => ?_⟩
  refine freshRun_append.mpr ⟨freshRun_withdrawal .., fun m₂ h₂ => ?_⟩
  have hkept := h.kept h₁ h₂
  refine freshRun_append.mpr ⟨hkept.freshRun_quotation _ _ _ _ ?_, fun m₃ h₃ => ?_⟩
  · rintro hb hbp ⟨⟨hc, -⟩ | ⟨ha, hi⟩, -⟩
    · rw [hb] at hc
      cases hc
    · exact hf.1 (by simp [BacktestEngine.newBid, hb, hbp]) ha hi
  · refine (hkept.quotation _ h₃).freshRun_quotation _ _ _ _ ?_
    rintro ha hap (⟨⟨hb, hi⟩ | ⟨hc, -⟩, -⟩ | ⟨hb, hbp, hi⟩)
    · have hnew : e.askOid ev = e.nextSynthOid := by
        simp [BacktestEngine.askOid, BacktestEngine.newBid, hb]
      rw [hnew] at hi
      exact hf.2 (by simp [BacktestEngine.newAsk, ha, hap]) hb hi
    · rw [ha] at hc
      cases hc
    · have hnew : e.askOid ev = BacktestEngine.wrapOid e.nextSynthOid := by
        simp [BacktestEngine.askOid, BacktestEngine.newBid, hb, hbp]
      rw [hnew] at hi
      exact wrapOid_ne h.window hi

theorem Numbered.distinct_iff (h : Numbered e m) (ev : BookTopEvent) :
    ((e.recorded ev).restingBidOid = (e.recorded ev).restingAskOid →
      (e.recorded ev).restingBidOid = orderIdInvalid) ↔ Fresh e ev := by
  have hb : (e.recorded ev).restingBidOid = if e.newBid ev then e.nextSynthOid
    else if e.bidChanged ev then orderIdInvalid else e.restingBidOid := rfl
  have ha : (e.recorded ev).restingAskOid = if e.newAsk ev then e.askOid ev
    else if e.askChanged ev then orderIdInvalid else e.restingAskOid := rfl
  rw [hb, ha]
  have hd := h.distinct
  have hnext := h.window.ne_invalid
  have hask := (inWindow_askOid h.window ev).ne_invalid
  have hwrap := wrapOid_ne h.window
  have hbc : e.newBid ev = true → e.bidChanged ev = true := fun hc => (Bool.and_eq_true_iff.mp hc).1
  have hac : e.newAsk ev = true → e.askChanged ev = true := fun hc => (Bool.and_eq_true_iff.mp hc).1
  unfold Fresh
  unfold BacktestEngine.askOid at hask ⊢
  clear hb ha
  cases hbn : e.newBid ev <;> cases han : e.newAsk ev <;> simp <;> grind

theorem Numbered.event (h : Numbered e m) (hf : Fresh e ev)
    (hrun : m.run (e.bookUpdates ev) = .ok m') : Numbered (e.recorded ev) m' := by
  obtain ⟨m₁, h₁, hrun⟩ := run_append_eq_ok.mp hrun
  obtain ⟨m₂, h₂, hrun⟩ := run_append_eq_ok.mp hrun
  obtain ⟨m₃, h₃, h₄⟩ := run_append_eq_ok.mp hrun
  have hb : (e.recorded ev).restingBidOid = if e.newBid ev then e.nextSynthOid
    else if e.bidChanged ev then orderIdInvalid else e.restingBidOid := rfl
  have ha : (e.recorded ev).restingAskOid = if e.newAsk ev then e.askOid ev
    else if e.askChanged ev then orderIdInvalid else e.restingAskOid := rfl
  refine ⟨?_, (h.distinct_iff ev).mpr hf, ?_⟩
  · refine (((h.kept h₁ h₂).quotation _ h₃).quotation _ h₄).congr fun i => ?_
    have hnext := h.window.ne_invalid
    have hask := (inWindow_askOid h.window ev).ne_invalid
    rw [hb, ha]
    unfold Kept BacktestEngine.newBid BacktestEngine.newAsk
    cases e.bidChanged ev <;> cases e.askChanged ev <;> simp <;> grind
  · change InWindow (if e.newAsk ev then _ else _)
    split_ifs
    · exact inWindow_wrapOid (inWindow_askOid h.window ev)
    · exact inWindow_askOid h.window ev

theorem Numbered.sameCaches (h : Numbered e m) (hc : SameCaches e e') : Numbered e' m := by
  rw [hc]
  exact ⟨h.tracked, h.distinct, h.window⟩

end Event

section Run

variable {K : Type} [Field K] [LinearOrder K] [FloorRing K] {P : Platform K} {clock : ℕ → ℤ}
  {tickerId : ℕ} {cfg : StrategyCfg K} {e e' : BacktestEngine (Strategy K MarketOrderBook)}

def NumberedFor (tickerId : ℕ) (e : BacktestEngine (Strategy K MarketOrderBook)) : Prop :=
  e.tickerId = tickerId ∧ Numbered e (e.engine.books tickerId)

omit [FloorRing K] in
theorem numbered_new (checked : Bool) (tickerId : ℕ) (cfg : StrategyCfg K)
    (openVwap : ℕ → ℕ → K) :
    NumberedFor tickerId (backtest tickerId cfg (MarketOrderBook.new checked) openVwap) := by
  refine ⟨rfl, (tracked_new checked tickerId).congr fun i => ?_, fun _ => rfl, le_refl _,
    show 500000 < 900000 by decide⟩
  constructor
  · exact False.elim
  · rintro ⟨hi | hi, hne⟩
    · exact hne hi
    · exact hne hi

theorem NumberedFor.run {tape : List TapeEvent} (h : NumberedFor tickerId e)
    (htop : ∀ ev ∈ tape, ev.IsTop)
    (hf : Along (strategyCalls P clock tickerId cfg MarketOrderBook.calls) Fresh e tape)
    (he : e.run (strategyCalls P clock tickerId cfg MarketOrderBook.calls) tape = .ok e') :
    NumberedFor tickerId e' := by
  have hframe : ∀ {e e' : BacktestEngine (Strategy K MarketOrderBook)},
      e'.engine.books = e.engine.books → SameCaches e e' → NumberedFor tickerId e →
        NumberedFor tickerId e' := by
    rintro e e' hbooks hc ⟨ht, hn⟩
    refine ⟨?_, ?_⟩
    · rw [hc]
      exact ht
    · rw [hbooks]
      exact hn.sameCaches hc
  refine run_induct hframe htop ?_ hf h he
  rintro e e₁ ev - hfresh ⟨ht, hn⟩ he₁
  obtain ⟨-, hrun, hc⟩ := applyBookEvent_takes ht he₁
  refine ⟨?_, (hn.event hfresh hrun).sameCaches hc⟩
  rw [hc]
  exact ht

end Run

theorem synthetic_ids_fresh_iff {K : Type} [Field K] [LinearOrder K] [FloorRing K] (P : Platform K)
    (clock : ℕ → ℤ) (checked : Bool) (tickerId : ℕ) (cfg : StrategyCfg K) (openVwap : ℕ → ℕ → K)
    {tape : List TapeEvent} (htape : ∀ ev ∈ tape, ev.IsTop)
    {e : BacktestEngine (Strategy K MarketOrderBook)}
    (hrun : (backtest tickerId cfg (MarketOrderBook.new checked) openVwap).run
      (strategyCalls P clock tickerId cfg MarketOrderBook.calls) tape = .ok e)
    (hfresh : Along (strategyCalls P clock tickerId cfg MarketOrderBook.calls) Fresh
      (backtest tickerId cfg (MarketOrderBook.new checked) openVwap) tape) (ev : BookTopEvent) :
    (Fresh e ev → FreshRun (e.engine.books tickerId) (e.bookUpdates ev)) ∧
      ∀ e₁, e.applyBookEvent (strategyCalls P clock tickerId cfg MarketOrderBook.calls) ev = .ok e₁ →
        ((FreshRun (e.engine.books tickerId) (e.bookUpdates ev) ∧
          (e₁.restingBidOid = e₁.restingAskOid → e₁.restingBidOid = orderIdInvalid)) ↔
            Fresh e ev) := by
  obtain ⟨ht, hn⟩ := (numbered_new checked tickerId cfg openVwap).run htape hfresh hrun
  refine ⟨hn.freshRun, fun e₁ he₁ => ?_⟩
  obtain ⟨-, -, hc⟩ := applyBookEvent_takes ht he₁
  have hoids : e₁.restingBidOid = (e.recorded ev).restingBidOid ∧
      e₁.restingAskOid = (e.recorded ev).restingAskOid := by
    rw [hc]
    exact ⟨rfl, rfl⟩
  rw [hoids.1, hoids.2, hn.distinct_iff]
  exact ⟨And.right, fun hf => ⟨hn.freshRun hf, hf⟩⟩

theorem synthetic_ids_fresh_iff_sample :
    ∃ e e₁, topRun = .ok e ∧ e.applyBookEvent (quoteCalls 0) throughEvent = .ok e₁ ∧
      FreshRun (e.engine.books 0) (e.bookUpdates throughEvent) ∧
      (e₁.restingBidOid = e₁.restingAskOid → e₁.restingBidOid = orderIdInvalid) := by
  have hsample : (topRun.bind fun e => (e.applyBookEvent (quoteCalls 0) throughEvent).map fun _ =>
      decide (Fresh e throughEvent)) = .ok true := by
    decide +kernel
  obtain ⟨e, he, hsample⟩ := bind_eq_ok.mp hsample
  obtain ⟨e₁, he₁, hf⟩ := map_eq_ok hsample
  have hfresh : Along (quoteCalls 0) Fresh
      (backtest 0 (quoteCfg 0) (MarketOrderBook.new true) fun _ _ => 0) topTape := by
    refine ⟨?_, fun _ _ => trivial⟩
    rintro b ⟨⟩
    decide
  have h := synthetic_ids_fresh_iff exactPlatform (fun _ => 0) true 0 (quoteCfg 0) (fun _ _ => 0)
    (show ∀ ev ∈ topTape, ev.IsTop by decide) he hfresh throughEvent
  obtain ⟨hids, hdistinct⟩ := (h.2 e₁ he₁).mpr (of_decide_eq_true hf)
  exact ⟨e, e₁, he, he₁, hids, hdistinct⟩

section Halted

/-- Its killswitch is always on, so it never quotes. -/
def haltedCfg : StrategyCfg ℚ :=
  { StrategyCfg.default with
    maker := { TradeEngineCfg.default with useKillswitch := true, killswitchOfi := -1 } }

def haltedCalls : EngineCalls (Strategy ℚ MarketOrderBook) :=
  strategyCalls exactPlatform (fun _ => 0) 0 haltedCfg MarketOrderBook.calls

def halted : BacktestEngine (Strategy ℚ MarketOrderBook) :=
  backtest 0 haltedCfg (MarketOrderBook.new true) fun _ _ => 0

theorem reaction_halted (s : Strategy ℚ MarketOrderBook) (bbo : BBO) (elapsedNs position : ℤ) :
    s.reaction exactPlatform haltedCfg bbo elapsedNs position = .none ∨
      s.reaction exactPlatform haltedCfg bbo elapsedNs position = .pull := by
  have hkill : ∀ x : ℚ, (-1 : ℚ) < |x| := fun x => by linarith [abs_nonneg x]
  have hkills : ∀ m : Market ℚ, MarketMaker.kills haltedCfg.maker m = true := fun m => by
    simp [MarketMaker.kills, MarketMaker.vpinToxic, haltedCfg, TradeEngineCfg.default, hkill]
  have hnonFinite : ∀ (m : Market ℚ) fair, MarketMaker.killsNonFinite haltedCfg.maker m fair = true :=
    fun m fair => by
      simp [MarketMaker.killsNonFinite, MarketMaker.vpinToxic, haltedCfg, TradeEngineCfg.default,
        hkill]
  unfold Strategy.reaction
  cases s.features.mktPrice with
  | num x =>
    dsimp only
    rw [MarketMaker.onOrderBookUpdate, if_pos (hkills _)]
    exact ite_eq_or_eq ..
  | nonFinite fair =>
    dsimp only
    rw [MarketMaker.onNonFinite, if_pos (hnonFinite _ _)]
    exact ite_eq_or_eq ..

def NoneLive (s : TradeEngine) : Prop :=
  ∀ side : Side, side.IsBuyOrSell → (s.orderManager.slot 0 side).orderState ≠ .live

theorem perform_noneLive {s : TradeEngine} (h : NoneLive s) (lossTooLarge : Bool)
    {r : Reaction} (hr : r = .none ∨ r = .pull) : s.perform 0 lossTooLarge r = .ok (s, []) := by
  have hcancel : ∀ side : Side, side.IsBuyOrSell → s.cancelLive 0 side = (s, []) := by
    intro side hs
    rw [TradeEngine.cancelLive, OrderManager.cancelLive, if_neg (h side hs)]
  rcases hr with rfl | rfl
  · rfl
  · rw [TradeEngine.perform, TradeEngine.cancelOrders, require_of _ (by decide), ok_bind,
      hcancel .buy (.inl rfl)]
    dsimp only
    rw [hcancel .sell (.inr rfl)]
    rfl

theorem feed_halted {s s' : Strategy ℚ MarketOrderBook} {us : List MEMarketUpdate}
    {reqs : List MEClientRequest} (hus : ∀ u ∈ us, u.tickerId = 0) (h : NoneLive s.engine)
    (hfeed : BacktestEngine.feed haltedCalls s us = .ok (s', reqs)) :
    s'.engine = s.engine ∧ reqs = [] := by
  induction us generalizing s reqs with
  | nil =>
    cases hfeed
    exact ⟨rfl, rfl⟩
  | cons u us ih =>
    obtain ⟨⟨s₁, r₁⟩, hs₁, hfeed⟩ := bind_eq_ok.mp hfeed
    obtain ⟨⟨s₂, r₂⟩, hs₂, hfeed⟩ := bind_eq_ok.mp hfeed
    cases hfeed
    have hstep : s₁.engine = s.engine ∧ r₁ = [] := by
      obtain ⟨_, -, hs₁⟩ := bind_eq_ok.mp hs₁
      obtain ⟨⟨b, c⟩, hb, hs₁⟩ := bind_eq_ok.mp hs₁
      obtain rfl := MarketOrderBook.calls.callback hb
      dsimp only at hs₁
      split_ifs at hs₁ with ht
      · cases hs₁
        exact ⟨rfl, rfl⟩
      · have hu := hus u (List.mem_cons_self ..)
        have hcfg : tickerCfg 0 haltedCfg 0 = haltedCfg := Function.update_self ..
        obtain ⟨⟨engine, out⟩, hp, hs₁⟩ := bind_eq_ok.mp hs₁
        cases hs₁
        rw [hu, hcfg, perform_noneLive (by exact h) _ (reaction_halted _ _ _ _)] at hp
        cases hp
        exact ⟨rfl, rfl⟩
    obtain ⟨heng, hreqs⟩ := ih (fun x hx => hus x (List.mem_cons_of_mem _ hx))
      (by rw [hstep.1]; exact h) hs₂
    exact ⟨heng.trans hstep.1, by rw [hstep.2, hreqs]; rfl⟩

structure Idle (e : BacktestEngine (Strategy ℚ MarketOrderBook)) : Prop where
  engine : NoneLive e.engine.engine
  requests : e.clientRequests = []
  responses : e.clientResponses = []
  slots : ∀ side : Side, side.IsBuyOrSell → (e.slot side).leaves = 0

variable {e e₁ : BacktestEngine (Strategy ℚ MarketOrderBook)} {ev : BookTopEvent}

theorem Idle.event (h : Idle e) (ht : e.tickerId = 0)
    (he : e.applyBookEvent haltedCalls ev = .ok e₁) : Idle e₁ := by
  obtain ⟨e₂, he₂, he⟩ := bind_eq_ok.mp he
  rw [BacktestEngine.quoteBookEvent_eq] at he₂
  obtain ⟨⟨s, reqs⟩, hfeed, rfl⟩ := map_eq_ok he₂
  obtain ⟨heng, rfl⟩ := feed_halted (by rw [← ht]; exact e.tickerId_bookUpdates ev) h.engine hfeed
  obtain ⟨_, -, he⟩ := bind_eq_ok.mp he
  have hslots : ∀ side : Side, side.IsBuyOrSell →
      (((e.recorded ev).fed (s, [])).slot side).leaves = 0 := h.slots
  rw [BacktestEngine.matchBidAgainstBBO, if_neg (by simp [hslots .buy (.inl rfl)]),
    BacktestEngine.matchAskAgainstBBO, if_neg (by simp [hslots .sell (.inr rfl)])] at he
  cases he
  refine ⟨?_, ?_, h.responses, hslots⟩
  · change NoneLive s.engine
    rw [heng]
    exact h.engine
  · change e.clientRequests ++ [] = []
    rw [h.requests, List.append_nil]

theorem Idle.pumps (h : Idle e) (nowNs : ℤ) :
    (e.pumpClientRequests nowNs >>= fun e => e.pumpClientResponses haltedCalls) = .ok e := by
  have hreqs := h.requests
  have hrsps := h.responses
  cases e
  simp only at hreqs hrsps
  subst hreqs
  subst hrsps
  rfl

theorem Idle.step (h : Idle e) (hr : Replayed 0 e) (hp : ev.Proper) (hf : Fresh e ev) :
    ∃ e', e.step haltedCalls (.book ev) = .ok e' ∧ Idle e' ∧ Replayed 0 e' ∧
      SameCaches (e.recorded ev) e' := by
  obtain ⟨e₁, bid, ask, he₁, -, hc, hs⟩ := hr.event exactPlatform (fun _ => 0) haltedCfg
    (by decide) hp hf
  have hidle := h.event hr.ticker he₁
  refine ⟨e₁, ?_, hidle, ⟨?_, bid, ask, hs⟩, hc⟩
  · rw [BacktestEngine.step]
    change (e.applyBookEvent haltedCalls ev >>= _) = _
    rw [show e.applyBookEvent haltedCalls ev = .ok e₁ from he₁, ok_bind]
    exact hidle.pumps _
  · rw [hc]
    exact hr.ticker

def askEvent (k : ℕ) : BookTopEvent := ⟨k, 10000, 5, 10002, 5 + k % 2⟩

def askTape : ℕ → List TapeEvent
  | 0 => [.book (askEvent 0)]
  | k + 1 => askTape k ++ [.book (askEvent (k + 1))]

theorem isTop_askTape (k : ℕ) : ∀ ev ∈ askTape k, ev.IsTop := by
  induction k with
  | zero =>
    intro ev hev
    rw [List.mem_singleton.mp hev]
    trivial
  | succ k ih =>
    intro ev hev
    rcases List.mem_append.mp hev with hev | hev
    · exact ih ev hev
    · rw [List.mem_singleton.mp hev]
      trivial

theorem proper_askEvent (k : ℕ) : (askEvent k).Proper := fun _ _ =>
  ⟨show (10000 : ℤ) < 10002 by decide, show (10002 : ℤ) < 10000 + meMaxPriceLevels by decide⟩

structure AfterAsks (k : ℕ) (e : BacktestEngine (Strategy ℚ MarketOrderBook)) : Prop where
  idle : Idle e
  replayed : Replayed 0 e
  bid : e.lastBidPrice = 10000 ∧ e.lastBidQty = 5
  ask : e.lastAskPrice = 10002 ∧ e.lastAskQty = 5 + k % 2
  restingBid : e.restingBidOid = 500000
  next : e.nextSynthOid = if k = 399998 then 500000 else 500002 + k

theorem AfterAsks.changed {k : ℕ} (h : AfterAsks k e) :
    e.bidChanged (askEvent (k + 1)) = false ∧ e.askChanged (askEvent (k + 1)) = true := by
  have hqty : 5 + (k + 1) % 2 ≠ 5 + k % 2 := by omega
  refine ⟨?_, ?_⟩
  · simp [BacktestEngine.bidChanged, askEvent, h.bid]
  · rw [BacktestEngine.askChanged, h.ask.1, h.ask.2]
    exact Bool.or_eq_true_iff.mpr (.inr (decide_eq_true hqty))

theorem AfterAsks.recorded {k : ℕ} (h : AfterAsks k e) :
    (e.recorded (askEvent (k + 1))).restingBidOid = 500000 ∧
      (e.recorded (askEvent (k + 1))).restingAskOid = e.nextSynthOid ∧
      (e.recorded (askEvent (k + 1))).nextSynthOid = BacktestEngine.wrapOid e.nextSynthOid := by
  obtain ⟨hb, ha⟩ := h.changed
  have hbid : e.newBid (askEvent (k + 1)) = false := by simp [BacktestEngine.newBid, hb]
  have hask : e.newAsk (askEvent (k + 1)) = true := by
    rw [BacktestEngine.newAsk, ha]
    exact decide_eq_true (show (10002 : ℤ) ≠ priceInvalid by decide)
  simp [BacktestEngine.recorded, BacktestEngine.askOid, hb, hbid, hask, h.restingBid]

theorem AfterAsks.step {k : ℕ} (hk : k < 399998) (h : AfterAsks k e) :
    ∃ e', e.step haltedCalls (.book (askEvent (k + 1))) = .ok e' ∧ AfterAsks (k + 1) e' := by
  obtain ⟨hb, ha⟩ := h.changed
  obtain ⟨hrb, -, hnext⟩ := h.recorded
  have hoid : e.nextSynthOid = 500002 + k := by rw [h.next, if_neg hk.ne]
  have hf : Fresh e (askEvent (k + 1)) := by
    refine ⟨fun _ hc => ?_, fun _ _ => ?_⟩
    · rw [ha] at hc
      cases hc
    · rw [hoid, h.restingBid]
      omega
  obtain ⟨e', he', hidle, hreplayed, hc⟩ := h.idle.step h.replayed (proper_askEvent _) hf
  refine ⟨e', he', hidle, hreplayed, ?_, ?_, ?_, ?_⟩
  · rw [hc]
    exact ⟨rfl, rfl⟩
  · rw [hc]
    exact ⟨rfl, rfl⟩
  · rw [hc]
    exact hrb
  · rw [hc]
    change (e.recorded (askEvent (k + 1))).nextSynthOid = _
    rw [hnext, hoid, BacktestEngine.wrapOid]
    split_ifs <;> omega

theorem run_snoc {E : Type} {calls : EngineCalls E} {e e₁ : BacktestEngine E} {tape : List TapeEvent}
    (h : e.run calls tape = .ok e₁) (ev : TapeEvent) :
    e.run calls (tape ++ [ev]) = e₁.step calls ev := by
  induction tape generalizing e with
  | nil =>
    cases h
    rw [List.nil_append, BacktestEngine.run]
    cases BacktestEngine.step calls e₁ ev <;> rfl
  | cons x tape ih =>
    obtain ⟨e₂, he₂, h⟩ := bind_eq_ok.mp h
    rw [List.cons_append, BacktestEngine.run, he₂]
    exact ih h

theorem exists_afterAsks (k : ℕ) (hk : k ≤ 399998) :
    ∃ e, halted.run haltedCalls (askTape k) = .ok e ∧ AfterAsks k e := by
  induction k with
  | zero =>
    have hidle : Idle halted := ⟨fun _ _ => show OMOrderState.invalid ≠ .live by decide, rfl, rfl,
      fun _ _ => rfl⟩
    have hreplayed : Replayed 0 halted := replayed_new true 0 haltedCfg fun _ _ => 0
    obtain ⟨e, he, hidle, hreplayed, hc⟩ := hidle.step hreplayed (proper_askEvent 0) (by decide)
    refine ⟨e, ?_, hidle, hreplayed, ?_, ?_, ?_, ?_⟩
    · rw [askTape, BacktestEngine.run, he]
      rfl
    · rw [hc]
      exact ⟨rfl, rfl⟩
    · rw [hc]
      exact ⟨rfl, rfl⟩
    · rw [hc]
      exact show (halted.recorded (askEvent 0)).restingBidOid = 500000 by decide
    · rw [hc]
      exact show (halted.recorded (askEvent 0)).nextSynthOid = 500002 by decide
  | succ k ih =>
    obtain ⟨e, hrun, h⟩ := ih (by omega)
    obtain ⟨e', he', h'⟩ := h.step (by omega)
    exact ⟨e', (run_snoc hrun _).trans he', h'⟩

theorem recycled_id_meets_resting_bid :
    (∀ ev ∈ askTape 399998, ev.IsTop) ∧
      ∃ e, halted.run haltedCalls (askTape 399998) = .ok e ∧
        ¬ FreshRun (e.engine.books 0) (e.bookUpdates (askEvent 399999)) ∧
        (e.recorded (askEvent 399999)).restingBidOid = 500000 ∧
        (e.recorded (askEvent 399999)).restingAskOid = 500000 := by
  obtain ⟨e, hrun, h⟩ := exists_afterAsks 399998 le_rfl
  obtain ⟨hb, ha⟩ : e.bidChanged (askEvent 399999) = false ∧ e.askChanged (askEvent 399999) = true :=
    h.changed
  obtain ⟨hrb, hra, -⟩ := h.recorded
  have hnext : e.nextSynthOid = 500000 := by rw [h.next, if_pos rfl]
  refine ⟨isTop_askTape _, e, hrun, ?_, hrb, hra.trans hnext⟩
  obtain ⟨bid, ask, hs⟩ := h.replayed.shown
  obtain ⟨m₁, ht₁, h₁⟩ := takes_withdrawal (e.askChanged (askEvent 399999)) e.tickerId hs.book.swap
    hs.ask
  rw [ha, if_pos rfl] at ht₁ h₁
  intro hfresh
  rw [BacktestEngine.bookUpdates, hb, ha] at hfresh
  simp only [Bool.false_eq_true, if_false, if_true, List.nil_append] at hfresh
  have hadd := (freshRun_append.mp hfresh).2 m₁ ht₁.2
  have hnone : m₁.oidToOrder (e.askOid (askEvent 399999)) = none := by
    rw [BacktestEngine.quotation,
      if_pos (show (askEvent 399999).askPrice ≠ _ from show (10002 : ℤ) ≠ priceInvalid by decide)]
      at hadd
    exact hadd.1 rfl
  have hoid : e.askOid (askEvent 399999) = 500000 := by
    rw [BacktestEngine.askOid, BacktestEngine.newBid, hb]
    exact hnext
  have hbid := hs.bid
  rw [h.bid.1, h.restingBid, Rests, if_neg (by decide)] at hbid
  obtain ⟨c, rfl, hinfo⟩ := hbid
  have hix := (h₁.ids 500000 c.order).mpr
    ⟨c, mem_cells.mpr (.inr rfl), rfl, by rw [hinfo]⟩
  rw [hoid, hix] at hnone
  cases hnone

end Halted

end Backtest
