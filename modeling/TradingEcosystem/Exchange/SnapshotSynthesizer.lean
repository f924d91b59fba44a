import TradingEcosystem.Common.MemPool
import TradingEcosystem.Exchange.Messages

namespace Exchange

open Common

structure SnapshotSynthesizer where
  tickerOrders : ℕ → ℕ → Option ℕ
  lastIncSeqNum : ℕ
  orderPool : MemPool MEMarketUpdate

def snapshotMarker (type : MarketUpdateType) (lastIncSeqNum : ℕ) : MEMarketUpdate :=
  { MEMarketUpdate.default with type := type, orderId := lastIncSeqNum }

def clearUpdate (tickerId : ℕ) : MEMarketUpdate :=
  { MEMarketUpdate.default with type := .clear, tickerId := tickerId }

def numberFrames (us : List MEMarketUpdate) : List MDPMarketUpdate :=
  us.zipIdx.map fun x => ⟨x.2, x.1⟩

theorem map_meMarketUpdate_numberFrames (us : List MEMarketUpdate) :
    (numberFrames us).map MDPMarketUpdate.meMarketUpdate = us := by
  rw [numberFrames, List.map_map]
  exact List.zipIdx_map_fst 0 us

theorem length_numberFrames (us : List MEMarketUpdate) :
    (numberFrames us).length = us.length := by
  simp [numberFrames]

theorem map_seqNum_numberFrames (us : List MEMarketUpdate) :
    (numberFrames us).map MDPMarketUpdate.seqNum = List.range us.length := by
  rw [numberFrames, List.map_map, List.range_eq_range']
  exact List.zipIdx_map_snd 0 us

namespace SnapshotSynthesizer

def new (checked : Bool) : SnapshotSynthesizer where
  tickerOrders := fun _ _ => none
  lastIncSeqNum := 0
  orderPool := MemPool.new meMaxOrderIds MEMarketUpdate.default checked

def putOrder (s : SnapshotSynthesizer) (tickerId orderId : ℕ) (p : Option ℕ) :
    SnapshotSynthesizer :=
  { s with tickerOrders := fun t i =>
      if t = tickerId ∧ i = orderId then p else s.tickerOrders t i }

def findOrder (s : SnapshotSynthesizer) (me : MEMarketUpdate) : Outcome ℕ := do
  require (me.orderId < meMaxOrderIds) .outOfRange
  match s.tickerOrders me.tickerId me.orderId with
  | none => .error .assertFailed
  | some order => pure order

def applyUpdate (s : SnapshotSynthesizer) (me : MEMarketUpdate) : Outcome SnapshotSynthesizer :=
  match me.type with
  | .add => do
      require (me.orderId < meMaxOrderIds) .outOfRange
      require (s.tickerOrders me.tickerId me.orderId = none) .assertFailed
      let (order, pool) ← s.orderPool.allocate me
      pure ({ s with orderPool := pool }.putOrder me.tickerId me.orderId (some order))
  | .modify => do
      let order ← s.findOrder me
      let o ← s.orderPool.read order
      require (o.orderId = me.orderId) .assertFailed
      let pool ← s.orderPool.write order ({ · with qty := me.qty, price := me.price })
      pure { s with orderPool := pool }
  | .cancel => do
      let order ← s.findOrder me
      let pool ← s.orderPool.deallocate order
      pure ({ s with orderPool := pool }.putOrder me.tickerId me.orderId none)
  | _ => pure s

def addToSnapshot (s : SnapshotSynthesizer) (m : MDPMarketUpdate) :
    Outcome SnapshotSynthesizer := do
  require (m.meMarketUpdate.tickerId < meMaxTickers) .outOfRange
  let s ← s.applyUpdate m.meMarketUpdate
  require (m.seqNum = s.lastIncSeqNum + 1) .assertFailed
  pure { s with lastIncSeqNum := m.seqNum }

def consume (s : SnapshotSynthesizer) : List MDPMarketUpdate → Outcome SnapshotSynthesizer
  | [] => pure s
  | m :: ms => do
      let s ← s.addToSnapshot m
      s.consume ms

def orderFrames (s : SnapshotSynthesizer) (tickerId : ℕ) : ℕ → Outcome (List MEMarketUpdate)
  | 0 => pure []
  | n + 1 => do
      let frames ← s.orderFrames tickerId n
      match s.tickerOrders tickerId n with
      | none => pure frames
      | some order => do
          let o ← s.orderPool.read order
          pure (frames ++ [o])

def tickerFrames (s : SnapshotSynthesizer) : ℕ → Outcome (List MEMarketUpdate)
  | 0 => pure []
  | n + 1 => do
      let frames ← s.tickerFrames n
      let orders ← s.orderFrames n meMaxOrderIds
      pure (frames ++ clearUpdate n :: orders)

def publishSnapshot (s : SnapshotSynthesizer) : Outcome (List MDPMarketUpdate) := do
  let frames ← s.tickerFrames meMaxTickers
  pure (numberFrames (snapshotMarker .snapshotStart s.lastIncSeqNum :: frames ++
    [snapshotMarker .snapshotEnd s.lastIncSeqNum]))

def order (s : SnapshotSynthesizer) (tickerId orderId : ℕ) : Option MEMarketUpdate :=
  (s.tickerOrders tickerId orderId).map fun a => (s.orderPool.store a).object

end SnapshotSynthesizer

def publish (next : ℕ) : List MEMarketUpdate → List MDPMarketUpdate
  | [] => []
  | u :: us => ⟨next, u⟩ :: publish (next + 1) us

def bookFrames (orders : ℕ → ℕ → Option MEMarketUpdate) : List MEMarketUpdate :=
  (List.range meMaxTickers).flatMap fun t =>
    clearUpdate t :: (List.range meMaxOrderIds).filterMap (orders t)

namespace SnapshotSynthesizer

variable {s : SnapshotSynthesizer} {us : List MEMarketUpdate}

def Readable (s : SnapshotSynthesizer) : Prop :=
  ∀ t i a, s.tickerOrders t i = some a → ∃ x, s.orderPool.read a = .ok x

theorem Readable.orderFrames (h : s.Readable) (t n : ℕ) : ∃ us, s.orderFrames t n = .ok us := by
  induction n with
  | zero => exact ⟨[], rfl⟩
  | succ n ih =>
    obtain ⟨us, hus⟩ := ih
    cases ho : s.tickerOrders t n with
    | none => exact ⟨us, by simp [SnapshotSynthesizer.orderFrames, hus, ho]⟩
    | some a =>
      obtain ⟨x, hx⟩ := h t n a ho
      exact ⟨us ++ [x], by simp [SnapshotSynthesizer.orderFrames, hus, ho, hx]⟩

theorem Readable.tickerFrames (h : s.Readable) (n : ℕ) : ∃ us, s.tickerFrames n = .ok us := by
  induction n with
  | zero => exact ⟨[], rfl⟩
  | succ n ih =>
    obtain ⟨us, hus⟩ := ih
    obtain ⟨vs, hvs⟩ := h.orderFrames n meMaxOrderIds
    exact ⟨us ++ clearUpdate n :: vs, by simp [SnapshotSynthesizer.tickerFrames, hus, hvs]⟩

theorem orderFrames_eq_ok {t n : ℕ} (h : s.orderFrames t n = .ok us) :
    us = (List.range n).filterMap (s.order t) := by
  induction n generalizing us with
  | zero => exact (Except.ok.inj h).symm
  | succ n ih =>
    obtain ⟨frames, hf, h⟩ := bind_eq_ok.mp h
    rw [List.range_succ, List.filterMap_append, ← ih hf]
    cases ho : s.tickerOrders t n with
    | none =>
      rw [ho] at h
      cases h
      simp [order, ho]
    | some a =>
      rw [ho] at h
      obtain ⟨o, hr, h⟩ := bind_eq_ok.mp h
      cases h
      simp [order, ho, MemPool.read_eq_ok hr]

theorem tickerFrames_eq_ok {n : ℕ} (h : s.tickerFrames n = .ok us) :
    us = (List.range n).flatMap fun t =>
      clearUpdate t :: (List.range meMaxOrderIds).filterMap (s.order t) := by
  induction n generalizing us with
  | zero => exact (Except.ok.inj h).symm
  | succ n ih =>
    obtain ⟨frames, hf, h⟩ := bind_eq_ok.mp h
    obtain ⟨orders, ho, h⟩ := bind_eq_ok.mp h
    cases h
    rw [List.range_succ, List.flatMap_append, ← ih hf, List.flatMap_cons, ← orderFrames_eq_ok ho]
    simp

theorem publishSnapshot_eq_ok {ms : List MDPMarketUpdate} (h : s.publishSnapshot = .ok ms) :
    ms = numberFrames (snapshotMarker .snapshotStart s.lastIncSeqNum :: bookFrames s.order ++
      [snapshotMarker .snapshotEnd s.lastIncSeqNum]) := by
  obtain ⟨frames, hf, h⟩ := bind_eq_ok.mp h
  cases h
  rw [tickerFrames_eq_ok hf, bookFrames]

theorem Readable.publishSnapshot (h : s.Readable) :
    s.publishSnapshot = .ok (numberFrames (snapshotMarker .snapshotStart s.lastIncSeqNum ::
      bookFrames s.order ++ [snapshotMarker .snapshotEnd s.lastIncSeqNum])) := by
  obtain ⟨us, hus⟩ := h.tickerFrames meMaxTickers
  rw [SnapshotSynthesizer.publishSnapshot, hus, tickerFrames_eq_ok hus]
  rfl

def PointsAtAdds (s : SnapshotSynthesizer) : Prop :=
  ∀ t i a, s.tickerOrders t i = some a → (s.orderPool.store a).object.type = .add

theorem PointsAtAdds.applyUpdate {s' : SnapshotSynthesizer} {me : MEMarketUpdate}
    (h : s.PointsAtAdds) (ha : s.applyUpdate me = .ok s') : s'.PointsAtAdds := by
  unfold SnapshotSynthesizer.applyUpdate at ha
  split at ha
  · rename_i htype
    obtain ⟨-, -, ha⟩ := bind_eq_ok.mp ha
    obtain ⟨-, -, ha⟩ := bind_eq_ok.mp ha
    obtain ⟨⟨order, pool⟩, halloc, ha⟩ := bind_eq_ok.mp ha
    obtain ⟨rfl, hstore⟩ := MemPool.allocate_eq_ok halloc
    cases ha
    intro t i a hp
    simp only [putOrder, hstore, MemPool.store_put] at hp ⊢
    by_cases hn : a = s.orderPool.nextFreeIndex
    · rw [if_pos hn]
      exact htype
    · rw [if_neg hn]
      split_ifs at hp
      · exact absurd (Option.some.inj hp).symm hn
      · exact h t i a hp
  · obtain ⟨order, -, ha⟩ := bind_eq_ok.mp ha
    obtain ⟨o, -, ha⟩ := bind_eq_ok.mp ha
    obtain ⟨-, -, ha⟩ := bind_eq_ok.mp ha
    obtain ⟨pool, hw, ha⟩ := bind_eq_ok.mp ha
    cases ha
    obtain rfl := MemPool.write_eq_ok hw
    intro t i a hp
    have := h t i a hp
    simp only [MemPool.object_modify]
    split_ifs with hn
    · exact hn ▸ this
    · exact this
  · obtain ⟨order, -, ha⟩ := bind_eq_ok.mp ha
    obtain ⟨pool, hd, ha⟩ := bind_eq_ok.mp ha
    cases ha
    obtain rfl := MemPool.deallocate_eq_ok hd
    intro t i a hp
    simp only [putOrder, MemPool.store_put] at hp ⊢
    split_ifs at hp
    have := h t i a hp
    split_ifs with hn
    · exact hn ▸ this
    · exact this
  · cases ha
    exact h

theorem PointsAtAdds.consume {s' : SnapshotSynthesizer} {ms : List MDPMarketUpdate}
    (h : s.PointsAtAdds) (hc : s.consume ms = .ok s') : s'.PointsAtAdds := by
  induction ms generalizing s with
  | nil =>
    cases hc
    exact h
  | cons m ms ih =>
    obtain ⟨s₁, h₁, hc⟩ := bind_eq_ok.mp hc
    obtain ⟨-, -, h₁⟩ := bind_eq_ok.mp h₁
    obtain ⟨s₂, h₂, h₁⟩ := bind_eq_ok.mp h₁
    obtain ⟨-, -, h₁⟩ := bind_eq_ok.mp h₁
    cases h₁
    have hadds := h.applyUpdate h₂
    exact ih (s := { s₂ with lastIncSeqNum := m.seqNum }) hadds hc

theorem pointsAtAdds_new (checked : Bool) : (new checked).PointsAtAdds := by
  intro t i a h
  cases h

theorem PointsAtAdds.order {t i : ℕ} {u : MEMarketUpdate} (h : s.PointsAtAdds)
    (ho : s.order t i = some u) : u.type = .add := by
  obtain ⟨a, ha, rfl⟩ := Option.map_eq_some_iff.mp ho
  exact h t i a ha

end SnapshotSynthesizer

end Exchange
