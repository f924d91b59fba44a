import TradingEcosystem.Library.Trace
import TradingEcosystem.System.OrderTable

namespace Trading

open Common Exchange

def addUpdate (tickerId : ℕ) (o : MarketOrder) : MEMarketUpdate :=
  ⟨.add, o.ids, tickerId, o.side, o.price, o.qty, o.priority⟩

def Announces (b : OrderTable) (u : MEMarketUpdate) : Prop :=
  u.tickerId < meMaxTickers ∧
    match u.type with
    | .add => u.orderId < meMaxOrderIds ∧ b u.tickerId u.orderId = none
    | .modify => ∃ o, b u.tickerId u.orderId = some o ∧ o.price = u.price
    | .cancel => b u.tickerId u.orderId ≠ none
    | .clear => False
    | _ => True

def numAddUpdates (us : List MEMarketUpdate) : ℕ := us.countP fun u => decide (u.type = .add)

structure Holding (σ : SnapshotSynthesizer) (b : OrderTable) (live : List ((ℕ × ℕ) × ℕ)) : Prop where
  pool : σ.orderPool.Holds (live.map Prod.snd)
  cap : σ.orderPool.numElems = meMaxOrderIds
  index : ∀ t i a, σ.tickerOrders t i = some a ↔ ((t, i), a) ∈ live
  order : ∀ t i, σ.order t i = (b t i).map (addUpdate t)
  range : ∀ e ∈ live, e.1.1 < meMaxTickers ∧ e.1.2 < meMaxOrderIds
  keyed : b.Keyed

theorem holding_new (checked : Bool) :
    Holding (SnapshotSynthesizer.new checked) OrderTable.empty [] where
  pool := MemPool.holds_new (by decide) _ _
  cap := rfl
  index := by simp [SnapshotSynthesizer.new]
  order := by simp [SnapshotSynthesizer.order, SnapshotSynthesizer.new, OrderTable.empty]
  range := by simp
  keyed := OrderTable.keyed_empty

variable {σ : SnapshotSynthesizer} {b : OrderTable} {live : List ((ℕ × ℕ) × ℕ)}
  {u : MEMarketUpdate}

theorem Holding.none_iff (h : Holding σ b live) {t i : ℕ} :
    σ.tickerOrders t i = none ↔ b t i = none := by
  have := h.order t i
  rw [SnapshotSynthesizer.order] at this
  cases hp : σ.tickerOrders t i with
  | none =>
    rw [hp] at this
    simpa using this.symm
  | some a =>
    rw [hp] at this
    cases hb : b t i with
    | none => simp [hb] at this
    | some o => simp

theorem Holding.pointer (h : Holding σ b live) {t i : ℕ} {o : MarketOrder} (ho : b t i = some o) :
    ∃ a, σ.tickerOrders t i = some a ∧ ((t, i), a) ∈ live ∧
      (σ.orderPool.store a).object = addUpdate t o := by
  cases hp : σ.tickerOrders t i with
  | none => simp [h.none_iff.mp hp] at ho
  | some a =>
    have := h.order t i
    rw [SnapshotSynthesizer.order, hp, ho] at this
    exact ⟨a, rfl, (h.index t i a).mp hp, Option.some.inj this⟩

theorem Holding.readable (h : Holding σ b live) : σ.Readable := by
  intro t i a hp
  have hmem := (h.index t i a).mp hp
  exact ⟨_, MemPool.read_live (h.pool.live (List.mem_map_of_mem hmem))⟩

theorem Holding.findOrder (h : Holding σ b live) {a : ℕ}
    (hp : σ.tickerOrders u.tickerId u.orderId = some a) : σ.findOrder u = .ok a := by
  have hlt := (h.range _ ((h.index _ _ _).mp hp)).2
  rw [SnapshotSynthesizer.findOrder, require_of _ hlt, ok_bind, hp]
  rfl

theorem Holding.add (h : Holding σ b live) (ht : u.tickerId < meMaxTickers) (htype : u.type = .add)
    (hi : u.orderId < meMaxOrderIds) (hb : b u.tickerId u.orderId = none)
    (hroom : live.length + 1 < meMaxOrderIds) :
    ∃ σ' live', σ.applyUpdate u = .ok σ' ∧ Holding σ' (b.apply u) live' ∧
      live'.length = live.length + 1 ∧ σ'.lastIncSeqNum = σ.lastIncSeqNum := by
  have hnone := h.none_iff.mpr hb
  obtain ⟨pool, halloc, hholds, hstore, hnum, -⟩ := MemPool.allocate_ok h.pool
    (by rw [List.length_map, h.cap]; exact hroom) u
  have hfresh : ∀ e ∈ live, e.2 ≠ σ.orderPool.nextFreeIndex := fun e he hn =>
    h.pool.next_notMem (List.mem_map.mpr ⟨e, he, hn⟩)
  refine ⟨({ σ with orderPool := pool }).putOrder u.tickerId u.orderId
      (some σ.orderPool.nextFreeIndex),
    ((u.tickerId, u.orderId), σ.orderPool.nextFreeIndex) :: live, ?_,
    ⟨hholds, hnum.trans h.cap, ?_, ?_, ?_, h.keyed.apply u⟩, rfl, rfl⟩
  · rw [SnapshotSynthesizer.applyUpdate, htype]
    simp only [require_of _ hi, require_of _ hnone, ok_bind, halloc]
    rfl
  · intro t i a
    simp only [SnapshotSynthesizer.putOrder, List.mem_cons, Prod.mk.injEq]
    split_ifs with hc
    · obtain ⟨rfl, rfl⟩ := hc
      have hno : ((u.tickerId, u.orderId), a) ∉ live := fun hm => by
        simp [(h.index _ _ _).mpr hm] at hnone
      simp [hno, eq_comm]
    · rw [h.index]
      tauto
  · intro t i
    simp only [SnapshotSynthesizer.order, SnapshotSynthesizer.putOrder, hstore, MemPool.store_put,
      OrderTable.apply, htype, OrderTable.put]
    split_ifs with hc
    · rw [Option.map_some, Option.map_some, if_pos rfl, hc.1, addUpdate, ← htype]
      rfl
    · rw [← h.order, SnapshotSynthesizer.order]
      cases hp : σ.tickerOrders t i with
      | none => rfl
      | some a =>
        rw [Option.map_some, Option.map_some, if_neg (hfresh _ ((h.index t i a).mp hp))]
  · intro e he
    rcases List.mem_cons.mp he with rfl | he
    · exact ⟨ht, hi⟩
    · exact h.range e he

theorem Holding.pointer_inj (h : Holding σ b live) {e f : (ℕ × ℕ) × ℕ} (he : e ∈ live)
    (hf : f ∈ live) (hef : e.2 = f.2) : e = f :=
  List.inj_on_of_nodup_map h.pool.nodup he hf hef

theorem Holding.modify (h : Holding σ b live) (htype : u.type = .modify) {o : MarketOrder}
    (ho : b u.tickerId u.orderId = some o) (hprice : o.price = u.price) :
    ∃ σ', σ.applyUpdate u = .ok σ' ∧ Holding σ' (b.apply u) live ∧
      σ'.lastIncSeqNum = σ.lastIncSeqNum := by
  obtain ⟨a, hp, hmem, hobj⟩ := h.pointer ho
  have hlive := h.pool.live (List.mem_map_of_mem hmem)
  have hid : (addUpdate u.tickerId o).orderId = u.orderId := h.keyed _ _ _ ho
  refine ⟨{ σ with orderPool := σ.orderPool.modify a ({ · with qty := u.qty, price := u.price }) },
    ?_, ⟨?_, h.cap, h.index, ?_, h.range, h.keyed.apply u⟩, rfl⟩
  · rw [SnapshotSynthesizer.applyUpdate, htype]
    simp only [h.findOrder hp, ok_bind, MemPool.read_live hlive, hobj, require_of _ hid,
      MemPool.write_live hlive]
    rfl
  · simpa only [MemPool.holds_modify] using h.pool
  · intro t i
    simp only [SnapshotSynthesizer.order, MemPool.object_modify, OrderTable.apply, htype,
      OrderTable.put]
    split_ifs with hc
    · rw [hc.1, hc.2, hp, ho, Option.map_some, Option.map_some, Option.map_some, if_pos rfl, hobj,
        ← hprice]
      rfl
    · rw [← h.order, SnapshotSynthesizer.order]
      cases hq : σ.tickerOrders t i with
      | none => rfl
      | some a' =>
        rw [Option.map_some, Option.map_some, if_neg]
        rintro rfl
        have := h.pointer_inj ((h.index t i a').mp hq) hmem rfl
        simp only [Prod.mk.injEq, and_true] at this
        exact hc this

theorem Holding.cancel (h : Holding σ b live) (htype : u.type = .cancel)
    (hb : b u.tickerId u.orderId ≠ none) :
    ∃ σ' live', σ.applyUpdate u = .ok σ' ∧ Holding σ' (b.apply u) live' ∧
      live'.length ≤ live.length ∧ σ'.lastIncSeqNum = σ.lastIncSeqNum := by
  obtain ⟨o, ho⟩ := Option.ne_none_iff_exists'.mp hb
  obtain ⟨a, hp, hmem, hobj⟩ := h.pointer ho
  have hperm := List.perm_cons_erase hmem
  obtain ⟨hdealloc, hholds⟩ := MemPool.deallocate_ok (h.pool.perm (hperm.map Prod.snd))
  have hnd : live.Nodup := h.pool.nodup.of_map
  refine ⟨({ σ with orderPool := σ.orderPool.put a ⟨(σ.orderPool.store a).object, true⟩ }).putOrder
      u.tickerId u.orderId none, live.erase ((u.tickerId, u.orderId), a), ?_,
    ⟨hholds, h.cap, ?_, ?_, fun e he => h.range e (List.mem_of_mem_erase he), h.keyed.apply u⟩,
    List.length_erase_le, rfl⟩
  · rw [SnapshotSynthesizer.applyUpdate, htype]
    simp only [h.findOrder hp, ok_bind, hdealloc]
    rfl
  · intro t i a'
    simp only [SnapshotSynthesizer.putOrder, hnd.mem_erase_iff]
    split_ifs with hc
    · obtain ⟨rfl, rfl⟩ := hc
      rw [← h.index, hp]
      simp [eq_comm]
    · rw [h.index]
      simp [hc]
  · intro t i
    simp only [SnapshotSynthesizer.order, SnapshotSynthesizer.putOrder, MemPool.store_put,
      OrderTable.apply, htype, OrderTable.put]
    split_ifs with hc
    · rfl
    · rw [← h.order, SnapshotSynthesizer.order]
      cases σ.tickerOrders t i with
      | none => rfl
      | some a' =>
        rw [Option.map_some, Option.map_some]
        split_ifs with ha
        · rw [ha]
        · rfl

theorem Holding.applyUpdate (h : Holding σ b live) (hu : Announces b u)
    (hroom : live.length + numAddUpdates [u] < meMaxOrderIds) :
    ∃ σ' live', σ.applyUpdate u = .ok σ' ∧ Holding σ' (b.apply u) live' ∧
      live'.length ≤ live.length + numAddUpdates [u] ∧ σ'.lastIncSeqNum = σ.lastIncSeqNum := by
  obtain ⟨ht, hu⟩ := hu
  cases htype : u.type with
  | add =>
    rw [htype] at hu
    have hone : numAddUpdates [u] = 1 := by simp [numAddUpdates, htype]
    rw [hone] at hroom ⊢
    obtain ⟨σ', live', happ, hhold, hlen, hseq⟩ := h.add ht htype hu.1 hu.2 hroom
    exact ⟨σ', live', happ, hhold, hlen.le, hseq⟩
  | modify =>
    rw [htype] at hu
    obtain ⟨o, ho, hprice⟩ := hu
    obtain ⟨σ', happ, hhold, hseq⟩ := h.modify htype ho hprice
    exact ⟨σ', live, happ, hhold, Nat.le_add_right .., hseq⟩
  | cancel =>
    rw [htype] at hu
    obtain ⟨σ', live', happ, hhold, hlen, hseq⟩ := h.cancel htype hu
    exact ⟨σ', live', happ, hhold, hlen.trans (Nat.le_add_right ..), hseq⟩
  | clear =>
    rw [htype] at hu
    exact hu.elim
  | _ =>
    refine ⟨σ, live, by rw [SnapshotSynthesizer.applyUpdate, htype]; rfl, ?_,
      Nat.le_add_right .., rfl⟩
    rw [OrderTable.apply, htype]
    exact h

theorem numAddUpdates_cons (u : MEMarketUpdate) (us : List MEMarketUpdate) :
    numAddUpdates (u :: us) = numAddUpdates [u] + numAddUpdates us := by
  simp [numAddUpdates, List.countP_cons, Nat.add_comm]

theorem Holding.consume {us : List MEMarketUpdate} (h : Holding σ b live)
    (hus : Trace.Every OrderTable.apply Announces b us)
    (hroom : live.length + numAddUpdates us < meMaxOrderIds) :
    ∃ σ' live', σ.consume (publish (σ.lastIncSeqNum + 1) us) = .ok σ' ∧
      Holding σ' (b.fold us) live' ∧ live'.length ≤ live.length + numAddUpdates us ∧
      σ'.lastIncSeqNum = σ.lastIncSeqNum + us.length := by
  induction us generalizing σ b live with
  | nil => exact ⟨σ, live, rfl, h, Nat.le_add_right .., rfl⟩
  | cons u us ih =>
    rw [numAddUpdates_cons] at hroom ⊢
    obtain ⟨σ₁, live₁, happ, hhold, hlen, hseq⟩ := h.applyUpdate hus.1 (by omega)
    have hnum : σ.lastIncSeqNum + 1 = σ₁.lastIncSeqNum + 1 := by rw [hseq]
    have hstep : σ.addToSnapshot ⟨σ.lastIncSeqNum + 1, u⟩ =
        .ok { σ₁ with lastIncSeqNum := σ.lastIncSeqNum + 1 } := by
      rw [SnapshotSynthesizer.addToSnapshot, require_of _ hus.1.1, ok_bind, happ, ok_bind,
        require_of _ hnum, ok_bind]
      rfl
    have hhold₁ : Holding { σ₁ with lastIncSeqNum := σ.lastIncSeqNum + 1 } (b.apply u) live₁ :=
      ⟨hhold.pool, hhold.cap, hhold.index, hhold.order, hhold.range, hhold.keyed⟩
    obtain ⟨σ₂, live₂, hrun, hhold₂, hlen₂, hseq₂⟩ := ih hhold₁ hus.2 (by omega)
    refine ⟨σ₂, live₂, ?_, hhold₂, by omega, ?_⟩
    · rw [publish, SnapshotSynthesizer.consume, hstep, ok_bind]
      exact hrun
    · rw [hseq₂, List.length_cons]
      simp only
      omega

def Describes (σ : SnapshotSynthesizer) (b : OrderTable) : Prop :=
  ∀ t i, (if t < meMaxTickers ∧ i < meMaxOrderIds then σ.order t i else none) =
    (b t i).map (addUpdate t)

theorem Holding.describes (h : Holding σ b live) : Describes σ b := by
  intro t i
  rw [← h.order]
  split_ifs with hc
  · rfl
  · cases hp : σ.tickerOrders t i with
    | none => rw [SnapshotSynthesizer.order, hp]; rfl
    | some a => exact absurd (h.range _ ((h.index t i a).mp hp)) hc

theorem synthesizer_consume (checked : Bool) {us : List MEMarketUpdate}
    (hus : Trace.Every OrderTable.apply Announces OrderTable.empty us)
    (hroom : numAddUpdates us < meMaxOrderIds) :
    ∃ σ live, (SnapshotSynthesizer.new checked).consume (publish 1 us) = .ok σ ∧
      Holding σ (OrderTable.empty.fold us) live ∧ σ.lastIncSeqNum = us.length := by
  obtain ⟨σ, live, hrun, hhold, -, hseq⟩ := (holding_new checked).consume hus (by simpa using hroom)
  exact ⟨σ, live, hrun, hhold, by rw [hseq]; exact Nat.zero_add _⟩

end Trading
