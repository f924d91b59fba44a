import TradingEcosystem.System.SnapshotState
import TradingEcosystem.Trading.SnapshotQueue

namespace Trading

open Common Exchange OrderedMap

variable {τ ι : Type}

structure Delivery (τ : Type) where
  isSnapshot : Bool
  packet : Packet τ
  fd : ℕ

def MarketDataConsumer.deliver (c : MarketDataConsumer τ) (d : Delivery τ) :
    MarketDataConsumer τ :=
  c.recv d.fd d.isSnapshot d.packet

/-- The delivery ends recovery. `checkSnapshotSync` does so in one place only, right after it has
forwarded a snapshot. -/
def Commits (c : MarketDataConsumer τ) (d : Delivery τ) : Prop :=
  c.inRecovery = true ∧ (c.deliver d).inRecovery = false

instance (c : MarketDataConsumer τ) (d : Delivery τ) : Decidable (Commits c d) :=
  inferInstanceAs (Decidable (_ ∧ _))

def queuedWith (c : MarketDataConsumer τ) (d : Delivery τ) : QueuedMarketUpdates τ :=
  (c.enqueue d.isSnapshot d.packet).snapshotQueuedMsgs

def asMDP (e : ℕ × Message τ) : MDPMarketUpdate := ⟨e.1, e.2.update⟩

section Cycle

def pair (m : MDPMarketUpdate) : ℕ × MEMarketUpdate := (m.seqNum, m.meMarketUpdate)

theorem numbered_numberFrames (us : List MEMarketUpdate) :
    Numbered ((numberFrames us).map pair) := by
  rw [Numbered, List.map_map, List.length_map, length_numberFrames]
  exact map_seqNum_numberFrames us

theorem whole_cycle {q : QueuedMarketUpdates τ} {us : List MEMarketUpdate} {e : MEMarketUpdate}
    (hq : Numbered q) (hsub : ∀ x ∈ q, asMDP x ∈ numberFrames (us ++ [e]))
    (hend : ∃ x ∈ q, x.2.update.type = .snapshotEnd) (hus : ∀ v ∈ us, v.type ≠ .snapshotEnd) :
    q.map asMDP = numberFrames (us ++ [e]) := by
  have hinj : Function.Injective pair := by
    rintro ⟨i, x⟩ ⟨j, y⟩ h
    simpa [pair] using h
  have hnum : Numbered ((q.map asMDP).map pair) := by
    simpa [Numbered, asMDP, pair, Function.comp_def] using hq
  have htake : q.map asMDP = (numberFrames (us ++ [e])).take (q.map asMDP).length := by
    have := hnum.eq_take (numbered_numberFrames (us ++ [e])) fun x hx => by
      obtain ⟨m, hm, rfl⟩ := List.mem_map.mp hx
      obtain ⟨y, hy, rfl⟩ := List.mem_map.mp hm
      exact List.mem_map_of_mem (hsub y hy)
    rw [← List.map_take, List.length_map] at this
    exact hinj.list_map this
  have hlen : us.length < (q.map asMDP).length := by
    by_contra hle
    obtain ⟨x, hx, ht⟩ := hend
    have hmem : x.2.update ∈ (q.map asMDP).map MDPMarketUpdate.meMarketUpdate :=
      List.mem_map_of_mem (List.mem_map_of_mem hx)
    rw [htake, List.map_take, map_meMarketUpdate_numberFrames,
      List.take_append_of_le_length (Nat.le_of_not_lt hle)] at hmem
    exact hus _ (List.mem_of_mem_take hmem) ht
  rw [htake, List.take_of_length_le]
  simp only [numberFrames, List.length_map, List.length_zipIdx, List.length_append,
    List.length_singleton] at hlen ⊢
  omega

variable {q : QueuedMarketUpdates τ} {c : MarketDataConsumer τ} {p : Packet τ}
  {orders : ℕ → ℕ → Option MEMarketUpdate} {σ : SnapshotSynthesizer}
  {cycle : List MDPMarketUpdate}

def HoldsAdds (orders : ℕ → ℕ → Option MEMarketUpdate) : Prop :=
  ∀ t i u, t < meMaxTickers → i < meMaxOrderIds → orders t i = some u → u.type = .add

theorem bookFrames_type (h : HoldsAdds orders) {x : MEMarketUpdate} (hx : x ∈ bookFrames orders) :
    x.type = .clear ∨ x.type = .add := by
  obtain ⟨t, ht, rfl | ⟨i, hi, ho⟩⟩ := OrderTable.mem_bookFrames hx
  · exact .inl rfl
  · exact .inr (h t i x ht hi ho)

theorem isMarker_of_type {x : MEMarketUpdate} (h : x.type = .clear ∨ x.type = .add) :
    isMarker x = false := by
  rcases h with h | h <;> simp [isMarker, h]

theorem frames_of_cycle (h : HoldsAdds orders) {n : ℕ}
    (hq : q.map asMDP = numberFrames (snapshotMarker .snapshotStart n :: bookFrames orders ++
      [snapshotMarker .snapshotEnd n])) : frames q = bookFrames orders := by
  have hmap : (q.map fun e => e.2.update) = snapshotMarker .snapshotStart n ::
      bookFrames orders ++ [snapshotMarker .snapshotEnd n] := by
    rw [← map_meMarketUpdate_numberFrames (_ ++ _), ← hq, List.map_map]
    rfl
  have hbody : (bookFrames orders).filter (fun u => !isMarker u) = bookFrames orders := by
    refine List.filter_eq_self.mpr fun x hx => ?_
    rw [isMarker_of_type (bookFrames_type h hx)]
    rfl
  rw [frames, hmap, List.cons_append, List.filter_cons_of_neg (by simp [isMarker, snapshotMarker]),
    List.filter_append, hbody]
  simp [isMarker, snapshotMarker]

theorem enqueue_end (hok : QueueOk c.snapshotQueuedMsgs) (he : EndsCycle c.snapshotQueuedMsgs p) :
    (c.enqueue true p).snapshotQueuedMsgs = c.snapshotQueuedMsgs ++ [p.entry] := by
  have hnot : ¬ contains p.seqNum c.snapshotQueuedMsgs = true := fun h =>
    ((hok.numbered.contains _).mp h).ne he.2.1
  simp only [MarketDataConsumer.enqueue, if_true, if_neg hnot]
  exact hok.numbered.assign he.2.1.ge _

theorem committed_cycle (hok : QueueOk c.snapshotQueuedMsgs) (he : EndsCycle c.snapshotQueuedMsgs p)
    (hadd : HoldsAdds σ.order) (hpub : σ.publishSnapshot = .ok cycle)
    (hsub : ∀ x ∈ c.snapshotQueuedMsgs ++ [p.entry], asMDP x ∈ cycle) :
    (c.snapshotQueuedMsgs ++ [p.entry]).map asMDP = cycle ∧
      frames (c.snapshotQueuedMsgs ++ [p.entry]) = bookFrames σ.order ∧
      p.message.update = snapshotMarker .snapshotEnd σ.lastIncSeqNum := by
  obtain rfl := SnapshotSynthesizer.publishSnapshot_eq_ok hpub
  have hnum : Numbered (c.snapshotQueuedMsgs ++ [p.entry]) := by
    have := hok.numbered.concat p.message
    rwa [← he.2.1] at this
  have hwhole := whole_cycle hnum hsub ⟨p.entry, by simp, he.1⟩ fun v hv => by
    rcases List.mem_cons.mp hv with rfl | hv
    · simp [snapshotMarker]
    · rcases bookFrames_type hadd hv with h | h <;> simp [h]
  refine ⟨hwhole, frames_of_cycle hadd hwhole, ?_⟩
  have hlast := congrArg (fun l => (l.map MDPMarketUpdate.meMarketUpdate).getLast?) hwhole
  simp only [map_meMarketUpdate_numberFrames, List.map_append, List.map_cons, List.map_nil,
    List.getLast?_concat] at hlast
  exact Option.some.inj hlast

end Cycle

section Incrementals

def history (u : ℕ → MEMarketUpdate) (k : ℕ) : List MEMarketUpdate :=
  (List.range k).map fun i => u (i + 1)

def tableAfter (u : ℕ → MEMarketUpdate) (k : ℕ) : OrderTable :=
  OrderTable.empty.fold (history u k)

variable {u : ℕ → MEMarketUpdate} {queued : QueuedMarketUpdates τ}

theorem tableAfter_add (u : ℕ → MEMarketUpdate) (k j : ℕ) :
    tableAfter u (k + j) = (tableAfter u k).fold ((List.range j).map fun i => u (k + 1 + i)) := by
  rw [tableAfter, history, List.range_add, List.map_append, OrderTable.fold_append, List.map_map]
  congr 1
  refine List.map_congr_left fun i _ => ?_
  exact congrArg u (by simp only; omega)

theorem scanIncrementals_complete (h : ∀ e ∈ queued, e.2.update = u e.1 ∧ e.1 + 1 < 2 ^ 64)
    (next : ℕ) (hc : (MarketDataConsumer.scanIncrementals next queued).complete = true) :
    ∃ j, (MarketDataConsumer.scanIncrementals next queued).nextExp = next + j ∧
      (MarketDataConsumer.scanIncrementals next queued).events =
        ((List.range j).map fun i => u (next + i)).filter fun x => !isMarker x := by
  induction queued generalizing next with
  | nil => exact ⟨0, rfl, rfl⟩
  | cons e queued ih =>
    obtain ⟨k, m⟩ := e
    obtain ⟨hm, hk⟩ := h (k, m) (List.mem_cons_self ..)
    replace ih := ih fun e he => h e (List.mem_cons_of_mem _ he)
    simp only [MarketDataConsumer.scanIncrementals] at hc ⊢
    by_cases hlt : k < next
    · simp only [if_pos hlt] at hc ⊢
      exact ih next hc
    · simp only [if_neg hlt] at hc ⊢
      by_cases hne : k = next
      · subst hne
        have hmod : (k + 1) % 2 ^ 64 = k + 1 := Nat.mod_eq_of_lt hk
        simp only [ne_eq, not_true_eq_false, if_false, hmod] at hc ⊢
        obtain ⟨j, hnext, hev⟩ := ih (k + 1) hc
        refine ⟨j + 1, by omega, ?_⟩
        have hshift : ((List.range j).map fun i => u (k + 1 + i)) =
            (List.range j).map ((fun i => u (k + i)) ∘ Nat.succ) :=
          List.map_congr_left fun i _ => congrArg u (by simp only [Nat.succ_eq_add_one]; omega)
        rw [hev, hshift, List.range_succ_eq_map, List.map_cons, List.map_map, List.filter_cons,
          Nat.add_zero, ← hm]
        cases isMarker m.update <;> rfl
      · simp [hne] at hc

end Incrementals

section Recovery

variable {u : ℕ → MEMarketUpdate} {cycles : ι → List MDPMarketUpdate} {c : MarketDataConsumer τ}
  {d : Delivery τ} {σ : SnapshotSynthesizer} {b : OrderTable}

def PublishedFrom (u : ℕ → MEMarketUpdate) (cycle : List MDPMarketUpdate) : Prop :=
  ∃ σ : SnapshotSynthesizer, σ.publishSnapshot = .ok cycle ∧
    Describes σ (tableAfter u σ.lastIncSeqNum) ∧ σ.lastIncSeqNum + 1 < 2 ^ 64

/-- The message was published: nothing is assumed about loss, order or repetition. -/
def Genuine (u : ℕ → MEMarketUpdate) (cycles : ι → List MDPMarketUpdate) (d : Delivery τ) : Prop :=
  if d.isSnapshot then ∃ k, asMDP d.packet.entry ∈ cycles k
  else d.packet.message.update = u d.packet.seqNum ∧ 0 < d.packet.seqNum ∧
    d.packet.seqNum + 1 < 2 ^ 64

def FromOneCycle (cycles : ι → List MDPMarketUpdate) (c : MarketDataConsumer τ) (d : Delivery τ) :
    Prop :=
  ∃ k, ∀ x ∈ queuedWith c d, asMDP x ∈ cycles k

instance (u : ℕ → MEMarketUpdate) (cycles : ι → List MDPMarketUpdate) [Fintype ι]
    (d : Delivery τ) : Decidable (Genuine u cycles d) :=
  inferInstanceAs (Decidable (if d.isSnapshot then ∃ k, asMDP d.packet.entry ∈ cycles k
    else d.packet.message.update = u d.packet.seqNum ∧ 0 < d.packet.seqNum ∧
      d.packet.seqNum + 1 < 2 ^ 64))

instance (cycles : ι → List MDPMarketUpdate) [Fintype ι] (c : MarketDataConsumer τ)
    (d : Delivery τ) : Decidable (FromOneCycle cycles c d) :=
  inferInstanceAs (Decidable (∃ _, _))

theorem Describes.order {t i : ℕ} (h : Describes σ b) (ht : t < meMaxTickers)
    (hi : i < meMaxOrderIds) : σ.order t i = (b t i).map (addUpdate t) := by
  have := h t i
  rwa [if_pos ⟨ht, hi⟩] at this

theorem Describes.adds (h : Describes σ b) (hb : b.Keyed) : OrderTable.Adds σ.order := by
  intro t ht i hi x hx
  rw [h.order ht hi] at hx
  obtain ⟨o, ho, rfl⟩ := Option.map_eq_some_iff.mp hx
  exact ⟨rfl, rfl, hb t i o ho⟩

theorem Describes.fold {b' : OrderTable} (h : Describes σ b) (hb : b.Keyed)
    (hb' : ∀ t, meMaxTickers ≤ t → b' t = fun _ => none) :
    b'.fold (bookFrames σ.order) = b := by
  funext t i
  rw [OrderTable.fold_bookFrames (h.adds hb) hb']
  have := h t i
  split_ifs at this ⊢
  · rw [this, Option.map_map]
    exact Option.map_id'
  · exact (Option.map_eq_none_iff.mp this.symm).symm

structure Synced (u : ℕ → MEMarketUpdate) (c : MarketDataConsumer τ) : Prop where
  queue : QueueOk c.snapshotQueuedMsgs
  incrementals : ∀ e ∈ c.incrementalQueuedMsgs, e.2.update = u e.1 ∧ e.1 + 1 < 2 ^ 64
  tickers : ∀ x ∈ c.incomingMdUpdates, x.tickerId < meMaxTickers
  synced : c.inRecovery = false → 0 < c.nextExpIncSeqNum ∧
    OrderTable.empty.fold c.incomingMdUpdates = tableAfter u (c.nextExpIncSeqNum - 1)

theorem synced_new (u : ℕ → MEMarketUpdate) (fd : ℕ) :
    Synced u (MarketDataConsumer.new fd : MarketDataConsumer τ) where
  queue := queueOk_nil
  incrementals := by simp [MarketDataConsumer.new]
  tickers := by simp [MarketDataConsumer.new]
  synced := fun _ => ⟨Nat.one_pos, rfl⟩

theorem apply_marker {x : MEMarketUpdate} (h : (!isMarker x) = false) (b : OrderTable) :
    b.apply x = b := by
  simp only [isMarker, Bool.not_eq_false', Bool.or_eq_true, decide_eq_true_eq] at h
  rcases h with h | h <;> simp [OrderTable.apply, h]

theorem commit_table {p : Packet τ} (hu : ∀ k, (u k).tickerId < meMaxTickers) (h : Synced u c)
    (he : EndsCycle c.snapshotQueuedMsgs p) (hs : (c.resume p).complete = true)
    {cycle : List MDPMarketUpdate} (hpub : PublishedFrom u cycle)
    (hsub : ∀ x ∈ c.snapshotQueuedMsgs ++ [p.entry], asMDP x ∈ cycle) :
    let forwarded := c.incomingMdUpdates ++
      (frames (c.snapshotQueuedMsgs ++ [p.entry]) ++ (c.resume p).events)
    0 < (c.resume p).nextExp ∧ (∀ x ∈ forwarded, x.tickerId < meMaxTickers) ∧
      OrderTable.empty.fold forwarded = tableAfter u ((c.resume p).nextExp - 1) := by
  obtain ⟨σ, hpub, hdesc, hlt⟩ := hpub
  have hkeyed : (tableAfter u σ.lastIncSeqNum).Keyed := OrderTable.keyed_empty.fold _
  have hadds := hdesc.adds hkeyed
  obtain ⟨-, hframes, hend⟩ := committed_cycle h.queue he
    (fun t i x ht hi hx => (hadds t ht i hi x hx).1) hpub hsub
  have hid : (p.message.update.orderId + 1) % 2 ^ 64 = σ.lastIncSeqNum + 1 := by
    rw [hend]
    exact Nat.mod_eq_of_lt hlt
  obtain ⟨j, hnext, hev⟩ := scanIncrementals_complete h.incrementals _ hs
  rw [MarketDataConsumer.resume, hid] at hs ⊢
  rw [hid] at hnext hev
  intro forwarded
  refine ⟨by omega, ?_, ?_⟩
  · intro x hx
    rcases List.mem_append.mp hx with hx | hx
    · exact h.tickers x hx
    rcases List.mem_append.mp hx with hx | hx
    · rw [hframes] at hx
      obtain ⟨t, ht, rfl | ⟨i, hi, ho⟩⟩ := OrderTable.mem_bookFrames hx
      · exact ht
      · rw [(hadds t ht i hi x ho).2.1]
        exact ht
    · rw [hev] at hx
      obtain ⟨i, -, rfl⟩ := List.mem_map.mp (List.mem_of_mem_filter hx)
      exact hu _
  · have hout : ∀ t, meMaxTickers ≤ t →
        OrderTable.empty.fold c.incomingMdUpdates t = fun _ => none := by
      intro t ht
      rw [OrderTable.fold_other fun x hx => ((h.tickers x hx).trans_le ht).ne]
      rfl
    rw [OrderTable.fold_append, OrderTable.fold_append, hframes, hdesc.fold hkeyed hout, hev,
      OrderTable.fold_filter _ fun x hx b => apply_marker hx b, hnext,
      show σ.lastIncSeqNum + 1 + j - 1 = σ.lastIncSeqNum + j by omega, tableAfter_add]

theorem Synced.deliver (hu : ∀ k, (u k).tickerId < meMaxTickers)
    (hcycles : ∀ k, PublishedFrom u (cycles k)) (h : Synced u c)
    (hd : Genuine u cycles d ∧ (Commits c d → FromOneCycle cycles c d)) :
    Synced u (c.deliver d) ∧
      (c.inRecovery = true ∨ (c.deliver d).inRecovery = true →
        (c.deliver d).incomingMdUpdates = c.incomingMdUpdates ∨ Commits c d) := by
  obtain ⟨isSnapshot, p, fd⟩ := d
  obtain ⟨hgen, hone⟩ := hd
  have hrec : Received c fd p isSnapshot (c.deliver ⟨isSnapshot, p, fd⟩) :=
    received_recv h.queue fd isSnapshot p
  have hqueue : QueueOk (c.deliver ⟨isSnapshot, p, fd⟩).snapshotQueuedMsgs :=
    h.queue.recv fd isSnapshot p
  unfold Commits at hone ⊢
  generalize c.deliver ⟨isSnapshot, p, fd⟩ = c' at hone hrec hqueue ⊢
  cases hrec with
  | ignored hr => exact ⟨h, fun _ => .inl rfl⟩
  | forwarded hr hn =>
    obtain ⟨hup, hpos, hlt⟩ : p.message.update = u p.seqNum ∧ 0 < p.seqNum ∧
      p.seqNum + 1 < 2 ^ 64 := hgen
    obtain ⟨-, htable⟩ := h.synced hr
    have hmod : (c.nextExpIncSeqNum + 1) % 2 ^ 64 = c.nextExpIncSeqNum + 1 :=
      Nat.mod_eq_of_lt (hn ▸ hlt)
    refine ⟨⟨hqueue, h.incrementals, ?_, fun _ => ?_⟩, ?_⟩
    · intro x hx
      rcases List.mem_append.mp hx with hx | hx
      · exact h.tickers x hx
      · rw [List.mem_singleton.mp hx, hup]
        exact hu _
    · simp only [MarketDataConsumer.forward, hmod]
      refine ⟨by omega, ?_⟩
      have hstep := tableAfter_add u (c.nextExpIncSeqNum - 1) 1
      rw [OrderTable.fold_append, htable, hup, hn]
      rw [show c.nextExpIncSeqNum - 1 + 1 = c.nextExpIncSeqNum by omega] at hstep
      rw [Nat.add_sub_cancel, hstep]
      rfl
    · simp [MarketDataConsumer.forward, hr]
  | gap hr hn =>
    refine ⟨⟨hqueue, ?_, h.tickers, fun hf => absurd hf (by simp)⟩, fun _ => .inl rfl⟩
    intro e he
    obtain ⟨hup, -, hlt⟩ : p.message.update = u p.seqNum ∧ 0 < p.seqNum ∧
      p.seqNum + 1 < 2 ^ 64 := hgen
    rw [List.mem_singleton.mp he]
    exact ⟨hup, hlt⟩
  | buffered hr =>
    refine ⟨⟨hqueue, ?_, h.tickers, h.synced⟩, fun _ => .inl rfl⟩
    intro e he
    obtain ⟨hup, -, hlt⟩ : p.message.update = u p.seqNum ∧ 0 < p.seqNum ∧
      p.seqNum + 1 < 2 ^ 64 := hgen
    rcases mem_of_mem_assign he with rfl | he
    · exact ⟨hup, hlt⟩
    · exact h.incrementals e he
  | assembled hr he => exact ⟨⟨hqueue, h.incrementals, h.tickers, h.synced⟩, fun _ => .inl rfl⟩
  | discarded hr he hs =>
    refine ⟨⟨hqueue, h.incrementals, h.tickers, fun hf => ?_⟩, fun _ => .inl rfl⟩
    exact absurd (hr.symm.trans hf) (by simp)
  | committed hr he hs =>
    obtain ⟨k, hk⟩ := hone ⟨hr, rfl⟩
    rw [queuedWith, enqueue_end h.queue he] at hk
    obtain ⟨hpos, htick, htable⟩ := commit_table hu h he hs (hcycles k) hk
    exact ⟨⟨hqueue, by simp, htick, fun _ => ⟨hpos, htable⟩⟩, fun _ => .inr ⟨hr, rfl⟩⟩

def bidOne : MEMarketUpdate := ⟨.add, 1, 0, .buy, 100, 10, 1⟩

def bidTwo : MEMarketUpdate := ⟨.add, 2, 0, .buy, 101, 5, 1⟩

def sampleFeed : ℕ → MEMarketUpdate
  | 1 => bidOne
  | 2 => { bidOne with type := .cancel }
  | 3 => bidTwo
  | _ => { bidTwo with type := .trade }

def sampleFrames (x : MEMarketUpdate) : List MEMarketUpdate :=
  clearUpdate 0 :: x :: [1, 2, 3, 4, 5, 6, 7].map clearUpdate

def sampleCycle (k : ℕ) (x : MEMarketUpdate) : List MDPMarketUpdate :=
  numberFrames (snapshotMarker .snapshotStart k :: sampleFrames x ++
    [snapshotMarker .snapshotEnd k])

def snapshotDelivery (origin : τ) (m : MDPMarketUpdate) : Delivery τ :=
  ⟨true, ⟨m.seqNum, ⟨m.meMarketUpdate, origin⟩⟩, 0⟩

def incrementalDelivery (origin : τ) (k : ℕ) : Delivery τ := ⟨false, ⟨k, ⟨sampleFeed k, origin⟩⟩, 0⟩

theorem filterMap_range_one {α : Type} {f : ℕ → Option α} {j n : ℕ} {x : α}
    (h : ∀ i < n, f i = if i = j then some x else none) :
    (List.range n).filterMap f = if j < n then [x] else [] := by
  induction n with
  | zero => rfl
  | succ n ih =>
    rw [List.range_succ, List.filterMap_append, ih fun i hi => h i (hi.trans n.lt_succ_self),
      List.filterMap_cons, h n n.lt_succ_self]
    rcases lt_trichotomy j n with hj | rfl | hj
    · simp [hj, hj.ne', hj.trans n.lt_succ_self]
    · simp
    · simp [hj.ne, Nat.not_lt.mpr hj.le, show ¬ j < n + 1 by omega]

theorem bookFrames_one {orders : ℕ → ℕ → Option MEMarketUpdate} {j : ℕ} {x : MEMarketUpdate}
    (hj : j < meMaxOrderIds)
    (h : ∀ t < meMaxTickers, ∀ i < meMaxOrderIds,
      orders t i = if t = 0 ∧ i = j then some x else none) :
    bookFrames orders = sampleFrames x := by
  have hzero : (List.range meMaxOrderIds).filterMap (orders 0) = [x] := by
    rw [filterMap_range_one (j := j) (x := x) fun i hi => by simp [h 0 (by decide) i hi], if_pos hj]
  have hrest : ∀ t, 0 < t → t < meMaxTickers →
      (List.range meMaxOrderIds).filterMap (orders t) = [] := by
    intro t ht hlt
    refine List.filterMap_eq_nil_iff.mpr fun i hi => ?_
    simp [h t hlt i (List.mem_range.mp hi), ht.ne']
  have hrange : List.range meMaxTickers = [0, 1, 2, 3, 4, 5, 6, 7] := rfl
  rw [bookFrames, hrange, sampleFrames]
  simp only [List.flatMap_cons, List.flatMap_nil, hzero, hrest 1 (by decide) (by decide),
    hrest 2 (by decide) (by decide), hrest 3 (by decide) (by decide), hrest 4 (by decide) (by decide),
    hrest 5 (by decide) (by decide), hrest 6 (by decide) (by decide), hrest 7 (by decide) (by decide)]
  rfl

theorem sampleFeed_announced (k : ℕ) (hk : k ≤ 3) :
    Trace.Every OrderTable.apply Announces OrderTable.empty (history sampleFeed k) := by
  have hone : Announces OrderTable.empty bidOne := ⟨by decide, by decide, rfl⟩
  have htwo : Announces (OrderTable.empty.apply bidOne) { bidOne with type := .cancel } :=
    ⟨by decide, by simp [OrderTable.apply, OrderTable.put, bidOne]⟩
  have hthree : Announces
      ((OrderTable.empty.apply bidOne).apply { bidOne with type := .cancel }) bidTwo :=
    ⟨by decide, by decide, rfl⟩
  interval_cases k
  · trivial
  · exact ⟨hone, trivial⟩
  · exact ⟨hone, htwo, trivial⟩
  · exact ⟨hone, htwo, hthree, trivial⟩

theorem sampleSynthesizer {k : ℕ} {x : MEMarketUpdate} (hk : k ≤ 3)
    (hadds : numAddUpdates (history sampleFeed k) < meMaxOrderIds)
    (hx : x.orderId < meMaxOrderIds)
    (htable : ∀ t i, (tableAfter sampleFeed k t i).map (addUpdate t) =
      if t = 0 ∧ i = x.orderId then some x else none) :
    ∃ σ, (SnapshotSynthesizer.new true).consume (publish 1 (history sampleFeed k)) = .ok σ ∧
      σ.lastIncSeqNum = k ∧ Describes σ (tableAfter sampleFeed k) ∧
      σ.publishSnapshot = .ok (sampleCycle k x) := by
  obtain ⟨σ, live, hrun, hhold, hseq⟩ :=
    synthesizer_consume true (sampleFeed_announced k hk) hadds
  rw [history, List.length_map, List.length_range] at hseq
  refine ⟨σ, hrun, hseq, hhold.describes, ?_⟩
  rw [hhold.readable.publishSnapshot, hseq, bookFrames_one hx fun t _ i _ => ?_]
  · rfl
  · rw [hhold.order]
    exact htable t i

theorem sampleSynthesizer_one :
    ∃ σ, (SnapshotSynthesizer.new true).consume (publish 1 (history sampleFeed 1)) = .ok σ ∧
      σ.lastIncSeqNum = 1 ∧ Describes σ (tableAfter sampleFeed 1) ∧
      σ.publishSnapshot = .ok (sampleCycle 1 bidOne) := by
  refine sampleSynthesizer (by decide) (by decide) (by decide) fun t i => ?_
  have htable : tableAfter sampleFeed 1 t i =
      if t = 0 ∧ i = 1 then some (marketOrder bidOne) else none := rfl
  rw [htable, show bidOne.orderId = 1 from rfl]
  split_ifs with h
  · rw [h.1]
    rfl
  · rfl

theorem sampleSynthesizer_three :
    ∃ σ, (SnapshotSynthesizer.new true).consume (publish 1 (history sampleFeed 3)) = .ok σ ∧
      σ.lastIncSeqNum = 3 ∧ Describes σ (tableAfter sampleFeed 3) ∧
      σ.publishSnapshot = .ok (sampleCycle 3 bidTwo) := by
  refine sampleSynthesizer (by decide) (by decide) (by decide) fun t i => ?_
  have htable : tableAfter sampleFeed 3 t i =
      if t = 0 ∧ i = 2 then some (marketOrder bidTwo)
      else if t = 0 ∧ i = 1 then none
      else if t = 0 ∧ i = 1 then some (marketOrder bidOne) else none := rfl
  rw [htable, show bidTwo.orderId = 2 from rfl]
  split_ifs with h
  · rw [h.1]
    rfl
  all_goals rfl

theorem feed_recovery_safe (u : ℕ → MEMarketUpdate) (hu : ∀ k, (u k).tickerId < meMaxTickers)
    (cycles : ι → List MDPMarketUpdate) (hcycles : ∀ k, PublishedFrom u (cycles k)) (fd : ℕ)
    (ds : List (Delivery τ)) (hds : ∀ d ∈ ds, Genuine u cycles d)
    (hone : Trace.Every MarketDataConsumer.deliver
      (fun c d => Commits c d → FromOneCycle cycles c d) (MarketDataConsumer.new fd) ds) :
    ((Trace.run MarketDataConsumer.deliver (MarketDataConsumer.new fd) ds).inRecovery = false →
      OrderTable.empty.fold
          (Trace.run MarketDataConsumer.deliver (MarketDataConsumer.new fd) ds).incomingMdUpdates =
        tableAfter u ((Trace.run MarketDataConsumer.deliver
          (MarketDataConsumer.new fd) ds).nextExpIncSeqNum - 1)) ∧
      Trace.Every MarketDataConsumer.deliver
        (fun c d => c.inRecovery = true ∨ (c.deliver d).inRecovery = true →
          (c.deliver d).incomingMdUpdates = c.incomingMdUpdates ∨ Commits c d)
        (MarketDataConsumer.new fd) ds := by
  obtain ⟨hinv, hall⟩ := ((Trace.every_of_mem hds).and hone).invariant
    (fun c d hc hd => Synced.deliver hu hcycles hc hd) (synced_new u fd)
  exact ⟨fun hr => (hinv.synced hr).2, hall⟩

def sampleDeliveries : List (Delivery Unit) :=
  incrementalDelivery () 2 :: (sampleCycle 1 bidOne).map (snapshotDelivery ()) ++
    [incrementalDelivery () 3]

theorem feed_recovery_safe_sample :
    (Trace.run MarketDataConsumer.deliver (MarketDataConsumer.new 0)
      sampleDeliveries).inRecovery = false ∧
    OrderTable.empty.fold (Trace.run MarketDataConsumer.deliver (MarketDataConsumer.new 0)
      sampleDeliveries).incomingMdUpdates = tableAfter sampleFeed 3 := by
  have hu : ∀ k, (sampleFeed k).tickerId < meMaxTickers := fun k => by
    rcases k with _ | _ | _ | _ | k <;> exact Nat.zero_lt_succ 7
  have hpub : PublishedFrom sampleFeed (sampleCycle 1 bidOne) := by
    obtain ⟨σ, -, hseq, hdesc, hpub⟩ := sampleSynthesizer_one
    exact ⟨σ, hpub, hseq ▸ hdesc, by rw [hseq]; decide⟩
  have hr : (Trace.run MarketDataConsumer.deliver (MarketDataConsumer.new 0)
      sampleDeliveries).inRecovery = false := by decide +kernel
  exact ⟨hr, (feed_recovery_safe sampleFeed hu (fun _ : Unit => sampleCycle 1 bidOne)
    (fun _ => hpub) 0 sampleDeliveries (by decide +kernel) (by decide +kernel)).1 hr⟩

end Recovery

section Provenance

variable {cycles : ι → List MDPMarketUpdate} {σ : ι → SnapshotSynthesizer}
  {c : MarketDataConsumer ι} {d : Delivery ι}

def Stamped (cycles : ι → List MDPMarketUpdate) (d : Delivery ι) : Prop :=
  d.isSnapshot = true → asMDP d.packet.entry ∈ cycles d.packet.message.origin

/-- A snapshot message whose number is the next one the queue waits for comes from the same call
of `publishSnapshot` as the messages queued. -/
def StaysInCycle (c : MarketDataConsumer ι) (d : Delivery ι) : Prop :=
  d.isSnapshot = true → c.inRecovery = true →
    d.packet.seqNum = c.snapshotQueuedMsgs.length →
      ∀ e ∈ c.snapshotQueuedMsgs, e.2.origin = d.packet.message.origin

instance (cycles : ι → List MDPMarketUpdate) (d : Delivery ι) : Decidable (Stamped cycles d) :=
  inferInstanceAs (Decidable (_ → _))

instance [DecidableEq ι] (c : MarketDataConsumer ι) (d : Delivery ι) :
    Decidable (StaysInCycle c d) :=
  inferInstanceAs (Decidable (_ → _ → _ → _))

def CommitsWhole (cycles : ι → List MDPMarketUpdate) (σ : ι → SnapshotSynthesizer)
    (c : MarketDataConsumer ι) (d : Delivery ι) : Prop :=
  ∃ k, (∀ x ∈ queuedWith c d, x.2.origin = k) ∧ (queuedWith c d).map asMDP = cycles k ∧
    d.packet.message.update.orderId = (σ k).lastIncSeqNum ∧
    (∃ events, (c.deliver d).incomingMdUpdates =
      c.incomingMdUpdates ++ (bookFrames (σ k).order ++ events)) ∧
    ∀ x, x ∈ bookFrames (σ k).order ∧ x.type = .add ↔
      ∃ t < meMaxTickers, ∃ i < meMaxOrderIds, (σ k).order t i = some x

structure Untorn (cycles : ι → List MDPMarketUpdate) (c : MarketDataConsumer ι) : Prop where
  queue : QueueOk c.snapshotQueuedMsgs
  stamped : ∀ e ∈ c.snapshotQueuedMsgs, asMDP e ∈ cycles e.2.origin
  single : ∀ e ∈ c.snapshotQueuedMsgs, ∀ f ∈ c.snapshotQueuedMsgs, e.2.origin = f.2.origin

theorem untorn_new (cycles : ι → List MDPMarketUpdate) (fd : ℕ) :
    Untorn cycles (MarketDataConsumer.new fd) where
  queue := queueOk_nil
  stamped := by simp [MarketDataConsumer.new]
  single := by simp [MarketDataConsumer.new]

theorem mem_bookFrames_add {orders : ℕ → ℕ → Option MEMarketUpdate} (h : HoldsAdds orders)
    (x : MEMarketUpdate) :
    x ∈ bookFrames orders ∧ x.type = .add ↔
      ∃ t < meMaxTickers, ∃ i < meMaxOrderIds, orders t i = some x := by
  constructor
  · rintro ⟨hx, htype⟩
    obtain ⟨t, ht, rfl | ⟨i, hi, ho⟩⟩ := OrderTable.mem_bookFrames hx
    · cases htype
    · exact ⟨t, ht, i, hi, ho⟩
  · rintro ⟨t, ht, i, hi, ho⟩
    refine ⟨?_, h t i x ht hi ho⟩
    refine List.mem_flatMap.mpr ⟨t, List.mem_range.mpr ht, List.mem_cons_of_mem _ ?_⟩
    exact List.mem_filterMap.mpr ⟨i, List.mem_range.mpr hi, ho⟩

theorem Untorn.advance {p : Packet ι} (h : Untorn cycles c) (hp : asMDP p.entry ∈ cycles p.message.origin)
    (hsame : p.seqNum = c.snapshotQueuedMsgs.length →
      ∀ e ∈ c.snapshotQueuedMsgs, e.2.origin = p.message.origin) :
    ∀ e ∈ advance c.snapshotQueuedMsgs p,
      asMDP e ∈ cycles e.2.origin ∧ e.2.origin = p.message.origin := by
  unfold Trading.advance
  intro e he
  split_ifs at he with h0 hs hn
  · rw [List.mem_singleton.mp he]
    exact ⟨hp, rfl⟩
  · cases he
  · rcases List.mem_append.mp he with he | he
    · exact ⟨h.stamped e he, hsame hn e he⟩
    · rw [List.mem_singleton.mp he]
      exact ⟨hp, rfl⟩
  · cases he

theorem Untorn.deliver (hadd : ∀ k, HoldsAdds (σ k).order)
    (hpub : ∀ k, (σ k).publishSnapshot = .ok (cycles k)) (h : Untorn cycles c)
    (hd : Stamped cycles d ∧ StaysInCycle c d) :
    Untorn cycles (c.deliver d) ∧ (Commits c d → CommitsWhole cycles σ c d) := by
  obtain ⟨isSnapshot, p, fd⟩ := d
  obtain ⟨hst, hstay⟩ := hd
  have hrec : Received c fd p isSnapshot (c.deliver ⟨isSnapshot, p, fd⟩) :=
    received_recv h.queue fd isSnapshot p
  have hqueue : QueueOk (c.deliver ⟨isSnapshot, p, fd⟩).snapshotQueuedMsgs :=
    h.queue.recv fd isSnapshot p
  unfold Commits CommitsWhole
  generalize c.deliver ⟨isSnapshot, p, fd⟩ = c' at hrec hqueue ⊢
  cases hrec with
  | ignored hr => exact ⟨h, fun hc => absurd (hr.symm.trans hc.1) (by simp)⟩
  | forwarded hr hn =>
    exact ⟨⟨hqueue, h.stamped, h.single⟩, fun hc => absurd (hr.symm.trans hc.1) (by simp)⟩
  | gap hr hn =>
    exact ⟨⟨hqueue, by simp, by simp⟩, fun hc => absurd (hr.symm.trans hc.1) (by simp)⟩
  | buffered hr =>
    exact ⟨⟨hqueue, h.stamped, h.single⟩, fun hc => absurd (hr.symm.trans hc.2) (by simp)⟩
  | assembled hr he =>
    have hadv := h.advance (hst rfl) (hstay rfl hr)
    refine ⟨⟨hqueue, fun e he => (hadv e he).1, fun e he f hf => ?_⟩,
      fun hc => absurd (hr.symm.trans hc.2) (by simp)⟩
    exact (hadv e he).2.trans (hadv f hf).2.symm
  | discarded hr he hs =>
    exact ⟨⟨hqueue, by simp, by simp⟩, fun hc => absurd (hr.symm.trans hc.2) (by simp)⟩
  | committed hr he hs =>
    refine ⟨⟨hqueue, by simp, by simp⟩, fun _ => ?_⟩
    have hsub : ∀ x ∈ c.snapshotQueuedMsgs ++ [p.entry],
        x.2.origin = p.message.origin ∧ asMDP x ∈ cycles p.message.origin := by
      intro x hx
      rcases List.mem_append.mp hx with hx | hx
      · have horig := hstay rfl hr he.2.1 x hx
        exact ⟨horig, horig ▸ h.stamped x hx⟩
      · rw [List.mem_singleton.mp hx]
        exact ⟨rfl, hst rfl⟩
    obtain ⟨hwhole, hframes, hend⟩ := committed_cycle h.queue he (hadd p.message.origin)
      (hpub p.message.origin) fun x hx => (hsub x hx).2
    refine ⟨p.message.origin, ?_⟩
    rw [queuedWith, enqueue_end h.queue he]
    refine ⟨fun x hx => (hsub x hx).1, hwhole, ?_, ⟨_, by rw [hframes]⟩,
      mem_bookFrames_add (hadd _)⟩
    rw [hend]
    rfl

theorem commit_never_torn (checked : Bool) (σ : ι → SnapshotSynthesizer)
    (hσ : ∀ k, ∃ ms, (SnapshotSynthesizer.new checked).consume ms = .ok (σ k))
    (cycles : ι → List MDPMarketUpdate) (hpub : ∀ k, (σ k).publishSnapshot = .ok (cycles k))
    (fd : ℕ) (ds : List (Delivery ι)) (hds : ∀ d ∈ ds, Stamped cycles d)
    (hstay : Trace.Every MarketDataConsumer.deliver StaysInCycle (MarketDataConsumer.new fd) ds) :
    Trace.Every MarketDataConsumer.deliver
      (fun c d => Commits c d → CommitsWhole cycles σ c d) (MarketDataConsumer.new fd) ds := by
  have hadd : ∀ k, HoldsAdds (σ k).order := by
    intro k t i u _ _ ho
    obtain ⟨ms, hms⟩ := hσ k
    exact ((SnapshotSynthesizer.pointsAtAdds_new checked).consume hms).order ho
  exact (((Trace.every_of_mem hds).and hstay).invariant
    (fun c d hc hd => Untorn.deliver hadd hpub hc hd) (untorn_new cycles fd)).2

def twoCycles : Bool → List MDPMarketUpdate
  | false => sampleCycle 1 bidOne
  | true => sampleCycle 3 bidTwo

theorem twoCycles_published :
    ∃ σ : Bool → SnapshotSynthesizer,
      (∀ k, ∃ ms, (SnapshotSynthesizer.new true).consume ms = .ok (σ k)) ∧
        ∀ k, (σ k).publishSnapshot = .ok (twoCycles k) := by
  obtain ⟨σ₁, h₁, -, -, hpub₁⟩ := sampleSynthesizer_one
  obtain ⟨σ₃, h₃, -, -, hpub₃⟩ := sampleSynthesizer_three
  refine ⟨fun k => cond k σ₃ σ₁, fun k => ?_, fun k => ?_⟩
  · cases k with
    | false => exact ⟨_, h₁⟩
    | true => exact ⟨_, h₃⟩
  · cases k with
    | false => exact hpub₁
    | true => exact hpub₃

def wholeDeliveries : List (Delivery Bool) :=
  incrementalDelivery false 2 :: (twoCycles true).map (snapshotDelivery true)

theorem commit_never_torn_sample :
    ∃ σ : Bool → SnapshotSynthesizer,
      (Trace.run MarketDataConsumer.deliver (MarketDataConsumer.new 0)
        wholeDeliveries).inRecovery = false ∧
      Trace.Every MarketDataConsumer.deliver
        (fun c d => Commits c d → CommitsWhole twoCycles σ c d) (MarketDataConsumer.new 0)
        wholeDeliveries := by
  obtain ⟨σ, hσ, hpub⟩ := twoCycles_published
  exact ⟨σ, by decide +kernel, commit_never_torn true σ hσ twoCycles hpub 0 wholeDeliveries
    (by decide +kernel) (by decide +kernel)⟩

def tornDeliveries : List (Delivery Bool) :=
  incrementalDelivery false 2 :: ((twoCycles false).take 3).map (snapshotDelivery false) ++
    ((twoCycles true).drop 3).map (snapshotDelivery true)

theorem torn_snapshot_commits :
    ∃ σ : Bool → SnapshotSynthesizer,
      (∀ k, ∃ ms, (SnapshotSynthesizer.new true).consume ms = .ok (σ k)) ∧
      (∀ k, (σ k).publishSnapshot = .ok (twoCycles k)) ∧
      (∀ d ∈ tornDeliveries, Stamped twoCycles d) ∧
      ¬ Trace.Every MarketDataConsumer.deliver
        (fun c d => Commits c d → CommitsWhole twoCycles σ c d) (MarketDataConsumer.new 0)
        tornDeliveries := by
  obtain ⟨σ, hσ, hpub⟩ := twoCycles_published
  refine ⟨σ, hσ, hpub, by decide +kernel, fun h => ?_⟩
  have horigin : Trace.Every MarketDataConsumer.deliver
      (fun c d => Commits c d → ∃ k, ∀ x ∈ queuedWith c d, x.2.origin = k)
      (MarketDataConsumer.new 0) tornDeliveries :=
    h.mono fun c d hc hcom => (hc hcom).imp fun k hk => hk.1
  revert horigin
  decide +kernel

end Provenance

end Trading
