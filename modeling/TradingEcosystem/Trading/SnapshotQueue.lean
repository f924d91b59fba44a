import TradingEcosystem.Trading.MarketDataConsumer

namespace Trading

open Common Exchange OrderedMap

variable {τ : Type} {c : MarketDataConsumer τ} {q : QueuedMarketUpdates τ} {p : Packet τ}

def Packet.entry (p : Packet τ) : ℕ × Message τ := (p.seqNum, p.message)

def frames (q : QueuedMarketUpdates τ) : List MEMarketUpdate :=
  (q.map fun e => e.2.update).filter fun u => !isMarker u

structure QueueOk (q : QueuedMarketUpdates τ) : Prop where
  numbered : Numbered q
  start : ∀ e ∈ q, e.1 = 0 → e.2.update.type = .snapshotStart
  unended : ∀ e ∈ q, e.2.update.type ≠ .snapshotEnd

theorem queueOk_nil : QueueOk ([] : QueuedMarketUpdates τ) := ⟨rfl, by simp, by simp⟩

def advance (q : QueuedMarketUpdates τ) (p : Packet τ) : QueuedMarketUpdates τ :=
  if p.seqNum = 0 then if p.message.update.type = .snapshotStart then [p.entry] else []
  else if p.seqNum = q.length then q ++ [p.entry] else []

def EndsCycle (q : QueuedMarketUpdates τ) (p : Packet τ) : Prop :=
  p.message.update.type = .snapshotEnd ∧ p.seqNum = q.length ∧ p.seqNum ≠ 0

theorem advance_of_ne (h : p.seqNum ≠ q.length) :
    advance q p = if p.seqNum = 0 ∧ p.message.update.type = .snapshotStart then [p.entry] else [] := by
  unfold advance
  split_ifs <;> tauto

theorem advance_nil :
    advance [] p = if p.seqNum = 0 ∧ p.message.update.type = .snapshotStart then [p.entry] else [] := by
  unfold advance
  split_ifs <;> tauto

instance (q : QueuedMarketUpdates τ) (p : Packet τ) : Decidable (EndsCycle q p) :=
  inferInstanceAs (Decidable (_ ∧ _))

theorem QueueOk.advance (h : QueueOk q) (p : Packet τ) (he : ¬ EndsCycle q p) :
    QueueOk (advance q p) := by
  unfold Trading.advance
  split_ifs with h0 hs hn
  · refine ⟨by simp [Numbered, Packet.entry, h0], ?_, ?_⟩
    · simp [Packet.entry, hs]
    · simp [Packet.entry, hs]
  · exact queueOk_nil
  · refine ⟨?_, ?_, ?_⟩
    · have := h.numbered.concat p.message
      rwa [← hn] at this
    · intro e hm h0'
      rcases List.mem_append.mp hm with hm | hm
      · exact h.start e hm h0'
      · rw [List.mem_singleton.mp hm] at h0'
        exact absurd h0' h0
    · intro e hm
      rcases List.mem_append.mp hm with hm | hm
      · exact h.unended e hm
      · rw [List.mem_singleton.mp hm]
        exact fun ht => he ⟨ht, hn, h0⟩
  · exact queueOk_nil

namespace MarketDataConsumer

theorem snapshotEvents_of_numbered (n : ℕ) (h : q.map Prod.fst = List.range' n q.length) :
    snapshotEvents n q = some (frames q) := by
  induction q generalizing n with
  | nil => rfl
  | cons e q ih =>
    obtain ⟨k, m⟩ := e
    simp only [List.map_cons, List.length_cons, List.range'_succ, List.cons.injEq] at h
    obtain ⟨rfl, h⟩ := h
    rw [snapshotEvents, if_neg (not_not_intro rfl), ih _ h, Option.map_some]
    cases hm : isMarker m.update with
    | true => simp [frames, hm]
    | false => simp [frames, hm]

theorem snapshotEvents_of_hole (n : ℕ) {k : ℕ} {m : Message τ}
    (h : q.map Prod.fst = List.range' n q.length) (hk : k ≠ n + q.length) :
    snapshotEvents n (q ++ [(k, m)]) = none := by
  induction q generalizing n with
  | nil => exact if_pos hk
  | cons e q ih =>
    obtain ⟨j, x⟩ := e
    simp only [List.map_cons, List.length_cons, List.range'_succ, List.cons.injEq] at h
    obtain ⟨rfl, h⟩ := h
    rw [List.cons_append, snapshotEvents, if_neg (not_not_intro rfl),
      ih _ h (by simp only [List.length_cons] at hk; omega)]
    rfl

theorem numbered_iff_range' : Numbered q ↔ q.map Prod.fst = List.range' 0 q.length := by
  rw [Numbered, List.range_eq_range']

theorem checkSnapshotSync_one {m : Message τ} {k : ℕ} (hq : c.snapshotQueuedMsgs = [(k, m)]) :
    c.checkSnapshotSync = { c with snapshotQueuedMsgs :=
      if k = 0 ∧ m.update.type = .snapshotStart then [(k, m)] else [] } := by
  unfold checkSnapshotSync
  rw [hq]
  by_cases hs : m.update.type = .snapshotStart
  · cases k with
    | zero => simp [hs, snapshotEvents, ← hq]
    | succ k => simp [hs, snapshotEvents, discardSnapshot]
  · simp [hs, discardSnapshot]

theorem checkSnapshotSync_concat {k : ℕ} {m : Message τ} (hok : QueueOk q) (hne : q ≠ [])
    (hq : c.snapshotQueuedMsgs = q ++ [(k, m)]) :
    c.checkSnapshotSync =
      if k ≠ q.length then c.discardSnapshot
      else if m.update.type ≠ .snapshotEnd then c
      else c.syncIncrementals (frames (q ++ [(k, m)])) m.update := by
  obtain ⟨first, rest, rfl⟩ := List.exists_cons_of_ne_nil hne
  have hkey : first.1 = 0 := hok.numbered.getElem (i := 0) (by simp)
  have hstart := hok.start first (List.mem_cons_self ..) hkey
  have hlast : (rest ++ [(k, m)]).getLastD first = (k, m) := List.getLastD_concat ..
  unfold checkSnapshotSync
  rw [hq]
  simp only [List.cons_append, hstart, ne_eq, not_true_eq_false, if_false, hlast]
  by_cases hk : k = (first :: rest).length
  · have hnum := hok.numbered.concat m
    rw [← hk, numbered_iff_range'] at hnum
    have hev := snapshotEvents_of_numbered 0 hnum
    rw [List.cons_append] at hev
    rw [hev, if_neg (not_not_intro hk)]
  · have hev := snapshotEvents_of_hole 0 (numbered_iff_range'.mp hok.numbered) (m := m)
      (by omega : k ≠ 0 + (first :: rest).length)
    rw [List.cons_append] at hev
    rw [hev, if_pos hk]

theorem queueMessage_snapshot (hok : QueueOk c.snapshotQueuedMsgs) :
    c.queueMessage true p =
      if EndsCycle c.snapshotQueuedMsgs p then
        { c with snapshotQueuedMsgs := c.snapshotQueuedMsgs ++ [p.entry] }.syncIncrementals
          (frames (c.snapshotQueuedMsgs ++ [p.entry])) p.message.update
      else { c with snapshotQueuedMsgs := advance c.snapshotQueuedMsgs p } := by
  have hcont := hok.numbered.contains p.seqNum
  generalize hq : c.snapshotQueuedMsgs = q at *
  unfold queueMessage enqueue
  simp only [if_true, hq]
  by_cases hlt : p.seqNum < q.length
  · have hne : ¬ EndsCycle q p := fun he => hlt.ne he.2.1
    rw [if_pos (hcont.mpr hlt), if_neg hne,
      checkSnapshotSync_one (k := p.seqNum) (m := p.message) rfl, advance_of_ne hlt.ne]
    rfl
  · rw [if_neg (fun h => hlt (hcont.mp h)), hok.numbered.assign (not_lt.mp hlt)]
    cases q with
    | nil =>
      have hne : ¬ EndsCycle [] p := fun he => he.2.2 he.2.1
      rw [List.nil_append, if_neg hne, checkSnapshotSync_one (k := p.seqNum) (m := p.message) rfl,
        advance_nil]
      rfl
    | cons e q =>
      rw [checkSnapshotSync_concat hok (List.cons_ne_nil _ _) rfl]
      have h0 : p.seqNum ≠ 0 := by
        simp only [List.length_cons] at hlt
        omega
      by_cases hk : p.seqNum = (e :: q).length
      · rw [if_neg (not_not_intro hk)]
        by_cases he : p.message.update.type = .snapshotEnd
        · have hends : EndsCycle (e :: q) p := ⟨he, hk, h0⟩
          rw [if_neg (not_not_intro he), if_pos hends]
          rfl
        · have hends : ¬ EndsCycle (e :: q) p := fun h => he h.1
          rw [if_pos he, if_neg hends, advance, if_neg h0, if_pos hk]
          rfl
      · have hends : ¬ EndsCycle (e :: q) p := fun h => hk h.2.1
        rw [if_pos hk, if_neg hends, advance, if_neg h0, if_neg hk]
        rfl

theorem checkSnapshotSync_of_ok (hok : QueueOk c.snapshotQueuedMsgs) : c.checkSnapshotSync = c := by
  unfold checkSnapshotSync
  cases hq : c.snapshotQueuedMsgs with
  | nil => rfl
  | cons first rest =>
    rw [hq] at hok
    have hkey : first.1 = 0 := hok.numbered.getElem (i := 0) (by simp)
    have hlast := hok.unended _ (List.getLastD_mem_cons (l := rest) (a := first))
    simp only [hok.start first (List.mem_cons_self ..) hkey, ne_eq, not_true_eq_false, if_false,
      snapshotEvents_of_numbered 0 (numbered_iff_range'.mp hok.numbered)]
    exact if_pos hlast

theorem queueMessage_incremental (hok : QueueOk c.snapshotQueuedMsgs) :
    c.queueMessage false p =
      { c with incrementalQueuedMsgs := assign p.seqNum p.message c.incrementalQueuedMsgs } :=
  checkSnapshotSync_of_ok (c := c.enqueue false p) hok

end MarketDataConsumer

def MarketDataConsumer.resume (c : MarketDataConsumer τ) (p : Packet τ) :
    MarketDataConsumer.IncrementalScan :=
  MarketDataConsumer.scanIncrementals ((p.message.update.orderId + 1) % 2 ^ 64)
    c.incrementalQueuedMsgs

theorem MarketDataConsumer.syncIncrementals_complete {events : List MEMarketUpdate}
    (hs : (c.resume p).complete = true) :
    { c with snapshotQueuedMsgs := q }.syncIncrementals events p.message.update =
      { c with nextExpIncSeqNum := (c.resume p).nextExp }.commit (events ++ (c.resume p).events) :=
  if_pos hs

theorem MarketDataConsumer.syncIncrementals_incomplete {events : List MEMarketUpdate}
    (hs : (c.resume p).complete = false) :
    { c with snapshotQueuedMsgs := q }.syncIncrementals events p.message.update =
      { c with nextExpIncSeqNum := (c.resume p).nextExp }.discardSnapshot :=
  if_neg fun h => Bool.false_ne_true (hs.symm.trans h)

inductive Received (c : MarketDataConsumer τ) (fd : ℕ) (p : Packet τ) :
    Bool → MarketDataConsumer τ → Prop
  | ignored (hr : c.inRecovery = false) : Received c fd p true c
  | forwarded (hr : c.inRecovery = false) (hn : p.seqNum = c.nextExpIncSeqNum) :
      Received c fd p false (c.forward p.message.update)
  | gap (hr : c.inRecovery = false) (hn : p.seqNum ≠ c.nextExpIncSeqNum) :
      Received c fd p false
        { c with
          inRecovery := true
          snapshotQueuedMsgs := []
          incrementalQueuedMsgs := [p.entry]
          snapshotMcastSocket := c.snapshotMcastSocket.init fd }
  | buffered (hr : c.inRecovery = true) :
      Received c fd p false
        { c with incrementalQueuedMsgs := assign p.seqNum p.message c.incrementalQueuedMsgs }
  | assembled (hr : c.inRecovery = true) (he : ¬ EndsCycle c.snapshotQueuedMsgs p) :
      Received c fd p true { c with snapshotQueuedMsgs := advance c.snapshotQueuedMsgs p }
  | discarded (hr : c.inRecovery = true) (he : EndsCycle c.snapshotQueuedMsgs p)
      (hs : (c.resume p).complete = false) :
      Received c fd p true
        { c with nextExpIncSeqNum := (c.resume p).nextExp, snapshotQueuedMsgs := [] }
  | committed (hr : c.inRecovery = true) (he : EndsCycle c.snapshotQueuedMsgs p)
      (hs : (c.resume p).complete = true) :
      Received c fd p true
        { c with
          nextExpIncSeqNum := (c.resume p).nextExp
          incomingMdUpdates := c.incomingMdUpdates ++
            (frames (c.snapshotQueuedMsgs ++ [p.entry]) ++ (c.resume p).events)
          snapshotQueuedMsgs := []
          incrementalQueuedMsgs := []
          inRecovery := false
          snapshotMcastSocket := c.snapshotMcastSocket.leave }

theorem received_recv (hok : QueueOk c.snapshotQueuedMsgs) (fd : ℕ) (isSnapshot : Bool)
    (p : Packet τ) : Received c fd p isSnapshot (c.recv fd isSnapshot p) := by
  unfold MarketDataConsumer.recv MarketDataConsumer.processMessage
  cases hr : c.inRecovery with
  | false =>
    cases isSnapshot with
    | true => exact .ignored hr
    | false =>
      by_cases hn : p.seqNum = c.nextExpIncSeqNum
      · rw [if_neg (by simp), if_neg (by simp), if_neg (not_not_intro hn)]
        exact .forwarded hr hn
      · rw [if_neg (by simp), if_neg (by simp), if_pos hn,
          MarketDataConsumer.queueMessage_incremental queueOk_nil]
        exact .gap hr hn
  | true =>
    rw [if_neg (by simp), if_pos rfl]
    cases isSnapshot with
    | false =>
      rw [MarketDataConsumer.queueMessage_incremental hok]
      exact .buffered hr
    | true =>
      rw [MarketDataConsumer.queueMessage_snapshot hok]
      split_ifs with he
      · cases hs : (c.resume p).complete with
        | true =>
          rw [MarketDataConsumer.syncIncrementals_complete hs]
          exact .committed hr he hs
        | false =>
          rw [MarketDataConsumer.syncIncrementals_incomplete hs]
          exact .discarded hr he hs
      · exact .assembled hr he

theorem QueueOk.recv (hok : QueueOk c.snapshotQueuedMsgs) (fd : ℕ) (isSnapshot : Bool)
    (p : Packet τ) : QueueOk (c.recv fd isSnapshot p).snapshotQueuedMsgs := by
  have h := received_recv hok fd isSnapshot p
  generalize c.recv fd isSnapshot p = c' at h
  cases h with
  | ignored => exact hok
  | forwarded => exact hok
  | gap => exact queueOk_nil
  | buffered => exact hok
  | assembled hr he => exact hok.advance p he
  | discarded => exact queueOk_nil
  | committed => exact queueOk_nil

end Trading
