import TradingEcosystem.Common.Wire
import TradingEcosystem.Exchange.SnapshotSynthesizer
import TradingEcosystem.Trading.SnapshotQueue

namespace Trading

open Common Exchange OrderedMap

variable {τ : Type}

section Wire

def sizeofMDPMarketUpdate : ℕ := 42

def readType (b : UInt8) : MarketUpdateType :=
  match b.toNat with
  | 0 => .invalid
  | 1 => .clear
  | 2 => .add
  | 3 => .modify
  | 4 => .cancel
  | 5 => .trade
  | 6 => .snapshotStart
  | 7 => .snapshotEnd
  | _ => .unknown b

def readPacket (data : ℕ → UInt8) (i : ℕ) : Packet Unit where
  seqNum := readLE data i 8
  message :=
    { update :=
        { type := readType (data (i + 8))
          orderId := readLE data (i + 9) 8
          tickerId := readLE data (i + 17) 4
          side := readSide (data (i + 21))
          price := toInt64 (readLE data (i + 22) 8)
          qty := readLE data (i + 30) 4
          priority := readLE data (i + 34) 8 }
      origin := () }

def messages (data : ℕ → UInt8) (n : ℕ) : List (Packet Unit) :=
  (List.range (n / sizeofMDPMarketUpdate)).map fun k => readPacket data (sizeofMDPMarketUpdate * k)

end Wire

namespace MarketDataConsumer

def recvLoop (fd : ℕ) (isSnapshot : Bool) (stream : Stream) :
    ℕ → ℕ → MarketDataConsumer Unit → Outcome (ℕ × MarketDataConsumer Unit)
  | 0, _, _ => .error .outOfFuel
  | fuel + 1, i, c =>
      -- the bound is read from the socket again on every round
      if i + sizeofMDPMarketUpdate ≤ (c.socket stream).nextRcvValidIndex then
        recvLoop fd isSnapshot stream fuel (i + sizeofMDPMarketUpdate)
          (c.processMessage fd isSnapshot (readPacket (c.socket stream).inboundData i))
      else pure (i, c)

def isSnapshotSocket (c : MarketDataConsumer Unit) (stream : Stream) : Bool :=
  (c.socket stream).socketFd = c.snapshotMcastSocket.socketFd

def slideBuffer (c : MarketDataConsumer Unit) (stream : Stream) (i : ℕ) :
    Outcome (MarketDataConsumer Unit) := do
  let s ← (c.socket stream).slide i
  pure (c.setSocket s stream)

def recvCallback (c : MarketDataConsumer Unit) (fd : ℕ) (stream : Stream) :
    Outcome (MarketDataConsumer Unit) :=
  let isSnapshot := c.isSnapshotSocket stream
  let s := c.socket stream
  if isSnapshot && !c.inRecovery then
    pure (c.setSocket { s with nextRcvValidIndex := 0 } stream)
  else if sizeofMDPMarketUpdate ≤ s.nextRcvValidIndex then do
    let (i, c) ← recvLoop fd isSnapshot stream (s.nextRcvValidIndex + 1) 0 c
    c.slideBuffer stream i
  else pure c

def received (c : MarketDataConsumer τ) (stream : Stream) (data : ℕ → UInt8) (n : ℕ) :
    MarketDataConsumer τ :=
  c.setSocket { c.socket stream with inboundData := data, nextRcvValidIndex := n } stream

inductive Reachable : MarketDataConsumer Unit → Prop
  | new (fd : ℕ) : Reachable (new fd)
  | recv {c c' : MarketDataConsumer Unit} (h : Reachable c) (stream : Stream) (data : ℕ → UInt8)
      (n fd : ℕ) (hn : n ≤ mcastBufferSize)
      (hc : (c.received stream data n).recvCallback fd stream = .ok c') : Reachable c'

end MarketDataConsumer

def FramingExact (c : MarketDataConsumer Unit) (stream : Stream)
    (r : Outcome (MarketDataConsumer Unit)) : Prop :=
  ∃ c', r = .ok c' ∧ (c'.socket stream).nextRcvValidIndex < sizeofMDPMarketUpdate ∧
    (((c'.socket stream).nextRcvValidIndex = 0 ∧
        (c.isSnapshotSocket stream = true ∧ c.inRecovery = false ∨
          (c'.socket stream).socketFd = -1)) ∨
      ((c'.socket stream).nextRcvValidIndex =
          (c.socket stream).nextRcvValidIndex % sizeofMDPMarketUpdate ∧
        ∀ j < (c'.socket stream).nextRcvValidIndex, (c'.socket stream).inboundData j =
          (c.socket stream).inboundData ((c.socket stream).nextRcvValidIndex -
            (c.socket stream).nextRcvValidIndex % sizeofMDPMarketUpdate + j)))

def GoesOn (next : ℕ) (queued : QueuedMarketUpdates τ) : Prop :=
  ∀ e ∈ queued, ∀ j, next ≤ j → j ≤ e.1 → ∃ f ∈ queued, f.1 = j

/-- The messages queued and those about to be read hold a complete cycle that ends among the
latter: a run numbered from 0, with SNAPSHOT_START first and SNAPSHOT_END last and only there,
and the incrementals queued go on from the number in SNAPSHOT_END. -/
def HoldsCycle (c : MarketDataConsumer τ) (ps : List (Packet τ)) : Prop :=
  ∃ pre body p post, c.snapshotQueuedMsgs ++ ps.map Packet.entry =
      pre ++ body ++ p :: post ∧ post.length < ps.length ∧ body ≠ [] ∧ QueueOk body ∧
    p.2.update.type = .snapshotEnd ∧ p.1 = body.length ∧
    GoesOn ((p.2.update.orderId + 1) % 2 ^ 64) c.incrementalQueuedMsgs

section Invariant

variable {c : MarketDataConsumer τ} {p : Packet τ} {q : QueuedMarketUpdates τ}

theorem goesOn_cons_of_lt {k next : ℕ} {m : Message τ} (h : k < next) :
    GoesOn next ((k, m) :: q) ↔ GoesOn next q := by
  constructor
  · intro hg e he j hn hj
    obtain ⟨f, hf, rfl⟩ := hg e (List.mem_cons_of_mem _ he) j hn hj
    rcases List.mem_cons.mp hf with rfl | hf
    · exact absurd hn h.not_ge
    · exact ⟨f, hf, rfl⟩
  · intro hg e he j hn hj
    rcases List.mem_cons.mp he with rfl | he
    · exact absurd (hn.trans hj) h.not_ge
    · obtain ⟨f, hf, rfl⟩ := hg e he j hn hj
      exact ⟨f, List.mem_cons_of_mem _ hf, rfl⟩

theorem goesOn_cons_self {k : ℕ} {m : Message τ} :
    GoesOn k ((k, m) :: q) ↔ GoesOn (k + 1) q := by
  constructor
  · intro hg e he j hn hj
    obtain ⟨f, hf, rfl⟩ := hg e (List.mem_cons_of_mem _ he) j (by omega) hj
    rcases List.mem_cons.mp hf with rfl | hf
    · exact absurd hn (by simp)
    · exact ⟨f, hf, rfl⟩
  · intro hg e he j hn hj
    rcases Nat.eq_or_lt_of_le hn with rfl | hlt
    · exact ⟨(k, m), List.mem_cons_self .., rfl⟩
    rcases List.mem_cons.mp he with rfl | he
    · exact absurd hlt hj.not_gt
    · obtain ⟨f, hf, rfl⟩ := hg e he j hlt hj
      exact ⟨f, List.mem_cons_of_mem _ hf, rfl⟩

theorem not_goesOn_cons {k next : ℕ} {m : Message τ} (h : next < k) (hq : ∀ e ∈ q, k < e.1) :
    ¬ GoesOn next ((k, m) :: q) := by
  intro hg
  obtain ⟨f, hf, hnext⟩ := hg (k, m) (List.mem_cons_self ..) next le_rfl h.le
  rcases List.mem_cons.mp hf with rfl | hf
  · exact h.ne' hnext
  · exact (h.trans (hq f hf)).ne' hnext

theorem scanIncrementals_complete_iff (hs : Sorted q) (hlt : ∀ e ∈ q, e.1 < 2 ^ 64) {next : ℕ} :
    (MarketDataConsumer.scanIncrementals next q).complete = true ↔ GoesOn next q := by
  induction q generalizing next with
  | nil => simp [MarketDataConsumer.scanIncrementals, GoesOn]
  | cons e q ih =>
    obtain ⟨k, m⟩ := e
    obtain ⟨hall, hq⟩ := List.pairwise_cons.mp hs
    replace hall : ∀ e ∈ q, k < e.1 := fun e he => hall _ (List.mem_map_of_mem he)
    replace ih := @ih hq fun e he => hlt e (List.mem_cons_of_mem _ he)
    rw [MarketDataConsumer.scanIncrementals]
    rcases lt_trichotomy k next with hkn | rfl | hkn
    · rw [if_pos hkn, ih, goesOn_cons_of_lt hkn]
    · rw [if_neg (lt_irrefl _), if_neg (not_not_intro rfl), goesOn_cons_self]
      change (MarketDataConsumer.scanIncrementals ((k + 1) % 2 ^ 64) q).complete = true ↔ _
      cases q with
      | nil => simp [MarketDataConsumer.scanIncrementals, GoesOn]
      | cons f q =>
        -- another number is still to come, so the counter has not wrapped
        have hk := hall f (List.mem_cons_self ..)
        have hf := hlt f (List.mem_cons_of_mem _ (List.mem_cons_self ..))
        rw [Nat.mod_eq_of_lt (by omega), ih]
    · rw [if_neg hkn.not_gt, if_pos hkn.ne']
      simp [not_goesOn_cons hkn hall]

structure Ok (c : MarketDataConsumer τ) : Prop where
  queue : QueueOk c.snapshotQueuedMsgs
  sorted : Sorted c.incrementalQueuedMsgs
  keys : ∀ e ∈ c.incrementalQueuedMsgs, e.1 < 2 ^ 64
  joined : c.inRecovery = true → 0 ≤ c.snapshotMcastSocket.socketFd

theorem ok_new (fd : ℕ) : Ok (MarketDataConsumer.new fd : MarketDataConsumer τ) where
  queue := queueOk_nil
  sorted := .nil
  keys := by simp [MarketDataConsumer.new]
  joined := by simp [MarketDataConsumer.new]

theorem Ok.received (h : Ok c) (stream : Stream) (data : ℕ → UInt8) (n : ℕ) :
    Ok (c.received stream data n) := by
  cases stream with
  | incremental => exact ⟨h.queue, h.sorted, h.keys, h.joined⟩
  | snapshot => exact ⟨h.queue, h.sorted, h.keys, h.joined⟩

theorem Ok.queueMessage (h : Ok c) (isSnapshot : Bool) (hp : p.seqNum < 2 ^ 64) :
    Ok (c.queueMessage isSnapshot p) := by
  cases isSnapshot with
  | false =>
    rw [MarketDataConsumer.queueMessage_incremental h.queue]
    refine ⟨h.queue, sorted_assign h.sorted, fun e he => ?_, h.joined⟩
    rcases mem_of_mem_assign he with rfl | he
    · exact hp
    · exact h.keys e he
  | true =>
    rw [MarketDataConsumer.queueMessage_snapshot h.queue]
    split_ifs with he
    · cases hs : (c.resume p).complete with
      | true =>
        rw [MarketDataConsumer.syncIncrementals_complete hs]
        exact ⟨queueOk_nil, .nil, by simp [MarketDataConsumer.commit],
          by simp [MarketDataConsumer.commit]⟩
      | false =>
        rw [MarketDataConsumer.syncIncrementals_incomplete hs]
        exact ⟨queueOk_nil, h.sorted, h.keys, h.joined⟩
    · exact ⟨h.queue.advance p he, h.sorted, h.keys, h.joined⟩

theorem Ok.startSnapshotSync (c : MarketDataConsumer τ) (fd : ℕ) :
    Ok (c.startSnapshotSync fd) :=
  ⟨queueOk_nil, .nil, by simp [MarketDataConsumer.startSnapshotSync],
    fun _ => Int.natCast_nonneg fd⟩

theorem Ok.processMessage (h : Ok c) (fd : ℕ) (isSnapshot : Bool) (hp : p.seqNum < 2 ^ 64) :
    Ok (c.processMessage fd isSnapshot p) := by
  unfold MarketDataConsumer.processMessage
  split_ifs
  · exact h.queueMessage isSnapshot hp
  · exact (Ok.startSnapshotSync _ fd).queueMessage isSnapshot hp
  · exact h
  · exact ⟨h.queue, h.sorted, h.keys, h.joined⟩

theorem Ok.incrementalMcastSocket_queueMessage (h : Ok c) (isSnapshot : Bool) (p : Packet τ) :
    (c.queueMessage isSnapshot p).incrementalMcastSocket = c.incrementalMcastSocket := by
  cases isSnapshot with
  | false => rw [MarketDataConsumer.queueMessage_incremental h.queue]
  | true =>
    rw [MarketDataConsumer.queueMessage_snapshot h.queue]
    split_ifs
    · cases hs : (c.resume p).complete with
      | true => rw [MarketDataConsumer.syncIncrementals_complete hs]; rfl
      | false => rw [MarketDataConsumer.syncIncrementals_incomplete hs]; rfl
    · rfl

theorem Ok.incrementalMcastSocket_processMessage (h : Ok c) (fd : ℕ) (isSnapshot : Bool)
    (p : Packet τ) :
    (c.processMessage fd isSnapshot p).incrementalMcastSocket = c.incrementalMcastSocket := by
  unfold MarketDataConsumer.processMessage
  split_ifs
  · exact h.incrementalMcastSocket_queueMessage isSnapshot p
  · exact (Ok.startSnapshotSync _ fd).incrementalMcastSocket_queueMessage isSnapshot p
  · rfl
  · rfl

end Invariant

section Cycles

variable {q body : QueuedMarketUpdates τ} {p : Packet τ}

theorem QueueOk.head {e : ℕ × Message τ} (h : QueueOk (e :: q)) :
    e.1 = 0 ∧ e.2.update.type = .snapshotStart := by
  have hkey : e.1 = 0 := h.numbered.getElem (i := 0) (by simp)
  exact ⟨hkey, h.start e (List.mem_cons_self ..) hkey⟩

theorem Numbered.front_eq_nil {V : Type} {pre xs : List (ℕ × V)} {x : ℕ × V}
    (h : Numbered (pre ++ x :: xs)) (hx : x.1 = 0) : pre = [] := by
  have hkey := h.getElem (i := pre.length) (by simp)
  rw [List.getElem_append_right le_rfl] at hkey
  simp only [Nat.sub_self, List.getElem_cons_zero, hx] at hkey
  exact List.length_eq_zero_iff.mp hkey.symm

theorem cycle_split {ms pre post : QueuedMarketUpdates τ} {e : ℕ × Message τ} (hq : QueueOk q)
    (hb : QueueOk body) (hne : body ≠ []) (hlen : post.length ≤ ms.length)
    (h : q ++ p.entry :: ms = pre ++ body ++ e :: post) :
    (body = q ∧ e = p.entry) ∨
      (p.entry ∈ body ∧ ∃ rest, body = advance q p ++ rest ∧ ms = rest ++ e :: post) ∨
      ∃ pre', ms = pre' ++ body ++ e :: post := by
  obtain ⟨b, bs, rfl⟩ := List.exists_cons_of_ne_nil hne
  obtain ⟨hb0, hbs⟩ := hb.head
  have hfront : ∀ {rest}, b :: bs = p.entry :: rest → ms = rest ++ e :: post →
      p.entry ∈ b :: bs ∧ ∃ rest, b :: bs = advance q p ++ rest ∧ ms = rest ++ e :: post := by
    intro rest hrest hms
    obtain ⟨rfl, rfl⟩ := List.cons.inj hrest
    have hadv : advance q p = [p.entry] := (if_pos hb0).trans (if_pos hbs)
    exact ⟨List.mem_cons_self .., bs, by rw [hadv]; rfl, hms⟩
  rcases List.append_eq_append_iff.mp h with ⟨a, hpre, hms⟩ | ⟨a, hq', hpost⟩
  · cases a with
    | nil =>
      rw [List.append_nil] at hpre
      have hnil : pre = [] := Numbered.front_eq_nil (hpre ▸ hq.numbered) hb0
      subst hnil
      exact .inl ⟨hpre, (List.cons.inj hms).1.symm⟩
    | cons x rest =>
      obtain ⟨rfl, hms'⟩ := List.cons.inj hms
      replace hms : ms = rest ++ e :: post := hms'
      rcases List.append_eq_append_iff.mp hpre with ⟨y, hq', hbody⟩ | ⟨y, hpre', hrest⟩
      · cases y with
        | nil => exact .inr (.inl (hfront hbody hms))
        | cons y ys =>
          -- the cycle starts in the queue, that is at its front
          obtain ⟨rfl, hbs'⟩ := List.cons.inj hbody
          have hnil : pre = [] := Numbered.front_eq_nil (hq' ▸ hq.numbered) hb0
          subst hnil
          obtain rfl : q = b :: ys := hq'
          rw [hbody] at hb ⊢
          have hkey : p.seqNum = (b :: ys).length := by
            have := hb.numbered.getElem (i := (b :: ys).length) (by simp)
            rw [List.getElem_append_right le_rfl] at this
            simpa [Packet.entry] using this
          have hadv : advance (b :: ys) p = b :: ys ++ [p.entry] := by
            rw [advance, if_neg (by rw [hkey]; simp), if_pos hkey]
          refine .inr (.inl ⟨by simp, rest, ?_, hms⟩)
          rw [hadv]
          simp
      · cases y with
        | nil => exact .inr (.inl (hfront hrest.symm hms))
        | cons y ys =>
          have htail : rest = ys ++ b :: bs := (List.cons.inj hrest).2
          exact .inr (.inr ⟨ys, by rw [hms, htail]⟩)
  · cases a with
    | nil =>
      rw [List.append_nil] at hq'
      have hnil : pre = [] := Numbered.front_eq_nil (hq' ▸ hq.numbered) hb0
      subst hnil
      exact .inl ⟨hq'.symm, (List.cons.inj hpost).1⟩
    | cons x xs =>
      have := congrArg List.length hpost
      simp only [List.cons_append, List.length_cons, List.length_append] at this
      omega

end Cycles

section Loop

variable {c : MarketDataConsumer Unit}

theorem readLE_lt (data : ℕ → UInt8) (i n : ℕ) : readLE data i n < 256 ^ n := by
  induction n generalizing i with
  | zero => simp [readLE]
  | succ n ih =>
    have hb : (data i).toNat < 256 := (data i).toNat_lt
    have := ih (i + 1)
    rw [readLE, pow_succ]
    omega

theorem seqNum_readPacket_lt (data : ℕ → UInt8) (i : ℕ) : (readPacket data i).seqNum < 2 ^ 64 :=
  (readLE_lt data i 8).trans_eq (by norm_num)

def packetsFrom (data : ℕ → UInt8) (k r : ℕ) : List (Packet Unit) :=
  (List.range' k r).map fun j => readPacket data (sizeofMDPMarketUpdate * j)

theorem messages_eq (data : ℕ → UInt8) (n : ℕ) :
    messages data n = packetsFrom data 0 (n / sizeofMDPMarketUpdate) := by
  rw [messages, packetsFrom, List.range_eq_range']

theorem packetsFrom_succ (data : ℕ → UInt8) (k r : ℕ) :
    packetsFrom data k (r + 1) =
      readPacket data (sizeofMDPMarketUpdate * k) :: packetsFrom data (k + 1) r := rfl

theorem recvLoop_stop (fd : ℕ) (isSnapshot : Bool) (stream : Stream) {fuel i : ℕ} (hf : 0 < fuel)
    (hi : (c.socket stream).nextRcvValidIndex < i + sizeofMDPMarketUpdate) :
    MarketDataConsumer.recvLoop fd isSnapshot stream fuel i c = .ok (i, c) := by
  obtain ⟨fuel, rfl⟩ := Nat.exists_eq_succ_of_ne_zero hf.ne'
  exact if_neg hi.not_ge

theorem recvLoop_next (fd : ℕ) (isSnapshot : Bool) (stream : Stream) {fuel k : ℕ}
    (hi : sizeofMDPMarketUpdate * (k + 1) ≤ (c.socket stream).nextRcvValidIndex) :
    MarketDataConsumer.recvLoop fd isSnapshot stream (fuel + 1) (sizeofMDPMarketUpdate * k) c =
      MarketDataConsumer.recvLoop fd isSnapshot stream fuel (sizeofMDPMarketUpdate * (k + 1))
        (c.processMessage fd isSnapshot
          (readPacket (c.socket stream).inboundData (sizeofMDPMarketUpdate * k))) :=
  if_pos hi

theorem whole_le {n k r : ℕ} (h : n / sizeofMDPMarketUpdate = k + (r + 1)) :
    sizeofMDPMarketUpdate * (k + 1) ≤ n := by
  unfold sizeofMDPMarketUpdate at *
  omega

theorem lt_whole {n k : ℕ} (h : n / sizeofMDPMarketUpdate = k) :
    n < sizeofMDPMarketUpdate * k + sizeofMDPMarketUpdate := by
  unfold sizeofMDPMarketUpdate at *
  omega

theorem recvLoop_incremental (fd : ℕ) (isSnapshot : Bool) (r : ℕ) (h : Ok c) {k fuel : ℕ}
    (hr : c.incrementalMcastSocket.nextRcvValidIndex / sizeofMDPMarketUpdate = k + r)
    (hf : r < fuel) :
    ∃ c', MarketDataConsumer.recvLoop fd isSnapshot .incremental fuel
        (sizeofMDPMarketUpdate * k) c = .ok (sizeofMDPMarketUpdate * (k + r), c') ∧ Ok c' ∧
      c'.incrementalMcastSocket = c.incrementalMcastSocket := by
  induction r generalizing c k fuel with
  | zero => exact ⟨c, recvLoop_stop fd isSnapshot .incremental (by omega) (lt_whole hr), h, rfl⟩
  | succ r ih =>
    obtain ⟨fuel, rfl⟩ := Nat.exists_eq_succ_of_ne_zero (Nat.ne_zero_of_lt hf)
    have hsock := h.incrementalMcastSocket_processMessage fd isSnapshot
      (readPacket (c.socket .incremental).inboundData (sizeofMDPMarketUpdate * k))
    obtain ⟨c', hloop, hok, hs⟩ := ih
      (h.processMessage fd isSnapshot (seqNum_readPacket_lt _ _)) (k := k + 1)
      (by rw [hsock, hr]; omega) (by omega : r < fuel)
    refine ⟨c', ?_, hok, hs.trans hsock⟩
    rw [recvLoop_next fd isSnapshot .incremental (whole_le hr), hloop]
    congr 3
    omega

def CommitsWithin (fd : ℕ) : MarketDataConsumer Unit → List (Packet Unit) → Prop
  | _, [] => False
  | c, p :: ps => (c.processMessage fd true p).inRecovery = false ∨
      CommitsWithin fd (c.processMessage fd true p) ps

theorem received_processMessage (h : Ok c) (hr : c.inRecovery = true) (fd : ℕ) (p : Packet Unit) :
    Received c fd p true (c.processMessage fd true p) := by
  have := received_recv h.queue fd true p
  rwa [MarketDataConsumer.recv, hr, if_neg (by simp)] at this

theorem Ok.leave (h : Ok c) (hr : c.inRecovery = true) :
    c.snapshotMcastSocket.leave.nextRcvValidIndex = 0 := by
  rw [McastSocket.leave, if_neg (h.joined hr).not_gt]

theorem snapshotSocket_processMessage (h : Ok c) (hr : c.inRecovery = true) (fd : ℕ)
    (p : Packet Unit) :
    ((c.processMessage fd true p).inRecovery = true ∧
      (c.processMessage fd true p).snapshotMcastSocket = c.snapshotMcastSocket) ∨
    ((c.processMessage fd true p).inRecovery = false ∧
      (c.processMessage fd true p).snapshotMcastSocket.nextRcvValidIndex = 0) := by
  have hrecv := received_processMessage h hr fd p
  generalize c.processMessage fd true p = c' at hrecv
  cases hrecv with
  | ignored hf => exact absurd (hr.symm.trans hf) (by simp)
  | assembled => exact .inl ⟨hr, rfl⟩
  | discarded => exact .inl ⟨hr, rfl⟩
  | committed => exact .inr ⟨rfl, h.leave hr⟩

theorem recvLoop_snapshot (fd : ℕ) (r : ℕ) (h : Ok c) (hrec : c.inRecovery = true) {k fuel : ℕ}
    (hr : c.snapshotMcastSocket.nextRcvValidIndex / sizeofMDPMarketUpdate = k + r)
    (hf : r < fuel) :
    (¬ CommitsWithin fd c (packetsFrom c.snapshotMcastSocket.inboundData k r) →
      ∃ c', MarketDataConsumer.recvLoop fd true .snapshot fuel (sizeofMDPMarketUpdate * k) c =
          .ok (sizeofMDPMarketUpdate * (k + r), c') ∧ Ok c' ∧
        c'.snapshotMcastSocket = c.snapshotMcastSocket) ∧
    (CommitsWithin fd c (packetsFrom c.snapshotMcastSocket.inboundData k r) →
      ∃ i c', MarketDataConsumer.recvLoop fd true .snapshot fuel (sizeofMDPMarketUpdate * k) c =
          .ok (i, c') ∧ 0 < i ∧ i ≤ sizeofMDPMarketUpdate * (k + r) ∧
        c'.snapshotMcastSocket.nextRcvValidIndex = 0) := by
  induction r generalizing c k fuel with
  | zero =>
    exact ⟨fun _ => ⟨c, recvLoop_stop fd true .snapshot (by omega) (lt_whole hr), h, rfl⟩,
      False.elim⟩
  | succ r ih =>
    obtain ⟨fuel, rfl⟩ := Nat.exists_eq_succ_of_ne_zero (Nat.ne_zero_of_lt hf)
    rw [recvLoop_next fd true .snapshot (whole_le hr), packetsFrom_succ, CommitsWithin]
    have hok := h.processMessage fd true
      (seqNum_readPacket_lt c.snapshotMcastSocket.inboundData (sizeofMDPMarketUpdate * k))
    rcases snapshotSocket_processMessage h hrec fd
      (readPacket c.snapshotMcastSocket.inboundData (sizeofMDPMarketUpdate * k))
      with ⟨hin, hsock⟩ | ⟨hout, hzero⟩
    · obtain ⟨ihno, ihyes⟩ := ih hok hin (k := k + 1) (by rw [hsock, hr]; omega)
        (by omega : r < fuel)
      rw [hsock] at ihno ihyes
      have hk : k + 1 + r = k + (r + 1) := by omega
      rw [hk] at ihno ihyes
      constructor
      · intro hno
        obtain ⟨c', hloop, hok', hs⟩ := ihno fun hc => hno (.inr hc)
        exact ⟨c', hloop, hok', hs⟩
      · rintro (hc | hc)
        · exact absurd (hin.symm.trans hc) (by simp)
        · exact ihyes hc
    · refine ⟨fun hno => absurd (.inl hout) hno, fun _ => ?_⟩
      -- `leave` has taken the bound to 0, below the offset the loop has reached
      refine ⟨_, _, recvLoop_stop fd true .snapshot (by omega) ?_, ?_, ?_, hzero⟩
      · exact hzero.trans_lt (by unfold sizeofMDPMarketUpdate; omega)
      · unfold sizeofMDPMarketUpdate
        omega
      · exact Nat.mul_le_mul_left _ (by omega)

theorem advance_suffix (q : QueuedMarketUpdates τ) (p : Packet τ) :
    ∃ pre, q ++ [p.entry] = pre ++ advance q p := by
  unfold advance
  split_ifs
  · exact ⟨q, rfl⟩
  · exact ⟨q ++ [p.entry], (List.append_nil _).symm⟩
  · exact ⟨[], rfl⟩
  · exact ⟨q ++ [p.entry], (List.append_nil _).symm⟩

theorem length_lt_of_tail {ps : List (Packet τ)} {xs post : QueuedMarketUpdates τ}
    {e : ℕ × Message τ} (h : ps.map Packet.entry = xs ++ e :: post) : post.length < ps.length := by
  have := congrArg List.length h
  simp only [List.length_map, List.length_append, List.length_cons] at this
  omega

theorem HoldsCycle.later {c c' : MarketDataConsumer τ} {p : Packet τ} {ps : List (Packet τ)}
    {front : QueuedMarketUpdates τ} (h : HoldsCycle c' ps)
    (hq : c.snapshotQueuedMsgs ++ [p.entry] = front ++ c'.snapshotQueuedMsgs)
    (hi : c'.incrementalQueuedMsgs = c.incrementalQueuedMsgs) : HoldsCycle c (p :: ps) := by
  obtain ⟨pre, body, e, post, hsplit, hlen, hne, hb, hend, hnum, hgo⟩ := h
  refine ⟨front ++ pre, body, e, post, ?_, ?_, hne, hb, hend, hnum, hi ▸ hgo⟩
  · rw [List.map_cons, ← List.singleton_append, ← List.append_assoc, hq, List.append_assoc, hsplit]
    simp
  · rw [List.length_cons]
    omega

theorem commitsWithin_iff (fd : ℕ) (ps : List (Packet Unit)) (hps : ∀ p ∈ ps, p.seqNum < 2 ^ 64)
    (h : Ok c) (hr : c.inRecovery = true) : CommitsWithin fd c ps ↔ HoldsCycle c ps := by
  induction ps generalizing c with
  | nil =>
    constructor
    · exact False.elim
    · rintro ⟨pre, body, p, post, -, hlen, -⟩
      exact absurd hlen (by simp)
  | cons p ps ih =>
    have hok := h.processMessage fd true (hps p (List.mem_cons_self ..))
    replace ih := fun hrec => ih (fun x hx => hps x (List.mem_cons_of_mem _ hx)) hok hrec
    have hrecv := received_processMessage h hr fd p
    have hscan : ∀ x : ℕ × Message Unit, (c.resume ⟨x.1, x.2⟩).complete = true ↔
        GoesOn ((x.2.update.orderId + 1) % 2 ^ 64) c.incrementalQueuedMsgs := fun x =>
      scanIncrementals_complete_iff h.sorted h.keys
    rw [CommitsWithin]
    generalize c.processMessage fd true p = c' at hrecv hok ih ⊢
    cases hrecv with
    | ignored hf => exact absurd (hr.symm.trans hf) (by simp)
    | committed _ he hs =>
      refine ⟨fun _ => ?_, fun _ => .inl rfl⟩
      refine ⟨[], c.snapshotQueuedMsgs, p.entry, ps.map Packet.entry, rfl, by simp, ?_, h.queue,
        he.1, he.2.1, (hscan p.entry).mp hs⟩
      intro hnil
      exact he.2.2 (by rw [he.2.1, hnil]; rfl)
    | assembled _ he =>
      rw [ih hr]
      obtain ⟨front, hfront⟩ := advance_suffix c.snapshotQueuedMsgs p
      refine ⟨fun hc => ?_, ?_⟩
      · exact (hc.resolve_left fun hf => absurd (hr.symm.trans hf) (by simp)).later hfront rfl
      · rintro ⟨pre, body, e, post, hsplit, hlen, hne, hb, hend, hnum, hgo⟩
        have hlen' : post.length ≤ (ps.map Packet.entry).length := by
          rw [List.length_map]
          exact Nat.le_of_lt_succ hlen
        rcases cycle_split h.queue hb hne hlen' hsplit with
          ⟨hbody, rfl⟩ | ⟨-, rest, hbody, hms⟩ | ⟨pre', hms⟩
        · refine absurd ⟨hend, hbody ▸ hnum, fun h0 => hne ?_⟩ he
          exact List.length_eq_zero_iff.mp (hnum.symm.trans h0)
        · refine .inr ⟨[], body, e, post, ?_, ?_, hne, hb, hend, hnum, hgo⟩
          · rw [hms, hbody]
            simp
          · exact length_lt_of_tail hms
        · refine .inr ⟨advance c.snapshotQueuedMsgs p ++ pre', body, e, post, ?_, ?_, hne, hb, hend,
            hnum, hgo⟩
          · rw [hms]
            simp only [List.append_assoc]
          · exact length_lt_of_tail hms
    | discarded _ he hs =>
      rw [ih hr]
      refine ⟨fun hc => ?_, ?_⟩
      · exact (hc.resolve_left fun hf => absurd (hr.symm.trans hf) (by simp)).later
          (List.append_nil _).symm rfl
      · rintro ⟨pre, body, e, post, hsplit, hlen, hne, hb, hend, hnum, hgo⟩
        have hlen' : post.length ≤ (ps.map Packet.entry).length := by
          rw [List.length_map]
          exact Nat.le_of_lt_succ hlen
        rcases cycle_split h.queue hb hne hlen' hsplit with
          ⟨hbody, rfl⟩ | ⟨hmem, -⟩ | ⟨pre', hms⟩
        · exact absurd (hs.symm.trans ((hscan p.entry).mpr hgo)) (by simp)
        · exact absurd he.1 (hb.unended _ hmem)
        · exact .inr ⟨pre', body, e, post, hms, length_lt_of_tail hms, hne, hb, hend, hnum, hgo⟩

theorem socket_setSocket (s : McastSocket) (stream : Stream) :
    (c.setSocket s stream).socket stream = s := by
  cases stream <;> rfl

theorem framingExact_slide {c₀ : MarketDataConsumer Unit} {stream : Stream} {s : McastSocket}
    (hs : c.socket stream = s) (h₀ : c₀.socket stream = s)
    (hn : s.nextRcvValidIndex ≤ mcastBufferSize) :
    FramingExact c₀ stream (c.slideBuffer stream
      (sizeofMDPMarketUpdate * (s.nextRcvValidIndex / sizeofMDPMarketUpdate))) := by
  have hle : sizeofMDPMarketUpdate * (s.nextRcvValidIndex / sizeofMDPMarketUpdate) ≤
      s.nextRcvValidIndex := Nat.mul_div_le _ _
  have hmod : s.nextRcvValidIndex -
      sizeofMDPMarketUpdate * (s.nextRcvValidIndex / sizeofMDPMarketUpdate) =
        s.nextRcvValidIndex % sizeofMDPMarketUpdate := (Nat.mod_eq_sub_mul_div).symm
  rw [MarketDataConsumer.slideBuffer, hs, McastSocket.slide_ok hle hn, ok_bind]
  refine ⟨_, rfl, ?_⟩
  rw [socket_setSocket, h₀]
  simp only [hmod]
  refine ⟨Nat.mod_lt _ (by decide), .inr ⟨trivial, fun j hj => ?_⟩⟩
  rw [if_pos hj]
  congr 1
  omega

theorem Ok.setSocket {s : McastSocket} {stream : Stream} (h : Ok c)
    (hs : s.socketFd = (c.socket stream).socketFd) : Ok (c.setSocket s stream) := by
  cases stream with
  | incremental => exact ⟨h.queue, h.sorted, h.keys, h.joined⟩
  | snapshot => exact ⟨h.queue, h.sorted, h.keys, fun hr => hs ▸ h.joined hr⟩

theorem Ok.slideBuffer {c' : MarketDataConsumer Unit} {stream : Stream} {i : ℕ} (h : Ok c)
    (hc : c.slideBuffer stream i = .ok c') : Ok c' := by
  obtain ⟨s, hs, hc⟩ := bind_eq_ok.mp hc
  obtain ⟨-, -, hs⟩ := bind_eq_ok.mp hs
  cases hc
  cases hs
  exact h.setSocket rfl

theorem recvCallback_discard {stream : Stream} (hs : c.isSnapshotSocket stream = true)
    (hr : c.inRecovery = false) (fd : ℕ) :
    c.recvCallback fd stream =
      .ok (c.setSocket { c.socket stream with nextRcvValidIndex := 0 } stream) := by
  rw [MarketDataConsumer.recvCallback, hs, hr]
  rfl

theorem recvCallback_short {stream : Stream}
    (hd : ¬ (c.isSnapshotSocket stream = true ∧ c.inRecovery = false)) (fd : ℕ)
    (hlt : (c.socket stream).nextRcvValidIndex < sizeofMDPMarketUpdate) :
    c.recvCallback fd stream = .ok c := by
  have hcond : ¬ (c.isSnapshotSocket stream && !c.inRecovery) = true := by simpa using hd
  rw [MarketDataConsumer.recvCallback, if_neg hcond, if_neg hlt.not_ge]
  rfl

theorem recvCallback_loop {stream : Stream}
    (hd : ¬ (c.isSnapshotSocket stream = true ∧ c.inRecovery = false)) (fd : ℕ)
    (hle : sizeofMDPMarketUpdate ≤ (c.socket stream).nextRcvValidIndex)
    {i : ℕ} {c' : MarketDataConsumer Unit}
    (hloop : MarketDataConsumer.recvLoop fd (c.isSnapshotSocket stream) stream
      ((c.socket stream).nextRcvValidIndex + 1) (sizeofMDPMarketUpdate * 0) c = .ok (i, c')) :
    c.recvCallback fd stream = c'.slideBuffer stream i := by
  have hcond : ¬ (c.isSnapshotSocket stream && !c.inRecovery) = true := by simpa using hd
  rw [Nat.mul_zero] at hloop
  rw [MarketDataConsumer.recvCallback, if_neg hcond, if_pos hle, hloop]
  rfl

theorem framingExact_discard {stream : Stream} (hs : c.isSnapshotSocket stream = true)
    (hr : c.inRecovery = false) :
    FramingExact c stream
      (.ok (c.setSocket { c.socket stream with nextRcvValidIndex := 0 } stream)) := by
  refine ⟨_, rfl, ?_⟩
  rw [socket_setSocket]
  exact ⟨(by decide : 0 < sizeofMDPMarketUpdate), .inl ⟨rfl, .inl ⟨hs, hr⟩⟩⟩

theorem framingExact_short {stream : Stream}
    (hlt : (c.socket stream).nextRcvValidIndex < sizeofMDPMarketUpdate) :
    FramingExact c stream (.ok c) := by
  refine ⟨c, rfl, hlt, .inr ⟨(Nat.mod_eq_of_lt hlt).symm, fun j _ => ?_⟩⟩
  rw [Nat.mod_eq_of_lt hlt, Nat.sub_self, Nat.zero_add]

theorem recvCallback_incremental (h : Ok c) (fd : ℕ)
    (hn : c.incrementalMcastSocket.nextRcvValidIndex ≤ mcastBufferSize) :
    FramingExact c .incremental (c.recvCallback fd .incremental) ∧
      ∀ c', c.recvCallback fd .incremental = .ok c' → Ok c' := by
  by_cases hd : c.isSnapshotSocket .incremental = true ∧ c.inRecovery = false
  · rw [recvCallback_discard hd.1 hd.2]
    refine ⟨framingExact_discard hd.1 hd.2, fun c' hc => ?_⟩
    cases hc
    exact h.setSocket rfl
  rcases Nat.lt_or_ge c.incrementalMcastSocket.nextRcvValidIndex sizeofMDPMarketUpdate
    with hlt | hle
  · rw [recvCallback_short hd fd hlt]
    refine ⟨framingExact_short hlt, fun c' hc => ?_⟩
    cases hc
    exact h
  · obtain ⟨c₁, hloop, hok, hsock⟩ := recvLoop_incremental fd (c.isSnapshotSocket .incremental)
      (c.incrementalMcastSocket.nextRcvValidIndex / sizeofMDPMarketUpdate) h (k := 0)
      (Nat.zero_add _).symm (Nat.lt_succ_of_le (Nat.div_le_self _ _))
    rw [recvCallback_loop hd fd hle hloop, Nat.zero_add]
    exact ⟨framingExact_slide hsock rfl hn, fun c' hc => hok.slideBuffer hc⟩

theorem recvCallback_snapshot (h : Ok c) (fd : ℕ)
    (hn : c.snapshotMcastSocket.nextRcvValidIndex ≤ mcastBufferSize) :
    (FramingExact c .snapshot (c.recvCallback fd .snapshot) ↔
      ¬ (c.inRecovery = true ∧ HoldsCycle c (messages c.snapshotMcastSocket.inboundData
        c.snapshotMcastSocket.nextRcvValidIndex))) ∧
      ∀ c', c.recvCallback fd .snapshot = .ok c' → Ok c' := by
  have hsnap : c.isSnapshotSocket .snapshot = true := decide_eq_true rfl
  cases hr : c.inRecovery with
  | false =>
    rw [recvCallback_discard hsnap hr]
    refine ⟨iff_of_true (framingExact_discard hsnap hr) (by simp), fun c' hc => ?_⟩
    cases hc
    exact h.setSocket rfl
  | true =>
    have hd : ¬ (c.isSnapshotSocket .snapshot = true ∧ c.inRecovery = false) := by simp [hr]
    have hmsgs := messages_eq c.snapshotMcastSocket.inboundData
      c.snapshotMcastSocket.nextRcvValidIndex
    have hiff := commitsWithin_iff fd (messages c.snapshotMcastSocket.inboundData
      c.snapshotMcastSocket.nextRcvValidIndex) (fun p hp => by
        obtain ⟨k, -, rfl⟩ := List.mem_map.mp hp
        exact seqNum_readPacket_lt _ _) h hr
    rcases Nat.lt_or_ge c.snapshotMcastSocket.nextRcvValidIndex sizeofMDPMarketUpdate
      with hlt | hle
    · rw [recvCallback_short hd fd hlt]
      refine ⟨iff_of_true (framingExact_short hlt) ?_, fun c' hc => ?_⟩
      · rw [← hiff, hmsgs, Nat.div_eq_of_lt hlt]
        exact fun hc => hc.2
      · cases hc
        exact h
    · have hloop := recvLoop_snapshot fd
        (c.snapshotMcastSocket.nextRcvValidIndex / sizeofMDPMarketUpdate) h hr (k := 0)
        (Nat.zero_add _).symm (Nat.lt_succ_of_le (Nat.div_le_self _ _))
      rw [← hmsgs, hiff] at hloop
      by_cases hcycle : HoldsCycle c (messages c.snapshotMcastSocket.inboundData
          c.snapshotMcastSocket.nextRcvValidIndex)
      · obtain ⟨i, c₁, hl, hpos, hi, hzero⟩ := hloop.2 hcycle
        have hfault : c.recvCallback fd .snapshot = .error .outOfRange := by
          have hle' : i ≤ mcastBufferSize := by
            refine (hi.trans ?_).trans hn
            rw [Nat.zero_add]
            exact Nat.mul_div_le _ _
          rw [recvCallback_loop hd fd hle (hsnap ▸ hl), MarketDataConsumer.slideBuffer]
          exact congrArg (· >>= _) (McastSocket.slide_underflow hzero hpos hle')
        rw [hfault]
        refine ⟨iff_of_false ?_ fun hno => hno ⟨rfl, hcycle⟩, fun c' hc => by cases hc⟩
        rintro ⟨c', hc, -⟩
        cases hc
      · obtain ⟨c₁, hl, hok, hsock⟩ := hloop.1 hcycle
        rw [recvCallback_loop hd fd hle (hsnap ▸ hl), Nat.zero_add]
        exact ⟨iff_of_true (framingExact_slide hsock rfl hn) fun hc => hcycle hc.2,
          fun c' hc => hok.slideBuffer hc⟩

theorem MarketDataConsumer.Reachable.ok (h : c.Reachable) : Ok c := by
  induction h with
  | new fd => exact ok_new fd
  | @recv c c' h stream data n fd hn hc ih =>
    cases stream with
    | incremental => exact (recvCallback_incremental (ih.received .incremental data n) fd hn).2 _ hc
    | snapshot => exact (recvCallback_snapshot (ih.received .snapshot data n) fd hn).2 _ hc

end Loop

theorem recvCallback_framing_exact_iff {c : MarketDataConsumer Unit} (h : c.Reachable)
    (stream : Stream) (data : ℕ → UInt8) (n fd : ℕ) (hn : n ≤ mcastBufferSize) :
    FramingExact (c.received stream data n) stream
        ((c.received stream data n).recvCallback fd stream) ↔
      ¬ (stream = .snapshot ∧ c.inRecovery = true ∧ HoldsCycle c (messages data n)) := by
  cases stream with
  | incremental =>
    exact iff_of_true (recvCallback_incremental (h.ok.received .incremental data n) fd hn).1
      (by simp)
  | snapshot =>
    refine (recvCallback_snapshot (h.ok.received .snapshot data n) fd hn).1.trans ?_
    exact not_congr ⟨fun hc => ⟨rfl, hc⟩, fun hc => hc.2⟩

def writeType : MarketUpdateType → UInt8
  | .invalid => 0
  | .clear => 1
  | .add => 2
  | .modify => 3
  | .cancel => 4
  | .trade => 5
  | .snapshotStart => 6
  | .snapshotEnd => 7
  | .unknown raw => raw

def writePacket (m : MDPMarketUpdate) : List UInt8 :=
  writeLE 8 m.seqNum ++ [writeType m.meMarketUpdate.type] ++ writeLE 8 m.meMarketUpdate.orderId ++
    writeLE 4 m.meMarketUpdate.tickerId ++ [writeSide m.meMarketUpdate.side] ++
    writeLE 8 (ofInt64 m.meMarketUpdate.price) ++ writeLE 4 m.meMarketUpdate.qty ++
    writeLE 8 m.meMarketUpdate.priority

def bufferOf (ms : List MDPMarketUpdate) (i : ℕ) : UInt8 :=
  match ms[i / sizeofMDPMarketUpdate]? with
  | none => 0
  | some m => (writePacket m).getD (i % sizeofMDPMarketUpdate) 0

def emptyCycle (n : ℕ) : List MDPMarketUpdate :=
  numberFrames (snapshotMarker .snapshotStart n :: (List.range meMaxTickers).map clearUpdate ++
    [snapshotMarker .snapshotEnd n])

def sampleTrade : MDPMarketUpdate := ⟨2, ⟨.trade, 1, 0, .buy, 100, 10, 1⟩⟩

theorem not_holdsCycle {c : MarketDataConsumer Unit} {ps : List (Packet Unit)}
    (h : ∀ e ∈ c.snapshotQueuedMsgs ++ ps.map Packet.entry, e.2.update.type ≠ .snapshotEnd) :
    ¬ HoldsCycle c ps := by
  rintro ⟨pre, body, p, post, heq, -, -, -, hend, -⟩
  refine h p ?_ hend
  rw [heq]
  exact List.mem_append_right _ (List.mem_cons_self ..)

/-- A recovering consumer gets three whole messages of a cycle and 20 bytes of the fourth. -/
theorem recvCallback_framing_exact_iff_sample :
    ∃ c : MarketDataConsumer Unit, c.Reachable ∧ c.inRecovery = true ∧
      FramingExact (c.received .snapshot (bufferOf (emptyCycle 2)) 146) .snapshot
        ((c.received .snapshot (bufferOf (emptyCycle 2)) 146).recvCallback 4 .snapshot) := by
  obtain ⟨c, hc, hobs⟩ := map_eq_ok (show
    (((MarketDataConsumer.new 3).received .incremental (bufferOf [sampleTrade]) 42).recvCallback 4
      .incremental).map (fun c => (c.inRecovery, c.snapshotQueuedMsgs.length)) = .ok (true, 0) by
    decide +kernel)
  obtain ⟨hrecovery, hempty⟩ := Prod.mk.inj hobs
  have hreach : c.Reachable :=
    .recv (.new 3) .incremental (bufferOf [sampleTrade]) 42 4 (by decide) hc
  have hunended : ∀ e ∈ (messages (bufferOf (emptyCycle 2)) 146).map Packet.entry,
      e.2.update.type ≠ .snapshotEnd := by decide +kernel
  refine ⟨c, hreach, hrecovery, (recvCallback_framing_exact_iff hreach .snapshot _ 146 4
    (by decide)).mpr fun ⟨_, _, hcycle⟩ => not_holdsCycle (fun e he => ?_) hcycle⟩
  rw [List.length_eq_zero_iff.mp hempty, List.nil_append] at he
  exact hunended e he

def faultOf {α : Type} : Outcome α → Option Fault
  | .ok _ => none
  | .error e => some e

theorem snapshot_end_underflows_memcpy :
    ∃ c : MarketDataConsumer Unit, c.Reachable ∧
      (c.received .snapshot (bufferOf (emptyCycle 2)) 420).recvCallback 4 .snapshot =
        .error .outOfRange ∧
      ¬ FramingExact (c.received .snapshot (bufferOf (emptyCycle 2)) 420) .snapshot
        ((c.received .snapshot (bufferOf (emptyCycle 2)) 420).recvCallback 4 .snapshot) := by
  have hrun : faultOf (((MarketDataConsumer.new 3).received .incremental
      (bufferOf [sampleTrade]) 42).recvCallback 4 .incremental >>= fun c =>
        (c.received .snapshot (bufferOf (emptyCycle 2)) 420).recvCallback 4 .snapshot) =
      some .outOfRange := by decide +kernel
  obtain ⟨c, hc, -⟩ := (recvCallback_incremental
    ((ok_new 3).received .incremental (bufferOf [sampleTrade]) 42) 4 (by decide)).1
  rw [hc, ok_bind] at hrun
  have hfault : (c.received .snapshot (bufferOf (emptyCycle 2)) 420).recvCallback 4 .snapshot =
      .error .outOfRange := by
    cases hr : (c.received .snapshot (bufferOf (emptyCycle 2)) 420).recvCallback 4 .snapshot with
    | ok c' => simp [hr, faultOf] at hrun
    | error e =>
      rw [hr] at hrun
      rw [Option.some.inj hrun]
  refine ⟨c, .recv (.new 3) .incremental (bufferOf [sampleTrade]) 42 4 (by decide) hc, hfault, ?_⟩
  rintro ⟨c', hc', -⟩
  rw [hfault] at hc'
  cases hc'

end Trading
