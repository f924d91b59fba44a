import TradingEcosystem.System.MarketDataFeed
import TradingEcosystem.System.UpdateFormat
import TradingEcosystem.Trading.RecoveryLatch

namespace Exchange

open Common

structure MarketDataPublisher where
  nextIncSeqNum : ℕ
  incrementalSocket : McastSender
  deriving DecidableEq

/-- One round of `MarketDataPublisher::run`: the updates it finds in its queue, and what `::send`
returns at its end. -/
structure PublishRound where
  updates : List MEMarketUpdate
  taken : ℤ

namespace MarketDataPublisher

def new : MarketDataPublisher := ⟨1, McastSender.new⟩

def stage (p : MarketDataPublisher) (u : MEMarketUpdate) : Outcome MarketDataPublisher := do
  let socket ← p.incrementalSocket.send (pack [(8, p.nextIncSeqNum)])
  let socket ← socket.send (pack u.members)
  pure ⟨(p.nextIncSeqNum + 1) % 2 ^ 64, socket⟩

def stageAll (p : MarketDataPublisher) : List MEMarketUpdate → Outcome MarketDataPublisher
  | [] => pure p
  | u :: us => do
      let p ← p.stage u
      p.stageAll us

def round (p : MarketDataPublisher) (r : PublishRound) : Outcome MarketDataPublisher := do
  let p ← p.stageAll r.updates
  pure { p with incrementalSocket := p.incrementalSocket.sendAndRecv r.taken }

def run (p : MarketDataPublisher) : List PublishRound → Outcome MarketDataPublisher
  | [] => pure p
  | r :: rs => do
      let p ← p.round r
      p.run rs

end MarketDataPublisher

/-- `::send` on a datagram socket takes all that was staged or nothing. -/
def PublishRound.Whole (r : PublishRound) : Prop :=
  r.taken ≤ 0 ∨ r.taken = Trading.sizeofMDPMarketUpdate * r.updates.length

section Publisher

variable {p p' : MarketDataPublisher} {us : List MEMarketUpdate} {rs : List PublishRound}

theorem length_frames (ms : List MDPMarketUpdate) :
    (ms.flatMap updateFrame).length = Trading.sizeofMDPMarketUpdate * ms.length := by
  rw [List.length_flatMap, List.map_congr_left fun m _ => length_updateFrame m, List.map_const',
    List.sum_replicate, smul_eq_mul, Nat.mul_comm]

theorem publish_append (n : ℕ) (us vs : List MEMarketUpdate) :
    publish n (us ++ vs) = publish n us ++ publish (n + us.length) vs := by
  induction us generalizing n with
  | nil => rfl
  | cons u us ih =>
    rw [List.cons_append, publish, ih, publish, List.length_cons, Nat.add_comm us.length,
      ← Nat.add_assoc]
    rfl

theorem length_publish (n : ℕ) (us : List MEMarketUpdate) : (publish n us).length = us.length := by
  induction us generalizing n with
  | nil => rfl
  | cons u us ih => rw [publish, List.length_cons, ih, List.length_cons]

theorem stageAll_eq_ok (h : p.stageAll us = .ok p') (hseq : p.nextIncSeqNum + us.length < 2 ^ 64) :
    p' = ⟨p.nextIncSeqNum + us.length, { p.incrementalSocket with
      outboundData := p.incrementalSocket.outboundData ++
        (publish p.nextIncSeqNum us).flatMap updateFrame }⟩ := by
  induction us generalizing p with
  | nil =>
    cases h
    simp [publish]
  | cons u us ih =>
    obtain ⟨p₁, h₁, h⟩ := bind_eq_ok.mp h
    obtain ⟨s, hs, h₁⟩ := bind_eq_ok.mp h₁
    obtain ⟨s', hs', h₁⟩ := bind_eq_ok.mp h₁
    cases h₁
    rw [List.length_cons] at hseq
    have hnext : (p.nextIncSeqNum + 1) % 2 ^ 64 = p.nextIncSeqNum + 1 :=
      Nat.mod_eq_of_lt (by omega)
    have hrest := ih h (by dsimp only; omega)
    rw [hrest, McastSender.send_eq_ok hs', McastSender.send_eq_ok hs]
    dsimp only
    rw [hnext, publish, List.flatMap_cons, updateFrame, List.length_cons]
    simp only [List.append_assoc, MarketDataPublisher.mk.injEq, and_true]
    omega

structure Sends (n : ℕ) (us : List MEMarketUpdate) (p : MarketDataPublisher) : Prop where
  next : p.nextIncSeqNum = n + us.length
  staged : p.incrementalSocket.outboundData = []
  sent : ∀ d ∈ p.incrementalSocket.sent, ∃ ms, ms ≠ [] ∧ d = ms.flatMap updateFrame ∧
    ∀ m ∈ ms, m ∈ publish n us

theorem datagram_append {n : ℕ} {d : List UInt8} (vs : List MEMarketUpdate)
    (h : ∃ ms, ms ≠ [] ∧ d = ms.flatMap updateFrame ∧ ∀ m ∈ ms, m ∈ publish n us) :
    ∃ ms, ms ≠ [] ∧ d = ms.flatMap updateFrame ∧ ∀ m ∈ ms, m ∈ publish n (us ++ vs) := by
  obtain ⟨ms, hne, rfl, hms⟩ := h
  refine ⟨ms, hne, rfl, fun m hmem => ?_⟩
  rw [publish_append]
  exact List.mem_append_left _ (hms m hmem)

theorem sends_new : Sends 1 [] MarketDataPublisher.new :=
  ⟨rfl, rfl, fun _ hd => by cases hd⟩

theorem Sends.round {n : ℕ} {r : PublishRound} (h : Sends n us p) (hr : r.Whole)
    (hseq : n + (us ++ r.updates).length < 2 ^ 64) (hp : p.round r = .ok p') :
    Sends n (us ++ r.updates) p' := by
  obtain ⟨p₁, h₁, hp⟩ := bind_eq_ok.mp hp
  cases hp
  rw [List.length_append] at hseq
  have hnext := h.next
  rw [stageAll_eq_ok h₁ (by omega), h.staged, List.nil_append]
  generalize hm : publish p.nextIncSeqNum r.updates = ms
  have hlen : ms.length = r.updates.length := hm ▸ length_publish _ _
  have hsub : ∀ m ∈ ms, m ∈ publish n (us ++ r.updates) := by
    intro m hmem
    rw [publish_append, ← hnext, hm]
    exact List.mem_append_right _ hmem
  have hold : ∀ d ∈ p.incrementalSocket.sent, ∃ ms, ms ≠ [] ∧ d = ms.flatMap updateFrame ∧
      ∀ m ∈ ms, m ∈ publish n (us ++ r.updates) :=
    fun d hd => datagram_append r.updates (h.sent d hd)
  have hcount : p.nextIncSeqNum + r.updates.length = n + (us ++ r.updates).length := by
    rw [List.length_append]
    omega
  cases ms with
  | nil =>
    rw [List.flatMap_nil, McastSender.sendAndRecv, if_pos rfl]
    exact ⟨hcount, rfl, hold⟩
  | cons m ms =>
    have hwhole : r.taken ≤ 0 ∨ r.taken = ((m :: ms).flatMap updateFrame).length := by
      rw [length_frames, hlen]
      push_cast
      exact hr
    rcases McastSender.sendAndRecv_whole
      (s := ⟨(m :: ms).flatMap updateFrame, p.incrementalSocket.sent⟩) hwhole with hs | hs
    · rw [hs]
      exact ⟨hcount, rfl, hold⟩
    · rw [hs]
      refine ⟨hcount, rfl, fun d hd => ?_⟩
      rcases List.mem_append.mp hd with hd | hd
      · exact hold d hd
      · exact ⟨m :: ms, List.cons_ne_nil _ _, List.mem_singleton.mp hd, hsub⟩

theorem Sends.run {n : ℕ} (h : Sends n us p) (hrs : ∀ r ∈ rs, r.Whole)
    (hseq : n + (us ++ rs.flatMap PublishRound.updates).length < 2 ^ 64)
    (hp : p.run rs = .ok p') : Sends n (us ++ rs.flatMap PublishRound.updates) p' := by
  induction rs generalizing p us with
  | nil =>
    cases hp
    rwa [List.flatMap_nil, List.append_nil]
  | cons r rs ih =>
    obtain ⟨p₁, h₁, hp⟩ := bind_eq_ok.mp hp
    rw [List.flatMap_cons, ← List.append_assoc] at hseq ⊢
    refine ih (h.round (hrs r (List.mem_cons_self ..)) ?_ h₁)
      (fun x hx => hrs x (List.mem_cons_of_mem _ hx)) hseq hp
    rw [List.length_append] at hseq
    omega

end Publisher

end Exchange

namespace Trading

open Common Exchange

variable {c c' : MarketDataConsumer Unit} {us : List MEMarketUpdate} {fd k : ℕ} {a : Arrival}

structure Forwarded (us : List MEMarketUpdate) (k : ℕ) (c : MarketDataConsumer Unit) : Prop where
  reached : k ≤ us.length
  forwarded : c.incomingMdUpdates = us.take k
  next : c.inRecovery = false → c.nextExpIncSeqNum = k + 1

theorem Forwarded.message {newFd : ℕ} {p : Packet Unit} (h : Forwarded us k c)
    (hlen : us.length + 1 < 2 ^ 64) (hrecv : Received c newFd p false c') {i : ℕ}
    (hi : i < us.length) (hp : p = ⟨1 + i, ⟨us[i], ()⟩⟩) : ∃ k', Forwarded us k' c' := by
  subst hp
  cases hrecv with
  | forwarded hr hn =>
    have hnext := h.next hr
    obtain rfl : i = k := by
      dsimp only at hn
      omega
    refine ⟨i + 1, hi, ?_, fun _ => ?_⟩
    · rw [MarketDataConsumer.forward, h.forwarded]
      exact (List.take_succ_eq_append_getElem hi).symm
    · rw [MarketDataConsumer.forward, hnext]
      exact Nat.mod_eq_of_lt (by omega)
  | gap => exact ⟨k, h.reached, h.forwarded, fun hf => absurd hf (by simp)⟩
  | buffered => exact ⟨k, h.reached, h.forwarded, h.next⟩

def FeedDatagram (us : List MEMarketUpdate) (d : List UInt8) : Prop :=
  ∃ ms, ms ≠ [] ∧ d = ms.flatMap updateFrame ∧ ∀ m ∈ ms, m ∈ publish 1 us

theorem ne_nil_of_datagram {d : List UInt8} (h : FeedDatagram us d) : d ≠ [] := by
  obtain ⟨ms, hne, rfl, -⟩ := h
  intro hnil
  have hlen := length_frames ms
  rw [hnil, List.length_nil] at hlen
  rcases Nat.mul_eq_zero.mp hlen.symm with h0 | h0
  · exact absurd h0 (by decide)
  · exact hne (List.length_eq_zero_iff.mp h0)

theorem flatten_datagrams {ds : List (List UInt8)} (h : ∀ d ∈ ds, FeedDatagram us d) :
    ∃ ms : List MDPMarketUpdate, ds.flatten = ms.flatMap updateFrame ∧ ∀ m ∈ ms, m ∈ publish 1 us := by
  induction ds with
  | nil => exact ⟨[], rfl, fun m hm => by cases hm⟩
  | cons d ds ih =>
    obtain ⟨ms, -, rfl, hms⟩ := h d (List.mem_cons_self ..)
    obtain ⟨ms', hflat, hms'⟩ := ih fun x hx => h x (List.mem_cons_of_mem _ hx)
    refine ⟨ms ++ ms', ?_, fun m hm => ?_⟩
    · rw [List.flatten_cons, hflat, List.flatMap_append]
    · exact (List.mem_append.mp hm).elim (hms m) (hms' m)

/-- What the incremental socket of a client can find: datagrams of the publisher, any number of
times and in any order, that fit its buffer. The snapshot socket may find any bytes. -/
def Arrival.From (sent : List (List UInt8)) (a : Arrival) : Prop :=
  a.stream = .incremental → (∀ d ∈ a.datagrams, d ∈ sent) ∧
    a.datagrams.flatten.length ≤ mcastBufferSize

structure Upto (us : List MEMarketUpdate) (fd : ℕ) (c : MarketDataConsumer Unit) : Prop where
  apart : Apart fd c
  forwarded : ∃ k, Forwarded us k c
  aligned : c.incrementalMcastSocket.nextRcvValidIndex = 0

theorem upto_new (us : List MEMarketUpdate) (fd : ℕ) : Upto us fd (MarketDataConsumer.new fd) where
  apart := apart_new fd
  forwarded := ⟨0, Nat.zero_le _, rfl, fun _ => rfl⟩
  aligned := rfl

section Arrivals

variable (htype : ∀ u ∈ us, u.OfType) (hlen : us.length + 1 < 2 ^ 64)

include htype hlen

theorem Upto.incremental {ds : List (List UInt8)} {newFd : ℕ} (h : Upto us fd c)
    (hds : ∀ d ∈ ds, FeedDatagram us d) (hroom : ds.flatten.length ≤ mcastBufferSize)
    (hne : newFd ≠ fd)
    (hc : (c.setSocket (c.incrementalMcastSocket.drain ds).1 .incremental).recvCallback newFd
      .incremental = .ok c') : Upto us fd c' := by
  obtain ⟨k, hk⟩ := h.forwarded
  obtain ⟨ms, hflat, hms⟩ := flatten_datagrams hds
  have hdrain : (c.incrementalMcastSocket.drain ds).1 =
      c.incrementalMcastSocket.store (ms.flatMap updateFrame) := by
    rw [McastSocket.drain_eq (fun d hd => ne_nil_of_datagram (hds d hd))
      (by rw [h.aligned]; omega), hflat]
  rw [hflat] at hroom
  rw [hdrain] at hc
  obtain ⟨hnext, hdata⟩ := McastSocket.store_empty h.aligned (ms.flatMap updateFrame)
  rw [length_frames] at hnext
  have hap : Apart fd (c.setSocket (c.incrementalMcastSocket.store (ms.flatMap updateFrame))
      .incremental) := by
    refine h.apart.setSocket rfl ?_
    rw [hnext, ← length_frames]
    exact hroom
  obtain ⟨hap', hforw, hrest⟩ := hap.incrementalCallback (Q := fun c₁ => ∃ k, Forwarded us k c₁)
    ⟨k, hk.reached, hk.forwarded, hk.next⟩ hne (by
      rintro c₁ j hj hap₁ ⟨k₁, hk₁⟩
      change _ ≤ (c.incrementalMcastSocket.store _).nextRcvValidIndex at hj
      rw [hnext] at hj
      have hjlt : j < ms.length := Nat.lt_of_succ_le (Nat.le_of_mul_le_mul_left hj (by decide))
      obtain ⟨i, hi, heq⟩ := mem_publish (hms _ (List.getElem_mem hjlt))
      have hread := readPacket_flatMap hjlt (by rw [heq]; dsimp only; omega)
        (by rw [heq]; exact htype _ (List.getElem_mem hi)) hdata
      rw [heq] at hread
      exact hk₁.message hlen (received_incremental hap₁ newFd _) hi hread)
    (by
      rintro c₁ s ⟨k₁, hk₁⟩
      exact ⟨k₁, hk₁.reached, hk₁.forwarded, hk₁.next⟩) hc
  refine ⟨hap', hforw, ?_⟩
  rw [hrest]
  change (c.incrementalMcastSocket.store _).nextRcvValidIndex % _ = 0
  rw [hnext]
  exact Nat.mul_mod_right _ _

theorem Upto.sendAndRecv {sent : List (List UInt8)} (h : Upto us fd c)
    (hsent : ∀ d ∈ sent, FeedDatagram us d) (ha : a.From sent) (hne : a.fd ≠ fd)
    (hc : c.sendAndRecv a = .ok c') : Upto us fd c' := by
  obtain ⟨stream, ds, newFd⟩ := a
  simp only [MarketDataConsumer.sendAndRecv] at hc
  split_ifs at hc
  · cases stream with
    | incremental =>
      obtain ⟨hds, hroom⟩ := ha rfl
      have hopen : ¬ c.incrementalMcastSocket.socketFd < 0 := by
        rw [h.apart.incremental]
        omega
      rw [MarketDataConsumer.socket, McastSocket.receive, if_neg hopen] at hc
      exact h.incremental htype hlen (fun d hd => hsent d (hds d hd)) hroom hne hc
    | snapshot =>
      obtain ⟨hap, hun⟩ := (h.apart.received .snapshot ds).snapshotCallback hc
      obtain ⟨k, hk⟩ := h.forwarded
      refine ⟨hap, ⟨k, hk.reached, hun.forwarded.trans hk.forwarded, fun hr => ?_⟩, ?_⟩
      · have hr' : c.inRecovery = false := hun.inRecovery.symm.trans hr
        exact (hun.next hr').trans (hk.next hr')
      · rw [hun.incremental]
        exact h.aligned
  · cases hc
    exact h

theorem Upto.run {as : List Arrival} {sent : List (List UInt8)} (h : Upto us fd c)
    (hsent : ∀ d ∈ sent, FeedDatagram us d) (has : ∀ a ∈ as, a.From sent ∧ a.fd ≠ fd)
    (hc : c.run as = .ok c') : Upto us fd c' := by
  induction as generalizing c with
  | nil =>
    cases hc
    exact h
  | cons a as ih =>
    obtain ⟨c₁, h₁, hc⟩ := bind_eq_ok.mp hc
    obtain ⟨ha, hne⟩ := has a (List.mem_cons_self ..)
    exact ih (h.sendAndRecv htype hlen hsent ha hne h₁)
      (fun b hb => has b (List.mem_cons_of_mem _ hb)) hc

end Arrivals

theorem client_sees_prefix (checked : Bool) (reqs : List MEClientRequest)
    (hreqs : ∀ req ∈ reqs, req.Admissible) (hnews : numNews reqs < meMaxOrderIds) :
    ∃ e events, (MatchingEngine.new checked).run reqs = .ok (e, events) ∧
      ∀ (rounds : List PublishRound) (p : MarketDataPublisher),
        rounds.flatMap PublishRound.updates <+: marketUpdates events → (∀ r ∈ rounds, r.Whole) →
        MarketDataPublisher.new.run rounds = .ok p →
        ∀ (fd : ℕ) (as : List Arrival) (c : MarketDataConsumer Unit),
          (∀ a ∈ as, a.From p.incrementalSocket.sent ∧ a.fd ≠ fd) →
          (MarketDataConsumer.new fd).run as = .ok c →
          ∃ k M, k ≤ (marketUpdates events).length ∧
            c.incomingMdUpdates = (marketUpdates events).take k ∧
            (c.inRecovery = false → c.nextExpIncSeqNum = k + 1) ∧
            (TickerOrderBook.new checked).run c.incomingMdUpdates = .ok M ∧
            ∀ xs ys, reqs = xs ++ ys → ∃ e' events', (MatchingEngine.new checked).run xs =
              .ok (e', events') ∧ ((marketUpdates events').length = k →
                ∀ t, ShowsBook (M t) (e'.tickerOrderBook t)) := by
  obtain ⟨e, hrun, -⟩ := (refinesAll_new checked).run reqs hreqs (hasRoom_new hnews)
  obtain ⟨hus, -, -⟩ := run_emits reqs (refinesAll_new checked).wf hreqs (hasRoom_new hnews)
  have hlen := length_updates_lt hreqs hnews
  have htype := run_ofType reqs (refinesAll_new checked).wf (fun _ => IndexedBook.prioritized_new)
    hreqs (hasRoom_new hnews)
  refine ⟨e, _, hrun, fun rounds p hpre hwhole hp fd as c has hc => ?_⟩
  generalize hu : marketUpdates (IndexedBooks.new.run reqs).2 = us at hus hlen htype hpre ⊢
  have hbound : 1 + ([] ++ rounds.flatMap PublishRound.updates).length < 2 ^ 64 := by
    have hle := hpre.length_le
    rw [List.nil_append]
    omega
  have hsends := sends_new.run hwhole hbound hp
  have hsent : ∀ d ∈ p.incrementalSocket.sent, FeedDatagram us d := by
    obtain ⟨rest, rfl⟩ := hpre
    exact fun d hd => datagram_append rest (hsends.sent d hd)
  have hupto := (upto_new us fd).run htype hlen hsent has hc
  obtain ⟨k, hk⟩ := hupto.forwarded
  obtain ⟨M, hM, htr, -⟩ := veteran hus checked k
  refine ⟨k, M, hk.reached, hk.forwarded, hk.next, hk.forwarded ▸ hM, ?_⟩
  rintro xs ys rfl
  exact htr.shows_prefix checked hreqs hnews hu

def feedRounds : List PublishRound := [⟨feedUpdates.take 2, 84⟩, ⟨feedUpdates.drop 2, 42⟩]

def firstDatagram : List UInt8 := (publish 1 (feedUpdates.take 2)).flatMap updateFrame

def secondDatagram : List UInt8 := (publish 3 (feedUpdates.drop 2)).flatMap updateFrame

theorem client_sees_prefix_sample :
    ∃ e events c M, (MatchingEngine.new true).run (feedRequests.take 2) = .ok (e, events) ∧
      (MarketDataConsumer.new 0).run
        [⟨.incremental, [firstDatagram], 4⟩, ⟨.snapshot, [secondDatagram], 5⟩] = .ok c ∧
      (TickerOrderBook.new true).run c.incomingMdUpdates = .ok M ∧
      ∀ t, ShowsBook (M t) (e.tickerOrderBook t) := by
  have hreqs : ∀ req ∈ feedRequests, req.Admissible := by decide
  have hnews : numNews feedRequests < meMaxOrderIds := by decide
  obtain ⟨e, events, hrun, h⟩ := client_sees_prefix true feedRequests hreqs hnews
  obtain ⟨e₁, hrun₁, -⟩ := (refinesAll_new true).run feedRequests hreqs (hasRoom_new hnews)
  obtain ⟨-, rfl⟩ := Prod.mk.inj (Except.ok.inj (hrun.symm.trans hrun₁))
  have hupdates : marketUpdates (IndexedBooks.new.run feedRequests).2 = feedUpdates := by
    decide +kernel
  have hfirst : marketUpdates (IndexedBooks.new.run (feedRequests.take 2)).2 =
      feedUpdates.take 2 := by decide +kernel
  rw [hupdates] at h
  have hpub : MarketDataPublisher.new.run feedRounds =
      .ok ⟨4, ⟨[], [firstDatagram, secondDatagram]⟩⟩ := by decide +kernel
  have hrun : ((MarketDataConsumer.new 0).run
      [⟨.incremental, [firstDatagram], 4⟩, ⟨.snapshot, [secondDatagram], 5⟩]).toOption.map
        (fun c => (c.inRecovery, c.nextExpIncSeqNum)) = some (false, 3) := by decide +kernel
  cases hc : (MarketDataConsumer.new 0).run
      [⟨.incremental, [firstDatagram], 4⟩, ⟨.snapshot, [secondDatagram], 5⟩] with
  | error err =>
    rw [hc] at hrun
    cases hrun
  | ok c =>
    rw [hc] at hrun
    obtain ⟨hr, hnext⟩ := Prod.mk.inj (Option.some.inj hrun)
    obtain ⟨k, M, -, -, hk, hM, hshow⟩ := h feedRounds _ (by decide) (by
      unfold PublishRound.Whole
      decide) hpub 0 _ c (by
        intro a ha
        simp only [List.mem_cons, List.not_mem_nil, or_false] at ha
        rcases ha with rfl | rfl
        · exact ⟨fun _ => ⟨by simp, by decide⟩, by decide⟩
        · exact ⟨fun hs => absurd hs (by decide), by decide⟩) hc
    obtain rfl : k = 2 := Nat.succ.inj ((hk hr).symm.trans hnext)
    obtain ⟨e', events', hrun', hbooks⟩ := hshow (feedRequests.take 2) (feedRequests.drop 2) rfl
    obtain ⟨e₂, hrun₂, -⟩ := (refinesAll_new true).run (feedRequests.take 2) (by decide)
      (hasRoom_new (by decide))
    obtain ⟨rfl, rfl⟩ := Prod.mk.inj (Except.ok.inj (hrun'.symm.trans hrun₂))
    exact ⟨e', _, c, M, hrun', rfl, hM, hbooks (by rw [hfirst]; rfl)⟩

end Trading
