import TradingEcosystem.Common.McastDatagrams
import TradingEcosystem.Trading.ReceiveBuffer

namespace Trading

open Common Exchange

/-- One `sendAndRecv` of a consumer's socket: what waits to be read, and the descriptor that
`createSocket` returns if the call opens the snapshot socket. -/
structure Arrival where
  stream : Stream
  datagrams : List (List UInt8)
  fd : ℕ

namespace MarketDataConsumer

def sendAndRecv (c : MarketDataConsumer Unit) (a : Arrival) : Outcome (MarketDataConsumer Unit) :=
  let r := (c.socket a.stream).receive a.datagrams
  if r.2 then (c.setSocket r.1 a.stream).recvCallback a.fd a.stream else pure c

def run (c : MarketDataConsumer Unit) : List Arrival → Outcome (MarketDataConsumer Unit)
  | [] => pure c
  | a :: as => do
      let c ← c.sendAndRecv a
      c.run as

theorem run_append {c c' : MarketDataConsumer Unit} {xs ys : List Arrival}
    (h : c.run xs = .ok c') : c.run (xs ++ ys) = c'.run ys := by
  induction xs generalizing c with
  | nil =>
    cases h
    rfl
  | cons a xs ih =>
    obtain ⟨c₁, h₁, h⟩ := bind_eq_ok.mp h
    rw [List.cons_append, run, h₁, ok_bind]
    exact ih h

end MarketDataConsumer

variable {c c' : MarketDataConsumer Unit} {a : Arrival} {stream : Stream} {fd : ℕ} {i j : ℕ}

section Loop

theorem recvLoop_invariant {isSnapshot : Bool} {I : ℕ → MarketDataConsumer Unit → Prop}
    (hstep : ∀ i c, I i c → i + sizeofMDPMarketUpdate ≤ (c.socket stream).nextRcvValidIndex →
      I (i + sizeofMDPMarketUpdate)
        (c.processMessage fd isSnapshot (readPacket (c.socket stream).inboundData i)))
    (fuel : ℕ) (h : I i c)
    (hrun : MarketDataConsumer.recvLoop fd isSnapshot stream fuel i c = .ok (j, c')) :
    I j c' ∧ (c'.socket stream).nextRcvValidIndex < j + sizeofMDPMarketUpdate := by
  induction fuel generalizing i c with
  | zero => cases hrun
  | succ fuel ih =>
    unfold MarketDataConsumer.recvLoop at hrun
    split_ifs at hrun with hle
    · exact ih (hstep i c h hle) hrun
    · cases hrun
      exact ⟨h, Nat.lt_of_not_le hle⟩

inductive Callback.Path (c : MarketDataConsumer Unit) (fd : ℕ) (stream : Stream)
    (c' : MarketDataConsumer Unit) : Prop
  | discarded (hs : c.isSnapshotSocket stream = true) (hr : c.inRecovery = false)
      (h : c' = c.setSocket { c.socket stream with nextRcvValidIndex := 0 } stream)
  | short (hlt : (c.socket stream).nextRcvValidIndex < sizeofMDPMarketUpdate) (h : c' = c)
  | looped (hd : ¬ (c.isSnapshotSocket stream = true ∧ c.inRecovery = false)) {i : ℕ}
      {c₁ : MarketDataConsumer Unit}
      (hloop : MarketDataConsumer.recvLoop fd (c.isSnapshotSocket stream) stream
        ((c.socket stream).nextRcvValidIndex + 1) 0 c = .ok (i, c₁))
      (hle : sizeofMDPMarketUpdate ≤ (c.socket stream).nextRcvValidIndex)
      (h : c₁.slideBuffer stream i = .ok c')

theorem recvCallback_path (h : c.recvCallback fd stream = .ok c') :
    Callback.Path c fd stream c' := by
  simp only [MarketDataConsumer.recvCallback] at h
  split_ifs at h with hd hle
  · cases h
    simp only [Bool.and_eq_true, Bool.not_eq_true'] at hd
    exact .discarded hd.1 hd.2 rfl
  · obtain ⟨⟨i, c₁⟩, hloop, h⟩ := bind_eq_ok.mp h
    exact .looped (by simpa using hd) hloop hle h
  · cases h
    exact .short (Nat.lt_of_not_le hle) rfl

theorem slideBuffer_eq_ok (h : c.slideBuffer stream i = .ok c') :
    ∃ s, (c.socket stream).slide i = .ok s ∧ s.socketFd = (c.socket stream).socketFd ∧
      c' = c.setSocket s stream := by
  obtain ⟨s, hs, h⟩ := bind_eq_ok.mp h
  cases h
  refine ⟨s, hs, ?_, rfl⟩
  obtain ⟨_, -, hs⟩ := bind_eq_ok.mp hs
  cases hs
  rfl

end Loop

section Latch

variable {L : List MEMarketUpdate}

structure Apart (fd : ℕ) (c : MarketDataConsumer Unit) : Prop where
  ok : Ok c
  incremental : c.incrementalMcastSocket.socketFd = fd
  snapshot : c.snapshotMcastSocket.socketFd ≠ fd
  room : ∀ stream, (c.socket stream).nextRcvValidIndex ≤ mcastBufferSize

theorem apart_new (fd : ℕ) : Apart fd (MarketDataConsumer.new fd) where
  ok := ok_new fd
  incremental := rfl
  snapshot := by simp [MarketDataConsumer.new, McastSocket.new]
  room := by
    rintro (_ | _) <;> exact Nat.zero_le _

theorem Apart.isSnapshotSocket (h : Apart fd c) (stream : Stream) :
    c.isSnapshotSocket stream = decide (stream = .snapshot) := by
  cases stream with
  | snapshot => exact decide_eq_true rfl
  | incremental => exact decide_eq_false fun he => h.snapshot (he.symm.trans h.incremental)

theorem Apart.setSocket {s : McastSocket} (h : Apart fd c)
    (hs : s.socketFd = (c.socket stream).socketFd) (hroom : s.nextRcvValidIndex ≤ mcastBufferSize) :
    Apart fd (c.setSocket s stream) := by
  have hok := h.ok.setSocket hs
  cases stream with
  | incremental =>
    refine ⟨hok, hs.trans h.incremental, h.snapshot, ?_⟩
    rintro (_ | _)
    · exact hroom
    · exact h.room .snapshot
  | snapshot =>
    refine ⟨hok, h.incremental, fun he => h.snapshot (hs.symm.trans he), ?_⟩
    rintro (_ | _)
    · exact h.room .incremental
    · exact hroom

variable {newFd : ℕ} {p : Packet Unit}

theorem received_incremental (h : Apart fd c) (newFd : ℕ) (p : Packet Unit) :
    Received c newFd p false (c.processMessage newFd false p) :=
  received_recv h.ok.queue newFd false p

theorem Apart.incrementalMessage (h : Apart fd c) (hne : newFd ≠ fd) (hp : p.seqNum < 2 ^ 64) :
    Apart fd (c.processMessage newFd false p) := by
  have hok := h.ok.processMessage newFd false hp
  have hrecv := received_incremental h newFd p
  generalize c.processMessage newFd false p = c' at hok hrecv
  have hroom : ∀ stream, (c.socket stream).nextRcvValidIndex ≤ mcastBufferSize := h.room
  cases hrecv with
  | forwarded => exact ⟨hok, h.incremental, h.snapshot, hroom⟩
  | buffered => exact ⟨hok, h.incremental, h.snapshot, hroom⟩
  | gap =>
    refine ⟨hok, h.incremental, by simpa [McastSocket.init] using hne, ?_⟩
    rintro (_ | _)
    · exact hroom .incremental
    · exact hroom .snapshot

theorem Apart.incrementalLoop {Q : MarketDataConsumer Unit → Prop} (h : Apart fd c) (hQ : Q c)
    (hne : newFd ≠ fd)
    (hstep : ∀ c₁ k, sizeofMDPMarketUpdate * (k + 1) ≤ c.incrementalMcastSocket.nextRcvValidIndex →
      Apart fd c₁ → Q c₁ → Q (c₁.processMessage newFd false
        (readPacket c.incrementalMcastSocket.inboundData (sizeofMDPMarketUpdate * k))))
    {fuel : ℕ} {c₁ : MarketDataConsumer Unit}
    (hloop : MarketDataConsumer.recvLoop newFd false .incremental fuel 0 c = .ok (i, c₁)) :
    Apart fd c₁ ∧ Q c₁ ∧ c₁.incrementalMcastSocket = c.incrementalMcastSocket ∧
      i ≤ c.incrementalMcastSocket.nextRcvValidIndex ∧
      c.incrementalMcastSocket.nextRcvValidIndex - i =
        c.incrementalMcastSocket.nextRcvValidIndex % sizeofMDPMarketUpdate := by
  obtain ⟨⟨k, rfl, hi, hap, hQ₁, hs⟩, hend⟩ := recvLoop_invariant
    (I := fun i c₁ => ∃ k, i = sizeofMDPMarketUpdate * k ∧
      i ≤ c.incrementalMcastSocket.nextRcvValidIndex ∧ Apart fd c₁ ∧ Q c₁ ∧
      c₁.incrementalMcastSocket = c.incrementalMcastSocket)
    (by
      rintro _ c₁ ⟨k, rfl, -, hap, hQ₁, hs⟩ hle
      change _ ≤ c₁.incrementalMcastSocket.nextRcvValidIndex at hle
      change ∃ k', _ ∧ _ ∧ Apart fd (c₁.processMessage newFd false
        (readPacket c₁.incrementalMcastSocket.inboundData _)) ∧ _
      rw [hs] at hle
      refine ⟨k + 1, rfl, hle, hap.incrementalMessage hne (seqNum_readPacket_lt _ _), ?_,
        (hap.ok.incrementalMcastSocket_processMessage newFd false _).trans hs⟩
      rw [MarketDataConsumer.socket, hs]
      exact hstep c₁ k hle hap hQ₁) _ ⟨0, rfl, Nat.zero_le _, h, hQ, rfl⟩ hloop
  change c₁.incrementalMcastSocket.nextRcvValidIndex < _ at hend
  rw [hs] at hend
  refine ⟨hap, hQ₁, hs, hi, ?_⟩
  unfold sizeofMDPMarketUpdate at *
  omega

theorem Apart.incrementalCallback {Q : MarketDataConsumer Unit → Prop} (h : Apart fd c) (hQ : Q c)
    (hne : newFd ≠ fd)
    (hstep : ∀ c₁ k, sizeofMDPMarketUpdate * (k + 1) ≤ c.incrementalMcastSocket.nextRcvValidIndex →
      Apart fd c₁ → Q c₁ → Q (c₁.processMessage newFd false
        (readPacket c.incrementalMcastSocket.inboundData (sizeofMDPMarketUpdate * k))))
    (hsock : ∀ c₁ s, Q c₁ → Q (c₁.setSocket s .incremental))
    (hc : c.recvCallback newFd .incremental = .ok c') :
    Apart fd c' ∧ Q c' ∧ c'.incrementalMcastSocket.nextRcvValidIndex =
      c.incrementalMcastSocket.nextRcvValidIndex % sizeofMDPMarketUpdate := by
  have hinc : c.isSnapshotSocket .incremental = false := h.isSnapshotSocket .incremental
  cases recvCallback_path hc with
  | discarded hs => exact absurd (hinc.symm.trans hs) (by simp)
  | short hlt hc' =>
    subst hc'
    exact ⟨h, hQ, (Nat.mod_eq_of_lt hlt).symm⟩
  | @looped _ i c₁ hloop _ hslide =>
    rw [hinc] at hloop
    obtain ⟨hap, hQ₁, hs, hi, hleft⟩ := h.incrementalLoop hQ hne hstep hloop
    obtain ⟨s, hs', hfd, rfl⟩ := slideBuffer_eq_ok hslide
    change c₁.incrementalMcastSocket.slide _ = _ at hs'
    have hlen : s.nextRcvValidIndex =
        c.incrementalMcastSocket.nextRcvValidIndex % sizeofMDPMarketUpdate := by
      have hok := @McastSocket.slide_ok c.incrementalMcastSocket _ hi (h.room .incremental)
      rw [hs, hok] at hs'
      cases hs'
      exact hleft
    refine ⟨hap.setSocket hfd ?_, hsock _ s hQ₁, hlen⟩
    rw [hlen]
    exact (Nat.mod_le _ _).trans (h.room .incremental)

structure Unmoved (c c' : MarketDataConsumer Unit) : Prop where
  inRecovery : c'.inRecovery = c.inRecovery
  forwarded : c'.incomingMdUpdates = c.incomingMdUpdates
  incremental : c'.incrementalMcastSocket = c.incrementalMcastSocket
  next : c.inRecovery = false → c'.nextExpIncSeqNum = c.nextExpIncSeqNum

theorem Unmoved.refl (c : MarketDataConsumer Unit) : Unmoved c c :=
  ⟨rfl, rfl, rfl, fun _ => rfl⟩

theorem Unmoved.trans {c₁ : MarketDataConsumer Unit} (h : Unmoved c c₁) (h' : Unmoved c₁ c') :
    Unmoved c c' where
  inRecovery := h'.inRecovery.trans h.inRecovery
  forwarded := h'.forwarded.trans h.forwarded
  incremental := h'.incremental.trans h.incremental
  next := fun hr => (h'.next (h.inRecovery.trans hr)).trans (h.next hr)

theorem Unmoved.setSocket {s : McastSocket} (h : Unmoved c c') :
    Unmoved c (c'.setSocket s .snapshot) :=
  ⟨h.inRecovery, h.forwarded, h.incremental, h.next⟩

theorem Apart.snapshotMessage (h : Apart fd c) (hr : c.inRecovery = true) (newFd : ℕ)
    (hp : p.seqNum < 2 ^ 64) :
    Apart fd (c.processMessage newFd true p) ∧ Unmoved c (c.processMessage newFd true p) ∧
        (c.processMessage newFd true p).snapshotMcastSocket = c.snapshotMcastSocket ∨
      (c.processMessage newFd true p).snapshotMcastSocket.nextRcvValidIndex = 0 := by
  have hok := h.ok.processMessage newFd true hp
  have hrecv := received_processMessage h.ok hr newFd p
  generalize c.processMessage newFd true p = c' at hok hrecv
  have hkeeps : ¬ c.inRecovery = false := by simp [hr]
  cases hrecv with
  | ignored hf => exact absurd hf hkeeps
  | assembled =>
    exact .inl ⟨⟨hok, h.incremental, h.snapshot, h.room⟩, ⟨rfl, rfl, rfl, fun _ => rfl⟩, rfl⟩
  | discarded =>
    exact .inl ⟨⟨hok, h.incremental, h.snapshot, h.room⟩,
      ⟨rfl, rfl, rfl, fun hf => absurd hf hkeeps⟩, rfl⟩
  | committed => exact .inr (h.ok.leave hr)

theorem Apart.snapshotLoop (h : Apart fd c) (hr : c.inRecovery = true) {fuel : ℕ}
    {c₁ : MarketDataConsumer Unit}
    (hloop : MarketDataConsumer.recvLoop newFd true .snapshot fuel 0 c = .ok (i, c₁)) :
    i ≤ c.snapshotMcastSocket.nextRcvValidIndex ∧
      (Apart fd c₁ ∧ Unmoved c c₁ ∧ c₁.snapshotMcastSocket = c.snapshotMcastSocket ∨
        c₁.snapshotMcastSocket.nextRcvValidIndex = 0 ∧ 0 < i) := by
  refine (recvLoop_invariant (I := fun i c₁ => i ≤ c.snapshotMcastSocket.nextRcvValidIndex ∧
    (Apart fd c₁ ∧ Unmoved c c₁ ∧ c₁.snapshotMcastSocket = c.snapshotMcastSocket ∨
      c₁.snapshotMcastSocket.nextRcvValidIndex = 0 ∧ 0 < i)) ?_ fuel
    ⟨Nat.zero_le _, .inl ⟨h, .refl c, rfl⟩⟩ hloop).1
  rintro i c₁ ⟨-, ⟨hap, hun, hs⟩ | ⟨hzero, -⟩⟩ hle
  · change _ ≤ c₁.snapshotMcastSocket.nextRcvValidIndex at hle
    rw [hs] at hle
    refine ⟨hle, ?_⟩
    rcases hap.snapshotMessage (hun.inRecovery.trans hr) newFd (seqNum_readPacket_lt _ _) with
      ⟨hap', hun', hs'⟩ | hzero
    · exact .inl ⟨hap', hun.trans hun', hs'.trans hs⟩
    · exact .inr ⟨hzero, Nat.succ_pos _⟩
  · change _ ≤ c₁.snapshotMcastSocket.nextRcvValidIndex at hle
    rw [hzero] at hle
    exact absurd hle (by unfold sizeofMDPMarketUpdate; omega)

/-- Where the loop has closed its socket, the `memcpy` behind it has no valid length. -/
theorem Apart.snapshotCallback (h : Apart fd c)
    (hc : c.recvCallback newFd .snapshot = .ok c') : Apart fd c' ∧ Unmoved c c' := by
  have hsnap : c.isSnapshotSocket .snapshot = true := h.isSnapshotSocket .snapshot
  cases recvCallback_path hc with
  | discarded _ _ hc' =>
    subst hc'
    exact ⟨h.setSocket rfl (Nat.zero_le _), (Unmoved.refl c).setSocket⟩
  | short _ hc' =>
    subst hc'
    exact ⟨h, .refl _⟩
  | @looped hd i c₁ hloop _ hslide =>
    rw [hsnap] at hloop hd
    have hr : c.inRecovery = true := by simpa using hd
    obtain ⟨hi, hcase⟩ := h.snapshotLoop hr hloop
    obtain ⟨s, hs', hfd, rfl⟩ := slideBuffer_eq_ok hslide
    rcases hcase with ⟨hap, hun, hs⟩ | ⟨hzero, hpos⟩
    · refine ⟨hap.setSocket hfd ?_, hun.setSocket⟩
      have hok := @McastSocket.slide_ok c.snapshotMcastSocket _ hi (h.room .snapshot)
      change c₁.snapshotMcastSocket.slide i = _ at hs'
      rw [hs, hok] at hs'
      cases hs'
      exact (Nat.sub_le _ _).trans (h.room .snapshot)
    · have hfault := McastSocket.slide_underflow hzero hpos (hi.trans (h.room .snapshot))
      exact absurd (hfault.symm.trans hs') (by simp)

def Latches (c c' : MarketDataConsumer Unit) : Prop :=
  c.inRecovery = true → c'.inRecovery = true ∧ c'.incomingMdUpdates = c.incomingMdUpdates

theorem Latches.refl (c : MarketDataConsumer Unit) : Latches c c := fun hr => ⟨hr, rfl⟩

theorem Latches.trans {c₁ : MarketDataConsumer Unit} (h : Latches c c₁) (h' : Latches c₁ c') :
    Latches c c' := by
  intro hr
  obtain ⟨hr₁, hfor₁⟩ := h hr
  obtain ⟨hr', hfor'⟩ := h' hr₁
  exact ⟨hr', hfor'.trans hfor₁⟩

theorem Apart.recvCallback (h : Apart fd c) (hne : newFd ≠ fd)
    (hc : c.recvCallback newFd stream = .ok c') : Apart fd c' ∧ Latches c c' := by
  cases stream with
  | snapshot =>
    obtain ⟨hap, hun⟩ := h.snapshotCallback hc
    exact ⟨hap, fun hr => ⟨hun.inRecovery.trans hr, hun.forwarded⟩⟩
  | incremental =>
    obtain ⟨hap, hlatch, -⟩ := h.incrementalCallback (Q := Latches c) (.refl c) hne
      (by
        intro c₁ k _ hap hlatch
        refine hlatch.trans fun hr₁ => ?_
        have hrecv := received_incremental hap newFd
          (readPacket c.incrementalMcastSocket.inboundData (sizeofMDPMarketUpdate * k))
        generalize c₁.processMessage newFd false _ = c₂ at hrecv
        cases hrecv with
        | forwarded hf => exact absurd (hr₁.symm.trans hf) (by simp)
        | gap hf => exact absurd (hr₁.symm.trans hf) (by simp)
        | buffered => exact ⟨hr₁, rfl⟩) (fun _ _ hq => hq) hc
    exact ⟨hap, hlatch⟩

theorem Apart.received (h : Apart fd c) (stream : Stream) (ds : List (List UInt8)) :
    Apart fd (c.setSocket ((c.socket stream).receive ds).1 stream) := by
  refine h.setSocket ?_ ?_
  · unfold McastSocket.receive
    split_ifs
    · rfl
    · exact McastSocket.socketFd_drain
  · unfold McastSocket.receive
    split_ifs
    · exact h.room stream
    · exact McastSocket.drain_le (h.room stream)

theorem Apart.sendAndRecv (h : Apart fd c) (hne : a.fd ≠ fd) (hc : c.sendAndRecv a = .ok c') :
    Apart fd c' ∧ Latches c c' := by
  simp only [MarketDataConsumer.sendAndRecv] at hc
  split_ifs at hc
  · obtain ⟨hap, hlatch⟩ := (h.received a.stream a.datagrams).recvCallback hne hc
    refine ⟨hap, fun hr => ?_⟩
    cases hs : a.stream with
    | incremental =>
      rw [hs] at hlatch
      exact hlatch hr
    | snapshot =>
      rw [hs] at hlatch
      exact hlatch hr
  · cases hc
    exact ⟨h, .refl c⟩

theorem Apart.run {as : List Arrival} (h : Apart fd c) (hne : ∀ a ∈ as, a.fd ≠ fd)
    (hc : c.run as = .ok c') : Apart fd c' ∧ Latches c c' := by
  induction as generalizing c with
  | nil =>
    cases hc
    exact ⟨h, .refl _⟩
  | cons a as ih =>
    obtain ⟨c₁, h₁, hc⟩ := bind_eq_ok.mp hc
    obtain ⟨hap, hlatch⟩ := h.sendAndRecv (hne a (List.mem_cons_self ..)) h₁
    obtain ⟨hap', hlatch'⟩ := ih hap (fun b hb => hne b (List.mem_cons_of_mem _ hb)) hc
    exact ⟨hap', hlatch.trans hlatch'⟩

end Latch

theorem recovery_never_completes (fd : ℕ) {before after : List Arrival}
    (hfd : ∀ a ∈ before ++ after, a.fd ≠ fd)
    (hbefore : (MarketDataConsumer.new fd).run before = .ok c) (hr : c.inRecovery = true)
    (hafter : c.run after = .ok c') :
    c'.inRecovery = true ∧ c'.incomingMdUpdates = c.incomingMdUpdates := by
  obtain ⟨hap, -⟩ := (apart_new fd).run
    (fun a ha => hfd a (List.mem_append_left _ ha)) hbefore
  obtain ⟨-, hlatch⟩ := hap.run (fun a ha => hfd a (List.mem_append_right _ ha)) hafter
  exact hlatch hr

def gapArrival : Arrival := ⟨.incremental, [writePacket sampleTrade], 4⟩

/-- A whole snapshot cycle but for its last message, in one datagram. -/
def unendedArrival : Arrival := ⟨.snapshot, [((emptyCycle 2).take 9).flatMap writePacket], 4⟩

theorem recovery_never_completes_sample :
    ∃ c c', (MarketDataConsumer.new 3).run [gapArrival] = .ok c ∧ c.inRecovery = true ∧
      c.run [unendedArrival] = .ok c' ∧ c'.inRecovery = true ∧
      c'.incomingMdUpdates = c.incomingMdUpdates := by
  have hgap : ((MarketDataConsumer.new 3).run [gapArrival]).toOption.map
      MarketDataConsumer.inRecovery = some true := by decide +kernel
  have hboth : faultOf ((MarketDataConsumer.new 3).run [gapArrival, unendedArrival]) = none := by
    decide +kernel
  cases hc : (MarketDataConsumer.new 3).run [gapArrival] with
  | error e =>
    rw [hc] at hgap
    cases hgap
  | ok c =>
    rw [hc] at hgap
    have hr : c.inRecovery = true := Option.some.inj hgap
    have happ := @MarketDataConsumer.run_append _ c [gapArrival] [unendedArrival] hc
    rw [List.singleton_append] at happ
    rw [happ] at hboth
    cases hc' : c.run [unendedArrival] with
    | error e =>
      rw [hc'] at hboth
      cases hboth
    | ok c' =>
      exact ⟨c, c', rfl, hr, hc', recovery_never_completes 3 (by decide) hc hr hc'⟩

end Trading
