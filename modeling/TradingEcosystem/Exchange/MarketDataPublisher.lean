import TradingEcosystem.Common.LFQueue
import TradingEcosystem.Exchange.Messages
import TradingEcosystem.Library.Trace

namespace Exchange

open Common

def meMaxMarketUpdates : ℕ := 256 * 1024

inductive PublishPhase where
  | idle
  | reading (slot : ℕ)
  | sent (slot : ℕ)
  | advanced (slot : ℕ)
  | released (slot : ℕ)
  deriving DecidableEq, Repr

/-- The matching engine and the publisher on the two ends of `outgoing_md_updates_`; `incremental`
and `snapshot` are what has been multicast and what has been forwarded to the synthesizer. -/
structure MarketDataFeed where
  outgoingMdUpdates : LFQueue MEMarketUpdate
  engine : WritePhase
  publisher : PublishPhase
  nextIncSeqNum : ℕ
  incremental : List MDPMarketUpdate
  snapshot : List MDPMarketUpdate

inductive FeedStep where
  | write (u : MEMarketUpdate)
  | advanceWrite
  | countWrite
  | getNextToRead
  | send
  | advanceRead
  | countRead
  | forward
  deriving DecidableEq, Repr

namespace MarketDataFeed

def new (capacity : ℕ) : MarketDataFeed where
  outgoingMdUpdates := LFQueue.new capacity MEMarketUpdate.default
  engine := .idle
  publisher := .idle
  nextIncSeqNum := 1
  incremental := []
  snapshot := []

def sendMarketUpdate (s : MarketDataFeed) : FeedStep → Option MarketDataFeed
  | .write u =>
      if s.engine = .idle then
        some { s with outgoingMdUpdates := s.outgoingMdUpdates.write u, engine := .written }
      else none
  | .advanceWrite =>
      if s.engine = .written then
        some { s with outgoingMdUpdates := s.outgoingMdUpdates.advanceWrite, engine := .advanced }
      else none
  | .countWrite =>
      if s.engine = .advanced then
        some { s with outgoingMdUpdates := s.outgoingMdUpdates.countWrite, engine := .idle }
      else none
  | _ => none

def frame (s : MarketDataFeed) (slot : ℕ) : MDPMarketUpdate :=
  ⟨s.nextIncSeqNum, s.outgoingMdUpdates.store slot⟩

def publish (s : MarketDataFeed) : FeedStep → Option MarketDataFeed
  | .getNextToRead =>
      match s.publisher, s.outgoingMdUpdates.getNextToRead with
      | .idle, some slot => some { s with publisher := .reading slot }
      | _, _ => none
  | .send =>
      match s.publisher with
      | .reading slot =>
          some { s with incremental := s.incremental ++ [s.frame slot], publisher := .sent slot }
      | _ => none
  | .advanceRead =>
      match s.publisher with
      | .sent slot =>
          some { s with outgoingMdUpdates := s.outgoingMdUpdates.advanceRead
                        publisher := .advanced slot }
      | _ => none
  | .countRead =>
      match s.publisher, s.outgoingMdUpdates.countRead with
      | .advanced slot, .ok q =>
          some { s with outgoingMdUpdates := q, publisher := .released slot }
      | _, _ => none
  | .forward =>
      match s.publisher with
      | .released slot =>
          -- the slot is read again after it has been given back
          some { s with snapshot := s.snapshot ++ [s.frame slot], publisher := .idle
                        nextIncSeqNum := (s.nextIncSeqNum + 1) % 2 ^ 64 }
      | _ => none
  | _ => none

def step (s : MarketDataFeed) (a : FeedStep) : Option MarketDataFeed :=
  match a with
  | .write _ | .advanceWrite | .countWrite => s.sendMarketUpdate a
  | _ => s.publish a

def Next (s : MarketDataFeed) (a : FeedStep) (s' : MarketDataFeed) : Prop := s.step a = some s'

def WritesBelowCapacity (s : MarketDataFeed) : FeedStep → Prop
  | .write _ => s.outgoingMdUpdates.size < s.outgoingMdUpdates.capacity
  | _ => True

/-- The engine fills the queue up while the publisher has given its slot back and not yet forwarded
it. -/
def Overwrites (s : MarketDataFeed) : FeedStep → Prop
  | .write _ => (∃ slot, s.publisher = .released slot) ∧
      s.outgoingMdUpdates.size + 1 = s.outgoingMdUpdates.capacity
  | _ => False

instance instDecidableWritesBelowCapacity (s : MarketDataFeed) :
    (a : FeedStep) → Decidable (s.WritesBelowCapacity a)
  | .write _ => inferInstanceAs (Decidable (_ < _))
  | .advanceWrite | .countWrite | .getNextToRead | .send | .advanceRead | .countRead | .forward =>
      isTrue trivial

end MarketDataFeed

instance PublishPhase.instDecidableReleased :
    (p : PublishPhase) → Decidable (∃ slot, p = .released slot)
  | .released slot => isTrue ⟨slot, rfl⟩
  | .idle | .reading _ | .sent _ | .advanced _ => isFalse (by simp)

instance MarketDataFeed.instDecidableOverwrites (s : MarketDataFeed) :
    (a : FeedStep) → Decidable (s.Overwrites a)
  | .write _ => inferInstanceAs (Decidable (_ ∧ _))
  | .advanceWrite | .countWrite | .getNextToRead | .send | .advanceRead | .countRead | .forward =>
      isFalse id

def numbered (us : List MEMarketUpdate) : List MDPMarketUpdate :=
  us.mapIdx fun i u => ⟨(i + 1) % 2 ^ 64, u⟩

theorem numbered_concat (us : List MEMarketUpdate) (u : MEMarketUpdate) :
    numbered (us ++ [u]) = numbered us ++ [⟨(us.length + 1) % 2 ^ 64, u⟩] := by
  simp [numbered]

namespace PublishPhase

def unreleased : PublishPhase → ℕ
  | .sent _ => 1
  | .advanced _ => 1
  | _ => 0

def held : PublishPhase → ℕ
  | .released _ => 1
  | _ => 0

def isAdvanced : PublishPhase → Bool
  | .advanced _ => true
  | _ => false

def slot? : PublishPhase → Option ℕ
  | .idle => none
  | .reading slot => some slot
  | .sent slot => some slot
  | .advanced slot => some slot
  | .released slot => some slot

end PublishPhase

namespace MarketDataFeed

variable {s s' : MarketDataFeed} {written : List MEMarketUpdate} {r : ℕ} {a : FeedStep}

structure Inv (s : MarketDataFeed) (written : List MEMarketUpdate) (r : ℕ) : Prop where
  tracks : s.outgoingMdUpdates.Tracks s.engine s.publisher.isAdvanced written
    (r + s.publisher.held) r
  slot : ∀ k, s.publisher.slot? = some k → k = r % s.outgoingMdUpdates.capacity ∧
    r < written.length
  nonempty : s.publisher.held = 0 → s.publisher ≠ .idle → s.outgoingMdUpdates.numElements ≠ 0
  seqNum : s.nextIncSeqNum = (r + 1) % 2 ^ 64
  incremental : s.incremental =
    numbered (written.take (r + s.publisher.unreleased + s.publisher.held))
  snapshot : s.snapshot = numbered (written.take r)

theorem inv_new {capacity : ℕ} (hpos : 0 < capacity) (hlt : capacity < 2 ^ 64) :
    (new capacity).Inv [] 0 where
  tracks := LFQueue.tracks_new hpos hlt _
  slot := fun k h => by cases h
  nonempty := fun _ h => absurd rfl h
  seqNum := rfl
  incremental := rfl
  snapshot := rfl

theorem Inv.frame_eq (h : s.Inv written r) {slot : ℕ} (hslot : s.publisher.slot? = some slot) :
    written[r]? = some (s.outgoingMdUpdates.store slot) ∧
      numbered (written.take (r + 1)) = numbered (written.take r) ++ [s.frame slot] := by
  obtain ⟨rfl, hr⟩ := h.slot slot hslot
  have hread := h.tracks.read (Nat.le_refl r) hr
  refine ⟨hread, ?_⟩
  rw [Window.take_succ hread, numbered_concat, List.length_take_of_le hr.le, frame, h.seqNum]

theorem Inv.sent_le (h : s.Inv written r) :
    r + s.publisher.unreleased + s.publisher.held ≤ written.length := by
  have hcount := h.tracks.counted
  have hslot := h.slot
  cases hp : s.publisher with
  | idle =>
    rw [hp] at hcount
    simp only [PublishPhase.held, PublishPhase.unreleased] at hcount ⊢
    omega
  | _ slot =>
    rw [hp] at hslot
    have hr := (hslot slot rfl).2
    simp only [PublishPhase.held, PublishPhase.unreleased]
    omega

theorem Inv.sendMarketUpdate (h : s.Inv written r) (hs : s.sendMarketUpdate a = some s')
    (hroom : s.WritesBelowCapacity a) (hkeep : ¬ s.Overwrites a) :
    ∃ written', s'.Inv written' r := by
  cases a with
  | write u =>
    simp only [MarketDataFeed.sendMarketUpdate] at hs
    split_ifs at hs with hidle
    cases hs
    have htracks := h.tracks
    rw [hidle] at htracks
    have hcount : r + s.publisher.held + s.outgoingMdUpdates.numElements = written.length :=
      htracks.counted
    have hfree : written.length < r + s.outgoingMdUpdates.capacity := by
      simp only [WritesBelowCapacity, LFQueue.size] at hroom
      cases hp : s.publisher with
      | released slot =>
        simp only [Overwrites, LFQueue.size, hp] at hkeep
        have hne : s.outgoingMdUpdates.numElements + 1 ≠ s.outgoingMdUpdates.capacity :=
          fun he => hkeep ⟨⟨slot, rfl⟩, he⟩
        rw [hp] at hcount
        simp only [PublishPhase.held] at hcount
        omega
      | _ =>
        rw [hp] at hcount
        simp only [PublishPhase.held] at hcount
        omega
    refine ⟨written ++ [u], htracks.write hfree u, ?_, h.nonempty, h.seqNum, ?_, ?_⟩
    · intro k hk
      obtain ⟨hkr, hr⟩ := h.slot k hk
      exact ⟨hkr, by rw [List.length_append]; omega⟩
    · rw [List.take_append_of_le_length]
      · exact h.incremental
      · exact h.sent_le
    · rw [List.take_append_of_le_length]
      · exact h.snapshot
      · have := htracks.counted
        omega
  | advanceWrite =>
    simp only [MarketDataFeed.sendMarketUpdate] at hs
    split_ifs at hs with hwritten
    cases hs
    have htracks := h.tracks
    rw [hwritten] at htracks
    exact ⟨written, htracks.advanceWrite, h.slot, h.nonempty, h.seqNum, h.incremental, h.snapshot⟩
  | countWrite =>
    simp only [MarketDataFeed.sendMarketUpdate] at hs
    split_ifs at hs with hadvanced
    cases hs
    have htracks := h.tracks
    rw [hadvanced] at htracks
    have hcounted := htracks.countWrite
    refine ⟨written, hcounted, h.slot, ?_, h.seqNum, h.incremental, h.snapshot⟩
    have hbefore := htracks.counted
    have hafter := hcounted.counted
    simp only [WritePhase.uncounted] at hbefore hafter
    intro _ _
    dsimp only
    omega
  | _ => cases hs

theorem Inv.publish (h : s.Inv written r) (hs : s.publish a = some s') :
    ∃ r', s'.Inv written r' := by
  have htracks := h.tracks
  have hincremental := h.incremental
  cases a with
  | getNextToRead =>
    simp only [MarketDataFeed.publish, LFQueue.getNextToRead] at hs
    cases hp : s.publisher with
    | idle =>
      rw [hp] at hs htracks hincremental
      by_cases hsize : s.outgoingMdUpdates.size = 0
      · simp [hsize] at hs
      · rw [if_neg hsize] at hs
        cases hs
        refine ⟨r, htracks, ?_, fun _ _ => hsize, h.seqNum, hincremental, h.snapshot⟩
        intro k hk
        cases hk
        exact ⟨htracks.readIndex, htracks.lt_length hsize⟩
    | _ => simp [hp] at hs
  | send =>
    simp only [MarketDataFeed.publish] at hs
    cases hp : s.publisher with
    | reading slot =>
      rw [hp] at hs htracks hincremental
      cases hs
      have hslot : s.publisher.slot? = some slot := by rw [hp]; rfl
      have hne : s.outgoingMdUpdates.numElements ≠ 0 :=
        h.nonempty (by rw [hp]; rfl) (by rw [hp]; simp)
      refine ⟨r, htracks, ?_, fun _ _ => hne, h.seqNum, ?_, h.snapshot⟩
      · intro k hk
        cases hk
        exact h.slot slot hslot
      · change s.incremental ++ [s.frame slot] = numbered (written.take (r + 1))
        rw [hincremental, (h.frame_eq hslot).2]
        rfl
    | _ => simp [hp] at hs
  | advanceRead =>
    simp only [MarketDataFeed.publish] at hs
    cases hp : s.publisher with
    | sent slot =>
      rw [hp] at hs htracks hincremental
      cases hs
      have hne : s.outgoingMdUpdates.numElements ≠ 0 :=
        h.nonempty (by rw [hp]; rfl) (by rw [hp]; simp)
      refine ⟨r, htracks.advanceRead, ?_, fun _ _ => hne, h.seqNum, hincremental, h.snapshot⟩
      intro k hk
      cases hk
      exact h.slot slot (by rw [hp]; rfl)
    | _ => simp [hp] at hs
  | countRead =>
    simp only [MarketDataFeed.publish] at hs
    cases hp : s.publisher with
    | advanced slot =>
      rw [hp] at hs htracks hincremental
      have hne : s.outgoingMdUpdates.numElements ≠ 0 :=
        h.nonempty (by rw [hp]; rfl) (by rw [hp]; simp)
      obtain ⟨q, hq, hcap, -, -, htracks'⟩ := htracks.countRead hne
      rw [hq] at hs
      cases hs
      refine ⟨r, htracks', ?_, nofun, h.seqNum, hincremental, h.snapshot⟩
      intro k hk
      cases hk
      rw [hcap]
      exact h.slot slot (by rw [hp]; rfl)
    | _ => simp [hp] at hs
  | forward =>
    simp only [MarketDataFeed.publish] at hs
    cases hp : s.publisher with
    | released slot =>
      rw [hp] at hs htracks hincremental
      cases hs
      have hslot : s.publisher.slot? = some slot := by rw [hp]; rfl
      refine ⟨r + 1, htracks.forget (Nat.le_succ r) (Nat.le_refl _), nofun,
        fun _ hidle => absurd rfl hidle, ?_, hincremental, ?_⟩
      · change (s.nextIncSeqNum + 1) % 2 ^ 64 = _
        rw [h.seqNum, Nat.mod_add_mod]
      · change s.snapshot ++ [s.frame slot] = _
        rw [h.snapshot, (h.frame_eq hslot).2]
    | _ => simp [hp] at hs
  | _ => cases hs

theorem Inv.step (h : s.Inv written r) (hs : s.Next a s') (hroom : s.WritesBelowCapacity a)
    (hkeep : ¬ s.Overwrites a) : ∃ written' r', s'.Inv written' r' := by
  unfold Next MarketDataFeed.step at hs
  split at hs
  · obtain ⟨written', h'⟩ := h.sendMarketUpdate hs hroom hkeep
    exact ⟨written', r, h'⟩
  · obtain ⟨written', h'⟩ := h.sendMarketUpdate hs hroom hkeep
    exact ⟨written', r, h'⟩
  · obtain ⟨written', h'⟩ := h.sendMarketUpdate hs hroom hkeep
    exact ⟨written', r, h'⟩
  · obtain ⟨r', h'⟩ := h.publish hs
    exact ⟨written, r', h'⟩

structure FeedsAgree (s : MarketDataFeed) : Prop where
  snapshot : s.snapshot <+: s.incremental
  seqNum : ∀ i f, s.incremental[i]? = some f → f.seqNum = (i + 1) % 2 ^ 64

theorem Inv.feedsAgree (h : s.Inv written r) : s.FeedsAgree where
  snapshot := by
    rw [h.snapshot, h.incremental, Nat.add_assoc, List.take_add, numbered, numbered,
      List.mapIdx_append]
    exact List.prefix_append _ _
  seqNum := by
    intro i f hf
    rw [h.incremental, numbered, List.getElem?_mapIdx] at hf
    obtain ⟨u, -, rfl⟩ := Option.map_eq_some_iff.mp hf
    rfl

end MarketDataFeed

theorem snapshot_feed_agrees {s : MarketDataFeed}
    (h : Trace.Reach MarketDataFeed.Next (fun s a => s.WritesBelowCapacity a ∧ ¬ s.Overwrites a)
      (MarketDataFeed.new meMaxMarketUpdates) s) : s.FeedsAgree := by
  have hinv : ∃ written r, s.Inv written r := by
    induction h with
    | refl => exact ⟨[], 0, MarketDataFeed.inv_new (by decide) (by decide)⟩
    | step _ hx hs ih =>
      obtain ⟨written, r, hi⟩ := ih
      exact hi.step hs hx.1 hx.2
  obtain ⟨written, r, hi⟩ := hinv
  exact hi.feedsAgree

namespace MarketDataFeed

variable {s : MarketDataFeed}

theorem allowed_of_ne_write {a : FeedStep} (h : ∀ u, a ≠ .write u) :
    s.WritesBelowCapacity a ∧ ¬ s.Overwrites a := by
  cases a with
  | write u => exact absurd rfl (h u)
  | _ => exact ⟨trivial, id⟩

theorem reach_push (hengine : s.engine = .idle) (hpublisher : s.publisher = .idle)
    (hroom : s.outgoingMdUpdates.size < s.outgoingMdUpdates.capacity) (u : MEMarketUpdate) :
    Trace.Reach Next (fun s a => s.WritesBelowCapacity a ∧ ¬ s.Overwrites a) s
      { s with outgoingMdUpdates := s.outgoingMdUpdates.push u } := by
  have hwrite : s.Next (.write u)
      { s with outgoingMdUpdates := s.outgoingMdUpdates.write u, engine := .written } :=
    if_pos hengine
  have hkeep : ¬ s.Overwrites (.write u) := by
    rintro ⟨⟨slot, hslot⟩, -⟩
    rw [hpublisher] at hslot
    cases hslot
  have hadvance : MarketDataFeed.Next
      { s with outgoingMdUpdates := s.outgoingMdUpdates.write u, engine := .written } .advanceWrite
      { s with
        outgoingMdUpdates := (s.outgoingMdUpdates.write u).advanceWrite, engine := .advanced } := rfl
  have hcount : MarketDataFeed.Next
      { s with
        outgoingMdUpdates := (s.outgoingMdUpdates.write u).advanceWrite, engine := .advanced }
      .countWrite { s with outgoingMdUpdates := s.outgoingMdUpdates.push u } := by
    rw [hengine]
    rfl
  exact ((Trace.Reach.refl.step ⟨hroom, hkeep⟩ hwrite).step (allowed_of_ne_write (by simp))
    hadvance).step (allowed_of_ne_write (by simp)) hcount

theorem reach_pushAll (hengine : s.engine = .idle) (hpublisher : s.publisher = .idle)
    {written : List MEMarketUpdate} (us : List MEMarketUpdate)
    (h : s.outgoingMdUpdates.Tracks .idle false written 0 0)
    (hroom : written.length + us.length ≤ s.outgoingMdUpdates.capacity) :
    Trace.Reach Next (fun s a => s.WritesBelowCapacity a ∧ ¬ s.Overwrites a) s
      { s with outgoingMdUpdates := us.foldl LFQueue.push s.outgoingMdUpdates } := by
  induction us generalizing s written with
  | nil => exact .refl
  | cons u us ih =>
    rw [List.length_cons] at hroom
    have hcount : 0 + s.outgoingMdUpdates.size + 0 = written.length := h.counted
    refine (reach_push hengine hpublisher (by omega) u).trans ?_
    refine ih hengine hpublisher (h.push (by omega) u) ?_
    rw [List.length_append, List.length_singleton]
    change _ ≤ s.outgoingMdUpdates.capacity
    omega

def released (s : MarketDataFeed) : MarketDataFeed :=
  { s with
    outgoingMdUpdates :=
      { s.outgoingMdUpdates.advanceRead with numElements := s.outgoingMdUpdates.numElements - 1 }
    publisher := .released s.outgoingMdUpdates.nextReadIndex
    incremental := s.incremental ++ [s.frame s.outgoingMdUpdates.nextReadIndex] }

theorem reach_released {P : MarketDataFeed → FeedStep → Prop}
    (hP : ∀ s a, (∀ u, a ≠ .write u) → P s a) (hpublisher : s.publisher = .idle)
    (hne : s.outgoingMdUpdates.numElements ≠ 0) : Trace.Reach Next P s s.released := by
  have hread : s.Next .getNextToRead
      { s with publisher := .reading s.outgoingMdUpdates.nextReadIndex } := by
    simp [Next, step, publish, hpublisher, LFQueue.getNextToRead, LFQueue.size, hne]
  have hsend : MarketDataFeed.Next
      { s with publisher := .reading s.outgoingMdUpdates.nextReadIndex } .send
      { s with
        incremental := s.incremental ++ [s.frame s.outgoingMdUpdates.nextReadIndex]
        publisher := .sent s.outgoingMdUpdates.nextReadIndex } := rfl
  have hadvance : MarketDataFeed.Next
      { s with
        incremental := s.incremental ++ [s.frame s.outgoingMdUpdates.nextReadIndex]
        publisher := .sent s.outgoingMdUpdates.nextReadIndex } .advanceRead
      { s with
        outgoingMdUpdates := s.outgoingMdUpdates.advanceRead
        incremental := s.incremental ++ [s.frame s.outgoingMdUpdates.nextReadIndex]
        publisher := .advanced s.outgoingMdUpdates.nextReadIndex } := rfl
  have hcount : MarketDataFeed.Next
      { s with
        outgoingMdUpdates := s.outgoingMdUpdates.advanceRead
        incremental := s.incremental ++ [s.frame s.outgoingMdUpdates.nextReadIndex]
        publisher := .advanced s.outgoingMdUpdates.nextReadIndex } .countRead s.released := by
    have hne' : s.outgoingMdUpdates.advanceRead.numElements ≠ 0 := hne
    simp only [Next, step, publish, LFQueue.countRead, require_of _ hne']
    rfl
  exact (((Trace.Reach.refl.step (hP _ _ (by simp)) hread).step (hP _ _ (by simp)) hsend).step
    (hP _ _ (by simp)) hadvance).step (hP _ _ (by simp)) hcount

def forwarded (s : MarketDataFeed) (slot : ℕ) : MarketDataFeed :=
  { s with
    snapshot := s.snapshot ++ [s.frame slot], publisher := .idle
    nextIncSeqNum := (s.nextIncSeqNum + 1) % 2 ^ 64 }

theorem next_forwarded {slot : ℕ} (h : s.publisher = .released slot) :
    s.Next .forward (s.forwarded slot) := by
  simp only [Next, step, publish, h]
  rfl

theorem reach_overwrite {u v : MEMarketUpdate} {us : List MEMarketUpdate}
    (hengine : s.engine = .idle) (hpublisher : s.publisher = .idle)
    (h : s.outgoingMdUpdates.Tracks .idle false (u :: us) 0 0)
    (hfull : us.length + 1 = s.outgoingMdUpdates.capacity) :
    ∃ s', Trace.Reach Next WritesBelowCapacity s s' ∧
      s'.incremental = s.incremental ++ [⟨s.nextIncSeqNum, u⟩] ∧
      s'.snapshot = s.snapshot ++ [⟨s.nextIncSeqNum, v⟩] := by
  have hcount : 0 + s.outgoingMdUpdates.numElements + 0 = us.length + 1 := h.counted
  have hread : s.outgoingMdUpdates.nextReadIndex = 0 := h.readIndex
  have hwrite : s.outgoingMdUpdates.nextWriteIndex = 0 := by
    have hw : s.outgoingMdUpdates.nextWriteIndex % s.outgoingMdUpdates.capacity =
      (us.length + 1) % s.outgoingMdUpdates.capacity := h.writeIndex
    rw [Nat.mod_eq_of_lt h.writeIndex_lt, hfull, Nat.mod_self] at hw
    exact hw
  have hfirst : s.outgoingMdUpdates.store 0 = u := by
    have h0 := h.read (Nat.le_refl 0) (Nat.succ_pos _)
    rw [Nat.zero_mod, List.getElem?_cons_zero] at h0
    exact (Option.some.inj h0).symm
  have hreleased : Trace.Reach Next WritesBelowCapacity s s.released :=
    reach_released (fun _ _ h => (allowed_of_ne_write h).1) hpublisher (by omega)
  have hover : s.released.Next (.write v)
      { s.released with
        outgoingMdUpdates := s.released.outgoingMdUpdates.write v, engine := .written } :=
    if_pos hengine
  have hroom : s.released.WritesBelowCapacity (.write v) := by
    change s.outgoingMdUpdates.numElements - 1 < s.outgoingMdUpdates.capacity
    omega
  have hforward := next_forwarded (s := { s.released with
    outgoingMdUpdates := s.released.outgoingMdUpdates.write v, engine := .written }) rfl
  refine ⟨_, (hreleased.step hroom hover).step (allowed_of_ne_write (by simp)).1 hforward, ?_, ?_⟩
  · change s.incremental ++ [⟨s.nextIncSeqNum, _⟩] = _
    rw [hread, hfirst]
  · change s.snapshot ++ [⟨s.nextIncSeqNum, Function.update s.outgoingMdUpdates.store
      s.outgoingMdUpdates.nextWriteIndex v s.outgoingMdUpdates.nextReadIndex⟩] = _
    rw [hread, hwrite, Function.update_self]

theorem exists_split {n : ℕ} (u v : MEMarketUpdate) (hn : n + 1 < 2 ^ 64) :
    ∃ s, Trace.Reach Next WritesBelowCapacity (new (n + 1)) s ∧
      s.incremental = [⟨1, u⟩] ∧ s.snapshot = [⟨1, v⟩] := by
  have hnew : (new (n + 1)).outgoingMdUpdates.Tracks .idle false [] 0 0 :=
    LFQueue.tracks_new (Nat.succ_pos n) hn _
  have hroom : ([] : List MEMarketUpdate).length + (u :: List.replicate n v).length ≤ 0 + (n + 1) := by
    simp
  obtain ⟨htracks, hcap⟩ := hnew.pushAll (u :: List.replicate n v) hroom
  have hfill := (reach_pushAll (s := new (n + 1)) rfl rfl (u :: List.replicate n v) hnew
    (by rw [Nat.zero_add] at hroom; exact hroom)).mono fun _ _ h => h.1
  obtain ⟨s, hreach, hinc, hsnap⟩ := reach_overwrite (v := v) (s := { new (n + 1) with
    outgoingMdUpdates := (u :: List.replicate n v).foldl LFQueue.push (new (n + 1)).outgoingMdUpdates })
    rfl rfl htracks (by rw [List.length_replicate]; exact hcap.symm)
  exact ⟨s, hfill.trans hreach, hinc, hsnap⟩

end MarketDataFeed

def firstUpdate : MEMarketUpdate := ⟨.add, 1, 0, .buy, 100, 10, 1⟩

def laterUpdate : MEMarketUpdate := ⟨.add, 2, 0, .buy, 99, 10, 1⟩

/-- The engine writes its second update between `updateReadIndex` and the copy of the first. -/
def lateCopy : List FeedStep :=
  [.write firstUpdate, .advanceWrite, .countWrite, .getNextToRead, .send, .advanceRead, .countRead,
    .write laterUpdate, .advanceWrite, .forward, .countWrite, .getNextToRead, .send, .advanceRead,
    .countRead, .forward]

theorem snapshot_feed_agrees_sample :
    ∃ s, Trace.Reach MarketDataFeed.Next (fun s a => s.WritesBelowCapacity a ∧ ¬ s.Overwrites a)
        (MarketDataFeed.new meMaxMarketUpdates) s ∧
      s.snapshot = [⟨1, firstUpdate⟩, ⟨2, laterUpdate⟩] ∧ s.FeedsAgree := by
  obtain ⟨s, hrun, hsnapshot⟩ := map_eq_ok (show
    (Trace.checked (Trace.orStop MarketDataFeed.step Fault.fatal)
      (fun s a => s.WritesBelowCapacity a ∧ ¬ s.Overwrites a) Fault.fatal
      (MarketDataFeed.new meMaxMarketUpdates) lateCopy).map (fun s => s.snapshot) =
      .ok [⟨1, firstUpdate⟩, ⟨2, laterUpdate⟩] by decide +kernel)
  have hreach : Trace.Reach MarketDataFeed.Next
      (fun s a => s.WritesBelowCapacity a ∧ ¬ s.Overwrites a)
      (MarketDataFeed.new meMaxMarketUpdates) s :=
    (Trace.reach_of_checked hrun).mono_next fun _ _ _ => Trace.orStop_eq_ok.mp
  exact ⟨s, hreach, hsnapshot, snapshot_feed_agrees hreach⟩

theorem full_queue_splits_feeds :
    ∃ s, Trace.Reach MarketDataFeed.Next MarketDataFeed.WritesBelowCapacity
        (MarketDataFeed.new meMaxMarketUpdates) s ∧
      s.incremental = [⟨1, firstUpdate⟩] ∧ s.snapshot = [⟨1, laterUpdate⟩] ∧ ¬ s.FeedsAgree := by
  obtain ⟨s, hreach, hinc, hsnap⟩ := MarketDataFeed.exists_split (n := meMaxMarketUpdates - 1)
    firstUpdate laterUpdate (by decide)
  refine ⟨s, hreach, hinc, hsnap, fun hagree => ?_⟩
  have hprefix := hagree.snapshot
  rw [hinc, hsnap] at hprefix
  exact absurd hprefix (by decide)

end Exchange
