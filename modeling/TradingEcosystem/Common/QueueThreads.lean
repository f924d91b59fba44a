import TradingEcosystem.Common.LFQueue

namespace Common

inductive Producer where
  | idle
  | cleared
  | pointed (slot : ℕ)
  | written
  | advanced
  deriving DecidableEq, Repr

/-- Where the consumer stands; `failed` is the ASSERT of `updateReadIndex`. -/
inductive Consumer where
  | idle
  | seen
  | pointed (slot : ℕ)
  | used (slot : ℕ)
  | advanced
  | checked
  | failed
  deriving DecidableEq, Repr

structure QueueThreads (T : Type) where
  queue : LFQueue T
  producer : Producer
  consumer : Consumer
  written : List T
  read : List T

namespace QueueThreads

variable {T : Type}

def new (numElems : ℕ) (t : T) : QueueThreads T := ⟨LFQueue.new numElems t, .idle, .idle, [], []⟩

def decrement (q : LFQueue T) : LFQueue T :=
  { q with numElements := (q.numElements + (2 ^ 64 - 1)) % 2 ^ 64 }

inductive Step (s : QueueThreads T) : QueueThreads T → Prop
  | seeRoom (h : s.producer = .idle) (hroom : s.queue.size < s.queue.capacity) :
      Step s { s with producer := .cleared }
  | getNextToWriteTo (h : s.producer = .cleared) :
      Step s { s with producer := .pointed s.queue.getNextToWriteTo }
  | writeSlot {slot : ℕ} (t : T) (h : s.producer = .pointed slot) :
      Step s { s with
        queue := { s.queue with store := Function.update s.queue.store slot t }
        producer := .written
        written := s.written ++ [t] }
  | storeWriteIndex (h : s.producer = .written) :
      Step s { s with queue := s.queue.advanceWrite, producer := .advanced }
  | increment (h : s.producer = .advanced) :
      Step s { s with queue := s.queue.countWrite, producer := .idle }
  | seeElement (h : s.consumer = .idle) (hne : s.queue.size ≠ 0) :
      Step s { s with consumer := .seen }
  | getNextToRead (h : s.consumer = .seen) :
      Step s { s with consumer := .pointed s.queue.nextReadIndex }
  | readSlot {slot : ℕ} (h : s.consumer = .pointed slot) :
      Step s { s with consumer := .used slot, read := s.read ++ [s.queue.store slot] }
  | storeReadIndex {slot : ℕ} (h : s.consumer = .used slot) :
      Step s { s with queue := s.queue.advanceRead, consumer := .advanced }
  | check (h : s.consumer = .advanced) :
      Step s { s with consumer := if s.queue.numElements ≠ 0 then .checked else .failed }
  | decrement (h : s.consumer = .checked) :
      Step s { s with queue := decrement s.queue, consumer := .idle }

def Reachable (numElems : ℕ) (t : T) : QueueThreads T → Prop :=
  Relation.ReflTransGen Step (new numElems t)

/-- The consumer holds a slot from `getNextToRead` on until `updateReadIndex`. -/
def Holds (s : QueueThreads T) (slot : ℕ) : Prop :=
  match s.consumer with
  | .seen => slot = s.queue.nextReadIndex
  | .pointed i => slot = i
  | .used i => slot = i
  | _ => False

end QueueThreads

def Producer.phase : Producer → WritePhase
  | .written => .written
  | .advanced => .advanced
  | _ => .idle

def Consumer.ahead : Consumer → Bool
  | .advanced => true
  | .checked => true
  | _ => false

namespace QueueThreads

variable {T : Type} {s s' : QueueThreads T} {r : ℕ}

def ProducerOk (s : QueueThreads T) (r : ℕ) : Prop :=
  match s.producer with
  | .cleared => s.written.length < r + s.queue.capacity
  | .pointed slot => s.written.length < r + s.queue.capacity ∧ slot = s.queue.nextWriteIndex
  | _ => True

def ConsumerOk (s : QueueThreads T) (r : ℕ) : Prop :=
  match s.consumer with
  | .idle => s.read = s.written.take r
  | .seen => s.read = s.written.take r ∧ s.queue.numElements ≠ 0
  | .pointed slot => s.read = s.written.take r ∧ s.queue.numElements ≠ 0 ∧
      slot = r % s.queue.capacity
  | .used slot => s.read = s.written.take (r + 1) ∧ s.queue.numElements ≠ 0 ∧
      slot = r % s.queue.capacity
  | .advanced => s.read = s.written.take (r + 1) ∧ s.queue.numElements ≠ 0
  | .checked => s.read = s.written.take (r + 1) ∧ s.queue.numElements ≠ 0
  | .failed => False

structure Invariant (s : QueueThreads T) (r : ℕ) : Prop where
  tracks : s.queue.Tracks s.producer.phase s.consumer.ahead s.written r r
  producer : ProducerOk s r
  consumer : ConsumerOk s r

theorem ConsumerOk.mono (h : ConsumerOk s r) (hcons : s'.consumer = s.consumer)
    (hread : s'.read = s.read) (hcap : s'.queue.capacity = s.queue.capacity)
    (hnum : s.queue.numElements ≠ 0 → s'.queue.numElements ≠ 0)
    (htake : s'.written.take r = s.written.take r)
    (htake' : s.queue.numElements ≠ 0 → s'.written.take (r + 1) = s.written.take (r + 1)) :
    ConsumerOk s' r := by
  unfold ConsumerOk at h ⊢
  rw [hcons, hread, hcap, htake]
  cases hc : s.consumer with
  | idle =>
    rw [hc] at h
    exact h
  | seen =>
    rw [hc] at h
    exact ⟨h.1, hnum h.2⟩
  | pointed slot =>
    rw [hc] at h
    exact ⟨h.1, hnum h.2.1, h.2.2⟩
  | used slot =>
    rw [hc] at h
    dsimp only at h ⊢
    rw [htake' h.2.1]
    exact ⟨h.1, hnum h.2.1, h.2.2⟩
  | advanced =>
    rw [hc] at h
    dsimp only at h ⊢
    rw [htake' h.2]
    exact ⟨h.1, hnum h.2⟩
  | checked =>
    rw [hc] at h
    dsimp only at h ⊢
    rw [htake' h.2]
    exact ⟨h.1, hnum h.2⟩
  | failed =>
    rw [hc] at h
    exact h

theorem Invariant.room (h : Invariant s r) (hidle : s.producer = .idle)
    (hroom : s.queue.size < s.queue.capacity) : s.written.length < r + s.queue.capacity := by
  have hc := h.tracks.counted
  rw [hidle] at hc
  change r + s.queue.numElements + 0 = s.written.length at hc
  change s.queue.numElements < s.queue.capacity at hroom
  omega

theorem Invariant.r_le (h : Invariant s r) : r ≤ s.written.length := by
  have := h.tracks.counted
  omega

theorem decrement_eq {q : LFQueue T} (hne : q.numElements ≠ 0) (hlt : q.numElements < 2 ^ 64) :
    decrement q = { q with numElements := q.numElements - 1 } := by
  have hnum : (q.numElements + (2 ^ 64 - 1)) % 2 ^ 64 = q.numElements - 1 := by omega
  rw [decrement, hnum]

theorem Invariant.step (h : Invariant s r) (hs : Step s s') : ∃ r', Invariant s' r' := by
  obtain ⟨ht, hp, hc⟩ := h
  cases hs with
  | seeRoom hidle hroom =>
    have hroom' := Invariant.room ⟨ht, hp, hc⟩ hidle hroom
    refine ⟨r, ?_, hroom', hc⟩
    rw [hidle] at ht
    exact ht
  | getNextToWriteTo hcleared =>
    rw [ProducerOk, hcleared] at hp
    refine ⟨r, ?_, ⟨hp, rfl⟩, hc⟩
    rw [hcleared] at ht
    exact ht
  | writeSlot t hpointed =>
    rw [ProducerOk, hpointed] at hp
    obtain ⟨hroom, rfl⟩ := hp
    have hle := Invariant.r_le ⟨ht, by rw [ProducerOk, hpointed]; exact ⟨hroom, rfl⟩, hc⟩
    rw [hpointed] at ht
    refine ⟨r, ht.write hroom t, trivial, hc.mono rfl rfl rfl id ?_ ?_⟩
    · exact List.take_append_of_le_length hle
    · intro hne
      exact List.take_append_of_le_length (ht.lt_length hne)
  | storeWriteIndex hwritten =>
    rw [hwritten] at ht
    exact ⟨r, ht.advanceWrite, trivial, hc.mono rfl rfl rfl id rfl fun _ => rfl⟩
  | increment hadvanced =>
    rw [hadvanced] at ht
    have hlt : s.queue.numElements + 1 < 2 ^ 64 := by
      have h₁ := ht.counted
      have h₂ := ht.room
      have h₃ := ht.capacity_lt
      change r + s.queue.numElements + 1 = s.written.length at h₁
      omega
    refine ⟨r, ht.countWrite, trivial, hc.mono rfl rfl rfl (fun _ => ?_) rfl fun _ => rfl⟩
    change (s.queue.numElements + 1) % 2 ^ 64 ≠ 0
    rw [Nat.mod_eq_of_lt hlt]
    exact Nat.succ_ne_zero _
  | seeElement hidle hne =>
    rw [ConsumerOk, hidle] at hc
    rw [hidle] at ht
    exact ⟨r, ht, hp, hc, hne⟩
  | getNextToRead hseen =>
    rw [ConsumerOk, hseen] at hc
    rw [hseen] at ht
    exact ⟨r, ht, hp, hc.1, hc.2, ht.readIndex⟩
  | readSlot hpointed =>
    rw [ConsumerOk, hpointed] at hc
    rw [hpointed] at ht
    obtain ⟨hread, hne, rfl⟩ := hc
    refine ⟨r, ht, hp, ?_, hne, rfl⟩
    dsimp only
    rw [hread]
    exact (Window.take_succ (ht.read le_rfl (ht.lt_length hne))).symm
  | storeReadIndex hused =>
    rw [ConsumerOk, hused] at hc
    rw [hused] at ht
    exact ⟨r, ht.advanceRead, hp, hc.1, hc.2.1⟩
  | check hadvanced =>
    rw [ConsumerOk, hadvanced] at hc
    rw [hadvanced] at ht
    rw [if_pos hc.2]
    exact ⟨r, ht, hp, hc⟩
  | decrement hchecked =>
    rw [ConsumerOk, hchecked] at hc
    rw [hchecked] at ht
    have hlt : s.queue.numElements < 2 ^ 64 := by
      have h₁ := ht.counted
      have h₂ := ht.room
      have h₃ := ht.capacity_lt
      omega
    obtain ⟨q, hq, -, -, -, hq'⟩ := ht.countRead hc.2
    rw [LFQueue.countRead, require_of _ hc.2] at hq
    cases hq
    rw [decrement_eq hc.2 hlt]
    refine ⟨r + 1, hq'.forget (Nat.le_succ r) le_rfl, ?_, hc.1⟩
    unfold ProducerOk at hp ⊢
    dsimp only
    cases hprod : s.producer with
    | cleared =>
      rw [hprod] at hp
      dsimp only at hp ⊢
      omega
    | pointed slot =>
      rw [hprod] at hp
      dsimp only at hp ⊢
      exact ⟨by omega, hp.2⟩
    | _ => trivial

/-- A queue without slots: neither thread gets past its first load. -/
def Stuck (s : QueueThreads T) : Prop :=
  s.queue.capacity = 0 ∧ s.queue.numElements = 0 ∧ s.producer = .idle ∧ s.consumer = .idle ∧
    s.written = [] ∧ s.read = []

theorem Stuck.step (h : Stuck s) (hs : Step s s') : False := by
  obtain ⟨hcap, hnum, hp, hc, -, -⟩ := h
  cases hs with
  | seeRoom _ hroom =>
    rw [hcap] at hroom
    exact Nat.not_lt_zero _ hroom
  | seeElement _ hne => exact hne hnum
  | getNextToWriteTo h => cases hp.symm.trans h
  | writeSlot t h => cases hp.symm.trans h
  | storeWriteIndex h => cases hp.symm.trans h
  | increment h => cases hp.symm.trans h
  | getNextToRead h => cases hc.symm.trans h
  | readSlot h => cases hc.symm.trans h
  | storeReadIndex h => cases hc.symm.trans h
  | check h => cases hc.symm.trans h
  | decrement h => cases hc.symm.trans h

theorem Reachable.invariant {numElems : ℕ} (hlt : numElems < 2 ^ 64) {t : T}
    (h : Reachable numElems t s) : Stuck s ∨ ∃ r, Invariant s r := by
  induction h with
  | refl =>
    rcases Nat.eq_zero_or_pos numElems with rfl | hpos
    · exact .inl ⟨rfl, rfl, rfl, rfl, rfl, rfl⟩
    · exact .inr ⟨0, LFQueue.tracks_new hpos hlt t, trivial, rfl⟩
  | tail _ hs ih =>
    rcases ih with hstuck | ⟨r, hinv⟩
    · exact (hstuck.step hs).elim
    · exact .inr (hinv.step hs)

theorem Invariant.read_prefix (h : Invariant s r) : s.read <+: s.written := by
  have hc := h.consumer
  unfold ConsumerOk at hc
  cases hcons : s.consumer with
  | idle =>
    rw [hcons] at hc
    rw [show s.read = _ from hc]
    exact List.take_prefix ..
  | failed =>
    rw [hcons] at hc
    exact hc.elim
  | _ =>
    rw [hcons] at hc
    rw [hc.1]
    exact List.take_prefix ..

theorem Invariant.held (h : Invariant s r) {slot : ℕ} (hheld : s.Holds slot) :
    s.queue.numElements ≠ 0 ∧ slot = r % s.queue.capacity := by
  have hc := h.consumer
  have hr := h.tracks.readIndex
  unfold ConsumerOk at hc
  unfold Holds at hheld
  cases hcons : s.consumer with
  | seen =>
    rw [hcons] at hc hheld hr
    exact ⟨hc.2, hheld.trans hr⟩
  | pointed i =>
    rw [hcons] at hc hheld
    exact ⟨hc.2.1, hheld.trans hc.2.2⟩
  | used i =>
    rw [hcons] at hc hheld
    exact ⟨hc.2.1, hheld.trans hc.2.2⟩
  | _ =>
    rw [hcons] at hheld
    exact hheld.elim

theorem Invariant.kept (h : Invariant s r) {slot : ℕ} (hheld : s.Holds slot)
    (hs : Step s s') : s'.queue.store slot = s.queue.store slot := by
  obtain ⟨hne, rfl⟩ := h.held hheld
  cases hs with
  | writeSlot t hpointed =>
    have hp := h.producer
    rw [ProducerOk, hpointed] at hp
    obtain ⟨hroom, rfl⟩ := hp
    have hw := h.tracks.writeIndex
    rw [hpointed] at hw
    change s.queue.nextWriteIndex % _ = _ at hw
    rw [Nat.mod_eq_of_lt h.tracks.writeIndex_lt] at hw
    refine Function.update_of_ne ?_ _ _
    rw [hw]
    exact Window.mod_ne_of_lt le_rfl (h.tracks.lt_length hne) hroom
  | _ => rfl

theorem queue_is_fifo {numElems : ℕ} (hlt : numElems < 2 ^ 64) (t : T)
    (h : Reachable numElems t s) :
    s.read <+: s.written ∧ s.consumer ≠ .failed ∧
      ∀ slot, s.Holds slot →
        ∀ s', Step s s' → s'.queue.store slot = s.queue.store slot := by
  rcases h.invariant hlt with hstuck | ⟨r, hinv⟩
  · refine ⟨?_, ?_, fun _ _ s' hs => (hstuck.step hs).elim⟩
    · rw [hstuck.2.2.2.2.2]
      exact List.nil_prefix
    · rw [hstuck.2.2.2.1]
      exact nofun
  · refine ⟨hinv.read_prefix, fun hfail => ?_, fun slot hheld s' hs => hinv.kept hheld hs⟩
    have hc := hinv.consumer
    rw [ConsumerOk, hfail] at hc
    exact hc

theorem Reachable.push {numElems : ℕ} {t : T} (h : Reachable numElems t s)
    (hidle : s.producer = .idle) (hroom : s.queue.size < s.queue.capacity) (x : T) :
    Reachable numElems t
      { s with queue := s.queue.push x, written := s.written ++ [x] } := by
  have h₁ := h.tail (.seeRoom hidle hroom)
  have h₂ := h₁.tail (.getNextToWriteTo rfl)
  have h₃ := h₂.tail (.writeSlot x rfl)
  have h₄ := h₃.tail (.storeWriteIndex rfl)
  have h₅ := h₄.tail (.increment rfl)
  rw [hidle]
  exact h₅

theorem Reachable.pop {numElems : ℕ} {t : T} (h : Reachable numElems t s)
    (hidle : s.consumer = .idle) (hne : s.queue.size ≠ 0) :
    Reachable numElems t { s with
      queue := decrement s.queue.advanceRead
      read := s.read ++ [s.queue.store s.queue.nextReadIndex] } := by
  have h₁ := h.tail (.seeElement hidle hne)
  have h₂ := h₁.tail (.getNextToRead rfl)
  have h₃ := h₂.tail (.readSlot rfl)
  have h₄ := h₃.tail (.storeReadIndex rfl)
  have h₅ := h₄.tail (.check rfl)
  have h₆ := h₅.tail (.decrement (if_pos hne))
  rw [hidle]
  exact h₆

/-- In a ring of two the third element is written over the first one, while the consumer uses the
second. -/
theorem queue_is_fifo_sample :
    ∃ s : QueueThreads ℕ, Reachable 2 0 s ∧ s.written = [7, 8, 9] ∧ s.read = [7, 8] ∧
      s.queue.store 0 = 9 ∧ s.read <+: s.written ∧
      ∀ s', Step s s' → s'.queue.store 1 = s.queue.store 1 := by
  have hwritten := (Reachable.push (.refl : Reachable 2 (0 : ℕ) (new 2 0)) rfl (by decide) 7).push
    rfl (by decide) 8
  have hwrapped := (hwritten.pop rfl (by decide)).push rfl (by decide) 9
  have hseen := hwrapped.tail (.seeElement rfl (by decide))
  have hused := (hseen.tail (.getNextToRead rfl)).tail (.readSlot rfl)
  obtain ⟨hread, -, hkept⟩ := queue_is_fifo (by decide) 0 hused
  exact ⟨_, hused, rfl, rfl, rfl, hread, hkept 1 rfl⟩

end QueueThreads

end Common
