import TradingEcosystem.Common.Fault
import TradingEcosystem.Library.Window

namespace Common

structure LFQueue (T : Type) where
  store : ℕ → T
  capacity : ℕ
  nextWriteIndex : ℕ
  nextReadIndex : ℕ
  numElements : ℕ

namespace LFQueue

variable {T : Type}

def new (numElems : ℕ) (t : T) : LFQueue T := ⟨fun _ => t, numElems, 0, 0, 0⟩

def size (q : LFQueue T) : ℕ := q.numElements

def getNextToWriteTo (q : LFQueue T) : ℕ := q.nextWriteIndex

def write (q : LFQueue T) (t : T) : LFQueue T :=
  { q with store := Function.update q.store q.getNextToWriteTo t }

-- `updateWriteIndex` and `updateReadIndex` are two atomic updates each, and the other thread may
-- run between them.

def advanceWrite (q : LFQueue T) : LFQueue T :=
  { q with nextWriteIndex := (q.nextWriteIndex + 1) % q.capacity }

def countWrite (q : LFQueue T) : LFQueue T :=
  { q with numElements := (q.numElements + 1) % 2 ^ 64 }

def updateWriteIndex (q : LFQueue T) : LFQueue T := q.advanceWrite.countWrite

def push (q : LFQueue T) (t : T) : LFQueue T := (q.write t).updateWriteIndex

def getNextToRead (q : LFQueue T) : Option ℕ :=
  if q.size = 0 then none else some q.nextReadIndex

def advanceRead (q : LFQueue T) : LFQueue T :=
  { q with nextReadIndex := (q.nextReadIndex + 1) % q.capacity }

def countRead (q : LFQueue T) : Outcome (LFQueue T) := do
  require (q.numElements ≠ 0) .assertFailed
  pure { q with numElements := q.numElements - 1 }

def updateReadIndex (q : LFQueue T) : Outcome (LFQueue T) := q.advanceRead.countRead

end LFQueue

inductive WritePhase where
  | idle
  | written
  | advanced
  deriving DecidableEq, Repr

def WritePhase.uncounted : WritePhase → ℕ
  | .idle => 0
  | .written => 1
  | .advanced => 1

def WritePhase.ahead : WritePhase → ℕ
  | .idle => 0
  | .written => 1
  | .advanced => 0

namespace LFQueue

variable {T : Type} {q : LFQueue T} {phase : WritePhase} {advanced : Bool} {written : List T}
  {r lo : ℕ} {t : T}

/-- `written` is what the producer has put into the queue so far, the first `r` of it have been
given back, and from the `lo`-th on it can still be read. -/
structure Tracks (q : LFQueue T) (phase : WritePhase) (advanced : Bool) (written : List T)
    (r lo : ℕ) : Prop where
  capacity_pos : 0 < q.capacity
  capacity_lt : q.capacity < 2 ^ 64
  counted : r + q.numElements + phase.uncounted = written.length
  writeIndex : (q.nextWriteIndex + phase.ahead) % q.capacity = written.length % q.capacity
  writeIndex_lt : q.nextWriteIndex < q.capacity
  readIndex : q.nextReadIndex = (r + if advanced then 1 else 0) % q.capacity
  shows : Window.Shows q.store q.capacity lo written
  room : written.length ≤ lo + q.capacity
  kept : lo ≤ r

theorem tracks_new {numElems : ℕ} (hpos : 0 < numElems) (hlt : numElems < 2 ^ 64) (t : T) :
    (LFQueue.new numElems t).Tracks .idle false [] 0 0 where
  capacity_pos := hpos
  capacity_lt := hlt
  counted := rfl
  writeIndex := rfl
  writeIndex_lt := hpos
  readIndex := (Nat.zero_mod _).symm
  shows := Window.shows_nil
  room := Nat.zero_le _
  kept := Nat.le_refl _

theorem Tracks.write (h : q.Tracks .idle advanced written r lo)
    (hroom : written.length < lo + q.capacity) (t : T) :
    (q.write t).Tracks .written advanced (written ++ [t]) r lo where
  capacity_pos := h.capacity_pos
  capacity_lt := h.capacity_lt
  counted := by
    have := h.counted
    simp only [LFQueue.write, WritePhase.uncounted, List.length_append, List.length_singleton]
      at this ⊢
    omega
  writeIndex := by
    have hw : q.nextWriteIndex % q.capacity = written.length % q.capacity := h.writeIndex
    simp only [LFQueue.write, WritePhase.ahead, List.length_append, List.length_singleton]
    rw [Nat.add_mod, hw, ← Nat.add_mod]
  writeIndex_lt := h.writeIndex_lt
  readIndex := h.readIndex
  shows := by
    have hw : q.nextWriteIndex % q.capacity = written.length % q.capacity := h.writeIndex
    rw [Nat.mod_eq_of_lt h.writeIndex_lt] at hw
    simp only [LFQueue.write, getNextToWriteTo, hw]
    exact h.shows.write hroom t
  room := by
    simp only [LFQueue.write, List.length_append, List.length_singleton]
    omega
  kept := h.kept

theorem Tracks.advanceWrite (h : q.Tracks .written advanced written r lo) :
    q.advanceWrite.Tracks .advanced advanced written r lo where
  capacity_pos := h.capacity_pos
  capacity_lt := h.capacity_lt
  counted := h.counted
  writeIndex := by
    have hw := h.writeIndex
    simp only [LFQueue.advanceWrite, WritePhase.ahead, Nat.add_zero, Nat.mod_mod] at hw ⊢
    exact hw
  writeIndex_lt := Nat.mod_lt _ h.capacity_pos
  readIndex := h.readIndex
  shows := h.shows
  room := h.room
  kept := h.kept

theorem Tracks.countWrite (h : q.Tracks .advanced advanced written r lo) :
    q.countWrite.Tracks .idle advanced written r lo where
  capacity_pos := h.capacity_pos
  capacity_lt := h.capacity_lt
  counted := by
    have hc := h.counted
    have hroom := h.room
    have hkept := h.kept
    have hlt := h.capacity_lt
    simp only [LFQueue.countWrite, WritePhase.uncounted] at hc ⊢
    rw [Nat.mod_eq_of_lt (by omega)]
    omega
  writeIndex := h.writeIndex
  writeIndex_lt := h.writeIndex_lt
  readIndex := h.readIndex
  shows := h.shows
  room := h.room
  kept := h.kept

theorem Tracks.push (h : q.Tracks .idle advanced written r lo)
    (hroom : written.length < lo + q.capacity) (t : T) :
    (q.push t).Tracks .idle advanced (written ++ [t]) r lo :=
  (h.write hroom t).advanceWrite.countWrite

theorem Tracks.pushAll (h : q.Tracks .idle advanced written r lo) (ts : List T)
    (hroom : written.length + ts.length ≤ lo + q.capacity) :
    (ts.foldl LFQueue.push q).Tracks .idle advanced (written ++ ts) r lo ∧
      (ts.foldl LFQueue.push q).capacity = q.capacity := by
  induction ts generalizing q written with
  | nil => exact ⟨by simpa using h, rfl⟩
  | cons t ts ih =>
    rw [List.length_cons] at hroom
    have hpush := h.push (by omega) t
    obtain ⟨htracks, hcap⟩ := ih hpush (by
      rw [List.length_append, List.length_singleton]
      change _ ≤ lo + q.capacity
      omega)
    rw [List.append_assoc] at htracks
    exact ⟨htracks, hcap⟩

theorem Tracks.advanceRead (h : q.Tracks phase false written r lo) :
    q.advanceRead.Tracks phase true written r lo where
  capacity_pos := h.capacity_pos
  capacity_lt := h.capacity_lt
  counted := h.counted
  writeIndex := h.writeIndex
  writeIndex_lt := h.writeIndex_lt
  readIndex := by
    have hr := h.readIndex
    simp only [Bool.false_eq_true, if_false, Nat.add_zero] at hr
    simp only [LFQueue.advanceRead, if_true, hr, Nat.mod_add_mod]
  shows := h.shows
  room := h.room
  kept := h.kept

theorem Tracks.countRead (h : q.Tracks phase true written r lo) (hne : q.numElements ≠ 0) :
    ∃ q', q.countRead = .ok q' ∧ q'.capacity = q.capacity ∧ q'.store = q.store ∧
      q'.numElements + 1 = q.numElements ∧ q'.Tracks phase false written (r + 1) lo := by
  refine ⟨{ q with numElements := q.numElements - 1 }, ?_, rfl, rfl, ?_, ?_⟩
  · rw [LFQueue.countRead, require_of _ hne]
    rfl
  · exact Nat.sub_add_cancel (Nat.pos_of_ne_zero hne)
  · refine ⟨h.capacity_pos, h.capacity_lt, ?_, h.writeIndex, h.writeIndex_lt, h.readIndex, h.shows,
      h.room, h.kept.trans (Nat.le_succ r)⟩
    have hc := h.counted
    dsimp only
    omega

theorem Tracks.forget {lo' : ℕ} (h : q.Tracks phase advanced written r lo) (hlo : lo ≤ lo')
    (hr : lo' ≤ r) : q.Tracks phase advanced written r lo' :=
  ⟨h.capacity_pos, h.capacity_lt, h.counted, h.writeIndex, h.writeIndex_lt, h.readIndex,
    h.shows.mono hlo, h.room.trans (Nat.add_le_add_right hlo _), hr⟩

theorem Tracks.lt_length (h : q.Tracks phase advanced written r lo) (hne : q.numElements ≠ 0) :
    r < written.length := by
  have := h.counted
  omega

theorem Tracks.read (h : q.Tracks phase advanced written r lo) {k : ℕ} (hlo : lo ≤ k)
    (hk : k < written.length) : written[k]? = some (q.store (k % q.capacity)) := by
  rw [h.shows k _ hlo (List.getElem?_eq_getElem hk)]
  exact List.getElem?_eq_getElem hk

/-- The element written to a full queue lands on the oldest one. -/
theorem push_full {n : ℕ} (hn : n + 2 < 2 ^ 64) (t early late : T) :
    ∃ q : LFQueue T, (List.replicate (n + 1) late).foldl LFQueue.push
        ((LFQueue.new (n + 1) t).push early) = q ∧
      q.nextReadIndex = 0 ∧ q.store 0 = late ∧ q.numElements = n + 2 := by
  have hnew : (LFQueue.new (n + 1) t).Tracks .idle false [] 0 0 :=
    tracks_new (Nat.succ_pos n) (by omega) t
  obtain ⟨htracks, hcap⟩ := hnew.pushAll (early :: List.replicate n late) (by simp [LFQueue.new])
  rw [List.foldl_cons] at htracks hcap
  rw [List.replicate_succ', List.foldl_append]
  generalize (List.replicate n late).foldl LFQueue.push ((LFQueue.new (n + 1) t).push early) = q
    at htracks hcap
  have hcapacity : q.capacity = n + 1 := hcap
  have hlength : ([] ++ early :: List.replicate n late).length = n + 1 := by simp
  have hcount : 0 + q.numElements + 0 = n + 1 := htracks.counted.trans hlength
  have hread : q.nextReadIndex = 0 := htracks.readIndex
  have hwrite : q.nextWriteIndex = 0 := by
    have hw := htracks.writeIndex
    rw [hlength, hcapacity, Nat.mod_self, ← hcapacity] at hw
    exact (Nat.mod_eq_of_lt htracks.writeIndex_lt).symm.trans hw
  refine ⟨q.push late, rfl, hread, ?_, ?_⟩
  · change Function.update q.store q.nextWriteIndex late 0 = late
    rw [hwrite, Function.update_self]
  · change (q.numElements + 1) % 2 ^ 64 = n + 2
    rw [Nat.mod_eq_of_lt (by omega)]
    omega

end LFQueue

end Common
