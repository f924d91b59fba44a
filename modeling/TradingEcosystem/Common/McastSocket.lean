import TradingEcosystem.Common.Fault

namespace Common

def mcastBufferSize : ℕ := 64 * 1024 * 1024

def subSize (a b : ℕ) : ℕ := (a + (2 ^ 64 - b % 2 ^ 64)) % 2 ^ 64

structure McastSocket where
  socketFd : ℤ
  inboundData : ℕ → UInt8
  nextRcvValidIndex : ℕ

namespace McastSocket

def new : McastSocket := ⟨-1, fun _ => 0, 0⟩

/-- `fd` is the descriptor that `createSocket` returned. The callers assert that it is not
negative. -/
def init (s : McastSocket) (fd : ℕ) : McastSocket := { s with socketFd := fd }

def leave (s : McastSocket) : McastSocket :=
  if s.socketFd < 0 then s else { s with socketFd := -1, nextRcvValidIndex := 0 }

/-- The `memcpy` that moves the bytes from `i` on to the front, with the length the source
computes for it. -/
def slide (s : McastSocket) (i : ℕ) : Outcome McastSocket := do
  let len := subSize s.nextRcvValidIndex i
  require (i + len ≤ mcastBufferSize) .outOfRange
  pure { s with
    inboundData := fun j => if j < len then s.inboundData (i + j) else s.inboundData j
    nextRcvValidIndex := len }

end McastSocket

theorem subSize_of_le {a b : ℕ} (h : b ≤ a) (ha : a < 2 ^ 64) : subSize a b = a - b := by
  unfold subSize
  omega

theorem subSize_zero {b : ℕ} (h : 0 < b) (hb : b < 2 ^ 64) : subSize 0 b = 2 ^ 64 - b := by
  unfold subSize
  omega

theorem McastSocket.slide_ok {s : McastSocket} {i : ℕ} (h : i ≤ s.nextRcvValidIndex)
    (hn : s.nextRcvValidIndex ≤ mcastBufferSize) :
    s.slide i = .ok { s with
      inboundData := fun j => if j < s.nextRcvValidIndex - i then s.inboundData (i + j)
        else s.inboundData j
      nextRcvValidIndex := s.nextRcvValidIndex - i } := by
  have hlen : subSize s.nextRcvValidIndex i = s.nextRcvValidIndex - i :=
    subSize_of_le h (by unfold mcastBufferSize at hn; omega)
  simp only [slide, hlen]
  rw [require_of _ (by omega)]
  rfl

theorem McastSocket.slide_underflow {s : McastSocket} {i : ℕ} (h : s.nextRcvValidIndex = 0)
    (hi : 0 < i) (hn : i ≤ mcastBufferSize) : s.slide i = .error .outOfRange := by
  have hlen : subSize s.nextRcvValidIndex i = 2 ^ 64 - i := by
    rw [h]
    exact subSize_zero hi (by unfold mcastBufferSize at hn; omega)
  simp only [slide, hlen]
  rw [require_of_not _ (by unfold mcastBufferSize at *; omega)]
  rfl

end Common
