import TradingEcosystem.Common.Fault

namespace Common

def tcpBufferSize : ℕ := 64 * 1024 * 1024

/-- The bytes below `next_send_valid_index_` and `next_rcv_valid_index_` of the two buffers. -/
structure TCPSocket where
  outboundData : List UInt8
  inboundData : List UInt8

namespace TCPSocket

def new : TCPSocket := ⟨[], []⟩

def send (s : TCPSocket) (data : List UInt8) : Outcome TCPSocket := do
  require (s.outboundData.length + data.length ≤ tcpBufferSize) .fatal
  pure { s with outboundData := s.outboundData ++ data }

/-- The write half of `sendAndRecv`, when `::send` has taken `n` bytes. -/
def flush (s : TCPSocket) (n : ℕ) : TCPSocket := { s with outboundData := s.outboundData.drop n }

theorem send_eq_ok {s s' : TCPSocket} {data : List UInt8} (h : s.send data = .ok s') :
    s' = { s with outboundData := s.outboundData ++ data } := by
  obtain ⟨_, -, h⟩ := bind_eq_ok.mp h
  exact (Except.ok.inj h).symm

end TCPSocket

end Common
