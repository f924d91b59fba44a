import TradingEcosystem.Common.McastSocket

namespace Common

/-- The sending side of a `McastSocket`: the bytes below `next_send_valid_index_`, and the
datagrams that have left it. -/
structure McastSender where
  outboundData : List UInt8
  sent : List (List UInt8)
  deriving DecidableEq

namespace McastSender

def new : McastSender := ⟨[], []⟩

def send (s : McastSender) (data : List UInt8) : Outcome McastSender := do
  require (s.outboundData.length + data.length ≤ mcastBufferSize) .fatal
  pure { s with outboundData := s.outboundData ++ data }

/-- The write half of `sendAndRecv`, when `::send` has returned `n`. -/
def sendAndRecv (s : McastSender) (n : ℤ) : McastSender :=
  if s.outboundData = [] then s
  else if 0 < n then
    ⟨s.outboundData.drop n.toNat, s.sent ++ [s.outboundData.take n.toNat]⟩
  else { s with outboundData := [] }

theorem send_eq_ok {s s' : McastSender} {data : List UInt8} (h : s.send data = .ok s') :
    s' = { s with outboundData := s.outboundData ++ data } := by
  obtain ⟨_, -, h⟩ := bind_eq_ok.mp h
  exact (Except.ok.inj h).symm

theorem sendAndRecv_whole {s : McastSender} {n : ℤ} (h : n ≤ 0 ∨ n = s.outboundData.length) :
    s.sendAndRecv n = ⟨[], s.sent⟩ ∨ s.sendAndRecv n = ⟨[], s.sent ++ [s.outboundData]⟩ := by
  unfold sendAndRecv
  split_ifs with hnil hpos
  · exact .inl (by rw [← hnil])
  · have hn : n.toNat = s.outboundData.length := by omega
    rw [hn, List.drop_length, List.take_length]
    exact .inr rfl
  · exact .inl rfl

end McastSender

def overlay (data : ℕ → UInt8) (n : ℕ) (bytes : List UInt8) (j : ℕ) : UInt8 :=
  if j < n then data j else (bytes[j - n]?).getD (data j)

theorem overlay_nil (data : ℕ → UInt8) (n : ℕ) : overlay data n [] = data := by
  funext j
  simp [overlay]

theorem overlay_overlay (data : ℕ → UInt8) (n : ℕ) (xs ys : List UInt8) :
    overlay (overlay data n xs) (n + xs.length) ys = overlay data n (xs ++ ys) := by
  funext j
  simp only [overlay]
  rcases Nat.lt_or_ge j n with hlt | hge
  · rw [if_pos (by omega), if_pos hlt, if_pos hlt]
  rw [if_neg hge.not_gt, if_neg hge.not_gt]
  rcases Nat.lt_or_ge (j - n) xs.length with hx | hx
  · rw [if_pos (by omega), List.getElem?_append_left hx]
  · have hxs : xs[j - n]? = none := List.getElem?_eq_none hx
    rw [if_neg (by omega), List.getElem?_append_right hx, hxs, Nat.sub_add_eq]
    rfl

namespace McastSocket

def store (s : McastSocket) (bytes : List UInt8) : McastSocket :=
  { s with
    inboundData := overlay s.inboundData s.nextRcvValidIndex bytes
    nextRcvValidIndex := s.nextRcvValidIndex + bytes.length }

/-- The read loop of `sendAndRecv` over the datagrams that wait, and whether it read any byte.
`::recv` cuts a datagram to the room there is, and ends the loop when it returns no byte. -/
def drain (s : McastSocket) : List (List UInt8) → McastSocket × Bool
  | [] => (s, false)
  | d :: ds =>
      let bytes := d.take (mcastBufferSize - s.nextRcvValidIndex)
      if bytes = [] then (s, false) else (((s.store bytes).drain ds).1, true)

def receive (s : McastSocket) (ds : List (List UInt8)) : McastSocket × Bool :=
  if s.socketFd < 0 then (s, false) else s.drain ds

variable {s : McastSocket} {ds : List (List UInt8)}

theorem store_nil (s : McastSocket) : s.store [] = s := by
  rw [store, overlay_nil]
  rfl

theorem store_store (s : McastSocket) (xs ys : List UInt8) :
    (s.store xs).store ys = s.store (xs ++ ys) := by
  rw [store, store, store, overlay_overlay, List.length_append, Nat.add_assoc]

theorem store_empty (hs : s.nextRcvValidIndex = 0) (bytes : List UInt8) :
    (s.store bytes).nextRcvValidIndex = bytes.length ∧
      ∀ j < bytes.length, (s.store bytes).inboundData j = bytes.getD j 0 := by
  rw [store, hs]
  refine ⟨Nat.zero_add _, fun j hj => ?_⟩
  simp only [overlay, Nat.not_lt_zero, if_false, Nat.sub_zero]
  rw [List.getD_eq_getElem?_getD, List.getElem?_eq_getElem hj]
  rfl

@[simp] theorem socketFd_store (s : McastSocket) (bytes : List UInt8) :
    (s.store bytes).socketFd = s.socketFd := rfl

theorem drain_le (hs : s.nextRcvValidIndex ≤ mcastBufferSize) :
    (s.drain ds).1.nextRcvValidIndex ≤ mcastBufferSize := by
  induction ds generalizing s with
  | nil => exact hs
  | cons d ds ih =>
    simp only [drain]
    split_ifs
    · exact hs
    · refine ih ?_
      simp only [store, List.length_take]
      omega

theorem socketFd_drain : (s.drain ds).1.socketFd = s.socketFd := by
  induction ds generalizing s with
  | nil => rfl
  | cons d ds ih =>
    simp only [drain]
    split_ifs
    · rfl
    · exact ih

theorem drain_eq (hds : ∀ d ∈ ds, d ≠ [])
    (hroom : s.nextRcvValidIndex + ds.flatten.length ≤ mcastBufferSize) :
    (s.drain ds).1 = s.store ds.flatten := by
  induction ds generalizing s with
  | nil => exact (store_nil s).symm
  | cons d ds ih =>
    rw [List.flatten_cons, List.length_append] at hroom
    have htake : d.take (mcastBufferSize - s.nextRcvValidIndex) = d :=
      List.take_of_length_le (by omega)
    simp only [drain, htake]
    rw [if_neg (hds d (List.mem_cons_self ..)), ih fun x hx => hds x (List.mem_cons_of_mem _ hx),
      store_store, List.flatten_cons]
    simp only [store]
    omega

end McastSocket

end Common
