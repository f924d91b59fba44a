import TradingEcosystem.Exchange.OrderEntry
import TradingEcosystem.Library.Sorting

namespace Exchange

open Common

def recvTimeAt (batch : List RecvTimeClientRequest) (i : ℕ) : ℕ :=
  (batch[i]?.map RecvTimeClientRequest.recvTime).getD 0

def clientAt (batch : List RecvTimeClientRequest) (i : ℕ) : Option ℕ :=
  batch[i]?.map fun q => q.request.clientId

/-- What `std::sort` promises: the pending requests in an order of non-decreasing `recv_time_`. -/
def StdSorts (batch : List RecvTimeClientRequest) (order : List ℕ) : Prop :=
  Sorting.SortsTo (recvTimeAt batch) batch.length order

theorem filterMap_range_getElem? {α : Type} (xs : List α) :
    (List.range xs.length).filterMap (xs[·]?) = xs := by
  induction xs using List.reverseRecOn with
  | nil => rfl
  | append_singleton xs x ih =>
    have hold : (List.range xs.length).filterMap ((xs ++ [x])[·]?) =
        (List.range xs.length).filterMap (xs[·]?) :=
      List.filterMap_congr fun i hi => List.getElem?_append_left (List.mem_range.mp hi)
    rw [List.length_append, List.length_singleton, List.range_succ, List.filterMap_append, hold,
      ih]
    simp

theorem sequenceAndPublish_perm {batch : List RecvTimeClientRequest} {order : List ℕ}
    (h : StdSorts batch order) :
    ((FIFOSequencer.mk batch).sequenceAndPublish order).2.Perm
      (batch.map RecvTimeClientRequest.request) := by
  unfold FIFOSequencer.sequenceAndPublish
  split_ifs with hempty
  · have hnil : batch = [] := List.isEmpty_iff.mp hempty
    rw [hnil]
    exact .nil
  · have hall : (List.range batch.length).filterMap
        (fun i => batch[i]?.map RecvTimeClientRequest.request) =
          batch.map RecvTimeClientRequest.request := by
      rw [← List.map_filterMap, filterMap_range_getElem?]
    exact hall ▸ h.1.filterMap _

def KeepsClientOrder (batch : List RecvTimeClientRequest) (order : List ℕ) : Prop :=
  ((FIFOSequencer.mk batch).sequenceAndPublish order).2.Perm
      (batch.map RecvTimeClientRequest.request) ∧
    (order.Pairwise fun i j => recvTimeAt batch i ≤ recvTimeAt batch j) ∧
    order.Pairwise fun i j => clientAt batch i = clientAt batch j → i < j

theorem sequencer_keeps_client_order (batch : List RecvTimeClientRequest) :
    (∀ order, StdSorts batch order → KeepsClientOrder batch order) ↔
      ∀ i j, i < j → j < batch.length → clientAt batch i = clientAt batch j →
        recvTimeAt batch i < recvTimeAt batch j := by
  have hsame : ∀ i j, clientAt batch i = clientAt batch j → clientAt batch j = clientAt batch i :=
    fun _ _ => Eq.symm
  rw [← Sorting.sortsTo_keeps_iff (recvTimeAt batch) batch.length hsame]
  constructor
  · intro h order hsorts
    exact (h order hsorts).2.2
  · intro h order hsorts
    exact ⟨sequenceAndPublish_perm hsorts, hsorts.2, h order hsorts⟩

def sampleBurst : List UInt8 :=
  (List.range 17).flatMap fun i => sampleBytes (.ofNat (i + 1)) (if i = 0 then 1 else 2) 7

def burstBatch : List RecvTimeClientRequest :=
  (List.range 17).map fun i => ⟨10, ⟨if i = 0 then .new else .cancel, 7, 0, 1, .buy, 100, 5⟩⟩

/-- Where libstdc++ leaves seventeen equal keys: from that length on it partitions around a median
before it inserts. -/
def burstOrder : List ℕ := [8, 16, 15, 14, 13, 12, 11, 10, 9, 0, 7, 6, 5, 4, 3, 2, 1]

theorem sequencer_swaps_burst :
    ∃ s, OrderServer.new.round [⟨0, sampleBurst, 10⟩] = .ok (s, burstBatch) ∧
      burstBatch.length ≤ meMaxPendingRequests ∧ StdSorts burstBatch burstOrder ∧
      ¬ KeepsClientOrder burstBatch burstOrder := by
  obtain ⟨⟨s, batch⟩, hround, hbatch⟩ := map_eq_ok
    (show (OrderServer.new.round [⟨0, sampleBurst, 10⟩]).map Prod.snd = .ok burstBatch by
      decide +kernel)
  dsimp only at hbatch
  subst hbatch
  have hsorts : StdSorts burstBatch burstOrder := ⟨by decide, by decide⟩
  exact ⟨s, hround, by decide, hsorts, fun h => absurd h.2.2 (by decide)⟩

section Round

variable {g : ClientGate} {as : List Arrival}

theorem socket_of_staged {a : Arrival} (h : a ∈ (g.validateAll as).2) :
    (g.validateAll as).1.cidTcpSocket a.clientId = some a.socket := by
  induction as generalizing g with
  | nil => exact absurd h List.not_mem_nil
  | cons b as ih =>
    rw [validateAll_cons] at h ⊢
    rcases List.mem_append.mp h with hb | has
    · split_ifs at hb with hok
      · obtain rfl := List.mem_singleton.mp hb
        obtain ⟨hown, hstaged, -⟩ := validate_own g a.socket (c := a.clientId) rfl
        rw [validateAll_socket, hown, (hstaged.mp hok).1, Option.some_or]
      · exact absurd hb List.not_mem_nil
    · exact ih has

theorem recv_of_arrival {buffers : ℕ → List UInt8} {rs : List Recv} {a : Arrival}
    (h : a ∈ arrivals buffers rs) : ∃ r ∈ rs, r.socket = a.socket ∧ r.rxTime = a.rxTime := by
  induction rs generalizing buffers with
  | nil => exact absurd h List.not_mem_nil
  | cons r rs ih =>
    rcases List.mem_append.mp h with hr | hrs
    · obtain ⟨req, -, rfl⟩ := List.mem_map.mp hr
      exact ⟨r, List.mem_cons_self .., rfl, rfl⟩
    · obtain ⟨r', hmem, hr'⟩ := ih hrs
      exact ⟨r', List.mem_cons_of_mem _ hmem, hr'⟩

theorem rxTime_of_same_client {buffers : ℕ → List UInt8} {rs : List Recv} {a b : Arrival}
    (hsockets : (rs.map Recv.socket).Nodup) (ha : a ∈ (g.validateAll (arrivals buffers rs)).2)
    (hb : b ∈ (g.validateAll (arrivals buffers rs)).2) (hclient : a.clientId = b.clientId) :
    a.rxTime = b.rxTime := by
  have hsocket : a.socket = b.socket := by
    have hs := socket_of_staged ha
    rw [hclient, socket_of_staged hb, Option.some_inj] at hs
    exact hs.symm
  obtain ⟨r, hr, hrs, hrt⟩ := recv_of_arrival (OrderServer.mem_of_mem_validateAll ha)
  obtain ⟨r', hr', hrs', hrt'⟩ := recv_of_arrival (OrderServer.mem_of_mem_validateAll hb)
  have heq : r = r' :=
    List.inj_on_of_nodup_map hsockets hr hr' (hrs.trans (hsocket.trans hrs'.symm))
  rw [← hrt, ← hrt', heq]

end Round

end Exchange
