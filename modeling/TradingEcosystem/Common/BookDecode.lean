import TradingEcosystem.Common.BookLadder

namespace Common.BookStore

open CircularList LevelShape

variable {ι : Type} {b : BookStore ι} {side : Side} {s : Ladders (ℕ × OrderInfo ι)}

def decodeLevel (b : BookStore ι) (a : ℕ) : Option (Level ℤ (OrderInfo ι)) := do
  let first ← (b.levelAt a).firstOrder
  let orders ← walk (fun x => (b.orderAt x).nextOrder) first b.orderPool.numElems first
  some ⟨(b.levelAt a).price, orders.map fun x => (b.orderAt x).toOrderInfo⟩

def decodeLevels (b : BookStore ι) : List ℕ → Option (List (Level ℤ (OrderInfo ι)))
  | [] => some []
  | a :: as => do
      let L ← b.decodeLevel a
      let ls ← b.decodeLevels as
      some (L :: ls)

def decodeSide (b : BookStore ι) (side : Side) : Option (List (Level ℤ (OrderInfo ι))) :=
  match b.head side with
  | none => some []
  | some best => do
      let as ← walk (fun a => (b.levelAt a).nextEntry) best b.ordersAtPricePool.numElems best
      b.decodeLevels as

def decode (b : BookStore ι) : Option (Ladders (OrderInfo ι)) := do
  let bids ← b.decodeSide .buy
  let asks ← b.decodeSide .sell
  some ⟨bids, asks⟩

def levelAtPrice (b : BookStore ι) (price : ℤ) : Option (Level ℤ (OrderInfo ι)) := do
  let a ← b.getOrdersAtPrice price
  b.decodeLevel a

theorem LevelRep.decode {L : LevelShape ι} (h : b.LevelRep side L)
    (hn : L.orders.length ≤ b.orderPool.numElems) : b.decodeLevel L.addr = some L.toLevel := by
  obtain ⟨e, es, hes⟩ := List.exists_cons_of_ne_nil h.nonempty
  have hfirst : (b.levelAt L.addr).firstOrder = some e.1 := by rw [h.first_eq, hes]; rfl
  have hring := h.ring
  rw [hes, List.map_cons] at hring
  have hwalk := hring.walk_head (n := b.orderPool.numElems) (by
    rw [hes] at hn
    simpa using hn)
  have hinfo : (e.1 :: es.map Prod.fst).map (fun x => (b.orderAt x).toOrderInfo) =
      L.orders.map Prod.snd := by
    rw [← List.map_cons, ← hes, List.map_map]
    exact List.map_congr_left fun x hx => (h.info x hx).1
  simp only [decodeLevel, hfirst, Option.bind_eq_bind, Option.bind_some, hwalk, hinfo, h.price_eq]
  rfl

theorem decodeLevels_eq {ls : List (LevelShape ι)}
    (h : ∀ L ∈ ls, b.decodeLevel L.addr = some L.toLevel) :
    b.decodeLevels (addrs ls) = some (ladder ls) := by
  induction ls with
  | nil => rfl
  | cons L ls ih =>
    have hL := h L (List.mem_cons_self ..)
    have hls := ih fun K hK => h K (List.mem_cons_of_mem _ hK)
    simp only [addrs, List.map_cons, decodeLevels, hL, Option.bind_eq_bind, Option.bind_some]
    rw [← addrs, hls]
    rfl

theorem ladder_eq_view (ls : List (LevelShape ι)) :
    ladder ls = Ladder.mapOrders Prod.snd (view ls) := by
  simp [ladder, view, Ladder.mapOrders, toLevel, cells]

theorem Rep.decodeLevel {own opp : List (LevelShape ι)} (h : b.Rep side own opp [] [])
    {L : LevelShape ι} (hL : L ∈ own ++ opp) : b.decodeLevel L.addr = some L.toLevel := by
  have hlen := h.orderPool.length_lt
  obtain ⟨k, ls, hsplit⟩ := List.append_of_mem hL
  have hperm := orderAddrs_middle k ls [] L
  simp only [List.append_nil, ← hsplit] at hperm
  rw [List.nil_append, hperm.length_eq, List.length_append, List.length_map] at hlen
  rcases List.mem_append.mp hL with hL | hL
  · exact (h.levelRep hL).decode (by omega)
  · exact (h.swap.levelRep hL).decode (by omega)

theorem Rep.decodeSide {own opp : List (LevelShape ι)} (h : b.Rep side own opp [] []) :
    b.decodeSide side = some (ladder own) := by
  have hhead := h.ownSide.head_eq
  have hlevels := decodeLevels_eq fun L hL => h.decodeLevel (List.mem_append_left _ hL)
  cases own with
  | nil => simp [BookStore.decodeSide, hhead, ladder]
  | cons L ls =>
    have hlen := h.own_length_lt
    have hwalk := h.ownSide.ring.walk_head (n := b.ordersAtPricePool.numElems) (by
      simp only [List.length_cons] at hlen
      simp only [List.length_map]
      omega)
    simp only [List.head?_cons, Option.map_some] at hhead
    simp only [BookStore.decodeSide, hhead, hwalk, Option.bind_eq_bind, Option.bind_some]
    exact hlevels

theorem Stores.decode (h : b.Stores s []) : b.decode = some (s.mapOrders Prod.snd) := by
  obtain ⟨bids, asks, hrep, rfl⟩ := h
  have hb := hrep.decodeSide
  have ha : b.decodeSide .sell = _ := hrep.swap.decodeSide
  simp only [BookStore.decode, hb, ha, Option.bind_eq_bind, Option.bind_some, Ladders.mapOrders,
    ladder_eq_view]

theorem Stores.levelAtPrice (h : b.Stores s []) {price : ℤ} (hp : PriceInRange price) :
    b.levelAtPrice price = ((s.mapOrders Prod.snd).bids ++ (s.mapOrders Prod.snd).asks).find?
      (fun L => decide (L.price = price)) := by
  obtain ⟨bids, asks, hrep, rfl⟩ := h
  simp only [Ladders.mapOrders, ← ladder_eq_view, ← ladder_append]
  cases hf : (ladder (bids ++ asks)).find? (fun L => decide (L.price = price)) with
  | none =>
    have hg := hrep.getOrdersAtPrice_none hp fun L hL he => by
      have := List.find?_eq_none.mp hf L.toLevel (List.mem_map_of_mem hL)
      simp [toLevel, he] at this
    simp [BookStore.levelAtPrice, hg]
  | some K =>
    have hKp : K.price = price := by simpa using List.find?_some hf
    obtain ⟨L, hL, rfl⟩ := List.mem_map.mp (List.mem_of_find?_eq_some hf)
    have hg : b.getOrdersAtPrice price = some L.addr := hKp ▸ hrep.getOrdersAtPrice hL
    simp [BookStore.levelAtPrice, hg, hrep.decodeLevel hL]

theorem Stores.levelAtPrice_mem (h : b.Stores s []) {L : Level ℤ (OrderInfo ι)}
    (hL : L ∈ (s.mapOrders Prod.snd).bids ++ (s.mapOrders Prod.snd).asks) :
    b.levelAtPrice L.price = some L := by
  obtain ⟨bids, asks, hrep, rfl⟩ := h
  simp only [Ladders.mapOrders, ← ladder_eq_view, ← ladder_append] at hL
  obtain ⟨K, hK, rfl⟩ := List.mem_map.mp hL
  have hg : b.getOrdersAtPrice K.toLevel.price = some K.addr := hrep.getOrdersAtPrice hK
  rw [BookStore.levelAtPrice, hg]
  exact hrep.decodeLevel hK

end Common.BookStore
