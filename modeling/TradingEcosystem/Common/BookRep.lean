import TradingEcosystem.Common.BookStore
import TradingEcosystem.Library.Ring
import TradingEcosystem.Library.Ladder

namespace Common

open CircularList

structure LevelShape (ι : Type) where
  addr : ℕ
  price : ℤ
  orders : List (ℕ × OrderInfo ι)

namespace LevelShape

variable {ι : Type}

def toLevel (L : LevelShape ι) : Level ℤ (OrderInfo ι) := ⟨L.price, L.orders.map Prod.snd⟩

def ladder (ls : List (LevelShape ι)) : List (Level ℤ (OrderInfo ι)) := ls.map toLevel

def entries (ls : List (LevelShape ι)) : List (ℕ × OrderInfo ι) := ls.flatMap orders

def addrs (ls : List (LevelShape ι)) : List ℕ := ls.map addr

def orderAddrs (ls : List (LevelShape ι)) : List ℕ := (entries ls).map Prod.fst

@[simp] theorem ladder_append (k ls : List (LevelShape ι)) :
    ladder (k ++ ls) = ladder k ++ ladder ls := by simp [ladder]

@[simp] theorem ladder_cons (L : LevelShape ι) (ls : List (LevelShape ι)) :
    ladder (L :: ls) = L.toLevel :: ladder ls := rfl

@[simp] theorem entries_append (k ls : List (LevelShape ι)) :
    entries (k ++ ls) = entries k ++ entries ls := by simp [entries]

@[simp] theorem entries_cons (L : LevelShape ι) (ls : List (LevelShape ι)) :
    entries (L :: ls) = L.orders ++ entries ls := rfl

@[simp] theorem entries_nil : entries ([] : List (LevelShape ι)) = [] := rfl

theorem mem_entries {e : ℕ × OrderInfo ι} {ls : List (LevelShape ι)} :
    e ∈ entries ls ↔ ∃ L ∈ ls, e ∈ L.orders := by simp [entries]

end LevelShape

namespace BookStore

variable {ι : Type}

def modLevel (b : BookStore ι) (a : ℕ) (f : OrdersAtPrice → OrdersAtPrice) : BookStore ι :=
  { b with ordersAtPricePool := b.ordersAtPricePool.modify a f }

def modOrder (b : BookStore ι) (a : ℕ) (f : Order ι → Order ι) : BookStore ι :=
  { b with orderPool := b.orderPool.modify a f }

def levelAt (b : BookStore ι) (a : ℕ) : OrdersAtPrice := (b.ordersAtPricePool.store a).object

def orderAt (b : BookStore ι) (a : ℕ) : Order ι := (b.orderPool.store a).object

def LiveLevel (b : BookStore ι) (a : ℕ) : Prop := b.ordersAtPricePool.Live a

def LiveOrder (b : BookStore ι) (a : ℕ) : Prop := b.orderPool.Live a

section Views

variable (b : BookStore ι) (a x : ℕ) (p : Option ℕ) (qty : ℕ)

def putPrevEntry : BookStore ι := b.modLevel a ({ · with prevEntry := p })
def putNextEntry : BookStore ι := b.modLevel a ({ · with nextEntry := p })
def putFirstOrder : BookStore ι := b.modLevel a ({ · with firstOrder := p })
def putPrevOrder : BookStore ι := b.modOrder a ({ · with prevOrder := p })
def putNextOrder : BookStore ι := b.modOrder a ({ · with nextOrder := p })
def putQty : BookStore ι := b.modOrder a ({ · with qty := qty })

theorem levelAt_modLevel (f : OrdersAtPrice → OrdersAtPrice) :
    (b.modLevel a f).levelAt x = if x = a then f (b.levelAt a) else b.levelAt x :=
  MemPool.object_modify _ _ _ _

theorem orderAt_modOrder (g : Order ι → Order ι) :
    (b.modOrder a g).orderAt x = if x = a then g (b.orderAt a) else b.orderAt x :=
  MemPool.object_modify _ _ _ _

@[simp] theorem orderAt_modLevel (f : OrdersAtPrice → OrdersAtPrice) :
    (b.modLevel a f).orderAt x = b.orderAt x := rfl

@[simp] theorem levelAt_modOrder (g : Order ι → Order ι) :
    (b.modOrder a g).levelAt x = b.levelAt x := rfl

@[simp] theorem liveLevel_modLevel (f : OrdersAtPrice → OrdersAtPrice) :
    (b.modLevel a f).LiveLevel x ↔ b.LiveLevel x :=
  MemPool.live_modify _ _ _ _

@[simp] theorem liveOrder_modOrder (g : Order ι → Order ι) :
    (b.modOrder a g).LiveOrder x ↔ b.LiveOrder x :=
  MemPool.live_modify _ _ _ _

@[simp] theorem liveOrder_modLevel (f : OrdersAtPrice → OrdersAtPrice) :
    (b.modLevel a f).LiveOrder x ↔ b.LiveOrder x := Iff.rfl

@[simp] theorem liveLevel_modOrder (g : Order ι → Order ι) :
    (b.modOrder a g).LiveLevel x ↔ b.LiveLevel x := Iff.rfl

theorem holds_modLevel (f : OrdersAtPrice → OrdersAtPrice) (live : List ℕ) :
    (b.modLevel a f).ordersAtPricePool.Holds live ↔ b.ordersAtPricePool.Holds live :=
  MemPool.holds_modify a f

theorem holds_modOrder (g : Order ι → Order ι) (live : List ℕ) :
    (b.modOrder a g).orderPool.Holds live ↔ b.orderPool.Holds live :=
  MemPool.holds_modify a g

@[simp] theorem head_modLevel (f : OrdersAtPrice → OrdersAtPrice) (side : Side) :
    (b.modLevel a f).head side = b.head side := rfl

@[simp] theorem head_modOrder (g : Order ι → Order ι) (side : Side) :
    (b.modOrder a g).head side = b.head side := rfl

@[simp] theorem frame_putPrevEntry : ((b.putPrevEntry a p).LiveLevel x ↔ b.LiveLevel x) ∧
    ((b.putPrevEntry a p).LiveOrder x ↔ b.LiveOrder x) ∧
    (b.putPrevEntry a p).orderAt x = b.orderAt x :=
  ⟨liveLevel_modLevel b a x _, Iff.rfl, rfl⟩

@[simp] theorem holds_putPrevEntry (live : List ℕ) :
    (b.putPrevEntry a p).ordersAtPricePool.Holds live ↔ b.ordersAtPricePool.Holds live :=
  holds_modLevel b a _ live

@[simp] theorem frame_putNextEntry : ((b.putNextEntry a p).LiveLevel x ↔ b.LiveLevel x) ∧
    ((b.putNextEntry a p).LiveOrder x ↔ b.LiveOrder x) ∧
    (b.putNextEntry a p).orderAt x = b.orderAt x :=
  ⟨liveLevel_modLevel b a x _, Iff.rfl, rfl⟩

@[simp] theorem holds_putNextEntry (live : List ℕ) :
    (b.putNextEntry a p).ordersAtPricePool.Holds live ↔ b.ordersAtPricePool.Holds live :=
  holds_modLevel b a _ live

@[simp] theorem frame_putFirstOrder : ((b.putFirstOrder a p).LiveLevel x ↔ b.LiveLevel x) ∧
    ((b.putFirstOrder a p).LiveOrder x ↔ b.LiveOrder x) ∧
    (b.putFirstOrder a p).orderAt x = b.orderAt x :=
  ⟨liveLevel_modLevel b a x _, Iff.rfl, rfl⟩

@[simp] theorem holds_putFirstOrder (live : List ℕ) :
    (b.putFirstOrder a p).ordersAtPricePool.Holds live ↔ b.ordersAtPricePool.Holds live :=
  holds_modLevel b a _ live

@[simp] theorem frame_putPrevOrder : ((b.putPrevOrder a p).LiveOrder x ↔ b.LiveOrder x) ∧
    ((b.putPrevOrder a p).LiveLevel x ↔ b.LiveLevel x) ∧
    (b.putPrevOrder a p).levelAt x = b.levelAt x :=
  ⟨liveOrder_modOrder b a x _, Iff.rfl, rfl⟩

@[simp] theorem holds_putPrevOrder (live : List ℕ) :
    (b.putPrevOrder a p).orderPool.Holds live ↔ b.orderPool.Holds live :=
  holds_modOrder b a _ live

@[simp] theorem frame_putNextOrder : ((b.putNextOrder a p).LiveOrder x ↔ b.LiveOrder x) ∧
    ((b.putNextOrder a p).LiveLevel x ↔ b.LiveLevel x) ∧
    (b.putNextOrder a p).levelAt x = b.levelAt x :=
  ⟨liveOrder_modOrder b a x _, Iff.rfl, rfl⟩

@[simp] theorem holds_putNextOrder (live : List ℕ) :
    (b.putNextOrder a p).orderPool.Holds live ↔ b.orderPool.Holds live :=
  holds_modOrder b a _ live

theorem nextEntry_putNextEntry :
    ((b.putNextEntry a p).levelAt x).nextEntry = if x = a then p else (b.levelAt x).nextEntry := by
  rw [putNextEntry, levelAt_modLevel]; split_ifs <;> rfl

theorem prevEntry_putPrevEntry :
    ((b.putPrevEntry a p).levelAt x).prevEntry = if x = a then p else (b.levelAt x).prevEntry := by
  rw [putPrevEntry, levelAt_modLevel]; split_ifs <;> rfl

theorem firstOrder_putFirstOrder :
    ((b.putFirstOrder a p).levelAt x).firstOrder =
      if x = a then p else (b.levelAt x).firstOrder := by
  rw [putFirstOrder, levelAt_modLevel]; split_ifs <;> rfl

theorem nextOrder_putNextOrder :
    ((b.putNextOrder a p).orderAt x).nextOrder = if x = a then p else (b.orderAt x).nextOrder := by
  rw [putNextOrder, orderAt_modOrder]; split_ifs <;> rfl

theorem prevOrder_putPrevOrder :
    ((b.putPrevOrder a p).orderAt x).prevOrder = if x = a then p else (b.orderAt x).prevOrder := by
  rw [putPrevOrder, orderAt_modOrder]; split_ifs <;> rfl

theorem levelAt_modLevel_field {β : Type} (f : OrdersAtPrice → OrdersAtPrice)
    (field : OrdersAtPrice → β) (h : ∀ l, field (f l) = field l) :
    field ((b.modLevel a f).levelAt x) = field (b.levelAt x) := by
  rw [levelAt_modLevel]
  split_ifs with he
  · rw [h, he]
  · rfl

theorem orderAt_modOrder_field {β : Type} (g : Order ι → Order ι) (field : Order ι → β)
    (h : ∀ o, field (g o) = field o) :
    field ((b.modOrder a g).orderAt x) = field (b.orderAt x) := by
  rw [orderAt_modOrder]
  split_ifs with he
  · rw [h, he]
  · rfl

@[simp] theorem prevEntry_putNextEntry :
    ((b.putNextEntry a p).levelAt x).prevEntry = (b.levelAt x).prevEntry :=
  b.levelAt_modLevel_field a x _ OrdersAtPrice.prevEntry fun _ => rfl

@[simp] theorem nextEntry_putPrevEntry :
    ((b.putPrevEntry a p).levelAt x).nextEntry = (b.levelAt x).nextEntry :=
  b.levelAt_modLevel_field a x _ OrdersAtPrice.nextEntry fun _ => rfl

@[simp] theorem nextEntry_putFirstOrder :
    ((b.putFirstOrder a p).levelAt x).nextEntry = (b.levelAt x).nextEntry :=
  b.levelAt_modLevel_field a x _ OrdersAtPrice.nextEntry fun _ => rfl

@[simp] theorem prevEntry_putFirstOrder :
    ((b.putFirstOrder a p).levelAt x).prevEntry = (b.levelAt x).prevEntry :=
  b.levelAt_modLevel_field a x _ OrdersAtPrice.prevEntry fun _ => rfl

@[simp] theorem prevOrder_putNextOrder :
    ((b.putNextOrder a p).orderAt x).prevOrder = (b.orderAt x).prevOrder :=
  b.orderAt_modOrder_field a x _ Order.prevOrder fun _ => rfl

@[simp] theorem nextOrder_putPrevOrder :
    ((b.putPrevOrder a p).orderAt x).nextOrder = (b.orderAt x).nextOrder :=
  b.orderAt_modOrder_field a x _ Order.nextOrder fun _ => rfl

@[simp] theorem toOrderInfo_putNextOrder :
    ((b.putNextOrder a p).orderAt x).toOrderInfo = (b.orderAt x).toOrderInfo :=
  b.orderAt_modOrder_field a x _ Order.toOrderInfo fun _ => rfl

@[simp] theorem toOrderInfo_putPrevOrder :
    ((b.putPrevOrder a p).orderAt x).toOrderInfo = (b.orderAt x).toOrderInfo :=
  b.orderAt_modOrder_field a x _ Order.toOrderInfo fun _ => rfl

variable {b} {a}

theorem level_ok (h : b.LiveLevel a) : b.level a = .ok (b.levelAt a) := MemPool.read_live h

theorem order_ok (h : b.LiveOrder a) : b.order a = .ok (b.orderAt a) := MemPool.read_live h

theorem writeLevel_ok (h : b.LiveLevel a) (f : OrdersAtPrice → OrdersAtPrice) :
    b.writeLevel a f = .ok (b.modLevel a f) := by
  simp [writeLevel, MemPool.write_live h, modLevel]

theorem writeOrder_ok (h : b.LiveOrder a) (g : Order ι → Order ι) :
    b.writeOrder a g = .ok (b.modOrder a g) := by
  simp [writeOrder, MemPool.write_live h, modOrder]

theorem setPrevEntry_ok (h : b.LiveLevel a) : b.setPrevEntry a p = .ok (b.putPrevEntry a p) :=
  writeLevel_ok h _

theorem setNextEntry_ok (h : b.LiveLevel a) : b.setNextEntry a p = .ok (b.putNextEntry a p) :=
  writeLevel_ok h _

theorem setFirstOrder_ok (h : b.LiveLevel a) : b.setFirstOrder a p = .ok (b.putFirstOrder a p) :=
  writeLevel_ok h _

theorem setPrevOrder_ok (h : b.LiveOrder a) : b.setPrevOrder a p = .ok (b.putPrevOrder a p) :=
  writeOrder_ok h _

theorem setNextOrder_ok (h : b.LiveOrder a) : b.setNextOrder a p = .ok (b.putNextOrder a p) :=
  writeOrder_ok h _

theorem setQty_ok (h : b.LiveOrder a) : b.setQty a qty = .ok (b.putQty a qty) :=
  writeOrder_ok h _

end Views

section Heads

variable (b : BookStore ι) (side : Side) (p : Option ℕ) (price : ℤ) (a : ℕ)

@[simp] theorem levelAt_setHead : (b.setHead side p).levelAt a = b.levelAt a := by
  unfold setHead; split_ifs <;> rfl

@[simp] theorem orderAt_setHead : (b.setHead side p).orderAt a = b.orderAt a := by
  unfold setHead; split_ifs <;> rfl

@[simp] theorem orderPool_setHead : (b.setHead side p).orderPool = b.orderPool := by
  unfold setHead; split_ifs <;> rfl

@[simp] theorem ordersAtPricePool_setHead :
    (b.setHead side p).ordersAtPricePool = b.ordersAtPricePool := by
  unfold setHead; split_ifs <;> rfl

@[simp] theorem priceOrdersAtPrice_setHead :
    (b.setHead side p).priceOrdersAtPrice = b.priceOrdersAtPrice := by
  unfold setHead; split_ifs <;> rfl

@[simp] theorem head_setHead_self : (b.setHead side p).head side = p := by
  unfold setHead head; split_ifs <;> rfl

theorem head_setHead_opposite {side : Side} (h : side.IsBuyOrSell) :
    (b.setHead side p).head side.opposite = b.head side.opposite := by
  rcases h with rfl | rfl <;> rfl

@[simp] theorem levelAt_setOrdersAtPrice :
    (b.setOrdersAtPrice price p).levelAt a = b.levelAt a := rfl

@[simp] theorem orderAt_setOrdersAtPrice :
    (b.setOrdersAtPrice price p).orderAt a = b.orderAt a := rfl

@[simp] theorem head_setOrdersAtPrice : (b.setOrdersAtPrice price p).head side = b.head side := rfl

@[simp] theorem liveLevel_setHead : (b.setHead side p).LiveLevel a ↔ b.LiveLevel a := by
  simp [LiveLevel]

@[simp] theorem liveOrder_setHead : (b.setHead side p).LiveOrder a ↔ b.LiveOrder a := by
  simp [LiveOrder]

@[simp] theorem liveLevel_setOrdersAtPrice :
    (b.setOrdersAtPrice price p).LiveLevel a ↔ b.LiveLevel a := Iff.rfl

end Heads

structure LevelRep (b : BookStore ι) (side : Side) (L : LevelShape ι) : Prop where
  side_eq : (b.levelAt L.addr).side = side
  price_eq : (b.levelAt L.addr).price = L.price
  first_eq : (b.levelAt L.addr).firstOrder = L.orders.head?.map Prod.fst
  nonempty : L.orders ≠ []
  ring : IsRing (fun a => (b.orderAt a).nextOrder) (fun a => (b.orderAt a).prevOrder)
    (L.orders.map Prod.fst)
  info : ∀ e ∈ L.orders, (b.orderAt e.1).toOrderInfo = e.2 ∧ e.2.side = side ∧ e.2.price = L.price

structure SideRep (b : BookStore ι) (side : Side) (ls : List (LevelShape ι)) : Prop where
  head_eq : b.head side = ls.head?.map LevelShape.addr
  ring : IsRing (fun a => (b.levelAt a).nextEntry) (fun a => (b.levelAt a).prevEntry)
    (LevelShape.addrs ls)
  sorted : (ls.map LevelShape.price).Pairwise (better side)
  levels : ∀ L ∈ ls, b.LevelRep side L

/-- `looseLevels` and `looseOrders` are blocks taken from the pools that no list holds. -/
structure Rep (b : BookStore ι) (side : Side) (own opp : List (LevelShape ι))
    (looseLevels looseOrders : List ℕ) : Prop where
  isSide : side.IsBuyOrSell
  ownSide : b.SideRep side own
  oppSide : b.SideRep side.opposite opp
  index : ∀ i a, b.priceOrdersAtPrice i = some a ↔
    ∃ L ∈ own ++ opp, L.addr = a ∧ priceToIndex L.price = i
  inRange : ∀ L ∈ own ++ opp, PriceInRange L.price
  prices : ((own ++ opp).map LevelShape.price).Nodup
  levelPool : b.ordersAtPricePool.Holds (looseLevels ++ LevelShape.addrs (own ++ opp))
  orderPool : b.orderPool.Holds (looseOrders ++ LevelShape.orderAddrs (own ++ opp))
  levelCap : b.ordersAtPricePool.numElems = meMaxPriceLevels
  orderCap : b.orderPool.numElems = meMaxOrderIds

theorem LevelRep.congr {b b' : BookStore ι} {side : Side} {L : LevelShape ι}
    (h : b.LevelRep side L) (hs : (b'.levelAt L.addr).side = (b.levelAt L.addr).side)
    (hp : (b'.levelAt L.addr).price = (b.levelAt L.addr).price)
    (hf : (b'.levelAt L.addr).firstOrder = (b.levelAt L.addr).firstOrder)
    (ho : ∀ e ∈ L.orders, b'.orderAt e.1 = b.orderAt e.1) : b'.LevelRep side L where
  side_eq := hs.trans h.side_eq
  price_eq := hp.trans h.price_eq
  first_eq := hf.trans h.first_eq
  nonempty := h.nonempty
  ring := by
    have hm : ∀ a ∈ L.orders.map Prod.fst, b'.orderAt a = b.orderAt a := by
      intro a ha
      obtain ⟨e, he, rfl⟩ := List.mem_map.mp ha
      exact ho e he
    exact h.ring.congr (fun a ha => by rw [hm a ha]) (fun a ha => by rw [hm a ha])
  info := fun e he => by rw [ho e he]; exact h.info e he

theorem Rep.swap {b : BookStore ι} {side : Side} {own opp : List (LevelShape ι)}
    {ll lo : List ℕ} (h : b.Rep side own opp ll lo) : b.Rep side.opposite opp own ll lo where
  isSide := h.isSide.opposite
  ownSide := h.oppSide
  oppSide := by rw [h.isSide.opposite_opposite]; exact h.ownSide
  index := fun i a => by
    rw [h.index]
    simp only [List.mem_append, or_comm]
  inRange := fun L hL => h.inRange L (by simpa [or_comm] using hL)
  prices := by
    have := h.prices
    rw [List.map_append] at this ⊢
    exact (List.nodup_append_comm).mp this
  levelPool := h.levelPool.perm (by
    simp only [LevelShape.addrs, List.map_append]
    exact List.perm_append_comm.append_left _)
  orderPool := h.orderPool.perm (by
    simp only [LevelShape.orderAddrs, LevelShape.entries_append, List.map_append]
    exact List.perm_append_comm.append_left _)
  levelCap := h.levelCap
  orderCap := h.orderCap

section Facts

variable {b : BookStore ι} {side : Side} {own opp : List (LevelShape ι)} {ll lo : List ℕ}

theorem Rep.liveLevel (h : b.Rep side own opp ll lo) {L : LevelShape ι} (hL : L ∈ own ++ opp) :
    b.LiveLevel L.addr :=
  h.levelPool.live (List.mem_append_right _ (List.mem_map_of_mem hL))

theorem Rep.liveOrder (h : b.Rep side own opp ll lo) {e : ℕ × OrderInfo ι}
    (he : e ∈ LevelShape.entries (own ++ opp)) : b.LiveOrder e.1 :=
  h.orderPool.live (List.mem_append_right _ (List.mem_map_of_mem he))

theorem Rep.getOrdersAtPrice (h : b.Rep side own opp ll lo) {L : LevelShape ι}
    (hL : L ∈ own ++ opp) : b.getOrdersAtPrice L.price = some L.addr :=
  (h.index _ _).mpr ⟨L, hL, rfl, rfl⟩

theorem Rep.getOrdersAtPrice_none (h : b.Rep side own opp ll lo) {price : ℤ}
    (hp : PriceInRange price) (hno : ∀ L ∈ own ++ opp, L.price ≠ price) :
    b.getOrdersAtPrice price = none := by
  cases hg : b.getOrdersAtPrice price with
  | none => rfl
  | some a =>
    obtain ⟨L, hL, -, hi⟩ := (h.index _ _).mp hg
    exact absurd (priceToIndex_inj (h.inRange L hL) hp hi) (hno L hL)

theorem Rep.levelRep (h : b.Rep side own opp ll lo) {L : LevelShape ι} (hL : L ∈ own) :
    b.LevelRep side L := h.ownSide.levels L hL

end Facts

end BookStore

end Common
