import TradingEcosystem.Common.BookRep

namespace Common

namespace BookStore

variable {ι : Type} {b b' b'' : BookStore ι} {a : ℕ}

section Levels

theorem writeLevel_orderPool {f : OrdersAtPrice → OrdersAtPrice} (h : b.writeLevel a f = .ok b') :
    b'.orderPool = b.orderPool := by
  obtain ⟨pool, -, h⟩ := bind_eq_ok.mp h
  cases h
  rfl

theorem insertAfter_orderPool {new target : ℕ} (h : b.insertAfter new target = .ok b') :
    b'.orderPool = b.orderPool := by
  obtain ⟨b₁, h₁, h⟩ := bind_eq_ok.mp h
  obtain ⟨_, -, h⟩ := bind_eq_ok.mp h
  obtain ⟨_, -, h⟩ := bind_eq_ok.mp h
  obtain ⟨b₂, h₂, h⟩ := bind_eq_ok.mp h
  obtain ⟨_, -, h⟩ := bind_eq_ok.mp h
  obtain ⟨b₃, h₃, h⟩ := bind_eq_ok.mp h
  rw [writeLevel_orderPool h, writeLevel_orderPool h₃, writeLevel_orderPool h₂,
    writeLevel_orderPool h₁]

theorem insertBefore_orderPool {new target : ℕ} (h : b.insertBefore new target = .ok b') :
    b'.orderPool = b.orderPool := by
  obtain ⟨_, -, h⟩ := bind_eq_ok.mp h
  obtain ⟨b₁, h₁, h⟩ := bind_eq_ok.mp h
  obtain ⟨b₂, h₂, h⟩ := bind_eq_ok.mp h
  obtain ⟨_, -, h⟩ := bind_eq_ok.mp h
  obtain ⟨_, -, h⟩ := bind_eq_ok.mp h
  obtain ⟨b₃, h₃, h⟩ := bind_eq_ok.mp h
  rw [writeLevel_orderPool h, writeLevel_orderPool h₃, writeLevel_orderPool h₂,
    writeLevel_orderPool h₁]

theorem promote_orderPool {n : OrdersAtPrice} {new target best : ℕ}
    (h : b.promote n new target best = .ok b') : b'.orderPool = b.orderPool := by
  obtain ⟨l, -, h⟩ := bind_eq_ok.mp h
  split_ifs at h
  · obtain ⟨_, -, h⟩ := bind_eq_ok.mp h
    obtain ⟨b₁, h₁, h⟩ := bind_eq_ok.mp h
    cases h
    rw [orderPool_setHead, writeLevel_orderPool h₁]
  · cases h
    rfl

theorem addOrdersAtPrice_orderPool {new : ℕ} (h : b.addOrdersAtPrice new = .ok b') :
    b'.orderPool = b.orderPool := by
  obtain ⟨n, -, h⟩ := bind_eq_ok.mp h
  dsimp only at h
  split at h
  · obtain ⟨b₁, h₁, h⟩ := bind_eq_ok.mp h
    rw [writeLevel_orderPool h, writeLevel_orderPool h₁, orderPool_setHead]
    rfl
  · obtain ⟨⟨target, after⟩, -, h⟩ := bind_eq_ok.mp h
    dsimp only at h
    split_ifs at h
    · obtain ⟨_, -, h⟩ := bind_eq_ok.mp h
      rw [insertAfter_orderPool h]
      rfl
    · obtain ⟨b₁, h₁, h⟩ := bind_eq_ok.mp h
      rw [promote_orderPool h, insertBefore_orderPool h₁]
      rfl

theorem unlinkLevel_orderPool {side : Side} (h : b.unlinkLevel side a = .ok b') :
    b'.orderPool = b.orderPool := by
  obtain ⟨l, -, h⟩ := bind_eq_ok.mp h
  dsimp only at h
  by_cases hsole : l.nextEntry = some a
  · rw [if_pos hsole] at h
    cases h
    exact orderPool_setHead ..
  · rw [if_neg hsole] at h
    obtain ⟨_, -, h⟩ := bind_eq_ok.mp h
    obtain ⟨b₁, h₁, h⟩ := bind_eq_ok.mp h
    obtain ⟨_, -, h⟩ := bind_eq_ok.mp h
    obtain ⟨_, -, h⟩ := bind_eq_ok.mp h
    obtain ⟨b₂, h₂, h⟩ := bind_eq_ok.mp h
    obtain ⟨l₂, -, h⟩ := bind_eq_ok.mp h
    obtain ⟨b₃, h₃, h⟩ := bind_eq_ok.mp h
    have hb₃ : b₃.orderPool = b₂.orderPool := by
      split_ifs at h₃
      · rw [writeLevel_orderPool h₃, orderPool_setHead]
      · exact writeLevel_orderPool h₃
    rw [writeLevel_orderPool h, hb₃, writeLevel_orderPool h₂, writeLevel_orderPool h₁]

theorem removeOrdersAtPrice_orderPool {side : Side} {price : ℤ}
    (h : b.removeOrdersAtPrice side price = .ok b') : b'.orderPool = b.orderPool := by
  obtain ⟨c, -, h⟩ := bind_eq_ok.mp h
  obtain ⟨b₁, h₁, h⟩ := bind_eq_ok.mp h
  obtain ⟨pool, -, h⟩ := bind_eq_ok.mp h
  cases h
  exact (unlinkLevel_orderPool h₁ :)

end Levels

/-- The order blocks are in use as before and hold the same orders, up to the links between them. -/
structure SameOrders (b b' : BookStore ι) : Prop where
  isFree : ∀ a, (b'.orderPool.store a).isFree = (b.orderPool.store a).isFree
  info : ∀ a, (b'.orderPool.store a).object.toOrderInfo = (b.orderPool.store a).object.toOrderInfo

theorem SameOrders.of_orderPool (h : b'.orderPool = b.orderPool) : SameOrders b b' := by
  constructor
  · intro a
    rw [h]
  · intro a
    rw [h]

theorem SameOrders.trans (h : SameOrders b b') (h' : SameOrders b' b'') : SameOrders b b'' :=
  ⟨fun a => (h'.isFree a).trans (h.isFree a), fun a => (h'.info a).trans (h.info a)⟩

theorem sameOrders_writeOrder {f : Order ι → Order ι} (hf : ∀ o, (f o).toOrderInfo = o.toOrderInfo)
    (h : b.writeOrder a f = .ok b') : SameOrders b b' := by
  obtain ⟨pool, hpool, h⟩ := bind_eq_ok.mp h
  obtain rfl := MemPool.write_eq_ok hpool
  cases h
  constructor
  · intro c
    exact MemPool.isFree_modify _ _ _ _
  · intro c
    dsimp only
    rw [MemPool.object_modify]
    split_ifs with hc
    · rw [hf, hc]
    · rfl

theorem sameOrders_setPrevOrder {p : Option ℕ} (h : b.setPrevOrder a p = .ok b') :
    SameOrders b b' := by
  refine sameOrders_writeOrder ?_ h
  exact fun _ => rfl

theorem sameOrders_setNextOrder {p : Option ℕ} (h : b.setNextOrder a p = .ok b') :
    SameOrders b b' := by
  refine sameOrders_writeOrder ?_ h
  exact fun _ => rfl

theorem sameOrders_unlinkOrder {order : ℕ} (h : b.unlinkOrder order = .ok b') : SameOrders b b' := by
  obtain ⟨o, -, h⟩ := bind_eq_ok.mp h
  dsimp only at h
  split_ifs at h
  · exact .of_orderPool (removeOrdersAtPrice_orderPool h)
  · obtain ⟨p, -, h⟩ := bind_eq_ok.mp h
    obtain ⟨b₁, h₁, h⟩ := bind_eq_ok.mp h
    obtain ⟨s, -, h⟩ := bind_eq_ok.mp h
    obtain ⟨b₂, h₂, h⟩ := bind_eq_ok.mp h
    obtain ⟨l, -, h⟩ := bind_eq_ok.mp h
    obtain ⟨b₃, h₃, h⟩ := bind_eq_ok.mp h
    obtain ⟨b₄, h₄, h⟩ := bind_eq_ok.mp h
    have hb₃ : b₃.orderPool = b₂.orderPool := by
      obtain ⟨_, -, h₃⟩ := bind_eq_ok.mp h₃
      split_ifs at h₃
      · exact writeLevel_orderPool h₃
      · cases h₃
        rfl
    have h₁₂ := (sameOrders_setNextOrder h₁).trans (sameOrders_setPrevOrder h₂)
    exact ((h₁₂.trans (.of_orderPool hb₃)).trans (sameOrders_setNextOrder h₄)).trans
      (sameOrders_setPrevOrder h)

theorem sameOrders_linkOrder {order : ℕ} (h : b.linkOrder order = .ok b') : SameOrders b b' := by
  obtain ⟨o, -, h⟩ := bind_eq_ok.mp h
  dsimp only at h
  split at h
  · obtain ⟨b₁, h₁, h⟩ := bind_eq_ok.mp h
    obtain ⟨b₂, h₂, h⟩ := bind_eq_ok.mp h
    obtain ⟨⟨new, pool⟩, -, h⟩ := bind_eq_ok.mp h
    have h₁₂ := (sameOrders_setPrevOrder h₁).trans (sameOrders_setNextOrder h₂)
    have hpool : b'.orderPool = b₂.orderPool := (addOrdersAtPrice_orderPool h :)
    exact h₁₂.trans (.of_orderPool hpool)
  · obtain ⟨l, -, h⟩ := bind_eq_ok.mp h
    obtain ⟨first, -, h⟩ := bind_eq_ok.mp h
    obtain ⟨_, -, h⟩ := bind_eq_ok.mp h
    obtain ⟨last, -, h⟩ := bind_eq_ok.mp h
    obtain ⟨b₁, h₁, h⟩ := bind_eq_ok.mp h
    obtain ⟨f, -, h⟩ := bind_eq_ok.mp h
    obtain ⟨b₂, h₂, h⟩ := bind_eq_ok.mp h
    obtain ⟨b₃, h₃, h⟩ := bind_eq_ok.mp h
    have h₁₂ := (sameOrders_setNextOrder h₁).trans (sameOrders_setPrevOrder h₂)
    exact (h₁₂.trans (sameOrders_setNextOrder h₃)).trans (sameOrders_setPrevOrder h)

end BookStore

end Common
