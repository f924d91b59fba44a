import TradingEcosystem.Common.BookStore

namespace Common

namespace BookStore

variable {ι : Type} {b b' : BookStore ι} {P : ι → Prop} {G : ℕ → Prop} {a : ℕ}

/-- Every pointer to an order leads into the blocks `G`, whose ids satisfy `P`. -/
structure Owned (b : BookStore ι) (P : ι → Prop) (G : ℕ → Prop) : Prop where
  ids : ∀ a, G a → P (b.orderPool.store a).object.ids
  prev : ∀ a p, (b.orderPool.store a).object.prevOrder = some p → G p
  next : ∀ a p, (b.orderPool.store a).object.nextOrder = some p → G p
  first : ∀ a p, (b.ordersAtPricePool.store a).object.firstOrder = some p → G p

theorem owned_new (checked : Bool) (ids : ι) : (BookStore.new checked ids).Owned P fun _ => False where
  ids := fun _ h => h.elim
  prev := nofun
  next := nofun
  first := nofun

theorem Owned.mono {P' : ι → Prop} (h : b.Owned P G) (himp : ∀ x, P x → P' x) : b.Owned P' G :=
  ⟨fun a ha => himp _ (h.ids a ha), h.prev, h.next, h.first⟩

theorem Owned.setHead (h : b.Owned P G) (side : Side) (p : Option ℕ) :
    (b.setHead side p).Owned P G := by
  unfold BookStore.setHead
  split_ifs
  · exact ⟨h.ids, h.prev, h.next, h.first⟩
  · exact ⟨h.ids, h.prev, h.next, h.first⟩

theorem Owned.setOrdersAtPrice (h : b.Owned P G) (price : ℤ) (p : Option ℕ) :
    (b.setOrdersAtPrice price p).Owned P G :=
  ⟨h.ids, h.prev, h.next, h.first⟩

theorem Owned.level (h : b.Owned P G) {l : OrdersAtPrice} {p : ℕ} (hl : b.level a = .ok l)
    (hp : deref l.firstOrder = .ok p) : G p := by
  obtain rfl := MemPool.read_eq_ok hl
  cases hfirst : (b.ordersAtPricePool.store a).object.firstOrder with
  | none =>
    rw [hfirst] at hp
    cases hp
  | some q =>
    rw [hfirst] at hp
    cases hp
    exact h.first a p hfirst

theorem Owned.order (h : b.Owned P G) {o : Order ι} (ha : G a) (ho : b.order a = .ok o) :
    P o.ids := by
  obtain rfl := MemPool.read_eq_ok ho
  exact h.ids a ha

theorem Owned.writeLevel (h : b.Owned P G) {f : OrdersAtPrice → OrdersAtPrice}
    (hw : b.writeLevel a f = .ok b')
    (hf : ∀ l p, (f l).firstOrder = some p → l.firstOrder = some p ∨ G p) : b'.Owned P G := by
  obtain ⟨pool, hpool, hw⟩ := bind_eq_ok.mp hw
  obtain rfl := MemPool.write_eq_ok hpool
  cases hw
  refine ⟨h.ids, h.prev, h.next, fun c p hp => ?_⟩
  dsimp only at hp
  rw [MemPool.object_modify] at hp
  split_ifs at hp
  · rcases hf _ p hp with hp | hp
    · exact h.first _ p hp
    · exact hp
  · exact h.first c p hp

theorem Owned.writeOrder (h : b.Owned P G) {f : Order ι → Order ι}
    (hw : b.writeOrder a f = .ok b') (hids : ∀ o, (f o).ids = o.ids)
    (hprev : ∀ o p, (f o).prevOrder = some p → o.prevOrder = some p ∨ G p)
    (hnext : ∀ o p, (f o).nextOrder = some p → o.nextOrder = some p ∨ G p) : b'.Owned P G := by
  obtain ⟨pool, hpool, hw⟩ := bind_eq_ok.mp hw
  obtain rfl := MemPool.write_eq_ok hpool
  cases hw
  refine ⟨fun c hc => ?_, fun c p hp => ?_, fun c p hp => ?_, h.first⟩
  · dsimp only
    rw [MemPool.object_modify]
    split_ifs with hca
    · rw [hids, ← hca]
      exact h.ids c hc
    · exact h.ids c hc
  · dsimp only at hp
    rw [MemPool.object_modify] at hp
    split_ifs at hp
    · exact (hprev _ p hp).elim (h.prev _ p) id
    · exact h.prev c p hp
  · dsimp only at hp
    rw [MemPool.object_modify] at hp
    split_ifs at hp
    · exact (hnext _ p hp).elim (h.next _ p) id
    · exact h.next c p hp

theorem Owned.setPrevEntry (h : b.Owned P G) {p : Option ℕ} (hw : b.setPrevEntry a p = .ok b') :
    b'.Owned P G :=
  h.writeLevel hw fun _ _ hp => .inl hp

theorem Owned.setNextEntry (h : b.Owned P G) {p : Option ℕ} (hw : b.setNextEntry a p = .ok b') :
    b'.Owned P G :=
  h.writeLevel hw fun _ _ hp => .inl hp

theorem Owned.setFirstOrder (h : b.Owned P G) {p : Option ℕ} (hp : ∀ q, p = some q → G q)
    (hw : b.setFirstOrder a p = .ok b') : b'.Owned P G :=
  h.writeLevel hw fun _ _ hq => .inr (hp _ hq)

theorem Owned.setPrevOrder (h : b.Owned P G) {p : Option ℕ} (hp : ∀ q, p = some q → G q)
    (hw : b.setPrevOrder a p = .ok b') : b'.Owned P G :=
  h.writeOrder hw (fun _ => rfl) (fun _ _ hq => .inr (hp _ hq)) fun _ _ hq => .inl hq

theorem Owned.setNextOrder (h : b.Owned P G) {p : Option ℕ} (hp : ∀ q, p = some q → G q)
    (hw : b.setNextOrder a p = .ok b') : b'.Owned P G :=
  h.writeOrder hw (fun _ => rfl) (fun _ _ hq => .inl hq) fun _ _ hq => .inr (hp _ hq)

theorem Owned.setQty (h : b.Owned P G) {qty : ℕ} (hw : b.setQty a qty = .ok b') : b'.Owned P G :=
  h.writeOrder hw (fun _ => rfl) (fun _ _ hq => .inl hq) fun _ _ hq => .inl hq

theorem Owned.insertAfter (h : b.Owned P G) {new target : ℕ}
    (hw : b.insertAfter new target = .ok b') : b'.Owned P G := by
  obtain ⟨b₁, h₁, hw⟩ := bind_eq_ok.mp hw
  obtain ⟨_, -, hw⟩ := bind_eq_ok.mp hw
  obtain ⟨_, -, hw⟩ := bind_eq_ok.mp hw
  obtain ⟨b₂, h₂, hw⟩ := bind_eq_ok.mp hw
  obtain ⟨_, -, hw⟩ := bind_eq_ok.mp hw
  obtain ⟨b₃, h₃, hw⟩ := bind_eq_ok.mp hw
  exact (((h.setPrevEntry h₁).setPrevEntry h₂).setNextEntry h₃).setNextEntry hw

theorem Owned.insertBefore (h : b.Owned P G) {new target : ℕ}
    (hw : b.insertBefore new target = .ok b') : b'.Owned P G := by
  obtain ⟨_, -, hw⟩ := bind_eq_ok.mp hw
  obtain ⟨b₁, h₁, hw⟩ := bind_eq_ok.mp hw
  obtain ⟨b₂, h₂, hw⟩ := bind_eq_ok.mp hw
  obtain ⟨_, -, hw⟩ := bind_eq_ok.mp hw
  obtain ⟨_, -, hw⟩ := bind_eq_ok.mp hw
  obtain ⟨b₃, h₃, hw⟩ := bind_eq_ok.mp hw
  exact (((h.setPrevEntry h₁).setNextEntry h₂).setNextEntry h₃).setPrevEntry hw

theorem Owned.promote (h : b.Owned P G) {n : OrdersAtPrice} {new target best : ℕ}
    (hw : b.promote n new target best = .ok b') : b'.Owned P G := by
  obtain ⟨l, -, hw⟩ := bind_eq_ok.mp hw
  split_ifs at hw
  · obtain ⟨_, -, hw⟩ := bind_eq_ok.mp hw
    obtain ⟨b₁, h₁, hw⟩ := bind_eq_ok.mp hw
    cases hw
    exact (h.setNextEntry h₁).setHead _ _
  · cases hw
    exact h

theorem Owned.addOrdersAtPrice (h : b.Owned P G) {new : ℕ}
    (hw : b.addOrdersAtPrice new = .ok b') : b'.Owned P G := by
  obtain ⟨n, -, hw⟩ := bind_eq_ok.mp hw
  have h₀ := h.setOrdersAtPrice n.price (some new)
  dsimp only at hw
  split at hw
  · obtain ⟨b₁, h₁, hw⟩ := bind_eq_ok.mp hw
    exact ((h₀.setHead _ _).setNextEntry h₁).setPrevEntry hw
  · obtain ⟨⟨target, after⟩, -, hw⟩ := bind_eq_ok.mp hw
    dsimp only at hw
    split_ifs at hw
    · obtain ⟨_, -, hw⟩ := bind_eq_ok.mp hw
      exact h₀.insertAfter hw
    · obtain ⟨b₁, h₁, hw⟩ := bind_eq_ok.mp hw
      exact (h₀.insertBefore h₁).promote hw

theorem Owned.unlinkLevel (h : b.Owned P G) {side : Side} (hw : b.unlinkLevel side a = .ok b') :
    b'.Owned P G := by
  obtain ⟨l, -, hw⟩ := bind_eq_ok.mp hw
  dsimp only at hw
  by_cases hsole : l.nextEntry = some a
  · rw [if_pos hsole] at hw
    cases hw
    exact h.setHead _ _
  · rw [if_neg hsole] at hw
    obtain ⟨_, -, hw⟩ := bind_eq_ok.mp hw
    obtain ⟨b₁, h₁, hw⟩ := bind_eq_ok.mp hw
    obtain ⟨_, -, hw⟩ := bind_eq_ok.mp hw
    obtain ⟨_, -, hw⟩ := bind_eq_ok.mp hw
    obtain ⟨b₂, h₂, hw⟩ := bind_eq_ok.mp hw
    obtain ⟨l₂, -, hw⟩ := bind_eq_ok.mp hw
    obtain ⟨b₃, h₃, hw⟩ := bind_eq_ok.mp hw
    have hb₂ := (h.setNextEntry h₁).setPrevEntry h₂
    have hb₃ : b₃.Owned P G := by
      split_ifs at h₃
      · exact (hb₂.setHead _ _).setNextEntry h₃
      · exact hb₂.setNextEntry h₃
    exact hb₃.setPrevEntry hw

theorem Owned.removeOrdersAtPrice (h : b.Owned P G) {side : Side} {price : ℤ}
    (hw : b.removeOrdersAtPrice side price = .ok b') : b'.Owned P G := by
  obtain ⟨c, -, hw⟩ := bind_eq_ok.mp hw
  obtain ⟨b₁, h₁, hw⟩ := bind_eq_ok.mp hw
  obtain ⟨pool, hpool, hw⟩ := bind_eq_ok.mp hw
  obtain rfl := MemPool.deallocate_eq_ok hpool
  cases hw
  have hb₁ := (h.unlinkLevel h₁).setOrdersAtPrice price none
  refine ⟨hb₁.ids, hb₁.prev, hb₁.next, fun d p hp => hb₁.first d p ?_⟩
  dsimp only at hp
  rw [MemPool.store_put] at hp
  split_ifs at hp with hd
  · rw [hd]
    exact hp
  · exact hp

theorem Owned.unlinkOrder (h : b.Owned P G) {order : ℕ} (hw : b.unlinkOrder order = .ok b') :
    b'.Owned P G := by
  obtain ⟨o, ho, hw⟩ := bind_eq_ok.mp hw
  obtain rfl := MemPool.read_eq_ok ho
  dsimp only at hw
  split_ifs at hw
  · exact h.removeOrdersAtPrice hw
  · obtain ⟨p, -, hw⟩ := bind_eq_ok.mp hw
    obtain ⟨b₁, h₁, hw⟩ := bind_eq_ok.mp hw
    obtain ⟨s, -, hw⟩ := bind_eq_ok.mp hw
    obtain ⟨b₂, h₂, hw⟩ := bind_eq_ok.mp hw
    obtain ⟨l, -, hw⟩ := bind_eq_ok.mp hw
    obtain ⟨b₃, h₃, hw⟩ := bind_eq_ok.mp hw
    obtain ⟨b₄, h₄, hw⟩ := bind_eq_ok.mp hw
    have hb₂ := (h.setNextOrder (fun q => h.next order q) h₁).setPrevOrder
      (fun q => h.prev order q) h₂
    have hb₃ : b₃.Owned P G := by
      obtain ⟨_, -, h₃⟩ := bind_eq_ok.mp h₃
      split_ifs at h₃
      · exact hb₂.setFirstOrder (fun q => h.next order q) h₃
      · cases h₃
        exact hb₂
    have hnull : ∀ q, (none : Option ℕ) = some q → G q := by
      intro q hq
      cases hq
    exact (hb₃.setNextOrder hnull h₄).setPrevOrder hnull hw

theorem Owned.linkOrder (h : b.Owned P G) {order : ℕ} (horder : G order)
    (hw : b.linkOrder order = .ok b') : b'.Owned P G := by
  have hself : ∀ q, some order = some q → G q := by
    intro q hq
    cases hq
    exact horder
  obtain ⟨o, -, hw⟩ := bind_eq_ok.mp hw
  dsimp only at hw
  split at hw
  · obtain ⟨b₁, h₁, hw⟩ := bind_eq_ok.mp hw
    obtain ⟨b₂, h₂, hw⟩ := bind_eq_ok.mp hw
    obtain ⟨⟨new, pool⟩, hpool, hw⟩ := bind_eq_ok.mp hw
    obtain ⟨-, hstore⟩ := MemPool.allocate_eq_ok hpool
    have hb₂ := (h.setPrevOrder hself h₁).setNextOrder hself h₂
    have hpool₂ : Owned { b₂ with ordersAtPricePool := pool } P G := by
      refine ⟨hb₂.ids, hb₂.prev, hb₂.next, fun d p hp => ?_⟩
      dsimp only at hp
      rw [hstore, MemPool.store_put] at hp
      split_ifs at hp
      · exact hself p hp
      · exact hb₂.first d p hp
    exact hpool₂.addOrdersAtPrice hw
  · obtain ⟨l, hl, hw⟩ := bind_eq_ok.mp hw
    obtain ⟨first, hfirst, hw⟩ := bind_eq_ok.mp hw
    obtain ⟨_, -, hw⟩ := bind_eq_ok.mp hw
    obtain ⟨last, -, hw⟩ := bind_eq_ok.mp hw
    obtain ⟨b₁, h₁, hw⟩ := bind_eq_ok.mp hw
    obtain ⟨f, hf, hw⟩ := bind_eq_ok.mp hw
    obtain ⟨b₂, h₂, hw⟩ := bind_eq_ok.mp hw
    obtain ⟨b₃, h₃, hw⟩ := bind_eq_ok.mp hw
    have hb₁ := h.setNextOrder hself h₁
    have hprev : ∀ q, f.prevOrder = some q → G q := by
      obtain rfl := MemPool.read_eq_ok hf
      exact hb₁.prev first
    have hb₂ := hb₁.setPrevOrder hprev h₂
    have hb₃ := hb₂.setNextOrder (fun q hq => by
      cases hq
      exact h.level hl hfirst) h₃
    exact hb₃.setPrevOrder hself hw

theorem Owned.allocateOrder (h : b.Owned P G) {info : OrderInfo ι} {order : ℕ}
    (hw : b.allocateOrder info = .ok (order, b')) (hinfo : P info.ids) :
    b'.Owned P fun a => G a ∨ a = order := by
  obtain ⟨⟨new, pool⟩, hpool, hw⟩ := bind_eq_ok.mp hw
  obtain ⟨rfl, hstore⟩ := MemPool.allocate_eq_ok hpool
  cases hw
  refine ⟨fun c hc => ?_, fun c p hp => ?_, fun c p hp => ?_, fun c p hp => .inl (h.first c p hp)⟩
  · dsimp only
    rw [hstore, MemPool.store_put]
    split_ifs with hnew
    · exact hinfo
    · exact h.ids c (hc.resolve_right hnew)
  · dsimp only at hp
    rw [hstore, MemPool.store_put] at hp
    split_ifs at hp
    exact .inl (h.prev c p hp)
  · dsimp only at hp
    rw [hstore, MemPool.store_put] at hp
    split_ifs at hp
    exact .inl (h.next c p hp)

theorem Owned.deallocateOrder (h : b.Owned P G) {order : ℕ}
    (hw : b.deallocateOrder order = .ok b') : b'.Owned P G := by
  obtain ⟨pool, hpool, hw⟩ := bind_eq_ok.mp hw
  obtain rfl := MemPool.deallocate_eq_ok hpool
  cases hw
  have hobject : ∀ c, ((b.orderPool.put order ⟨(b.orderPool.store order).object, true⟩).store
      c).object = (b.orderPool.store c).object := by
    intro c
    rw [MemPool.store_put]
    split_ifs with hc
    · rw [hc]
    · rfl
  refine ⟨fun c hc => ?_, fun c p hp => h.prev c p ?_, fun c p hp => h.next c p ?_, h.first⟩
  · dsimp only
    rw [hobject]
    exact h.ids c hc
  · rw [← hobject]
    exact hp
  · rw [← hobject]
    exact hp

end BookStore

end Common
