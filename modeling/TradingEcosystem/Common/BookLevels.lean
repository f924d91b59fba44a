import TradingEcosystem.Common.BookOrders

namespace Common.BookStore

open CircularList LevelShape

variable {ι : Type} {b b' : BookStore ι} {side : Side} {own opp k ls : List (LevelShape ι)}
  {ll lo : List ℕ} {L : LevelShape ι} {n : OrdersAtPrice}

theorem addAfter_iff (hs : side.IsBuyOrSell) (hn : n.side = side) (t : OrdersAtPrice) :
    addAfter n t = true ↔ better side t.price n.price := by
  rcases hs with rfl | rfl <;> simp [addAfter, better, hn]

theorem beats_iff (hs : side.IsBuyOrSell) (hn : n.side = side) (t : OrdersAtPrice) :
    beats n t = true ↔ better side n.price t.price := by
  rcases hs with rfl | rfl <;> simp [beats, better, hn]

def targetOf (best : ℕ) : List (LevelShape ι) → ℕ × Bool
  | [] => (best, true)
  | T :: _ => (T.addr, false)

theorem SideRep.next_addr {T : LevelShape ι} {ts : List (LevelShape ι)}
    (h : b.SideRep side (k ++ T :: ts)) :
    (b.levelAt T.addr).nextEntry = (ts ++ k ++ [T]).head?.map LevelShape.addr := by
  have hr := h.ring
  simp only [addrs, List.map_append, List.map_cons] at hr
  have hn := hr.rotate.next_head
  rw [hn, ← List.head?_eq_some_head, ← List.head?_map]
  simp

theorem SideRep.addr_ne_first {L₀ T : LevelShape ι} (h : b.SideRep side (L₀ :: own))
    (hT : T ∈ own) : T.addr ≠ L₀.addr := by
  intro he
  exact (List.nodup_cons.mp h.ring.nodup).1 (he ▸ List.mem_map_of_mem hT)

theorem better_concat {L₀ T : LevelShape ι} {price : ℤ}
    (hk : ∀ K ∈ L₀ :: k, better side K.price price) (hT : better side T.price price) :
    ∀ K ∈ L₀ :: (k ++ [T]), better side K.price price := by
  intro K hK
  rcases List.mem_append.mp (show K ∈ (L₀ :: k) ++ [T] from hK) with hK | hK
  · exact hk K hK
  · obtain rfl := List.mem_singleton.mp hK
    exact hT

theorem findTarget_spec {L₀ : LevelShape ι} (hs : side.IsBuyOrSell) (hn : n.side = side)
    (h : b.SideRep side (L₀ :: own)) (hlive : ∀ K ∈ L₀ :: own, b.LiveLevel K.addr) :
    ∀ (T : LevelShape ι) (ts k : List (LevelShape ι)) (fuel : ℕ), own = k ++ T :: ts →
      (∀ K ∈ L₀ :: k, better side K.price n.price) → ts.length + 1 < fuel →
      ∃ k' ls, L₀ :: own = k' ++ ls ∧ (∀ K ∈ k', better side K.price n.price) ∧
        (∀ K ∈ ls.head?, ¬ better side K.price n.price) ∧
        b.findTarget n L₀.addr fuel T.addr true = .ok (targetOf L₀.addr ls) := by
  intro T ts
  induction ts generalizing T with
  | nil =>
    intro k fuel hown hk hfuel
    obtain ⟨fuel, rfl⟩ : ∃ m, fuel = m + 2 := ⟨fuel - 2, by simp at hfuel; omega⟩
    have hT : T ∈ own := by rw [hown]; simp
    have hmem : T ∈ L₀ :: own := List.mem_cons_of_mem _ hT
    have hne := h.addr_ne_first hT
    have hpr := (h.levels T hmem).price_eq
    have hcond : (true && decide (T.addr ≠ L₀.addr)) = true := by simpa using hne
    by_cases hb : better side T.price n.price
    · refine ⟨L₀ :: own, [], by simp, ?_, by simp, ?_⟩
      · rw [hown]
        exact better_concat hk hb
      · have hnext : (b.levelAt T.addr).nextEntry = some L₀.addr := by
          have h' := h
          rw [hown] at h'
          simpa using h'.next_addr (k := L₀ :: k)
        have haft : addAfter n (b.levelAt T.addr) = true :=
          (addAfter_iff hs hn _).mpr (by rw [hpr]; exact hb)
        rw [findTarget, if_pos hcond, level_ok (hlive T hmem), ok_bind, if_pos haft, hnext,
          deref_some, ok_bind, findTarget]
        simp [targetOf]
    · refine ⟨L₀ :: k, [T], by simp [hown], hk, by simpa using hb, ?_⟩
      have haft : ¬ addAfter n (b.levelAt T.addr) = true := by
        rw [addAfter_iff hs hn, hpr]; exact hb
      rw [findTarget, if_pos hcond, level_ok (hlive T hmem), ok_bind, if_neg haft, findTarget]
      simp [targetOf]
  | cons S ts ih =>
    intro k fuel hown hk hfuel
    obtain ⟨fuel, rfl⟩ : ∃ m, fuel = m + 2 := ⟨fuel - 2, by simp at hfuel; omega⟩
    have hT : T ∈ own := by rw [hown]; simp
    have hmem : T ∈ L₀ :: own := List.mem_cons_of_mem _ hT
    have hne := h.addr_ne_first hT
    have hpr := (h.levels T hmem).price_eq
    have hcond : (true && decide (T.addr ≠ L₀.addr)) = true := by simpa using hne
    by_cases hb : better side T.price n.price
    · have hnext : (b.levelAt T.addr).nextEntry = some S.addr := by
        have h' := h
        rw [hown] at h'
        simpa using h'.next_addr (k := L₀ :: k)
      have haft : addAfter n (b.levelAt T.addr) = true :=
        (addAfter_iff hs hn _).mpr (by rw [hpr]; exact hb)
      obtain ⟨k', ls, h1, h2, h3, h4⟩ := ih S (k ++ [T]) (fuel + 1) (by simp [hown])
        (better_concat hk hb) (by simp at hfuel ⊢; omega)
      refine ⟨k', ls, h1, h2, h3, ?_⟩
      rw [findTarget, if_pos hcond, level_ok (hlive T hmem), ok_bind, if_pos haft, hnext,
        deref_some, ok_bind]
      exact h4
    · refine ⟨L₀ :: k, T :: S :: ts, by simp [hown], hk, by simpa using hb, ?_⟩
      have haft : ¬ addAfter n (b.levelAt T.addr) = true := by
        rw [addAfter_iff hs hn, hpr]; exact hb
      rw [findTarget, if_pos hcond, level_ok (hlive T hmem), ok_bind, if_neg haft, findTarget]
      simp [targetOf]

theorem insertionPoint_spec {L₀ : LevelShape ι} (hs : side.IsBuyOrSell) (hn : n.side = side)
    (h : b.SideRep side (L₀ :: own)) (hlive : ∀ K ∈ L₀ :: own, b.LiveLevel K.addr)
    (hfuel : own.length < b.ordersAtPricePool.numElems) :
    ∃ k ls, L₀ :: own = k ++ ls ∧ (∀ K ∈ k, better side K.price n.price) ∧
      (∀ K ∈ ls.head?, ¬ better side K.price n.price) ∧
      b.insertionPoint n L₀.addr = .ok (targetOf L₀.addr ls) := by
  have hpr := (h.levels L₀ (by simp)).price_eq
  have hnext : (b.levelAt L₀.addr).nextEntry = (own ++ [L₀]).head?.map LevelShape.addr := by
    simpa using h.next_addr (k := [])
  by_cases hb : better side L₀.price n.price
  · have haft : addAfter n (b.levelAt L₀.addr) = true :=
      (addAfter_iff hs hn _).mpr (by rw [hpr]; exact hb)
    cases own with
    | nil =>
      refine ⟨[L₀], [], rfl, by simpa using hb, by simp, ?_⟩
      have hnext' : (b.levelAt L₀.addr).nextEntry = some L₀.addr := by simpa using hnext
      rw [insertionPoint, level_ok (hlive L₀ (by simp)), ok_bind, if_pos haft, hnext', deref_some,
        ok_bind, level_ok (hlive L₀ (by simp)), ok_bind, findTarget]
      simp [targetOf, haft]
    | cons T ts =>
      have hnext' : (b.levelAt L₀.addr).nextEntry = some T.addr := by simpa using hnext
      have hlT := hlive T (by simp)
      have hprT := (h.levels T (by simp)).price_eq
      by_cases hbT : better side T.price n.price
      · have haftT : addAfter n (b.levelAt T.addr) = true :=
          (addAfter_iff hs hn _).mpr (by rw [hprT]; exact hbT)
        obtain ⟨k, ls, h1, h2, h3, h4⟩ := findTarget_spec hs hn h hlive T ts []
          (b.ordersAtPricePool.numElems + 1) rfl (by simpa using hb) (by simp at hfuel; omega)
        refine ⟨k, ls, h1, h2, h3, ?_⟩
        rw [insertionPoint, level_ok (hlive L₀ (by simp)), ok_bind, if_pos haft, hnext',
          deref_some, ok_bind, level_ok hlT, ok_bind, haftT]
        exact h4
      · have haftT : addAfter n (b.levelAt T.addr) = false := by
          rw [Bool.eq_false_iff, ne_eq, addAfter_iff hs hn, hprT]; exact hbT
        refine ⟨[L₀], T :: ts, rfl, by simpa using hb, by simpa using hbT, ?_⟩
        rw [insertionPoint, level_ok (hlive L₀ (by simp)), ok_bind, if_pos haft, hnext',
          deref_some, ok_bind, level_ok hlT, ok_bind, haftT, findTarget]
        simp [targetOf]
  · have haft : ¬ addAfter n (b.levelAt L₀.addr) = true := by
      rw [addAfter_iff hs hn, hpr]; exact hb
    refine ⟨[], L₀ :: own, rfl, by simp, by simpa using hb, ?_⟩
    rw [insertionPoint, level_ok (hlive L₀ (by simp)), ok_bind, if_neg haft, findTarget]
    simp [targetOf]

theorem Rep.insertLevel (h : b.Rep side (k ++ ls) opp (L.addr :: ll) (L.orders.map Prod.fst ++ lo))
    (hL : b.LevelRep side L) (hin : PriceInRange L.price)
    (hk : ∀ K ∈ k, better side K.price L.price) (hls : ∀ K ∈ ls, better side L.price K.price)
    (hopp : ∀ K ∈ opp, K.price ≠ L.price)
    (hring : IsRing (fun a => (b'.levelAt a).nextEntry) (fun a => (b'.levelAt a).prevEntry)
      (addrs (k ++ L :: ls)))
    (hkeep : ∀ a ∈ addrs opp, (b'.levelAt a).nextEntry = (b.levelAt a).nextEntry ∧
      (b'.levelAt a).prevEntry = (b.levelAt a).prevEntry)
    (hfields : ∀ a, (b'.levelAt a).side = (b.levelAt a).side ∧
      (b'.levelAt a).price = (b.levelAt a).price ∧
      (b'.levelAt a).firstOrder = (b.levelAt a).firstOrder)
    (hpool : b'.orderPool = b.orderPool)
    (hlp : ∀ live, b'.ordersAtPricePool.Holds live ↔ b.ordersAtPricePool.Holds live)
    (hlc : b'.ordersAtPricePool.numElems = b.ordersAtPricePool.numElems)
    (hhead : b'.head side = (k ++ L :: ls).head?.map LevelShape.addr)
    (hhead' : b'.head side.opposite = b.head side.opposite)
    (hidx : b'.priceOrdersAtPrice =
      Function.update b.priceOrdersAtPrice (priceToIndex L.price) (some L.addr)) :
    b'.Rep side (k ++ L :: ls) opp ll lo := by
  have hord : ∀ a, b'.orderAt a = b.orderAt a := fun a => by rw [orderAt, orderAt, hpool]
  have hlev : ∀ s K, b.LevelRep s K → b'.LevelRep s K := fun s K hK =>
    hK.congr (hfields _).1 (hfields _).2.1 (hfields _).2.2 fun e _ => hord e.1
  have hown : ∀ K ∈ k ++ ls, K.price ≠ L.price := by
    intro K hK he
    rcases List.mem_append.mp hK with hK | hK
    · exact better_irrefl side L.price (he ▸ hk K hK)
    · exact better_irrefl side L.price (he ▸ hls K hK)
  have hperm : (k ++ L :: ls ++ opp).Perm (L :: (k ++ ls ++ opp)) :=
    List.perm_middle.append_right opp
  have hmem : ∀ K, K ∈ k ++ L :: ls ++ opp ↔ K = L ∨ K ∈ k ++ ls ++ opp := by
    intro K
    rw [hperm.mem_iff, List.mem_cons]
  have hnew : ∀ K ∈ k ++ ls ++ opp, K.price ≠ L.price := by
    intro K hK
    rcases List.mem_append.mp hK with hK | hK
    · exact hown K hK
    · exact hopp K hK
  refine ⟨h.isSide, ⟨hhead, hring, ?_, ?_⟩, ⟨?_, ?_, h.oppSide.sorted, ?_⟩, ?_, ?_, ?_, ?_, ?_,
    hlc.trans h.levelCap, by rw [hpool]; exact h.orderCap⟩
  · have hs := h.ownSide.sorted
    simp only [List.map_append, List.map_cons, List.pairwise_append, List.pairwise_cons,
      List.mem_map, List.mem_cons] at hs ⊢
    refine ⟨hs.1, ⟨?_, hs.2.1⟩, ?_⟩
    · rintro p ⟨K, hK, rfl⟩
      exact hls K hK
    · rintro p ⟨K, hK, rfl⟩ q (rfl | hq)
      · exact hk K hK
      · exact hs.2.2 K.price ⟨K, hK, rfl⟩ q hq
  · intro K hK
    rcases List.mem_append.mp hK with hK | hK
    · exact hlev side K (h.ownSide.levels K (by simp [hK]))
    rcases List.mem_cons.mp hK with rfl | hK
    · exact hlev side _ hL
    · exact hlev side K (h.ownSide.levels K (by simp [hK]))
  · rw [hhead', h.oppSide.head_eq]
  · exact h.oppSide.ring.congr (fun a ha => (hkeep a ha).1) (fun a ha => (hkeep a ha).2)
  · exact fun K hK => hlev _ K (h.oppSide.levels K hK)
  · intro i a
    rw [hidx, Function.update_apply]
    simp only [hmem, or_and_right, exists_or, exists_eq_left]
    by_cases hi : i = priceToIndex L.price
    · subst hi
      simp only [if_true, Option.some.injEq, and_true]
      constructor
      · exact fun he => .inl he
      · rintro (he | ⟨K, hK, -, hi⟩)
        · exact he
        · exact absurd (priceToIndex_inj (h.inRange K hK) hin hi) (hnew K hK)
    · rw [if_neg hi, h.index]
      constructor
      · exact fun he => .inr he
      · rintro (⟨-, he⟩ | he)
        · exact absurd he.symm hi
        · exact he
  · intro K hK
    rcases (hmem K).mp hK with rfl | hK
    · exact hin
    · exact h.inRange K hK
  · refine (hperm.map LevelShape.price).nodup_iff.mpr (List.nodup_cons.mpr ⟨?_, h.prices⟩)
    intro hm
    obtain ⟨K, hK, he⟩ := List.mem_map.mp hm
    exact hnew K hK he
  · rw [hlp]
    refine h.levelPool.perm ?_
    refine List.Perm.trans ?_ ((hperm.map LevelShape.addr).symm.append_left ll)
    exact List.perm_middle.symm
  · rw [hpool]
    refine h.orderPool.perm ?_
    refine List.Perm.trans ?_ ((orderAddrs_middle k ls opp L).symm.append_left lo)
    rw [List.append_assoc]
    exact List.perm_append_comm_assoc _ _ _

structure SameFields (b b' : BookStore ι) : Prop where
  fields : ∀ a, (b'.levelAt a).side = (b.levelAt a).side ∧
    (b'.levelAt a).price = (b.levelAt a).price ∧
    (b'.levelAt a).firstOrder = (b.levelAt a).firstOrder
  orderPool : b'.orderPool = b.orderPool
  holds : ∀ live, b'.ordersAtPricePool.Holds live ↔ b.ordersAtPricePool.Holds live
  numElems : b'.ordersAtPricePool.numElems = b.ordersAtPricePool.numElems
  live : ∀ a, b'.LiveLevel a ↔ b.LiveLevel a

theorem SameFields.refl (b : BookStore ι) : SameFields b b :=
  ⟨fun _ => ⟨rfl, rfl, rfl⟩, rfl, fun _ => Iff.rfl, rfl, fun _ => Iff.rfl⟩

theorem SameFields.trans {c : BookStore ι} (h : SameFields b b') (h' : SameFields b' c) :
    SameFields b c where
  fields := fun a => ⟨(h'.fields a).1.trans (h.fields a).1,
    (h'.fields a).2.1.trans (h.fields a).2.1, (h'.fields a).2.2.trans (h.fields a).2.2⟩
  orderPool := h'.orderPool.trans h.orderPool
  holds := fun live => (h'.holds live).trans (h.holds live)
  numElems := h'.numElems.trans h.numElems
  live := fun a => (h'.live a).trans (h.live a)

theorem SameFields.modLevel (b : BookStore ι) (a : ℕ) (f : OrdersAtPrice → OrdersAtPrice)
    (hside : ∀ t, (f t).side = t.side) (hprice : ∀ t, (f t).price = t.price)
    (hfirst : ∀ t, (f t).firstOrder = t.firstOrder) : SameFields b (b.modLevel a f) where
  fields := fun x => ⟨b.levelAt_modLevel_field a x f OrdersAtPrice.side hside,
    b.levelAt_modLevel_field a x f OrdersAtPrice.price hprice,
    b.levelAt_modLevel_field a x f OrdersAtPrice.firstOrder hfirst⟩
  orderPool := rfl
  holds := b.holds_modLevel a f
  numElems := rfl
  live := fun x => b.liveLevel_modLevel a x f

theorem SameFields.putNextEntry (b : BookStore ι) (a : ℕ) (p : Option ℕ) :
    SameFields b (b.putNextEntry a p) :=
  .modLevel b a _ (fun _ => rfl) (fun _ => rfl) fun _ => rfl

theorem SameFields.putPrevEntry (b : BookStore ι) (a : ℕ) (p : Option ℕ) :
    SameFields b (b.putPrevEntry a p) :=
  .modLevel b a _ (fun _ => rfl) (fun _ => rfl) fun _ => rfl

theorem SameFields.setHead (b : BookStore ι) (s : Side) (p : Option ℕ) :
    SameFields b (b.setHead s p) where
  fields := fun x => by simp
  orderPool := by simp
  holds := fun live => by simp
  numElems := by simp
  live := fun x => by simp

theorem SameFields.setOrdersAtPrice (b : BookStore ι) (price : ℤ) (p : Option ℕ) :
    SameFields b (b.setOrdersAtPrice price p) :=
  ⟨fun _ => ⟨rfl, rfl, rfl⟩, rfl, fun _ => Iff.rfl, rfl, fun _ => Iff.rfl⟩

structure Spliced (b b' : BookStore ι) (x p s : ℕ) : Prop where
  same : SameFields b b'
  next_new : (b'.levelAt x).nextEntry = some s
  next_prev : (b'.levelAt p).nextEntry = some x
  next_other : ∀ a, a ≠ x → a ≠ p → (b'.levelAt a).nextEntry = (b.levelAt a).nextEntry
  prev_new : (b'.levelAt x).prevEntry = some p
  prev_next : (b'.levelAt s).prevEntry = some x
  prev_other : ∀ a, a ≠ x → a ≠ s → (b'.levelAt a).prevEntry = (b.levelAt a).prevEntry
  head : ∀ t, b'.head t = b.head t
  index : b'.priceOrdersAtPrice = b.priceOrdersAtPrice

theorem insertBefore_spliced {x p s : ℕ} (hn : b.LiveLevel x) (hp : b.LiveLevel p)
    (hs : b.LiveLevel s) (hps : (b.levelAt s).prevEntry = some p) (hne : x ≠ s)
    (hnp : x ≠ p) :
    ∃ b', b.insertBefore x s = .ok b' ∧ Spliced b b' x p s := by
  refine ⟨(((b.putPrevEntry x (some p)).putNextEntry x (some s)).putNextEntry p
    (some x)).putPrevEntry s (some x), ?_, ?_⟩
  · simp only [insertBefore, level_ok hs, ok_bind, hps, setPrevEntry_ok _ hn]
    rw [setNextEntry_ok _ (by simpa using hn), ok_bind, level_ok (by simpa using hs), ok_bind,
      prevEntry_putNextEntry, prevEntry_putPrevEntry, if_neg hne.symm, hps, deref_some, ok_bind,
      setNextEntry_ok _ (by simpa using hp), ok_bind, setPrevEntry_ok _ (by simpa using hs)]
  · refine ⟨(SameFields.putPrevEntry ..).trans ((SameFields.putNextEntry ..).trans
      ((SameFields.putNextEntry ..).trans (SameFields.putPrevEntry ..))), ?_, ?_, ?_, ?_, ?_, ?_,
      fun _ => rfl, rfl⟩
    · simp [nextEntry_putNextEntry, hnp]
    · simp [nextEntry_putNextEntry]
    · intro a ha hap
      simp [nextEntry_putNextEntry, ha, hap]
    · simp [prevEntry_putPrevEntry, hne]
    · simp [prevEntry_putPrevEntry]
    · intro a ha has
      simp [prevEntry_putPrevEntry, ha, has]

theorem insertAfter_spliced {x p s : ℕ} (hn : b.LiveLevel x) (hp : b.LiveLevel p)
    (hs : b.LiveLevel s) (hps : (b.levelAt p).nextEntry = some s) (hne : x ≠ s)
    (hnp : x ≠ p) :
    ∃ b', b.insertAfter x p = .ok b' ∧ Spliced b b' x p s := by
  refine ⟨(((b.putPrevEntry x (some p)).putPrevEntry s (some x)).putNextEntry x
    (some s)).putNextEntry p (some x), ?_, ?_⟩
  · simp only [insertAfter, setPrevEntry_ok _ hn, ok_bind]
    rw [level_ok (by simpa using hp), ok_bind, nextEntry_putPrevEntry, hps, deref_some, ok_bind,
      setPrevEntry_ok _ (by simpa using hs), ok_bind, level_ok (by simpa using hp), ok_bind,
      nextEntry_putPrevEntry, nextEntry_putPrevEntry, hps, setNextEntry_ok _ (by simpa using hn),
      ok_bind, setNextEntry_ok _ (by simpa using hp)]
  · refine ⟨(SameFields.putPrevEntry ..).trans ((SameFields.putPrevEntry ..).trans
      ((SameFields.putNextEntry ..).trans (SameFields.putNextEntry ..))), ?_, ?_, ?_, ?_, ?_, ?_,
      fun _ => rfl, rfl⟩
    · simp [nextEntry_putNextEntry, hnp]
    · simp [nextEntry_putNextEntry]
    · intro a ha hap
      simp [nextEntry_putNextEntry, ha, hap]
    · simp [prevEntry_putPrevEntry, hne]
    · simp [prevEntry_putPrevEntry]
    · intro a ha has
      simp [prevEntry_putPrevEntry, ha, has]

theorem promote_keep {new target best : ℕ} (hs : side.IsBuyOrSell) (hn : n.side = side)
    (hl : b.LiveLevel best) (hb : ¬ better side n.price (b.levelAt best).price) :
    b.promote n new target best = .ok b := by
  have hno : ¬ beats n (b.levelAt best) = true := by rw [beats_iff hs hn]; exact hb
  rw [promote, level_ok hl, ok_bind, if_neg hno]
  rfl

theorem promote_head {new target best : ℕ} (hs : side.IsBuyOrSell) (hn : n.side = side)
    (hl : b.LiveLevel best) (ht : b.LiveLevel target)
    (hb : better side n.price (b.levelAt best).price)
    (hne : (b.levelAt target).nextEntry ≠ some best) :
    b.promote n new target best =
      .ok ((b.putNextEntry target (b.levelAt target).nextEntry).setHead side (some new)) := by
  have hyes : beats n (b.levelAt best) = true := (beats_iff hs hn _).mpr hb
  rw [promote, level_ok hl, ok_bind, if_pos hyes, level_ok ht, ok_bind, if_neg hne,
    setNextEntry_ok _ ht, ok_bind, hn]
  rfl

theorem SideRep.setOrdersAtPrice (h : b.SideRep side own) (price : ℤ) (p : Option ℕ) :
    (b.setOrdersAtPrice price p).SideRep side own :=
  ⟨h.head_eq, h.ring, h.sorted, fun L hL =>
    (h.levels L hL).congr rfl rfl rfl fun _ _ => rfl⟩

theorem Rep.looseLevel_notMem {a : ℕ} (h : b.Rep side own opp (a :: ll) lo) :
    a ∉ addrs (own ++ opp) :=
  fun hm => (List.nodup_append.mp h.levelPool.nodup).2.2 a (List.mem_cons_self ..) a hm rfl

theorem Rep.own_length_lt (h : b.Rep side own opp ll lo) :
    own.length < b.ordersAtPricePool.numElems := by
  have := h.levelPool.length_lt
  simp only [addrs, List.length_append, List.length_map] at this
  omega

theorem SideRep.worse_tail (h : b.SideRep side (k ++ ls)) {price : ℤ}
    (hne : ∀ K ∈ ls, K.price ≠ price) (hhead : ∀ K ∈ ls.head?, ¬ better side K.price price) :
    ∀ K ∈ ls, better side price K.price := by
  cases ls with
  | nil => simp
  | cons T ts =>
    have hT : better side price T.price := by
      rcases better_trichotomy side T.price price with hb | hb | hb
      · exact absurd hb (hhead T rfl)
      · exact absurd hb (hne T (by simp))
      · exact hb
    have hs := h.sorted
    simp only [List.map_append, List.map_cons, List.pairwise_append, List.pairwise_cons] at hs
    intro K hK
    rcases List.mem_cons.mp hK with rfl | hK
    · exact hT
    · exact better_trans hT (hs.2.1.1 K.price (List.mem_map_of_mem hK))

theorem addOrdersAtPrice_empty {a : ℕ} (hl : b.LiveLevel a)
    (hh : b.head (b.levelAt a).side = none) :
    b.addOrdersAtPrice a = .ok ((((b.setOrdersAtPrice (b.levelAt a).price (some a)).setHead
      (b.levelAt a).side (some a)).putNextEntry a (some a)).putPrevEntry a (some a)) := by
  simp only [BookStore.addOrdersAtPrice, level_ok hl, ok_bind, head_setOrdersAtPrice, hh]
  rw [setNextEntry_ok _ (by simpa using hl), ok_bind, setPrevEntry_ok _ (by simpa using hl)]

theorem Rep.addOrdersAtPrice_empty (h : b.Rep side [] opp (L.addr :: ll)
      (L.orders.map Prod.fst ++ lo)) (hL : b.LevelRep side L) (hin : PriceInRange L.price)
    (hnew : ∀ K ∈ opp, K.price ≠ L.price) :
    ∃ b', b.addOrdersAtPrice L.addr = .ok b' ∧ b'.Rep side [L] opp ll lo := by
  have hl : b.LiveLevel L.addr := h.levelPool.live (by simp)
  have hnot := h.looseLevel_notMem
  refine ⟨_, BookStore.addOrdersAtPrice_empty hl (by rw [hL.side_eq]; exact h.ownSide.head_eq), ?_⟩
  rw [hL.side_eq, hL.price_eq]
  have hsame : SameFields b ((((b.setOrdersAtPrice L.price (some L.addr)).setHead side
      (some L.addr)).putNextEntry L.addr (some L.addr)).putPrevEntry L.addr (some L.addr)) :=
    (SameFields.setOrdersAtPrice ..).trans ((SameFields.setHead ..).trans
      ((SameFields.putNextEntry ..).trans (SameFields.putPrevEntry ..)))
  refine Rep.insertLevel (k := []) h hL hin (by simp) (by simp) hnew ?_ ?_ hsame.fields
    hsame.orderPool hsame.holds hsame.numElems ?_ ?_ ?_
  · exact isRing_singleton (by simp [nextEntry_putNextEntry]) (by simp [prevEntry_putPrevEntry])
  · intro a ha
    have hne : a ≠ L.addr := fun he => hnot (he ▸ by simpa using ha)
    simp [nextEntry_putNextEntry, prevEntry_putPrevEntry, hne]
  · exact head_setHead_self _ _ _
  · exact head_setHead_opposite _ _ h.isSide
  · change ((b.setOrdersAtPrice L.price (some L.addr)).setHead side _).priceOrdersAtPrice = _
    rw [priceOrdersAtPrice_setHead]
    rfl

theorem Rep.addOrdersAtPrice_cons {L₀ : LevelShape ι} (h : b.Rep side (L₀ :: own) opp
      (L.addr :: ll) (L.orders.map Prod.fst ++ lo)) (hL : b.LevelRep side L)
    (hin : PriceInRange L.price) (hnew : ∀ K ∈ L₀ :: own ++ opp, K.price ≠ L.price) :
    ∃ k ls b', L₀ :: own = k ++ ls ∧ (∀ K ∈ k, better side K.price L.price) ∧
      (∀ K ∈ ls, better side L.price K.price) ∧ b.addOrdersAtPrice L.addr = .ok b' ∧
      b'.Rep side (k ++ L :: ls) opp ll lo := by
  set c := b.setOrdersAtPrice L.price (some L.addr) with hc
  have hl : b.LiveLevel L.addr := h.levelPool.live (by simp)
  have hnot := h.looseLevel_notMem
  have hlive : ∀ K ∈ L₀ :: own, b.LiveLevel K.addr := fun K hK =>
    h.liveLevel (List.mem_append_left _ hK)
  have hliveA : ∀ a ∈ addrs (L₀ :: own), b.LiveLevel a := by
    intro a ha
    obtain ⟨K, hK, rfl⟩ := List.mem_map.mp ha
    exact hlive K hK
  have hside : c.SideRep side (L₀ :: own) := h.ownSide.setOrdersAtPrice _ _
  have hfuel : own.length < c.ordersAtPricePool.numElems := by
    have := h.own_length_lt
    simp at this
    change own.length < b.ordersAtPricePool.numElems
    omega
  have hnew' : ∀ a ∈ addrs (L₀ :: own), a ≠ L.addr := by
    intro a ha he
    refine hnot (he ▸ ?_)
    rw [addrs, List.map_append]
    exact List.mem_append_left _ ha
  obtain ⟨k, ls, hsplit, hk, hhd, hpoint⟩ := insertionPoint_spec (n := b.levelAt L.addr) h.isSide
    hL.side_eq hside hlive hfuel
  rw [hL.price_eq] at hk hhd
  have hls : ∀ K ∈ ls, better side L.price K.price :=
    SideRep.worse_tail (k := k) (hsplit ▸ h.ownSide)
      (fun K hK => hnew K (by rw [hsplit]; simp [hK])) hhd
  have hh : c.head (b.levelAt L.addr).side = some L₀.addr := by
    rw [hL.side_eq]
    exact hside.head_eq
  have hoppne : ∀ a ∈ addrs opp, a ≠ L.addr ∧ a ∉ addrs (L₀ :: own) := by
    intro a ha
    have hnd := (List.nodup_append.mp h.levelPool.nodup).2.1
    rw [addrs, List.map_append] at hnd
    refine ⟨fun he => hnot ?_, fun hm => (List.nodup_append.mp hnd).2.2 a hm a ha rfl⟩
    rw [addrs, List.map_append, ← he]
    exact List.mem_append_right _ ha
  have hprices : ∀ K ∈ opp, K.price ≠ L.price := fun K hK => hnew K (by simp [hK])
  have hring := h.ownSide.ring
  have hLout : L.addr ∉ addrs (L₀ :: own) := fun hm => hnew' _ hm rfl
  have hsamec : SameFields b c := SameFields.setOrdersAtPrice ..
  refine ⟨k, ls, ?_⟩
  cases ls with
  | nil =>
    -- worse than every level: the new one goes behind the last, which the ring keeps before the best
    obtain ⟨p, hpm, hp⟩ := hring.exists_prev (List.mem_cons_self ..)
    have hps : (b.levelAt p).nextEntry = some L₀.addr := hring.next_of_prev (by simp [addrs]) hp
    obtain ⟨b', hins, hsp⟩ := insertAfter_spliced (b := c) (x := L.addr) (p := p)
      (s := L₀.addr) hl (hliveA p hpm) (hlive L₀ (by simp)) hps
      (hnew' _ (by simp [addrs])).symm (hnew' p hpm).symm
    have hk' : k = L₀ :: own := by simpa using hsplit.symm
    subst hk'
    refine ⟨b', by simp, hk, hls, ?_, ?_⟩
    · have hwrap : c.wrapTarget L₀.addr L₀.addr = .ok p := by
        rw [wrapTarget, if_pos rfl, level_ok ((hsamec.live _).mpr (hlive L₀ (by simp))), ok_bind]
        exact congrArg deref hp
      simp only [BookStore.addOrdersAtPrice, level_ok hl, ok_bind, hL.price_eq, ← hc, hh, hpoint,
        targetOf, if_true, hwrap]
      exact hins
    · have hsame := hsamec.trans hsp.same
      refine Rep.insertLevel (k := L₀ :: own) (by simpa using h) hL hin hk hls hprices ?_ ?_
        hsame.fields hsame.orderPool hsame.holds hsame.numElems ?_ ?_ ?_
      · have hi := hring.insert_tail (x := L.addr) hLout hp hsp.next_new hsp.next_prev
          (fun a ha => hsp.next_other a (hnew' a ha)) hsp.prev_next hsp.prev_new
          (fun a ha => hsp.prev_other a (hnew' a ha))
        simpa [addrs] using hi
      · intro a ha
        obtain ⟨hne, hno⟩ := hoppne a ha
        exact ⟨hsp.next_other a hne fun he => hno (he ▸ hpm),
          hsp.prev_other a hne fun he => hno (by simp [addrs, he])⟩
      · rw [hsp.head]
        exact h.ownSide.head_eq
      · rw [hsp.head]
        rfl
      · exact hsp.index
  | cons T ts =>
    have hTm : T.addr ∈ addrs (L₀ :: own) := by rw [hsplit]; simp [addrs]
    obtain ⟨p, hpm, hp⟩ := hring.exists_prev hTm
    obtain ⟨d, hins, hsp⟩ := insertBefore_spliced (b := c) (x := L.addr) (p := p)
      (s := T.addr) hl (hliveA p hpm) (hliveA _ hTm) hp (hnew' _ hTm).symm (hnew' p hpm).symm
    have hsame := hsamec.trans hsp.same
    have hi : IsRing (fun a => (d.levelAt a).nextEntry) (fun a => (d.levelAt a).prevEntry)
        (addrs (k ++ L :: T :: ts)) := by
      have hr := hring
      have ho := hLout
      rw [hsplit] at hr ho hnew'
      simp only [addrs, List.map_append, List.map_cons] at hr ho hnew' ⊢
      exact hr.insert ho hp hsp.next_new hsp.next_prev
        (fun a ha => hsp.next_other a (hnew' a ha)) hsp.prev_next hsp.prev_new
        (fun a ha => hsp.prev_other a (hnew' a ha))
    have hbest : d.LiveLevel L₀.addr := (hsame.live _).mpr (hlive L₀ (by simp))
    have hbprice : (d.levelAt L₀.addr).price = L₀.price :=
      (hsame.fields _).2.1.trans (h.ownSide.levels L₀ (by simp)).price_eq
    have hexec : b.addOrdersAtPrice L.addr =
        d.promote (b.levelAt L.addr) L.addr T.addr L₀.addr := by
      simp only [BookStore.addOrdersAtPrice, level_ok hl, ok_bind, hL.price_eq, ← hc, hh, hpoint,
        targetOf, Bool.false_eq_true, if_false, hins]
    have hkeep : ∀ a ∈ addrs opp, (d.levelAt a).nextEntry = (b.levelAt a).nextEntry ∧
        (d.levelAt a).prevEntry = (b.levelAt a).prevEntry := by
      intro a ha
      obtain ⟨hne, hno⟩ := hoppne a ha
      exact ⟨hsp.next_other a hne fun he => hno (he ▸ hpm),
        hsp.prev_other a hne fun he => hno (he ▸ hTm)⟩
    rw [hsplit] at h
    cases k with
    | nil =>
      obtain ⟨rfl, rfl⟩ : L₀ = T ∧ own = ts := by simpa using hsplit
      have hbet : better side (b.levelAt L.addr).price (d.levelAt L₀.addr).price := by
        rw [hL.price_eq, hbprice]
        exact hls L₀ (by simp)
      have hnext : (d.levelAt L₀.addr).nextEntry ≠ some L₀.addr := by
        intro he
        have hr : IsRing _ _ (L₀.addr :: (addrs own ++ [L.addr])) :=
          IsRing.rotate (k := [L.addr]) (t := addrs (L₀ :: own)) hi
        have := hr.self_of_next_self he
        simp at this
      refine ⟨_, hsplit, hk, hls,
        hexec.trans (promote_head h.isSide hL.side_eq hbest hbest hbet hnext), ?_⟩
      have hsame' := hsame.trans ((SameFields.putNextEntry d L₀.addr
        (d.levelAt L₀.addr).nextEntry).trans (SameFields.setHead _ side (some L.addr)))
      have hnx : ∀ a, (((d.putNextEntry L₀.addr (d.levelAt L₀.addr).nextEntry).setHead side
          (some L.addr)).levelAt a).nextEntry = (d.levelAt a).nextEntry := by
        intro a
        rw [levelAt_setHead, nextEntry_putNextEntry]
        split_ifs with he
        · rw [he]
        · rfl
      refine Rep.insertLevel (k := []) h hL hin hk hls hprices ?_ ?_ hsame'.fields
        hsame'.orderPool hsame'.holds hsame'.numElems ?_ ?_ ?_
      · exact hi.congr (fun a _ => hnx a) (fun a _ => by simp)
      · intro a ha
        rw [hnx a]
        exact ⟨(hkeep a ha).1, by simpa using (hkeep a ha).2⟩
      · exact head_setHead_self _ _ _
      · rw [head_setHead_opposite _ _ h.isSide]
        exact hsp.head _
      · rw [priceOrdersAtPrice_setHead]
        exact hsp.index
    | cons K k =>
      obtain rfl : L₀ = K := by
        simp only [List.cons_append, List.cons.injEq] at hsplit
        exact hsplit.1
      have hbet : ¬ better side (b.levelAt L.addr).price (d.levelAt L₀.addr).price := by
        rw [hL.price_eq, hbprice]
        exact fun hb => better_irrefl side L.price (better_trans hb (hk L₀ (by simp)))
      refine ⟨d, hsplit, hk, hls, hexec.trans (promote_keep h.isSide hL.side_eq hbest hbet), ?_⟩
      refine Rep.insertLevel (k := L₀ :: k) h hL hin hk hls hprices hi hkeep hsame.fields
        hsame.orderPool hsame.holds hsame.numElems ?_ ?_ ?_
      · rw [hsp.head]
        exact h.ownSide.head_eq
      · rw [hsp.head]
        rfl
      · exact hsp.index

theorem Rep.ofLevelPool (h : b.Rep side own opp ll lo) {ll' : List ℕ}
    {pool : MemPool OrdersAtPrice} (hlp : pool.Holds (ll' ++ addrs (own ++ opp)))
    (hcap : pool.numElems = b.ordersAtPricePool.numElems)
    (hlev : ∀ K ∈ own ++ opp, (pool.store K.addr).object = b.levelAt K.addr) :
    { b with ordersAtPricePool := pool }.Rep side own opp ll' lo := by
  have haddr : ∀ a ∈ addrs (own ++ opp), (pool.store a).object = b.levelAt a := by
    intro a ha
    obtain ⟨K, hK, rfl⟩ := List.mem_map.mp ha
    exact hlev K hK
  have hkeep : ∀ s, ∀ K ∈ own ++ opp, b.LevelRep s K →
      { b with ordersAtPricePool := pool }.LevelRep s K := by
    intro s K hK hR
    have hl := hlev K hK
    exact hR.congr (congrArg OrdersAtPrice.side hl) (congrArg OrdersAtPrice.price hl)
      (congrArg OrdersAtPrice.firstOrder hl) fun _ _ => rfl
  have hside : ∀ s (ks : List (LevelShape ι)), (∀ K ∈ ks, K ∈ own ++ opp) → b.SideRep s ks →
      { b with ordersAtPricePool := pool }.SideRep s ks := by
    intro s ks hks hS
    refine ⟨hS.head_eq, hS.ring.congr ?_ ?_, hS.sorted,
      fun K hK => hkeep s K (hks K hK) (hS.levels K hK)⟩
    all_goals
      intro a ha
      obtain ⟨K, hK, rfl⟩ := List.mem_map.mp ha
    · exact congrArg OrdersAtPrice.nextEntry (hlev K (hks K hK))
    · exact congrArg OrdersAtPrice.prevEntry (hlev K (hks K hK))
  exact ⟨h.isSide, hside _ own (fun K hK => by simp [hK]) h.ownSide,
    hside _ opp (fun K hK => by simp [hK]) h.oppSide, h.index, h.inRange, h.prices, hlp,
    h.orderPool, hcap.trans h.levelCap, h.orderCap⟩

theorem length_prices_lt {ps : List ℤ} (hnd : ps.Nodup) (hin : ∀ p ∈ ps, PriceInRange p) :
    ps.length < meMaxPriceLevels := by
  have hsub : ps.toFinset ⊆ Finset.Ioo 0 (meMaxPriceLevels : ℤ) := by
    intro p hp
    rw [Finset.mem_Ioo]
    exact hin p (List.mem_toFinset.mp hp)
  have hcard := Finset.card_le_card hsub
  rw [List.toFinset_card_of_nodup hnd, Int.card_Ioo] at hcard
  have : (0 : ℕ) < meMaxPriceLevels := by decide
  omega

theorem Rep.linkOrder_new {a : ℕ} (h : b.Rep side own opp [] [a])
    (hside : (b.orderAt a).side = side) (hin : PriceInRange (b.orderAt a).price)
    (hnew : ∀ K ∈ own ++ opp, K.price ≠ (b.orderAt a).price) :
    ∃ k ls l b', own = k ++ ls ∧ (∀ K ∈ k, better side K.price (b.orderAt a).price) ∧
      (∀ K ∈ ls, better side (b.orderAt a).price K.price) ∧ b.linkOrder a = .ok b' ∧
      b'.Rep side (k ++ ⟨l, (b.orderAt a).price, [(a, (b.orderAt a).toOrderInfo)]⟩ :: ls) opp [] []
      := by
  have hlive : b.LiveOrder a := h.orderPool.live (by simp)
  have hnot : a ∉ orderAddrs (own ++ opp) := h.loose_notMem (List.mem_singleton_self a)
  set c := (b.putPrevOrder a (some a)).putNextOrder a (some a) with hc
  have hca : (c.orderAt a).toOrderInfo = (b.orderAt a).toOrderInfo := by simp [hc]
  have hrepc : c.Rep side own opp [] [a] := by
    refine h.ofOrderPool (by simpa [hc] using h.orderPool) rfl ?_
    intro e he
    have hea : e.1 ≠ a := fun hea => hnot (hea ▸ List.mem_map_of_mem he)
    change c.orderAt e.1 = _
    simp [hc, putPrevOrder, putNextOrder, orderAt_modOrder, hea]
  have hroom : ([] ++ addrs (own ++ opp)).length + 1 < b.ordersAtPricePool.numElems := by
    have hnd : ((b.orderAt a).price :: (own ++ opp).map LevelShape.price).Nodup := by
      refine List.nodup_cons.mpr ⟨fun hm => ?_, h.prices⟩
      obtain ⟨K, hK, he⟩ := List.mem_map.mp hm
      exact hnew K hK he
    have := length_prices_lt hnd (by
      intro p hp
      rcases List.mem_cons.mp hp with rfl | hp
      · exact hin
      · obtain ⟨K, hK, rfl⟩ := List.mem_map.mp hp
        exact h.inRange K hK)
    rw [h.levelCap]
    simpa [addrs] using this
  obtain ⟨pool, hal, hholds, hstore, hnum, -⟩ := MemPool.allocate_ok h.levelPool hroom
    ⟨(b.orderAt a).side, (b.orderAt a).price, some a, none, none⟩
  set l := b.ordersAtPricePool.nextFreeIndex with hl
  set L : LevelShape ι := ⟨l, (b.orderAt a).price, [(a, (b.orderAt a).toOrderInfo)]⟩ with hLdef
  have hrepd : { c with ordersAtPricePool := pool }.Rep side own opp (L.addr :: [])
      (L.orders.map Prod.fst ++ []) := by
    refine hrepc.ofLevelPool hholds hnum ?_
    intro K hK
    have hne : K.addr ≠ l := by
      intro he
      refine h.levelPool.next_notMem ?_
      rw [← hl, ← he]
      exact List.mem_append_right _ (List.mem_map_of_mem hK)
    rw [hstore, MemPool.store_put, if_neg hne]
    rfl
  have hlevel : ({ c with ordersAtPricePool := pool } : BookStore ι).levelAt l =
      ⟨(b.orderAt a).side, (b.orderAt a).price, some a, none, none⟩ := by
    simp [levelAt, hstore]
  have hLrep : { c with ordersAtPricePool := pool }.LevelRep side L := by
    refine ⟨?_, ?_, ?_, by simp [hLdef], ?_, ?_⟩
    · exact (congrArg OrdersAtPrice.side hlevel).trans hside
    · exact congrArg OrdersAtPrice.price hlevel
    · exact congrArg OrdersAtPrice.firstOrder hlevel
    · refine isRing_singleton ?_ ?_
      · change (c.orderAt a).nextOrder = _
        simp [hc, nextOrder_putNextOrder]
      · change (c.orderAt a).prevOrder = _
        simp [hc, prevOrder_putPrevOrder]
    · intro e he
      rw [List.mem_singleton.mp he]
      exact ⟨hca, hside, rfl⟩
  have hexec : b.linkOrder a = { c with ordersAtPricePool := pool }.addOrdersAtPrice l := by
    rw [linkOrder, order_ok hlive, ok_bind, h.getOrdersAtPrice_none hin hnew]
    simp only [setPrevOrder_ok _ hlive, ok_bind]
    rw [setNextOrder_ok _ (by simpa using hlive), ok_bind, ← hc,
      show c.ordersAtPricePool = b.ordersAtPricePool from rfl, hal, ok_bind]
  cases own with
  | nil =>
    obtain ⟨b', hadd, hrep⟩ := hrepd.addOrdersAtPrice_empty hLrep hin
      (fun K hK => hnew K (by simp [hK]))
    exact ⟨[], [], l, b', rfl, by simp, by simp, hexec.trans hadd, hrep⟩
  | cons L₀ own =>
    obtain ⟨k, ls, b', hsplit, hk, hls, hadd, hrep⟩ := hrepd.addOrdersAtPrice_cons hLrep hin hnew
    exact ⟨k, ls, l, b', hsplit, hk, hls, hexec.trans hadd, hrep⟩

theorem Rep.removeLevel (h : b.Rep side (k ++ L :: ls) opp ll lo) (hsame : SameFields b b')
    (hring : IsRing (fun a => (b'.levelAt a).nextEntry) (fun a => (b'.levelAt a).prevEntry)
      (addrs (k ++ ls)))
    (hkeep : ∀ a ∈ addrs opp, (b'.levelAt a).nextEntry = (b.levelAt a).nextEntry ∧
      (b'.levelAt a).prevEntry = (b.levelAt a).prevEntry)
    (hhead : b'.head side = (k ++ ls).head?.map LevelShape.addr)
    (hhead' : b'.head side.opposite = b.head side.opposite)
    (hidx : b'.priceOrdersAtPrice =
      Function.update b.priceOrdersAtPrice (priceToIndex L.price) none) :
    b'.Rep side (k ++ ls) opp (L.addr :: ll) (L.orders.map Prod.fst ++ lo) := by
  have hord : ∀ a, b'.orderAt a = b.orderAt a := fun a => by rw [orderAt, orderAt, hsame.orderPool]
  have hlev : ∀ s K, b.LevelRep s K → b'.LevelRep s K := fun s K hK =>
    hK.congr (hsame.fields _).1 (hsame.fields _).2.1 (hsame.fields _).2.2 fun e _ => hord e.1
  have hperm : (k ++ L :: ls ++ opp).Perm (L :: (k ++ ls ++ opp)) :=
    List.perm_middle.append_right opp
  have hmem : ∀ K, K ∈ k ++ L :: ls ++ opp ↔ K = L ∨ K ∈ k ++ ls ++ opp := by
    intro K
    rw [hperm.mem_iff, List.mem_cons]
  have hnd := (hperm.map LevelShape.price).nodup_iff.mp h.prices
  have hnew : ∀ K ∈ k ++ ls ++ opp, K.price ≠ L.price := fun K hK he =>
    (List.nodup_cons.mp hnd).1 (he ▸ List.mem_map_of_mem hK)
  have hownSub : ∀ K ∈ k ++ ls, K ∈ k ++ L :: ls := by
    intro K hK
    simp only [List.mem_append, List.mem_cons] at hK ⊢
    tauto
  refine ⟨h.isSide, ⟨hhead, hring, ?_, ?_⟩, ⟨?_, ?_, h.oppSide.sorted, ?_⟩, ?_, ?_, ?_, ?_, ?_,
    hsame.numElems.trans h.levelCap, by rw [hsame.orderPool]; exact h.orderCap⟩
  · have hs := h.ownSide.sorted
    rw [List.map_append, List.map_cons] at hs
    rw [List.map_append]
    exact hs.sublist ((List.sublist_cons_self _ _).append_left _)
  · exact fun K hK => hlev side K (h.ownSide.levels K (hownSub K hK))
  · rw [hhead', h.oppSide.head_eq]
  · exact h.oppSide.ring.congr (fun a ha => (hkeep a ha).1) (fun a ha => (hkeep a ha).2)
  · exact fun K hK => hlev _ K (h.oppSide.levels K hK)
  · intro i a
    rw [hidx, Function.update_apply]
    by_cases hi : i = priceToIndex L.price
    · subst hi
      simp only [if_true, reduceCtorEq, false_iff, not_exists, not_and]
      intro K hK _ he
      exact hnew K hK (priceToIndex_inj (h.inRange K ((hmem K).mpr (.inr hK)))
        (h.inRange L ((hmem L).mpr (.inl rfl))) he)
    · rw [if_neg hi, h.index]
      simp only [hmem, or_and_right, exists_or, exists_eq_left]
      constructor
      · rintro (⟨-, he⟩ | he)
        · exact absurd he.symm hi
        · exact he
      · exact fun he => .inr he
  · exact fun K hK => h.inRange K ((hmem K).mpr (.inr hK))
  · exact (List.nodup_cons.mp hnd).2
  · rw [hsame.holds]
    refine h.levelPool.perm ?_
    refine ((hperm.map LevelShape.addr).append_left ll).trans ?_
    exact List.perm_middle
  · rw [hsame.orderPool]
    refine h.orderPool.perm ?_
    refine ((orderAddrs_middle k ls opp L).append_left lo).trans ?_
    simp only [← List.append_assoc]
    exact List.perm_append_comm.append_right _

theorem Rep.unlinkLevel_sole (h : b.Rep side [L] opp ll lo) :
    b.unlinkLevel side L.addr = .ok (b.setHead side none) := by
  have hnext : (b.levelAt L.addr).nextEntry = some L.addr := h.ownSide.ring.next_head
  rw [unlinkLevel, level_ok (h.liveLevel (by simp)), ok_bind, if_pos hnext]
  rfl

theorem Rep.unlinkLevel_multi (h : b.Rep side (k ++ L :: ls) opp ll lo) (hne : k ++ ls ≠ []) :
    ∃ b', b.unlinkLevel side L.addr = .ok b' ∧ SameFields b b' ∧
      IsRing (fun a => (b'.levelAt a).nextEntry) (fun a => (b'.levelAt a).prevEntry)
        (addrs (k ++ ls)) ∧
      (∀ a ∈ addrs opp, (b'.levelAt a).nextEntry = (b.levelAt a).nextEntry ∧
        (b'.levelAt a).prevEntry = (b.levelAt a).prevEntry) ∧
      b'.head side = (k ++ ls).head?.map LevelShape.addr ∧
      b'.head side.opposite = b.head side.opposite ∧
      b'.priceOrdersAtPrice = b.priceOrdersAtPrice := by
  have hring := h.ownSide.ring
  simp only [addrs, List.map_append, List.map_cons] at hring
  have hrot := hring.rotate
  rw [List.cons_append] at hrot
  have hnotL := (List.nodup_cons.mp hrot.nodup).1
  have hne' : ls.map LevelShape.addr ++ k.map LevelShape.addr ≠ [] := by
    simp only [ne_eq, List.append_eq_nil_iff, List.map_eq_nil_iff] at hne ⊢
    tauto
  obtain ⟨p, hpm, hp⟩ := hrot.exists_prev (List.mem_cons_self ..)
  obtain ⟨s, hsm, hs⟩ := hrot.exists_next (List.mem_cons_self ..)
  have hpL : p ≠ L.addr := fun he => hne' (hrot.self_of_prev_self (by rw [hp, he]))
  have hsL : s ≠ L.addr := fun he => hne' (hrot.self_of_next_self (by rw [hs, he]))
  have hmem : ∀ a ∈ L.addr :: (ls.map LevelShape.addr ++ k.map LevelShape.addr),
      a ∈ addrs (k ++ L :: ls) := by
    intro a ha
    simp only [addrs, List.map_append, List.map_cons, List.mem_cons, List.mem_append] at ha ⊢
    tauto
  have hlive : ∀ a ∈ addrs (k ++ L :: ls), b.LiveLevel a := by
    intro a ha
    obtain ⟨K, hK, rfl⟩ := List.mem_map.mp ha
    exact h.liveLevel (List.mem_append_left _ hK)
  have hlL : b.LiveLevel L.addr := hlive _ (hmem _ (by simp))
  have hlp : b.LiveLevel p := hlive _ (hmem _ hpm)
  have hls : b.LiveLevel s := hlive _ (hmem _ hsm)
  have hopp : ∀ a ∈ addrs opp, a ∉ addrs (k ++ L :: ls) := by
    intro a ha hm
    have hnd := (List.nodup_append.mp h.levelPool.nodup).2.1
    rw [addrs, List.map_append] at hnd
    exact (List.nodup_append.mp hnd).2.2 a hm a ha rfl
  set c := (b.putNextEntry p (some s)).putPrevEntry s (some p) with hc
  set d := if b.head side = some L.addr then c.setHead side (some s) else c with hd
  have hcd : SameFields c d := by
    rw [hd]
    split_ifs
    · exact SameFields.setHead ..
    · exact SameFields.refl c
  have hbc : SameFields b c := (SameFields.putNextEntry ..).trans (SameFields.putPrevEntry ..)
  have hbd := hbc.trans hcd
  have hdl : ∀ a, d.levelAt a = c.levelAt a := by
    intro a
    rw [hd]
    split_ifs <;> simp
  have hnx : ∀ a, a ≠ p → a ≠ L.addr → (((d.putNextEntry L.addr none).putPrevEntry L.addr
      none).levelAt a).nextEntry = (b.levelAt a).nextEntry := by
    intro a hap haL
    simp [nextEntry_putNextEntry, haL, hdl, hc, hap]
  have hpv : ∀ a, a ≠ s → a ≠ L.addr → (((d.putNextEntry L.addr none).putPrevEntry L.addr
      none).levelAt a).prevEntry = (b.levelAt a).prevEntry := by
    intro a has haL
    simp [prevEntry_putPrevEntry, haL, hdl, hc, has]
  refine ⟨(d.putNextEntry L.addr none).putPrevEntry L.addr none, ?_,
    hbd.trans ((SameFields.putNextEntry ..).trans (SameFields.putPrevEntry ..)), ?_, ?_, ?_, ?_, ?_⟩
  · have hs' : (b.levelAt L.addr).nextEntry = some s := hs
    have hp' : (b.levelAt L.addr).prevEntry = some p := hp
    have hself : ¬ (b.levelAt L.addr).nextEntry = some L.addr := by rw [hs']; simpa using hsL
    have hn1 : ((b.putNextEntry p (some s)).levelAt L.addr).nextEntry = some s := by
      rw [nextEntry_putNextEntry, if_neg hpL.symm, hs']
    have hn2 : (c.levelAt L.addr).nextEntry = some s := by
      rw [hc, nextEntry_putPrevEntry, hn1]
    rw [unlinkLevel, level_ok hlL, ok_bind, if_neg hself, hp', hs', deref_some, ok_bind,
      setNextEntry_ok _ hlp, ok_bind, level_ok (by simpa using hlL), ok_bind, hn1, deref_some,
      ok_bind, prevEntry_putNextEntry, hp', setPrevEntry_ok _ (by simpa using hls), ok_bind, ← hc,
      level_ok ((hbc.live _).mpr hlL), ok_bind, hn2]
    simp only [← hd]
    rw [setNextEntry_ok _ ((hbd.live _).mpr hlL), ok_bind,
      setPrevEntry_ok _ (by simpa using (hbd.live _).mpr hlL)]
  · have hout : ∀ a ∈ k.map LevelShape.addr ++ ls.map LevelShape.addr, a ≠ L.addr := by
      intro a ha he
      simp only [List.mem_append] at hnotL ha
      exact hnotL (he ▸ ha.symm)
    rw [addrs, List.map_append]
    refine hring.remove (by simpa using hne) hp hs ?_ (fun a ha hap => hnx a hap (hout a ha)) ?_
      (fun a ha has => hpv a has (hout a ha))
    · simp [nextEntry_putNextEntry, hpL, hdl, hc]
    · simp [prevEntry_putPrevEntry, hsL, hdl, hc]
  · intro a ha
    have hno := hopp a ha
    exact ⟨hnx a (fun he => hno (he ▸ hmem p hpm)) (fun he => hno (he ▸ hmem _ (by simp))),
      hpv a (fun he => hno (he ▸ hmem s hsm)) (fun he => hno (he ▸ hmem _ (by simp)))⟩
  · change d.head side = _
    cases k with
    | nil =>
      have hh : b.head side = some L.addr := h.ownSide.head_eq
      have hns : (b.levelAt L.addr).nextEntry = (ls ++ [L]).head?.map LevelShape.addr := by
        simpa using h.ownSide.next_addr (k := [])
      obtain ⟨T, ts, rfl⟩ := List.exists_cons_of_ne_nil (by simpa using hne)
      rw [hd, if_pos hh, head_setHead_self]
      exact hs.symm.trans hns
    | cons K k =>
      have hh : b.head side = some K.addr := h.ownSide.head_eq
      have hK : K.addr ≠ L.addr := fun he => hnotL (by simp [he])
      have hno : ¬ b.head side = some L.addr := by rw [hh]; simpa using hK
      rw [hd, if_neg hno]
      exact hh
  · change d.head side.opposite = _
    rw [hd]
    split_ifs
    · exact head_setHead_opposite _ _ h.isSide
    · rfl
  · change d.priceOrdersAtPrice = _
    rw [hd]
    split_ifs
    · exact priceOrdersAtPrice_setHead _ _ _
    · rfl

theorem Rep.removeOrdersAtPrice (h : b.Rep side (k ++ L :: ls) opp ll lo) :
    ∃ b', b.removeOrdersAtPrice side L.price = .ok b' ∧
      b'.Rep side (k ++ ls) opp ll (L.orders.map Prod.fst ++ lo) ∧ b'.orderPool = b.orderPool := by
  obtain ⟨c, hc, hsame, hring, hkeep, hhead, hhead', hidx⟩ : ∃ c,
      b.unlinkLevel side L.addr = .ok c ∧ SameFields b c ∧
      IsRing (fun a => (c.levelAt a).nextEntry) (fun a => (c.levelAt a).prevEntry)
        (addrs (k ++ ls)) ∧
      (∀ a ∈ addrs opp, (c.levelAt a).nextEntry = (b.levelAt a).nextEntry ∧
        (c.levelAt a).prevEntry = (b.levelAt a).prevEntry) ∧
      c.head side = (k ++ ls).head?.map LevelShape.addr ∧
      c.head side.opposite = b.head side.opposite ∧
      c.priceOrdersAtPrice = b.priceOrdersAtPrice := by
    by_cases hne : k ++ ls = []
    · obtain ⟨rfl, rfl⟩ := List.append_eq_nil_iff.mp hne
      exact ⟨_, h.unlinkLevel_sole, SameFields.setHead .., isRing_nil, by simp,
        head_setHead_self _ _ _, head_setHead_opposite _ _ h.isSide,
        priceOrdersAtPrice_setHead _ _ _⟩
    · exact h.unlinkLevel_multi hne
  have hrep : (c.setOrdersAtPrice L.price none).Rep side (k ++ ls) opp (L.addr :: ll)
      (L.orders.map Prod.fst ++ lo) := h.removeLevel
    (hsame.trans (SameFields.setOrdersAtPrice ..)) hring hkeep hhead hhead' (by rw [← hidx]; rfl)
  obtain ⟨hde, hho⟩ := MemPool.deallocate_ok hrep.levelPool
  refine ⟨_, ?_, hrep.ofLevelPool hho rfl ?_, hsame.orderPool⟩
  · rw [BookStore.removeOrdersAtPrice, h.getOrdersAtPrice (by simp), deref_some, ok_bind, hc,
      ok_bind]
    simp only [hde, ok_bind, pure_ok]
  · intro K _
    rw [MemPool.store_put]
    split_ifs with he
    · rw [levelAt, he]
    · rfl

theorem Rep.unlinkOrder_sole {a : ℕ} {price : ℤ} {e : ℕ × OrderInfo ι}
    (h : b.Rep side (k ++ ⟨a, price, [e]⟩ :: ls) opp ll lo) :
    ∃ b', b.unlinkOrder e.1 = .ok b' ∧ b'.Rep side (k ++ ls) opp ll (e.1 :: lo) ∧
      (b'.orderAt e.1).toOrderInfo = e.2 := by
  have hL := h.levelRep (List.mem_append_right k (List.mem_cons_self ..))
  obtain ⟨hinfo, hside, hprice⟩ := hL.info e (by simp)
  have hlive : b.LiveOrder e.1 := h.liveOrder_of_mem (by simp)
  have hself : (b.orderAt e.1).prevOrder = some e.1 := by simpa using hL.ring.prev_head
  have hs : (b.orderAt e.1).side = side := (congrArg OrderInfo.side hinfo).trans hside
  have hp : (b.orderAt e.1).price = price := (congrArg OrderInfo.price hinfo).trans hprice
  obtain ⟨b', hrm, hrep, hpool⟩ := h.removeOrdersAtPrice
  refine ⟨b', ?_, hrep, ?_⟩
  · rw [unlinkOrder, order_ok hlive, ok_bind, if_pos hself, hs, hp]
    exact hrm
  · rw [orderAt, hpool]
    exact hinfo

end Common.BookStore
