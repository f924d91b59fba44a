import TradingEcosystem.Common.BookRep

namespace Common.BookStore

open CircularList LevelShape

variable {ι : Type} {b b' : BookStore ι} {side : Side} {own opp k ls : List (LevelShape ι)}
  {ll lo : List ℕ} {L : LevelShape ι}

theorem Rep.addr_ne (h : b.Rep side (k ++ L :: ls) opp ll lo) {K : LevelShape ι}
    (hK : K ∈ k ++ ls ++ opp) : K.addr ≠ L.addr := by
  have hnd := (List.nodup_append.mp h.levelPool.nodup).2.1
  have hp : (addrs (k ++ L :: ls ++ opp)).Perm (L.addr :: addrs (k ++ ls ++ opp)) := by
    simp only [addrs, List.map_append, List.map_cons, List.append_assoc, List.cons_append]
    exact List.perm_middle
  have hnot := (List.nodup_cons.mp (hp.nodup_iff.mp hnd)).1
  exact fun he => hnot (he ▸ List.mem_map_of_mem hK)

theorem orderAddrs_middle (k ls opp : List (LevelShape ι)) (L : LevelShape ι) :
    (orderAddrs (k ++ L :: ls ++ opp)).Perm
      (L.orders.map Prod.fst ++ orderAddrs (k ++ ls ++ opp)) := by
  simp only [orderAddrs, entries_append, entries_cons, List.map_append, List.append_assoc]
  exact List.perm_append_comm_assoc _ _ _

theorem Rep.orderAddr_ne (h : b.Rep side (k ++ L :: ls) opp ll lo) {e : ℕ × OrderInfo ι}
    (he : e ∈ entries (k ++ ls ++ opp)) : e.1 ∉ L.orders.map Prod.fst := by
  have hnd := (List.nodup_append.mp h.orderPool.nodup).2.1
  have hd := (List.nodup_append.mp ((orderAddrs_middle k ls opp L).nodup_iff.mp hnd)).2.2
  exact fun hm => hd _ hm _ (List.mem_map_of_mem he) rfl

theorem Rep.loose_notMem (h : b.Rep side own opp ll lo) {a : ℕ} (ha : a ∈ lo) :
    a ∉ orderAddrs (own ++ opp) :=
  fun hm => (List.nodup_append.mp h.orderPool.nodup).2.2 a ha a hm rfl

theorem Rep.replaceLevel (h : b.Rep side (k ++ L :: ls) opp ll lo) {L' : LevelShape ι}
    {lo' : List ℕ} (ha : L'.addr = L.addr) (hp : L'.price = L.price)
    (hhead : ∀ s, b'.head s = b.head s) (hidx : b'.priceOrdersAtPrice = b.priceOrdersAtPrice)
    (hlev : ∀ a, a ≠ L.addr → b'.levelAt a = b.levelAt a)
    (hnext : (b'.levelAt L.addr).nextEntry = (b.levelAt L.addr).nextEntry)
    (hprev : (b'.levelAt L.addr).prevEntry = (b.levelAt L.addr).prevEntry)
    (hlp : b'.ordersAtPricePool.Holds (ll ++ addrs (k ++ L :: ls ++ opp)))
    (hlc : b'.ordersAtPricePool.numElems = b.ordersAtPricePool.numElems)
    (hop : b'.orderPool.Holds (lo' ++ orderAddrs (k ++ L' :: ls ++ opp)))
    (hoc : b'.orderPool.numElems = b.orderPool.numElems)
    (hord : ∀ e ∈ entries (k ++ ls ++ opp), b'.orderAt e.1 = b.orderAt e.1)
    (hrep : b'.LevelRep side L') : b'.Rep side (k ++ L' :: ls) opp ll lo' := by
  have hlev' : ∀ K ∈ k ++ ls ++ opp, b'.levelAt K.addr = b.levelAt K.addr :=
    fun K hK => hlev _ (h.addr_ne hK)
  have hall : ∀ a, (b'.levelAt a).nextEntry = (b.levelAt a).nextEntry ∧
      (b'.levelAt a).prevEntry = (b.levelAt a).prevEntry := by
    intro a
    by_cases he : a = L.addr
    · exact he ▸ ⟨hnext, hprev⟩
    · rw [hlev a he]; exact ⟨rfl, rfl⟩
  have hkeep : ∀ s, ∀ K ∈ k ++ ls ++ opp, b.LevelRep s K → b'.LevelRep s K := by
    intro s K hK hR
    have hl := hlev' K hK
    exact hR.congr (by rw [hl]) (by rw [hl]) (by rw [hl])
      fun e he => hord e (mem_entries.mpr ⟨K, hK, he⟩)
  have haddrs : addrs (k ++ L' :: ls) = addrs (k ++ L :: ls) := by simp [addrs, ha]
  have hprices : (k ++ L' :: ls).map LevelShape.price = (k ++ L :: ls).map LevelShape.price := by
    simp [hp]
  have hmem : ∀ P : LevelShape ι → Prop, (P L' ↔ P L) →
      ((∃ K ∈ k ++ L' :: ls ++ opp, P K) ↔ ∃ K ∈ k ++ L :: ls ++ opp, P K) := by
    intro P hP
    simp only [List.mem_append, List.mem_cons, or_and_right, exists_or, exists_eq_left, hP]
  refine ⟨h.isSide, ⟨?_, ?_, ?_, ?_⟩, ⟨?_, ?_, h.oppSide.sorted, ?_⟩, ?_, ?_, ?_, ?_, hop,
    hlc.trans h.levelCap, hoc.trans h.orderCap⟩
  · rw [hhead, h.ownSide.head_eq]
    cases k <;> simp [ha]
  · rw [haddrs]
    exact h.ownSide.ring.congr (fun a _ => (hall a).1) (fun a _ => (hall a).2)
  · rw [hprices]
    exact h.ownSide.sorted
  · intro K hK
    simp only [List.mem_append, List.mem_cons] at hK
    rcases hK with hK | rfl | hK
    · exact hkeep side K (by simp [hK]) (h.ownSide.levels K (by simp [hK]))
    · exact hrep
    · exact hkeep side K (by simp [hK]) (h.ownSide.levels K (by simp [hK]))
  · rw [hhead]; exact h.oppSide.head_eq
  · exact h.oppSide.ring.congr (fun a _ => (hall a).1) (fun a _ => (hall a).2)
  · exact fun K hK => hkeep _ K (by simp [hK]) (h.oppSide.levels K hK)
  · intro i a
    rw [hidx, h.index, hmem (fun K => K.addr = a ∧ priceToIndex K.price = i) (by rw [ha, hp])]
  · intro K hK
    simp only [List.mem_append, List.mem_cons] at hK
    rcases hK with (hK | rfl | hK) | hK
    · exact h.inRange K (by simp [hK])
    · rw [hp]; exact h.inRange L (by simp)
    · exact h.inRange K (by simp [hK])
    · exact h.inRange K (by simp [hK])
  · rw [List.map_append, hprices, ← List.map_append]
    exact h.prices
  · simp only [addrs, List.map_append] at haddrs hlp ⊢
    rw [haddrs]
    exact hlp

theorem Rep.level_mem (_h : b.Rep side (k ++ L :: ls) opp ll lo) : L ∈ k ++ L :: ls ++ opp := by
  simp

theorem Rep.liveOrder_of_mem (h : b.Rep side (k ++ L :: ls) opp ll lo) {a : ℕ}
    (ha : a ∈ L.orders.map Prod.fst) : b.LiveOrder a := by
  obtain ⟨e, he, rfl⟩ := List.mem_map.mp ha
  exact h.liveOrder (mem_entries.mpr ⟨L, h.level_mem, he⟩)

theorem Rep.linkOrder_existing {a : ℕ} (h : b.Rep side (k ++ L :: ls) opp ll [a])
    (hside : (b.orderAt a).side = side) (hprice : (b.orderAt a).price = L.price) :
    ∃ b', b.linkOrder a = .ok b' ∧
      b'.Rep side (k ++ { L with orders := L.orders ++ [(a, (b.orderAt a).toOrderInfo)] } :: ls)
        opp ll [] := by
  have hL := h.levelRep (List.mem_append_right k (List.mem_cons_self ..))
  have hlive : b.LiveOrder a := h.orderPool.live (by simp)
  obtain ⟨e, es, hes⟩ := List.exists_cons_of_ne_nil hL.nonempty
  have hring := hL.ring
  rw [hes, List.map_cons] at hring
  obtain ⟨p, hpm, hp⟩ := hring.exists_prev (List.mem_cons_self ..)
  have hp' : (b.orderAt e.1).prevOrder = some p := hp
  have hfirst : (b.levelAt L.addr).firstOrder = some e.1 := by rw [hL.first_eq, hes]; rfl
  have hlive1 : b.LiveOrder e.1 := h.liveOrder_of_mem (by simp [hes])
  have hlivep : b.LiveOrder p := h.liveOrder_of_mem (by rw [hes]; exact hpm)
  have hnot : a ∉ orderAddrs (k ++ L :: ls ++ opp) := h.loose_notMem (List.mem_singleton_self a)
  have hnotL : a ∉ e.1 :: es.map Prod.fst := by
    intro hm
    refine hnot ((orderAddrs_middle k ls opp L).mem_iff.mpr (List.mem_append_left _ ?_))
    rwa [hes]
  have hape : a ≠ p := fun he => hnotL (he ▸ hpm)
  have hae : a ≠ e.1 := fun he => hnotL (by simp [he])
  refine ⟨(((b.putNextOrder p (some a)).putPrevOrder a (some p)).putNextOrder a
    (some e.1)).putPrevOrder e.1 (some a), ?_, ?_⟩
  · simp only [linkOrder, order_ok hlive, ok_bind, hprice, h.getOrdersAtPrice h.level_mem,
      level_ok (h.liveLevel h.level_mem), hfirst, deref_some, order_ok hlive1, hp']
    rw [setNextOrder_ok _ hlivep, ok_bind, order_ok (by simpa using hlive1), ok_bind,
      prevOrder_putNextOrder, hp', setPrevOrder_ok _ (by simpa using hlive), ok_bind,
      setNextOrder_ok _ (by simpa using hlive), ok_bind, setPrevOrder_ok _ (by simpa using hlive1)]
  · have hframe : ∀ x, x ≠ a → x ≠ p → x ≠ e.1 →
        ((((b.putNextOrder p (some a)).putPrevOrder a (some p)).putNextOrder a
          (some e.1)).putPrevOrder e.1 (some a)).orderAt x = b.orderAt x := by
      intro x hxa hxp hxe
      simp [putPrevOrder, putNextOrder, orderAt_modOrder, hxa, hxp, hxe]
    refine h.replaceLevel rfl rfl (fun _ => rfl) rfl (fun _ _ => rfl) rfl rfl h.levelPool rfl
      ?_ rfl ?_ ?_
    · simp only [holds_putPrevOrder, holds_putNextOrder]
      refine h.orderPool.perm ?_
      refine ((orderAddrs_middle k ls opp L).append_left [a]).trans
        (List.Perm.trans ?_ (orderAddrs_middle k ls opp _).symm)
      simp only [List.map_append, List.map_cons, List.map_nil, ← List.append_assoc]
      exact List.perm_append_comm.append_right _
    · intro x hx
      have hxL := h.orderAddr_ne hx
      rw [hes, List.map_cons] at hxL
      refine hframe x.1 ?_ (fun he => hxL (he ▸ hpm)) (fun he => hxL (by simp [he]))
      rintro rfl
      exact hnot ((orderAddrs_middle k ls opp L).mem_iff.mpr
        (List.mem_append_right _ (List.mem_map_of_mem hx)))
    · refine ⟨hL.side_eq, hL.price_eq, ?_, by simp, ?_, ?_⟩
      · rw [hes]
        exact hfirst
      · simp only [hes, List.map_append, List.map_cons, List.map_nil]
        refine hring.insert_tail hnotL hp ?_ ?_ ?_ ?_ ?_ ?_
        · simp [nextOrder_putNextOrder]
        · simp [nextOrder_putNextOrder, hape.symm]
        · intro x hx hxp
          have hxa : x ≠ a := fun he => hnotL (he ▸ hx)
          simp [nextOrder_putNextOrder, hxa, hxp]
        · simp [prevOrder_putPrevOrder]
        · simp [prevOrder_putPrevOrder, hae]
        · intro x hx hxe
          have hxa : x ≠ a := fun he => hnotL (he ▸ hx)
          simp [prevOrder_putPrevOrder, hxa, hxe]
      · intro x hx
        simp only [toOrderInfo_putPrevOrder, toOrderInfo_putNextOrder]
        rcases List.mem_append.mp hx with hx | hx
        · exact hL.info x hx
        · rw [List.mem_singleton.mp hx]
          exact ⟨rfl, hside, hprice⟩

theorem LevelRep.order_mid {a : ℕ} {price : ℤ} {xs ys : List (ℕ × OrderInfo ι)}
    {e : ℕ × OrderInfo ι} (h : b.LevelRep side ⟨a, price, xs ++ e :: ys⟩) (hne : xs ++ ys ≠ []) :
    ∃ p ∈ (xs ++ ys).map Prod.fst, ∃ s ∈ (xs ++ ys).map Prod.fst,
      (b.orderAt e.1).prevOrder = some p ∧ (b.orderAt e.1).nextOrder = some s ∧
      e.1 ∉ (xs ++ ys).map Prod.fst := by
  have hring := h.ring
  simp only [List.map_append, List.map_cons] at hring
  have hr := hring.rotate
  rw [List.cons_append] at hr
  have hnot := (List.nodup_cons.mp hr.nodup).1
  have hnot' : e.1 ∉ (xs ++ ys).map Prod.fst := by
    simp only [List.map_append, List.mem_append] at hnot ⊢
    tauto
  have hne' : ys.map Prod.fst ++ xs.map Prod.fst ≠ [] := by
    simp only [ne_eq, List.append_eq_nil_iff, List.map_eq_nil_iff] at hne ⊢
    tauto
  obtain ⟨p, hpm, hp⟩ := hr.exists_prev (List.mem_cons_self ..)
  obtain ⟨s, hsm, hs⟩ := hr.exists_next (List.mem_cons_self ..)
  have hpe : p ≠ e.1 := fun he => hne' (hr.self_of_prev_self (by rw [hp, he]))
  have hse : s ≠ e.1 := fun he => hne' (hr.self_of_next_self (by rw [hs, he]))
  refine ⟨p, ?_, s, ?_, hp, hs, hnot'⟩
  · simp only [List.map_append, List.mem_append, List.mem_cons] at hpm ⊢
    tauto
  · simp only [List.map_append, List.mem_append, List.mem_cons] at hsm ⊢
    tauto

theorem Rep.unlinkOrder_multi {a : ℕ} {price : ℤ} {xs ys : List (ℕ × OrderInfo ι)}
    {e : ℕ × OrderInfo ι} (h : b.Rep side (k ++ ⟨a, price, xs ++ e :: ys⟩ :: ls) opp ll lo)
    (hne : xs ++ ys ≠ []) :
    ∃ b', b.unlinkOrder e.1 = .ok b' ∧ b'.Rep side (k ++ ⟨a, price, xs ++ ys⟩ :: ls) opp ll
      (e.1 :: lo) ∧ (b'.orderAt e.1).toOrderInfo = e.2 := by
  have hL := h.levelRep (List.mem_append_right k (List.mem_cons_self ..))
  obtain ⟨hinfo, hside, hprice⟩ := hL.info e (by simp)
  obtain ⟨p, hpm, s, hsm, hp, hs, hnot⟩ := hL.order_mid hne
  have hlive : b.LiveOrder e.1 := h.liveOrder_of_mem (by simp)
  have hsub : ∀ x ∈ (xs ++ ys).map Prod.fst, x ∈ (xs ++ e :: ys).map Prod.fst := by
    intro x hx
    simp only [List.map_append, List.map_cons, List.mem_append, List.mem_cons] at hx ⊢
    tauto
  have hlivep : b.LiveOrder p := h.liveOrder_of_mem (hsub p hpm)
  have hlives : b.LiveOrder s := h.liveOrder_of_mem (hsub s hsm)
  have hpe : p ≠ e.1 := fun he => hnot (he ▸ hpm)
  have hse : s ≠ e.1 := fun he => hnot (he ▸ hsm)
  have hlevel : b.LiveLevel a := h.liveLevel h.level_mem
  have hpr : (b.orderAt e.1).price = price := by
    have : (b.orderAt e.1).toOrderInfo.price = price := by rw [hinfo, hprice]
    exact this
  have hget : b.getOrdersAtPrice price = some a := h.getOrdersAtPrice h.level_mem
  set c := (b.putNextOrder p (some s)).putPrevOrder s (some p) with hc
  -- the head of the level moves on exactly when the order unlinked was the oldest one
  set d := if (b.levelAt a).firstOrder = some e.1 then c.putFirstOrder a (some s) else c with hd
  have hdo : ∀ x, d.orderAt x = c.orderAt x := by
    intro x; rw [hd]; split_ifs <;> rfl
  have hdl : ∀ x, x ≠ a → d.levelAt x = b.levelAt x := by
    intro x hx; rw [hd]
    split_ifs
    · simp [putFirstOrder, levelAt_modLevel, hx, hc]
    · rfl
  have hfirst : (d.levelAt a).firstOrder = (xs ++ ys).head?.map Prod.fst := by
    have hfe := hL.first_eq
    cases xs with
    | nil =>
      have hfe' : (b.levelAt a).firstOrder = some e.1 := by simpa using hfe
      have hr := hL.ring
      rw [List.nil_append, List.map_cons] at hr
      have hnh := hr.next_head
      rw [hs] at hnh
      rw [hd, if_pos hfe', firstOrder_putFirstOrder, if_pos rfl, hnh]
      obtain ⟨y, ys', rfl⟩ := List.exists_cons_of_ne_nil (by simpa using hne)
      rfl
    | cons x xs =>
      have hfe' : (b.levelAt a).firstOrder = some x.1 := by simpa using hfe
      have hxe : x.1 ≠ e.1 := fun he => hnot (by simp [he])
      have hno : (b.levelAt a).firstOrder ≠ some e.1 := by simpa [hfe'] using hxe
      rw [hd, if_neg hno]
      exact hfe'
  have hdr : ∀ x, (d.levelAt x).side = (b.levelAt x).side ∧
      (d.levelAt x).price = (b.levelAt x).price ∧
      (d.levelAt x).nextEntry = (b.levelAt x).nextEntry ∧
      (d.levelAt x).prevEntry = (b.levelAt x).prevEntry := by
    intro x; rw [hd]
    split_ifs
    · by_cases hx : x = a <;> simp [putFirstOrder, levelAt_modLevel, hx, hc]
    · exact ⟨rfl, rfl, rfl, rfl⟩
  have hdh : ∀ t, d.head t = b.head t := by
    intro t; rw [hd]; split_ifs <;> rfl
  have hdp : d.priceOrdersAtPrice = b.priceOrdersAtPrice := by rw [hd]; split_ifs <;> rfl
  have hdlp : ∀ live, d.ordersAtPricePool.Holds live ↔ b.ordersAtPricePool.Holds live := by
    intro live; rw [hd]
    split_ifs
    · exact holds_putFirstOrder c a _ live
    · exact Iff.rfl
  have hdcap : d.ordersAtPricePool.numElems = b.ordersAtPricePool.numElems ∧
      d.orderPool = c.orderPool := by
    rw [hd]; split_ifs <;> exact ⟨rfl, rfl⟩
  have hlived : d.LiveOrder e.1 := by
    have hlc : c.LiveOrder e.1 := by simpa [hc] using hlive
    rw [LiveOrder, hdcap.2]
    exact hlc
  refine ⟨(d.putNextOrder e.1 none).putPrevOrder e.1 none, ?_, ?_, ?_⟩
  · have hself : ¬ some p = some e.1 := by simpa using hpe
    have hadv : c.advanceFirst a e.1 (some s) = .ok d := by
      rw [advanceFirst, level_ok (by simpa [hc] using hlevel), ok_bind, hd]
      change (if (b.levelAt a).firstOrder = some e.1 then _ else _) = _
      split_ifs
      · exact setFirstOrder_ok _ (by simpa [hc] using hlevel)
      · rfl
    simp only [unlinkOrder, order_ok hlive, ok_bind, hp, if_neg hself, hs, deref_some, hpr, hget]
    rw [setNextOrder_ok _ hlivep, ok_bind, setPrevOrder_ok _ (by simpa using hlives), ok_bind,
      ← hc, hadv, ok_bind, setNextOrder_ok _ hlived, ok_bind,
      setPrevOrder_ok _ (by simpa using hlived)]
  · refine h.replaceLevel rfl rfl hdh hdp hdl (hdr a).2.2.1 (hdr a).2.2.2 ?_ hdcap.1 ?_ ?_ ?_ ?_
    · exact (hdlp _).mpr h.levelPool
    · simp only [holds_putPrevOrder, holds_putNextOrder]
      rw [hdcap.2]
      simp only [hc, holds_putPrevOrder, holds_putNextOrder]
      refine h.orderPool.perm ?_
      refine ((orderAddrs_middle k ls opp _).append_left lo).trans (List.Perm.trans ?_
        ((orderAddrs_middle k ls opp _).symm.append_left (e.1 :: lo)))
      simp only [List.map_append, List.map_cons, List.cons_append, List.append_assoc]
      exact (List.perm_middle.append_left lo).trans List.perm_middle
    · change d.orderPool.numElems = _
      rw [hdcap.2]
      rfl
    · intro x hx
      have hxL := h.orderAddr_ne hx
      have hxe : x.1 ≠ e.1 := fun he => hxL (by simp [he])
      have hxp : x.1 ≠ p := fun he => hxL (he ▸ hsub p hpm)
      have hxs : x.1 ≠ s := fun he => hxL (he ▸ hsub s hsm)
      simp [putPrevOrder, putNextOrder, orderAt_modOrder, hxe, hdo, hc, hxp, hxs]
    · refine ⟨(hdr a).1.trans hL.side_eq, (hdr a).2.1.trans hL.price_eq, hfirst, hne, ?_, ?_⟩
      · have hr := hL.ring
        simp only [List.map_append, List.map_cons] at hr ⊢
        refine hr.remove (by simpa using hne) hp hs ?_ ?_ ?_ ?_
        · simp [nextOrder_putNextOrder, hdo, hc, hpe]
        · intro x hx hxp
          have hxe : x ≠ e.1 := fun he => hnot (by rw [← he, List.map_append]; exact hx)
          simp [nextOrder_putNextOrder, hdo, hc, hxe, hxp]
        · simp [prevOrder_putPrevOrder, hdo, hc, hse]
        · intro x hx hxs
          have hxe : x ≠ e.1 := fun he => hnot (by rw [← he, List.map_append]; exact hx)
          simp [prevOrder_putPrevOrder, hdo, hc, hxe, hxs]
      · intro x hx
        simp only [toOrderInfo_putPrevOrder, toOrderInfo_putNextOrder, hdo, hc]
        refine hL.info x ?_
        simp only [List.mem_append, List.mem_cons] at hx ⊢
        tauto
  · simp only [toOrderInfo_putPrevOrder, toOrderInfo_putNextOrder, hdo, hc]
    exact hinfo

theorem toOrderInfo_putQty (b : BookStore ι) (a x qty : ℕ) :
    ((b.putQty a qty).orderAt x).toOrderInfo =
      if x = a then (b.orderAt a).toOrderInfo.withQty qty
      else (b.orderAt x).toOrderInfo := by
  rw [putQty, orderAt_modOrder]
  split_ifs <;> rfl

theorem Rep.setQty {a : ℕ} {price : ℤ} {xs ys : List (ℕ × OrderInfo ι)} {e : ℕ × OrderInfo ι}
    (h : b.Rep side (k ++ ⟨a, price, xs ++ e :: ys⟩ :: ls) opp ll lo) (qty : ℕ) :
    b.setQty e.1 qty = .ok (b.putQty e.1 qty) ∧ (b.putQty e.1 qty).Rep side
      (k ++ ⟨a, price, xs ++ (e.1, e.2.withQty qty) :: ys⟩ :: ls) opp ll lo := by
  have hL := h.levelRep (List.mem_append_right k (List.mem_cons_self ..))
  have hlive : b.LiveOrder e.1 := h.liveOrder_of_mem (by simp)
  refine ⟨setQty_ok _ hlive, ?_⟩
  have hfst : (xs ++ (e.1, e.2.withQty qty) :: ys).map Prod.fst =
      (xs ++ e :: ys).map Prod.fst := by simp
  have hnd := hL.ring.nodup
  refine h.replaceLevel rfl rfl (fun _ => rfl) rfl (fun _ _ => rfl) rfl rfl h.levelPool rfl
    ?_ rfl ?_ ?_
  · refine ((holds_modOrder b _ _ _).mpr h.orderPool).perm (List.Perm.append_left lo ?_)
    refine (orderAddrs_middle k ls opp _).trans (List.Perm.trans ?_
      (orderAddrs_middle k ls opp _).symm)
    rw [hfst]
  · intro x hx
    have hxe : x.1 ≠ e.1 := fun he => h.orderAddr_ne hx (by simp [he])
    simp [putQty, orderAt_modOrder, hxe]
  · refine ⟨hL.side_eq, hL.price_eq, ?_, by simp, ?_, ?_⟩
    · refine hL.first_eq.trans ?_
      cases xs <;> rfl
    · change IsRing _ _ ((xs ++ (e.1, e.2.withQty qty) :: ys).map Prod.fst)
      rw [hfst]
      refine hL.ring.congr (fun x _ => ?_) (fun x _ => ?_)
      · exact orderAt_modOrder_field b e.1 x _ Order.nextOrder fun _ => rfl
      · exact orderAt_modOrder_field b e.1 x _ Order.prevOrder fun _ => rfl
    · intro x hx
      rw [toOrderInfo_putQty]
      simp only [List.mem_append, List.mem_cons] at hx
      obtain ⟨hie, hse, hpe⟩ := hL.info e (by simp)
      rcases hx with hx | rfl | hx
      · have hxe : x.1 ≠ e.1 := by
          intro he
          simp only [List.map_append, List.map_cons] at hnd
          exact (List.nodup_append.mp hnd).2.2 x.1 (List.mem_map_of_mem hx) e.1 (by simp) he
        rw [if_neg hxe]
        exact hL.info x (by simp [hx])
      · rw [if_pos rfl, hie]
        exact ⟨rfl, hse, hpe⟩
      · have hxe : x.1 ≠ e.1 := by
          intro he
          simp only [List.map_append, List.map_cons] at hnd
          have := (List.nodup_cons.mp (List.nodup_append.mp hnd).2.1).1
          exact this (he ▸ List.mem_map_of_mem hx)
        rw [if_neg hxe]
        exact hL.info x (by simp [hx])

theorem Rep.ofOrderPool (h : b.Rep side own opp ll lo) {lo' : List ℕ} {pool : MemPool (Order ι)}
    (hop : pool.Holds (lo' ++ orderAddrs (own ++ opp)))
    (hcap : pool.numElems = b.orderPool.numElems)
    (hord : ∀ e ∈ entries (own ++ opp), (pool.store e.1).object = b.orderAt e.1) :
    { b with orderPool := pool }.Rep side own opp ll lo' where
  isSide := h.isSide
  ownSide := ⟨h.ownSide.head_eq, h.ownSide.ring, h.ownSide.sorted, fun L hL =>
    (h.ownSide.levels L hL).congr rfl rfl rfl fun e he =>
      hord e (mem_entries.mpr ⟨L, by simp [hL], he⟩)⟩
  oppSide := ⟨h.oppSide.head_eq, h.oppSide.ring, h.oppSide.sorted, fun L hL =>
    (h.oppSide.levels L hL).congr rfl rfl rfl fun e he =>
      hord e (mem_entries.mpr ⟨L, by simp [hL], he⟩)⟩
  index := h.index
  inRange := h.inRange
  prices := h.prices
  levelPool := h.levelPool
  orderPool := hop
  levelCap := h.levelCap
  orderCap := hcap.trans h.orderCap

theorem Rep.allocateOrder (h : b.Rep side own opp ll [])
    (hroom : (entries (own ++ opp)).length + 1 < meMaxOrderIds) (info : OrderInfo ι) :
    ∃ a b', b.allocateOrder info = .ok (a, b') ∧ b'.Rep side own opp ll [a] ∧
      (b'.orderAt a).toOrderInfo = info := by
  have hroom' : ([] ++ orderAddrs (own ++ opp)).length + 1 < b.orderPool.numElems := by
    rw [h.orderCap, List.nil_append, orderAddrs, List.length_map]
    exact hroom
  obtain ⟨pool, hal, hholds, hstore, hnum, -⟩ :=
    MemPool.allocate_ok h.orderPool hroom' ⟨info, none, none⟩
  refine ⟨b.orderPool.nextFreeIndex, { b with orderPool := pool }, ?_, ?_, ?_⟩
  · simp [BookStore.allocateOrder, hal]
  · refine h.ofOrderPool hholds hnum ?_
    intro e he
    have hne : e.1 ≠ b.orderPool.nextFreeIndex := fun hn => h.orderPool.next_notMem
      (hn ▸ List.mem_append_right _ (List.mem_map_of_mem he))
    rw [hstore, MemPool.store_put, if_neg hne]
    rfl
  · simp [orderAt, hstore]

theorem Rep.allocateOrder_full (h : b.Rep side own opp ll [])
    (hfull : (entries (own ++ opp)).length + 1 = meMaxOrderIds) (info : OrderInfo ι) :
    b.allocateOrder info = .error .assertOutOfSpace := by
  have hfull' : ([] ++ orderAddrs (own ++ opp)).length + 1 = b.orderPool.numElems := by
    rw [h.orderCap, List.nil_append, orderAddrs, List.length_map]
    exact hfull
  simp [BookStore.allocateOrder, MemPool.allocate_full h.orderPool hfull']

theorem Rep.deallocateOrder {a : ℕ} (h : b.Rep side own opp ll (a :: lo)) :
    ∃ b', b.deallocateOrder a = .ok b' ∧ b'.Rep side own opp ll lo := by
  obtain ⟨hd, hh⟩ := MemPool.deallocate_ok h.orderPool
  refine ⟨{ b with orderPool := b.orderPool.put a ⟨(b.orderPool.store a).object, true⟩ }, ?_,
    h.ofOrderPool hh rfl ?_⟩
  · simp [BookStore.deallocateOrder, hd]
  · intro e _
    rw [MemPool.store_put]
    split_ifs with he
    · rw [orderAt, he]
    · rfl

end Common.BookStore
