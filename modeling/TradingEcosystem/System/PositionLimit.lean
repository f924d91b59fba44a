import TradingEcosystem.System.OrderSession

namespace Trading

open Common Exchange

def OMOrder.openQty (o : OMOrder) : ℕ :=
  match o.orderState with
  | .pendingNew | .live | .pendingCancel => o.qty
  | .invalid | .dead => 0

structure Limited (cfg : RiskCfg) (position : ℤ) (buy sell : OMOrder) : Prop where
  buySize : buy.openQty ≤ cfg.maxOrderSize
  sellSize : sell.openQty ≤ cfg.maxOrderSize
  upper : position + buy.openQty ≤ cfg.maxPosition
  lower : -cfg.maxPosition ≤ position - sell.openQty

def TradeEngine.Limited (e : TradeEngine) (t : ℕ) : Prop :=
  Trading.Limited (e.riskCfg t) (e.positions t).position (e.orderManager.slot t .buy)
    (e.orderManager.slot t .sell)

section Risk

variable {cfg : RiskCfg} {p : ℤ} {buy sell : OMOrder} {loss : Bool} {qty : ℕ}

theorem checkPreTradeRisk_allowed (hcfg : cfg.maxPosition + cfg.maxOrderSize ≤ 2 ^ 31 - 1)
    (hp : |p| ≤ cfg.maxPosition) {side : Side} (hs : side.IsBuyOrSell)
    (h : checkPreTradeRisk p cfg loss side qty = .allowed) :
    qty ≤ cfg.maxOrderSize ∧ |p + sideToValue side * qty| ≤ cfg.maxPosition := by
  unfold checkPreTradeRisk at h
  split_ifs at h with hsize hpos
  obtain ⟨hp0, hp1⟩ := abs_le.mp hp
  have hvalue : sideToValue side * qty = qty ∨ sideToValue side * qty = -qty := by
    rcases hs with rfl | rfl
    · exact .inl (one_mul _)
    · exact .inr (neg_one_mul _)
  have hq : int32 qty = qty := int32_eq (by omega) (by omega)
  have hsum : int32 (p + sideToValue side * qty) = p + sideToValue side * qty :=
    int32_eq (by omega) (by omega)
  have habs : |p + sideToValue side * qty| ≤ 2 ^ 31 - 1 := abs_le.mpr ⟨by omega, by omega⟩
  have hmax : int32 cfg.maxPosition = cfg.maxPosition := int32_eq (by omega) (by omega)
  rw [hq, hsum, hmax, int32_eq (by have := abs_nonneg (p + sideToValue side * qty); omega)
    (by omega)] at hpos
  exact ⟨not_lt.mp hsize, not_lt.mp hpos⟩

theorem Limited.position_le (h : Limited cfg p buy sell) : |p| ≤ cfg.maxPosition := by
  have := h.upper
  have := h.lower
  exact abs_le.mpr ⟨by omega, by omega⟩

end Risk

section Steps

variable {c t : ℕ} {e e' : TradeEngine} {s s' : Session} {B : IndexedBooks}
  {owner : ℕ → ℕ × Side}

theorem openQty_pendingCancel {o : OMOrder} (h : o.orderState = .live) :
    OMOrder.openQty { o with orderState := .pendingCancel } = o.openQty := by
  simp [OMOrder.openQty, h]

theorem TradeEngine.Limited.setSlot (h : e.Limited t) {m : OrderManager}
    (hbuy : (m.slot t .buy).openQty = (e.orderManager.slot t .buy).openQty)
    (hsell : (m.slot t .sell).openQty = (e.orderManager.slot t .sell).openQty) :
    TradeEngine.Limited { e with orderManager := m } t where
  buySize := hbuy ▸ h.buySize
  sellSize := hsell ▸ h.sellSize
  upper := hbuy ▸ h.upper
  lower := hsell ▸ h.lower

theorem openQty_setSlot {m : OrderManager} {t' : ℕ} {d d' : Side} {o : OMOrder}
    (hd : d.IsBuyOrSell) (hd' : d'.IsBuyOrSell) (ho : o.openQty = (m.slot t' d').openQty) :
    ((m.setSlot t' d' o).slot t d).openQty = (m.slot t d).openQty := by
  by_cases heq : (t, d) = (t', d')
  · obtain ⟨rfl, rfl⟩ := Prod.mk.inj heq
    rw [slot_setSlot, ho]
  · rw [slot_setSlot_of_ne hd' hd heq]

theorem TradeEngine.Limited.cancelOrder (h : e.Limited t) {t' : ℕ} {d : Side} (hd : d.IsBuyOrSell)
    (hlive : (e.orderManager.slot t' d).orderState = .live) :
    TradeEngine.Limited
      { e with orderManager := (e.orderManager.cancelOrder e.clientId t' d).1 } t :=
  h.setSlot (openQty_setSlot (.inl rfl) hd (openQty_pendingCancel hlive))
    (openQty_setSlot (.inr rfl) hd (openQty_pendingCancel hlive))

theorem TradeEngine.Limited.newOrder (h : e.Limited t)
    (hcfg : (e.riskCfg t).maxPosition + (e.riskCfg t).maxOrderSize ≤ 2 ^ 31 - 1) {t' : ℕ} {d : Side}
    (hd : d.IsBuyOrSell) {price : ℤ} {qty : ℕ} {loss : Bool}
    (hrisk : e.risk t' loss d qty = .allowed) :
    TradeEngine.Limited
      { e with orderManager := (e.orderManager.newOrder e.clientId t' price d qty).1 } t := by
  have hne : ∀ d', d'.IsBuyOrSell → (t, d') ≠ (t', d) →
      (e.orderManager.newOrder e.clientId t' price d qty).1.slot t d' = e.orderManager.slot t d' :=
    fun d' hd' => slot_setSlot_of_ne hd hd'
  by_cases ht : t = t'
  · subst ht
    have hself : (e.orderManager.newOrder e.clientId t price d qty).1.slot t d =
        ⟨t, e.orderManager.nextOrderId, d, price, qty, .pendingNew⟩ := slot_setSlot ..
    obtain ⟨hsize, hpos⟩ := checkPreTradeRisk_allowed hcfg h.position_le hd hrisk
    obtain ⟨hlow, hhigh⟩ := abs_le.mp hpos
    rcases hd with rfl | rfl
    · have hother := hne .sell (.inr rfl) (by simp)
      refine ⟨?_, hother ▸ h.sellSize, ?_, hother ▸ h.lower⟩
      · rw [hself]
        exact hsize
      · rw [hself]
        simpa [OMOrder.openQty, sideToValue] using hhigh
    · have hother := hne .buy (.inl rfl) (by simp)
      refine ⟨hother ▸ h.buySize, ?_, hother ▸ h.upper, ?_⟩
      · rw [hself]
        exact hsize
      · rw [hself]
        simpa [OMOrder.openQty, sideToValue, sub_eq_add_neg] using hlow
  · refine h.setSlot ?_ ?_
    · rw [hne .buy (.inl rfl) fun he => ht (Prod.mk.inj he).1]
    · rw [hne .sell (.inr rfl) fun he => ht (Prod.mk.inj he).1]

theorem TradeEngine.Limited.moveOrder (h : e.Limited t)
    (hcfg : (e.riskCfg t).maxPosition + (e.riskCfg t).maxOrderSize ≤ 2 ^ 31 - 1) {t' : ℕ} {d : Side}
    (hd : d.IsBuyOrSell) (price : ℤ) (qty : ℕ) (loss : Bool) :
    (e.moveOrder t' price d qty loss).1.Limited t := by
  unfold TradeEngine.moveOrder
  rcases moveOrder_cases e.orderManager e.clientId t' price d qty (e.risk t' loss d qty) with
    hr | ⟨-, -, hrisk, hr⟩ | ⟨hlive, hr⟩
  · simpa only [hr] using h
  · simp only [hr]
    exact h.newOrder hcfg hd hrisk
  · simp only [hr]
    exact h.cancelOrder hd hlive

theorem TradeEngine.Limited.cancelLive (h : e.Limited t) {t' : ℕ} {d : Side}
    (hd : d.IsBuyOrSell) : (e.cancelLive t' d).1.Limited t := by
  unfold TradeEngine.cancelLive
  rcases cancelLive_cases e.orderManager e.clientId t' d with ⟨-, hr⟩ | ⟨hlive, hr⟩
  · simpa only [hr] using h
  · simp only [hr]
    exact h.cancelOrder hd hlive

theorem openQty_of_open {o : OMOrder} (h : o.IsOpen) : o.openQty = o.qty := by
  rcases h with h | h | h <;> simp [OMOrder.openQty, h]

theorem openQty_filled {o : OMOrder} {r : MEClientResponse} (hr : r.type = .filled) (h : o.IsOpen) :
    (o.onResponse r).openQty = r.leavesQty := by
  rw [onResponse_filled hr]
  by_cases h0 : r.leavesQty = 0
  · simp [OMOrder.openQty, h0]
  · simp only [if_neg h0]
    exact openQty_of_open h

theorem addFill_position {p : PositionInfo} {r : MEClientResponse} (hs : r.side.IsBuyOrSell)
    (hexec : (r.execQty : ℤ) < 2 ^ 31)
    (h0 : -2 ^ 31 ≤ p.position - r.execQty) (h1 : p.position + r.execQty < 2 ^ 31) :
    (p.addFill r).position = p.position + r.execQty * sideToValue r.side := by
  have hq : int32 r.execQty = r.execQty := int32_eq (by omega) hexec
  unfold PositionInfo.addFill
  rw [hq]
  refine int32_eq ?_ ?_ <;> rcases hs with hs | hs <;> rw [hs] <;> simp only [sideToValue] <;> omega

theorem TradeEngine.Limited.fill (h : e.Limited t)
    (hcfg : (e.riskCfg t).maxPosition + (e.riskCfg t).maxOrderSize ≤ 2 ^ 31 - 1)
    {r : MEClientResponse} (hs : r.side.IsBuyOrSell) (hticker : r.tickerId = t)
    (htype : r.type = .filled) (hopen : (e.orderManager.slot t r.side).IsOpen)
    (hexec : r.execQty ≤ (e.orderManager.slot t r.side).qty)
    (hleaves : r.leavesQty = (e.orderManager.slot t r.side).qty - r.execQty)
    (he : e.onOrderUpdate r = .ok e') : e'.Limited t := by
  have hself : e'.orderManager.slot t r.side = (e.orderManager.slot t r.side).onResponse r := by
    rw [TradeEngine.onOrderUpdate_eq he, hticker]
    exact slot_setSlot ..
  have hother : e'.orderManager.slot t r.side.opposite = e.orderManager.slot t r.side.opposite := by
    rw [TradeEngine.onOrderUpdate_eq he, hticker]
    exact slot_setSlot_of_ne hs hs.opposite fun h => hs.opposite_ne (Prod.mk.inj h).2
  have hcfg' : e'.riskCfg = e.riskCfg := by rw [TradeEngine.onOrderUpdate_eq he]
  have hpos : (e'.positions t).position = ((e.positions t).addFill r).position := by
    rw [TradeEngine.onOrderUpdate_eq he, if_pos htype, hticker]
    dsimp only
    rw [Function.update_self]
  have hqty := openQty_of_open hopen
  have hafter : (e'.orderManager.slot t r.side).openQty = r.leavesQty :=
    hself ▸ openQty_filled htype hopen
  have hbs := h.buySize
  have hss := h.sellSize
  have hup := h.upper
  have hlow := h.lower
  have hsize : (e.orderManager.slot t r.side).qty ≤ (e.riskCfg t).maxOrderSize := by
    rw [← hqty]
    rcases hs with hs | hs <;> rw [hs] <;> assumption
  rw [addFill_position hs (by omega) (by omega) (by omega)] at hpos
  unfold TradeEngine.Limited
  rw [hcfg', hpos]
  rcases hs with hs | hs <;> simp only [hs, Side.opposite, sideToValue] at * <;>
    constructor <;> simp only [hafter, hother] <;> omega

theorem TradeEngine.Limited.deliver (h : s.client.Limited t) (hi : s.Inv c B owner)
    (hcfg : (s.client.riskCfg t).maxPosition + (s.client.riskCfg t).maxOrderSize ≤ 2 ^ 31 - 1)
    {r : MEClientResponse} {rs : List MEClientResponse} (hresp : s.responses = r :: rs)
    (he : s.client.onOrderUpdate r = .ok e') : e'.Limited t := by
  obtain ⟨-, hside⟩ := hi.responses r (hresp ▸ List.mem_cons_self ..)
  rcases hside with hs | ⟨htype, hinvalid⟩
  · have hhead : (s.view B r.tickerId r.side).responses =
        r :: slotResponses r.tickerId r.side rs := by
      simp [Session.view, hresp, slotResponses_cons]
    obtain ⟨-, hfound⟩ := (hi.slots r.tickerId r.side hs).head hhead
    by_cases hticker : r.tickerId = t
    · subst hticker
      rcases hfound with ⟨htype, hstate⟩ | ⟨htype, hstate, -, hexec, hleaves⟩ | ⟨htype, hstate⟩
      · rw [TradeEngine.onOrderUpdate_eq he, if_neg (by simp [htype])]
        have hopen : ((s.slot r.tickerId r.side).onResponse r).openQty =
            (s.slot r.tickerId r.side).openQty := by
          rw [onResponse_accepted htype]
          exact (openQty_of_open (o := s.slot r.tickerId r.side) (.inl hstate)).symm
        exact h.setSlot (openQty_setSlot (.inl rfl) hs hopen) (openQty_setSlot (.inr rfl) hs hopen)
      · exact h.fill hcfg hs rfl htype (.inr hstate) hexec hleaves he
      · have hself : e'.orderManager.slot r.tickerId r.side =
            (s.slot r.tickerId r.side).onResponse r := by
          rw [TradeEngine.onOrderUpdate_eq he]
          exact slot_setSlot ..
        have hother : e'.orderManager.slot r.tickerId r.side.opposite =
            s.slot r.tickerId r.side.opposite := by
          rw [TradeEngine.onOrderUpdate_eq he]
          exact slot_setSlot_of_ne hs hs.opposite fun h => hs.opposite_ne (Prod.mk.inj h).2
        have hzero : (e'.orderManager.slot r.tickerId r.side).openQty = 0 := by
          rw [hself, onResponse_canceled htype]
          rfl
        have hpos : e'.positions = s.client.positions := by
          rw [TradeEngine.onOrderUpdate_eq he, if_neg (by simp [htype])]
        have hcfg' : e'.riskCfg = s.client.riskCfg := by rw [TradeEngine.onOrderUpdate_eq he]
        have hbs := h.buySize
        have hss := h.sellSize
        have hup := h.upper
        have hlow := h.lower
        unfold TradeEngine.Limited
        rw [hcfg', hpos]
        unfold Session.slot at hother
        rcases hs with hs | hs <;> simp only [hs, Side.opposite] at * <;>
          constructor <;> simp only [hzero, hother] <;> omega
    · rw [TradeEngine.onOrderUpdate_eq he]
      have hne : ∀ d, (t, d) ≠ (r.tickerId, r.side) := fun d h => hticker (Prod.mk.inj h).1.symm
      have hpos : (if r.type = .filled then Function.update s.client.positions r.tickerId
          ((s.client.positions r.tickerId).addFill r) else s.client.positions) t =
          s.client.positions t := by
        split_ifs
        · exact Function.update_of_ne (Ne.symm hticker) ..
        · rfl
      unfold TradeEngine.Limited
      dsimp only
      rw [hpos, slot_setSlot_of_ne hs (.inl rfl) (hne _), slot_setSlot_of_ne hs (.inr rfl) (hne _)]
      exact h
  · rw [TradeEngine.onOrderUpdate_eq he, if_neg (by simp [htype])]
    have hsame : (s.client.orderManager.slot r.tickerId r.side).onResponse r =
        s.client.orderManager.slot r.tickerId r.side := by
      simp [OMOrder.onResponse, htype]
    rw [hsame, setSlot_slot]
    exact h

end Steps

section Runs

variable {c t : ℕ} {cfg : ℕ → RiskCfg} {hysteresis : ℕ → ℤ} {s s' : Session} {a : Action}
  {B : IndexedBooks} {owner : ℕ → ℕ × Side}

theorem Session.Inv.limited_step (hi : s.Inv c B owner) (hs : s.Next a s')
    (hcfg : (s.client.riskCfg t).maxPosition + (s.client.riskCfg t).maxOrderSize ≤ 2 ^ 31 - 1)
    (h : s.client.Limited t) : s'.client.riskCfg = s.client.riskCfg ∧ s'.client.Limited t := by
  obtain he | ⟨t', bid, ask, clip, loss, he⟩ | ⟨t', he⟩ | ⟨r, rs, hresps, he⟩ :=
    Session.client_cases hs
  · rw [he]
    exact ⟨rfl, h⟩
  · rw [he]
    exact ⟨rfl, (h.moveOrder hcfg (.inl rfl) bid clip loss).moveOrder hcfg (.inr rfl) ask clip loss⟩
  · rw [he]
    exact ⟨rfl, (h.cancelLive (.inl rfl)).cancelLive (.inr rfl)⟩
  · exact ⟨by rw [TradeEngine.onOrderUpdate_eq he], h.deliver hi hcfg hresps he⟩

theorem position_limit_holds (checked : Bool) (hc : c < meMaxNumClients)
    (hcfg : (cfg t).maxPosition + (cfg t).maxOrderSize ≤ 2 ^ 31 - 1)
    (h : Session.Run c (fun _ _ => True) (Session.new checked c cfg hysteresis) s)
    (hids : s.nextOrderId ≤ meMaxOrderIds) :
    |(s.client.positions t).position| ≤ (cfg t).maxPosition ∧
      (s.client.positions t).position + (s.slot t .buy).openQty ≤ (cfg t).maxPosition ∧
      -(cfg t).maxPosition ≤ (s.client.positions t).position - (s.slot t .sell).openQty := by
  have key : (∃ B owner, s.Inv c B owner) ∧ s.client.riskCfg = cfg ∧ s.client.Limited t := by
    induction h with
    | refl =>
      refine ⟨⟨_, _, Session.inv_new checked c cfg hysteresis⟩, rfl, ?_⟩
      constructor <;> simp [Session.new, TradeEngine.new, OrderManager.new, OrderManager.slot,
        OMOrder.default, OMOrder.openQty]
    | step _ hx hb ih =>
      obtain ⟨⟨B, owner, hi⟩, hcfg', hlim⟩ := ih ((Session.le_nextOrderId hb).trans hids)
      obtain ⟨B', owner', hi', -⟩ := hi.step hc hx.1 hb hids
      obtain ⟨hcfg'', hlim'⟩ := hi.limited_step hb (hcfg'.symm ▸ hcfg) hlim
      exact ⟨⟨B', owner', hi'⟩, hcfg''.trans hcfg', hlim'⟩
  obtain ⟨-, rfl, hlim⟩ := key
  exact ⟨hlim.position_le, hlim.upper, hlim.lower⟩

theorem position_limit_holds_sample :
    ∃ s, (Session.new true 1 (fun _ => ⟨10, 15⟩) fun _ => 0).run quoteActions = .ok s ∧
      (s.client.positions 0).position = 4 ∧ (s.slot 0 .buy).openQty = 6 ∧
      |(s.client.positions 0).position| ≤ 15 ∧
      (s.client.positions 0).position + (s.slot 0 .buy).openQty ≤ 15 ∧
      -15 ≤ (s.client.positions 0).position - (s.slot 0 .sell).openQty := by
  obtain ⟨s, hrun, hobs⟩ := map_eq_ok (show
    ((Session.new true 1 (fun _ => ⟨10, 15⟩) fun _ => 0).run quoteActions).map (fun s =>
      (s.nextOrderId, (s.client.positions 0).position, (s.slot 0 .buy).openQty)) = .ok (3, 4, 6)
    by decide +kernel)
  obtain ⟨hids, hpos, hqty⟩ := Prod.mk.inj hobs |>.imp_right Prod.mk.inj
  refine ⟨s, hrun, hpos, hqty, ?_⟩
  exact @position_limit_holds 1 0 (fun _ => ⟨10, 15⟩) (fun _ => 0) s true (by decide) (by decide)
    (.of_run hrun (by decide) fun _ _ _ => trivial) (by rw [hids]; decide)

end Runs

end Trading
