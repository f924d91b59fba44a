import TradingEcosystem.Common.BookOwners
import TradingEcosystem.Exchange.MatchingEngine

namespace Exchange

open Common

variable {P : ℕ → Prop}

def AddressedTo (P : ℕ → Prop) (events : List Event) : Prop :=
  ∀ r ∈ clientResponses events, P r.clientId

theorem AddressedTo.append {xs ys : List Event} (hx : AddressedTo P xs) (hy : AddressedTo P ys) :
    AddressedTo P (xs ++ ys) := by
  intro r hr
  rw [clientResponses_append] at hr
  exact (List.mem_append.mp hr).elim (hx r) (hy r)

theorem addressedTo_nil : AddressedTo P [] := List.forall_mem_nil _

theorem addressedTo_update (u : MEMarketUpdate) : AddressedTo P [.update u] := addressedTo_nil

theorem addressedTo_response {r : MEClientResponse} (h : P r.clientId) :
    AddressedTo P [.response r] := by
  intro r' hr'
  obtain rfl := List.mem_singleton.mp hr'
  exact h

theorem addressedTo_fillEvents {g : MEOrderBook.Aggressor} {o : MEOrder} (hg : P g.clientId)
    (ho : P o.ids.clientId) (fillQty leavesQty : ℕ) :
    AddressedTo P (MEOrderBook.fillEvents g o fillQty leavesQty) := by
  intro r hr
  have hr' : r ∈ [_, _] := hr
  rcases List.mem_cons.mp hr' with rfl | hr'
  · exact hg
  · obtain rfl := List.mem_singleton.mp hr'
    exact ho

namespace MEOrderBook

variable {b b' : MEOrderBook} {g : Aggressor} {events : List Event}

def Owned (b : MEOrderBook) (P : ℕ → Prop) : Prop :=
  ∃ G, b.book.Owned (fun ids => P ids.clientId) G

theorem owned_new (checked : Bool) (tickerId : ℕ) : (MEOrderBook.new checked tickerId).Owned P :=
  ⟨_, BookStore.owned_new checked _⟩

theorem Owned.mono {P' : ℕ → Prop} (h : b.Owned P) (himp : ∀ c, P c → P' c) : b.Owned P' := by
  obtain ⟨G, hG⟩ := h
  exact ⟨G, hG.mono fun ids => himp ids.clientId⟩

theorem setOrder_book {clientId orderId : ℕ} {p : Option ℕ}
    (h : b.setOrder clientId orderId p = .ok b') : b'.book = b.book := by
  obtain ⟨_, -, h⟩ := bind_eq_ok.mp h
  cases h
  rfl

theorem removeOrder_owned {G : ℕ → Prop} {order : ℕ}
    (h : b.book.Owned (fun ids => P ids.clientId) G) (hb : b.removeOrder order = .ok b') :
    b'.book.Owned (fun ids => P ids.clientId) G := by
  obtain ⟨book, hunlink, hb⟩ := bind_eq_ok.mp hb
  obtain ⟨o, -, hb⟩ := bind_eq_ok.mp hb
  obtain ⟨b₁, hset, hb⟩ := bind_eq_ok.mp hb
  obtain ⟨book', hdealloc, hb⟩ := bind_eq_ok.mp hb
  cases hb
  rw [setOrder_book hset] at hdealloc
  exact (h.unlinkOrder hunlink).deallocateOrder hdealloc

theorem match_owned {G : ℕ → Prop} {passiveOrder leavesQty leavesQty' : ℕ}
    (h : b.book.Owned (fun ids => P ids.clientId) G) (hpassive : G passiveOrder) (hg : P g.clientId)
    (hb : b.match g passiveOrder leavesQty = .ok (b', leavesQty', events)) :
    b'.book.Owned (fun ids => P ids.clientId) G ∧ AddressedTo P events := by
  obtain ⟨o, ho, hb⟩ := bind_eq_ok.mp hb
  obtain ⟨book, hqty, hb⟩ := bind_eq_ok.mp hb
  have hfills := addressedTo_fillEvents hg (h.order hpassive ho)
    (min leavesQty o.qty) (leavesQty - min leavesQty o.qty)
  have hbook := h.setQty hqty
  dsimp only at hb
  split_ifs at hb
  · obtain ⟨b₁, hremove, hb⟩ := bind_eq_ok.mp hb
    cases hb
    exact ⟨removeOrder_owned hbook hremove, hfills.append (addressedTo_update _)⟩
  · cases hb
    exact ⟨hbook, hfills.append (addressedTo_update _)⟩

theorem matchLoop_owned {G : ℕ → Prop} (hg : P g.clientId) (price : ℤ) (fuel : ℕ)
    {leavesQty leavesQty' : ℕ} (h : b.book.Owned (fun ids => P ids.clientId) G)
    (hb : matchLoop g price fuel b leavesQty = .ok (b', leavesQty', events)) :
    b'.book.Owned (fun ids => P ids.clientId) G ∧ AddressedTo P events := by
  induction fuel generalizing b leavesQty events with
  | zero => cases hb
  | succ fuel ih =>
    unfold matchLoop at hb
    split_ifs at hb
    · cases hb
      exact ⟨h, addressedTo_nil⟩
    split at hb
    · cases hb
      exact ⟨h, addressedTo_nil⟩
    · obtain ⟨l, hl, hb⟩ := bind_eq_ok.mp hb
      obtain ⟨first, hfirst, hb⟩ := bind_eq_ok.mp hb
      obtain ⟨o, -, hb⟩ := bind_eq_ok.mp hb
      split_ifs at hb
      · cases hb
        exact ⟨h, addressedTo_nil⟩
      · obtain ⟨⟨b₁, leaves₁, events₁⟩, hmatch, hb⟩ := bind_eq_ok.mp hb
        obtain ⟨⟨b₂, leaves₂, events₂⟩, hloop, hb⟩ := bind_eq_ok.mp hb
        cases hb
        obtain ⟨h₁, hev₁⟩ := match_owned h (h.level hl hfirst) hg hmatch
        obtain ⟨h₂, hev₂⟩ := ih h₁ hloop
        exact ⟨h₂, hev₁.append hev₂⟩

theorem Owned.checkForMatch {clientId clientOrderId tickerId qty newMarketOrderId leavesQty : ℕ}
    {side : Side} {price : ℤ} (h : b.Owned P) (hc : P clientId)
    (hb : b.checkForMatch clientId clientOrderId tickerId side price qty newMarketOrderId =
      .ok (b', leavesQty, events)) : b'.Owned P ∧ AddressedTo P events := by
  obtain ⟨G, hG⟩ := h
  unfold MEOrderBook.checkForMatch at hb
  dsimp only at hb
  split_ifs at hb
  · obtain ⟨hG', hev⟩ := matchLoop_owned (g := ⟨_, clientId, _, _, _⟩) hc price _ hG hb
    exact ⟨⟨G, hG'⟩, hev⟩
  · cases hb
    exact ⟨⟨G, hG⟩, addressedTo_nil⟩

theorem Owned.rest {clientId clientOrderId tickerId newMarketOrderId leavesQty : ℕ} {side : Side}
    {price : ℤ} (h : b.Owned P) (hc : P clientId)
    (hb : b.rest clientId clientOrderId tickerId newMarketOrderId side price leavesQty =
      .ok (b', events)) : b'.Owned P ∧ AddressedTo P events := by
  obtain ⟨G, hG⟩ := h
  unfold MEOrderBook.rest at hb
  split_ifs at hb
  · cases hb
    exact ⟨⟨G, hG⟩, addressedTo_nil⟩
  · obtain ⟨priority, -, hb⟩ := bind_eq_ok.mp hb
    obtain ⟨⟨order, book⟩, halloc, hb⟩ := bind_eq_ok.mp hb
    obtain ⟨b₁, hadd, hb⟩ := bind_eq_ok.mp hb
    cases hb
    obtain ⟨book', hlink, hadd⟩ := bind_eq_ok.mp hadd
    obtain ⟨o, -, hadd⟩ := bind_eq_ok.mp hadd
    have hlinked := (hG.allocateOrder halloc hc).linkOrder (.inr rfl) hlink
    refine ⟨⟨fun a => G a ∨ a = order, ?_⟩, addressedTo_update _⟩
    rw [setOrder_book hadd]
    exact hlinked

theorem Owned.add {clientId clientOrderId tickerId qty : ℕ} {side : Side} {price : ℤ}
    (h : b.Owned P) (hc : P clientId)
    (hb : b.add clientId clientOrderId tickerId side price qty = .ok (b', events)) :
    b'.Owned P ∧ AddressedTo P events := by
  obtain ⟨⟨b₁, leavesQty, fills⟩, hmatch, hb⟩ := bind_eq_ok.mp hb
  obtain ⟨⟨b₂, added⟩, hrest, hb⟩ := bind_eq_ok.mp hb
  cases hb
  obtain ⟨h₁, hfills⟩ := Owned.checkForMatch (b := b.generateNewMarketOrderId.2) h hc hmatch
  obtain ⟨h₂, hadded⟩ := h₁.rest hc hrest
  exact ⟨h₂, (addressedTo_response (r := ⟨_, clientId, _, _, _, _, _, _, _⟩) hc).append
    (hfills.append hadded)⟩

theorem Owned.cancel {clientId orderId tickerId : ℕ} (h : b.Owned P) (hc : P clientId)
    (hb : b.cancel clientId orderId tickerId = .ok (b', events)) :
    b'.Owned P ∧ AddressedTo P events := by
  obtain ⟨found, -, hb⟩ := bind_eq_ok.mp hb
  cases found with
  | none =>
    cases hb
    exact ⟨h, addressedTo_response hc⟩
  | some a =>
    obtain ⟨G, hG⟩ := h
    obtain ⟨o, -, hb⟩ := bind_eq_ok.mp hb
    obtain ⟨b₁, hremove, hb⟩ := bind_eq_ok.mp hb
    cases hb
    exact ⟨⟨G, removeOrder_owned hG hremove⟩,
      (addressedTo_update _).append (addressedTo_response hc)⟩

end MEOrderBook

namespace MatchingEngine

variable {e e' : MatchingEngine} {req : MEClientRequest} {events : List Event}

def Owned (e : MatchingEngine) (P : ℕ → Prop) : Prop := ∀ t, (e.tickerOrderBook t).Owned P

theorem owned_new (checked : Bool) : (MatchingEngine.new checked).Owned P :=
  fun t => MEOrderBook.owned_new checked t

theorem Owned.mono {P' : ℕ → Prop} (h : e.Owned P) (himp : ∀ c, P c → P' c) : e.Owned P' :=
  fun t => (h t).mono himp

theorem Owned.setBook (h : e.Owned P) {book : MEOrderBook} (hbook : book.Owned P) (t : ℕ) :
    (e.setBook t book).Owned P := by
  intro t'
  change (Function.update e.tickerOrderBook t book t').Owned P
  by_cases ht : t' = t
  · subst ht
    rw [Function.update_self]
    exact hbook
  · rw [Function.update_of_ne ht]
    exact h t'

theorem Owned.processClientRequest (h : e.Owned P) (hreq : P req.clientId)
    (hr : e.processClientRequest req = .ok (e', events)) : e'.Owned P ∧ AddressedTo P events := by
  obtain ⟨_, -, hr⟩ := bind_eq_ok.mp hr
  dsimp only at hr
  split at hr
  · obtain ⟨⟨book, events'⟩, hadd, hr⟩ := bind_eq_ok.mp hr
    cases hr
    obtain ⟨hbook, hev⟩ := (h req.tickerId).add hreq hadd
    exact ⟨h.setBook hbook _, hev⟩
  · obtain ⟨⟨book, events'⟩, hcancel, hr⟩ := bind_eq_ok.mp hr
    cases hr
    obtain ⟨hbook, hev⟩ := (h req.tickerId).cancel hreq hcancel
    exact ⟨h.setBook hbook _, hev⟩
  · cases hr

end MatchingEngine

end Exchange
