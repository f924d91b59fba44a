import TradingEcosystem.Trading.ClientBook

namespace Trading

open Common Exchange

def Names (m : MarketOrderBook) (u : MEMarketUpdate) : Prop :=
  ∃ a o, m.oidToOrder u.orderId = some a ∧ m.book.order a = .ok o ∧ o.ids = u.orderId ∧
    o.side = u.side ∧ o.price = u.price

def Joins (m : MarketOrderBook) (u : MEMarketUpdate) : Prop :=
  ∀ a, m.book.getOrdersAtPrice u.price = some a → (m.book.levelAt a).side = u.side

/-- MODIFY and CANCEL name a resting order; an ADD opens a level or joins one of its own side. -/
def Clean (m : MarketOrderBook) (u : MEMarketUpdate) : Prop :=
  match u.type with
  | .add => Joins m u
  | .modify => Names m u
  | .cancel => Names m u
  | _ => True

def CleanRun (m : MarketOrderBook) : List MEMarketUpdate → Prop
  | [] => True
  | u :: us => Clean m u ∧ ∀ m' c, m.onMarketUpdate u = .ok (m', c) → CleanRun m' us

variable {m : MarketOrderBook} {s : Ladders MarketOrder} {u : MEMarketUpdate}

theorem Mirrors.names (h : Mirrors m s) (hu : Refers s u) : Names m u := by
  obtain ⟨a, hl, hs⟩ := h.linked
  obtain ⟨o, ho, hid, hside, hprice⟩ := hu
  rw [hs, Ladders.entries_mapOrders] at ho
  obtain ⟨e, he, rfl⟩ := List.mem_map.mp ho
  obtain ⟨-, -, -, o, ho, hinfo⟩ := hl.stores.order he
  refine ⟨e.1, o, (hl.index _ _).mpr ⟨e, he, rfl, hid⟩, ho, ?_⟩
  rw [← hid, ← hside, ← hprice, ← hinfo]
  exact ⟨rfl, rfl, rfl⟩

theorem Mirrors.joins (h : Mirrors m s) (hu : Addable s u) : Joins m u := by
  obtain ⟨a, hl, hs⟩ := h.linked
  obtain ⟨own, opp, hrep, -, hopp⟩ := hl.stores.rep hu.side
  intro x hx
  obtain ⟨L, hL, rfl, hi⟩ := (hrep.index _ _).mp hx
  have hprice : L.price = u.price := priceToIndex_inj (hrep.inRange L hL) hu.price hi
  rcases List.mem_append.mp hL with hL | hL
  · exact (hrep.levelRep hL).side_eq
  · refine absurd ?_ hu.free
    rw [hs, Ladders.side_mapOrders, Ladder.map_price_mapOrders, hopp, LevelShape.prices_view]
    exact List.mem_map.mpr ⟨L, hL, hprice⟩

theorem Mirrors.not_joins (h : Mirrors m s) {side : Side} (hs : side.IsBuyOrSell)
    (hp : u.price ∈ (s.side side).map Level.price) (hu : u.side ≠ side) : ¬ Joins m u := by
  obtain ⟨a, hl, rfl⟩ := h.linked
  obtain ⟨own, opp, hrep, hown, -⟩ := hl.stores.rep hs
  rw [Ladders.side_mapOrders, Ladder.map_price_mapOrders, hown, LevelShape.prices_view] at hp
  obtain ⟨L, hL, hLp⟩ := List.mem_map.mp hp
  intro hj
  have hside := hj L.addr (hLp ▸ hrep.getOrdersAtPrice (List.mem_append_left _ hL))
  rw [(hrep.levelRep hL).side_eq] at hside
  exact hu hside.symm

theorem Mirrors.clean (h : Mirrors m s) (hu : Applicable s u) : Clean m u := by
  unfold Applicable at hu
  unfold Clean
  cases ht : u.type with
  | add =>
    simp only [ht] at hu
    exact h.joins hu
  | modify =>
    simp only [ht] at hu
    exact h.names hu.1
  | cancel =>
    simp only [ht] at hu
    exact h.names hu
  | _ => trivial

theorem Mirrors.cleanRun {us : List MEMarketUpdate} (h : Mirrors m s) (hu : ApplicableAll s us) :
    CleanRun m us := by
  induction us generalizing m s with
  | nil => trivial
  | cons u us ih =>
    refine ⟨h.clean hu.1, fun m' c hm => ?_⟩
    obtain ⟨m₁, c₁, hstep, h₁⟩ := h.step hu.1
    rw [hstep] at hm
    cases hm
    exact ih h₁ hu.2

theorem along_append {R : MarketOrderBook → List MEMarketUpdate → Prop}
    {P : MarketOrderBook → MEMarketUpdate → Prop} (hnil : ∀ m, R m [])
    (hcons : ∀ {m u us}, R m (u :: us) ↔
      P m u ∧ ∀ m' c, m.onMarketUpdate u = .ok (m', c) → R m' us) {us vs : List MEMarketUpdate} :
    R m (us ++ vs) ↔ R m us ∧ ∀ m', m.run us = .ok m' → R m' vs := by
  induction us generalizing m with
  | nil =>
    refine ⟨fun h => ⟨hnil m, ?_⟩, fun h => h.2 m rfl⟩
    intro m' hm
    cases hm
    exact h
  | cons u us ih =>
    simp only [List.cons_append, hcons, ih, and_assoc]
    refine and_congr_right fun _ => ⟨fun h => ⟨fun m' c hm => (h m' c hm).1, ?_⟩, ?_⟩
    · intro m₂ hrun
      obtain ⟨⟨m₁, c⟩, hstep, hrun⟩ := bind_eq_ok.mp hrun
      exact (h m₁ c hstep).2 m₂ hrun
    · rintro ⟨h₁, h₂⟩ m' c hm
      refine ⟨h₁ m' c hm, fun m₂ hrun => h₂ m₂ ?_⟩
      rw [MarketOrderBook.run, hm, ok_bind]
      exact hrun

theorem cleanRun_append {us vs : List MEMarketUpdate} :
    CleanRun m (us ++ vs) ↔ CleanRun m us ∧ ∀ m', m.run us = .ok m' → CleanRun m' vs :=
  along_append (fun _ => trivial) Iff.rfl

theorem run_append_eq_ok {m' : MarketOrderBook} {us vs : List MEMarketUpdate} :
    m.run (us ++ vs) = .ok m' ↔ ∃ m₁, m.run us = .ok m₁ ∧ m₁.run vs = .ok m' := by
  induction us generalizing m with
  | nil => simp [MarketOrderBook.run]
  | cons u us ih =>
    rw [List.cons_append, MarketOrderBook.run, MarketOrderBook.run]
    cases m.onMarketUpdate u with
    | error f => simp
    | ok p => exact ih

def Takes (m : MarketOrderBook) (us : List MEMarketUpdate) (m' : MarketOrderBook) : Prop :=
  CleanRun m us ∧ m.run us = .ok m'

section Takes

variable {m₁ m₂ : MarketOrderBook} {us vs : List MEMarketUpdate}

theorem takes_nil (m : MarketOrderBook) : Takes m [] m := ⟨trivial, rfl⟩

theorem takes_single {call : Callback} (hclean : Clean m u)
    (h : m.onMarketUpdate u = .ok (m₁, call)) : Takes m [u] m₁ := by
  refine ⟨⟨hclean, fun _ _ _ => trivial⟩, ?_⟩
  rw [MarketOrderBook.run, h]
  rfl

theorem Takes.append (h₁ : Takes m us m₁) (h₂ : Takes m₁ vs m₂) : Takes m (us ++ vs) m₂ := by
  refine ⟨cleanRun_append.mpr ⟨h₁.1, ?_⟩, ?_⟩
  · intro m' hm'
    rw [h₁.2] at hm'
    cases hm'
    exact h₂.1
  · exact run_append_eq_ok.mpr ⟨m₁, h₁.2, h₂.2⟩

end Takes

end Trading
