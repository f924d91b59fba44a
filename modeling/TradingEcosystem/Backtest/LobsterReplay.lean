import TradingEcosystem.Backtest.LobsterReader
import TradingEcosystem.Trading.CleanRun

namespace Backtest

open Common Exchange Trading

def oidBase (side : Side) : ℕ := if side = .buy then 0 else kAskOidOffset

abbrev Depth := Side → ℤ → Option ℕ

def Depth.set (f : Depth) (side : Side) (p : ℤ) (q : Option ℕ) : Depth :=
  fun d x => if d = side ∧ x = p then q else f d x

structure Shows (s : Ladders MarketOrder) (f : Depth) : Prop where
  sorted : ∀ {side}, side.IsBuyOrSell → Ladder.Sorted (better side) (s.side side)
  level : ∀ {side}, side.IsBuyOrSell → ∀ L ∈ s.side side, ∃ o : MarketOrder, L = ⟨o.price, [o]⟩ ∧
    o.side = side ∧ o.ids = levelOid (oidBase side) o.price ∧ f side o.price = some o.qty
  total : ∀ {side}, side.IsBuyOrSell → ∀ p q, f side p = some q → p ∈ (s.side side).map Level.price
  inRange : ∀ {side}, side.IsBuyOrSell → ∀ p q, f side p = some q → PriceInRange p ∧ q < 2 ^ 32

theorem levelOid_of_inRange (side : Side) {p : ℤ} (hp : PriceInRange p) :
    (levelOid (oidBase side) p : ℤ) = oidBase side + p := by
  have h : (meMaxPriceLevels : ℤ) = 131072 := rfl
  have hb : (oidBase side : ℤ) ≤ 600000 := by
    unfold oidBase kAskOidOffset
    split_ifs <;> norm_num
  obtain ⟨h0, h1⟩ := hp
  unfold levelOid
  omega

theorem levelOid_lt {side : Side} {p : ℤ} (hp : PriceInRange p) :
    levelOid (oidBase side) p < meMaxOrderIds := by
  have h : (meMaxPriceLevels : ℤ) = 131072 := rfl
  have h' : meMaxOrderIds = 1048576 := rfl
  have hb : (oidBase side : ℤ) ≤ 600000 := by
    unfold oidBase kAskOidOffset
    split_ifs <;> norm_num
  have := levelOid_of_inRange side hp
  obtain ⟨h0, h1⟩ := hp
  omega

theorem levelOid_inj {a b : Side} {p q : ℤ} (ha : a.IsBuyOrSell) (hb : b.IsBuyOrSell)
    (hp : PriceInRange p) (hq : PriceInRange q)
    (h : levelOid (oidBase a) p = levelOid (oidBase b) q) : a = b ∧ p = q := by
  have heq : (oidBase a : ℤ) + p = oidBase b + q := by
    rw [← levelOid_of_inRange a hp, ← levelOid_of_inRange b hq, h]
  have hN : (meMaxPriceLevels : ℤ) = 131072 := rfl
  obtain ⟨hp0, hp1⟩ := hp
  obtain ⟨hq0, hq1⟩ := hq
  rcases ha with rfl | rfl <;> rcases hb with rfl | rfl <;>
    simp [oidBase, kAskOidOffset] at heq ⊢ <;> omega

section Steps

variable {s : Ladders MarketOrder} {f : Depth} {side : Side} {p : ℤ} {u : MEMarketUpdate}

theorem Shows.entry (h : Shows s f) (hs : side.IsBuyOrSell) {o : MarketOrder}
    (ho : o ∈ Ladder.entries (s.side side)) : ⟨o.price, [o]⟩ ∈ s.side side ∧ o.side = side ∧
      o.ids = levelOid (oidBase side) o.price ∧ f side o.price = some o.qty := by
  obtain ⟨L, hL, hoL⟩ := Ladder.mem_entries.mp ho
  obtain ⟨o', rfl, hside, hid, hf⟩ := h.level hs L hL
  obtain rfl := List.mem_singleton.mp hoL
  exact ⟨hL, hside, hid, hf⟩

theorem Shows.order (h : Shows s f) (hs : side.IsBuyOrSell) {q : ℕ} (hf : f side p = some q) :
    ∃ o ∈ Ladder.entries (s.side side), o.ids = levelOid (oidBase side) p ∧ o.side = side ∧
      o.price = p ∧ o.qty = q := by
  obtain ⟨L, hL, hLp⟩ := List.mem_map.mp (h.total hs p q hf)
  obtain ⟨o, rfl, hside, hid, ho⟩ := h.level hs L hL
  subst hLp
  rw [hf] at ho
  exact ⟨o, Ladder.mem_entries.mpr ⟨_, hL, by simp⟩, hid, hside, rfl, (Option.some.inj ho).symm⟩

theorem Shows.refers (h : Shows s f) (hs : side.IsBuyOrSell) {q : ℕ} (hf : f side p = some q)
    (hid : u.orderId = levelOid (oidBase side) p) (hside : u.side = side) (hp : u.price = p) :
    Refers s u := by
  obtain ⟨o, ho, hoid, hos, hop, -⟩ := h.order hs hf
  exact ⟨o, (s.mem_entries_side hs).mpr (.inl ho), hoid.trans hid.symm, hos.trans hside.symm,
    hop.trans hp.symm⟩

theorem Shows.mem_prices (h : Shows s f) (hs : side.IsBuyOrSell) :
    p ∈ (s.side side).map Level.price ↔ (f side p).isSome := by
  constructor
  · intro hp
    obtain ⟨L, hL, rfl⟩ := List.mem_map.mp hp
    obtain ⟨o, rfl, -, -, ho⟩ := h.level hs L hL
    simp [ho]
  · intro hp
    obtain ⟨q, hq⟩ := Option.isSome_iff_exists.mp hp
    exact h.total hs p q hq

theorem Shows.nodup_prices (h : Shows s f) (hs : side.IsBuyOrSell) :
    ((s.side side).map Level.price).Nodup := by
  apply (h.sorted hs).imp
  rintro a b hab rfl
  exact better_irrefl _ _ hab

theorem Shows.length_side (h : Shows s f) (hs : side.IsBuyOrSell) :
    (Ladder.entries (s.side side)).length < meMaxPriceLevels := by
  have hlen : ∀ ls : List (Level ℤ MarketOrder), (∀ L ∈ ls, ∃ o, L = ⟨o.price, [o]⟩) →
      (Ladder.entries ls).length = (ls.map Level.price).length := by
    intro ls hls
    induction ls with
    | nil => rfl
    | cons L ls ih =>
      obtain ⟨o, ho⟩ := hls L (List.mem_cons_self ..)
      rw [Ladder.entries_cons, List.length_append, ih fun K hK => hls K (List.mem_cons_of_mem _ hK),
        ho]
      simp [Nat.add_comm]
  rw [hlen _ fun L hL => (h.level hs L hL).imp fun _ ho => ho.1]
  refine BookStore.length_prices_lt (h.nodup_prices hs) ?_
  intro p hp
  obtain ⟨q, hq⟩ := Option.isSome_iff_exists.mp ((h.mem_prices hs).mp hp)
  exact (h.inRange hs p q hq).1

theorem Shows.room (h : Shows s f) : s.entries.length + 1 < meMaxOrderIds := by
  have hb := h.length_side (Or.inl rfl : Side.IsBuyOrSell .buy)
  have ha := h.length_side (Or.inr rfl : Side.IsBuyOrSell .sell)
  have hN : meMaxPriceLevels = 131072 := rfl
  have hM : meMaxOrderIds = 1048576 := rfl
  have : s.entries.length = (Ladder.entries (s.side .buy)).length +
      (Ladder.entries (s.side .sell)).length := List.length_append
  omega

theorem Shows.setSide (h : Shows s f) (hs : side.IsBuyOrSell) {ls : List (Level ℤ MarketOrder)}
    {q : Option ℕ} (hsorted : Ladder.Sorted (better side) ls)
    (hlevel : ∀ L ∈ ls, ∃ o : MarketOrder, L = ⟨o.price, [o]⟩ ∧ o.side = side ∧
      o.ids = levelOid (oidBase side) o.price ∧ f.set side p q side o.price = some o.qty)
    (htotal : ∀ x v, f.set side p q side x = some v → x ∈ ls.map Level.price)
    (hin : ∀ v, q = some v → PriceInRange p ∧ v < 2 ^ 32) :
    Shows (s.setSide side ls) (f.set side p q) := by
  have hother : ∀ d : Side, d.IsBuyOrSell → d ≠ side → (s.setSide side ls).side d = s.side d ∧
      ∀ x, f.set side p q d x = f d x := by
    intro d hd hne
    refine ⟨?_, fun x => if_neg fun hx => hne hx.1⟩
    rw [hs.eq_opposite hd hne.symm, Ladders.side_setSide_opposite _ hs]
  refine ⟨?_, ?_, ?_, ?_⟩
  · intro d hd
    by_cases hds : d = side
    · rw [hds, Ladders.side_setSide]
      exact hsorted
    · rw [(hother d hd hds).1]
      exact h.sorted hd
  · intro d hd
    by_cases hds : d = side
    · rw [hds, Ladders.side_setSide]
      exact hlevel
    · rw [(hother d hd hds).1]
      simp only [(hother d hd hds).2]
      exact h.level hd
  · intro d hd
    by_cases hds : d = side
    · rw [hds, Ladders.side_setSide]
      exact htotal
    · rw [(hother d hd hds).1]
      simp only [(hother d hd hds).2]
      exact h.total hd
  · intro d hd x v hx
    unfold Depth.set at hx
    split_ifs at hx with hc
    · rw [hc.2]
      exact hin v hx
    · exact h.inRange hd x v hx

theorem Shows.ids_eq_iff (h : Shows s f) (hs : side.IsBuyOrSell) (hp : PriceInRange p)
    {o : MarketOrder} (ho : o ∈ Ladder.entries (s.side side)) :
    o.ids = levelOid (oidBase side) p ↔ o.price = p := by
  obtain ⟨-, -, hid, hf⟩ := h.entry hs ho
  rw [hid]
  constructor
  · exact fun he => (levelOid_inj hs hs (h.inRange hs _ _ hf).1 hp he).2
  · exact fun he => by rw [he]

theorem Shows.cancel (h : Shows s f) (hs : side.IsBuyOrSell) {q : ℕ} (hf : f side p = some q)
    (ht : u.type = .cancel) (hid : u.orderId = levelOid (oidBase side) p) (hside : u.side = side)
    (hp : u.price = p) :
    Applicable s u ∧ Shows (applyUpdate s u) (f.set side p none) := by
  have hin := (h.inRange hs p q hf).1
  refine ⟨?_, ?_⟩
  · simp only [Applicable, ht]
    exact h.refers hs hf hid hside hp
  · simp only [applyUpdate, ht, Ladders.drop, hside]
    refine h.setSide hs ?_ ?_ ?_ fun _ hv => absurd hv.symm (Option.some_ne_none _)
    · exact (h.sorted hs).sublist (Ladder.prices_remove_sublist _ _)
    · intro K hK
      obtain ⟨hne, L, hL, hKp, hsub⟩ := Ladder.mem_remove hK
      obtain ⟨o, rfl, hos, hoid, hof⟩ := h.level hs L hL
      have hKo : K.orders = [o] := by
        rcases List.sublist_singleton.mp hsub with he | he
        · exact absurd he hne
        · exact he
      have hmem : o ∈ Ladder.entries (Ladder.remove
          (fun o => decide (id o.ids = u.orderId)) (s.side side)) :=
        Ladder.mem_entries.mpr ⟨K, hK, by simp [hKo]⟩
      rw [Ladder.entries_remove, List.mem_filter] at hmem
      have hop : o.price ≠ p := by
        rw [Ne, ← h.ids_eq_iff hs hin hmem.1, ← hid]
        simpa using hmem.2
      refine ⟨o, ?_, hos, hoid, ?_⟩
      · rw [← hKo]
        cases K
        exact congrArg (Level.mk · _) hKp
      · rw [Depth.set, if_neg fun hc => hop hc.2]
        exact hof
    · intro x v hx
      unfold Depth.set at hx
      split_ifs at hx with hc
      obtain ⟨o, ho, -, -, hox, -⟩ := h.order hs hx
      have hmem : o ∈ Ladder.entries (Ladder.remove
          (fun o => decide (id o.ids = u.orderId)) (s.side side)) := by
        rw [Ladder.entries_remove, List.mem_filter]
        refine ⟨ho, ?_⟩
        have : ¬ o.ids = u.orderId := by
          rw [hid, h.ids_eq_iff hs hin ho, hox]
          exact fun he => hc ⟨rfl, he⟩
        simpa using this
      obtain ⟨K, hK, hoK⟩ := Ladder.mem_entries.mp hmem
      obtain ⟨-, L, hL, hKp, hsub⟩ := Ladder.mem_remove hK
      obtain ⟨o', rfl, -⟩ := h.level hs L hL
      obtain rfl := List.mem_singleton.mp (hsub.subset hoK)
      exact List.mem_map.mpr ⟨K, hK, hKp.trans hox⟩

theorem Shows.modify (h : Shows s f) (hs : side.IsBuyOrSell) {q : ℕ} (hf : f side p = some q)
    (ht : u.type = .modify) (hid : u.orderId = levelOid (oidBase side) p) (hside : u.side = side)
    (hp : u.price = p) (hq : u.qty < 2 ^ 32) :
    Applicable s u ∧ Shows (applyUpdate s u) (f.set side p (some u.qty)) := by
  have hin := (h.inRange hs p q hf).1
  refine ⟨?_, ?_⟩
  · simp only [Applicable, ht]
    exact ⟨h.refers hs hf hid hside hp, hq⟩
  · simp only [applyUpdate, ht, Ladders.amend, hside]
    refine h.setSide hs ?_ ?_ ?_ ?_
    · rw [Ladder.Sorted, Ladder.update, Ladder.map_price_mapOrders]
      exact h.sorted hs
    · intro K hK
      obtain ⟨L, hL, rfl⟩ := List.mem_map.mp hK
      obtain ⟨o, rfl, hos, hoid, hof⟩ := h.level hs L hL
      have hiff := h.ids_eq_iff hs hin (Ladder.mem_entries.mpr ⟨_, hL, List.mem_singleton.mpr rfl⟩)
      simp only [id_eq, decide_eq_true_eq, List.map_cons, List.map_nil, hid, hiff]
      split_ifs with hop
      · exact ⟨o.withQty u.qty, rfl, hos, hoid, if_pos ⟨rfl, hop⟩⟩
      · exact ⟨o, rfl, hos, hoid, (if_neg fun hc => hop hc.2).trans hof⟩
    · intro x v hx
      rw [Ladder.update, Ladder.map_price_mapOrders]
      unfold Depth.set at hx
      split_ifs at hx with hc
      · rw [hc.2]
        exact h.total hs p q hf
      · exact h.total hs x v hx
    · intro v hv
      exact ⟨hin, Option.some.inj hv ▸ hq⟩

theorem Shows.add (h : Shows s f) (hs : side.IsBuyOrSell) (hf : f side p = none)
    (hopp : f side.opposite p = none) (hin : PriceInRange p) (ht : u.type = .add)
    (hid : u.orderId = levelOid (oidBase side) p) (hside : u.side = side) (hp : u.price = p)
    (hq : u.qty < 2 ^ 32) :
    Applicable s u ∧ Shows (applyUpdate s u) (f.set side p (some u.qty)) := by
  have hnew : p ∉ (s.side side).map Level.price := by simp [h.mem_prices hs, hf]
  refine ⟨?_, ?_⟩
  · simp only [Applicable, ht]
    refine ⟨hside ▸ hs, hp ▸ hin, hid ▸ levelOid_lt hin, hq, ?_, ?_, h.room⟩
    · intro o ho he
      rw [hid] at he
      rcases (s.mem_entries_side hs).mp ho with ho | ho
      · have hop := (h.ids_eq_iff hs hin ho).mp he
        obtain ⟨-, -, -, hof⟩ := h.entry hs ho
        rw [hop, hf] at hof
        cases hof
      · obtain ⟨-, -, hoid, hof⟩ := h.entry hs.opposite ho
        rw [hoid] at he
        exact hs.opposite_ne (levelOid_inj hs.opposite hs (h.inRange hs.opposite _ _ hof).1 hin he).1
    · rw [hside, hp, h.mem_prices hs.opposite, hopp]
      simp
  · simp only [applyUpdate, ht, Ladders.rest, marketOrder, hside, hp]
    refine h.setSide hs ?_ ?_ ?_ ?_
    · exact Ladder.sorted_insert (h.sorted hs)
    · intro K hK
      rcases Ladder.mem_insert hK with hK | rfl | ⟨L, hL, hLp, -⟩
      · obtain ⟨o, rfl, hos, hoid, hof⟩ := h.level hs K hK
        refine ⟨o, rfl, hos, hoid, (if_neg fun hc => hnew ?_).trans hof⟩
        exact List.mem_map.mpr ⟨_, hK, hc.2⟩
      · exact ⟨⟨u.orderId, side, p, u.qty, u.priority⟩, rfl, rfl, hid, if_pos ⟨rfl, rfl⟩⟩
      · exact absurd (List.mem_map.mpr ⟨L, hL, hLp⟩) hnew
    · intro x v hx
      unfold Depth.set at hx
      rw [Ladder.mem_prices_insert]
      split_ifs at hx with hc
      · exact .inl hc.2
      · exact .inr (h.total hs x v hx)
    · intro v hv
      exact ⟨hin, Option.some.inj hv ▸ hq⟩

end Steps

section Loops

variable {s : Ladders MarketOrder} {f : Depth} {side : Side} {m : MarketOrderBook}

def Depth.without (f : Depth) (side : Side) (cur : PriceMap) (l : List (Σ _ : ℤ, ℕ)) : Depth :=
  fun d x => if d = side ∧ x ∈ l.keys ∧ cur.lookup x = none then none else f d x

def Depth.with (f : Depth) (side : Side) (l : List (Σ _ : ℤ, ℕ)) : Depth :=
  fun d x => if d = side then l.dlookup x <|> f d x else f d x

theorem ne_of_notMem_keys {px : ℤ} {l : List (Σ _ : ℤ, ℕ)} (h : px ∉ l.keys) :
    ∀ e ∈ l, e.1 ≠ px := by
  rintro e he rfl
  have : e.1 ∈ l.keys := List.mem_keys_of_mem he
  exact h this

theorem Shows.cancels (tickerId : ℕ) (cur : PriceMap) {l : List (Σ _ : ℤ, ℕ)} (h : Shows s f)
    (hs : side.IsBuyOrSell) (hnd : l.NodupKeys) (hl : ∀ e ∈ l, f side e.1 = some e.2) :
    ApplicableAll s (LobsterReader.cancels tickerId side (oidBase side) cur l) ∧
      Shows (applyAll s (LobsterReader.cancels tickerId side (oidBase side) cur l))
        (f.without side cur l) := by
  induction l generalizing s f with
  | nil =>
    refine ⟨trivial, ?_⟩
    have : f.without side cur [] = f := by
      funext d x
      exact if_neg (by simp)
    rw [this]
    exact h
  | cons e l ih =>
    obtain ⟨px, q⟩ := e
    obtain ⟨hnot, hnd⟩ := List.nodupKeys_cons.mp hnd
    have hpx := hl ⟨px, q⟩ (List.mem_cons_self ..)
    have hne : ∀ e ∈ l, e.1 ≠ px := ne_of_notMem_keys hnot
    unfold LobsterReader.cancels
    split_ifs with hcur
    · have : f.without side cur (⟨px, q⟩ :: l) = f.without side cur l := by
        funext d x
        have : x = px → cur.lookup x ≠ none := by
          rintro rfl hn
          simp [hn] at hcur
        simp only [Depth.without, List.keys_cons, List.mem_cons]
        congr 1
        simp only [eq_iff_iff]
        tauto
      rw [this]
      exact ih h hnd fun e he => hl e (List.mem_cons_of_mem _ he)
    · have hstep := h.cancel hs hpx (u := LobsterReader.makeUpd tickerId .cancel
        (levelOid (oidBase side) px) side px 0 priorityInvalid) rfl rfl rfl rfl
      have hrest := ih hstep.2 hnd fun e he => by
        rw [Depth.set, if_neg fun hc => hne e he hc.2]
        exact hl e (List.mem_cons_of_mem _ he)
      refine ⟨⟨hstep.1, hrest.1⟩, ?_⟩
      have : f.without side cur (⟨px, q⟩ :: l) =
          (f.set side px none).without side cur l := by
        funext d x
        have hcur' : cur.lookup px = none := by simpa using hcur
        by_cases hx : x = px
        · subst hx
          by_cases hd : d = side <;> simp [Depth.without, Depth.set, hd, hcur']
        · simp [Depth.without, Depth.set, hx]
      rw [this]
      exact hrest.2

theorem Depth.with_cons (f : Depth) (side : Side) {px : ℤ} (q : ℕ) {l : List (Σ _ : ℤ, ℕ)}
    (h : px ∉ l.keys) :
    f.with side (⟨px, q⟩ :: l) = (f.set side px (some q)).with side l := by
  funext d x
  unfold Depth.with Depth.set
  by_cases hd : d = side
  · subst hd
    by_cases hx : x = px
    · subst hx
      simp [List.dlookup_cons_eq, List.dlookup_eq_none.mpr h]
    · simp [List.dlookup_cons_ne l ⟨px, q⟩ hx, hx]
  · simp [hd]

theorem Depth.set_self (f : Depth) {side : Side} {px : ℤ} {q : Option ℕ} (h : f side px = q) :
    f.set side px q = f := by
  funext d x
  unfold Depth.set
  split_ifs with hc
  · rw [hc.1, hc.2, h]
  · rfl

theorem Depth.set_other (f : Depth) {side d : Side} {px x : ℤ} (q : Option ℕ)
    (h : d ≠ side ∨ x ≠ px) : f.set side px q d x = f d x := by
  refine if_neg ?_
  rintro ⟨rfl, rfl⟩
  simp at h

theorem Shows.addsAndModifies (tickerId : ℕ) (prev : PriceMap) {l : List (Σ _ : ℤ, ℕ)}
    (priority : ℕ) (h : Shows s f) (hs : side.IsBuyOrSell) (hnd : l.NodupKeys)
    (hprev : ∀ e ∈ l, f side e.1 = prev.lookup e.1)
    (hin : ∀ e ∈ l, PriceInRange e.1 ∧ e.2 < 2 ^ 32)
    (hopp : ∀ e ∈ l, f side.opposite e.1 = none) :
    ApplicableAll s
        (LobsterReader.addsAndModifies tickerId side (oidBase side) prev l priority).1 ∧
      Shows (applyAll s
        (LobsterReader.addsAndModifies tickerId side (oidBase side) prev l priority).1)
        (f.with side l) := by
  induction l generalizing s f priority with
  | nil =>
    refine ⟨trivial, ?_⟩
    have : f.with side [] = f := by
      funext d x
      simp [Depth.with]
    rw [this]
    exact h
  | cons e l ih =>
    obtain ⟨px, q⟩ := e
    obtain ⟨hnot, hnd⟩ := List.nodupKeys_cons.mp hnd
    have hmem : (⟨px, q⟩ : Σ _ : ℤ, ℕ) ∈ (⟨px, q⟩ :: l : List (Σ _ : ℤ, ℕ)) :=
      List.mem_cons_self ..
    have hf := hprev _ hmem
    have hne : ∀ e ∈ l, e.1 ≠ px := ne_of_notMem_keys hnot
    have hstep : ∀ (s' : Ladders MarketOrder) (v : Option ℕ) (pr : ℕ),
        Shows s' (f.set side px v) → _ := fun s' v pr h' =>
      ih pr h' hnd
        (fun e he => by
          rw [Depth.set_other _ _ (.inr (hne e he))]
          exact hprev e (List.mem_cons_of_mem _ he))
        (fun e he => hin e (List.mem_cons_of_mem _ he))
        (fun e he => by
          rw [Depth.set_other _ _ (.inr (hne e he))]
          exact hopp e (List.mem_cons_of_mem _ he))
    rw [Depth.with_cons f side q hnot]
    unfold LobsterReader.addsAndModifies
    cases hlook : prev.lookup px with
    | none =>
      have hadd := h.add hs (hf.trans hlook) (hopp _ hmem) (hin _ hmem).1
        (u := LobsterReader.makeUpd tickerId .add (levelOid (oidBase side) px) side px q priority)
        rfl rfl rfl rfl (hin _ hmem).2
      have hrest := hstep _ _ ((priority + 1) % 2 ^ 64) hadd.2
      exact ⟨⟨hadd.1, hrest.1⟩, hrest.2⟩
    | some q' =>
      dsimp only
      split_ifs with hq
      · exact hstep s (some q) priority (by
          rw [Depth.set_self f (hf.trans (hlook.trans (congrArg some hq)))]
          exact h)
      · have hmod := h.modify hs (hf.trans hlook)
          (u := LobsterReader.makeUpd tickerId .modify (levelOid (oidBase side) px) side px q
            priorityInvalid) rfl rfl rfl rfl (hin _ hmem).2
        have hrest := hstep _ _ priority hmod.2
        exact ⟨⟨hmod.1, hrest.1⟩, hrest.2⟩

theorem Shows.addsAndModifies_joins_other (tickerId : ℕ) (prev : PriceMap)
    {l : List (Σ _ : ℤ, ℕ)} {priority : ℕ} (hm : Mirrors m s) (h : Shows s f)
    (hs : side.IsBuyOrSell) (hnd : l.NodupKeys) (hprev : ∀ e ∈ l, f side e.1 = prev.lookup e.1)
    (hin : ∀ e ∈ l, PriceInRange e.1 ∧ e.2 < 2 ^ 32)
    (hbad : ∃ e ∈ l, prev.lookup e.1 = none ∧ (f side.opposite e.1).isSome) :
    ¬ CleanRun m
      (LobsterReader.addsAndModifies tickerId side (oidBase side) prev l priority).1 := by
  induction l generalizing s f m priority with
  | nil =>
    obtain ⟨e, he, -⟩ := hbad
    cases he
  | cons e l ih =>
    obtain ⟨px, q⟩ := e
    obtain ⟨hnot, hnd⟩ := List.nodupKeys_cons.mp hnd
    have hmem : (⟨px, q⟩ : Σ _ : ℤ, ℕ) ∈ (⟨px, q⟩ :: l : List (Σ _ : ℤ, ℕ)) :=
      List.mem_cons_self ..
    have hf := hprev _ hmem
    have hne : ∀ e ∈ l, e.1 ≠ px := ne_of_notMem_keys hnot
    -- once the head is known to be clean, the offending entry lies in the tail
    have hrest : ∀ (m' : MarketOrderBook) (s' : Ladders MarketOrder) (v : Option ℕ) (pr : ℕ),
        Mirrors m' s' → Shows s' (f.set side px v) →
        (prev.lookup px = none → f side.opposite px = none) →
        ¬ CleanRun m'
          (LobsterReader.addsAndModifies tickerId side (oidBase side) prev l pr).1 := by
      intro m' s' v pr hm' h' hhead
      refine ih hm' h' hnd ?_ ?_ ?_
      · intro e he
        rw [Depth.set_other _ _ (.inr (hne e he))]
        exact hprev e (List.mem_cons_of_mem _ he)
      · exact fun e he => hin e (List.mem_cons_of_mem _ he)
      · obtain ⟨e, he, hnone, hsome⟩ := hbad
        rcases List.mem_cons.mp he with rfl | he
        · rw [hhead hnone] at hsome
          cases hsome
        · refine ⟨e, he, hnone, ?_⟩
          rw [Depth.set_other _ _ (.inr (hne e he))]
          exact hsome
    unfold LobsterReader.addsAndModifies
    cases hlook : prev.lookup px with
    | none =>
      intro hclean
      cases hopp : f side.opposite px with
      | some v =>
        refine hm.not_joins hs.opposite ?_ hs.opposite_ne.symm hclean.1
        exact h.total hs.opposite px v hopp
      | none =>
        have hadd := h.add hs (hf.trans hlook) hopp (hin _ hmem).1
          (u := LobsterReader.makeUpd tickerId .add (levelOid (oidBase side) px) side px q priority)
          rfl rfl rfl rfl (hin _ hmem).2
        obtain ⟨m', c, hstep, hm'⟩ := hm.step hadd.1
        exact hrest m' _ _ _ hm' hadd.2 (fun _ => hopp) (hclean.2 m' c hstep)
    | some q' =>
      have hhead : prev.lookup px = none → f side.opposite px = none := by simp [hlook]
      dsimp only
      split_ifs with hq
      · refine hrest m s (some q) priority hm ?_ hhead
        rw [Depth.set_self f (hf.trans (hlook.trans (congrArg some hq)))]
        exact h
      · intro hclean
        have hmod := h.modify hs (hf.trans hlook)
          (u := LobsterReader.makeUpd tickerId .modify (levelOid (oidBase side) px) side px q
            priorityInvalid) rfl rfl rfl rfl (hin _ hmem).2
        obtain ⟨m', c, hstep, hm'⟩ := hm.step hmod.1
        exact hrest m' _ _ _ hm' hmod.2 hhead (hclean.2 m' c hstep)

def Depth.replace (f : Depth) (side : Side) (cur : PriceMap) : Depth :=
  fun d x => if d = side then cur.lookup x else f d x

variable {prev cur : PriceMap} {visitPrev visitCur : Iteration} {priority : ℕ}

theorem lookup_visit (it : Iteration) (m : PriceMap) {e : Σ _ : ℤ, ℕ}
    (he : e ∈ (it.visit m).entries) : m.lookup e.1 = some e.2 :=
  AList.mem_lookup_iff.mpr ((it.perm m).mem_iff.mp he)

theorem Shows.cancels_visit (tickerId : ℕ) (cur : PriceMap) (visitPrev : Iteration)
    (h : Shows s f) (hs : side.IsBuyOrSell)
    (hprev : ∀ x, f side x = prev.lookup x) :
    ApplicableAll s (LobsterReader.cancels tickerId side (oidBase side) cur
        (visitPrev.visit prev).entries) ∧
      Shows (applyAll s (LobsterReader.cancels tickerId side (oidBase side) cur
        (visitPrev.visit prev).entries)) (f.without side cur (visitPrev.visit prev).entries) :=
  h.cancels tickerId cur hs (visitPrev.visit prev).nodupKeys fun e he =>
    (hprev e.1).trans (lookup_visit visitPrev prev he)

theorem Depth.without_side (hprev : ∀ x, f side x = prev.lookup x) {e : Σ _ : ℤ, ℕ}
    (he : e ∈ (visitCur.visit cur).entries) (l : List (Σ _ : ℤ, ℕ)) :
    f.without side cur l side e.1 = prev.lookup e.1 := by
  rw [Depth.without, if_neg fun hc => ?_, hprev]
  rw [lookup_visit visitCur cur he] at hc
  cases hc.2.2

theorem Depth.without_opposite (f : Depth) (hs : side.IsBuyOrSell) (cur : PriceMap)
    (l : List (Σ _ : ℤ, ℕ)) (x : ℤ) :
    f.without side cur l side.opposite x = f side.opposite x :=
  if_neg fun hc => hs.opposite_ne hc.1

theorem Depth.with_without (hprev : ∀ x, f side x = prev.lookup x) :
    (f.without side cur (visitPrev.visit prev).entries).with side (visitCur.visit cur).entries =
      f.replace side cur := by
  funext d x
  unfold Depth.with Depth.without Depth.replace
  by_cases hd : d = side
  · subst hd
    have hlook : (visitCur.visit cur).entries.dlookup x = cur.lookup x :=
      AList.perm_lookup (visitCur.perm cur)
    have hkey : x ∈ (visitPrev.visit prev).entries.keys ↔ (prev.lookup x).isSome := by
      rw [AList.lookup_isSome]
      exact AList.mem_of_perm (visitPrev.perm prev)
    rw [if_pos rfl, if_pos rfl, hlook]
    cases hc : cur.lookup x with
    | some q => rfl
    | none =>
      simp only [true_and, and_true, hkey, hprev]
      cases hp : prev.lookup x <;> rfl
  · rw [if_neg hd, if_neg hd, if_neg fun hc => hd hc.1]

theorem Shows.diffSide (tickerId : ℕ) (visitPrev visitCur : Iteration) (priority : ℕ)
    (h : Shows s f) (hs : side.IsBuyOrSell)
    (hprev : ∀ x, f side x = prev.lookup x)
    (hcur : ∀ x q, cur.lookup x = some q → PriceInRange x ∧ q < 2 ^ 32)
    (hopp : ∀ x ∈ cur, f side.opposite x = none) :
    ApplicableAll s (LobsterReader.diffSide tickerId side (oidBase side) prev cur visitPrev
        visitCur priority).1 ∧
      Shows (applyAll s (LobsterReader.diffSide tickerId side (oidBase side) prev cur visitPrev
        visitCur priority).1) (f.replace side cur) := by
  have hcan := h.cancels_visit tickerId cur visitPrev hs hprev
  have hadd := hcan.2.addsAndModifies tickerId prev priority hs
    (visitCur.visit cur).nodupKeys (fun e he => Depth.without_side hprev he _)
    (fun e he => hcur _ _ (lookup_visit visitCur cur he))
    (fun e he => by
      rw [Depth.without_opposite f hs]
      refine hopp e.1 (AList.lookup_isSome.mp ?_)
      rw [lookup_visit visitCur cur he]
      rfl)
  rw [Depth.with_without hprev] at hadd
  refine ⟨applicableAll_append.mpr ⟨hcan.1, hadd.1⟩, ?_⟩
  rw [LobsterReader.diffSide, applyAll_append]
  exact hadd.2

theorem Shows.diffSide_joins_other (prev : PriceMap) (tickerId : ℕ) (hm : Mirrors m s)
    (h : Shows s f) (hs : side.IsBuyOrSell) (hprev : ∀ x, f side x = prev.lookup x)
    (hcur : ∀ x q, cur.lookup x = some q → PriceInRange x ∧ q < 2 ^ 32)
    {p : ℤ} (hp : p ∈ cur) (hnew : prev.lookup p = none) (hopp : (f side.opposite p).isSome) :
    ¬ CleanRun m (LobsterReader.diffSide tickerId side (oidBase side) prev cur visitPrev
      visitCur priority).1 := by
  have hcan := h.cancels_visit tickerId cur visitPrev hs hprev
  obtain ⟨m', hrun, hm'⟩ := hm.run hcan.1
  obtain ⟨q, hq⟩ := Option.isSome_iff_exists.mp (AList.lookup_isSome.mpr hp)
  have hmem : (⟨p, q⟩ : Σ _ : ℤ, ℕ) ∈ (visitCur.visit cur).entries :=
    (visitCur.perm cur).mem_iff.mpr (AList.mem_lookup_iff.mp hq)
  intro hclean
  refine hcan.2.addsAndModifies_joins_other tickerId prev hm' hs (visitCur.visit cur).nodupKeys
    (fun e he => Depth.without_side hprev he _)
    (fun e he => hcur _ _ (lookup_visit visitCur cur he)) ⟨_, hmem, hnew, ?_⟩
    ((cleanRun_append.mp hclean).2 m' hrun)
  rw [Depth.without_opposite f hs]
  exact hopp

end Loops

structure Row.Proper (levels : ℕ) (row : Row) : Prop where
  uncrossed : ∀ p ∈ row.bids levels, ∀ q ∈ row.asks levels, p < q
  bidRange : ∀ p ∈ row.bids levels, PriceInRange p
  askRange : ∀ p ∈ row.asks levels, PriceInRange p

instance (levels : ℕ) (row : Row) : Decidable (row.Proper levels) :=
  decidable_of_iff ((∀ p ∈ (row.bids levels).keys, ∀ q ∈ (row.asks levels).keys, p < q) ∧
      (∀ p ∈ (row.bids levels).keys, PriceInRange p) ∧ ∀ p ∈ (row.asks levels).keys, PriceInRange p)
    ⟨fun h => ⟨h.1, h.2.1, h.2.2⟩, fun h => ⟨h.uncrossed, h.bidRange, h.askRange⟩⟩

section Rows

variable {levels : ℕ} {row : Row}

theorem lookup_putLevel_lt {m : PriceMap} (h : ∀ p q, m.lookup p = some q → q < 2 ^ 32)
    (price size p : ℤ) (q : ℕ) (hq : (putLevel m price size).lookup p = some q) : q < 2 ^ 32 := by
  unfold putLevel at hq
  split_ifs at hq
  · by_cases hp : p = toCents price
    · rw [hp, AList.lookup_insert] at hq
      rw [← Option.some.inj hq, toQty]
      omega
    · rw [AList.lookup_insert_ne hp] at hq
      exact h p q hq
  · exact h p q hq

theorem lookup_parseBook_lt {v : List ℤ} {bid ask : PriceMap}
    (hbid : ∀ p q, bid.lookup p = some q → q < 2 ^ 32)
    (hask : ∀ p q, ask.lookup p = some q → q < 2 ^ 32) :
    (∀ p q, (parseBook v bid ask).1.lookup p = some q → q < 2 ^ 32) ∧
      ∀ p q, (parseBook v bid ask).2.lookup p = some q → q < 2 ^ 32 := by
  induction v, bid, ask using parseBook.induct with
  | case1 askP askS bidP bidS v bid ask ih =>
    rw [parseBook]
    exact ih (lookup_putLevel_lt hbid bidP bidS) (lookup_putLevel_lt hask askP askS)
  | case2 v bid ask hv =>
    rw [parseBook.eq_2 _ _ _ hv]
    exact ⟨hbid, hask⟩

theorem Row.lookup_lt (levels : ℕ) (row : Row) :
    (∀ p q, (row.bids levels).lookup p = some q → q < 2 ^ 32) ∧
      ∀ p q, (row.asks levels).lookup p = some q → q < 2 ^ 32 :=
  lookup_parseBook_lt (by simp) (by simp)

theorem mem_of_lookup {m : PriceMap} {p : ℤ} {q : ℕ} (h : m.lookup p = some q) : p ∈ m :=
  AList.lookup_isSome.mp (h ▸ rfl)

theorem Row.Proper.bid (h : row.Proper levels) (p : ℤ) (q : ℕ)
    (hq : (row.bids levels).lookup p = some q) : PriceInRange p ∧ q < 2 ^ 32 :=
  ⟨h.bidRange p (mem_of_lookup hq), (row.lookup_lt levels).1 p q hq⟩

theorem Row.Proper.ask (h : row.Proper levels) (p : ℤ) (q : ℕ)
    (hq : (row.asks levels).lookup p = some q) : PriceInRange p ∧ q < 2 ^ 32 :=
  ⟨h.askRange p (mem_of_lookup hq), (row.lookup_lt levels).2 p q hq⟩

end Rows

def LobsterReader.depth (r : LobsterReader) : Depth :=
  fun d x => if d = .buy then r.prevBid.lookup x else r.prevAsk.lookup x

section FillRow

variable {r : LobsterReader} {hash : HashOrder} {row : Row} {s : Ladders MarketOrder}
  {m : MarketOrderBook}

def LobsterReader.queued (r : LobsterReader) : List MEMarketUpdate := r.pending.map Prod.snd

theorem queued_fillRow (hash : HashOrder) (row : Row) (hp : r.pending = []) : ∃ priority,
    (r.fillRow hash row).queued = LobsterReader.tradePrint r.tickerId row.message ++
      (LobsterReader.diffSide r.tickerId .buy (oidBase .buy) r.prevBid (row.bids r.levels)
        hash.prevBid hash.curBid r.nextPriority).1 ++
      (LobsterReader.diffSide r.tickerId .sell (oidBase .sell) r.prevAsk (row.asks r.levels)
        hash.prevAsk hash.curAsk priority).1 := by
  refine ⟨(LobsterReader.diffSide r.tickerId .buy (oidBase .buy) r.prevBid (row.bids r.levels)
    hash.prevBid hash.curBid r.nextPriority).2, ?_⟩
  rw [LobsterReader.fillRow, LobsterReader.queued, hp, List.nil_append, List.map_map]
  exact List.map_id _

theorem tradePrint_keeps (tickerId : ℕ) (msg : Message) (s : Ladders MarketOrder) :
    ApplicableAll s (LobsterReader.tradePrint tickerId msg) ∧
      applyAll s (LobsterReader.tradePrint tickerId msg) = s := by
  unfold LobsterReader.tradePrint
  by_cases ht : msg.type = 4 ∨ msg.type = 5
  · rw [if_pos ht]
    exact ⟨⟨trivial, trivial⟩, rfl⟩
  · rw [if_neg ht]
    exact ⟨trivial, rfl⟩

theorem replace_depth (r : LobsterReader) (hash : HashOrder) (row : Row) :
    (r.depth.replace .buy (row.bids r.levels)).replace .sell (row.asks r.levels) .buy =
        (r.fillRow hash row).depth .buy ∧
      (r.depth.replace .buy (row.bids r.levels)).replace .sell (row.asks r.levels) .sell =
        (r.fillRow hash row).depth .sell :=
  ⟨rfl, rfl⟩

theorem Shows.congr {f g : Depth} (h : Shows s f) (hb : f .buy = g .buy)
    (ha : f .sell = g .sell) : Shows s g := by
  have hfg : ∀ {side : Side}, side.IsBuyOrSell → g side = f side := by
    rintro side (rfl | rfl)
    · exact hb.symm
    · exact ha.symm
  refine ⟨h.sorted, fun {side} hs => ?_, fun {side} hs => ?_, fun {side} hs => ?_⟩
  · rw [hfg hs]
    exact h.level hs
  · rw [hfg hs]
    exact h.total hs
  · rw [hfg hs]
    exact h.inRange hs

theorem Shows.fillRow (hash : HashOrder) (h : Shows s r.depth) (hp : r.pending = [])
    (hrow : row.Proper r.levels)
    (hnew : ∀ p ∈ row.bids r.levels, p ∉ r.prevAsk) :
    ApplicableAll s (r.fillRow hash row).queued ∧
      Shows (applyAll s (r.fillRow hash row).queued) (r.fillRow hash row).depth := by
  obtain ⟨priority, hq⟩ := queued_fillRow hash row hp
  obtain ⟨htrade, htrade'⟩ := tradePrint_keeps r.tickerId row.message s
  have hbid := h.diffSide r.tickerId hash.prevBid hash.curBid r.nextPriority
    (.inl rfl) (fun _ => rfl) hrow.bid
    (fun x hx => AList.lookup_eq_none.mpr (hnew x hx))
  have hask := hbid.2.diffSide r.tickerId hash.prevAsk hash.curAsk priority
    (.inr rfl) (fun _ => rfl) hrow.ask (fun x hx => by
      refine AList.lookup_eq_none.mpr fun hb => ?_
      exact lt_irrefl x (hrow.uncrossed x hb x hx))
  rw [hq]
  refine ⟨?_, ?_⟩
  · refine applicableAll_append.mpr ⟨applicableAll_append.mpr ⟨htrade, ?_⟩, ?_⟩
    · rw [htrade']
      exact hbid.1
    · rw [applyAll_append, htrade']
      exact hask.1
  · rw [applyAll_append, applyAll_append, htrade']
    exact hask.2.congr (replace_depth r hash row).1 (replace_depth r hash row).2

theorem Shows.fillRow_joins_other (hm : Mirrors m s) (h : Shows s r.depth) (hp : r.pending = [])
    (hrow : row.Proper r.levels) (hunc : ∀ p ∈ r.prevBid, p ∉ r.prevAsk) {p : ℤ}
    (hb : p ∈ row.bids r.levels) (ha : p ∈ r.prevAsk) :
    ¬ CleanRun m (r.fillRow hash row).queued := by
  obtain ⟨priority, hq⟩ := queued_fillRow hash row hp
  obtain ⟨htrade, htrade'⟩ := tradePrint_keeps r.tickerId row.message s
  obtain ⟨m', hrun, hm'⟩ := hm.run htrade
  rw [htrade'] at hm'
  rw [hq, List.append_assoc]
  intro hclean
  have hrest := (cleanRun_append.mp hclean).2 m' hrun
  refine h.diffSide_joins_other r.prevBid r.tickerId hm' (.inl rfl) (fun _ => rfl)
    hrow.bid hb ?_ ?_ (cleanRun_append.mp hrest).1
  · exact AList.lookup_eq_none.mpr fun hpb => hunc p hpb ha
  · exact AList.lookup_isSome.mpr ha

end FillRow

def levelQtys (ls : List (Level ℤ MarketOrder)) : List (Σ _ : ℤ, ℕ) :=
  ls.map fun L => ⟨L.price, (L.orders.map OrderInfo.qty).sum⟩

def IsBest (side : Side) (m : PriceMap) (price : ℤ) (qty : ℕ) : Prop :=
  (m.entries = [] ∧ price = priceInvalid ∧ qty = qtyInvalid) ∨
    (m.lookup price = some qty ∧ ∀ p ∈ m, p ≠ price → better side price p)

structure Displays (m : MarketOrderBook) (bids asks : PriceMap) : Prop where
  levels : ∃ s, m.book.decode = some s ∧ (levelQtys s.bids).Perm bids.entries ∧
    (levelQtys s.asks).Perm asks.entries
  bestBid : IsBest .buy bids m.bbo.bidPrice m.bbo.bidQty
  bestAsk : IsBest .sell asks m.bbo.askPrice m.bbo.askQty

section Displays

variable {s : Ladders MarketOrder} {f : Depth} {side : Side} {cur : PriceMap} {m : MarketOrderBook}

theorem Shows.levelQtys_perm (h : Shows s f) (hs : side.IsBuyOrSell)
    (hf : ∀ x, f side x = cur.lookup x) : (levelQtys (s.side side)).Perm cur.entries := by
  have hkeys : (levelQtys (s.side side)).map Sigma.fst = (s.side side).map Level.price := by
    rw [levelQtys, List.map_map]
    rfl
  have hnd : (levelQtys (s.side side)).Nodup := by
    refine List.Nodup.of_map Sigma.fst ?_
    rw [hkeys]
    exact h.nodup_prices hs
  refine (List.perm_ext_iff_of_nodup hnd cur.nodupKeys.nodup).mpr ?_
  rintro ⟨p, q⟩
  rw [← AList.mem_lookup_iff, Option.mem_def, ← hf]
  constructor
  · intro hmem
    obtain ⟨L, hL, hLe⟩ := List.mem_map.mp hmem
    obtain ⟨o, rfl, -, -, ho⟩ := h.level hs L hL
    cases hLe
    simpa using ho
  · intro hq
    obtain ⟨o, ho, -, -, rfl, rfl⟩ := h.order hs hq
    exact List.mem_map.mpr ⟨_, (h.entry hs ho).1, by simp⟩

theorem Shows.isBest (h : Shows s f) (hs : side.IsBuyOrSell)
    (hf : ∀ x, f side x = cur.lookup x) :
    IsBest side cur (bestLevel (s.side side)).1 (bestLevel (s.side side)).2 := by
  cases hls : s.side side with
  | nil =>
    have hperm := h.levelQtys_perm hs hf
    rw [hls] at hperm
    exact .inl ⟨List.perm_nil.mp hperm.symm, rfl, rfl⟩
  | cons L ls =>
    have hL : L ∈ s.side side := by simp [hls]
    obtain ⟨o, rfl, -, -, ho⟩ := h.level hs L hL
    have hq := (h.inRange hs _ _ ho).2
    refine .inr ⟨?_, ?_⟩
    · simp only [bestLevel, List.map_cons, List.map_nil, List.sum_cons, List.sum_nil, add_zero,
        Nat.mod_eq_of_lt hq, ← hf, ho]
    · intro p hp hne
      have hmem : p ∈ (s.side side).map Level.price := by
        rw [h.mem_prices hs, hf]
        exact AList.lookup_isSome.mpr hp
      have hsorted := h.sorted hs
      rw [hls, List.map_cons] at hmem
      rw [hls, Ladder.Sorted, List.map_cons] at hsorted
      rcases List.mem_cons.mp hmem with he | hmem
      · exact absurd he hne
      · exact (List.pairwise_cons.mp hsorted).1 p hmem

theorem Shows.displays {r : LobsterReader} (hm : Mirrors m s) (h : Shows s r.depth) :
    Displays m r.prevBid r.prevAsk where
  levels := ⟨s, hm.decode, h.levelQtys_perm (Or.inl rfl : Side.IsBuyOrSell .buy) fun _ => rfl,
    h.levelQtys_perm (Or.inr rfl : Side.IsBuyOrSell .sell) fun _ => rfl⟩
  bestBid := by
    rw [hm.bbo]
    exact h.isBest (Or.inl rfl : Side.IsBuyOrSell .buy) fun _ => rfl
  bestAsk := by
    rw [hm.bbo]
    exact h.isBest (Or.inr rfl : Side.IsBuyOrSell .sell) fun _ => rfl

end Displays

/-- Row after row for `n` calls of `fillStep`: the queued updates are clean and leave the book
showing the row. `next` fills only when `pending` is empty, so each batch is applied whole before
the next call. -/
def Replays (hash : ℕ → HashOrder) (r : LobsterReader) (m : MarketOrderBook) : ℕ → Prop
  | 0 => True
  | n + 1 =>
      let r' := (r.fillStep (hash r.lines.length)).1
      CleanRun m r'.queued ∧ ∃ m', m.run r'.queued = .ok m' ∧
        Displays m' r'.prevBid r'.prevAsk ∧ Replays hash { r' with pending := [] } m' n

def LobsterReader.rowsLeft (r : LobsterReader) : List Row :=
  if r.eof then [] else
    if r.maxEvents = 0 then r.lines.filterMap id
    else (r.lines.filterMap id).take (r.maxEvents - r.count)

def Compatible (levels : ℕ) : PriceMap → List Row → Prop
  | _, [] => True
  | prevAsk, row :: rows =>
      (∀ p ∈ row.bids levels, p ∉ prevAsk) ∧ Compatible levels (row.asks levels) rows

instance decidableCompatible (levels : ℕ) :
    (prevAsk : PriceMap) → (rows : List Row) → Decidable (Compatible levels prevAsk rows)
  | _, [] => isTrue trivial
  | prevAsk, row :: rows =>
      have := decidableCompatible levels (row.asks levels) rows
      inferInstanceAs (Decidable ((∀ p ∈ (row.bids levels).keys, p ∉ prevAsk) ∧ _))

section Replay

variable {hash : ℕ → HashOrder} {r r' : LobsterReader} {m m' : MarketOrderBook}
  {s : Ladders MarketOrder}

theorem fillStep_cases (r : LobsterReader) (order : HashOrder) :
    (r.rowsLeft = [] ∧ (r.fillStep order).1 = { r with eof := true }) ∨
      (∃ lines, r.lines = none :: lines ∧ (r.fillStep order).1 = { r with lines := lines } ∧
        r.rowsLeft = LobsterReader.rowsLeft { r with lines := lines }) ∨
      ∃ row lines, r.lines = some row :: lines ∧
        (r.fillStep order).1 = { r with lines := lines, count := r.count + 1 }.fillRow order row ∧
        r.rowsLeft = row :: (LobsterReader.rowsLeft
          ({ r with lines := lines, count := r.count + 1 }.fillRow order row)) := by
  unfold LobsterReader.fillStep LobsterReader.rowsLeft
  by_cases he : r.eof = true
  · refine .inl ⟨if_pos he, ?_⟩
    rw [if_pos he, ← he]
  rw [if_neg he, if_neg he]
  by_cases hmax : r.maxEvents ≠ 0 ∧ r.maxEvents ≤ r.count
  · refine .inl ⟨?_, by rw [if_pos hmax]⟩
    rw [if_neg hmax.1, Nat.sub_eq_zero_of_le hmax.2, List.take_zero]
  rw [if_neg hmax]
  cases hl : r.lines with
  | nil => exact .inl ⟨by simp, rfl⟩
  | cons line lines =>
    cases line with
    | none => exact .inr (.inl ⟨lines, rfl, rfl, by simp [he]⟩)
    | some row =>
      refine .inr (.inr ⟨row, lines, rfl, rfl, ?_⟩)
      simp only [LobsterReader.fillRow, List.filterMap_cons, id_eq, if_neg he]
      split_ifs with h0
      · rfl
      · have : r.maxEvents - r.count = (r.maxEvents - (r.count + 1)) + 1 := by omega
        rw [this, List.take_succ_cons]

theorem replays_done (he : r.eof = true) (hp : r.pending = [])
    (hd : Displays m r.prevBid r.prevAsk) (n : ℕ) : Replays hash r m n := by
  induction n with
  | zero => trivial
  | succ n ih =>
    have hfill : (r.fillStep (hash r.lines.length)).1 = r := by
      rw [LobsterReader.fillStep, if_pos he]
    have hq : r.queued = [] := by rw [LobsterReader.queued, hp]; rfl
    have hr : { r with pending := [] } = r := by rw [← hp]
    simp only [Replays, hfill, hq, hr]
    exact ⟨trivial, m, rfl, hd, ih⟩

theorem replays_step (hr : (r.fillStep (hash r.lines.length)).1 = r')
    (hclean : CleanRun m r'.queued) (hrun : m.run r'.queued = .ok m')
    (hd : Displays m' r'.prevBid r'.prevAsk) :
    (∀ n, Replays hash r m n) ↔ ∀ n, Replays hash { r' with pending := [] } m' n := by
  subst hr
  constructor
  · intro h n
    obtain ⟨-, m₁, hrun₁, -, h₁⟩ := h (n + 1)
    rw [hrun] at hrun₁
    cases hrun₁
    exact h₁
  · rintro h (_ | n)
    · trivial
    · exact ⟨hclean, m', hrun, hd, h n⟩

theorem replays_idle (hr : (r.fillStep (hash r.lines.length)).1 = r') (hp : r'.pending = [])
    (hd : Displays m r'.prevBid r'.prevAsk) :
    (∀ n, Replays hash r m n) ↔ ∀ n, Replays hash { r' with pending := [] } m n := by
  have hq : r'.queued = [] := by rw [LobsterReader.queued, hp]; rfl
  refine replays_step hr ?_ ?_ hd
  · rw [hq]
    trivial
  · rw [hq]
    rfl

theorem replays_last (hr : (r.fillStep (hash r.lines.length)).1 = { r with eof := true })
    (hp : r.pending = []) (hd : Displays m r.prevBid r.prevAsk) : ∀ n, Replays hash r m n := by
  rw [replays_idle hr hp hd]
  intro n
  refine replays_done rfl rfl ?_ n
  exact hd

theorem replays_iff (hm : Mirrors m s) (h : Shows s r.depth) (hp : r.pending = [])
    (hunc : ∀ p ∈ r.prevBid, p ∉ r.prevAsk) (hrows : ∀ row ∈ r.rowsLeft, row.Proper r.levels) :
    (∀ n, Replays hash r m n) ↔ Compatible r.levels r.prevAsk r.rowsLeft := by
  induction hn : r.lines.length generalizing r m s with
  | zero =>
    rcases fillStep_cases r (hash r.lines.length) with ⟨hleft, hfill⟩ | ⟨lines, hl, -⟩ |
      ⟨row, lines, hl, -⟩
    · rw [hleft]
      exact ⟨fun _ => trivial, fun _ => replays_last hfill hp (h.displays hm)⟩
    · simp [hl] at hn
    · simp [hl] at hn
  | succ k ih =>
    rcases fillStep_cases r (hash r.lines.length) with ⟨hleft, hfill⟩ | ⟨lines, hl, hfill, hleft⟩ |
      ⟨row, lines, hl, hfill, hleft⟩
    · rw [hleft]
      exact ⟨fun _ => trivial, fun _ => replays_last hfill hp (h.displays hm)⟩
    · have hk : lines.length = k := by simpa [hl] using hn
      rw [replays_idle hfill hp (h.displays hm), hleft]
      have heq : ({ { r with lines := lines } with pending := [] } : LobsterReader) =
          { r with lines := lines } := by rw [← hp]
      rw [heq]
      exact ih (r := { r with lines := lines }) hm h hp hunc (hleft ▸ hrows) hk
    · have hk : lines.length = k := by simpa [hl] using hn
      have hrow : row.Proper r.levels := hrows row (by simp [hleft])
      set r₁ : LobsterReader := { r with lines := lines, count := r.count + 1 } with hr₁
      rw [hleft, Compatible]
      by_cases hnew : ∀ p ∈ row.bids r.levels, p ∉ r.prevAsk
      · have hstep := Shows.fillRow (r := r₁) (hash r.lines.length) h hp hrow hnew
        obtain ⟨m₁, hrun, hm₁⟩ := hm.run hstep.1
        rw [replays_step hfill (hm.cleanRun hstep.1) hrun (hstep.2.displays hm₁)]
        rw [ih (r := { r₁.fillRow (hash r.lines.length) row with pending := [] }) hm₁ hstep.2 rfl
          (fun p hb ha => lt_irrefl p (hrow.uncrossed p hb p ha))
          (fun row' hr' => hrows row' (by rw [hleft]; exact List.mem_cons_of_mem _ hr')) hk]
        exact ⟨fun hc => ⟨hnew, hc⟩, fun hc => hc.2⟩
      · refine ⟨fun hall => absurd ?_ hnew, fun hc => absurd hc.1 hnew⟩
        intro p hb ha
        have hclean := (hall 1).1
        rw [hfill] at hclean
        exact Shows.fillRow_joins_other (r := r₁) hm h hp hrow hunc hb ha hclean

end Replay

def replayedRows (maxEvents : ℕ) (lines : List (Option Row)) : List Row :=
  if maxEvents = 0 then lines.filterMap id else (lines.filterMap id).take maxEvents

theorem shows_new (tickerId levels maxEvents : ℕ) (lines : List (Option Row)) :
    Shows ⟨[], []⟩ (LobsterReader.new tickerId levels maxEvents lines).depth := by
  have hnone : ∀ side x, (LobsterReader.new tickerId levels maxEvents lines).depth side x =
      none := by
    intro side x
    unfold LobsterReader.depth LobsterReader.new
    split_ifs <;> rfl
  refine ⟨?_, ?_, ?_, ?_⟩
  · intro side _
    simp [Ladders.side, Ladder.Sorted]
  · intro side _ L hL
    simp [Ladders.side] at hL
  · intro side _ p q hq
    simp [hnone] at hq
  · intro side _ p q hq
    simp [hnone] at hq

theorem lobster_replay_reproduces_book (checked : Bool) (hash : ℕ → HashOrder)
    (tickerId levels maxEvents : ℕ) (lines : List (Option Row))
    (hrows : ∀ row ∈ replayedRows maxEvents lines, row.Proper levels) :
    (∀ n, Replays hash (LobsterReader.new tickerId levels maxEvents lines)
        (MarketOrderBook.new checked tickerId) n) ↔
      Compatible levels ∅ (replayedRows maxEvents lines) :=
  replays_iff (mirrors_new checked tickerId) (shows_new tickerId levels maxEvents lines) rfl
    (by simp [LobsterReader.new]) hrows

def inOrder : HashOrder :=
  ⟨⟨id, fun _ => .refl _⟩, ⟨id, fun _ => .refl _⟩, ⟨id, fun _ => .refl _⟩, ⟨id, fun _ => .refl _⟩⟩

def bookRow (askP askS bidP bidS : ℤ) : Option Row :=
  some ⟨⟨34200000000000, 1, bidS, bidP, 1⟩, [askP, askS, bidP, bidS]⟩

theorem lobster_replay_reproduces_book_sample :
    let lines := [bookRow 10200 5 10000 7, bookRow 10300 5 10100 7]
    (∀ row ∈ replayedRows 0 lines, row.Proper 10) ∧
      ∀ n, Replays (fun _ => inOrder) (LobsterReader.new 0 10 0 lines)
        (MarketOrderBook.new true 0) n :=
  ⟨by decide, (lobster_replay_reproduces_book true (fun _ => inOrder) 0 10 0 _ (by decide)).mpr
    (by decide)⟩

theorem bid_joins_level_of_previous_ask :
    let lines := [bookRow 10200 5 10000 7, bookRow 10300 5 10200 7]
    (∀ row ∈ replayedRows 0 lines, row.Proper 10) ∧
      ¬ ∀ n, Replays (fun _ => inOrder) (LobsterReader.new 0 10 0 lines)
        (MarketOrderBook.new true 0) n := by
  refine ⟨by decide, ?_⟩
  rw [replays_iff (mirrors_new true 0) (shows_new 0 10 0 _) rfl (by simp [LobsterReader.new])
    (by decide)]
  decide

end Backtest
