import TradingEcosystem.Exchange.OrderNumbers

namespace Exchange

open Common

def Event.orderId : Event → ℕ
  | .response r => r.marketOrderId
  | .update u => u.orderId

def Event.NamesNone : Event → Prop
  | .response r => r.type = .cancelRejected
  | .update u => u.type = .trade

def Event.IsOf (n : NewOrder) : Event → Prop
  | .response r => (r.type = .accepted ∨ r.type = .filled ∨ r.type = .canceled) ∧
      r.clientId = n.clientId ∧ r.clientOrderId = n.clientOrderId ∧ r.side = n.side
  | .update u => (u.type = .add ∨ u.type = .modify ∨ u.type = .cancel) ∧ u.side = n.side

def nth (adds : List NewOrder) (i : ℕ) (n : NewOrder) : Prop := 0 < i ∧ adds[i - 1]? = some n

def About (adds : List NewOrder) : Option ℕ → Event → Prop
  | none, e => e.NamesNone
  | some i, e => ∃ n, nth adds i n ∧ e.IsOf n

/-- Two messages about orders carry the same market order id when they are about the same order,
and only then. -/
def OneIdEach (labels : List (Option ℕ)) (events : List Event) : Prop :=
  ∀ x ∈ labels.zip events, ∀ y ∈ labels.zip events, ∀ i j, x.1 = some i → y.1 = some j →
    (x.2.orderId = y.2.orderId ↔ i = j)

/-- An add trades when the id it was given no longer fits the 32 bits that its fills carry. -/
def MEOrderBook.CutsFillId (p : MEOrderBook) (c : Call) : Prop :=
  ∃ n ladders, c = .add n ∧ p.book.decode = some ladders ∧ 2 ^ 32 ≤ p.nextMarketOrderId ∧
    Crosses n.side n.price n.qty (ladders.side n.side.opposite)

def IndexedBook.CutsFillId (b : IndexedBook) (c : Call) : Prop :=
  ∃ n, c = .add n ∧ 2 ^ 32 ≤ b.book.nextMarketOrderId ∧ b.Trades n

section Placed

variable {adds more : List NewOrder} {b : IndexedBook} {n : NewOrder} {c : Call} {i : ℕ}
  {l : Option ℕ} {e : Event}

theorem nth.append (h : nth adds i n) (more : List NewOrder) : nth (adds ++ more) i n :=
  ⟨h.1, by rw [List.getElem?_append_left (List.getElem?_eq_some_iff.mp h.2).1]; exact h.2⟩

theorem nth.le (h : nth adds i n) : i ≤ adds.length := by
  have hlt := (List.getElem?_eq_some_iff.mp h.2).1
  have hpos := h.1
  omega

theorem About.append (h : About adds l e) (more : List NewOrder) : About (adds ++ more) l e := by
  cases l with
  | none => exact h
  | some i =>
    obtain ⟨n, hn, he⟩ := h
    exact ⟨n, hn.append more, he⟩

structure Placed (adds : List NewOrder) (b : IndexedBook) : Prop where
  next : b.book.nextMarketOrderId = adds.length + 1
  resting : ∀ o ∈ b.book.ladders.entries, ∃ n, nth adds o.ids.marketOrderId n ∧
    o.ids.clientId = n.clientId ∧ o.ids.clientOrderId = n.clientOrderId ∧ o.side = n.side

theorem placed_new : Placed [] IndexedBook.new :=
  ⟨rfl, by simp [IndexedBook.new, PriceTimeBook.new, Ladders.entries]⟩

theorem Placed.nth_next (h : Placed adds b) (n : NewOrder) :
    nth (adds ++ [n]) b.book.nextMarketOrderId n := by
  rw [h.next]
  exact ⟨Nat.succ_pos _, by simp⟩

theorem Placed.call (h : Placed adds b) (hw : b.WF) (hc : c.Admissible) :
    Placed (adds ++ addsOf [c]) (b.call c).1 where
  next := by
    rw [b.next_call c, h.next, List.length_append, length_addsOf]
    omega
  resting := by
    intro o ho
    cases c with
    | add n =>
      rcases mem_add hw hc.1 ho with rfl | ⟨x, hx, hids, hside⟩
      · exact ⟨n, h.nth_next n, rfl, rfl, rfl⟩
      · obtain ⟨m, hm, hrest⟩ := h.resting x hx
        rw [← hids, ← hside]
        exact ⟨m, hm.append _, hrest⟩
    | cancel k oid t =>
      obtain ⟨m, hm, hrest⟩ := h.resting o (mem_cancel hw k oid t ho)
      exact ⟨m, hm.append _, hrest⟩

theorem Told.about (hp : Placed adds b) (h : Told b c l e) : About (adds ++ addsOf [c]) l e := by
  cases h with
  | accepted n => exact ⟨n, hp.nth_next n, .inl rfl, rfl, rfl, rfl⟩
  | aggressor n => exact ⟨n, hp.nth_next n, .inr (.inl rfl), rfl, rfl, rfl⟩
  | passive n ho =>
    obtain ⟨m, hm, hrest⟩ := hp.resting _ ho
    exact ⟨m, hm.append _, .inr (.inl rfl), hrest⟩
  | trade n type => exact type
  | eaten n ho type id side =>
    obtain ⟨m, hm, -, -, hside⟩ := hp.resting _ ho
    exact ⟨m, hm.append _, .inr type, side.trans hside⟩
  | added n type id side => exact ⟨n, hp.nth_next n, .inl type, side⟩
  | rejected k o t type => exact type
  | dropped k o t hy type id side =>
    obtain ⟨m, hm, -, -, hside⟩ := hp.resting _ hy
    exact ⟨m, hm.append _, .inr (.inr type), side.trans hside⟩
  | canceled k o t hy type id client order side =>
    obtain ⟨m, hm, hclient, horder, hside⟩ := hp.resting _ hy
    exact ⟨m, hm.append _, .inr (.inr type), client.trans hclient, order.trans horder,
      side.trans hside⟩

theorem Told.ownId (hcut : ¬ b.CutsFillId c) (h : Told b c (some i) e) : e.orderId = i := by
  cases h with
  | accepted n => rfl
  | aggressor n trades =>
    have hlt : b.book.nextMarketOrderId < 2 ^ 32 := by
      by_contra hge
      exact hcut ⟨n, rfl, Nat.not_lt.mp hge, trades⟩
    exact Nat.mod_eq_of_lt hlt
  | passive n ho => rfl
  | eaten n ho type id => exact id
  | added n type id => exact id
  | dropped k o t hy type id => exact id
  | canceled k o t hy type id => exact id

theorem Told.orderId_lt (hw : b.WF) (hroom : b.book.nextMarketOrderId + numAdds [c] ≤ 2 ^ 64)
    (h : Told b c l e) : e.orderId < 2 ^ 64 := by
  have hinv : orderIdInvalid < 2 ^ 64 := by decide
  have hold : ∀ o ∈ b.book.ladders.entries, o.ids.marketOrderId < 2 ^ 64 := fun o ho =>
    (hw.book.fresh o ho).trans_le (le_of_add_le_left hroom)
  cases h with
  | accepted n => exact hroom
  | aggressor n => exact (Nat.mod_lt _ (by decide)).trans (by decide : 2 ^ 32 < 2 ^ 64)
  | passive n ho => exact hold _ ho
  | trade n type id => exact id.trans_lt hinv
  | eaten n ho type id => exact id.trans_lt (hold _ ho)
  | added n type id => exact id.trans_lt hroom
  | rejected k o t type id => exact id.trans_lt hinv
  | dropped k o t hy type id => exact id.trans_lt (hold _ hy)
  | canceled k o t hy type id => exact id.trans_lt (hold _ hy)

end Placed

section Run

variable {adds : List NewOrder} {b : IndexedBook} {c : Call} {calls : List Call}
  {g : MEOrderBook.Aggressor} {price : ℤ} {q : ℕ} {ls : List (Level ℤ MEOrder)}

def OwnId : Option ℕ → Event → Prop
  | none, _ => True
  | some i, e => e.orderId = i

def Splits (labels : List (Option ℕ)) (events : List Event) : Prop :=
  ∃ i e e', (some i, e) ∈ labels.zip events ∧ (some i, e') ∈ labels.zip events ∧
    e.orderId ≠ e'.orderId

theorem Splits.append {ls ls' : List (Option ℕ)} {es es' : List Event}
    (hlen : ls.length = es.length) (h : Splits ls es ∨ Splits ls' es') :
    Splits (ls ++ ls') (es ++ es') := by
  unfold Splits
  rw [List.zip_append hlen]
  rcases h with ⟨i, e, e', he, he', hne⟩ | ⟨i, e, e', he, he', hne⟩
  · exact ⟨i, e, e', List.mem_append_left _ he, List.mem_append_left _ he', hne⟩
  · exact ⟨i, e, e', List.mem_append_right _ he, List.mem_append_right _ he', hne⟩

theorem Splits.not_oneIdEach {labels : List (Option ℕ)} {events : List Event}
    (h : Splits labels events) : ¬ OneIdEach labels events := by
  obtain ⟨i, e, e', he, he', hne⟩ := h
  intro hone
  exact hne ((hone _ he _ he' i i rfl rfl).mpr rfl)

theorem oneIdEach_of_ownId {labels : List (Option ℕ)} {events : List Event}
    (h : List.Forall₂ OwnId labels events) : OneIdEach labels events := by
  have hzip : ∀ x ∈ labels.zip events, ∀ i, x.1 = some i → x.2.orderId = i := by
    rintro ⟨l, e⟩ hx i rfl
    exact (List.forall₂_iff_zip.mp h).2 hx
  intro x hx y hy i j hi hj
  rw [hzip x hx i hi, hzip y hy j hj]

theorem fill_crosses (hn : Ladder.NonEmpty ls) (hp : Priced ls) (h : Crosses g.side price q ls) :
    ∃ j js p k l es, (NumberedBook.fill g.side price q
        ((Ladder.entries ls).map toNumbered)).touched = j :: js ∧
      (sweep g price q ls).events = .response (aggressorFill g p k l) :: es := by
  obtain ⟨h0, L, hL, hx⟩ := h
  cases ls with
  | nil => cases hL
  | cons K ls =>
    obtain rfl : K = L := Option.some.inj hL
    obtain ⟨p, os⟩ := K
    obtain ⟨o, os, rfl⟩ := List.exists_cons_of_ne_nil (Ladder.nonEmpty_cons.mp hn).1
    rcases lt_or_ge q o.qty with hq | hq
    · rw [fill_part hp h0 hx hq, sweep_part g price os ls h0 hx hq]
      exact ⟨_, _, _, _, _, _, rfl, rfl⟩
    · rw [fill_whole hp h0 hx hq, sweep_filled g price os ls h0 hx hq]
      exact ⟨_, _, _, _, _, _, rfl, rfl⟩

theorem call_splits (hw : b.WF) (hc : c.Admissible) (h : b.CutsFillId c) :
    Splits (b.numbered.call c).2 (b.call c).2 := by
  obtain ⟨n, rfl, hge, htrades⟩ := h
  have hok := hw.book.sides _ hc.1.opposite
  obtain ⟨j, js, p, k, l, es, htouched, hevents⟩ :=
    fill_crosses (g := b.aggressor n) hok.nonEmpty hok.priced htrades
  have hadds := adds_numbered hw
  have hfilled : (b.numbered.filled n).touched = j :: js := by
    rw [NumberedBook.filled, numbered_side]
    exact htouched
  have hswept : (b.book.swept b.fillId n).events =
      .response (aggressorFill (b.aggressor n) p k l) :: es := hevents
  have hne : b.book.nextMarketOrderId ≠ b.book.nextMarketOrderId % 2 ^ 32 :=
    ((Nat.mod_lt _ (by decide)).trans_le hge).ne'
  refine ⟨b.book.nextMarketOrderId, b.book.accepted n,
    .response (aggressorFill (b.aggressor n) p k l), ?_, ?_, hne⟩ <;>
  · simp only [NumberedBook.call, NumberedBook.add, IndexedBook.call, IndexedBook.add,
      PriceTimeBook.place, hfilled, hswept, hadds, List.flatMap_cons, NumberedBook.fillLabels]
    split_ifs <;> simp

theorem run_about (hp : Placed adds b) (hw : b.WF) (hc : ∀ c ∈ calls, c.Admissible)
    (hroom : b.book.nextMarketOrderId + numAdds calls ≤ 2 ^ 64) :
    List.Forall₂ (fun l e => About (adds ++ addsOf calls) l e ∧ e.orderId < 2 ^ 64)
      (b.numbered.run calls).2 (b.run calls).2 := by
  induction calls generalizing adds b with
  | nil => exact .nil
  | cons c calls ih =>
    have hcc := hc c List.mem_cons_self
    rw [numAdds_cons] at hroom
    have hstep := (call_told hw hcc).imp fun l e h =>
      (⟨(h.about hp).append (addsOf calls), h.orderId_lt hw (by omega)⟩ :
        About (adds ++ addsOf [c] ++ addsOf calls) l e ∧ e.orderId < 2 ^ 64)
    have hrest := ih (hp.call hw hcc) (IndexedBook.wf_call hw hcc)
      (fun x hx => hc x (List.mem_cons_of_mem _ hx)) (by rw [b.next_call c]; omega)
    rw [← call_numbered hw hcc] at hrest
    rw [addsOf_cons, ← List.append_assoc]
    exact List.rel_append hstep hrest

theorem run_ownId (hw : b.WF) (hc : ∀ c ∈ calls, c.Admissible)
    (h : Trace.Every (fun b c => (IndexedBook.call b c).1) (fun b c => ¬ b.CutsFillId c) b calls) :
    List.Forall₂ OwnId (b.numbered.run calls).2 (b.run calls).2 := by
  induction calls generalizing b with
  | nil => exact .nil
  | cons c calls ih =>
    have hcc := hc c List.mem_cons_self
    have hstep : List.Forall₂ OwnId (b.numbered.call c).2 (b.call c).2 :=
      (call_told hw hcc).imp fun l e htold => by
        cases l with
        | none => trivial
        | some i => exact htold.ownId h.1
    have hrest := ih (IndexedBook.wf_call hw hcc) (fun x hx => hc x (List.mem_cons_of_mem _ hx)) h.2
    rw [← call_numbered hw hcc] at hrest
    exact List.rel_append hstep hrest

theorem run_splits (hw : b.WF) (hc : ∀ c ∈ calls, c.Admissible)
    (h : ¬ Trace.Every (fun b c => (IndexedBook.call b c).1) (fun b c => ¬ b.CutsFillId c) b
      calls) : Splits (b.numbered.run calls).2 (b.run calls).2 := by
  induction calls generalizing b with
  | nil => exact absurd trivial h
  | cons c calls ih =>
    have hcc := hc c List.mem_cons_self
    refine Splits.append (call_told hw hcc).length_eq ?_
    rcases not_and_or.mp h with hcut | hrest
    · exact .inl (call_splits hw hcc (not_not.mp hcut))
    · rw [call_numbered hw hcc]
      exact .inr (ih (IndexedBook.wf_call hw hcc) (fun x hx => hc x (List.mem_cons_of_mem _ hx))
        hrest)

theorem Refines.run_every {P : IndexedBook → Call → Prop} {Q : MEOrderBook → Call → Prop}
    {p p' : MEOrderBook} {events : List Event}
    (hPQ : ∀ p b c, Refines p b → b.WF → c.Admissible → (P b c ↔ Q p c)) (h : Refines p b)
    (hw : b.WF) (hc : ∀ c ∈ calls, c.Admissible) (hrun : p.run calls = .ok (p', events)) :
    events = (b.run calls).2 ∧ (Trace.Every (fun b c => (IndexedBook.call b c).1) P b calls ↔
      Trace.Each MEOrderBook.Next Q p calls) := by
  induction calls generalizing p b events with
  | nil =>
    cases hrun
    exact ⟨rfl, Iff.rfl⟩
  | cons c calls ih =>
    obtain ⟨⟨p₁, ev⟩, hcall, hrun⟩ := bind_eq_ok.mp hrun
    obtain ⟨⟨p₂, more⟩, hmore, hrun⟩ := bind_eq_ok.mp hrun
    cases hrun
    have hcc := hc c List.mem_cons_self
    obtain ⟨rfl, href⟩ := h.call_of_ok hw hcc hcall
    obtain ⟨rfl, hiff⟩ := ih href (IndexedBook.wf_call hw hcc)
      (fun x hx => hc x (List.mem_cons_of_mem _ hx)) hmore
    refine ⟨rfl, and_congr (hPQ p b c h hw hcc) (hiff.trans ⟨?_, ?_⟩)⟩
    · rintro heach p₃ ⟨ev₃, hcall₃⟩
      rw [hcall] at hcall₃
      cases hcall₃
      exact heach
    · exact fun heach => heach p₁ ⟨_, hcall⟩

theorem Refines.cutsFillId_iff {p : MEOrderBook} (h : Refines p b) :
    b.CutsFillId c ↔ p.CutsFillId c := by
  have hnext : p.nextMarketOrderId = b.book.nextMarketOrderId := by
    obtain ⟨s, -, -, hnext⟩ := h
    exact hnext
  constructor
  · rintro ⟨n, rfl, hge, htrades⟩
    exact ⟨n, _, rfl, h.decode, hnext ▸ hge, htrades⟩
  · rintro ⟨n, ladders, rfl, hdecode, hge, hcross⟩
    obtain rfl := Option.some.inj (h.decode.symm.trans hdecode)
    exact ⟨n, rfl, hnext ▸ hge, hcross⟩

end Run

def churn (k : ℕ) : List Call :=
  (List.replicate k [Call.add ⟨1, 10, 0, .buy, 100, 1⟩, .cancel 1 10 0]).flatten

section Churn

variable {k m : ℕ}

def emptyBook (m : ℕ) : IndexedBook := ⟨⟨⟨[], []⟩, m⟩, fun _ _ => none⟩

theorem churn_succ :
    churn (k + 1) = .add ⟨1, 10, 0, .buy, 100, 1⟩ :: .cancel 1 10 0 :: churn k := rfl

theorem numAdds_churn : numAdds (churn k) = k := by
  induction k with
  | zero => rfl
  | succ k ih => rw [churn_succ, numAdds, numAdds, ih]

theorem admissible_churn : ∀ c ∈ churn k, c.Admissible := by
  have hpair : ∀ c ∈ [Call.add ⟨1, 10, 0, .buy, 100, 1⟩, .cancel 1 10 0], c.Admissible := by decide
  intro c hc
  obtain ⟨l, hl, hcl⟩ := List.mem_flatten.mp hc
  rw [(List.mem_replicate.mp hl).2] at hcl
  exact hpair c hcl

def oneOrderBook (m : ℕ) : IndexedBook :=
  ⟨⟨⟨[⟨100, [⟨⟨0, 1, 10, m⟩, .buy, 100, 1, 1⟩]⟩], []⟩, m + 1⟩,
    OrderIndex.set (fun _ _ => none) 1 10 (some m)⟩

theorem emptyBook_add :
    ((emptyBook m).call (.add ⟨1, 10, 0, .buy, 100, 1⟩)).1 = oneOrderBook m := rfl

theorem oneOrderBook_cancel : ((oneOrderBook m).call (.cancel 1 10 0)).1 = emptyBook (m + 1) := by
  have hlookup : (oneOrderBook m).lookup 1 10 = some ⟨⟨0, 1, 10, m⟩, .buy, 100, 1, 1⟩ := by
    simp [IndexedBook.lookup, oneOrderBook, OrderIndex.set, Ladders.entries]
  have hindex : (oneOrderBook m).index.forget ⟨⟨0, 1, 10, m⟩, .buy, 100, 1, 1⟩ =
      fun _ _ => none := by
    funext c o
    simp [OrderIndex.forget, OrderIndex.set, oneOrderBook]
  have hdrop : (oneOrderBook m).book.drop ⟨⟨0, 1, 10, m⟩, .buy, 100, 1, 1⟩ =
      ⟨⟨[], []⟩, m + 1⟩ := by
    simp [oneOrderBook, PriceTimeBook.drop, Ladders.drop, Ladders.side, Ladders.setSide,
      Ladder.remove, Ladder.keep]
  simp only [IndexedBook.call, IndexedBook.cancel, hlookup, hindex, hdrop]
  rfl

theorem emptyBook_churn : ((emptyBook m).run (churn k)).1 = emptyBook (m + k) := by
  induction k generalizing m with
  | zero => rfl
  | succ k ih =>
    rw [churn_succ]
    change (((((emptyBook m).call _).1.call _).1).run (churn k)).1 = _
    rw [emptyBook_add, oneOrderBook_cancel, ih]
    congr 1
    omega

theorem wf_emptyBook (hm : 0 < m) : (emptyBook m).WF where
  book :=
    { sides := fun side h => by rcases h with rfl | rfl <;> exact SideOk.nil _
      uncrossed := by simp [emptyBook]
      ids := by simp [emptyBook, Ladders.entries]
      fresh := by simp [emptyBook, Ladders.entries]
      count := hm }
  live := by simp [emptyBook]

theorem run_append_ok {p₁ p₂ p₃ : MEOrderBook} {xs ys : List Call} {es fs : List Event}
    (h : p₁.run xs = .ok (p₂, es)) (k : p₂.run ys = .ok (p₃, fs)) :
    p₁.run (xs ++ ys) = .ok (p₃, es ++ fs) := by
  induction xs generalizing p₁ es with
  | nil =>
    cases h
    exact k
  | cons c xs ih =>
    obtain ⟨⟨p₄, ev⟩, hcall, h⟩ := bind_eq_ok.mp h
    obtain ⟨⟨p₅, more⟩, hmore, h⟩ := bind_eq_ok.mp h
    cases h
    simp only [List.cons_append, MEOrderBook.run, hcall, ok_bind, ih hmore, pure_ok,
      List.append_assoc]

theorem Refines.run_churn {p : MEOrderBook} (h : Refines p (emptyBook m)) (hm : 0 < m) :
    ∃ p' events, p.run (churn k) = .ok (p', events) ∧ Refines p' (emptyBook (m + k)) := by
  induction k generalizing m p with
  | zero => exact ⟨p, [], rfl, h⟩
  | succ k ih =>
    have hw := wf_emptyBook hm
    have hadm : Call.Admissible (.add ⟨1, 10, 0, .buy, 100, 1⟩) := by decide
    have hroom : ((emptyBook m).book.afterSweep (emptyBook m).fillId
        ⟨1, 10, 0, .buy, 100, 1⟩).entries.length + 1 < meMaxOrderIds :=
      (by decide : 0 + 1 < meMaxOrderIds)
    obtain ⟨p₁, hadd, h₁⟩ := h.add hw hadm (.inr hroom)
    rw [show ((emptyBook m).add ⟨1, 10, 0, .buy, 100, 1⟩).1 = _ from emptyBook_add] at h₁
    have hw₁ : (oneOrderBook m).WF := IndexedBook.wf_call hw hadm
    obtain ⟨p₂, hcancel, h₂⟩ := h₁.cancel hw₁ 0 (by decide : MEOrderBook.InRange 1 10)
    rw [show ((oneOrderBook m).cancel 1 10 0).1 = _ from oneOrderBook_cancel] at h₂
    obtain ⟨p₃, events, hrun, h₃⟩ := ih h₂ (Nat.succ_pos m)
    refine ⟨p₃, ((emptyBook m).add ⟨1, 10, 0, .buy, 100, 1⟩).2 ++
      (((oneOrderBook m).cancel 1 10 0).2 ++ events), ?_, ?_⟩
    · simp only [churn_succ, MEOrderBook.run, MEOrderBook.call, hadd, hcancel, hrun, ok_bind,
        pure_ok]
    · rwa [show m + (k + 1) = m + 1 + k by omega]

end Churn

theorem whose_eq (calls : List Call) : whose calls = ((emptyBook 1).numbered.run calls).2 := rfl

theorem oneIdEach_iff (checked : Bool) (tickerId : ℕ) {calls : List Call} {p : MEOrderBook}
    {events : List Event}
    (hc : ∀ c ∈ calls, c.Admissible) (hadds : numAdds calls < 2 ^ 64)
    (hrun : (MEOrderBook.new checked tickerId).run calls = .ok (p, events)) :
    List.Forall₂ (fun l e => About (addsOf calls) l e ∧ e.orderId < 2 ^ 64) (whose calls) events ∧
      (OneIdEach (whose calls) events ↔ Trace.Each MEOrderBook.Next
        (fun p c => ¬ p.CutsFillId c) (MEOrderBook.new checked tickerId) calls) := by
  have hw : (emptyBook 1).WF := wf_emptyBook Nat.one_pos
  obtain ⟨rfl, hiff⟩ := (refines_new checked tickerId).run_every
    (P := fun b c => ¬ b.CutsFillId c) (Q := fun p c => ¬ p.CutsFillId c)
    (fun p b c h _ _ => not_congr h.cutsFillId_iff) hw hc hrun
  have hroom : (emptyBook 1).book.nextMarketOrderId + numAdds calls ≤ 2 ^ 64 := by
    simp only [emptyBook]
    omega
  rw [whose_eq, ← hiff]
  refine ⟨run_about placed_new hw hc hroom, fun hone => ?_, fun h =>
    oneIdEach_of_ownId (run_ownId hw hc h)⟩
  by_contra hcut
  exact (run_splits hw hc hcut).not_oneIdEach hone

theorem oneIdEach_iff_sample :
    ∃ p events, (MEOrderBook.new true 0).run sampleCalls = .ok (p, events) ∧
      List.Forall₂ (fun l e => About (addsOf sampleCalls) l e ∧ e.orderId < 2 ^ 64)
        (whose sampleCalls) events ∧
      (OneIdEach (whose sampleCalls) events ↔ Trace.Each MEOrderBook.Next
        (fun p c => ¬ p.CutsFillId c) (MEOrderBook.new true 0) sampleCalls) := by
  obtain ⟨p, hrun, -⟩ := (refines_new true 0).run sampleCalls IndexedBook.wf_new (by decide)
    (by decide)
  exact ⟨p, _, hrun, oneIdEach_iff true 0 (by decide) (by decide) hrun⟩

def crossedPair : List Call := [.add ⟨1, 10, 0, .sell, 100, 1⟩, .add ⟨2, 20, 0, .buy, 100, 1⟩]

theorem emptyBook_crossedPair : ((emptyBook (2 ^ 32)).run crossedPair).2 =
    [.response ⟨.accepted, 1, 0, 10, 2 ^ 32, .sell, 100, 0, 1⟩,
      .update ⟨.add, 2 ^ 32, 0, .sell, 100, 1, 1⟩,
      .response ⟨.accepted, 2, 0, 20, 2 ^ 32 + 1, .buy, 100, 0, 1⟩,
      .response ⟨.filled, 2, 0, 20, 1, .buy, 100, 1, 0⟩,
      .response ⟨.filled, 1, 0, 10, 2 ^ 32, .sell, 100, 1, 0⟩,
      .update ⟨.trade, orderIdInvalid, 0, .buy, 100, 1, priorityInvalid⟩,
      .update ⟨.cancel, 2 ^ 32, 0, .sell, 100, 1, priorityInvalid⟩] := by
  decide +kernel

theorem trace_run (b : IndexedBook) (calls : List Call) :
    Trace.run (fun b c => (IndexedBook.call b c).1) b calls = (b.run calls).1 := by
  induction calls generalizing b with
  | nil => rfl
  | cons c calls ih => exact ih _

theorem Refines.run_crossedPair {p : MEOrderBook} (h : Refines p (emptyBook (2 ^ 32))) :
    ∃ p', p.run crossedPair = .ok (p', ((emptyBook (2 ^ 32)).run crossedPair).2) := by
  have hw := wf_emptyBook (by decide : 0 < 2 ^ 32)
  obtain ⟨p₁, hsell, h₁⟩ := h.add (n := ⟨1, 10, 0, .sell, 100, 1⟩) hw (by decide)
    (.inr (by decide +kernel))
  have hw₁ := IndexedBook.wf_add (n := ⟨1, 10, 0, .sell, 100, 1⟩) hw (by decide)
  obtain ⟨p₂, hbuy, -⟩ := h₁.add (n := ⟨2, 20, 0, .buy, 100, 1⟩) hw₁ (by decide)
    (.inl (by decide +kernel))
  refine ⟨p₂, ?_⟩
  simp only [crossedPair, MEOrderBook.run, MEOrderBook.call, hsell, hbuy, ok_bind, pure_ok]
  rfl

theorem cuts_crossedPair : ¬ Trace.Every (fun b c => (IndexedBook.call b c).1)
    (fun b c => ¬ b.CutsFillId c) (emptyBook (2 ^ 32)) crossedPair := by
  intro h
  exact h.2.1 ⟨_, rfl, by decide +kernel, by decide,
    ⟨100, [⟨⟨0, 1, 10, 2 ^ 32⟩, .sell, 100, 1, 1⟩]⟩, by decide +kernel, by decide⟩

/-- The order numbered `2 ^ 32 + 1` is filled under the id of the first order of the day. -/
theorem fill_reuses_first_id :
    ∃ p events, (MEOrderBook.new true 0).run (churn (2 ^ 32 - 1) ++ crossedPair) =
        .ok (p, events) ∧
      .response ⟨.accepted, 1, 0, 10, 1, .buy, 100, 0, 1⟩ ∈ events ∧
      .response ⟨.accepted, 2, 0, 20, 2 ^ 32 + 1, .buy, 100, 0, 1⟩ ∈ events ∧
      .response ⟨.filled, 2, 0, 20, 1, .buy, 100, 1, 0⟩ ∈ events ∧
      ¬ OneIdEach (whose (churn (2 ^ 32 - 1) ++ crossedPair)) events := by
  have hcount : 1 + (2 ^ 32 - 1) = 2 ^ 32 := by decide
  have hadm : ∀ c ∈ churn (2 ^ 32 - 1) ++ crossedPair, c.Admissible := fun c hc =>
    (List.mem_append.mp hc).elim (admissible_churn c) ((by decide : ∀ c ∈ crossedPair,
      c.Admissible) c)
  have hw : (emptyBook 1).WF := wf_emptyBook Nat.one_pos
  have hnew : Refines (MEOrderBook.new true 0) (emptyBook 1) := refines_new true 0
  obtain ⟨p₁, es, hchurn, href⟩ := hnew.run_churn (k := 2 ^ 32 - 1) Nat.one_pos
  rw [hcount] at href
  obtain ⟨p₂, hpair⟩ := href.run_crossedPair
  have hrun := run_append_ok hchurn hpair
  obtain ⟨hevents, -⟩ := hnew.run_every (P := fun _ _ => True) (Q := fun _ _ => True)
    (fun _ _ _ _ _ _ => Iff.rfl) hw hadm hrun
  have hcut : ¬ Trace.Every (fun b c => (IndexedBook.call b c).1) (fun b c => ¬ b.CutsFillId c)
      (emptyBook 1) (churn (2 ^ 32 - 1) ++ crossedPair) := by
    rw [Trace.every_append, trace_run, emptyBook_churn, hcount]
    exact fun h => cuts_crossedPair h.2
  refine ⟨p₂, _, hrun, ?_, List.mem_append_right _ ?_, List.mem_append_right _ ?_, ?_⟩
  · obtain ⟨k, hk⟩ := Nat.exists_eq_add_of_lt (by norm_num : 0 < 2 ^ 32 - 1)
    rw [hevents, hk, churn_succ]
    exact List.mem_append_left _ List.mem_cons_self
  · rw [emptyBook_crossedPair]
    simp
  · rw [emptyBook_crossedPair]
    simp
  · rw [hevents, whose_eq]
    exact (run_splits hw hadm hcut).not_oneIdEach

end Exchange
