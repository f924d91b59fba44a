import Mathlib.Tactic
import Mathlib.Order.Defs.Unbundled

structure Level (P O : Type) where
  price : P
  orders : List O
  deriving DecidableEq, Repr

namespace Ladder

variable {P O Q : Type}

def entries (ls : List (Level P O)) : List O := ls.flatMap Level.orders

def mapOrders (f : O → Q) (ls : List (Level P O)) : List (Level P Q) :=
  ls.map fun L => ⟨L.price, L.orders.map f⟩

def NonEmpty (ls : List (Level P O)) : Prop := ∀ L ∈ ls, L.orders ≠ []

def update (q : O → Bool) (f : O → O) (ls : List (Level P O)) : List (Level P O) :=
  mapOrders (fun o => if q o then f o else o) ls

def keep (L : Level P O) : List (Level P O) := if L.orders.isEmpty then [] else [L]

def remove (q : O → Bool) (ls : List (Level P O)) : List (Level P O) :=
  ls.flatMap fun L => keep ⟨L.price, L.orders.filter fun o => !q o⟩

@[simp] theorem entries_nil : entries ([] : List (Level P O)) = [] := rfl

@[simp] theorem entries_cons (L : Level P O) (ls : List (Level P O)) :
    entries (L :: ls) = L.orders ++ entries ls := rfl

@[simp] theorem entries_append (k ls : List (Level P O)) :
    entries (k ++ ls) = entries k ++ entries ls := by simp [entries]

theorem mem_entries {o : O} {ls : List (Level P O)} :
    o ∈ entries ls ↔ ∃ L ∈ ls, o ∈ L.orders := by simp [entries]

@[simp] theorem mapOrders_nil (f : O → Q) : mapOrders f ([] : List (Level P O)) = [] := rfl

@[simp] theorem mapOrders_cons (f : O → Q) (L : Level P O) (ls : List (Level P O)) :
    mapOrders f (L :: ls) = ⟨L.price, L.orders.map f⟩ :: mapOrders f ls := rfl

@[simp] theorem mapOrders_append (f : O → Q) (k ls : List (Level P O)) :
    mapOrders f (k ++ ls) = mapOrders f k ++ mapOrders f ls := by simp [mapOrders]

theorem entries_mapOrders (f : O → Q) (ls : List (Level P O)) :
    entries (mapOrders f ls) = (entries ls).map f := by
  induction ls with
  | nil => rfl
  | cons L ls ih => simp [ih]

theorem mapOrders_mapOrders {R : Type} (f : O → Q) (g : Q → R) (ls : List (Level P O)) :
    mapOrders g (mapOrders f ls) = mapOrders (g ∘ f) ls := by simp [mapOrders]

theorem mapOrders_congr {f g : O → Q} {ls : List (Level P O)}
    (h : ∀ o ∈ entries ls, f o = g o) : mapOrders f ls = mapOrders g ls := by
  induction ls with
  | nil => rfl
  | cons L ls ih =>
    simp only [entries_cons, List.mem_append] at h
    rw [mapOrders_cons, mapOrders_cons, ih fun o ho => h o (.inr ho),
      List.map_congr_left fun o ho => h o (.inl ho)]

theorem mapOrders_id (ls : List (Level P O)) : mapOrders (fun o => o) ls = ls := by
  induction ls with
  | nil => rfl
  | cons L ls ih => simp [ih]

@[simp] theorem map_price_mapOrders (f : O → Q) (ls : List (Level P O)) :
    (mapOrders f ls).map Level.price = ls.map Level.price := by
  induction ls with
  | nil => rfl
  | cons L ls ih => simp [ih]

theorem nonEmpty_mapOrders (f : O → Q) {ls : List (Level P O)} :
    NonEmpty (mapOrders f ls) ↔ NonEmpty ls := by
  simp [NonEmpty, mapOrders]

theorem nonEmpty_cons {L : Level P O} {ls : List (Level P O)} :
    NonEmpty (L :: ls) ↔ L.orders ≠ [] ∧ NonEmpty ls := by
  simp [NonEmpty]

theorem nonEmpty_append {k ls : List (Level P O)} :
    NonEmpty (k ++ ls) ↔ NonEmpty k ∧ NonEmpty ls := by
  simp [NonEmpty, or_imp, forall_and]

@[simp] theorem remove_nil (q : O → Bool) : remove q ([] : List (Level P O)) = [] := rfl

theorem remove_cons (q : O → Bool) (L : Level P O) (ls : List (Level P O)) :
    remove q (L :: ls) = keep ⟨L.price, L.orders.filter fun o => !q o⟩ ++ remove q ls := rfl

theorem remove_append (q : O → Bool) (k ls : List (Level P O)) :
    remove q (k ++ ls) = remove q k ++ remove q ls := by simp [remove]

theorem entries_keep (L : Level P O) : entries (keep L) = L.orders := by
  unfold keep
  split_ifs with h
  · simp [List.isEmpty_iff.mp h]
  · simp

theorem nonEmpty_keep (L : Level P O) : NonEmpty (keep L) := by
  unfold keep
  split_ifs with h
  · simp [NonEmpty]
  · simpa [NonEmpty] using h

theorem mapOrders_keep (f : O → Q) (L : Level P O) :
    mapOrders f (keep L) = keep ⟨L.price, L.orders.map f⟩ := by
  unfold keep
  simp only [List.isEmpty_map]
  split_ifs <;> rfl

theorem entries_remove (q : O → Bool) (ls : List (Level P O)) :
    entries (remove q ls) = (entries ls).filter fun o => !q o := by
  induction ls with
  | nil => rfl
  | cons L ls ih => simp [remove_cons, entries_keep, ih]

theorem remove_head {q : O → Bool} {L : Level P O} (ls : List (Level P O)) (hL : L.orders ≠ [])
    (hq : ∀ o ∈ L.orders, q o = false) : remove q (L :: ls) = L :: remove q ls := by
  have hf : L.orders.filter (fun o => !q o) = L.orders :=
    List.filter_eq_self.mpr fun o ho => by simp [hq o ho]
  rw [remove_cons, hf, keep, if_neg (by simpa using hL)]
  rfl

theorem remove_eq_self {q : O → Bool} {ls : List (Level P O)} (hn : NonEmpty ls)
    (hq : ∀ o ∈ entries ls, q o = false) : remove q ls = ls := by
  induction ls with
  | nil => rfl
  | cons L ls ih =>
    obtain ⟨hL, hls⟩ := nonEmpty_cons.mp hn
    simp only [entries_cons, List.mem_append] at hq
    rw [remove_head ls hL fun o ho => hq o (.inl ho), ih hls fun o ho => hq o (.inr ho)]

theorem remove_one {q : O → Bool} {k ls : List (Level P O)} {p : P} {xs ys : List O} {o : O}
    (hn : NonEmpty (k ++ ls)) (ho : q o = true)
    (hq : ∀ x ∈ entries k ++ xs ++ ys ++ entries ls, q x = false) :
    remove q (k ++ ⟨p, xs ++ o :: ys⟩ :: ls) = k ++ keep ⟨p, xs ++ ys⟩ ++ ls := by
  obtain ⟨hk, hls⟩ := nonEmpty_append.mp hn
  simp only [List.mem_append] at hq
  have hf : ∀ zs : List O, (∀ x ∈ zs, q x = false) → zs.filter (fun x => !q x) = zs :=
    fun zs hz => List.filter_eq_self.mpr fun x hx => by simp [hz x hx]
  rw [remove_append, remove_cons, remove_eq_self hk fun x hx => hq x (by tauto),
    remove_eq_self hls fun x hx => hq x (by tauto)]
  simp [ho, hf xs fun x hx => hq x (by tauto), hf ys fun x hx => hq x (by tauto)]

theorem remove_first {q : O → Bool} {p : P} {o : O} {os : List O} {ls : List (Level P O)}
    (hn : NonEmpty ls) (ho : q o = true) (hq : ∀ x ∈ os ++ entries ls, q x = false) :
    remove q (⟨p, o :: os⟩ :: ls) = keep ⟨p, os⟩ ++ ls :=
  @remove_one _ _ _ [] ls p [] os o hn ho hq

theorem mem_remove {q : O → Bool} {ls : List (Level P O)} {K : Level P O} (h : K ∈ remove q ls) :
    K.orders ≠ [] ∧ ∃ L ∈ ls, K.price = L.price ∧ K.orders.Sublist L.orders := by
  obtain ⟨L, hL, hK⟩ := List.mem_flatMap.mp h
  unfold keep at hK
  split_ifs at hK with he
  · exact absurd hK (by simp)
  · rw [List.mem_singleton.mp hK]
    exact ⟨by simpa using he, L, hL, rfl, List.filter_sublist⟩

theorem nonEmpty_remove (q : O → Bool) (ls : List (Level P O)) : NonEmpty (remove q ls) :=
  fun _ hL => (mem_remove hL).1

theorem prices_remove_sublist (q : O → Bool) (ls : List (Level P O)) :
    ((remove q ls).map Level.price).Sublist (ls.map Level.price) := by
  induction ls with
  | nil => exact .slnil
  | cons L ls ih =>
    rw [remove_cons, keep]
    split_ifs
    · exact ih.cons _
    · exact ih.cons_cons _

theorem remove_mapOrders {q : Q → Bool} (f : O → Q) (ls : List (Level P O)) :
    remove q (mapOrders f ls) = mapOrders f (remove (fun o => q (f o)) ls) := by
  induction ls with
  | nil => rfl
  | cons L ls ih =>
    rw [mapOrders_cons, remove_cons, remove_cons, mapOrders_append, ih, List.filter_map,
      mapOrders_keep]
    rfl

theorem remove_congr {q r : O → Bool} {ls : List (Level P O)}
    (h : ∀ o ∈ entries ls, q o = r o) : remove q ls = remove r ls := by
  induction ls with
  | nil => rfl
  | cons L ls ih =>
    simp only [entries_cons, List.mem_append] at h
    rw [remove_cons, remove_cons, ih fun o ho => h o (.inr ho),
      List.filter_congr fun o ho => by rw [h o (.inl ho)]]

theorem entries_update (q : O → Bool) (f : O → O) (ls : List (Level P O)) :
    entries (update q f ls) = (entries ls).map fun o => if q o then f o else o :=
  entries_mapOrders _ ls

theorem update_head {q : O → Bool} {f : O → O} {L : Level P O} (ls : List (Level P O))
    (hq : ∀ o ∈ L.orders, q o = false) : update q f (L :: ls) = L :: update q f ls := by
  have hmap : L.orders.map (fun o => if q o then f o else o) = L.orders :=
    (List.map_congr_left fun o ho => by simp [hq o ho]).trans (List.map_id _)
  rw [update, mapOrders_cons, hmap]
  rfl

theorem update_mapOrders {q : Q → Bool} {f : Q → Q} (g : O → Q) (f' : O → O)
    (hg : ∀ o, g (f' o) = f (g o)) (ls : List (Level P O)) :
    update q f (mapOrders g ls) = mapOrders g (update (fun o => q (g o)) f' ls) := by
  rw [update, update, mapOrders_mapOrders, mapOrders_mapOrders]
  refine mapOrders_congr fun o _ => ?_
  simp only [Function.comp_def]
  split_ifs
  · exact (hg o).symm
  · rfl

theorem update_one {q : O → Bool} {f : O → O} {k ls : List (Level P O)} {p : P} {xs ys : List O}
    {o : O} (ho : q o = true)
    (hq : ∀ x ∈ entries k ++ xs ++ ys ++ entries ls, q x = false) :
    update q f (k ++ ⟨p, xs ++ o :: ys⟩ :: ls) = k ++ ⟨p, xs ++ f o :: ys⟩ :: ls := by
  simp only [List.mem_append] at hq
  have hm : ∀ ks : List (Level P O), (∀ x ∈ entries ks, q x = false) →
      mapOrders (fun x => if q x then f x else x) ks = ks := by
    intro ks hks
    rw [mapOrders_congr (g := fun x => x) fun x hx => by simp [hks x hx], mapOrders_id]
  have hl : ∀ zs : List O, (∀ x ∈ zs, q x = false) →
      zs.map (fun x => if q x then f x else x) = zs := by
    intro zs hz
    exact (List.map_congr_left fun x hx => by simp [hz x hx]).trans (List.map_id zs)
  rw [update, mapOrders_append, mapOrders_cons, hm k fun x hx => hq x (by tauto),
    hm ls fun x hx => hq x (by tauto)]
  simp [ho, hl xs fun x hx => hq x (by tauto), hl ys fun x hx => hq x (by tauto)]

theorem update_first {q : O → Bool} {f : O → O} {p : P} {o : O} {os : List O}
    {ls : List (Level P O)} (ho : q o = true) (hq : ∀ x ∈ os ++ entries ls, q x = false) :
    update q f (⟨p, o :: os⟩ :: ls) = ⟨p, f o :: os⟩ :: ls :=
  @update_one _ _ _ _ [] ls p [] os o ho hq

section Below

variable (key : O → ℕ)

def below (n : ℕ) (ls : List (Level P O)) : List (Level P O) :=
  remove (fun o => decide (n ≤ key o)) ls

theorem below_zero (ls : List (Level P O)) : below key 0 ls = [] := by
  induction ls with
  | nil => rfl
  | cons L ls ih =>
    rw [below, remove_cons, ← below, ih]
    simp [keep]

theorem below_eq_self {n : ℕ} {ls : List (Level P O)} (hn : NonEmpty ls)
    (h : ∀ o ∈ entries ls, key o < n) : below key n ls = ls :=
  remove_eq_self hn fun o ho => decide_eq_false (Nat.not_le.mpr (h o ho))

theorem below_succ {n : ℕ} {ls : List (Level P O)} (h : ∀ o ∈ entries ls, key o ≠ n) :
    below key (n + 1) ls = below key n ls := by
  refine remove_congr fun o ho => ?_
  have := h o ho
  rw [decide_eq_decide]
  omega

end Below

section Priority

variable [DecidableEq P] (better : P → P → Prop) [DecidableRel better]

def insert (p : P) (o : O) : List (Level P O) → List (Level P O)
  | [] => [⟨p, [o]⟩]
  | L :: ls =>
      if L.price = p then ⟨L.price, L.orders ++ [o]⟩ :: ls
      else if better p L.price then ⟨p, [o]⟩ :: L :: ls
      else L :: insert p o ls

def Sorted (ls : List (Level P O)) : Prop := (ls.map Level.price).Pairwise better

variable {better}

omit [DecidableEq P] [DecidableRel better] in
theorem Sorted.below (key : O → ℕ) {ls : List (Level P O)} (h : Sorted better ls) (n : ℕ) :
    Sorted better (below key n ls) :=
  h.sublist (prices_remove_sublist _ ls)

theorem entries_insert_perm (p : P) (o : O) (ls : List (Level P O)) :
    (entries (insert better p o ls)).Perm (o :: entries ls) := by
  induction ls with
  | nil => simp [insert]
  | cons L ls ih =>
    unfold insert
    split_ifs with he hb
    · simp only [entries_cons, List.append_assoc, List.singleton_append]
      exact List.perm_middle
    · simp
    · rw [entries_cons, entries_cons]
      exact (ih.append_left L.orders).trans List.perm_middle

theorem mem_insert {p : P} {o : O} {ls : List (Level P O)} {K : Level P O}
    (h : K ∈ insert better p o ls) :
    K ∈ ls ∨ K = ⟨p, [o]⟩ ∨ ∃ L ∈ ls, L.price = p ∧ K = ⟨p, L.orders ++ [o]⟩ := by
  induction ls with
  | nil => exact .inr (.inl (List.mem_singleton.mp h))
  | cons L ls ih =>
    unfold insert at h
    split_ifs at h with he hb
    · rcases List.mem_cons.mp h with rfl | h
      · exact .inr (.inr ⟨L, by simp, he, by rw [he]⟩)
      · exact .inl (List.mem_cons_of_mem _ h)
    · rcases List.mem_cons.mp h with rfl | h
      · exact .inr (.inl rfl)
      · exact .inl h
    · rcases List.mem_cons.mp h with rfl | h
      · exact .inl (List.mem_cons_self ..)
      · rcases ih h with h | h | ⟨M, hM, h⟩
        · exact .inl (List.mem_cons_of_mem _ h)
        · exact .inr (.inl h)
        · exact .inr (.inr ⟨M, List.mem_cons_of_mem _ hM, h⟩)

theorem mem_entries_insert {p : P} {o x : O} {ls : List (Level P O)} :
    x ∈ entries (insert better p o ls) ↔ x = o ∨ x ∈ entries ls := by
  rw [(entries_insert_perm p o ls).mem_iff, List.mem_cons]

theorem insert_mapOrders (f : O → Q) (p : P) (o : O) (ls : List (Level P O)) :
    insert better p (f o) (mapOrders f ls) = mapOrders f (insert better p o ls) := by
  induction ls with
  | nil => rfl
  | cons L ls ih =>
    rw [mapOrders_cons, insert, insert]
    split_ifs <;> simp [ih]

theorem nonEmpty_insert {p : P} {o : O} {ls : List (Level P O)} (h : NonEmpty ls) :
    NonEmpty (insert better p o ls) := by
  induction ls with
  | nil => simp [insert, NonEmpty]
  | cons L ls ih =>
    obtain ⟨hL, hls⟩ := nonEmpty_cons.mp h
    unfold insert
    split_ifs
    · exact nonEmpty_cons.mpr ⟨by simp, hls⟩
    · exact nonEmpty_cons.mpr ⟨by simp, h⟩
    · exact nonEmpty_cons.mpr ⟨hL, ih hls⟩

theorem mem_prices_insert {p r : P} {o : O} {ls : List (Level P O)} :
    r ∈ (insert better p o ls).map Level.price ↔ r = p ∨ r ∈ ls.map Level.price := by
  induction ls with
  | nil => simp [insert]
  | cons L ls ih =>
    unfold insert
    split_ifs with he hb
    · simp [he]
    · simp
    · rw [List.map_cons, List.mem_cons, ih, List.map_cons, List.mem_cons]
      tauto

section Total

variable [IsStrictTotalOrder P better]

theorem sorted_insert {p : P} {o : O} {ls : List (Level P O)} (h : Sorted better ls) :
    Sorted better (insert better p o ls) := by
  induction ls with
  | nil => simp [insert, Sorted]
  | cons L ls ih =>
    obtain ⟨hL, hls⟩ := List.pairwise_cons.mp h
    unfold insert
    split_ifs with he hb
    · exact h
    · refine List.pairwise_cons.mpr ⟨?_, h⟩
      intro r hr
      rcases List.mem_cons.mp hr with rfl | hr
      · exact hb
      · exact trans_of better hb (hL r hr)
    · refine List.pairwise_cons.mpr ⟨?_, ih hls⟩
      intro r hr
      rcases mem_prices_insert.mp hr with rfl | hr
      · rcases trichotomous_of better L.price r with h1 | h1 | h1
        · exact h1
        · exact absurd h1 he
        · exact absurd h1 hb
      · exact hL r hr

theorem insert_existing {p : P} {o : O} {k ls : List (Level P O)} {xs : List O}
    (h : Sorted better (k ++ ⟨p, xs⟩ :: ls)) :
    insert better p o (k ++ ⟨p, xs⟩ :: ls) = k ++ ⟨p, xs ++ [o]⟩ :: ls := by
  induction k with
  | nil => simp [insert]
  | cons L k ih =>
    obtain ⟨hL, hk⟩ := List.pairwise_cons.mp h
    have hb : better L.price p := hL p (by simp)
    have hne : L.price ≠ p := fun he => irrefl_of better p (he ▸ hb)
    rw [List.cons_append, insert, if_neg hne, if_neg (asymm_of better hb), ih hk]
    rfl

theorem insert_new {p : P} {o : O} {k ls : List (Level P O)}
    (hk : ∀ L ∈ k, better L.price p) (hls : ∀ L ∈ ls, better p L.price) :
    insert better p o (k ++ ls) = k ++ ⟨p, [o]⟩ :: ls := by
  induction k with
  | nil =>
    cases ls with
    | nil => rfl
    | cons L ls =>
      have hb := hls L (by simp)
      have hne : L.price ≠ p := fun he => irrefl_of better p (he ▸ hb)
      rw [List.nil_append, insert, if_neg hne, if_pos hb]
      rfl
  | cons L k ih =>
    have hb := hk L (by simp)
    have hne : L.price ≠ p := fun he => irrefl_of better p (he ▸ hb)
    rw [List.cons_append, insert, if_neg hne, if_neg (asymm_of better hb),
      ih fun K hK => hk K (by simp [hK])]
    rfl

theorem insert_below (key : O → ℕ) {p : P} {o : O} {k ls : List (Level P O)} {xs ys : List O}
    (h : Sorted better (k ++ ⟨p, xs ++ o :: ys⟩ :: ls)) (hxs : ∀ x ∈ xs, key x < key o)
    (hys : ∀ y ∈ ys, key o < key y) (hother : ∀ x ∈ entries k ++ entries ls, key x ≠ key o) :
    insert better p o (below key (key o) (k ++ ⟨p, xs ++ o :: ys⟩ :: ls)) =
      below key (key o + 1) (k ++ ⟨p, xs ++ o :: ys⟩ :: ls) := by
  obtain ⟨-, hrest, hcross⟩ := List.pairwise_append.mp ((congrArg _ List.map_append).mp h)
  obtain ⟨hp, -⟩ := List.pairwise_cons.mp hrest
  have hfilter : (xs ++ o :: ys).filter (fun x => !decide (key o ≤ key x)) = xs := by
    rw [List.filter_append, List.filter_eq_self.mpr fun x hx => ?_, List.filter_eq_nil_iff.mpr,
      List.append_nil]
    · intro y hy
      rcases List.mem_cons.mp hy with rfl | hy
      · simp
      · simpa using (hys y hy).le
    · simpa using hxs x hx
  have hfilter' : (xs ++ o :: ys).filter (fun x => !decide (key o + 1 ≤ key x)) = xs ++ [o] := by
    rw [List.filter_append, List.filter_eq_self.mpr fun x hx => ?_, List.filter_cons_of_pos,
      List.filter_eq_nil_iff.mpr]
    · intro y hy
      simpa using hys y hy
    · simp
    · have := hxs x hx
      simp only [Bool.not_eq_true', decide_eq_false_iff_not]
      omega
  have hbk : below key (key o + 1) k = below key (key o) k :=
    below_succ key fun x hx => hother x (List.mem_append_left _ hx)
  have hbls : below key (key o + 1) ls = below key (key o) ls :=
    below_succ key fun x hx => hother x (List.mem_append_right _ hx)
  have hto : below key (key o + 1) (k ++ ⟨p, xs ++ o :: ys⟩ :: ls) =
      below key (key o) k ++ ⟨p, xs ++ [o]⟩ :: below key (key o) ls := by
    rw [← hbk, ← hbls]
    simp only [below, remove_append, remove_cons, hfilter']
    simp [keep]
  rw [hto]
  have hfrom : below key (key o) (k ++ ⟨p, xs ++ o :: ys⟩ :: ls) =
      below key (key o) k ++ (keep ⟨p, xs⟩ ++ below key (key o) ls) := by
    simp only [below, remove_append, remove_cons, hfilter]
  have hsorted := Sorted.below key h (key o)
  rw [hfrom] at hsorted ⊢
  cases xs with
  | nil =>
    refine insert_new (fun K hK => ?_) fun K hK => ?_
    · obtain ⟨-, L, hL, hprice, -⟩ := mem_remove hK
      exact hprice ▸ hcross _ (List.mem_map_of_mem hL) p (List.mem_cons_self ..)
    · obtain ⟨-, L, hL, hprice, -⟩ := mem_remove hK
      exact hprice ▸ hp _ (List.mem_map_of_mem hL)
  | cons x xs => exact insert_existing hsorted

end Total

end Priority

end Ladder
