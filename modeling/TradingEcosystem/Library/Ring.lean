import Mathlib.Data.List.Chain
import Mathlib.Data.List.Nodup

namespace CircularList

variable {α : Type} {nxt prv nxt' prv' : α → Option α}

def Link (nxt prv : α → Option α) (x y : α) : Prop := nxt x = some y ∧ prv y = some x

structure IsRing (nxt prv : α → Option α) (l : List α) : Prop where
  nodup : l.Nodup
  chain : (l ++ l.head?.toList).IsChain (Link nxt prv)

theorem isRing_nil : IsRing nxt prv [] := ⟨.nil, .nil⟩

theorem isRing_singleton {x : α} (hn : nxt x = some x) (hp : prv x = some x) :
    IsRing nxt prv [x] :=
  ⟨List.nodup_singleton x, by simpa [Link] using And.intro hn hp⟩

theorem isRing_cons {x : α} {l : List α} :
    IsRing nxt prv (x :: l) ↔ (x :: l).Nodup ∧ (x :: (l ++ [x])).IsChain (Link nxt prv) :=
  ⟨fun h => ⟨h.nodup, by simpa using h.chain⟩, fun h => ⟨h.1, by simpa using h.2⟩⟩

theorem IsRing.rotate_one {x : α} {l : List α} (h : IsRing nxt prv (x :: l)) :
    IsRing nxt prv (l ++ [x]) := by
  obtain ⟨hd, hc⟩ := isRing_cons.mp h
  cases l with
  | nil => simpa using h
  | cons y l =>
    rw [List.cons_append] at hc ⊢
    refine isRing_cons.mpr ⟨?_, ?_⟩
    · exact (List.perm_append_singleton x (y :: l)).nodup_iff.mpr hd
    · rw [List.isChain_cons_cons] at hc
      have hs : (y :: (l ++ x :: [y])).IsChain (Link nxt prv) :=
        List.isChain_cons_split.mpr ⟨hc.2, List.isChain_pair.mpr hc.1⟩
      simpa using hs

theorem IsRing.rotate {k t : List α} (h : IsRing nxt prv (k ++ t)) :
    IsRing nxt prv (t ++ k) := by
  induction k generalizing t with
  | nil => simpa using h
  | cons x k ih =>
    have hr := IsRing.rotate_one (l := k ++ t) h
    rw [List.append_assoc] at hr
    simpa using ih hr

theorem IsRing.congr {l : List α} (h : IsRing nxt prv l) (hn : ∀ a ∈ l, nxt' a = nxt a)
    (hp : ∀ a ∈ l, prv' a = prv a) : IsRing nxt' prv' l := by
  refine ⟨h.nodup, ?_⟩
  have hm : ∀ a ∈ l ++ l.head?.toList, a ∈ l := by
    intro a ha
    rcases List.mem_append.mp ha with ha | ha
    · exact ha
    · exact List.mem_of_mem_head? (by simpa using ha)
  refine List.IsChain.imp_of_mem_imp ?_ h.chain
  intro a b ha hb hl
  exact ⟨by rw [hn a (hm a ha)]; exact hl.1, by rw [hp b (hm b hb)]; exact hl.2⟩

theorem IsRing.next_head {x : α} {l : List α} (h : IsRing nxt prv (x :: l)) :
    nxt x = some ((l ++ [x]).head (by simp)) := by
  have hc := (isRing_cons.mp h).2
  cases l with
  | nil => exact (List.isChain_pair.mp hc).1
  | cons y l => exact (List.isChain_cons_cons.mp hc).1.1

theorem IsRing.prev_head {x : α} {l : List α} (h : IsRing nxt prv (x :: l)) :
    prv x = some ((x :: l).getLast (by simp)) := by
  have hc := (isRing_cons.mp h).2
  rcases List.eq_nil_or_concat l with rfl | ⟨m, z, rfl⟩
  · exact (List.isChain_pair.mp hc).2
  · rw [List.concat_eq_append, List.append_assoc] at hc
    have hs := List.isChain_cons_split.mp (show (x :: (m ++ z :: [x])).IsChain (Link nxt prv) by simpa using hc)
    simpa using (List.isChain_pair.mp hs.2).2

theorem IsRing.self_of_next_self {x : α} {l : List α} (h : IsRing nxt prv (x :: l))
    (hx : nxt x = some x) : l = [] := by
  rw [h.next_head] at hx
  cases l with
  | nil => rfl
  | cons y l =>
    have hxy : y = x := by simpa using hx
    exact absurd h.nodup (by simp [hxy])

theorem IsRing.self_of_prev_self {x : α} {l : List α} (h : IsRing nxt prv (x :: l))
    (hx : prv x = some x) : l = [] := by
  rw [h.prev_head] at hx
  rcases List.eq_nil_or_concat l with rfl | ⟨m, z, rfl⟩
  · rfl
  · have hz : z = x := by simpa using hx
    exact absurd h.nodup (by simp [hz])

theorem isRing_iff_path {x : α} {l : List α} :
    IsRing nxt prv (x :: l) ↔ (x :: l).Nodup ∧ (x :: l).IsChain (Link nxt prv) ∧
      Link nxt prv ((x :: l).getLast (by simp)) x := by
  rw [isRing_cons]
  refine and_congr_right fun _ => ?_
  rcases List.eq_nil_or_concat l with rfl | ⟨m, z, rfl⟩
  · simp
  · rw [List.concat_eq_append, List.append_assoc, List.singleton_append]
    rw [List.isChain_cons_split, List.isChain_pair]
    simp

theorem path_congr {x : α} {l : List α} (hd : (x :: l).Nodup)
    (hc : (x :: l).IsChain (Link nxt prv))
    (hn : ∀ a ∈ x :: l, a ≠ (x :: l).getLast (by simp) → nxt' a = nxt a)
    (hp : ∀ a ∈ l, prv' a = prv a) : (x :: l).IsChain (Link nxt' prv') := by
  induction l generalizing x with
  | nil => exact .singleton x
  | cons y l ih =>
    obtain ⟨hxy, hr⟩ := List.isChain_cons_cons.mp hc
    have hx : x ≠ (x :: y :: l).getLast (by simp) := by
      rw [List.getLast_cons (by simp)]
      exact fun he => (List.nodup_cons.mp hd).1 (he ▸ List.getLast_mem (by simp))
    refine List.isChain_cons_cons.mpr ⟨⟨?_, ?_⟩, ih (List.nodup_cons.mp hd).2 hr ?_ ?_⟩
    · rw [hn x (by simp) hx]; exact hxy.1
    · rw [hp y (by simp)]; exact hxy.2
    · intro a ha hne
      exact hn a (List.mem_cons_of_mem _ ha) (by rwa [List.getLast_cons (by simp)])
    · exact fun a ha => hp a (List.mem_cons_of_mem _ ha)

theorem IsRing.insert_head {x s p : α} {l : List α} (h : IsRing nxt prv (s :: l))
    (hx : x ∉ s :: l) (hp : (s :: l).getLast (by simp) = p)
    (nx : nxt' x = some s) (np : nxt' p = some x)
    (no : ∀ a ∈ s :: l, a ≠ p → nxt' a = nxt a)
    (ps : prv' s = some x) (px : prv' x = some p)
    (po : ∀ a ∈ s :: l, a ≠ s → prv' a = prv a) :
    IsRing nxt' prv' (x :: s :: l) := by
  obtain ⟨hd, hc, -⟩ := isRing_iff_path.mp h
  refine isRing_iff_path.mpr ⟨List.nodup_cons.mpr ⟨hx, hd⟩, ?_, ?_⟩
  · refine List.isChain_cons_cons.mpr ⟨⟨nx, ps⟩, path_congr hd hc ?_ ?_⟩
    · exact fun a ha hne => no a ha (hp ▸ hne)
    · intro a ha
      refine po a (List.mem_cons_of_mem _ ha) ?_
      rintro rfl
      exact (List.nodup_cons.mp hd).1 ha
  · rw [List.getLast_cons (by simp), hp]
    exact ⟨np, px⟩

theorem IsRing.insert {x s p : α} {k t : List α} (h : IsRing nxt prv (k ++ s :: t))
    (hx : x ∉ k ++ s :: t) (hp : prv s = some p)
    (nx : nxt' x = some s) (np : nxt' p = some x)
    (no : ∀ a ∈ k ++ s :: t, a ≠ p → nxt' a = nxt a)
    (ps : prv' s = some x) (px : prv' x = some p)
    (po : ∀ a ∈ k ++ s :: t, a ≠ s → prv' a = prv a) :
    IsRing nxt' prv' (k ++ x :: s :: t) := by
  have hr : IsRing nxt prv (s :: (t ++ k)) := h.rotate
  have hm : ∀ a, a ∈ s :: (t ++ k) ↔ a ∈ k ++ s :: t := by
    intro a; simp only [List.mem_cons, List.mem_append]; tauto
  have hlast : (s :: (t ++ k)).getLast (by simp) = p := by
    have := hr.prev_head
    rw [hp] at this
    exact (Option.some.inj this).symm
  have hi := hr.insert_head (fun hc => hx ((hm x).mp hc)) hlast nx np
    (fun a ha => no a ((hm a).mp ha)) ps px (fun a ha => po a ((hm a).mp ha))
  exact IsRing.rotate (k := x :: s :: t) (t := k) (by simpa using hi)

theorem IsRing.insert_tail {x s p : α} {l : List α} (h : IsRing nxt prv (s :: l))
    (hx : x ∉ s :: l) (hp : prv s = some p)
    (nx : nxt' x = some s) (np : nxt' p = some x)
    (no : ∀ a ∈ s :: l, a ≠ p → nxt' a = nxt a)
    (ps : prv' s = some x) (px : prv' x = some p)
    (po : ∀ a ∈ s :: l, a ≠ s → prv' a = prv a) :
    IsRing nxt' prv' (s :: l ++ [x]) :=
  IsRing.rotate (k := [x]) (IsRing.insert (k := []) h hx hp nx np no ps px po)

theorem IsRing.remove_head {x y p : α} {l : List α} (h : IsRing nxt prv (x :: y :: l))
    (hp : prv x = some p) (np : nxt' p = some y)
    (no : ∀ a ∈ y :: l, a ≠ p → nxt' a = nxt a)
    (ps : prv' y = some p)
    (po : ∀ a ∈ y :: l, a ≠ y → prv' a = prv a) :
    IsRing nxt' prv' (y :: l) := by
  obtain ⟨hd, hc, -⟩ := isRing_iff_path.mp h
  have hlast : (y :: l).getLast (by simp) = p := by
    have := h.prev_head
    rw [hp, List.getLast_cons (by simp)] at this
    exact (Option.some.inj this).symm
  have hd' := (List.nodup_cons.mp hd).2
  refine isRing_iff_path.mpr ⟨hd', ?_, ?_⟩
  · refine path_congr hd' (List.isChain_cons_cons.mp hc).2 ?_ ?_
    · exact fun a ha hne => no a ha (hlast ▸ hne)
    · intro a ha
      refine po a (List.mem_cons_of_mem _ ha) ?_
      rintro rfl
      exact (List.nodup_cons.mp hd').1 ha
  · rw [hlast]
    exact ⟨np, ps⟩

theorem IsRing.remove {x p s : α} {k t : List α} (h : IsRing nxt prv (k ++ x :: t))
    (hne : k ++ t ≠ []) (hp : prv x = some p) (hs : nxt x = some s)
    (np : nxt' p = some s) (no : ∀ a ∈ k ++ t, a ≠ p → nxt' a = nxt a)
    (ps : prv' s = some p) (po : ∀ a ∈ k ++ t, a ≠ s → prv' a = prv a) :
    IsRing nxt' prv' (k ++ t) := by
  have hr : IsRing nxt prv (x :: (t ++ k)) := h.rotate
  have hm : ∀ a, a ∈ t ++ k → a ∈ k ++ t := by
    intro a; simp only [List.mem_append]; tauto
  cases hl : t ++ k with
  | nil =>
    have : k ++ t = [] := by
      obtain ⟨h2, h1⟩ := List.append_eq_nil_iff.mp hl
      simp [h1, h2]
    exact absurd this hne
  | cons y l =>
    rw [hl] at hr hm
    have hys : y = s := by
      have := hr.next_head
      rw [hs] at this
      simpa using this.symm
    subst hys
    have hi := hr.remove_head hp np (fun a ha => no a (hm a ha)) ps (fun a ha => po a (hm a ha))
    exact IsRing.rotate (k := t) (t := k) (by rw [hl]; exact hi)

theorem IsRing.prev_mem {x p : α} {l : List α} (h : IsRing nxt prv l) (hx : x ∈ l)
    (hp : prv x = some p) : p ∈ l := by
  obtain ⟨k, t, rfl⟩ := List.append_of_mem hx
  have hr : IsRing nxt prv (x :: (t ++ k)) := h.rotate
  have := hr.prev_head
  rw [hp] at this
  have hm : p ∈ x :: (t ++ k) := (Option.some.inj this) ▸ List.getLast_mem _
  simp only [List.mem_cons, List.mem_append] at hm ⊢
  tauto

theorem IsRing.next_mem {x s : α} {l : List α} (h : IsRing nxt prv l) (hx : x ∈ l)
    (hs : nxt x = some s) : s ∈ l := by
  obtain ⟨k, t, rfl⟩ := List.append_of_mem hx
  have hr : IsRing nxt prv (x :: (t ++ k)) := h.rotate
  have := hr.next_head
  rw [hs] at this
  have hm : s ∈ (t ++ k) ++ [x] := (Option.some.inj this) ▸ List.head_mem _
  simp only [List.mem_cons, List.mem_append, List.not_mem_nil, or_false] at hm ⊢
  tauto

theorem IsRing.exists_prev {x : α} {l : List α} (h : IsRing nxt prv l) (hx : x ∈ l) :
    ∃ p ∈ l, prv x = some p := by
  obtain ⟨k, t, rfl⟩ := List.append_of_mem hx
  have hr : IsRing nxt prv (x :: (t ++ k)) := h.rotate
  exact ⟨_, h.prev_mem hx hr.prev_head, hr.prev_head⟩

theorem IsRing.exists_next {x : α} {l : List α} (h : IsRing nxt prv l) (hx : x ∈ l) :
    ∃ s ∈ l, nxt x = some s := by
  obtain ⟨k, t, rfl⟩ := List.append_of_mem hx
  have hr : IsRing nxt prv (x :: (t ++ k)) := h.rotate
  exact ⟨_, h.next_mem hx hr.next_head, hr.next_head⟩

theorem IsRing.next_of_prev {x p : α} {l : List α} (h : IsRing nxt prv l) (hx : x ∈ l)
    (hp : prv x = some p) : nxt p = some x := by
  obtain ⟨k, t, rfl⟩ := List.append_of_mem hx
  have hr : IsRing nxt prv (x :: (t ++ k)) := h.rotate
  have hl := (isRing_iff_path.mp hr).2.2
  have hlast := hr.prev_head
  rw [hp] at hlast
  rw [Option.some.inj hlast]
  exact hl.1

section Walk

variable [DecidableEq α]

def walk (nxt : α → Option α) (stop : α) : Nat → α → Option (List α)
  | 0, _ => none
  | n + 1, a => do
      let b ← nxt a
      if b = stop then some [a] else (walk nxt stop n b).map (a :: ·)

theorem walk_path {stop x : α} {l : List α} (hd : stop ∉ l)
    (hc : (x :: (l ++ [stop])).IsChain (Link nxt prv)) {n : Nat} (hn : l.length < n) :
    walk nxt stop n x = some (x :: l) := by
  induction l generalizing x n with
  | nil =>
    obtain ⟨n, rfl⟩ : ∃ m, n = m + 1 := ⟨n - 1, by simp at hn; omega⟩
    have hx : nxt x = some stop := (List.isChain_pair.mp hc).1
    simp [walk, hx]
  | cons y l ih =>
    obtain ⟨n, rfl⟩ : ∃ m, n = m + 1 := ⟨n - 1, by simp at hn; omega⟩
    obtain ⟨hxy, hr⟩ := List.isChain_cons_cons.mp hc
    have hne : y ≠ stop := fun he => hd (by simp [he])
    have hw := ih (fun hm => hd (List.mem_cons_of_mem _ hm)) hr
      (by simpa using hn : l.length < n)
    simp [walk, hxy.1, hne, hw]

theorem IsRing.walk_head {x : α} {l : List α} (h : IsRing nxt prv (x :: l)) {n : Nat}
    (hn : l.length < n) : walk nxt x n x = some (x :: l) :=
  walk_path (List.nodup_cons.mp h.nodup).1 (isRing_cons.mp h).2 hn

end Walk

end CircularList
