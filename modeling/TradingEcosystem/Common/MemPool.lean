import TradingEcosystem.Common.Fault

namespace Common

structure ObjectBlock (α : Type) where
  object : α
  isFree : Bool

/-- `checked` belongs to the model only: with it set, touching a block that is not in use is a
fault. The source never checks and reads whatever the block still holds. -/
structure MemPool (α : Type) where
  store : ℕ → ObjectBlock α
  numElems : ℕ
  nextFreeIndex : ℕ
  checked : Bool

namespace MemPool

variable {α : Type}

def new (numElems : ℕ) (object : α) (checked : Bool) : MemPool α :=
  ⟨fun _ => ⟨object, true⟩, numElems, 0, checked⟩

def findFree (store : ℕ → ObjectBlock α) (numElems initial : ℕ) : ℕ → ℕ → Outcome ℕ
  | 0, _ => .error .outOfFuel
  | fuel + 1, index =>
      if (store index).isFree then .ok index
      else
        let index := if index + 1 = numElems then 0 else index + 1
        if initial = index then .error .assertOutOfSpace
        else findFree store numElems initial fuel index

def updateNextFreeIndex (m : MemPool α) : Outcome (MemPool α) := do
  let index ← findFree m.store m.numElems m.nextFreeIndex m.numElems m.nextFreeIndex
  pure { m with nextFreeIndex := index }

def put (m : MemPool α) (index : ℕ) (block : ObjectBlock α) : MemPool α :=
  { m with store := Function.update m.store index block }

def allocate (m : MemPool α) (object : α) : Outcome (ℕ × MemPool α) := do
  require ((m.store m.nextFreeIndex).isFree = true) .assertFreeBlock
  let m' ← (m.put m.nextFreeIndex ⟨object, false⟩).updateNextFreeIndex
  pure (m.nextFreeIndex, m')

def deallocate (m : MemPool α) (index : ℕ) : Outcome (MemPool α) := do
  require (index < m.numElems) .assertInPool
  require ((m.store index).isFree = false) .assertInUse
  pure (m.put index ⟨(m.store index).object, true⟩)

def Live (m : MemPool α) (index : ℕ) : Prop := (m.store index).isFree = false

def read (m : MemPool α) (index : ℕ) : Outcome α :=
  if m.checked && (m.store index).isFree then .error .freedBlock
  else .ok (m.store index).object

def modify (m : MemPool α) (index : ℕ) (f : α → α) : MemPool α :=
  m.put index ⟨f (m.store index).object, (m.store index).isFree⟩

def write (m : MemPool α) (index : ℕ) (f : α → α) : Outcome (MemPool α) := do
  let _ ← m.read index
  pure (m.modify index f)

theorem read_live {m : MemPool α} {index : ℕ} (h : m.Live index) :
    m.read index = .ok (m.store index).object := by
  unfold read
  rw [h]
  simp

theorem read_eq_ok {m : MemPool α} {index : ℕ} {x : α} (h : m.read index = .ok x) :
    (m.store index).object = x := by
  unfold read at h
  split_ifs at h
  exact Except.ok.inj h

theorem write_live {m : MemPool α} {index : ℕ} (h : m.Live index) (f : α → α) :
    m.write index f = .ok (m.modify index f) := by
  simp [write, read_live h]

theorem write_eq_ok {m m' : MemPool α} {index : ℕ} {f : α → α} (h : m.write index f = .ok m') :
    m' = m.modify index f := by
  obtain ⟨x, -, h⟩ := bind_eq_ok.mp h
  exact (Except.ok.inj h).symm

theorem allocate_eq_ok {m m' : MemPool α} {object : α} {index : ℕ}
    (h : m.allocate object = .ok (index, m')) :
    index = m.nextFreeIndex ∧ m'.store = (m.put m.nextFreeIndex ⟨object, false⟩).store := by
  obtain ⟨-, -, h⟩ := bind_eq_ok.mp h
  obtain ⟨m₁, h₁, h⟩ := bind_eq_ok.mp h
  obtain ⟨free, -, h₁⟩ := bind_eq_ok.mp h₁
  cases h
  cases h₁
  exact ⟨rfl, rfl⟩

theorem deallocate_eq_ok {m m' : MemPool α} {index : ℕ} (h : m.deallocate index = .ok m') :
    m' = m.put index ⟨(m.store index).object, true⟩ := by
  obtain ⟨-, -, h⟩ := bind_eq_ok.mp h
  obtain ⟨-, -, h⟩ := bind_eq_ok.mp h
  exact (Except.ok.inj h).symm

@[simp] theorem store_put (m : MemPool α) (i j : ℕ) (block : ObjectBlock α) :
    (m.put i block).store j = if j = i then block else m.store j := by
  simp [put, Function.update_apply]

@[simp] theorem numElems_put (m : MemPool α) (i : ℕ) (block : ObjectBlock α) :
    (m.put i block).numElems = m.numElems := rfl

@[simp] theorem nextFreeIndex_put (m : MemPool α) (i : ℕ) (block : ObjectBlock α) :
    (m.put i block).nextFreeIndex = m.nextFreeIndex := rfl

theorem object_modify (m : MemPool α) (i j : ℕ) (f : α → α) :
    ((m.modify i f).store j).object =
      if j = i then f (m.store i).object else (m.store j).object := by
  unfold modify
  rw [store_put]
  split_ifs <;> rfl

@[simp] theorem isFree_modify (m : MemPool α) (i j : ℕ) (f : α → α) :
    ((m.modify i f).store j).isFree = (m.store j).isFree := by
  unfold modify
  rw [store_put]
  split_ifs with h
  · rw [h]
  · rfl

@[simp] theorem live_modify (m : MemPool α) (i j : ℕ) (f : α → α) :
    (m.modify i f).Live j ↔ m.Live j := by simp [Live]

structure Holds (m : MemPool α) (live : List ℕ) : Prop where
  nextLt : m.nextFreeIndex < m.numElems
  nextFree : (m.store m.nextFreeIndex).isFree = true
  nodup : live.Nodup
  lt : ∀ a ∈ live, a < m.numElems
  iff : ∀ a < m.numElems, m.Live a ↔ a ∈ live

theorem Holds.live {m : MemPool α} {live : List ℕ} (h : m.Holds live) {a : ℕ} (ha : a ∈ live) :
    m.Live a :=
  (h.iff a (h.lt a ha)).mpr ha

theorem Holds.next_notMem {m : MemPool α} {live : List ℕ} (h : m.Holds live) :
    m.nextFreeIndex ∉ live := by
  intro hm
  have := h.live hm
  rw [Live, h.nextFree] at this
  exact Bool.noConfusion this

theorem Holds.length_lt {m : MemPool α} {live : List ℕ} (h : m.Holds live) :
    live.length < m.numElems := by
  have hsub : m.nextFreeIndex :: live ⊆ List.range m.numElems := by
    intro a ha
    rw [List.mem_range]
    rcases List.mem_cons.mp ha with rfl | ha
    · exact h.nextLt
    · exact h.lt a ha
  have hnd := List.nodup_cons.mpr ⟨h.next_notMem, h.nodup⟩
  simpa using (List.subperm_of_subset hnd hsub).length_le

theorem Holds.perm {m : MemPool α} {live live' : List ℕ} (h : m.Holds live)
    (hp : live.Perm live') : m.Holds live' where
  nextLt := h.nextLt
  nextFree := h.nextFree
  nodup := hp.nodup_iff.mp h.nodup
  lt := fun a ha => h.lt a (hp.mem_iff.mpr ha)
  iff := fun a ha => (h.iff a ha).trans hp.mem_iff

@[simp] theorem holds_modify {m : MemPool α} {live : List ℕ} (i : ℕ) (f : α → α) :
    (m.modify i f).Holds live ↔ m.Holds live := by
  constructor
  · intro h
    exact ⟨h.nextLt, (isFree_modify m i m.nextFreeIndex f).symm.trans h.nextFree, h.nodup, h.lt,
      fun a ha => (live_modify m i a f).symm.trans (h.iff a ha)⟩
  · intro h
    exact ⟨h.nextLt, (isFree_modify m i m.nextFreeIndex f).trans h.nextFree, h.nodup, h.lt,
      fun a ha => (live_modify m i a f).trans (h.iff a ha)⟩

theorem holds_new {numElems : ℕ} (h : 0 < numElems) (object : α) (checked : Bool) :
    (new numElems object checked).Holds [] where
  nextLt := h
  nextFree := rfl
  nodup := .nil
  lt := by simp
  iff := by simp [new, Live]

def visited (numElems initial k : ℕ) : ℕ :=
  if initial + k < numElems then initial + k else initial + k - numElems

theorem findFree_of_free {store : ℕ → ObjectBlock α} {numElems initial : ℕ}
    (hi : initial < numElems) {j : ℕ} (hj : j < numElems)
    (hf : (store (visited numElems initial j)).isFree = true) :
    ∀ fuel k, k ≤ j → numElems ≤ fuel + k →
      ∃ r < numElems, findFree store numElems initial fuel (visited numElems initial k) = .ok r ∧
        (store r).isFree = true := by
  intro fuel
  induction fuel with
  | zero => intro k hk hn; omega
  | succ fuel ih =>
    intro k hk hn
    unfold findFree
    by_cases hfree : (store (visited numElems initial k)).isFree = true
    · refine ⟨_, ?_, if_pos hfree, hfree⟩
      unfold visited; split_ifs <;> omega
    · have hlt : k < j := by
        rcases Nat.lt_or_eq_of_le hk with hlt | rfl
        · exact hlt
        · exact absurd hf hfree
      have hstep : (if visited numElems initial k + 1 = numElems then 0
          else visited numElems initial k + 1) = visited numElems initial (k + 1) := by
        unfold visited; split_ifs <;> omega
      have hne : initial ≠ visited numElems initial (k + 1) := by
        unfold visited; split_ifs <;> omega
      rw [if_neg hfree]
      simp only [hstep, if_neg hne]
      exact ih (k + 1) hlt (by omega)

theorem findFree_full {store : ℕ → ObjectBlock α} {numElems initial : ℕ}
    (hi : initial < numElems) (hf : ∀ a < numElems, (store a).isFree = false) :
    ∀ fuel k, k < numElems → numElems ≤ fuel + k →
      findFree store numElems initial fuel (visited numElems initial k) =
        .error .assertOutOfSpace := by
  intro fuel
  induction fuel with
  | zero => intro k hk hn; omega
  | succ fuel ih =>
    intro k hk hn
    have hlt : visited numElems initial k < numElems := by
      unfold visited; split_ifs <;> omega
    unfold findFree
    have hstep : (if visited numElems initial k + 1 = numElems then 0
        else visited numElems initial k + 1) = visited numElems initial (k + 1) := by
      unfold visited; split_ifs <;> omega
    simp only [hf _ hlt, Bool.false_eq_true, if_false, hstep]
    by_cases hlast : k + 1 = numElems
    · rw [if_pos]
      unfold visited; split_ifs <;> omega
    · have hne : initial ≠ visited numElems initial (k + 1) := by
        unfold visited; split_ifs <;> omega
      rw [if_neg hne]
      exact ih (k + 1) (by omega) (by omega)

theorem exists_free {m : MemPool α} {live : List ℕ} (hi : ∀ a < m.numElems, m.Live a ↔ a ∈ live)
    (hroom : live.length < m.numElems) :
    ∃ a < m.numElems, (m.store a).isFree = true := by
  by_contra hno
  push Not at hno
  have hsub : List.range m.numElems ⊆ live := by
    intro a ha
    have hlt := List.mem_range.mp ha
    exact (hi a hlt).mp (by simpa [Live] using hno a hlt)
  have := (List.subperm_of_subset List.nodup_range hsub).length_le
  rw [List.length_range] at this
  omega

theorem allocate_ok {m : MemPool α} {live : List ℕ} (h : m.Holds live)
    (hroom : live.length + 1 < m.numElems) (object : α) :
    ∃ m', m.allocate object = .ok (m.nextFreeIndex, m') ∧ m'.Holds (m.nextFreeIndex :: live) ∧
      m'.store = (m.put m.nextFreeIndex ⟨object, false⟩).store ∧ m'.numElems = m.numElems ∧
      m'.checked = m.checked := by
  have hiff : ∀ a < m.numElems,
      (m.put m.nextFreeIndex ⟨object, false⟩).Live a ↔ a ∈ m.nextFreeIndex :: live := by
    intro a ha
    have := h.iff a ha
    by_cases hn : a = m.nextFreeIndex
    · simp [Live, hn]
    · simpa [Live, hn] using this
  obtain ⟨r, hr, hf⟩ := exists_free (m := m.put m.nextFreeIndex ⟨object, false⟩) hiff
    (by simpa using hroom)
  rw [numElems_put] at hr
  have hvisit : ∃ j < m.numElems, visited m.numElems m.nextFreeIndex j = r := by
    have := h.nextLt
    by_cases hle : m.nextFreeIndex ≤ r
    · exact ⟨r - m.nextFreeIndex, by omega, by unfold visited; split_ifs <;> omega⟩
    · exact ⟨r + m.numElems - m.nextFreeIndex, by omega, by unfold visited; split_ifs <;> omega⟩
  obtain ⟨j, hj, rfl⟩ := hvisit
  obtain ⟨q, hq, hfind, hqf⟩ := findFree_of_free h.nextLt hj hf m.numElems 0 (by omega) (by omega)
  have hstart : visited m.numElems m.nextFreeIndex 0 = m.nextFreeIndex := by
    have := h.nextLt
    unfold visited; split_ifs <;> omega
  rw [hstart] at hfind
  refine ⟨{ m.put m.nextFreeIndex ⟨object, false⟩ with nextFreeIndex := q }, ?_, ?_, rfl, rfl, rfl⟩
  · simp [allocate, updateNextFreeIndex, require_of _ h.nextFree, hfind]
  · exact ⟨hq, hqf, List.nodup_cons.mpr ⟨h.next_notMem, h.nodup⟩,
      by simpa using And.intro h.nextLt h.lt, hiff⟩

theorem allocate_full {m : MemPool α} {live : List ℕ} (h : m.Holds live)
    (hfull : live.length + 1 = m.numElems) (object : α) :
    m.allocate object = .error .assertOutOfSpace := by
  have hall : ∀ a < m.numElems,
      ((m.put m.nextFreeIndex ⟨object, false⟩).store a).isFree = false := by
    intro a ha
    by_contra hno
    have hne : a ≠ m.nextFreeIndex := fun he => hno (by simp [he])
    have hfree : a ∉ live := fun hm => hno (by simpa [hne, Live] using h.live hm)
    have hsub : a :: m.nextFreeIndex :: live ⊆ List.range m.numElems := by
      intro b hb
      rw [List.mem_range]
      rcases List.mem_cons.mp hb with rfl | hb
      · exact ha
      rcases List.mem_cons.mp hb with rfl | hb
      · exact h.nextLt
      · exact h.lt b hb
    have hnd : (a :: m.nextFreeIndex :: live).Nodup := by
      simp [hne, hfree, h.next_notMem, h.nodup]
    have := (List.subperm_of_subset hnd hsub).length_le
    simp at this
    omega
  have hfind := findFree_full h.nextLt hall m.numElems 0
    (Nat.lt_of_le_of_lt (Nat.zero_le _) h.nextLt) (by omega)
  have hstart : visited m.numElems m.nextFreeIndex 0 = m.nextFreeIndex := by
    have := h.nextLt
    unfold visited; split_ifs <;> omega
  rw [hstart] at hfind
  simp [allocate, updateNextFreeIndex, require_of _ h.nextFree, hfind]

theorem deallocate_ok {m : MemPool α} {live : List ℕ} {a : ℕ} (h : m.Holds (a :: live)) :
    m.deallocate a = .ok (m.put a ⟨(m.store a).object, true⟩) ∧
      (m.put a ⟨(m.store a).object, true⟩).Holds live := by
  have ha : (m.store a).isFree = false := h.live (List.mem_cons_self ..)
  have hlt := h.lt a (List.mem_cons_self ..)
  obtain ⟨hna, hnd⟩ := List.nodup_cons.mp h.nodup
  refine ⟨by simp [deallocate, require_of _ hlt, require_of _ ha], ?_, ?_, hnd, ?_, ?_⟩
  · exact h.nextLt
  · have := h.nextFree
    by_cases hn : m.nextFreeIndex = a
    · simp [hn]
    · simpa [hn] using this
  · exact fun b hb => h.lt b (List.mem_cons_of_mem _ hb)
  · intro b hb
    have := h.iff b hb
    by_cases hba : b = a
    · simp [Live, hba, hna]
    · simpa [Live, hba] using this

inductive Run (numElems : ℕ) (object : α) (checked : Bool) : MemPool α → List ℕ → Prop
  | new : Run numElems object checked (MemPool.new numElems object checked) []
  | allocate {m m' : MemPool α} {live : List ℕ} {x : α} {a : ℕ}
      (h : Run numElems object checked m live) (ha : m.allocate x = .ok (a, m')) :
      Run numElems object checked m' (a :: live)
  | deallocate {m m' : MemPool α} {live : List ℕ} {a : ℕ} (h : Run numElems object checked m live)
      (hmem : a ∈ live) (ha : m.deallocate a = .ok m') :
      Run numElems object checked m' (live.erase a)

theorem numElems_allocate {m m' : MemPool α} {x : α} {a : ℕ} (h : m.allocate x = .ok (a, m')) :
    m'.numElems = m.numElems := by
  obtain ⟨_, -, h⟩ := bind_eq_ok.mp h
  obtain ⟨m₁, h₁, h⟩ := bind_eq_ok.mp h
  obtain ⟨free, -, h₁⟩ := bind_eq_ok.mp h₁
  cases h
  cases h₁
  rfl

theorem Holds.allocate {m : MemPool α} {live : List ℕ} (h : m.Holds live) (x : α) :
    (live.length + 1 < m.numElems ∧ ∃ m', m.allocate x = .ok (m.nextFreeIndex, m') ∧
      m'.Holds (m.nextFreeIndex :: live)) ∨
    (live.length + 1 = m.numElems ∧ m.allocate x = .error .assertOutOfSpace) := by
  have hlt := h.length_lt
  rcases Nat.lt_or_ge (live.length + 1) m.numElems with hroom | hfull
  · obtain ⟨m', hm', hh, -⟩ := allocate_ok h hroom x
    exact .inl ⟨hroom, m', hm', hh⟩
  · exact .inr ⟨by omega, allocate_full h (by omega) x⟩

theorem Run.holds {numElems : ℕ} {object : α} {checked : Bool} {m : MemPool α} {live : List ℕ}
    (hpos : 1 ≤ numElems) (h : Run numElems object checked m live) :
    m.Holds live ∧ m.numElems = numElems := by
  induction h with
  | new => exact ⟨holds_new hpos object checked, rfl⟩
  | @allocate m m' live x a _ ha ih =>
    obtain ⟨hh, hn⟩ := ih
    rcases hh.allocate x with ⟨-, m'', hm'', hh'⟩ | ⟨-, herr⟩
    · rw [hm''] at ha
      cases ha
      exact ⟨hh', (numElems_allocate hm'').trans hn⟩
    · rw [herr] at ha
      cases ha
  | @deallocate m m' live a _ hmem ha ih =>
    obtain ⟨hh, hn⟩ := ih
    have hperm := hh.perm (List.perm_cons_erase hmem)
    obtain ⟨hde, hh'⟩ := deallocate_ok hperm
    rw [hde] at ha
    cases ha
    exact ⟨hh', hn⟩

theorem usable_capacity {numElems : ℕ} (hpos : 1 ≤ numElems) {object : α} {checked : Bool}
    {m : MemPool α} {live : List ℕ} (h : Run numElems object checked m live) :
    m.nextFreeIndex < numElems ∧ (m.store m.nextFreeIndex).isFree = true ∧
      (∀ a < numElems, (m.store a).isFree = false ↔ a ∈ live) ∧
      live.Nodup ∧ live.length ≤ numElems - 1 ∧
      (∀ a ∈ live, a < numElems ∧ ∃ m', m.deallocate a = .ok m') ∧
      ∀ x : α, (live.length ≠ numElems - 1 → ∃ a m', m.allocate x = .ok (a, m') ∧ a ∉ live) ∧
        (live.length = numElems - 1 → m.allocate x = .error .assertOutOfSpace) := by
  obtain ⟨hh, rfl⟩ := h.holds hpos
  have hlt := hh.length_lt
  refine ⟨hh.nextLt, hh.nextFree, hh.iff, hh.nodup, by omega, fun a ha => ⟨hh.lt a ha, _,
    (deallocate_ok (hh.perm (List.perm_cons_erase ha))).1⟩, fun x => ⟨fun hne => ?_, fun heq => ?_⟩⟩
  · rcases hh.allocate x with ⟨-, m', hm', -⟩ | ⟨hfull, -⟩
    · exact ⟨_, m', hm', hh.next_notMem⟩
    · omega
  · exact allocate_full hh (by omega) x

/-- Block 0 is given back, and the search that the next `allocate` makes wraps around to it. -/
theorem usable_capacity_sample :
    ∃ m : MemPool ℕ, Run 4 0 true m [3, 2, 1] ∧ m.nextFreeIndex = 0 ∧
      m.allocate 9 = .error .assertOutOfSpace := by
  have h₁ : Run 4 (0 : ℕ) true _ [0] := .allocate (x := 5) .new rfl
  have h₂ : Run 4 (0 : ℕ) true _ [1, 0] := .allocate (x := 6) h₁ rfl
  have h₃ : Run 4 (0 : ℕ) true _ [2, 1, 0] := .allocate (x := 7) h₂ rfl
  have h₄ : Run 4 (0 : ℕ) true _ [2, 1] := .deallocate h₃ (by decide : 0 ∈ [2, 1, 0]) rfl
  have h₅ : Run 4 (0 : ℕ) true _ [3, 2, 1] := .allocate (x := 8) h₄ rfl
  exact ⟨_, h₅, rfl, ((usable_capacity (by decide) h₅).2.2.2.2.2.2 9).2 rfl⟩

end MemPool

end Common
