import Mathlib.Data.List.Nodup
import Mathlib.Algebra.BigOperators.Group.List.Basic
import Mathlib.Algebra.Order.BigOperators.Group.List
import Mathlib.Tactic.Ring

/-! Dictionaries that remember insertion order. An assignment to a present key
keeps its position and an assignment to a new key goes to the end. -/

/-- A finite map whose entries are listed in insertion order, one per key. -/
structure Dict (κ α : Type) where
  entries : List (κ × α)
  nodup : (entries.map Prod.fst).Nodup
  deriving DecidableEq

namespace Dict

variable {κ α : Type} [DecidableEq κ]

/-- Replace the entry of `k`, or append one. -/
def setEntries : List (κ × α) → κ → α → List (κ × α)
  | [], k, v => [(k, v)]
  | e :: rest, k, v => if e.1 = k then (k, v) :: rest else e :: setEntries rest k v

theorem mem_keys_setEntries (l : List (κ × α)) (k j : κ) (v : α) :
    j ∈ (setEntries l k v).map Prod.fst ↔ j = k ∨ j ∈ l.map Prod.fst := by
  induction l with
  | nil => simp [setEntries]
  | cons e rest ih =>
    unfold setEntries
    split
    · next h => subst h; simp
    · rw [List.map_cons, List.mem_cons, ih, List.map_cons, List.mem_cons]
      tauto

theorem nodup_setEntries {l : List (κ × α)} (h : (l.map Prod.fst).Nodup) (k : κ) (v : α) :
    ((setEntries l k v).map Prod.fst).Nodup := by
  induction l with
  | nil => simp [setEntries]
  | cons e rest ih =>
    rw [List.map_cons, List.nodup_cons] at h
    unfold setEntries
    split
    · next he => subst he; simpa using h
    · next he =>
      rw [List.map_cons, List.nodup_cons, mem_keys_setEntries]
      exact ⟨by tauto, ih h.2⟩

/-- `{}` -/
def empty : Dict κ α := ⟨[], List.nodup_nil⟩

/-- `d.get(k)` -/
def get? (d : Dict κ α) (k : κ) : Option α := d.entries.lookup k

/-- `d.get(k, default)` -/
def getD (d : Dict κ α) (k : κ) (default : α) : α := (d.get? k).getD default

/-- `d[k] = v` -/
def set (d : Dict κ α) (k : κ) (v : α) : Dict κ α :=
  ⟨setEntries d.entries k v, nodup_setEntries d.nodup k v⟩

/-- `for k, v in other.items(): d[k] = v` -/
def update (d other : Dict κ α) : Dict κ α :=
  other.entries.foldl (fun d e => d.set e.1 e.2) d

/-- The sum of a quantity over all values. -/
def total (f : α → Int) (d : Dict κ α) : Int := (d.entries.map fun e => f e.2).sum

@[simp] theorem get?_empty (k : κ) : (empty : Dict κ α).get? k = none := rfl

omit [DecidableEq κ] in
@[simp] theorem total_empty (f : α → Int) : total f (empty : Dict κ α) = 0 := rfl

theorem lookup_cons_eq (a j : κ) (b : α) (l : List (κ × α)) :
    ((a, b) :: l).lookup j = if j = a then some b else l.lookup j := by
  by_cases h : j = a
  · simp [h]
  · rw [List.lookup_cons, beq_eq_false_iff_ne.mpr h, if_neg h]

theorem lookup_setEntries (l : List (κ × α)) (k j : κ) (v : α) :
    (setEntries l k v).lookup j = if j = k then some v else l.lookup j := by
  induction l with
  | nil => simp [setEntries, lookup_cons_eq]
  | cons e rest ih =>
    obtain ⟨a, b⟩ := e
    by_cases hk : a = k
    · subst hk
      by_cases hj : j = a <;> simp [setEntries, lookup_cons_eq, hj]
    · by_cases hj : j = a
      · subst hj
        simp [setEntries, hk]
      · simp [setEntries, lookup_cons_eq, hk, hj, ih]

theorem get?_set (d : Dict κ α) (k j : κ) (v : α) :
    (d.set k v).get? j = if j = k then some v else d.get? j :=
  lookup_setEntries d.entries k j v

theorem setEntries_setEntries (l : List (κ × α)) (k : κ) (v v' : α) :
    setEntries (setEntries l k v) k v' = setEntries l k v' := by
  induction l with
  | nil => simp [setEntries]
  | cons e rest ih =>
    by_cases h : e.1 = k
    · simp [setEntries, h]
    · simp [setEntries, h, ih]

/-- Of two assignments to one key the later counts. -/
theorem set_set (d : Dict κ α) (k : κ) (v v' : α) : (d.set k v).set k v' = d.set k v' := by
  unfold set
  congr 1
  exact setEntries_setEntries d.entries k v v'

theorem getD_set (d : Dict κ α) (k j : κ) (v default : α) :
    (d.set k v).getD j default = if j = k then v else d.getD j default := by
  unfold getD
  rw [get?_set]
  split <;> rfl

theorem mem_of_get? {d : Dict κ α} {k : κ} {v : α} (h : d.get? k = some v) :
    (k, v) ∈ d.entries := by
  unfold get? at h
  rw [List.lookup_eq_some_iff] at h
  obtain ⟨l₁, l₂, he, -⟩ := h
  simp [he]

theorem get?_of_mem {d : Dict κ α} {k : κ} {v : α} (h : (k, v) ∈ d.entries) :
    d.get? k = some v := by
  obtain ⟨l, hl⟩ := d
  unfold get?
  simp only at h ⊢
  induction l with
  | nil => simp at h
  | cons e rest ih =>
    rw [List.map_cons, List.nodup_cons] at hl
    obtain ⟨a, b⟩ := e
    rcases List.mem_cons.mp h with he | hr
    · obtain ⟨rfl, rfl⟩ := Prod.mk.inj he
      simp
    · have hne : k ≠ a := fun hk =>
        hl.1 (hk ▸ List.mem_map.mpr ⟨(k, v), hr, rfl⟩)
      rw [lookup_cons_eq, if_neg hne]
      exact ih hl.2 hr

theorem mem_keys_iff {d : Dict κ α} {k : κ} :
    k ∈ d.entries.map Prod.fst ↔ ∃ v, d.get? k = some v := by
  constructor
  · intro h
    obtain ⟨⟨j, v⟩, hmem, rfl⟩ := List.mem_map.mp h
    exact ⟨v, get?_of_mem hmem⟩
  · rintro ⟨v, h⟩
    exact List.mem_map.mpr ⟨(k, v), mem_of_get? h, rfl⟩

theorem sum_setEntries (f : α → Int) (l : List (κ × α)) (k : κ) (v : α) :
    ((setEntries l k v).map fun e => f e.2).sum =
      (l.map fun e => f e.2).sum - ((l.lookup k).elim 0 f) + f v := by
  induction l with
  | nil => simp [setEntries]
  | cons e rest ih =>
    obtain ⟨a, b⟩ := e
    by_cases hk : a = k
    · subst hk
      simp [setEntries]
      ring
    · have hk' : ¬ k = a := fun h => hk h.symm
      simp only [setEntries, hk, if_false, List.map_cons, List.sum_cons, ih, lookup_cons_eq, hk']
      ring

/-- Assigning to a key changes a total by the new value minus the replaced one. -/
theorem total_set (f : α → Int) (d : Dict κ α) (k : κ) (v : α) :
    total f (d.set k v) = total f d - (d.get? k).elim 0 f + f v :=
  sum_setEntries f d.entries k v

theorem lookup_foldl_set (l : List (κ × α)) (hl : (l.map Prod.fst).Nodup) (d : Dict κ α) (j : κ) :
    (l.foldl (fun d e => d.set e.1 e.2) d).get? j = (l.lookup j).or (d.get? j) := by
  induction l generalizing d with
  | nil => simp
  | cons e rest ih =>
    obtain ⟨a, b⟩ := e
    rw [List.map_cons, List.nodup_cons] at hl
    rw [List.foldl_cons, ih hl.2, get?_set, lookup_cons_eq]
    by_cases hj : j = a
    · subst hj
      have hnone : rest.lookup j = none := by
        rw [List.lookup_eq_none_iff]
        intro e he
        have hne : j ≠ e.1 := fun h => hl.1 (h ▸ List.mem_map.mpr ⟨e, he, rfl⟩)
        simpa using hne
      simp [hnone]
    · simp [hj]

/-- Copying a dictionary over another: its own keys win. -/
theorem get?_update (d other : Dict κ α) (j : κ) :
    (d.update other).get? j = (other.get? j).or (d.get? j) :=
  lookup_foldl_set other.entries other.nodup d j

/-- What holds of a new entry and of all others holds of all. -/
theorem forall_set {P : κ → α → Prop} {d : Dict κ α} (h : ∀ k v, d.get? k = some v → P k v)
    {k : κ} {v : α} (hv : P k v) : ∀ j u, (d.set k v).get? j = some u → P j u := by
  intro j u hj
  rw [get?_set] at hj
  split at hj
  · next he =>
    cases hj
    exact he ▸ hv
  · exact h j u hj

theorem forall_update {P : κ → α → Prop} {d other : Dict κ α}
    (h : ∀ k v, d.get? k = some v → P k v) (ho : ∀ k v, other.get? k = some v → P k v) :
    ∀ j u, (d.update other).get? j = some u → P j u := by
  intro j u hj
  rw [get?_update] at hj
  cases hother : other.get? j with
  | none =>
    rw [hother] at hj
    exact h j u hj
  | some v =>
    rw [hother] at hj
    cases hj
    exact ho j _ hother

/-- Copying a dictionary over one that has no other keys. -/
theorem get?_update_of_subset {d other : Dict κ α}
    (h : ∀ k, other.get? k = none → d.get? k = none) (k : κ) :
    (d.update other).get? k = other.get? k := by
  rw [get?_update]
  cases ho : other.get? k with
  | none => rw [h k ho]; rfl
  | some v => rfl

/-- A total does not depend on the order of the entries. -/
theorem total_congr {d d' : Dict κ α} (h : ∀ k, d.get? k = d'.get? k) (f : α → Int) :
    total f d = total f d' := by
  have hperm : d.entries.Perm d'.entries := by
    rw [List.perm_ext_iff_of_nodup d.nodup.of_map d'.nodup.of_map]
    rintro ⟨k, v⟩
    constructor
    · intro hmem
      exact mem_of_get? (h k ▸ get?_of_mem hmem)
    · intro hmem
      exact mem_of_get? ((h k).symm ▸ get?_of_mem hmem)
  exact (hperm.map _).sum_eq

/-- One of several quantities that are not negative is at most their sum. -/
theorem le_total {d : Dict κ α} {f : α → Int} (hf : ∀ k v, d.get? k = some v → 0 ≤ f v) {k : κ}
    {v : α} (hk : d.get? k = some v) : f v ≤ total f d := by
  refine List.single_le_sum ?_ _ (List.mem_map.mpr ⟨(k, v), mem_of_get? hk, rfl⟩)
  intro n hn
  obtain ⟨⟨j, u⟩, hmem, rfl⟩ := List.mem_map.mp hn
  exact hf j u (get?_of_mem hmem)

theorem total_nonneg {d : Dict κ α} {f : α → Int} (hf : ∀ k v, d.get? k = some v → 0 ≤ f v) :
    0 ≤ total f d := by
  refine List.sum_nonneg ?_
  intro n hn
  obtain ⟨⟨j, u⟩, hmem, rfl⟩ := List.mem_map.mp hn
  exact hf j u (get?_of_mem hmem)

end Dict
