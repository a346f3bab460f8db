import Mathlib.Data.List.Basic
import Mathlib.Logic.Function.Basic

/-! One map per owner, shared by a stack of frames. A frame that fails takes back all
writes made since it was entered. -/

/-- The map, and the owner of every open frame with the map in which it was entered. -/
structure Journal (α κ ν : Type) where
  current : α → κ → ν
  frames : List (α × (α → κ → ν))

namespace Journal

variable {α κ ν : Type}

/-- What a stack of frames does with the map. A frame is `fresh` if its owner is to start
with an empty map, and `ok` if it has succeeded when it is left. -/
inductive Op (α κ ν : Type)
  | enter (fresh : Bool) (a : α)
  | leave (ok : Bool)
  | load (a : α) (k : κ) (v : ν)
  | store (a : α) (k : κ) (v : ν)
  deriving DecidableEq

/-- A load returns what the map holds. -/
def Served (j : Journal α κ ν) : Op α κ ν → Prop
  | .load a k v => v = j.current a k
  | _ => True

instance [DecidableEq ν] (j : Journal α κ ν) (op : Op α κ ν) : Decidable (j.Served op) := by
  cases op <;> unfold Served <;> infer_instance

variable [DecidableEq α] [DecidableEq κ]

def start (m : α → κ → ν) : Journal α κ ν := ⟨m, []⟩

/-- One slot of the map overwritten. -/
def write (m : α → κ → ν) (a : α) (k : κ) (v : ν) : α → κ → ν :=
  Function.update m a (Function.update (m a) k v)

def step (j : Journal α κ ν) : Op α κ ν → Journal α κ ν
  | .enter _ a => ⟨j.current, (a, j.current) :: j.frames⟩
  | .leave ok =>
    match j.frames with
    | [] => j
    | (_, saved) :: rest => ⟨if ok then j.current else saved, rest⟩
  | .load _ _ _ => j
  | .store a k v => ⟨write j.current a k v, j.frames⟩

def run (j : Journal α κ ν) (ops : List (Op α κ ν)) : Journal α κ ν := ops.foldl step j

/-- The map outside all frames. -/
def outside (current : α → κ → ν) : List (α × (α → κ → ν)) → α → κ → ν
  | [] => current
  | (_, saved) :: rest => outside saved rest

/-- A property of all steps of a run, each with the journal before it. -/
def Along (P : Journal α κ ν → Op α κ ν → Prop) : Journal α κ ν → List (Op α κ ν) → Prop
  | _, [] => True
  | j, op :: ops => P j op ∧ Along P (j.step op) ops

instance decidableAlong (P : Journal α κ ν → Op α κ ν → Prop) [∀ j op, Decidable (P j op)] :
    (j : Journal α κ ν) → (ops : List (Op α κ ν)) → Decidable (Along P j ops)
  | _, [] => isTrue trivial
  | j, op :: ops =>
    have := decidableAlong P (j.step op) ops
    inferInstanceAs (Decidable (P j op ∧ Along P (j.step op) ops))

variable {j : Journal α κ ν} {P : Journal α κ ν → Op α κ ν → Prop}

theorem along_iff {ops : List (Op α κ ν)} :
    Along P j ops ↔ ∀ l₁ op l₂, ops = l₁ ++ op :: l₂ → P (j.run l₁) op := by
  induction ops generalizing j with
  | nil => simp [Along]
  | cons op ops ih =>
    rw [Along, ih]
    constructor
    · rintro ⟨hop, hops⟩ l₁ op' l₂ h
      cases l₁ with
      | nil =>
        obtain ⟨rfl, rfl⟩ := List.cons.inj h
        exact hop
      | cons _ l₁ =>
        obtain ⟨rfl, rfl⟩ := List.cons.inj h
        exact hops l₁ op' l₂ rfl
    · intro h
      refine ⟨h [] op ops rfl, ?_⟩
      rintro l₁ op' l₂ rfl
      exact h (op :: l₁) op' l₂ rfl

section LastWrite

/-- The writes that stand, one list for each open frame and one for those outside all
frames. Those of the running frame come first, and the latest first in each list. -/
def survive : List (List ((α × κ) × ν)) → Op α κ ν → List (List ((α × κ) × ν))
  | ws, .enter _ _ => [] :: ws
  | w :: w' :: ws, .leave ok => (if ok then w ++ w' else w') :: ws
  | w :: ws, .store a k v => (((a, k), v) :: w) :: ws
  | ws, _ => ws

/-- The map that the standing writes make of `m`. -/
def overlay (m : α → κ → ν) (ws : List (List ((α × κ) × ν))) (a : α) (k : κ) : ν :=
  (ws.flatten.lookup (a, k)).getD (m a k)

/-- The latest write to a slot that was not undone, or the value before all writes. -/
def lastWrite (m : α → κ → ν) (ops : List (Op α κ ν)) : α → κ → ν :=
  overlay m (ops.foldl survive [[]])

variable {m current : α → κ → ν} {ws : List (List ((α × κ) × ν))}

theorem overlay_write (w : List ((α × κ) × ν)) (a : α) (k : κ) (v : ν) :
    overlay m ((((a, k), v) :: w) :: ws) = write (overlay m (w :: ws)) a k v := by
  funext b l
  unfold overlay write
  rw [List.flatten_cons, List.cons_append, List.lookup_cons]
  by_cases hb : b = a
  · subst hb
    by_cases hl : l = k
    · simp [hl]
    · have hne : ((b, l) == (b, k)) = false := by simp [hl]
      simp [hne, hl]
  · have hne : ((b, l) == (a, k)) = false := by simp [hb]
    simp [hne, hb]

/-- The journals that a stack of standing writes describes. -/
inductive Tracks (m : α → κ → ν) : Journal α κ ν → List (List ((α × κ) × ν)) → Prop
  | base {w} : Tracks m ⟨overlay m [w], []⟩ [w]
  | frame {a saved frames w ws} (h : Tracks m ⟨saved, frames⟩ ws) :
      Tracks m ⟨overlay m (w :: ws), (a, saved) :: frames⟩ (w :: ws)

theorem Tracks.current_eq (h : Tracks m j ws) : j.current = overlay m ws := by
  cases h <;> rfl

theorem Tracks.withHead {w : List ((α × κ) × ν)} (w' : List ((α × κ) × ν))
    (h : Tracks m j (w :: ws)) :
    Tracks m ⟨overlay m (w' :: ws), j.frames⟩ (w' :: ws) := by
  cases h with
  | base => exact .base
  | frame h => exact .frame h

theorem Tracks.step (h : Tracks m j ws) (op : Op α κ ν) :
    Tracks m (j.step op) (survive ws op) := by
  cases op with
  | enter fresh a =>
    have hcurrent : overlay m ([] :: ws) = j.current := h.current_eq.symm
    have hnew := Tracks.frame (a := a) (w := []) h
    rwa [hcurrent] at hnew
  | load a k v => cases h <;> first | exact .base | exact .frame ‹_›
  | store a k v =>
    cases hws : ws with
    | nil => subst hws; cases h
    | cons w ws' =>
      subst hws
      have hnew := h.withHead (((a, k), v) :: w)
      rwa [overlay_write, ← h.current_eq] at hnew
  | leave ok =>
    cases h with
    | base => exact .base
    | @frame a saved frames w ws h =>
      cases hws : ws with
      | nil => subst hws; cases h
      | cons w' ws' =>
        subst hws
        cases ok with
        | false => exact h
        | true =>
          have hmerge : overlay m (w :: w' :: ws') = overlay m ((w ++ w') :: ws') := by
            unfold overlay
            simp only [List.flatten_cons, List.append_assoc]
          have hnew := h.withHead (w ++ w')
          rwa [← hmerge] at hnew

theorem Tracks.run (h : Tracks m j ws) (ops : List (Op α κ ν)) :
    Tracks m (j.run ops) (ops.foldl survive ws) := by
  induction ops generalizing j ws with
  | nil => exact h
  | cons op ops ih => exact ih (h.step op)

/-- The journal holds the latest write that stands. -/
theorem current_run (m : α → κ → ν) (ops : List (Op α κ ν)) :
    ((start m).run ops).current = lastWrite m ops :=
  (Tracks.run (.base (w := [])) ops).current_eq

/-- Every load returns the latest write that stands. -/
theorem served_iff {m : α → κ → ν} {ops : List (Op α κ ν)} :
    Along Served (start m) ops ↔
      ∀ l₁ a k v l₂, ops = l₁ ++ .load a k v :: l₂ → v = lastWrite m l₁ a k := by
  rw [along_iff]
  constructor
  · intro h l₁ a k v l₂ hops
    rw [← current_run]
    exact h l₁ _ l₂ hops
  · intro h l₁ op l₂ hops
    cases op with
    | load a k v =>
      rw [Served, current_run]
      exact h l₁ a k v l₂ hops
    | _ => trivial

end LastWrite

end Journal
