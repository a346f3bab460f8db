import Ethereum.Lib.Journal
import Ethereum.Lib.Sequencing

/-! A store in which every frame works on a copy of its owner's map, made when it is
entered and written back when it succeeds. If the outermost frame fails, all maps are
restored. It serves as a journal as long as no copy gets out of date. -/

/-- A frame of the store: what it has copied or written. -/
structure Copied (α κ ν : Type) where
  owner : α
  copy : κ → Option ν

/-- The maps, those outside all frames, and the open frames with the running one first. -/
structure CopyStore (α κ ν : Type) where
  maps : α → κ → ν
  snapshot : α → κ → ν
  frames : List (Copied α κ ν)

namespace CopyStore

open Journal Sequencing

variable {α κ ν : Type} [DecidableEq α]

/-- What the latest copy of an owner's map shows, or its map if there is no copy. A slot
without a value reads as `d`. -/
def view (d : ν) (maps : α → κ → ν) : List (Copied α κ ν) → α → κ → ν
  | [], b => maps b
  | f :: frames, b => if b = f.owner then fun k => (f.copy k).getD d else view d maps frames b

/-- The open frames against those of a journal: the maps of their owners are still those
they were entered with, and below each of them the copies show the journal it was
entered in. -/
inductive Waiting (d : ν) (maps : α → κ → ν) :
    List (Copied α κ ν) → List (α × (α → κ → ν)) → Prop
  | nil : Waiting d maps [] []
  | cons {a copy frames saved rest} (hmap : maps a = saved a)
      (hmissing : ∀ k, copy k = none → maps a k = d)
      (hbelow : ∀ b ∈ rest.map Prod.fst, view d maps frames b = saved b)
      (h : Waiting d maps frames rest) :
      Waiting d maps (⟨a, copy⟩ :: frames) ((a, saved) :: rest)

structure UpToDate (d : ν) (maps : α → κ → ν) (frames : List (Copied α κ ν))
    (j : Journal α κ ν) : Prop where
  view : view d maps frames = j.current
  waiting : Waiting d maps frames j.frames

/-- No copy is out of date. -/
structure Coherent (d : ν) (s : CopyStore α κ ν) (j : Journal α κ ν) : Prop
    extends UpToDate d s.maps s.frames j where
  snapshot : s.snapshot = outside j.current j.frames

/-- The condition under which an operation leaves no copy out of date. The outermost frame
may end at any time. -/
def Allowed (d : ν) (j : Journal α κ ν) : Op α κ ν → Prop
  | .enter fresh a =>
    (∀ f ∈ j.frames, f.1 = a → f.2 a = j.current a) ∧ (fresh = true → j.current a = fun _ => d)
  | .leave ok =>
    match j.frames with
    | (a, saved) :: parent :: rest =>
      if ok then a ∈ (parent :: rest).map Prod.fst → j.current a = saved a
      else ∀ b, b ≠ a → b ∉ (parent :: rest).map Prod.fst → j.current b = saved b
    | _ => True
  | _ => True

/-- A copy wins over the map of its owner. -/
def writeBack (maps : α → κ → ν) (a : α) (copy : κ → Option ν) : α → κ → ν :=
  Function.update maps a fun k => (copy k).getD (maps a k)

/-- One operation of the store. -/
inductive Step [DecidableEq κ] (d : ν) : CopyStore α κ ν → Op α κ ν → CopyStore α κ ν → Prop
  | call {maps snapshot frames a copy} (h : ∀ k, (copy k).getD d = maps a k) :
      Step d ⟨maps, snapshot, frames⟩ (.enter false a) ⟨maps, snapshot, ⟨a, copy⟩ :: frames⟩
  | create {maps snapshot frames a} :
      Step d ⟨maps, snapshot, frames⟩ (.enter true a)
        ⟨maps, snapshot, ⟨a, fun _ => none⟩ :: frames⟩
  | load {maps snapshot frames a copy k} :
      Step d ⟨maps, snapshot, ⟨a, copy⟩ :: frames⟩ (.load a k ((copy k).getD d))
        ⟨maps, snapshot, ⟨a, copy⟩ :: frames⟩
  | store {maps snapshot frames a copy k v} :
      Step d ⟨maps, snapshot, ⟨a, copy⟩ :: frames⟩ (.store a k v)
        ⟨maps, snapshot, ⟨a, Function.update copy k (some v)⟩ :: frames⟩
  | commit {maps snapshot parent frames a copy} :
      Step d ⟨maps, snapshot, ⟨a, copy⟩ :: parent :: frames⟩ (.leave true)
        ⟨writeBack maps a copy, snapshot, parent :: frames⟩
  | abort {maps snapshot parent frames a copy} :
      Step d ⟨maps, snapshot, ⟨a, copy⟩ :: parent :: frames⟩ (.leave false)
        ⟨maps, snapshot, parent :: frames⟩
  | finish {maps snapshot a copy} :
      Step d ⟨maps, snapshot, [⟨a, copy⟩]⟩ (.leave true)
        ⟨writeBack maps a copy, writeBack maps a copy, []⟩
  | rollback {maps snapshot a copy} :
      Step d ⟨maps, snapshot, [⟨a, copy⟩]⟩ (.leave false) ⟨snapshot, snapshot, []⟩

variable {d : ν} {maps maps' snapshot current : α → κ → ν} {frames : List (Copied α κ ν)}
  {saved : α → κ → ν} {rest : List (α × (α → κ → ν))} {copy : κ → Option ν} {a b : α}
  {s s' : CopyStore α κ ν} {j : Journal α κ ν} {op : Op α κ ν}

theorem coherent_start (m : α → κ → ν) : Coherent d ⟨m, m, []⟩ (start m) := ⟨⟨rfl, .nil⟩, rfl⟩

theorem view_of_notMem (h : Waiting d maps frames rest) (hb : b ∉ rest.map Prod.fst) :
    view d maps frames b = maps b := by
  induction h with
  | nil => rfl
  | cons hmap hmissing hbelow h ih =>
    rw [List.map_cons, List.mem_cons, not_or] at hb
    rw [view, if_neg hb.1, ih hb.2]

theorem view_of_mem (h : Waiting d maps frames rest) (hb : b ∈ rest.map Prod.fst) :
    view d maps' frames b = view d maps frames b := by
  induction h with
  | nil => cases hb
  | cons hmap hmissing hbelow h ih =>
    unfold view
    split
    · rfl
    · next hne =>
      rw [List.map_cons, List.mem_cons] at hb
      exact ih (hb.resolve_left hne)

theorem view_push (hview : view d maps frames = current)
    (hcopy : ∀ k, (copy k).getD d = current a k) :
    view d maps (⟨a, copy⟩ :: frames) = current := by
  funext b
  rw [view]
  split
  · next hb =>
    subst hb
    exact funext hcopy
  · exact congrFun hview b

theorem view_top (hview : view d maps (⟨a, copy⟩ :: frames) = current) (k : κ) :
    (copy k).getD d = current a k := by
  rw [← hview, view, if_pos rfl]

theorem view_below (hview : view d maps (⟨a, copy⟩ :: frames) = current) (hb : b ≠ a) :
    view d maps frames b = current b := by
  rw [← hview, view, if_neg hb]

/-- Only the maps of the waiting owners matter. -/
theorem Waiting.congr (h : Waiting d maps frames rest)
    (hmaps : ∀ b ∈ rest.map Prod.fst, maps' b = maps b) : Waiting d maps' frames rest := by
  induction h with
  | nil => exact .nil
  | cons hmap hmissing hbelow h ih =>
    have hself := hmaps _ List.mem_cons_self
    refine .cons (hself.trans hmap) ?_ ?_ (ih fun b hb => hmaps b (List.mem_cons_of_mem _ hb))
    · rw [hself]
      exact hmissing
    · intro b hb
      rw [view_of_mem h hb]
      exact hbelow b hb

/-- The owners that wait have the map with which each of their frames was entered. -/
theorem Waiting.map_eq (h : Waiting d maps frames rest) : ∀ f ∈ rest, maps f.1 = f.2 f.1 := by
  induction h with
  | nil => exact fun _ hf => absurd hf (by simp)
  | cons hmap hmissing hbelow h ih =>
    intro f hf
    rcases List.mem_cons.mp hf with rfl | hf
    · exact hmap
    · exact ih f hf

/-- The map that a new frame copies is up to date if no waiting frame of its owner was
entered with another one. -/
theorem UpToDate.map_eq_iff (h : UpToDate d maps frames j) :
    maps a = j.current a ↔ ∀ f ∈ j.frames, f.1 = a → f.2 a = j.current a := by
  constructor
  · rintro hmap f hf rfl
    rw [← hmap]
    exact (h.waiting.map_eq f hf).symm
  · intro ha
    by_cases hmem : a ∈ j.frames.map Prod.fst
    · obtain ⟨f, hf, rfl⟩ := List.mem_map.mp hmem
      exact (h.waiting.map_eq f hf).trans (ha f hf rfl)
    · rw [← h.view]
      exact (view_of_notMem h.waiting hmem).symm

theorem upToDate_writeBack_iff
    (h : UpToDate d maps (⟨a, copy⟩ :: frames) ⟨current, (a, saved) :: rest⟩) :
    UpToDate d (writeBack maps a copy) frames ⟨current, rest⟩ ↔
      (a ∈ rest.map Prod.fst → current a = saved a) := by
  obtain ⟨hview, hw⟩ := h
  dsimp only at hview hw
  unfold writeBack
  cases hw with
  | cons hmap hmissing hbelow hw =>
    have hcommit : (fun k => (copy k).getD (maps a k)) = current a := by
      funext k
      rw [← view_top hview k]
      cases hk : copy k with
      | none => exact hmissing k hk
      | some v => rfl
    rw [hcommit]
    constructor
    · rintro ⟨hview', -⟩ ha
      rw [← hbelow a ha, ← view_of_mem hw ha]
      exact (congrFun hview' a).symm
    · intro ha
      have hw' : Waiting d (Function.update maps a (current a)) frames rest := by
        apply hw.congr
        intro b hb
        by_cases hba : b = a
        · subst hba
          rw [Function.update_self, ha hb, hmap]
        · rw [Function.update_of_ne hba]
      refine ⟨funext fun b => ?_, hw'⟩
      by_cases hb : b ∈ rest.map Prod.fst
      · refine (view_of_mem hw hb).trans ?_
        by_cases hba : b = a
        · subst hba
          exact (hbelow b hb).trans (ha hb).symm
        · exact view_below hview hba
      · refine (view_of_notMem hw' hb).trans ?_
        by_cases hba : b = a
        · subst hba
          rw [Function.update_self]
        · rw [Function.update_of_ne hba, ← view_of_notMem hw hb]
          exact view_below hview hba

theorem upToDate_abort_iff
    (h : UpToDate d maps (⟨a, copy⟩ :: frames) ⟨current, (a, saved) :: rest⟩) :
    UpToDate d maps frames ⟨saved, rest⟩ ↔
      ∀ b, b ≠ a → b ∉ rest.map Prod.fst → current b = saved b := by
  obtain ⟨hview, hw⟩ := h
  dsimp only at hview hw
  cases hw with
  | cons hmap hmissing hbelow hw =>
    constructor
    · rintro ⟨hview', -⟩ b hba -
      rw [← view_below hview hba]
      exact congrFun hview' b
    · intro hkept
      refine ⟨funext fun b => ?_, hw⟩
      by_cases hb : b ∈ rest.map Prod.fst
      · exact hbelow b hb
      · by_cases hba : b = a
        · subst hba
          exact (view_of_notMem hw hb).trans hmap
        · exact (view_below hview hba).trans (hkept b hba hb)

theorem coherent_iff (h : s.snapshot = outside j.current j.frames) :
    Coherent d s j ↔ UpToDate d s.maps s.frames j :=
  ⟨fun hc => hc.toUpToDate, fun hu => ⟨hu, h⟩⟩

section Step

variable [DecidableEq κ]

abbrev Disciplined (d : ν) : Journal α κ ν → List (Op α κ ν) → Prop := Along (Allowed d)

/-- A load returns what the journal holds. -/
theorem Coherent.served (h : Coherent d s j) (hs : Step d s op s') : j.Served op := by
  cases hs with
  | load => exact view_top h.view _
  | _ => trivial

theorem upToDate_call_iff (h : UpToDate d maps frames j)
    (hcopy : ∀ k, (copy k).getD d = maps a k) :
    UpToDate d maps (⟨a, copy⟩ :: frames) (j.step (.enter false a)) ↔
      Allowed d j (.enter false a) := by
  constructor
  · rintro ⟨-, hw⟩
    refine ⟨h.map_eq_iff.mp ?_, fun hfresh => absurd hfresh (by simp)⟩
    cases hw with
    | cons hmap _ _ _ => exact hmap
  · rintro ⟨ha, -⟩
    have hmap := h.map_eq_iff.mpr ha
    refine ⟨view_push h.view fun k => (hcopy k).trans (congrFun hmap k), ?_⟩
    refine .cons hmap (fun k hk => ?_) (fun b _ => congrFun h.view b) h.waiting
    exact (hcopy k).symm.trans (congrArg (Option.getD · d) hk)

theorem upToDate_create_iff (h : UpToDate d maps frames j) :
    UpToDate d maps (⟨a, fun _ => none⟩ :: frames) (j.step (.enter true a)) ↔
      Allowed d j (.enter true a) := by
  constructor
  · rintro ⟨hview, hw⟩
    refine ⟨h.map_eq_iff.mp ?_, fun _ => funext fun k => (view_top hview k).symm⟩
    cases hw with
    | cons hmap _ _ _ => exact hmap
  · rintro ⟨ha, hempty⟩
    have hmap := h.map_eq_iff.mpr ha
    have hd : j.current a = fun _ => d := hempty rfl
    refine ⟨view_push h.view fun k => (congrFun hd k).symm, ?_⟩
    exact .cons hmap (fun k _ => congrFun (hmap.trans hd) k) (fun b _ => congrFun h.view b)
      h.waiting

theorem upToDate_store {k : κ} {v : ν} (h : UpToDate d maps (⟨a, copy⟩ :: frames) j) :
    UpToDate d maps (⟨a, Function.update copy k (some v)⟩ :: frames) (j.step (.store a k v)) := by
  obtain ⟨hview, hw⟩ := h
  refine ⟨?_, ?_⟩
  · funext b
    simp only [step, write, view]
    by_cases hb : b = a
    · subst hb
      rw [if_pos rfl, Function.update_self]
      funext l
      by_cases hl : l = k
      · subst hl
        simp
      · rw [Function.update_of_ne hl, Function.update_of_ne hl]
        exact view_top hview l
    · rw [if_neg hb, Function.update_of_ne hb]
      exact view_below hview hb
  · generalize hframes : j.frames = l at hw
    cases hw with
    | cons hmap hmissing hbelow hw =>
      rw [step, hframes]
      refine .cons hmap (fun l hl => hmissing l ?_) hbelow hw
      by_cases hk : l = k
      · subst hk
        simp at hl
      · rwa [Function.update_of_ne hk] at hl

/-- A step leaves no copy out of date exactly if it is allowed. -/
theorem coherent_step_iff (h : Coherent d s j) (hs : Step d s op s') :
    Coherent d s' (j.step op) ↔ Allowed d j op := by
  obtain ⟨current, frames⟩ := j
  obtain ⟨hu, hsnapshot⟩ := h
  cases hs with
  | call hcopy =>
    refine (coherent_iff ?_).trans (upToDate_call_iff hu hcopy)
    exact hsnapshot
  | create =>
    refine (coherent_iff ?_).trans (upToDate_create_iff hu)
    exact hsnapshot
  | load => exact iff_of_true ⟨hu, hsnapshot⟩ trivial
  | store =>
    refine iff_of_true ⟨upToDate_store hu, ?_⟩ trivial
    have hw := hu.waiting
    cases hw with
    | cons => exact hsnapshot
  | commit =>
    have hw := hu.waiting
    cases hw with
    | cons _ _ _ hw =>
      cases hw with
      | cons =>
        refine (coherent_iff ?_).trans (upToDate_writeBack_iff hu)
        exact hsnapshot
  | abort =>
    have hw := hu.waiting
    cases hw with
    | cons _ _ _ hw =>
      cases hw with
      | cons =>
        refine (coherent_iff ?_).trans (upToDate_abort_iff hu)
        exact hsnapshot
  | finish =>
    have hw := hu.waiting
    cases hw with
    | cons _ _ _ hw =>
      cases hw with
      | nil =>
        have hdone := (upToDate_writeBack_iff hu).mpr fun ha => absurd ha List.not_mem_nil
        exact iff_of_true ⟨hdone, hdone.view⟩ trivial
  | rollback =>
    have hw := hu.waiting
    cases hw with
    | cons _ _ _ hw =>
      cases hw with
      | nil => exact iff_of_true ⟨⟨hsnapshot, .nil⟩, hsnapshot⟩ trivial

/-- In a disciplined history every load returns what the journal holds. -/
theorem served_of_disciplined {ops : List (Op α κ ν)} (h : History (Step d) s ops s')
    (hc : Coherent d s j) (hd : Disciplined d j ops) :
    Along Served j ops ∧ Coherent d s' (j.run ops) := by
  induction h generalizing j with
  | nil => exact ⟨trivial, hc⟩
  | cons hs _ ih =>
    obtain ⟨hserved, hfinal⟩ := ih ((coherent_step_iff hc hs).mpr hd.1) hd.2
    exact ⟨⟨hc.served hs, hserved⟩, hfinal⟩

end Step

end CopyStore
