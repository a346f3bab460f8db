import Mathlib.Data.List.GetD
import Mathlib.Data.List.Range
import Mathlib.Tactic.Common

/-! Finite lists as total functions that take a default value past the end of the list, with
windows to read and lists to write over them. -/
namespace Padded

variable {α : Type} {d : α} {f : Nat → α} {l v : List α} {o n i : Nat}

/-- The list, with `d` wherever it has ended. -/
def view (d : α) (l : List α) (i : Nat) : α := l.getD i d

/-- The `n` values from `o` on. -/
def read (f : Nat → α) (o n : Nat) : List α := (List.range n).map fun i => f (o + i)

/-- The function with the values of a list written from `o` on. -/
def write (f : Nat → α) (o : Nat) (v : List α) (i : Nat) : α :=
  if o ≤ i then v.getD (i - o) (f i) else f i

@[simp] theorem length_read : (read f o n).length = n := by simp [read]

theorem view_of_lt (h : i < l.length) : view d l i = l[i] := by simp [view, h]

theorem view_of_le (h : l.length ≤ i) : view d l i = d := by
  rw [view, List.getD_eq_default _ _ h]

theorem view_nil : view d [] = fun _ => d := rfl

theorem write_nil : write f o [] = f := by
  funext i
  simp [write]

theorem write_of_lt (h : i < o) : write f o v i = f i := by
  rw [write, if_neg (by omega)]

theorem write_of_le (h : o + v.length ≤ i) : write f o v i = f i := by
  rw [write, if_pos (by omega), List.getD_eq_default _ _ (by omega)]

theorem write_of_mem (h : o ≤ i) (h' : i < o + v.length) :
    write f o v i = v.get ⟨i - o, by omega⟩ := by
  rw [write, if_pos h, List.getD_eq_getElem _ _ (by omega), List.get_eq_getElem]

/-- What was written can be read back. -/
theorem read_write : read (write f o v) o v.length = v := by
  apply List.ext_getElem length_read
  intro i hi hi'
  have hget := write_of_mem (f := f) (v := v) (Nat.le_add_right o i) (by omega)
  simpa [read] using hget

/-- A write changes nothing where its values stand already. -/
theorem write_eq_self_iff : write f o v = f ↔ read f o v.length = v := by
  constructor
  · intro h
    have hread := read_write (f := f) (o := o) (v := v)
    rwa [h] at hread
  · intro h
    funext i
    rcases Nat.lt_or_ge i o with hlt | hge
    · exact write_of_lt hlt
    · rcases Nat.lt_or_ge i (o + v.length) with hlt' | hge'
      · have hget : (read f o v.length)[i - o]? = v[i - o]? := by rw [h]
        rw [write_of_mem hge hlt']
        simpa [read, show i - o < v.length by omega, show o + (i - o) = i by omega] using hget.symm
      · exact write_of_le hge'

theorem write_append (w : List α) :
    write f o (v ++ w) = write (write f o v) (o + v.length) w := by
  funext i
  rcases Nat.lt_or_ge i (o + v.length) with hlt | hge
  · rw [write_of_lt hlt, write, write]
    split
    · rw [List.getD_append _ _ _ _ (by omega)]
    · rfl
  · rw [write, if_pos (by omega), List.getD_append_right _ _ _ _ (by omega), write, if_pos hge,
      write_of_le hge, Nat.sub_sub]

/-- Padding is not seen where the values under it are the default. -/
theorem write_append_replicate_iff (k : Nat) :
    write f o (v ++ List.replicate k d) = write f o v ↔
      ∀ i, o + v.length ≤ i → i < o + v.length + k → f i = d := by
  rw [write_append, write_eq_self_iff, List.length_replicate, List.eq_replicate_iff]
  constructor
  · rintro ⟨-, h⟩ i hge hlt
    have hmem : write f o v i ∈ read (write f o v) (o + v.length) k :=
      List.mem_map.mpr ⟨i - (o + v.length), List.mem_range.mpr (by omega), by
        rw [Nat.add_sub_of_le hge]⟩
    rw [← write_of_le (f := f) hge]
    exact h _ hmem
  · intro h
    refine ⟨length_read, fun b hb => ?_⟩
    obtain ⟨i, hi, rfl⟩ := List.mem_map.mp hb
    have hk := List.mem_range.mp hi
    rw [write_of_le (Nat.le_add_right _ _)]
    exact h _ (Nat.le_add_right _ _) (by omega)

/-- More default values at the end are not seen. -/
theorem view_append_replicate (k : Nat) : view d (l ++ List.replicate k d) = view d l := by
  funext i
  rcases Nat.lt_or_ge i l.length with h | h
  · rw [view_of_lt (by rw [List.length_append]; omega), view_of_lt h, List.getElem_append_left h]
  · rw [view_of_le h, view, List.getD_append_right _ _ _ _ h]
    rcases Nat.lt_or_ge (i - l.length) k with hk | hk
    · simp [hk]
    · rw [List.getD_eq_default _ _ (by simpa using hk)]

theorem read_view (h : o + n ≤ l.length) : read (view d l) o n = (l.drop o).take n := by
  apply List.ext_getElem
  · simp
    omega
  · intro i hi hi'
    have hn : i < n := by simpa using hi
    simp only [read, List.getElem_map, List.getElem_range, List.getElem_take, List.getElem_drop]
    exact view_of_lt (by omega)

/-- A window from the start on is a prefix with padding. -/
theorem read_view_zero (l : List α) (n : Nat) :
    read (view d l) 0 n = l.take n ++ List.replicate (n - l.length) d := by
  have hle : 0 + n ≤ (l ++ List.replicate (n - l.length) d).length := by
    rw [List.length_append, List.length_replicate]
    omega
  rw [← view_append_replicate (n - l.length), read_view hle, List.drop_zero, List.take_append,
    List.take_replicate, Nat.min_self]

/-- A write that stays within the list replaces a part of it. -/
theorem view_splice (h : o + v.length ≤ l.length) :
    view d (l.take o ++ v ++ l.drop (o + v.length)) = write (view d l) o v := by
  have ho : (l.take o).length = o := by
    rw [List.length_take]
    omega
  funext i
  rcases Nat.lt_or_ge i o with hlt | hge
  · rw [write_of_lt hlt, view, view, List.append_assoc, List.getD_append _ _ _ _ (by omega)]
    simp [List.getD_eq_getElem?_getD, hlt]
  · rcases Nat.lt_or_ge i (o + v.length) with hlt' | hge'
    · rw [write_of_mem hge hlt', view, List.getD_append _ _ _ _ (by simp; omega),
        List.getD_append_right _ _ _ _ (by omega), List.getD_eq_getElem _ _ (by omega)]
      simp only [ho, List.get_eq_getElem]
    · rw [write_of_le hge', view, view, List.getD_append_right _ _ _ _ (by simp; omega)]
      simp only [List.length_append, ho, List.getD_eq_getElem?_getD, List.getElem?_drop]
      congr 2
      omega

theorem view_set {b : α} (h : o < l.length) : view d (l.set o b) = write (view d l) o [b] := by
  have hsplice := view_splice (d := d) (l := l) (v := [b]) (o := o) h
  rw [← hsplice, List.set_eq_take_append_cons_drop, if_pos h]
  simp

end Padded
