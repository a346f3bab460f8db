import Mathlib.Data.List.Chain
import Mathlib.Data.List.Forall2

/-! Logs whose entries name the hash of the entry before them and are numbered from zero.
The hashes are kept beside the entries. -/
namespace HashLinked

variable {α β : Type}

structure Linked (hash : α → Option β) (parent : α → β) (number : α → Int) (entries : List α)
    (hashes : List β) : Prop where
  hash : List.Forall₂ (fun e h => hash e = some h) entries hashes
  number : ∀ (i : Nat) e, entries[i]? = some e → number e = i
  parent : ∀ (i : Nat) e h, entries[i + 1]? = some e → hashes[i]? = some h → parent e = h

variable {hash : α → Option β} {parent : α → β} {number : α → Int} {entries : List α}
  {hashes : List β} {e : α} {h : β}

theorem linked_single (hh : hash e = some h) (hn : number e = 0) :
    Linked hash parent number [e] [h] where
  hash := .cons hh .nil
  number := by
    intro i e' he
    obtain ⟨rfl, rfl⟩ : i = 0 ∧ e = e' := by simpa [List.getElem?_singleton] using he
    exact hn
  parent := by
    intro i e' h' he
    simp at he

theorem Linked.length_eq (hl : Linked hash parent number entries hashes) :
    entries.length = hashes.length :=
  hl.hash.length_eq

theorem Linked.hash_getElem (hl : Linked hash parent number entries hashes) {i : Nat}
    (he : entries[i]? = some e) : ∃ h, hashes[i]? = some h ∧ hash e = some h := by
  obtain ⟨hi, rfl⟩ := List.getElem?_eq_some_iff.mp he
  have hi' : i < hashes.length := hl.length_eq ▸ hi
  exact ⟨hashes[i], List.getElem?_eq_getElem hi', hl.hash.get hi hi'⟩

/-- One entry more, with the next number and the last hash as its parent. -/
theorem Linked.append (hl : Linked hash parent number entries hashes) (hh : hash e = some h)
    (hp : hashes.getLast? = some (parent e)) (hn : number e = entries.length) :
    Linked hash parent number (entries ++ [e]) (hashes ++ [h]) where
  hash := List.rel_append hl.hash (.cons hh .nil)
  number := by
    intro i e' he
    rcases Nat.lt_or_ge i entries.length with hlt | hge
    · rw [List.getElem?_append_left hlt] at he
      exact hl.number i e' he
    · rw [List.getElem?_append_right hge, List.getElem?_singleton] at he
      obtain ⟨hi, rfl⟩ : i - entries.length = 0 ∧ e = e' := by simpa using he
      have : i = entries.length := by omega
      rw [hn, this]
  parent := by
    intro i e' h' he hh'
    have hlen := hl.length_eq
    rcases Nat.lt_or_ge (i + 1) entries.length with hlt | hge
    · rw [List.getElem?_append_left hlt] at he
      rw [List.getElem?_append_left (by omega)] at hh'
      exact hl.parent i e' h' he hh'
    · rw [List.getElem?_append_right hge, List.getElem?_singleton] at he
      obtain ⟨hi, rfl⟩ : i + 1 - entries.length = 0 ∧ e = e' := by simpa using he
      have hi' : i = hashes.length - 1 := by omega
      rw [List.getElem?_append_left (by omega), hi', ← List.getLast?_eq_getElem?, hp] at hh'
      exact Option.some.inj hh'

/-- The number of the last entry tells the length of the log. -/
theorem Linked.number_last (hl : Linked hash parent number entries hashes)
    (he : entries.getLast? = some e) : number e + 1 = entries.length := by
  rw [List.getLast?_eq_getElem?] at he
  have hlt := (List.getElem?_eq_some_iff.mp he).1
  rw [hl.number _ e he]
  omega

/-- An entry is found at its own number and nowhere else. -/
theorem Linked.exists_number_iff (hl : Linked hash parent number entries hashes)
    (he : entries.getLast? = some e) (n : Int) :
    (0 ≤ n ∧ n ≤ number e) ↔ ∃ e', entries[n.toNat]? = some e' ∧ 0 ≤ n ∧ number e' = n := by
  have hlast := hl.number_last he
  constructor
  · rintro ⟨h0, hle⟩
    have hlt : n.toNat < entries.length := by omega
    have hget := List.getElem?_eq_getElem hlt
    refine ⟨_, hget, h0, ?_⟩
    rw [hl.number _ _ hget]
    omega
  · rintro ⟨e', hget, h0, hn⟩
    have hlt := (List.getElem?_eq_some_iff.mp hget).1
    omega

/-- Each entry names the hash of the entry before it. -/
def Chained (hash : α → Option β) (parent : α → β) : List α → Prop :=
  List.IsChain fun e e' => hash e = some (parent e')

/-- Logs of one length with one last hash agree in everything that the hash binds, if that
includes the parent. -/
theorem Chained.map_eq {κ : Type} {key : α → κ} {l l' : List α} {e' : α}
    (hl : Chained hash parent l) (hl' : Chained hash parent l') (hlen : l.length = l'.length)
    (hkey : ∀ a ∈ l, ∀ a' ∈ l', ∀ b, hash a = some b → hash a' = some b → key a = key a')
    (hparent : ∀ a a', key a = key a' → parent a = parent a') (he : l.getLast? = some e)
    (he' : l'.getLast? = some e') (hh : hash e = some h) (hh' : hash e' = some h) :
    l.map key = l'.map key := by
  induction l generalizing l' with
  | nil => cases he
  | cons a rest ih =>
    cases l' with
    | nil => cases he'
    | cons a' rest' =>
      have hlen' : rest.length = rest'.length := Nat.succ.inj hlen
      cases rest with
      | nil =>
        obtain rfl := List.eq_nil_of_length_eq_zero hlen'.symm
        cases he
        cases he'
        have hhead := hkey _ (List.mem_singleton.mpr rfl) _ (List.mem_singleton.mpr rfl) h hh hh'
        simp [hhead]
      | cons b rest =>
        cases rest' with
        | nil => cases hlen'
        | cons b' rest' =>
          obtain ⟨hab, htail⟩ := List.isChain_cons_cons.mp hl
          obtain ⟨hab', htail'⟩ := List.isChain_cons_cons.mp hl'
          have hrest := ih htail htail' hlen'
            (fun c hc c' hc' => hkey c (List.mem_cons_of_mem _ hc) c' (List.mem_cons_of_mem _ hc'))
            (by simpa using he) (by simpa using he')
          -- The tails agree, so their first entries name one parent.
          have hb : key b = key b' := by
            simp only [List.map_cons, List.cons.injEq] at hrest
            exact hrest.1
          have hhead : key a = key a' := by
            apply hkey a (by simp) a' (by simp) (parent b) hab
            rw [hab', hparent b b' hb]
          exact congrArg₂ List.cons hhead hrest

theorem chained_iff_getElem? {l : List α} : Chained hash parent l ↔
    ∀ (i : Nat) a b, l[i]? = some a → l[i + 1]? = some b → hash a = some (parent b) := by
  rw [Chained, List.isChain_iff_getElem]
  constructor
  · intro h i a b ha hb
    obtain ⟨hi, rfl⟩ := List.getElem?_eq_some_iff.mp hb
    obtain ⟨-, rfl⟩ := List.getElem?_eq_some_iff.mp ha
    exact h i hi
  · intro h i hi
    exact h i _ _ (List.getElem?_eq_getElem _) (List.getElem?_eq_getElem hi)

/-- One entry replaced: the log is still chained exactly if the new entry has the old hash, where
an entry follows, and the old parent, where one comes before. -/
theorem Chained.set_iff {l : List α} {i : Nat} {e' : α} (hl : Chained hash parent l)
    (hi : l[i]? = some e) : Chained hash parent (l.set i e') ↔
      (i + 1 < l.length → hash e' = hash e) ∧ (i ≠ 0 → parent e' = parent e) := by
  have hlinks := chained_iff_getElem?.mp hl
  have hlt := (List.getElem?_eq_some_iff.mp hi).1
  have hself : (l.set i e')[i]? = some e' := List.getElem?_set_self hlt
  rw [chained_iff_getElem?]
  constructor
  · intro h
    constructor
    · intro hnext
      have hget := List.getElem?_eq_getElem hnext
      have hne : i ≠ i + 1 := Nat.ne_of_lt (Nat.lt_succ_self i)
      have hnew := h i e' _ hself ((List.getElem?_set_ne hne).trans hget)
      exact hnew.trans (hlinks i e _ hi hget).symm
    · intro h0
      obtain ⟨k, rfl⟩ := Nat.exists_eq_succ_of_ne_zero h0
      have hget := List.getElem?_eq_getElem (Nat.lt_of_succ_lt hlt)
      have hnew := h k _ e' ((List.getElem?_set_ne (Nat.succ_ne_self k)).trans hget) hself
      exact Option.some.inj (hnew.symm.trans (hlinks k _ e hget hi))
  · rintro ⟨hhash, hparent⟩ j a b ha hb
    rw [List.getElem?_set] at ha hb
    split at ha
    · next hj =>
      subst hj
      cases ha
      rw [if_neg (Nat.ne_of_lt (Nat.lt_succ_self i))] at hb
      rw [hhash (List.getElem?_eq_some_iff.mp hb).1]
      exact hlinks i e b hi hb
    · split at hb
      · next hj =>
        subst hj
        cases hb
        rw [hparent (Nat.succ_ne_zero j)]
        exact hlinks j a e ha hi
      · exact hlinks j a b ha hb

theorem Linked.chained (hl : Linked hash parent number entries hashes) :
    Chained hash parent entries := by
  rw [chained_iff_getElem?]
  intro i a b ha hb
  obtain ⟨h, hget, hhash⟩ := hl.hash_getElem ha
  rw [hhash, hl.parent i b h hb hget]

theorem drop_eq_cons {l : List α} {m : Nat} {a : α} (h : l[m]? = some a) :
    l.drop m = a :: l.drop (m + 1) := by
  obtain ⟨hm, rfl⟩ := List.getElem?_eq_some_iff.mp h
  exact List.drop_eq_getElem_cons hm

/-- Entries of a log in some order, with some left out or repeated, are chained only as a stretch of
it, if the hash tells entries apart and none is hashed to what the first entry names. -/
theorem Linked.chained_iff_stretch (hl : Linked hash parent number entries hashes)
    (hkey : ∀ a ∈ entries, ∀ a' ∈ entries, ∀ h, hash a = some h → hash a' = some h →
      number a = number a')
    (hfirst : ∀ a ∈ entries, ∀ first, entries[0]? = some first → hash a ≠ some (parent first))
    {l : List α} (hmem : ∀ a ∈ l, a ∈ entries) :
    Chained hash parent l ↔ ∃ i, l = (entries.drop i).take l.length := by
  constructor
  · intro hchain
    induction l with
    | nil => exact ⟨0, rfl⟩
    | cons a rest ih =>
      obtain ⟨m, hm⟩ := List.getElem?_of_mem (hmem a List.mem_cons_self)
      cases rest with
      | nil =>
        refine ⟨m, ?_⟩
        rw [drop_eq_cons hm]
        rfl
      | cons b rest =>
        obtain ⟨hab, htail⟩ := List.isChain_cons_cons.mp hchain
        obtain ⟨j, hj⟩ := ih (fun c hc => hmem c (List.mem_cons_of_mem a hc)) htail
        have hb : entries[j]? = some b := by
          have hhead := congrArg (·[0]?) hj
          simpa using hhead.symm
        cases j with
        | zero => exact absurd hab (hfirst a (hmem a List.mem_cons_self) b hb)
        | succ k =>
          have hk : k < entries.length := Nat.lt_of_succ_lt (List.getElem?_eq_some_iff.mp hb).1
          have hget := List.getElem?_eq_getElem hk
          obtain ⟨h, hhashes, hk'⟩ := hl.hash_getElem hget
          have hparent := hl.parent k b h hb hhashes
          have hnumber := hkey a (hmem a List.mem_cons_self) _ (List.mem_of_getElem? hget) h
            (hparent ▸ hab) hk'
          rw [hl.number m a hm, hl.number k _ hget] at hnumber
          obtain rfl : m = k := Int.ofNat.inj hnumber
          refine ⟨m, ?_⟩
          rw [drop_eq_cons hm, List.length_cons, List.take_succ_cons, ← hj]
  · rintro ⟨i, hi⟩
    rw [hi]
    exact (hl.chained.drop i).take l.length

end HashLinked
