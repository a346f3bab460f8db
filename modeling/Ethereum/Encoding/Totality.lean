import Ethereum.Encoding.Grammar

/-! The decoder always ends, with a value or with a `ValueError` of its own. -/
namespace Ethereum

/-- The call ends: it returns, or raises one of the errors of the decoder. -/
def Decided {α : Type} (r : Except Abort α) : Prop :=
  (∃ a, r = .ok a) ∨ ∃ reason, r = decodeError reason

section Decided

variable {α : Type}

theorem decided_ok (a : α) : Decided (.ok a : Except Abort α) := .inl ⟨a, rfl⟩

theorem decided_error (reason : String) : Decided (decodeError reason : Except Abort α) :=
  .inr ⟨reason, rfl⟩

theorem decided_ite {p : Prop} [Decidable p] {r s : Except Abort α} (hr : p → Decided r)
    (hs : ¬ p → Decided s) : Decided (if p then r else s) := by
  by_cases hp : p
  · rw [if_pos hp]
    exact hr hp
  · rw [if_neg hp]
    exact hs hp

end Decided

section Fuel

variable {data : Bytes} {n : Nat}

/-- With this much fuel the three functions come to an end. A byte of input pays for an item,
the list it opens and the loop over that list. -/
structure Settles (data : Bytes) (n : Nat) : Prop where
  item : ∀ o, 3 * (data.length - o) + 1 ≤ n → Decided (decodeItemAt data n o)
  loop : ∀ pos stop, stop ≤ data.length → 3 * (data.length - pos) + 2 ≤ n →
    Decided (decodeLoop data n pos stop)
  list : ∀ start len, 3 * (data.length - start) + 3 ≤ n → Decided (decodeList data n start len)

theorem settles_item (ih : Settles data n) {o : Nat} (hn : 3 * (data.length - o) + 1 ≤ n + 1) :
    Decided (decodeItemAt data (n + 1) o) := by
  rcases Nat.lt_or_ge o data.length with hlt | hge
  swap
  · rw [decodeItemAt_of_le hge]
    exact decided_error _
  obtain ⟨t, rest, hd⟩ := exists_drop_cons hlt
  by_cases h1 : t.toNat < 0x80
  · rw [decodeItemAt_single hd h1]
    exact decided_ok _
  by_cases h2 : t.toNat ≤ 0xb7
  · rw [decodeItemAt_shortString hd (by omega) h2]
    exact decided_ite (fun _ => decided_error _) fun _ => decided_ok _
  by_cases h3 : t.toNat ≤ 0xbf
  · rw [decodeItemAt_longString hd (by omega) h3]
    apply decided_ite (fun _ => decided_error _)
    intro _
    exact decided_ite (fun _ => decided_error _) fun _ => decided_ok _
  by_cases h4 : t.toNat ≤ 0xf7
  · rw [decodeItemAt_shortList hd (by omega) h4]
    exact ih.list _ _ (by omega)
  · rw [decodeItemAt_longList hd (by omega)]
    apply decided_ite (fun _ => decided_error _)
    intro _
    exact ih.list _ _ (by omega)

theorem settles_list (ih : Settles data n) {start len : Nat}
    (hn : 3 * (data.length - start) + 3 ≤ n + 1) : Decided (decodeList data (n + 1) start len) := by
  unfold decodeList
  apply decided_ite (fun _ => decided_error _)
  intro hstop
  rcases ih.loop start (start + len) (not_lt.mp hstop) (by omega) with ⟨⟨vs, pos⟩, hl⟩ | ⟨e, hl⟩
  · rw [hl]
    exact decided_ite (fun _ => decided_error _) fun _ => decided_ok _
  · rw [hl]
    exact decided_error e

theorem settles_loop (ih : Settles data n) {pos stop : Nat} (hstop : stop ≤ data.length)
    (hn : 3 * (data.length - pos) + 2 ≤ n + 1) :
    Decided (decodeLoop data (n + 1) pos stop) := by
  unfold decodeLoop
  apply decided_ite
  · intro hpos
    rcases ih.item pos (by omega) with ⟨⟨v, next⟩, hi⟩ | ⟨e, hi⟩
    · -- The item took at least one byte, which pays for the rest of the loop.
      obtain ⟨w, s, hw, hv, rfl⟩ := (reads data n).item _ _ _ hi
      have hlength := hv.length_pos
      rw [hi]
      rcases ih.loop (pos + w.length) stop hstop (by omega) with ⟨⟨vs, last⟩, hl⟩ | ⟨e, hl⟩
      · simp only [hl]
        exact decided_ok _
      · simp only [hl]
        exact decided_error e
    · rw [hi]
      exact decided_error e
  · intro _
    exact decided_ok _

theorem settles (data : Bytes) (n : Nat) : Settles data n := by
  induction n with
  | zero =>
    constructor
    · intro o h
      omega
    · intro pos stop _ h
      omega
    · intro start len h
      omega
  | succ n ih =>
    constructor
    · intro o h
      exact settles_item ih h
    · intro pos stop hstop h
      exact settles_loop ih hstop h
    · intro start len h
      exact settles_list ih h

end Fuel

theorem rlpDecode_decided (b : Bytes) : Decided (rlpDecode b) := by
  unfold rlpDecode decodeItem
  rcases (settles b (3 * b.length + 1)).item 0 (by omega) with ⟨⟨v, consumed⟩, hi⟩ | ⟨e, hi⟩
  · rw [hi]
    exact decided_ite (fun _ => decided_error _) fun _ => decided_ok _
  · rw [hi]
    exact decided_error e

/-- On every byte string the decoder ends. It returns the value of the one item that the
byte string is, and where there is none it raises a `ValueError`. -/
theorem rlpDecode_recognizes (b : Bytes) :
    (∀ v, rlpDecode b = .ok v ↔ Item b v) ∧
      ((∃ v, Item b v) ∨ ∃ reason : String,
        rlpDecode b = .error (.raised (.valueError s!"RLP decode error: {reason}"))) := by
  constructor
  · intro v
    exact rlpDecode_eq_ok_iff
  · rcases rlpDecode_decided b with ⟨v, h⟩ | ⟨reason, h⟩
    · exact .inl ⟨v, rlpDecode_eq_ok_iff.mp h⟩
    · exact .inr ⟨reason, h⟩

end Ethereum
