import Ethereum.Encoding.Rlp
import Mathlib.Tactic.IntervalCases

/-! The byte strings that are RLP items, whatever the form of their headers, and
the decoder as a recognizer of exactly these. -/
namespace Ethereum

mutual

/-- `w` is one complete item with the value `v`. Nothing here asks for the
shortest header. -/
inductive Item : Bytes → Rlp → Prop
  | single {t : UInt8} (h : t.toNat < 0x80) : Item [t] (.bytes [t])
  | shortString {t : UInt8} {d : Bytes} (ht : t.toNat = 0x80 + d.length) (hd : d.length ≤ 55) :
      Item (t :: d) (.bytes d)
  | longString {t : UInt8} {l d : Bytes} (ht : t.toNat = 0xb7 + l.length) (hl : 1 ≤ l.length)
      (hl' : l.length ≤ 8) (hd : BigEndian.fromBytes l = d.length) :
      Item (t :: (l ++ d)) (.bytes d)
  | shortList {t : UInt8} {d : Bytes} {vs : List Rlp} (ht : t.toNat = 0xc0 + d.length)
      (hd : d.length ≤ 55) (hs : Items d vs) : Item (t :: d) (.list vs)
  | longList {t : UInt8} {l d : Bytes} {vs : List Rlp} (ht : t.toNat = 0xf7 + l.length)
      (hl : 1 ≤ l.length) (hl' : l.length ≤ 8) (hd : BigEndian.fromBytes l = d.length)
      (hs : Items d vs) : Item (t :: (l ++ d)) (.list vs)

/-- `d` is tiled by items with the values `vs`. -/
inductive Items : Bytes → List Rlp → Prop
  | nil : Items [] []
  | cons {w d : Bytes} {v : Rlp} {vs : List Rlp} (hw : Item w v) (hd : Items d vs) :
      Items (w ++ d) (v :: vs)

end

theorem Item.length_pos {w : Bytes} {v : Rlp} (h : Item w v) : 0 < w.length := by
  cases h <;> simp

section Rules

variable {data rest : Bytes} {o n : Nat} {t : UInt8}

theorem length_of_drop_cons (h : data.drop o = t :: rest) :
    data.length = o + 1 + rest.length := by
  have hl := congrArg List.length h
  simp only [List.length_drop, List.length_cons] at hl
  omega

theorem getElem?_of_drop_cons (h : data.drop o = t :: rest) : data[o]? = some t := by
  have h0 : (data.drop o)[0]? = data[o]? := by simp
  rw [← h0, h]
  rfl

theorem drop_of_drop_cons (h : data.drop o = t :: rest) (k : Nat) :
    data.drop (o + 1 + k) = rest.drop k := by
  have hd : (data.drop o).drop (1 + k) = data.drop (o + 1 + k) := by
    rw [List.drop_drop, Nat.add_assoc]
  rw [← hd, h, Nat.add_comm 1 k]
  rfl

theorem extract_of_drop_cons (h : data.drop o = t :: rest) (a b : Nat) :
    data.extract (o + 1 + a) (o + 1 + b) = (rest.drop a).take (b - a) := by
  rw [List.extract_eq_take_drop, drop_of_drop_cons h]
  congr 1
  omega

/-- What `_decode_item` does, by the range of the first byte. -/
theorem decodeItemAt_single (h : data.drop o = t :: rest) (ht : t.toNat < 0x80) :
    decodeItemAt data (n + 1) o = .ok (.bytes [t], o + 1) := by
  unfold decodeItemAt
  simp [getElem?_of_drop_cons h, ht]

theorem decodeItemAt_shortString (h : data.drop o = t :: rest) (ht : 0x80 ≤ t.toNat)
    (ht' : t.toNat ≤ 0xb7) :
    decodeItemAt data (n + 1) o =
      if rest.length < t.toNat - 0x80 then decodeError "string length exceeds data"
      else .ok (.bytes (rest.take (t.toNat - 0x80)), o + 1 + (t.toNat - 0x80)) := by
  have he := extract_of_drop_cons h 0 (t.toNat - 0x80)
  simp only [Nat.add_zero, List.drop_zero, Nat.sub_zero] at he
  unfold decodeItemAt
  simp only [getElem?_of_drop_cons h, length_of_drop_cons h, Nat.not_lt.mpr ht, ht', if_true,
    if_false, he, Nat.add_lt_add_iff_left]

theorem decodeItemAt_longString (h : data.drop o = t :: rest) (ht : 0xb8 ≤ t.toNat)
    (ht' : t.toNat ≤ 0xbf) :
    decodeItemAt data (n + 1) o =
      let k := t.toNat - 0xb7
      let len := BigEndian.fromBytes (rest.take k)
      if rest.length < k then decodeError "length-of-length exceeds data"
      else if rest.length < k + len then decodeError "long string exceeds data"
      else .ok (.bytes ((rest.drop k).take len), o + 1 + (k + len)) := by
  have h1 : ¬ t.toNat < 0x80 := by omega
  have h2 : ¬ t.toNat ≤ 0xb7 := by omega
  have he := extract_of_drop_cons h 0 (t.toNat - 0xb7)
  have hx := extract_of_drop_cons h (t.toNat - 0xb7)
    (t.toNat - 0xb7 + BigEndian.fromBytes (rest.take (t.toNat - 0xb7)))
  simp only [Nat.add_zero, List.drop_zero, Nat.sub_zero, Nat.add_sub_cancel_left] at he hx
  unfold decodeItemAt
  simp only [getElem?_of_drop_cons h, length_of_drop_cons h, h1, h2, ht', if_true, if_false, he,
    Nat.add_assoc (o + 1), hx, Nat.add_lt_add_iff_left]

theorem decodeItemAt_shortList (h : data.drop o = t :: rest) (ht : 0xc0 ≤ t.toNat)
    (ht' : t.toNat ≤ 0xf7) :
    decodeItemAt data (n + 1) o = decodeList data n (o + 1) (t.toNat - 0xc0) := by
  have h1 : ¬ t.toNat < 0x80 := by omega
  have h2 : ¬ t.toNat ≤ 0xb7 := by omega
  have h3 : ¬ t.toNat ≤ 0xbf := by omega
  conv_lhs => unfold decodeItemAt
  simp only [getElem?_of_drop_cons h, h1, h2, h3, ht', if_true, if_false]

theorem decodeItemAt_longList (h : data.drop o = t :: rest) (ht : 0xf8 ≤ t.toNat) :
    decodeItemAt data (n + 1) o =
      let k := t.toNat - 0xf7
      if rest.length < k then decodeError "list length-of-length exceeds data"
      else decodeList data n (o + 1 + k) (BigEndian.fromBytes (rest.take k)) := by
  have h1 : ¬ t.toNat < 0x80 := by omega
  have h2 : ¬ t.toNat ≤ 0xb7 := by omega
  have h3 : ¬ t.toNat ≤ 0xbf := by omega
  have h4 : ¬ t.toNat ≤ 0xf7 := by omega
  have he := extract_of_drop_cons h 0 (t.toNat - 0xf7)
  simp only [Nat.add_zero, List.drop_zero, Nat.sub_zero] at he
  conv_lhs => unfold decodeItemAt
  simp only [getElem?_of_drop_cons h, length_of_drop_cons h, h1, h2, h3, h4, if_false, he,
    Nat.add_lt_add_iff_left]

theorem decodeList_of_loop {start len : Nat} {vs : List Rlp} (hlen : start + len ≤ data.length)
    (hl : decodeLoop data n start (start + len) = .ok (vs, start + len)) :
    decodeList data (n + 1) start len = .ok (.list vs, start + len) := by
  unfold decodeList
  simp [Nat.not_lt.mpr hlen, hl]

end Rules

section Complete

variable {data : Bytes}

mutual

/-- An item is decoded wherever it stands, and nothing after it is read. -/
theorem Item.decode {w : Bytes} {v : Rlp} (h : Item w v) {o n : Nat} {s : Bytes}
    (hw : data.drop o = w ++ s) (hn : 3 * w.length + 1 ≤ n) :
    decodeItemAt data n o = .ok (v, o + w.length) := by
  obtain ⟨n, rfl⟩ : ∃ m, n = m + 1 := ⟨n - 1, by omega⟩
  cases h with
  | single ht => exact decodeItemAt_single hw ht
  | @shortString t d ht hd =>
    rw [List.cons_append] at hw
    have hk : t.toNat - 0x80 = d.length := by omega
    rw [decodeItemAt_shortString hw (by omega) (by omega), hk]
    simp only [List.length_append, List.take_left, List.length_cons]
    rw [if_neg (by omega), Nat.add_assoc, Nat.add_comm 1]
  | @longString t l d ht hl hl' hd =>
    rw [List.cons_append, List.append_assoc] at hw
    have hk : t.toNat - 0xb7 = l.length := by omega
    rw [decodeItemAt_longString hw (by omega) (by omega), hk]
    simp only [List.take_left, List.drop_left, hd, List.length_append, List.length_cons]
    rw [if_neg (by omega), if_neg (by omega), Nat.add_assoc, Nat.add_comm 1]
  | @shortList t d vs ht hd hs =>
    rw [List.cons_append] at hw
    rw [List.length_cons] at hn
    obtain ⟨n, rfl⟩ : ∃ m, n = m + 1 := ⟨n - 1, by omega⟩
    have hk : t.toNat - 0xc0 = d.length := by omega
    have hlen := length_of_drop_cons hw
    rw [List.length_append] at hlen
    have hdrop : data.drop (o + 1) = d ++ s := drop_of_drop_cons hw 0
    rw [decodeItemAt_shortList hw (by omega) (by omega), hk,
      decodeList_of_loop (by omega) (hs.decode hdrop (by omega)), List.length_cons, Nat.add_assoc,
      Nat.add_comm 1]
  | @longList t l d vs ht hl hl' hd hs =>
    rw [List.cons_append, List.append_assoc] at hw
    rw [List.length_cons, List.length_append] at hn
    obtain ⟨n, rfl⟩ : ∃ m, n = m + 1 := ⟨n - 1, by omega⟩
    have hk : t.toNat - 0xf7 = l.length := by omega
    have hlen := length_of_drop_cons hw
    rw [List.length_append, List.length_append] at hlen
    have hdrop : data.drop (o + 1 + l.length) = d ++ s := by
      rw [drop_of_drop_cons hw, List.drop_left]
    rw [decodeItemAt_longList hw (by omega), hk]
    simp only [List.take_left, hd, List.length_append]
    rw [if_neg (by omega), decodeList_of_loop (by omega) (hs.decode hdrop (by omega))]
    rw [List.length_cons, List.length_append, Nat.add_assoc, Nat.add_assoc, Nat.add_comm 1,
      Nat.add_assoc]

theorem Items.decode {d : Bytes} {vs : List Rlp} (h : Items d vs) {o n : Nat} {s : Bytes}
    (hd : data.drop o = d ++ s) (hn : 3 * d.length + 2 ≤ n) :
    decodeLoop data n o (o + d.length) = .ok (vs, o + d.length) := by
  obtain ⟨n, rfl⟩ : ∃ m, n = m + 1 := ⟨n - 1, by omega⟩
  cases h with
  | nil => simp [decodeLoop]
  | @cons w d v vs hv hs =>
    have hpos := hv.length_pos
    rw [List.length_append] at hn ⊢
    rw [List.append_assoc] at hd
    have hdrop : data.drop (o + w.length) = d ++ s := by
      rw [← List.drop_drop, hd, List.drop_left]
    have hi := hv.decode (n := n) hd (by omega)
    have hl := hs.decode (n := n) hdrop (by omega)
    rw [Nat.add_assoc] at hl
    unfold decodeLoop
    simp [hi, hl, show o < o + (w.length + d.length) by omega]

end

end Complete

section Sound

variable {data : Bytes}

theorem exists_drop_cons {o : Nat} (h : o < data.length) : ∃ t rest, data.drop o = t :: rest :=
  ⟨data[o], data.drop (o + 1), List.drop_eq_getElem_cons h⟩

theorem decodeItemAt_of_le {o n : Nat} (h : data.length ≤ o) :
    decodeItemAt data (n + 1) o = decodeError "unexpected end of data" := by
  unfold decodeItemAt
  simp [List.getElem?_eq_none h]

/-- What a successful call of the three decoding functions has read. -/
structure Reads (data : Bytes) (n : Nat) : Prop where
  item : ∀ o v e, decodeItemAt data n o = .ok (v, e) →
    ∃ w s, data.drop o = w ++ s ∧ Item w v ∧ e = o + w.length
  list : ∀ start len v e, decodeList data n start len = .ok (v, e) →
    ∃ d s vs, data.drop start = d ++ s ∧ d.length = len ∧ Items d vs ∧ v = .list vs ∧
      e = start + len
  loop : ∀ pos stop vs e, decodeLoop data n pos stop = .ok (vs, e) →
    ∃ d s, data.drop pos = d ++ s ∧ Items d vs ∧ e = pos + d.length

section Item

variable {n o e : Nat} {v : Rlp} {t : UInt8} {rest : Bytes}

theorem reads_shortString (hd : data.drop o = t :: rest) (h1 : 0x80 ≤ t.toNat)
    (h2 : t.toNat ≤ 0xb7) (h : decodeItemAt data (n + 1) o = .ok (v, e)) :
    ∃ w s, data.drop o = w ++ s ∧ Item w v ∧ e = o + w.length := by
  rw [decodeItemAt_shortString hd h1 h2] at h
  split at h
  · cases h
  · next hlen =>
    cases h
    have hl : (rest.take (t.toNat - 0x80)).length = t.toNat - 0x80 := by
      rw [List.length_take]; omega
    refine ⟨t :: rest.take (t.toNat - 0x80), rest.drop (t.toNat - 0x80), ?_, ?_, ?_⟩
    · rw [List.cons_append, List.take_append_drop, hd]
    · exact .shortString (by omega) (by omega)
    · rw [List.length_cons, hl]; omega

theorem reads_longString (hd : data.drop o = t :: rest) (h2 : 0xb8 ≤ t.toNat)
    (h3 : t.toNat ≤ 0xbf) (h : decodeItemAt data (n + 1) o = .ok (v, e)) :
    ∃ w s, data.drop o = w ++ s ∧ Item w v ∧ e = o + w.length := by
  rw [decodeItemAt_longString hd h2 h3] at h
  simp only at h
  split at h
  · cases h
  · next hlen =>
    split at h
    · cases h
    · next hlen' =>
      cases h
      generalize hk : t.toNat - 0xb7 = k at *
      generalize hx : BigEndian.fromBytes (rest.take k) = x at *
      have hl : (rest.take k).length = k := by rw [List.length_take]; omega
      have hl' : ((rest.drop k).take x).length = x := by
        rw [List.length_take, List.length_drop]; omega
      refine ⟨t :: (rest.take k ++ (rest.drop k).take x), (rest.drop k).drop x, ?_, ?_, ?_⟩
      · rw [List.cons_append, List.append_assoc, List.take_append_drop, List.take_append_drop, hd]
      · exact .longString (by omega) (by omega) (by omega) (by omega)
      · rw [List.length_cons, List.length_append, hl, hl']; omega

theorem reads_shortList (ih : Reads data n) (hd : data.drop o = t :: rest) (h3 : 0xc0 ≤ t.toNat)
    (h4 : t.toNat ≤ 0xf7) (h : decodeItemAt data (n + 1) o = .ok (v, e)) :
    ∃ w s, data.drop o = w ++ s ∧ Item w v ∧ e = o + w.length := by
  rw [decodeItemAt_shortList hd h3 h4] at h
  obtain ⟨d, s, vs, hds, hlen, hs, rfl, he⟩ := ih.list _ _ _ _ h
  have hdrop : data.drop (o + 1) = rest := drop_of_drop_cons hd 0
  have ht : t.toNat = 0xc0 + d.length := by omega
  refine ⟨t :: d, s, ?_, .shortList ht (by omega) hs, ?_⟩
  · rw [List.cons_append, ← hds, hdrop, hd]
  · rw [he, List.length_cons]; omega

theorem reads_longList (ih : Reads data n) (hd : data.drop o = t :: rest) (h4 : 0xf8 ≤ t.toNat)
    (h : decodeItemAt data (n + 1) o = .ok (v, e)) :
    ∃ w s, data.drop o = w ++ s ∧ Item w v ∧ e = o + w.length := by
  have ht := t.toNat_lt
  rw [decodeItemAt_longList hd h4] at h
  simp only at h
  split at h
  · cases h
  · next hlen =>
    generalize hk : t.toNat - 0xf7 = k at *
    obtain ⟨d, s, vs, hds, hlen', hs, rfl, rfl⟩ := ih.list _ _ _ _ h
    have hl : (rest.take k).length = k := by rw [List.length_take]; omega
    rw [drop_of_drop_cons hd] at hds
    refine ⟨t :: (rest.take k ++ d), s, ?_, ?_, ?_⟩
    · rw [List.cons_append, List.append_assoc, ← hds, List.take_append_drop, hd]
    · exact .longList (by omega) (by omega) (by omega) (by omega) hs
    · rw [List.length_cons, List.length_append, hl]; omega

/-- The first byte decides which kind of item is read. -/
theorem reads_item (ih : Reads data n) (h : decodeItemAt data (n + 1) o = .ok (v, e)) :
    ∃ w s, data.drop o = w ++ s ∧ Item w v ∧ e = o + w.length := by
  rcases Nat.lt_or_ge o data.length with hlt | hge
  swap
  · rw [decodeItemAt_of_le hge] at h
    cases h
  obtain ⟨t, rest, hd⟩ := exists_drop_cons hlt
  rcases Nat.lt_or_ge t.toNat 0x80 with h1 | h1
  · rw [decodeItemAt_single hd h1] at h
    cases h
    exact ⟨[t], rest, hd, .single h1, rfl⟩
  rcases Nat.lt_or_ge t.toNat 0xb8 with h2 | h2
  · exact reads_shortString hd h1 (by omega) h
  rcases Nat.lt_or_ge t.toNat 0xc0 with h3 | h3
  · exact reads_longString hd h2 (by omega) h
  rcases Nat.lt_or_ge t.toNat 0xf8 with h4 | h4
  · exact reads_shortList ih hd h3 (by omega) h
  · exact reads_longList ih hd h4 h

end Item

theorem reads_list {n : Nat} (ih : Reads data n) {start len : Nat} {v : Rlp} {e : Nat}
    (h : decodeList data (n + 1) start len = .ok (v, e)) :
    ∃ d s vs, data.drop start = d ++ s ∧ d.length = len ∧ Items d vs ∧ v = .list vs ∧
      e = start + len := by
  unfold decodeList at h
  simp only at h
  split at h
  · cases h
  · split at h
    · cases h
    · next vs pos hl =>
      split at h
      · cases h
      · next hpos =>
        cases h
        obtain ⟨d, s, hds, hs, rfl⟩ := ih.loop _ _ _ _ hl
        exact ⟨d, s, vs, hds, by omega, hs, rfl, rfl⟩

theorem reads_loop {n : Nat} (ih : Reads data n) {pos stop : Nat} {vs : List Rlp} {e : Nat}
    (h : decodeLoop data (n + 1) pos stop = .ok (vs, e)) :
    ∃ d s, data.drop pos = d ++ s ∧ Items d vs ∧ e = pos + d.length := by
  unfold decodeLoop at h
  split at h
  · split at h
    · cases h
    · next v next hi =>
      split at h
      · cases h
      · next vs last hl =>
        cases h
        obtain ⟨w, s, hw, hv, rfl⟩ := ih.item _ _ _ hi
        obtain ⟨d, s', hd, hs, rfl⟩ := ih.loop _ _ _ _ hl
        rw [← List.drop_drop, hw, List.drop_left] at hd
        refine ⟨w ++ d, s', ?_, .cons hv hs, ?_⟩
        · rw [hw, hd, List.append_assoc]
        · rw [List.length_append]; omega
  · cases h
    exact ⟨[], data.drop pos, rfl, .nil, rfl⟩

theorem reads (data : Bytes) (n : Nat) : Reads data n := by
  induction n with
  | zero =>
    constructor <;> intros <;> contradiction
  | succ n ih =>
    exact ⟨fun _ _ _ h => reads_item ih h, fun _ _ _ _ h => reads_list ih h,
      fun _ _ _ _ h => reads_loop ih h⟩

end Sound

/-- The decoder accepts a byte string exactly when it is one item. -/
theorem rlpDecode_eq_ok_iff {b : Bytes} {v : Rlp} : rlpDecode b = .ok v ↔ Item b v := by
  constructor
  · intro h
    unfold rlpDecode at h
    split at h
    · cases h
    · next v' e hi =>
      split at h
      · cases h
      · next he =>
        cases h
        obtain ⟨w, s, hw, hv, rfl⟩ := (reads b _).item _ _ _ hi
        have hl := congrArg List.length hw
        rw [List.drop_zero, List.length_append] at hl
        have hs : s = [] := List.eq_nil_of_length_eq_zero (by omega)
        subst hs
        rw [List.drop_zero, List.append_nil] at hw
        exact hw ▸ hv
  · intro h
    have hi := h.decode (show b.drop 0 = b ++ [] by simp) le_rfl
    unfold rlpDecode decodeItem
    simp [hi]

end Ethereum
