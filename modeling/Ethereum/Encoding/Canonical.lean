import Ethereum.Encoding.RoundTrip

/-! When encoding restores the bytes that were decoded. -/
namespace Ethereum

/-- A length field of a long header that could not be shorter: no leading zero, and
a length that needs one. -/
def lengthMinimal (l : Bytes) : Bool := l.headD 0 != 0 && 55 < BigEndian.fromBytes l

/-- One pass over the headers of `b`, entering lists and stepping over strings;
`skip` counts the bytes left to step over. Each header has to be the shortest
for its payload. -/
def headersMinimal : Nat → Bytes → Bool
  | _, [] => true
  | skip + 1, _ :: rest => headersMinimal skip rest
  | 0, t :: rest =>
    let tag := t.toNat
    if tag < 0x80 then headersMinimal 0 rest
    else if tag ≤ 0xb7 then
      !(tag == 0x81 && rest.headD 0 < 0x80) && headersMinimal (tag - 0x80) rest
    else if tag ≤ 0xbf then
      let l := rest.take (tag - 0xb7)
      lengthMinimal l && headersMinimal (tag - 0xb7 + BigEndian.fromBytes l) rest
    else if tag ≤ 0xf7 then headersMinimal 0 rest
    else lengthMinimal (rest.take (tag - 0xf7)) && headersMinimal (tag - 0xf7) rest

theorem headersMinimal_skip (d s : Bytes) :
    headersMinimal d.length (d ++ s) = headersMinimal 0 s := by
  induction d with
  | nil => rfl
  | cons t d ih => simpa [headersMinimal] using ih

theorem headersMinimal_single {t : UInt8} (h : t.toNat < 0x80) (s : Bytes) :
    headersMinimal 0 (t :: s) = headersMinimal 0 s := by
  simp [headersMinimal, h]

theorem headersMinimal_shortString {t : UInt8} {d : Bytes} (h : t.toNat = 0x80 + d.length)
    (hd : d.length ≤ 55) (s : Bytes) :
    headersMinimal 0 (t :: (d ++ s)) =
      (!(d.length == 1 && (d ++ s).headD 0 < 0x80) && headersMinimal 0 s) := by
  have h1 : ¬ t.toNat < 0x80 := by omega
  have h2 : t.toNat ≤ 0xb7 := by omega
  have h3 : t.toNat - 0x80 = d.length := by omega
  have h4 : (t.toNat == 0x81) = (d.length == 1) := by
    rw [Bool.eq_iff_iff, beq_iff_eq, beq_iff_eq]
    omega
  simp only [headersMinimal, h1, h2, h3, h4, if_true, if_false, headersMinimal_skip]

theorem headersMinimal_longString {t : UInt8} {l d : Bytes} (h : t.toNat = 0xb7 + l.length)
    (hl : 1 ≤ l.length) (hl' : l.length ≤ 8) (hd : BigEndian.fromBytes l = d.length) (s : Bytes) :
    headersMinimal 0 (t :: (l ++ d ++ s)) = (lengthMinimal l && headersMinimal 0 s) := by
  have h1 : ¬ t.toNat < 0x80 := by omega
  have h2 : ¬ t.toNat ≤ 0xb7 := by omega
  have h3 : t.toNat ≤ 0xbf := by omega
  have h4 : t.toNat - 0xb7 = l.length := by omega
  have h5 : (l ++ d ++ s).take l.length = l := by rw [List.append_assoc, List.take_left]
  have h6 : l.length + d.length = (l ++ d).length := List.length_append.symm
  simp only [headersMinimal, h1, h2, h3, h4, h5, hd, h6, if_true, if_false, headersMinimal_skip]

theorem headersMinimal_shortList {t : UInt8} (h : 0xc0 ≤ t.toNat) (h' : t.toNat ≤ 0xf7)
    (s : Bytes) : headersMinimal 0 (t :: s) = headersMinimal 0 s := by
  have h1 : ¬ t.toNat < 0x80 := by omega
  have h2 : ¬ t.toNat ≤ 0xb7 := by omega
  have h3 : ¬ t.toNat ≤ 0xbf := by omega
  simp only [headersMinimal, h1, h2, h3, h', if_true, if_false]

theorem headersMinimal_longList {t : UInt8} {l : Bytes} (h : t.toNat = 0xf7 + l.length)
    (hl : 1 ≤ l.length) (s : Bytes) :
    headersMinimal 0 (t :: (l ++ s)) = (lengthMinimal l && headersMinimal 0 s) := by
  have h1 : ¬ t.toNat < 0x80 := by omega
  have h2 : ¬ t.toNat ≤ 0xb7 := by omega
  have h3 : ¬ t.toNat ≤ 0xbf := by omega
  have h4 : ¬ t.toNat ≤ 0xf7 := by omega
  have h5 : t.toNat - 0xf7 = l.length := by omega
  simp only [headersMinimal, h1, h2, h3, h4, h5, List.take_left, if_false, headersMinimal_skip]

/-- A length field spells its number in the shortest way or has a leading zero. -/
theorem encodeLength_fromBytes_iff {l : Bytes} (hl : 1 ≤ l.length)
    (h : 55 < BigEndian.fromBytes l) :
    encodeLength (BigEndian.fromBytes l) = l ↔ lengthMinimal l = true := by
  rw [encodeLength_eq_minimal (by omega)]
  match l, hl with
  | b :: l, _ =>
    have hm : lengthMinimal (b :: l) = true ↔ b ≠ 0 := by
      simp [lengthMinimal, h]
    rw [hm]
    constructor
    · rintro he rfl
      exact BigEndian.minimal_ne_zero_cons he
    · exact fun hb => BigEndian.minimal_fromBytes hb l

theorem not_lengthMinimal {l : Bytes} (h : BigEndian.fromBytes l ≤ 55) :
    lengthMinimal l = false := by
  simp [lengthMinimal, h]

theorem ofNat_toNat_eq {t : UInt8} {n : Nat} (h : t.toNat = n) : UInt8.ofNat n = t := by
  rw [← h, UInt8.ofNat_toNat]

theorem encodeString_short_iff {t : UInt8} {d : Bytes} (h : t.toNat = 0x80 + d.length)
    (hd : d.length ≤ 55) :
    encodeString d = t :: d ↔ ¬ (d.length = 1 ∧ d.headD 0 < 0x80) := by
  dsimp only [encodeString]
  split
  · next hs =>
    refine iff_of_false (fun he => ?_) (not_not_intro hs)
    have hlen := congrArg List.length he
    rw [List.length_cons] at hlen
    omega
  · next hs => exact iff_of_true (by rw [ofNat_toNat_eq h]) hs

theorem encodeString_long_iff {t : UInt8} {l d : Bytes} (h : t.toNat = 0xb7 + l.length)
    (hl : 1 ≤ l.length) (hd : BigEndian.fromBytes l = d.length) :
    encodeString d = t :: (l ++ d) ↔ lengthMinimal l = true := by
  rcases Nat.lt_or_ge 55 d.length with hlong | hshort
  · rw [← encodeLength_fromBytes_iff hl (by omega), hd]
    have h1 : ¬ (d.length = 1 ∧ d.headD 0 < 0x80) := by omega
    simp only [encodeString, h1, if_false, Nat.not_le.mpr hlong]
    constructor
    · intro he
      exact (List.append_cancel_right (List.cons.inj he).2)
    · intro he
      rw [he, ofNat_toNat_eq h]
  · rw [not_lengthMinimal (by omega)]
    constructor
    · intro he
      have hlen := congrArg List.length he
      rw [List.length_cons, List.length_append] at hlen
      dsimp only [encodeString] at hlen
      split at hlen
      · omega
      · rw [List.length_cons] at hlen
        omega
    · intro he
      cases he

theorem encodeList_short_iff {t : UInt8} {d e : Bytes} (h : t.toNat = 0xc0 + d.length)
    (hd : d.length ≤ 55) : encodeList e = t :: d ↔ e = d := by
  constructor
  · intro he
    dsimp only [encodeList] at he
    split at he
    · exact (List.cons.inj he).2
    · next hlong =>
      have hlen := congrArg List.length (List.cons.inj he).2
      rw [List.length_append] at hlen
      omega
  · rintro rfl
    simp [encodeList, hd, ofNat_toNat_eq h]

theorem encodeList_long_iff {t : UInt8} {l d e : Bytes} (h : t.toNat = 0xf7 + l.length)
    (hl : 1 ≤ l.length) (hl' : l.length ≤ 8) (hd : BigEndian.fromBytes l = d.length) :
    encodeList e = t :: (l ++ d) ↔ lengthMinimal l = true ∧ e = d := by
  constructor
  · intro he
    dsimp only [encodeList] at he
    split at he
    · next hshort =>
      have ht := congrArg UInt8.toNat (List.cons.inj he).1
      rw [toNat_ofNat_of_lt (by omega)] at ht
      omega
    · next hlong =>
      obtain ⟨ht, hrest⟩ := List.cons.inj he
      have hlen := congrArg List.length hrest
      rw [List.length_append, List.length_append] at hlen
      -- The payload fits in nine length bytes, so the first byte tells their number.
      have hk : (encodeLength e.length).length ≤ 9 := by
        have hdl : d.length < 256 ^ 8 :=
          hd ▸ (BigEndian.fromBytes_lt l).trans_le (Nat.pow_le_pow_right (by norm_num) hl')
        rw [encodeLength_eq_minimal (by omega), BigEndian.length_minimal]
        apply BigEndian.byteLength_le
        norm_num at hdl ⊢
        omega
      have hk' : (encodeLength e.length).length = l.length := by
        have ht' := congrArg UInt8.toNat ht
        simp only [UInt8.toNat_ofNat'] at ht'
        omega
      obtain ⟨hlen', hed⟩ := List.append_inj hrest hk'
      refine ⟨?_, hed⟩
      rw [← encodeLength_fromBytes_iff hl (by rw [hd, ← hed]; omega), hd, ← hed]
      exact hlen'
  · rintro ⟨hm, rfl⟩
    have hlong : 55 < e.length := by
      by_contra hshort
      rw [not_lengthMinimal (by omega)] at hm
      cases hm
    rw [← encodeLength_fromBytes_iff hl (by omega), hd] at hm
    simp only [encodeList, Nat.not_le.mpr hlong, if_false, hm, ofNat_toNat_eq h]

theorem length_encodeString_le {w d : Bytes} (h : Item w (.bytes d)) :
    (encodeString d).length ≤ w.length := by
  cases h with
  | single ht =>
    dsimp only [encodeString]
    rw [if_pos ⟨rfl, ht⟩]
  | shortString ht hd =>
    dsimp only [encodeString]
    split <;> simp
  | @longString t l d ht hl hl' hd =>
    rcases Nat.lt_or_ge 55 d.length with hlong | hshort
    · have hb := BigEndian.fromBytes_lt l
      rw [hd] at hb
      have hle := BigEndian.byteLength_le hb
      have h1 : ¬ (d.length = 1 ∧ d.headD 0 < 0x80) := by omega
      have h2 : d.length ≠ 0 := by omega
      simp only [encodeString, h1, if_false, Nat.not_le.mpr hlong, List.length_cons,
        List.length_append, encodeLength_eq_minimal h2, BigEndian.length_minimal]
      omega
    · dsimp only [encodeString]
      split
      · rw [List.length_cons, List.length_append]
        omega
      · rw [List.length_cons, List.length_cons, List.length_append]
        omega

mutual

/-- No item is shorter than the encoding of its value. -/
theorem Item.length_le {w : Bytes} {v : Rlp} (h : Item w v) :
    (rlpEncode v).length ≤ w.length := by
  cases h with
  | single ht => rw [rlpEncode]; exact length_encodeString_le (.single ht)
  | shortString ht hd => rw [rlpEncode]; exact length_encodeString_le (.shortString ht hd)
  | longString ht hl hl' hd =>
    rw [rlpEncode]; exact length_encodeString_le (.longString ht hl hl' hd)
  | @shortList t d vs ht hd hs =>
    have hle := hs.length_le
    rw [rlpEncode, List.length_cons]
    simp only [encodeList, if_pos (hle.trans hd), List.length_cons]
    omega
  | @longList t l d vs ht hl hl' hd hs =>
    have hle := hs.length_le
    rw [rlpEncode, List.length_cons, List.length_append]
    dsimp only [encodeList]
    split
    · rw [List.length_cons]; omega
    · have hb := BigEndian.fromBytes_lt l
      rw [hd] at hb
      rw [List.length_cons, List.length_append, encodeLength_eq_minimal (by omega),
        BigEndian.length_minimal]
      have := BigEndian.byteLength_le (hle.trans_lt hb)
      omega

theorem Items.length_le {d : Bytes} {vs : List Rlp} (h : Items d vs) :
    (encodeItems vs).length ≤ d.length := by
  cases h with
  | nil => simp [encodeItems]
  | cons hv hs =>
    rw [encodeItems, List.length_append, List.length_append]
    exact Nat.add_le_add hv.length_le hs.length_le

end

theorem length_lt_of_fromBytes {l d : Bytes} (hl : l.length ≤ 8)
    (hd : BigEndian.fromBytes l = d.length) : d.length < 2 ^ 64 := by
  have h := (BigEndian.fromBytes_lt l).trans_le (Nat.pow_le_pow_right (by norm_num) hl)
  rw [hd] at h
  norm_num at h ⊢
  exact h

mutual

theorem Item.encodable {w : Bytes} {v : Rlp} (h : Item w v) : v.Encodable := by
  cases h with
  | single ht => simp [Rlp.Encodable]
  | shortString ht hd => rw [Rlp.Encodable]; omega
  | longString ht hl hl' hd => rw [Rlp.Encodable]; exact length_lt_of_fromBytes hl' hd
  | shortList ht hd hs =>
    have := hs.length_le
    rw [Rlp.Encodable]
    exact ⟨by omega, hs.encodable⟩
  | longList ht hl hl' hd hs =>
    rw [Rlp.Encodable]
    exact ⟨hs.length_le.trans_lt (length_lt_of_fromBytes hl' hd), hs.encodable⟩

theorem Items.encodable {d : Bytes} {vs : List Rlp} (h : Items d vs) : AllEncodable vs := by
  cases h with
  | nil => simp [AllEncodable]
  | cons hv hs => rw [AllEncodable]; exact ⟨hv.encodable, hs.encodable⟩

end

mutual

/-- Encoding the value of an item restores the item exactly when all its headers
are minimal. -/
theorem Item.headersMinimal_iff {w : Bytes} {v : Rlp} (h : Item w v) (s : Bytes) :
    headersMinimal 0 (w ++ s) = true ↔ rlpEncode v = w ∧ headersMinimal 0 s = true := by
  cases h with
  | @single t ht =>
    have hs : rlpEncode (.bytes [t]) = [t] := by
      have ht' : t < 0x80 := ht
      simp [rlpEncode, encodeString, ht']
    simp [headersMinimal_single ht, hs]
  | @shortString t d ht hd =>
    have hhead : d.length = 1 → (d ++ s).headD 0 = d.headD 0 := by
      intro h1
      obtain ⟨a, rfl⟩ := List.length_eq_one_iff.mp h1
      rfl
    rw [rlpEncode, encodeString_short_iff ht hd, List.cons_append,
      headersMinimal_shortString ht hd, Bool.and_eq_true, Bool.not_eq_true', Bool.and_eq_false_imp]
    refine and_congr_left fun _ => ?_
    rw [not_and]
    constructor
    · intro hm h1
      have := hm (by simpa using h1)
      rw [hhead h1] at this
      simpa using this
    · intro hm h1
      have h1' : d.length = 1 := by simpa using h1
      rw [hhead h1']
      simpa using hm h1'
  | @longString t l d ht hl hl' hd =>
    rw [rlpEncode, encodeString_long_iff ht hl hd, List.cons_append,
      headersMinimal_longString ht hl hl' hd, Bool.and_eq_true]
  | @shortList t d vs ht hd hs =>
    rw [rlpEncode, encodeList_short_iff ht hd, List.cons_append,
      headersMinimal_shortList (by omega) (by omega)]
    exact hs.headersMinimal_iff s
  | @longList t l d vs ht hl hl' hd hs =>
    rw [rlpEncode, encodeList_long_iff ht hl hl' hd, List.cons_append, List.append_assoc,
      headersMinimal_longList ht hl, Bool.and_eq_true, and_assoc]
    exact and_congr_right fun _ => hs.headersMinimal_iff s

theorem Items.headersMinimal_iff {d : Bytes} {vs : List Rlp} (h : Items d vs) (s : Bytes) :
    headersMinimal 0 (d ++ s) = true ↔ encodeItems vs = d ∧ headersMinimal 0 s = true := by
  cases h with
  | nil => simp [encodeItems]
  | @cons w d v vs hv hs =>
    rw [encodeItems, List.append_assoc, hv.headersMinimal_iff, hs.headersMinimal_iff]
    constructor
    · rintro ⟨rfl, rfl, hm⟩
      exact ⟨rfl, hm⟩
    · rintro ⟨he, hm⟩
      -- Both `w` and the encoding of `v` are items at the head of the payload.
      have hi := item_rlpEncode v hv.encodable
      have hvw : rlpEncode v = w := by
        rcases List.append_eq_append_iff.mp he with ⟨t, hw, -⟩ | ⟨t, hw, -⟩
        · rw [hw, (hi.eq_of_append hv hw).1, List.append_nil]
        · rw [hw, (hv.eq_of_append hi hw).1, List.append_nil]
      rw [hvw] at he
      exact ⟨hvw, List.append_cancel_left he, hm⟩

end

/-- Re-encoding an accepted byte string gives it back exactly when its headers are
minimal; the minimal accepted strings are the image of the encoder, and no two
of them decode to the same value. -/
theorem rlpEncode_rlpDecode_iff (b : Bytes) :
    (∀ v, rlpDecode b = .ok v → (rlpEncode v = b ↔ headersMinimal 0 b = true)) ∧
    ((∃ v : Rlp, v.Encodable ∧ rlpEncode v = b) ↔
      (∃ v, rlpDecode b = .ok v) ∧ headersMinimal 0 b = true) ∧
    ∀ v b', rlpDecode b = .ok v → rlpDecode b' = .ok v → headersMinimal 0 b = true →
      headersMinimal 0 b' = true → b = b' := by
  have hiff : ∀ {b v}, rlpDecode b = .ok v → (rlpEncode v = b ↔ headersMinimal 0 b = true) := by
    intro b v h
    have hm := (rlpDecode_eq_ok_iff.mp h).headersMinimal_iff []
    rw [List.append_nil] at hm
    simpa [headersMinimal] using hm.symm
  refine ⟨fun v h => hiff h, ⟨?_, ?_⟩, ?_⟩
  · rintro ⟨v, hv, rfl⟩
    have hd := rlpDecode_eq_ok_iff.mpr (item_rlpEncode v hv)
    exact ⟨⟨v, hd⟩, (hiff hd).mp rfl⟩
  · rintro ⟨⟨v, hd⟩, hm⟩
    exact ⟨v, (rlpDecode_eq_ok_iff.mp hd).encodable, (hiff hd).mpr hm⟩
  · intro v b' hd hd' hm hm'
    rw [← (hiff hd).mpr hm, (hiff hd').mpr hm']

set_option maxRecDepth 2000 in
/-- The byte `0x00` behind a string header is accepted as the string `[0x00]`. -/
theorem rlpDecode_not_canonical :
    ¬ ∀ b v, rlpDecode b = .ok v → rlpEncode v = b := by
  intro h
  have hd : rlpDecode [0x81, 0x00] = .ok (.bytes [0x00]) := by rfl
  have he := h _ _ hd
  revert he
  decide

end Ethereum
