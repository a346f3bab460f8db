import Ethereum.Encoding.Grammar

/-! Decoding undoes encoding, wherever the encoding stands. -/
namespace Ethereum

mutual

/-- All strings and list payloads are shorter than `2^64` bytes. -/
def Rlp.Encodable : Rlp → Prop
  | .bytes d => d.length < 2 ^ 64
  | .list vs => (encodeItems vs).length < 2 ^ 64 ∧ AllEncodable vs

def AllEncodable : List Rlp → Prop
  | [] => True
  | v :: vs => v.Encodable ∧ AllEncodable vs

end

theorem toNat_ofNat_of_lt {n : Nat} (h : n < 256) : (UInt8.ofNat n).toNat = n := by
  simp [Nat.mod_eq_of_lt h]

theorem encodeLength_eq_minimal {n : Nat} (h : n ≠ 0) : encodeLength n = BigEndian.minimal n := by
  simp [encodeLength, h, BigEndian.minimal]

/-- The length field of a long header: one to eight bytes that spell the length. -/
theorem encodeLength_spec {n : Nat} (h : 55 < n) (h' : n < 2 ^ 64) :
    1 ≤ (encodeLength n).length ∧ (encodeLength n).length ≤ 8 ∧
      BigEndian.fromBytes (encodeLength n) = n := by
  have hn : n ≠ 0 := by omega
  have h256 : n < 256 ^ 8 := by norm_num at h' ⊢; exact h'
  rw [encodeLength_eq_minimal hn]
  refine ⟨?_, ?_, BigEndian.fromBytes_minimal n⟩
  · rw [BigEndian.length_minimal, BigEndian.byteLength_of_pos hn]; omega
  · rw [BigEndian.length_minimal]; exact BigEndian.byteLength_le h256

theorem item_encodeString {d : Bytes} (h : d.length < 2 ^ 64) :
    Item (encodeString d) (.bytes d) := by
  dsimp only [encodeString]
  split
  · next hs =>
    obtain ⟨t, rfl⟩ := List.length_eq_one_iff.mp hs.1
    exact .single hs.2
  · split
    · next hd =>
      exact .shortString (toNat_ofNat_of_lt (by omega)) hd
    · next hd =>
      obtain ⟨h1, h8, he⟩ := encodeLength_spec (by omega) h
      exact .longString (toNat_ofNat_of_lt (by omega)) h1 h8 he

theorem item_encodeList {d : Bytes} {vs : List Rlp} (h : d.length < 2 ^ 64) (hs : Items d vs) :
    Item (encodeList d) (.list vs) := by
  dsimp only [encodeList]
  split
  · next hd => exact .shortList (toNat_ofNat_of_lt (by omega)) hd hs
  · next hd =>
    obtain ⟨h1, h8, he⟩ := encodeLength_spec (by omega) h
    exact .longList (toNat_ofNat_of_lt (by omega)) h1 h8 he hs

mutual

theorem item_rlpEncode : (x : Rlp) → x.Encodable → Item (rlpEncode x) x
  | .bytes d, h => by
    rw [rlpEncode]
    rw [Rlp.Encodable] at h
    exact item_encodeString h
  | .list vs, h => by
    rw [rlpEncode]
    rw [Rlp.Encodable] at h
    exact item_encodeList h.1 (items_encodeItems vs h.2)

theorem items_encodeItems : (vs : List Rlp) → AllEncodable vs → Items (encodeItems vs) vs
  | [], _ => by
    rw [encodeItems]
    exact .nil
  | v :: vs, h => by
    rw [encodeItems]
    rw [AllEncodable] at h
    exact .cons (item_rlpEncode v h.1) (items_encodeItems vs h.2)

end

theorem decodeItem_of_item {w p s : Bytes} {v : Rlp} (h : Item w v) :
    decodeItem (p ++ w ++ s) p.length = .ok (v, p.length + w.length) := by
  apply h.decode (s := s)
  · rw [List.append_assoc, List.drop_left]
  · simp only [List.length_append]
    omega

/-- Two items at the same place are the same item. -/
theorem Item.eq_of_append {w w' s : Bytes} {v v' : Rlp} (h : Item w v) (h' : Item w' v')
    (he : w' = w ++ s) : s = [] ∧ v = v' := by
  have hd := decodeItem_of_item (p := []) (s := s) h
  have hd' := decodeItem_of_item (p := []) (s := []) h'
  rw [List.append_nil, List.nil_append, he] at hd'
  rw [List.nil_append, hd'] at hd
  simp only [Except.ok.injEq, Prod.mk.injEq, List.length_append] at hd
  exact ⟨List.eq_nil_of_length_eq_zero (by omega), hd.1.symm⟩

/-- Decoding returns what was encoded and stops right behind it, whatever stands
around it; so no encoding continues another one and encoding is injective. -/
theorem decodeItem_rlpEncode {x : Rlp} (hx : x.Encodable) :
    (∀ p s : Bytes, decodeItem (p ++ rlpEncode x ++ s) p.length =
      .ok (x, p.length + (rlpEncode x).length)) ∧
    rlpDecode (rlpEncode x) = .ok x ∧
    ∀ y : Rlp, y.Encodable →
      (∀ t, rlpEncode y = rlpEncode x ++ t → t = []) ∧ (rlpEncode x = rlpEncode y → x = y) := by
  have hi := item_rlpEncode x hx
  refine ⟨fun p s => decodeItem_of_item hi, rlpDecode_eq_ok_iff.mpr hi, ?_⟩
  intro y hy
  have hj := item_rlpEncode y hy
  refine ⟨fun t ht => (hi.eq_of_append hj ht).1, ?_⟩
  intro he
  exact (hi.eq_of_append (s := []) hj (by rw [he, List.append_nil])).2

theorem decodeItem_rlpEncode_nested :
    let x : Rlp := .list [.bytes [0x80], .list [.bytes (List.replicate 56 1)]]
    (∀ p s : Bytes, decodeItem (p ++ rlpEncode x ++ s) p.length =
      .ok (x, p.length + (rlpEncode x).length)) ∧
    rlpDecode (rlpEncode x) = .ok x ∧
    ∀ y : Rlp, y.Encodable →
      (∀ t, rlpEncode y = rlpEncode x ++ t → t = []) ∧ (rlpEncode x = rlpEncode y → x = y) := by
  refine decodeItem_rlpEncode ?_
  simp only [Rlp.Encodable, AllEncodable, and_true]
  decide

end Ethereum
