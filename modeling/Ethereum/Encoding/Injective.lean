import Ethereum.Encoding.RoundTrip

/-! Equal encodings have equal contents. What is inside an encoding of fewer than `2^64`
bytes is as short. -/
namespace Ethereum

theorem length_le_encodeString (d : Bytes) : d.length ≤ (encodeString d).length := by
  dsimp only [encodeString]
  split
  · exact le_rfl
  · split
    · simp
    · simp only [List.length_cons, List.length_append]
      omega

theorem length_le_encodeList (d : Bytes) : d.length ≤ (encodeList d).length := by
  dsimp only [encodeList]
  split
  · simp
  · simp only [List.length_cons, List.length_append]
    omega

mutual

theorem encodable_of_length : (x : Rlp) → (rlpEncode x).length < 2 ^ 64 → x.Encodable
  | .bytes d, h => by
    rw [rlpEncode] at h
    rw [Rlp.Encodable]
    exact (length_le_encodeString d).trans_lt h
  | .list vs, h => by
    rw [rlpEncode] at h
    have hitems := (length_le_encodeList (encodeItems vs)).trans_lt h
    rw [Rlp.Encodable]
    exact ⟨hitems, allEncodable_of_length vs hitems⟩

theorem allEncodable_of_length : (vs : List Rlp) → (encodeItems vs).length < 2 ^ 64 →
    AllEncodable vs
  | [], _ => by simp [AllEncodable]
  | v :: vs, h => by
    rw [encodeItems, List.length_append] at h
    rw [AllEncodable]
    exact ⟨encodable_of_length v (by omega), allEncodable_of_length vs (by omega)⟩

end

theorem eq_of_rlpEncode {x y : Rlp} (hx : (rlpEncode x).length < 2 ^ 64)
    (h : rlpEncode x = rlpEncode y) : x = y := by
  have hi := item_rlpEncode x (encodable_of_length x hx)
  have hj := item_rlpEncode y (encodable_of_length y (h ▸ hx))
  exact (hi.eq_of_append (s := []) hj (by rw [h, List.append_nil])).2

/-- A concatenation of encodings determines its items. -/
theorem eq_of_encodeItems {vs ws : List Rlp} (hv : (encodeItems vs).length < 2 ^ 64)
    (h : encodeItems vs = encodeItems ws) : vs = ws := by
  have hi := item_encodeList hv (items_encodeItems vs (allEncodable_of_length vs hv))
  have hj := item_encodeList (h ▸ hv) (items_encodeItems ws (allEncodable_of_length ws (h ▸ hv)))
  have he := (hi.eq_of_append (s := []) hj (by rw [h, List.append_nil])).2
  injection he

theorem intToRlpBytes_eq_ok_iff {n : Int} {b : Bytes} :
    intToRlpBytes n = .ok b ↔ 0 ≤ n ∧ b = BigEndian.minimal n.toNat := by
  unfold intToRlpBytes
  split
  · next h =>
    subst h
    simp [BigEndian.minimal, BigEndian.byteLength, BigEndian.bitLength, BigEndian.toBytes,
      eq_comm]
  · next h =>
    unfold intToBytes
    split
    · next hneg => simp [not_le.mpr hneg]
    · next hnonneg =>
      obtain ⟨k, rfl⟩ := Int.eq_ofNat_of_zero_le (not_lt.mp hnonneg)
      have hlt : ((k : Nat) : Int) < 256 ^ BigEndian.byteLength k := by
        exact_mod_cast BigEndian.lt_pow_byteLength k
      rw [Int.natAbs_natCast, if_neg (not_le.mpr hlt)]
      simp [BigEndian.minimal, eq_comm]

theorem eq_of_intToRlpBytes {m n : Int} {b : Bytes} (hm : intToRlpBytes m = .ok b)
    (hn : intToRlpBytes n = .ok b) : m = n := by
  obtain ⟨hm0, hmb⟩ := intToRlpBytes_eq_ok_iff.mp hm
  obtain ⟨hn0, hnb⟩ := intToRlpBytes_eq_ok_iff.mp hn
  have h := BigEndian.minimal_injective (hmb.symm.trans hnb)
  omega

theorem intToRlpBytes_of_nonneg {n : Int} (h : 0 ≤ n) : ∃ b, intToRlpBytes n = .ok b :=
  ⟨_, intToRlpBytes_eq_ok_iff.mpr ⟨h, rfl⟩⟩

end Ethereum
