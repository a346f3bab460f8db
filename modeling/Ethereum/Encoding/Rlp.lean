import Ethereum.Python

/-! Recursive Length Prefix encoding and decoding (`encoding/rlp.py`). -/
namespace Ethereum

/-- What `rlp_encode` takes: byte strings and nested lists of them. -/
inductive Rlp
  | bytes (data : Bytes)
  | list (items : List Rlp)

/-- Integer zero becomes the empty byte string. -/
def intToRlpBytes (n : Int) : Except PyException Bytes :=
  if n = 0 then .ok [] else intToBytes (BigEndian.byteLength n.natAbs) n

def encodeLength (length : Nat) : Bytes :=
  if length = 0 then [0] else BigEndian.toBytes (BigEndian.byteLength length) length

def encodeString (data : Bytes) : Bytes :=
  let length := data.length
  if length = 1 ∧ data.headD 0 < 0x80 then data
  else if length ≤ 55 then UInt8.ofNat (0x80 + length) :: data
  else
    let lenBytes := encodeLength length
    UInt8.ofNat (0xb7 + lenBytes.length) :: (lenBytes ++ data)

/-- The part of `_encode_list` after the items are joined. A byte string is shorter
than `2^63`, so the first byte never passes `0xff`. -/
def encodeList (payload : Bytes) : Bytes :=
  let payloadLength := payload.length
  if payloadLength ≤ 55 then UInt8.ofNat (0xc0 + payloadLength) :: payload
  else
    let lenBytes := encodeLength payloadLength
    UInt8.ofNat (0xf7 + lenBytes.length) :: (lenBytes ++ payload)

mutual

def rlpEncode : Rlp → Bytes
  | .bytes data => encodeString data
  | .list items => encodeList (encodeItems items)

/-- `b''.join(rlp_encode(item) for item in items)` -/
def encodeItems : List Rlp → Bytes
  | [] => []
  | item :: items => rlpEncode item ++ encodeItems items

end

def decodeError {α : Type} (reason : String) : Except Abort α :=
  .error (.raised (.valueError s!"RLP decode error: {reason}"))

mutual

/-- `_decode_item` with a bound on the depth of its recursion. -/
def decodeItemAt (data : Bytes) : Nat → Nat → Except Abort (Rlp × Nat)
  | 0, _ => .error .outOfFuel
  | fuel + 1, offset =>
    match data[offset]? with
    | none => decodeError "unexpected end of data"
    | some prefixByte =>
      let tag := prefixByte.toNat
      if tag < 0x80 then .ok (.bytes [prefixByte], offset + 1)
      else if tag ≤ 0xb7 then
        let start := offset + 1
        let stop := start + (tag - 0x80)
        if data.length < stop then decodeError "string length exceeds data"
        else .ok (.bytes (data.extract start stop), stop)
      else if tag ≤ 0xbf then
        let lenStart := offset + 1
        let lenEnd := lenStart + (tag - 0xb7)
        if data.length < lenEnd then decodeError "length-of-length exceeds data"
        else
          let stop := lenEnd + BigEndian.fromBytes (data.extract lenStart lenEnd)
          if data.length < stop then decodeError "long string exceeds data"
          else .ok (.bytes (data.extract lenEnd stop), stop)
      else if tag ≤ 0xf7 then decodeList data fuel (offset + 1) (tag - 0xc0)
      else
        let lenStart := offset + 1
        let lenEnd := lenStart + (tag - 0xf7)
        if data.length < lenEnd then decodeError "list length-of-length exceeds data"
        else decodeList data fuel lenEnd (BigEndian.fromBytes (data.extract lenStart lenEnd))
termination_by structural fuel => fuel

def decodeList (data : Bytes) : Nat → Nat → Nat → Except Abort (Rlp × Nat)
  | 0, _, _ => .error .outOfFuel
  | fuel + 1, start, listLen =>
    let stop := start + listLen
    if data.length < stop then decodeError "list payload exceeds data"
    else match decodeLoop data fuel start stop with
      | .error e => .error e
      | .ok (items, pos) =>
        if pos ≠ stop then decodeError "list items don't fill declared length"
        else .ok (.list items, stop)
termination_by structural fuel => fuel

/-- `while pos < end: item, pos = _decode_item(data, pos)` -/
def decodeLoop (data : Bytes) : Nat → Nat → Nat → Except Abort (List Rlp × Nat)
  | 0, _, _ => .error .outOfFuel
  | fuel + 1, pos, stop =>
    if pos < stop then
      match decodeItemAt data fuel pos with
      | .error e => .error e
      | .ok (item, next) =>
        match decodeLoop data fuel next stop with
        | .error e => .error e
        | .ok (items, last) => .ok (item :: items, last)
    else .ok ([], pos)
termination_by structural fuel => fuel

end

/-- Every call advances by at least one byte, so this much recursion is enough. -/
def decodeItem (data : Bytes) (offset : Nat) : Except Abort (Rlp × Nat) :=
  decodeItemAt data (3 * data.length + 1) offset

def rlpDecode (data : Bytes) : Except Abort Rlp :=
  match decodeItem data 0 with
  | .error e => .error e
  | .ok (result, consumed) =>
    if consumed ≠ data.length then
      decodeError s!"{(data.length : Int) - consumed} trailing bytes after decoding"
    else .ok result

example : rlpEncode (.list [.bytes [0x7f, 0x80], .list [.bytes []]]) =
    [0xc5, 0x82, 0x7f, 0x80, 0xc1, 0x80] := by decide

set_option maxRecDepth 3000 in
example : rlpDecode [0xc5, 0x82, 0x7f, 0x80, 0xc1, 0x80] =
    .ok (.list [.bytes [0x7f, 0x80], .list [.bytes []]]) := by rfl

end Ethereum
