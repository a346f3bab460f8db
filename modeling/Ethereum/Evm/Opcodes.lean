import Ethereum.Python

/-! Opcodes and their gas costs (`evm/opcodes.py`, `evm/gas.py`). -/
namespace Ethereum

/-- The supported opcodes; the argument of a family member counts from one. -/
inductive Opcode
  | stop | add | mul | sub | div | mod | exp
  | lt | gt | eq | iszero
  | and | or | not
  | sha3
  | address | caller | callvalue | calldataload | calldatasize | calldatacopy | codesize | codecopy
  | pop | mload | mstore | mstore8 | sload | sstore
  | jump | jumpi | msize | gas | jumpdest
  | push (n : Nat) | dup (n : Nat) | swap (n : Nat)
  | create | call | return | revert | invalid
  deriving DecidableEq

/-- The opcode of a byte, `none` where `GAS_COSTS` has no entry. -/
def Opcode.ofByte (byte : UInt8) : Option Opcode :=
  let b := byte.toNat
  if 0x60 ≤ b ∧ b ≤ 0x7f then some (.push (b - 0x60 + 1))
  else if 0x80 ≤ b ∧ b ≤ 0x8f then some (.dup (b - 0x80 + 1))
  else if 0x90 ≤ b ∧ b ≤ 0x9f then some (.swap (b - 0x90 + 1))
  else match b with
    | 0x00 => some .stop
    | 0x01 => some .add
    | 0x02 => some .mul
    | 0x03 => some .sub
    | 0x04 => some .div
    | 0x06 => some .mod
    | 0x0a => some .exp
    | 0x10 => some .lt
    | 0x11 => some .gt
    | 0x14 => some .eq
    | 0x15 => some .iszero
    | 0x16 => some .and
    | 0x17 => some .or
    | 0x19 => some .not
    | 0x20 => some .sha3
    | 0x30 => some .address
    | 0x33 => some .caller
    | 0x34 => some .callvalue
    | 0x35 => some .calldataload
    | 0x36 => some .calldatasize
    | 0x37 => some .calldatacopy
    | 0x38 => some .codesize
    | 0x39 => some .codecopy
    | 0x50 => some .pop
    | 0x51 => some .mload
    | 0x52 => some .mstore
    | 0x53 => some .mstore8
    | 0x54 => some .sload
    | 0x55 => some .sstore
    | 0x56 => some .jump
    | 0x57 => some .jumpi
    | 0x59 => some .msize
    | 0x5a => some .gas
    | 0x5b => some .jumpdest
    | 0xf0 => some .create
    | 0xf1 => some .call
    | 0xf3 => some .return
    | 0xfd => some .revert
    | 0xfe => some .invalid
    | _ => none

/-- The bytes of the opcodes: three families, and single ones around them. -/
inductive Decodes (byte : UInt8) : Opcode → Prop
  | push (n : Nat) (hn : n < 32) (hbyte : byte.toNat = 0x60 + n) : Decodes byte (.push (n + 1))
  | dup (n : Nat) (hn : n < 16) (hbyte : byte.toNat = 0x80 + n) : Decodes byte (.dup (n + 1))
  | swap (n : Nat) (hn : n < 16) (hbyte : byte.toNat = 0x90 + n) : Decodes byte (.swap (n + 1))
  | single {opcode : Opcode} (hbyte : byte.toNat < 0x60 ∨ 0x9f < byte.toNat)
      (hpush : ∀ n, opcode ≠ .push n) (hdup : ∀ n, opcode ≠ .dup n)
      (hswap : ∀ n, opcode ≠ .swap n) : Decodes byte opcode

theorem decodes_of_ofByte {byte : UInt8} {opcode : Opcode}
    (h : Opcode.ofByte byte = some opcode) : Decodes byte opcode := by
  unfold Opcode.ofByte at h
  dsimp only at h
  split at h
  · next hb =>
    cases h
    exact .push _ (by omega) (by omega)
  · next hpush =>
    split at h
    · next hb =>
      cases h
      exact .dup _ (by omega) (by omega)
    · next hdup =>
      split at h
      · next hb =>
        cases h
        exact .swap _ (by omega) (by omega)
      · next hswap =>
        have hbyte : byte.toNat < 0x60 ∨ 0x9f < byte.toNat := by omega
        split at h <;> cases h <;>
          exact .single hbyte (fun _ h => by cases h) (fun _ h => by cases h) fun _ h => by cases h

def modValue : Int := 2 ^ 256
def maxUint256 : Int := 2 ^ 256 - 1
def maxStackDepth : Nat := 1024
def gasCreate : Int := 32000
def gasSstore : Int := 5000
def gasSload : Int := 100
def gasCallBase : Int := 100

/-- `GAS_COSTS` -/
def gasCost : Opcode → Int
  | .stop => 0
  | .add | .sub => 3
  | .mul | .div | .mod => 5
  | .exp => 10
  | .lt | .gt | .eq | .iszero => 3
  | .and | .or | .not => 3
  | .sha3 => 30
  | .address | .caller | .callvalue => 2
  | .calldataload => 3
  | .calldatasize => 2
  | .calldatacopy => 3
  | .codesize => 2
  | .codecopy => 3
  | .pop => 2
  | .mload | .mstore | .mstore8 => 3
  | .sload => gasSload
  | .sstore => gasSstore
  | .jump => 8
  | .jumpi => 10
  | .msize | .gas => 2
  | .jumpdest => 1
  | .create => gasCreate
  | .call => gasCallBase
  | .return | .revert | .invalid => 0
  | .push _ | .dup _ | .swap _ => 3

theorem gasCost_nonneg (op : Opcode) : 0 ≤ gasCost op := by
  cases op <;> simp [gasCost, gasSload, gasSstore, gasCreate, gasCallBase]

/-- The number of data bytes that follow an opcode byte. -/
def pushSize (opcode : UInt8) : Nat :=
  if 0x60 ≤ opcode.toNat ∧ opcode.toNat ≤ 0x7f then opcode.toNat - 0x60 + 1 else 0

def findJumpdestsFrom (code : Bytes) : Nat → Nat → List Nat
  | 0, _ => []
  | fuel + 1, pc =>
    match code[pc]? with
    | none => []
    | some opcode =>
      let later := findJumpdestsFrom code fuel (pc + pushSize opcode + 1)
      if opcode = 0x5b then pc :: later else later

/-- `_find_jumpdests`; its loop runs at most once per byte. -/
def findJumpdests (code : Bytes) : List Nat := findJumpdestsFrom code code.length 0

example : findJumpdests [0x5b, 0x60, 0x5b, 0x5b, 0x7f, 0x5b] = [0, 3] := by decide

end Ethereum
