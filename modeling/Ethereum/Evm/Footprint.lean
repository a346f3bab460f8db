import Ethereum.Evm.Reach

/-! The accounts that a frame and all frames below it get to. -/
namespace Ethereum

variable {env : Env} {evm evm' start : EVM} {a : Bytes}

/-- The account besides its own that the next opcode of a frame concerns: what `CALL` names,
with or without code, and what `CREATE` computes. -/
def EVM.contact (env : Env) (evm : EVM) : Option Bytes :=
  match evm.code[evm.programCounter]?.bind Opcode.ofByte with
  | some .call => do
    let addrInt ← evm.executionStack[1]?
    let addrBytes ← (intToBytes 32 addrInt).toOption
    return addrBytes.drop 12
  | some .create => do
    let world ← evm.worldState
    let creator := evm.context.address
    (computeContractAddress env creator (world.getAccount creator).nonce).toOption
  | _ => none

/-- The accounts of the frames that an execution runs, and those that their `CALL`s and
`CREATE`s concern. -/
inductive EVM.Touches (env : Env) (start : EVM) (a : Bytes) : Prop
  | own {evm : EVM} (h : Reaches env start evm) (ha : evm.context.address = a)
  | contact {evm : EVM} (h : Reaches env start evm) (hrun : evm.running = true)
      (ha : evm.contact env = some a)

theorem contact_of_call {addrInt : Int} {addrBytes : Bytes}
    (hop : evm.code[evm.programCounter]?.bind Opcode.ofByte = some .call)
    (hstack : evm.executionStack[1]? = some addrInt)
    (hbytes : intToBytes 32 addrInt = .ok addrBytes) :
    evm.contact env = some (addrBytes.drop 12) := by
  simp only [EVM.contact, hop, hstack]
  exact congrArg (fun x => do return (← x.toOption).drop 12) hbytes

theorem contact_of_create {w : WorldState}
    (hop : evm.code[evm.programCounter]?.bind Opcode.ofByte = some .create)
    (hw : evm.worldState = some w)
    (ha : computeContractAddress env evm.context.address
      (w.getAccount evm.context.address).nonce = .ok a) : evm.contact env = some a := by
  simp only [EVM.contact, hop, hw]
  exact congrArg Except.toOption ha

theorem EVM.Touches.of_next (h : evm'.Touches env a) (hn : Next env evm evm') :
    evm.Touches env a := by
  cases h with
  | own hr ha => exact .own (hr.head hn) ha
  | contact hr hrun ha => exact .contact (hr.head hn) hrun ha

theorem contact_of_leaf (hleaf : Leaf evm.code) : evm.contact env = none := by
  unfold EVM.contact
  cases hbyte : evm.code[evm.programCounter]? with
  | none => rfl
  | some byte =>
    obtain ⟨hcall, hcreate⟩ := hleaf byte (List.mem_of_getElem? hbyte)
    rw [Option.bind_some]
    split
    · next heq => exact absurd heq hcall
    · next heq => exact absurd heq hcreate
    · rfl

theorem Reaches.context_of_leaf (h : Reaches env start evm) (hleaf : Leaf start.code) :
    evm.context = start.context := by
  induction h with
  | refl => rfl
  | @tail b c hs hn ih =>
    cases hn with
    | step hrun hb =>
      have hframe := (frame_begin env hrun).2
      rw [hb] at hframe
      exact hframe.trans ih
    | enter hrun hb => exact absurd (begin_of_leaf (Reaches.leaf hs hleaf) hrun hb) (by simp)
    | resume hrun hb _ _ => exact absurd (begin_of_leaf (Reaches.leaf hs hleaf) hrun hb) (by simp)

/-- A frame whose bytecode starts no frames stays with its own account. -/
theorem touches_of_leaf (hleaf : Leaf start.code) :
    start.Touches env a ↔ start.context.address = a := by
  constructor
  · rintro (⟨h, ha⟩ | ⟨h, -, ha⟩)
    · rwa [Reaches.context_of_leaf h hleaf] at ha
    · rw [contact_of_leaf (Reaches.leaf h hleaf)] at ha
      cases ha
  · exact .own .refl

end Ethereum
