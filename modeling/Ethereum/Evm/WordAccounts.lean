import Ethereum.Evm.Effects
import Ethereum.Evm.WordArithmetic

/-! World states that show a ledger of words, and operations on both. -/
namespace Ethereum

open WordMachine

def ShowsCells (storage : Dict Int Int) (cells : Cells) : Prop :=
  ∀ k : U256, storage.get? k.toNat = (cells k).map fun v => (v.toNat : Int)

structure ShowsAccount (x : Account) (y : WordAccount) : Prop where
  nonce : x.nonce = y.nonce
  balance : x.balance = y.balance
  code : x.code = y.code
  short : Short y.code
  cells : ShowsCells x.storage y.cells

def ShowsWorld (w : WorldState) (v : WordWorld) : Prop := ∀ a, ShowsAccount (w.getAccount a) (v a)

/-- The cells that a storage shows. -/
def cellsOf (storage : Dict Int Int) : Cells :=
  fun k => (storage.get? k.toNat).map fun v => .ofNat 256 v.toNat

/-- The ledger that a world state shows. -/
def wordsOf (w : WorldState) : WordWorld := fun a =>
  { nonce := (w.getAccount a).nonce.toNat
    balance := (w.getBalance a).toNat
    code := (w.getAccount a).code
    cells := cellsOf (w.getAccount a).storage }

section Cells

variable {storage storage' : Dict Int Int} {cells cells' : Cells}

theorem showsCells_empty : ShowsCells .empty fun _ => none := fun _ => rfl

theorem ShowsCells.stands (h : ShowsCells storage cells) (k : U256) :
    Stands (storage.getD k.toNat 0) ((cells k).getD 0) := by
  rw [Dict.getD, h k]
  cases cells k <;> rfl

theorem showsCells_cellsOf (h : WordValued storage) : ShowsCells storage (cellsOf storage) := by
  intro k
  rw [cellsOf]
  cases hk : storage.get? k.toNat with
  | none => rfl
  | some v => exact congrArg some (stands_word (h k.toNat v hk))

theorem natCast_toNat_inj {j k : U256} : (j.toNat : Int) = k.toNat ↔ j = k :=
  Int.ofNat_inj.trans BitVec.toNat_inj

theorem ShowsCells.set (h : ShowsCells storage cells) (k v : U256) :
    ShowsCells (storage.set k.toNat v.toNat) (Function.update cells k (some v)) := by
  intro j
  rw [Dict.get?_set, Function.update_apply]
  by_cases hj : j = k
  · rw [if_pos (natCast_toNat_inj.mpr hj), if_pos hj]
    rfl
  · rw [if_neg (mt natCast_toNat_inj.mp hj), if_neg hj]
    exact h j

theorem ShowsCells.update (h : ShowsCells storage cells) (h' : ShowsCells storage' cells') :
    ShowsCells (storage.update storage') fun k => (cells' k).or (cells k) := by
  intro k
  rw [Dict.get?_update, h k, h' k]
  exact Option.map_or.symm

end Cells

namespace ShowsWorld

variable {w : WorldState} {v : WordWorld}

theorem of_inRange (hr : w.InRange) (hs : w.Solvent) (hn : ∀ a, 0 ≤ (w.getAccount a).nonce) :
    ShowsWorld w (wordsOf w) := fun a =>
  { nonce := (Int.toNat_of_nonneg (hn a)).symm
    balance := (Int.toNat_of_nonneg (hs a)).symm
    code := rfl
    short := hr.code a
    cells := showsCells_cellsOf (hr.storage a) }

theorem modify (h : ShowsWorld w v) {a : Bytes} {f : Account → Account}
    {g : WordAccount → WordAccount}
    (hfg : ShowsAccount (w.getAccount a) (v a) → ShowsAccount (f (w.getAccount a)) (g (v a))) :
    ShowsWorld (w.modifyAccount a f) (v.modify a g) := by
  intro b
  rw [WorldState.getAccount_modifyAccount, WordWorld.modify, Function.update_apply]
  split
  · exact hfg (h a)
  · exact h b

theorem bump (h : ShowsWorld w v) (a : Bytes) : ShowsWorld (w.incrementNonce a) (v.bump a) :=
  h.modify fun ha => { ha with nonce := congrArg (· + 1) ha.nonce }

theorem credit (h : ShowsWorld w v) (a : Bytes) (amount : Nat) :
    ShowsWorld (w.addBalance a amount) (v.credit a amount) :=
  h.modify fun ha => { ha with balance := congrArg (· + (amount : Int)) ha.balance }

theorem debit (h : ShowsWorld w v) {a : Bytes} {amount : Nat} (hle : amount ≤ (v a).balance) :
    ShowsWorld (w.modifyAccount a fun x => { x with balance := x.balance - amount })
      (v.debit a amount) := by
  refine h.modify fun ha => { ha with balance := ?_ }
  dsimp only
  rw [ha.balance]
  omega

/-- An account that comes into being shows nothing new. -/
theorem touch (h : ShowsWorld w v) (a : Bytes) : ShowsWorld (w.addBalance a 0) v := by
  intro b
  rw [getAccount_touch]
  exact h b

theorem deploy (h : ShowsWorld w v) (a : Bytes) {code : Bytes} (hcode : Short code) :
    ShowsWorld (w.setCode a code) (v.deploy a code) :=
  h.modify fun ha => { ha with code := rfl, short := hcode }

theorem persist (h : ShowsWorld w v) (a : Bytes) {storage : Dict Int Int} {cells : Cells}
    (hcells : ShowsCells storage cells) :
    ShowsWorld (w.persistStorage a storage) (v.persist a cells) := by
  intro b
  rw [WorldState.getAccount_persistStorage, WordWorld.persist, WordWorld.modify,
    Function.update_apply]
  split
  · exact { h a with cells := (h a).cells.update hcells }
  · exact h b

theorem debit_zero (v : WordWorld) (a : Bytes) : v.debit a 0 = v :=
  Function.update_eq_self a v

theorem credit_zero (v : WordWorld) (a : Bytes) : v.credit a 0 = v :=
  Function.update_eq_self a v

/-- How a payment ends in both. -/
inductive Paid (w : WorldState) (v : WordWorld) (sender recipient : Bytes) (value : Nat) : Prop
  | refused {e} (hw : payValue w sender recipient value = .error e)
      (hv : v.pay sender recipient value = none)
  | paid {w' v'} (hw : payValue w sender recipient value = .ok w')
      (hv : v.pay sender recipient value = some v') (h : ShowsWorld w' v')

theorem pay (h : ShowsWorld w v) (sender recipient : Bytes) (value : Nat) :
    Paid w v sender recipient value := by
  have hbalance : w.getBalance sender = (v sender).balance := (h sender).balance
  rcases Nat.eq_zero_or_pos value with rfl | hpos
  · refine .paid rfl ?_ h
    rw [WordWorld.pay, if_neg (Nat.not_lt_zero _), debit_zero, credit_zero]
  have hpos' : 0 < (value : Int) := by omega
  rcases Nat.lt_or_ge (v sender).balance value with hlt | hle
  · have hlt' : w.getBalance sender < value := by omega
    obtain ⟨e, he⟩ : ∃ e, w.transfer sender recipient value = .error e :=
      WorldState.transfer_of_lt hpos'.ne' hlt'
    exact .refused ((if_pos hpos').trans he) (if_pos hlt)
  · have hle' : (value : Int) ≤ w.getBalance sender := by omega
    have htransfer : w.transfer sender recipient value = .ok _ :=
      WorldState.transfer_eq_ok_iff.mpr (.inr ⟨hpos'.ne', hle', rfl⟩)
    exact .paid ((if_pos hpos').trans htransfer) (if_neg (Nat.not_lt.mpr hle))
      ((h.debit hle).credit recipient value)

end ShowsWorld

end Ethereum
