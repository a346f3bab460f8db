import Ethereum.Python
import Ethereum.Lib.Dict

/-! Accounts and the world state (`state/account.py`, `state/world_state.py`). The code
replaces an account by a modified deep copy, so accounts are values here. -/
namespace Ethereum

structure Account where
  nonce : Int := 0
  balance : Int := 0
  code : Bytes := []
  storage : Dict Int Int := .empty
  deriving DecidableEq

/-- `EMPTY_ACCOUNT` -/
def emptyAccount : Account := {}

structure WorldState where
  accounts : Dict Bytes Account
  deriving DecidableEq

namespace WorldState

variable (w : WorldState)

def getAccount (address : Bytes) : Account := w.accounts.getD address emptyAccount

def setAccount (address : Bytes) (account : Account) : WorldState :=
  ⟨w.accounts.set address account⟩

def getBalance (address : Bytes) : Int := (w.getAccount address).balance

def modifyAccount (address : Bytes) (modifier : Account → Account) : WorldState :=
  w.setAccount address (modifier (w.getAccount address))

def snapshot : Dict Bytes Account := w.accounts

def revert (_ : WorldState) (snapshot : Dict Bytes Account) : WorldState := ⟨snapshot⟩

def addBalance (address : Bytes) (amount : Int) : WorldState :=
  w.modifyAccount address fun a => { a with balance := a.balance + amount }

/-- Raises `ValueError`, here its message, instead of going below zero. -/
def deductBalance (address : Bytes) (amount : Int) : Except String WorldState :=
  let account := w.getAccount address
  if account.balance < amount then
    .error s!"Cannot deduct {amount} from balance {account.balance}"
  else .ok (w.modifyAccount address fun a => { a with balance := a.balance - amount })

def incrementNonce (address : Bytes) : WorldState :=
  w.modifyAccount address fun a => { a with nonce := a.nonce + 1 }

def transfer (sender recipient : Bytes) (amount : Int) : Except String WorldState :=
  if amount = 0 then .ok w
  else match w.deductBalance sender amount with
    | .error e => .error e
    | .ok w => .ok (w.addBalance recipient amount)

def setCode (address code : Bytes) : WorldState :=
  w.modifyAccount address fun a => { a with code }

def getStorage (address : Bytes) (key : Int) : Int := (w.getAccount address).storage.getD key 0

def setStorage (address : Bytes) (key value : Int) : WorldState :=
  w.modifyAccount address fun a => { a with storage := a.storage.set key value }

/-- `for key, value in storage.items(): world_state.set_storage(address, key, value)` -/
def persistStorage (address : Bytes) (storage : Dict Int Int) : WorldState :=
  storage.entries.foldl (fun w e => w.setStorage address e.1 e.2) w

/-- The sum of all account balances. -/
def totalBalance : Int := w.accounts.total Account.balance

def createGenesisState (alloc : Dict Bytes Int) : WorldState :=
  alloc.entries.foldl (fun w e => w.setAccount e.1 { balance := e.2 }) ⟨.empty⟩

variable {w} {w' : WorldState} {a b sender recipient : Bytes} {amount : Int}

/-- What holds of every stored account and of an absent one holds of all accounts. -/
theorem forall_getAccount {P : Account → Prop} (h0 : P emptyAccount)
    (h : ∀ e ∈ w.accounts.entries, P e.2) (a : Bytes) : P (w.getAccount a) := by
  unfold getAccount Dict.getD
  cases ha : w.accounts.get? a with
  | none => exact h0
  | some account => exact h (a, account) (Dict.mem_of_get? ha)

theorem getAccount_modifyAccount (a b : Bytes) (f : Account → Account) :
    (w.modifyAccount a f).getAccount b = if b = a then f (w.getAccount a) else w.getAccount b :=
  Dict.getD_set _ _ _ _ _

@[simp] theorem getAccount_modifyAccount_self (a : Bytes) (f : Account → Account) :
    (w.modifyAccount a f).getAccount a = f (w.getAccount a) := by
  simp [getAccount_modifyAccount]

theorem getAccount_modifyAccount_of_ne (h : b ≠ a) (f : Account → Account) :
    (w.modifyAccount a f).getAccount b = w.getAccount b := by
  simp [getAccount_modifyAccount, h]

/-- What a modification leaves alone in an account it leaves alone in all accounts. -/
theorem field_modifyAccount {α : Type} (field : Account → α) {f : Account → Account}
    (hf : ∀ x, field (f x) = field x) (a b : Bytes) :
    field ((w.modifyAccount a f).getAccount b) = field (w.getAccount b) := by
  rw [getAccount_modifyAccount]
  split
  · next h => rw [hf, h]
  · rfl

theorem field_addBalance {α : Type} (field : Account → α)
    (hf : ∀ x balance, field { x with balance } = field x) (a : Bytes) (amount : Int) (b : Bytes) :
    field ((w.addBalance a amount).getAccount b) = field (w.getAccount b) :=
  field_modifyAccount field (fun x => hf x _) a b

theorem field_incrementNonce {α : Type} (field : Account → α)
    (hf : ∀ x nonce, field { x with nonce } = field x) (a b : Bytes) :
    field ((w.incrementNonce a).getAccount b) = field (w.getAccount b) :=
  field_modifyAccount field (fun x => hf x _) a b

theorem field_setCode {α : Type} (field : Account → α)
    (hf : ∀ x code, field { x with code } = field x) (a code b : Bytes) :
    field ((w.setCode a code).getAccount b) = field (w.getAccount b) :=
  field_modifyAccount field (fun x => hf x _) a b

theorem modifyAccount_modifyAccount (a : Bytes) (f g : Account → Account) :
    (w.modifyAccount a f).modifyAccount a g = w.modifyAccount a fun x => g (f x) := by
  rw [modifyAccount, getAccount_modifyAccount_self]
  simp only [modifyAccount, setAccount, Dict.set_set]

theorem totalBalance_modifyAccount (a : Bytes) (f : Account → Account) :
    (w.modifyAccount a f).totalBalance =
      w.totalBalance - (w.getAccount a).balance + (f (w.getAccount a)).balance := by
  unfold totalBalance modifyAccount setAccount
  rw [Dict.total_set]
  congr 2
  unfold getAccount Dict.getD
  cases w.accounts.get? a <;> rfl

theorem totalBalance_addBalance (a : Bytes) (n : Int) :
    (w.addBalance a n).totalBalance = w.totalBalance + n := by
  unfold addBalance
  rw [totalBalance_modifyAccount]
  ring

/-- A deduction either raises or debits the account by an amount it holds. -/
theorem deductBalance_eq_ok_iff :
    w.deductBalance a amount = .ok w' ↔
      amount ≤ w.getBalance a ∧
        w' = w.modifyAccount a fun x => { x with balance := x.balance - amount } := by
  unfold deductBalance getBalance
  dsimp only
  split
  · next h => simp [h]
  · next h => simp [not_lt.mp h, eq_comm]

theorem deductBalance_of_le (h : amount ≤ w.getBalance a) :
    w.deductBalance a amount =
      .ok (w.modifyAccount a fun x => { x with balance := x.balance - amount }) :=
  deductBalance_eq_ok_iff.mpr ⟨h, rfl⟩

theorem deductBalance_of_lt (h : w.getBalance a < amount) :
    ∃ e, w.deductBalance a amount = .error e := by
  cases hd : w.deductBalance a amount with
  | error e => exact ⟨e, rfl⟩
  | ok w' => exact absurd (deductBalance_eq_ok_iff.mp hd).1 (not_le.mpr h)

/-- A transfer moves nothing, or moves what the sender holds. -/
theorem transfer_eq_ok_iff :
    w.transfer sender recipient amount = .ok w' ↔
      (amount = 0 ∧ w' = w) ∨ (amount ≠ 0 ∧ amount ≤ w.getBalance sender ∧
        w' = (w.modifyAccount sender fun x => { x with balance := x.balance - amount }).addBalance
          recipient amount) := by
  unfold transfer
  by_cases h0 : amount = 0
  · simp [h0, eq_comm]
  · rcases le_or_gt amount (w.getBalance sender) with hle | hlt
    · simp [h0, hle, deductBalance_of_le hle, eq_comm]
    · obtain ⟨e, he⟩ := deductBalance_of_lt hlt
      simp [h0, he, not_le.mpr hlt]

theorem transfer_of_lt (h0 : amount ≠ 0) (h : w.getBalance sender < amount) :
    ∃ e, w.transfer sender recipient amount = .error e := by
  obtain ⟨e, he⟩ := deductBalance_of_lt h
  exact ⟨e, by simp [transfer, h0, he]⟩

/-- What a transfer does to every account; sender and recipient may coincide. -/
theorem getAccount_transfer (h : w.transfer sender recipient amount = .ok w') (b : Bytes) :
    w'.getAccount b = { w.getAccount b with
      balance := (w.getAccount b).balance - (if b = sender then amount else 0) +
        (if b = recipient then amount else 0) } := by
  rcases transfer_eq_ok_iff.mp h with ⟨rfl, rfl⟩ | ⟨-, -, rfl⟩
  · simp
  · unfold addBalance
    by_cases hr : b = recipient <;> by_cases hs : b = sender <;>
      simp [getAccount_modifyAccount, hr, hs] <;> split <;> simp_all

theorem totalBalance_transfer (h : w.transfer sender recipient amount = .ok w') :
    w'.totalBalance = w.totalBalance := by
  rcases transfer_eq_ok_iff.mp h with ⟨-, rfl⟩ | ⟨-, -, rfl⟩
  · rfl
  · rw [totalBalance_addBalance, totalBalance_modifyAccount]
    ring

theorem getAccount_persistStorage (a : Bytes) (storage : Dict Int Int) :
    (w.persistStorage a storage).getAccount b =
      if b = a then { w.getAccount a with storage := (w.getAccount a).storage.update storage }
      else w.getAccount b := by
  unfold persistStorage Dict.update
  generalize storage.entries = l
  induction l generalizing w with
  | nil => split <;> simp_all
  | cons e l ih =>
    rw [List.foldl_cons, ih, setStorage, List.foldl_cons]
    split <;> simp_all [getAccount_modifyAccount]

theorem field_persistStorage {α : Type} (field : Account → α)
    (hf : ∀ x storage, field { x with storage } = field x) (a : Bytes) (storage : Dict Int Int)
    (b : Bytes) : field ((w.persistStorage a storage).getAccount b) = field (w.getAccount b) := by
  rw [getAccount_persistStorage]
  split
  · next h => rw [hf, h]
  · rfl

theorem totalBalance_persistStorage (a : Bytes) (storage : Dict Int Int) :
    (w.persistStorage a storage).totalBalance = w.totalBalance := by
  unfold persistStorage
  generalize storage.entries = l
  induction l generalizing w with
  | nil => rfl
  | cons e l ih =>
    rw [List.foldl_cons, ih, setStorage, totalBalance_modifyAccount]
    ring

theorem totalBalance_setCode (a code : Bytes) :
    (w.setCode a code).totalBalance = w.totalBalance := by
  rw [setCode, totalBalance_modifyAccount]
  ring

theorem totalBalance_incrementNonce (a : Bytes) :
    (w.incrementNonce a).totalBalance = w.totalBalance := by
  rw [incrementNonce, totalBalance_modifyAccount]
  ring

end WorldState

end Ethereum
