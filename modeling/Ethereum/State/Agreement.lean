import Ethereum.Lib.Machine
import Ethereum.State.StateRoot

/-! World states that hold the same accounts, at all addresses or at those that an operation
gets to, and the operations that cannot tell them apart. -/
namespace Ethereum

open Locality

theorem Account.Same.refl (x : Account) : x.Same x := ⟨⟨rfl, rfl, rfl⟩, fun _ => rfl⟩

theorem Account.Same.symm {x y : Account} (h : x.Same y) : y.Same x :=
  ⟨⟨h.nonce.symm, h.balance.symm, h.code.symm⟩, fun key => (h.storage key).symm⟩

theorem Account.Same.trans {x y z : Account} (h : x.Same y) (h' : y.Same z) : x.Same z :=
  ⟨⟨h.nonce.trans h'.nonce, h.balance.trans h'.balance, h.code.trans h'.code⟩,
    fun key => (h.storage key).trans (h'.storage key)⟩

/-- Two results of an operation that may raise. -/
inductive Alike (S : WorldState → WorldState → Prop) :
    Except String WorldState → Except String WorldState → Prop
  | error (message : String) : Alike S (.error message) (.error message)
  | ok {w w' : WorldState} (h : S w w') : Alike S (.ok w) (.ok w')

namespace WorldState

/-- The same account at an address; an absent account counts as an empty one. -/
def SameAt (a : Bytes) (w w' : WorldState) : Prop := (w.getAccount a).Same (w'.getAccount a)

/-- The same account at an address, and listed in both or in neither. -/
def SameEntryAt (a : Bytes) (w w' : WorldState) : Prop :=
  Option.Rel Account.Same (w.accounts.get? a) (w'.accounts.get? a)

/-- The same account at every address. -/
def SameAccounts (w w' : WorldState) : Prop := ∀ a, SameAt a w w'

/-- A relation that shows in no account of the set `A`, and that no operation on these accounts
breaks. -/
structure Congruence (A : Set Bytes) (S : WorldState → WorldState → Prop) : Prop where
  account : ∀ {w w'}, S w w' → ∀ a ∈ A, SameAt a w w'
  modify : ∀ {w w'}, S w w' → ∀ a ∈ A, ∀ {f g : Account → Account},
    (∀ x y, x.Same y → (f x).Same (g y)) → S (w.modifyAccount a f) (w'.modifyAccount a g)
  persist : ∀ {w w'}, S w w' → ∀ a ∈ A, ∀ {storage storage' : Dict Int Int},
    (∀ key, storage.get? key = storage'.get? key) →
    S (w.persistStorage a storage) (w'.persistStorage a storage')

section Congruence

variable {A : Set Bytes} {S : WorldState → WorldState → Prop} {w w' : WorldState} {a : Bytes}

theorem Congruence.getBalance (hS : Congruence A S) (h : S w w') (ha : a ∈ A) :
    w.getBalance a = w'.getBalance a :=
  (hS.account h a ha).balance

theorem Congruence.addBalance (hS : Congruence A S) (h : S w w') (ha : a ∈ A) (amount : Int) :
    S (w.addBalance a amount) (w'.addBalance a amount) := by
  apply hS.modify h a ha
  intro x y hxy
  exact ⟨⟨hxy.nonce, congrArg (· + amount) hxy.balance, hxy.code⟩, hxy.storage⟩

theorem Congruence.incrementNonce (hS : Congruence A S) (h : S w w') (ha : a ∈ A) :
    S (w.incrementNonce a) (w'.incrementNonce a) := by
  apply hS.modify h a ha
  intro x y hxy
  exact ⟨⟨congrArg (· + 1) hxy.nonce, hxy.balance, hxy.code⟩, hxy.storage⟩

theorem Congruence.setCode (hS : Congruence A S) (h : S w w') (ha : a ∈ A) (code : Bytes) :
    S (w.setCode a code) (w'.setCode a code) := by
  apply hS.modify h a ha
  intro x y hxy
  exact ⟨⟨hxy.nonce, hxy.balance, rfl⟩, hxy.storage⟩

theorem Congruence.deductBalance (hS : Congruence A S) (h : S w w') (ha : a ∈ A) (amount : Int) :
    Alike S (w.deductBalance a amount) (w'.deductBalance a amount) := by
  have hbalance : (w.getAccount a).balance = (w'.getAccount a).balance := hS.getBalance h ha
  unfold WorldState.deductBalance
  dsimp only
  rw [hbalance]
  split
  · exact .error _
  · refine .ok (hS.modify h a ha fun x y hxy => ?_)
    exact ⟨⟨hxy.nonce, congrArg (· - amount) hxy.balance, hxy.code⟩, hxy.storage⟩

theorem Congruence.transfer (hS : Congruence A S) (h : S w w') {sender recipient : Bytes}
    (hsender : sender ∈ A) (hrecipient : recipient ∈ A) (amount : Int) :
    Alike S (w.transfer sender recipient amount) (w'.transfer sender recipient amount) := by
  unfold WorldState.transfer
  split
  · exact .ok h
  · have hdeduct := hS.deductBalance h hsender amount
    generalize w.deductBalance sender amount = r, w'.deductBalance sender amount = r' at hdeduct ⊢
    cases hdeduct with
    | error message => exact .error message
    | ok h => exact .ok (hS.addBalance h hrecipient amount)

end Congruence

section Instances

variable {w w' : WorldState}

theorem get?_update_congr {d d' other other' : Dict Int Int}
    (hd : ∀ key, d.get? key = d'.get? key) (ho : ∀ key, other.get? key = other'.get? key)
    (key : Int) : (d.update other).get? key = (d'.update other').get? key := by
  rw [Dict.get?_update, Dict.get?_update, hd, ho]

/-- Which accounts are listed. -/
def Lists (w : WorldState) (a : Bytes) : Prop := (w.accounts.get? a).isSome = true

theorem lists_modifyAccount (w : WorldState) (a b : Bytes) (f : Account → Account) :
    (w.modifyAccount a f).Lists b ↔ b = a ∨ w.Lists b := by
  unfold Lists modifyAccount setAccount
  rw [Dict.get?_set]
  split
  · next h => simp [h]
  · next h => simp [h]

/-- Storage is written to an account that is then listed, if there is any to write. -/
theorem lists_persistStorage (w : WorldState) (a b : Bytes) (storage : Dict Int Int) :
    (w.persistStorage a storage).Lists b ↔
      (b = a ∧ ∃ key, storage.get? key ≠ none) ∨ w.Lists b := by
  have hkeys : (∃ key, storage.get? key ≠ none) ↔ storage.entries ≠ [] := by
    constructor
    · rintro ⟨key, hkey⟩ hnil
      apply hkey
      rw [Dict.get?, hnil]
      rfl
    · intro hne
      obtain ⟨⟨key, value⟩, hmem⟩ := List.exists_mem_of_ne_nil _ hne
      refine ⟨key, ?_⟩
      rw [Dict.get?_of_mem hmem]
      exact Option.some_ne_none value
  rw [hkeys]
  unfold persistStorage
  generalize storage.entries = l
  induction l generalizing w with
  | nil => simp
  | cons e l ih =>
    rw [List.foldl_cons]
    refine (ih _).trans ?_
    rw [setStorage, lists_modifyAccount]
    simp only [ne_eq, reduceCtorEq, not_false_eq_true, and_true]
    tauto

theorem sameEntryAt_iff {a : Bytes} :
    SameEntryAt a w w' ↔ SameAt a w w' ∧ (w.Lists a ↔ w'.Lists a) := by
  unfold SameEntryAt SameAt Lists getAccount Dict.getD
  generalize w.accounts.get? a = x, w'.accounts.get? a = y
  cases x with
  | none => cases y <;> simp [Account.Same.refl]
  | some x => cases y <;> simp

end Instances

section Within

/-- A way in which two world states can be the same at an address, which is kept by what changes
the account there in both and by what changes another account. -/
structure Pointwise (P : Bytes → WorldState → WorldState → Prop) : Prop where
  equivalence : ∀ a, Equivalence (P a)
  account : ∀ {a w w'}, P a w w' → SameAt a w w'
  modify : ∀ {a w w'} {f g : Account → Account}, P a w w' →
    (∀ x y, x.Same y → (f x).Same (g y)) → P a (w.modifyAccount a f) (w'.modifyAccount a g)
  modify_other : ∀ {a b w} {f : Account → Account}, b ≠ a → P b w (w.modifyAccount a f)
  persist : ∀ {a w w'} {storage storage' : Dict Int Int}, P a w w' →
    (∀ key, storage.get? key = storage'.get? key) →
    P a (w.persistStorage a storage) (w'.persistStorage a storage')
  persist_other : ∀ {a b w} {storage : Dict Int Int}, b ≠ a → P b w (w.persistStorage a storage)

theorem pointwise_sameAt : Pointwise SameAt where
  equivalence _ := ⟨fun _ => Account.Same.refl _, Account.Same.symm, Account.Same.trans⟩
  account h := h
  modify {a w w' f g} h hfg := by
    unfold SameAt
    rw [getAccount_modifyAccount_self, getAccount_modifyAccount_self]
    exact hfg _ _ h
  modify_other {a b w f} hb := by
    unfold SameAt
    rw [getAccount_modifyAccount_of_ne hb]
    exact Account.Same.refl _
  persist {a w w' storage storage'} h hstorage := by
    unfold SameAt
    rw [getAccount_persistStorage, getAccount_persistStorage, if_pos rfl, if_pos rfl]
    exact ⟨⟨h.nonce, h.balance, h.code⟩, get?_update_congr h.storage hstorage⟩
  persist_other {a b w storage} hb := by
    unfold SameAt
    rw [getAccount_persistStorage, if_neg hb]
    exact Account.Same.refl _

theorem pointwise_sameEntryAt : Pointwise SameEntryAt where
  equivalence a := by
    constructor
    · intro w
      exact sameEntryAt_iff.mpr ⟨Account.Same.refl _, Iff.rfl⟩
    · intro w w' h
      obtain ⟨hsame, hlists⟩ := sameEntryAt_iff.mp h
      exact sameEntryAt_iff.mpr ⟨Account.Same.symm hsame, hlists.symm⟩
    · intro w w' w'' h h'
      obtain ⟨hsame, hlists⟩ := sameEntryAt_iff.mp h
      obtain ⟨hsame', hlists'⟩ := sameEntryAt_iff.mp h'
      exact sameEntryAt_iff.mpr ⟨Account.Same.trans hsame hsame', hlists.trans hlists'⟩
  account h := (sameEntryAt_iff.mp h).1
  modify {a w w' f g} h hfg := by
    obtain ⟨hsame, -⟩ := sameEntryAt_iff.mp h
    refine sameEntryAt_iff.mpr ⟨pointwise_sameAt.modify hsame hfg, ?_⟩
    simp only [lists_modifyAccount, true_or]
  modify_other {a b w f} hb := by
    refine sameEntryAt_iff.mpr ⟨pointwise_sameAt.modify_other hb, ?_⟩
    simp only [lists_modifyAccount, hb, false_or]
  persist {a w w' storage storage'} h hstorage := by
    obtain ⟨hsame, hlists⟩ := sameEntryAt_iff.mp h
    refine sameEntryAt_iff.mpr ⟨pointwise_sameAt.persist hsame hstorage, ?_⟩
    simp only [lists_persistStorage, hlists, hstorage]
  persist_other {a b w storage} hb := by
    refine sameEntryAt_iff.mpr ⟨pointwise_sameAt.persist_other hb, ?_⟩
    simp only [lists_persistStorage, hb, false_and, false_or]

/-- Two world states that are the same within the set `A`, each as it was before outside. -/
structure Within (P : Bytes → WorldState → WorldState → Prop) (A : Set Bytes)
    (w₀ w₀' w w' : WorldState) : Prop where
  inside : SameOn P A w w'
  left : SameOn P Aᶜ w₀ w
  right : SameOn P Aᶜ w₀' w'

variable {P : Bytes → WorldState → WorldState → Prop} {A : Set Bytes}
  {w w' w₁ w₁' w₀ w₀' : WorldState}

theorem Pointwise.within_refl (hP : Pointwise P) (h : SameOn P A w w') :
    Within P A w w' w w' where
  inside := h
  left a _ := (hP.equivalence a).refl w
  right a _ := (hP.equivalence a).refl w'

/-- A change of the account at an address of `A` in both world states. -/
theorem Pointwise.within_step (hP : Pointwise P) (h : Within P A w₀ w₀' w w') {a : Bytes}
    (ha : a ∈ A) (hself : P a w w' → P a w₁ w₁') (hleft : ∀ b, b ≠ a → P b w w₁)
    (hright : ∀ b, b ≠ a → P b w' w₁') : Within P A w₀ w₀' w₁ w₁' where
  inside b hb := by
    by_cases hab : b = a
    · subst hab
      exact hself (h.inside b hb)
    · have heq := hP.equivalence b
      exact heq.trans (heq.symm (hleft b hab)) (heq.trans (h.inside b hb) (hright b hab))
  left b hb := (hP.equivalence b).trans (h.left b hb) (hleft b fun hab => hb (hab ▸ ha))
  right b hb := (hP.equivalence b).trans (h.right b hb) (hright b fun hab => hb (hab ▸ ha))

theorem congruence_within (hP : Pointwise P) (A : Set Bytes) (w₀ w₀' : WorldState) :
    Congruence A (Within P A w₀ w₀') where
  account h a ha := hP.account (h.inside a ha)
  modify h _ ha _ _ hfg := hP.within_step h ha (fun hself => hP.modify hself hfg)
    (fun _ hb => hP.modify_other hb) fun _ hb => hP.modify_other hb
  persist h _ ha _ _ hstorage := hP.within_step h ha (fun hself => hP.persist hself hstorage)
    (fun _ hb => hP.persist_other hb) fun _ hb => hP.persist_other hb

end Within

end WorldState

end Ethereum
