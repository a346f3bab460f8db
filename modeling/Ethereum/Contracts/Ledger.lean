import Ethereum.Contracts.Contract
import Ethereum.Contracts.CounterRuns
import Ethereum.Contracts.Deployment
import Ethereum.Core.Exact
import Ethereum.Core.PlainTransfer

/-! The system without bytecode: a ledger of accounts with known contracts, and that the state
transition of the code refines it over any sequence of transactions. -/
namespace Ethereum

open Stateful Machine

/-- What an account holds, with its contract in place of its bytecode. -/
structure Holding where
  nonce : Int := 0
  balance : Int := 0
  contract : Option Contract := none
  slots : SlotMap := .empty

abbrev Ledger := Bytes → Holding

/-- An account of the world state that holds this. -/
structure Holding.Shows (x : Holding) (account : Account) : Prop where
  nonce : account.nonce = x.nonce
  balance : account.balance = x.balance
  code : account.code = x.contract.elim [] Contract.code
  slots : x.slots.Shows account.storage

/-- The init codes of contracts. -/
structure Catalog where
  contractOf : Bytes → Option Contract
  initCode : ∀ data K, contractOf data = some K → buildInitCode K.code = .ok data

theorem exists_initCode (K : Contract) :
    ∃ initCode, buildInitCode K.code = .ok initCode ∧ initCode.length ≤ 267 := by
  obtain ⟨n, -, hbuild⟩ := buildInitCode_of_le K.short
  have hshort := K.short
  refine ⟨_, hbuild, ?_⟩
  rw [List.length_append]
  exact Nat.add_le_add_left hshort 12

/-- One contract. -/
def Catalog.single (K : Contract) : Catalog where
  contractOf data := if (buildInitCode K.code).toOption = some data then some K else none
  initCode data K' h := by
    split at h
    · next hdata =>
      cases h
      cases hbuild : buildInitCode K.code with
      | error e =>
        rw [hbuild] at hdata
        cases hdata
      | ok code =>
        rw [hbuild] at hdata
        exact congrArg Except.ok (Option.some.inj hdata)
    · cases h

theorem Catalog.contractOf_single {K : Contract} {data : Bytes}
    (h : buildInitCode K.code = .ok data) : (Catalog.single K).contractOf data = some K := by
  simp only [Catalog.single, h, Except.toOption, if_true]

namespace Ledger

/-- The world state holds what the ledger says, at every address. -/
def Shows (L : Ledger) (w : WorldState) : Prop := ∀ a, (L a).Shows (w.getAccount a)

variable (L : Ledger)

def credit (a : Bytes) (amount : Int) : Ledger := fun b =>
  { L b with balance := (L b).balance + if b = a then amount else 0 }

def store (a : Bytes) (slots : SlotMap) : Ledger := fun b =>
  { L b with slots := if b = a then slots else (L b).slots }

def install (a : Bytes) (K : Contract) : Ledger := fun b =>
  { L b with contract := if b = a then some K else (L b).contract }

/-- The sender uses its nonce and pays the value and the gas that was used. -/
def settle (tx : Transaction) (sender recipient : Bytes) (value used : Int) : Ledger := fun a =>
  { L a with
    nonce := (L a).nonce + if a = sender then 1 else 0
    balance := (L a).balance + ((if a = recipient then value else 0) -
      if a = sender then value + used * tx.gasPrice else 0) }

/-- A transaction that fails: the sender pays for all gas. -/
def fail (tx : Transaction) (sender returnData : Bytes) : TransactionResult × Ledger :=
  (tx.failed returnData, L.settle tx sender sender 0 tx.gas)

/-- A payment, or a call of the contract at the recipient. -/
def message (tx : Transaction) (sender : Bytes) : TransactionResult × Ledger :=
  match (L tx.to).contract with
  | none =>
    (tx.transferResult, L.settle tx sender tx.to tx.value (calculateIntrinsicGas tx.data))
  | some K =>
    let cost := K.gas sender tx.data (L tx.to).slots
    let reply := K.call sender tx.data (L tx.to).slots
    if tx.executionGas < cost then L.fail tx sender []
    else if reply.success then
      (tx.succeeded cost reply.returnData none,
        (L.settle tx sender tx.to tx.value (calculateIntrinsicGas tx.data + cost)).store tx.to
          reply.slots)
    else L.fail tx sender reply.returnData

/-- A creation; other init code than that of the catalog is not covered. -/
def creation (catalog : Catalog) (tx : Transaction) (sender a : Bytes) :
    TransactionResult × Ledger :=
  match catalog.contractOf tx.data with
  | none => L.fail tx sender []
  | some K =>
    let cost := totalCost headerOps
    if tx.executionGas < cost then L.fail tx sender []
    else
      (tx.succeeded cost K.code (some a),
        (L.settle tx sender a tx.value (calculateIntrinsicGas tx.data + cost)).install a K)

/-- The checks of a transaction, by the ledger. -/
def validate (env : Env) (tx : Transaction) (blockGasLimit : Int) :
    Except TransactionError Bytes :=
  match recoverSender env tx with
  | .error reason => .error (.invalidSignature reason)
  | .ok sender =>
    let totalCost := tx.value + tx.gas * tx.gasPrice
    let intrinsic := calculateIntrinsicGas tx.data
    if (L sender).nonce ≠ tx.nonce then .error (.invalidNonce (L sender).nonce tx.nonce)
    else if (L sender).balance < totalCost then
      .error (.insufficientBalance totalCost (L sender).balance)
    else if tx.gas > blockGasLimit then .error (.exceedsBlockGasLimit tx.gas blockGasLimit)
    else if tx.gas < intrinsic then .error (.intrinsicGasTooLow intrinsic tx.gas)
    else .ok sender

/-- What a call of `apply_transaction` with a block gas limit comes to. -/
def apply (env : Env) (catalog : Catalog) (L : Ledger) (entry : Transaction × Int) :
    Except Abort TransactionResult × Ledger :=
  match L.validate env entry.1 entry.2 with
  | .error e => (.error (.raised (.transactionError e)), L)
  | .ok sender =>
    let r :=
      if entry.1.to = [] then
        match computeContractAddress env sender entry.1.nonce with
        | .error _ => L.fail entry.1 sender []
        | .ok a => L.creation catalog entry.1 sender a
      else L.message entry.1 sender
    (.ok r.1, r.2)

end Ledger

section Accounts

variable {L : Ledger} {w w' : WorldState} {tx : Transaction} {sender recipient a : Bytes}
  {amount value used remaining : Int} {storage : Dict Int Int} {slots : SlotMap} {K : Contract}

theorem Ledger.Shows.validate (h : L.Shows w) (env : Env) (tx : Transaction)
    (blockGasLimit : Int) :
    L.validate env tx blockGasLimit = validateTransaction env tx w blockGasLimit := by
  unfold Ledger.validate validateTransaction
  cases recoverSender env tx with
  | error reason => rfl
  | ok sender =>
    dsimp only
    rw [(h sender).nonce, (h sender).balance]

theorem shows_credit (h : L.Shows w) : (L.credit a amount).Shows (w.addBalance a amount) := by
  intro b
  refine ⟨?_, ?_, ?_, ?_⟩
  · exact (WorldState.field_addBalance Account.nonce (fun _ _ => rfl) a amount b).trans (h b).nonce
  · rw [WorldState.addBalance, WorldState.getAccount_modifyAccount]
    split
    · next hb =>
      subst hb
      simp only [Ledger.credit, if_true, (h b).balance]
    · next hb => simp only [Ledger.credit, if_neg hb, add_zero, (h b).balance]
  · exact (WorldState.field_addBalance Account.code (fun _ _ => rfl) a amount b).trans (h b).code
  · have hstorage : ((w.addBalance a amount).getAccount b).storage = (w.getAccount b).storage :=
      WorldState.field_addBalance Account.storage (fun _ _ => rfl) a amount b
    rw [hstorage]
    exact (h b).slots

theorem shows_bill (h : L.Shows w) :
    (L.settle tx sender sender 0 tx.gas).Shows (w.bill tx sender) := by
  intro b
  by_cases hb : b = sender
  · subst hb
    rw [getAccount_bill_self]
    refine ⟨?_, ?_, (h b).code, (h b).slots⟩
    · simp only [Ledger.settle, if_true, (h b).nonce]
    · simp only [Ledger.settle, if_true, (h b).balance]
      omega
  · rw [getAccount_bill_of_ne hb]
    refine ⟨?_, ?_, (h b).code, (h b).slots⟩
    · simp only [Ledger.settle, if_neg hb, add_zero, (h b).nonce]
    · simp only [Ledger.settle, if_neg hb, sub_zero, add_zero, (h b).balance]

theorem shows_payValue (h : L.Shows w) (h0 : 0 ≤ value)
    (hpay : payValue w sender recipient value = .ok w') :
    ((L.credit sender (-value)).credit recipient value).Shows w' := by
  have haccount : ∀ b, w'.getAccount b = { w.getAccount b with
      balance := (w.getAccount b).balance - (if b = sender then value else 0) +
        (if b = recipient then value else 0) } := by
    intro b
    unfold payValue at hpay
    split at hpay
    · exact WorldState.getAccount_transfer hpay b
    · obtain rfl : value = 0 := by omega
      cases hpay
      simp
  intro b
  rw [haccount]
  refine ⟨(h b).nonce, ?_, (h b).code, (h b).slots⟩
  simp only [Ledger.credit, (h b).balance]
  split <;> simp [sub_eq_add_neg]

theorem shows_refund (h : L.Shows w) (h0 : 0 ≤ remaining * tx.gasPrice) :
    (L.credit sender (remaining * tx.gasPrice)).Shows (w.refund tx sender remaining) := by
  unfold WorldState.refund
  split
  · exact shows_credit h
  · next hpos =>
    have hzero : remaining * tx.gasPrice = 0 := by omega
    have hsame : L.credit sender (remaining * tx.gasPrice) = L := by
      funext b
      simp [Ledger.credit, hzero]
    rw [hsame]
    exact h

theorem shows_persistStorage (h : L.Shows w) (hslots : slots.Shows storage)
    (hkeys : ∀ k, storage.get? k = none → (w.getAccount a).storage.get? k = none) :
    (L.store a slots).Shows (w.persistStorage a storage) := by
  have hget := Dict.get?_update_of_subset hkeys
  intro b
  rw [WorldState.getAccount_persistStorage]
  split
  · next hb =>
    subst hb
    refine ⟨(h b).nonce, (h b).balance, (h b).code, fun k => ?_⟩
    simp only [Ledger.store, if_true]
    rw [← hslots k, Dict.getD, hget k, Dict.getD]
  · next hb =>
    refine ⟨(h b).nonce, (h b).balance, (h b).code, ?_⟩
    simp only [Ledger.store, if_neg hb]
    exact (h b).slots

theorem shows_setStorage {k v u : Int} (h : L.Shows w) (hv : u = v % 2 ^ 256) :
    (L.store a ((L a).slots.set k v)).Shows (w.setStorage a k u) := by
  intro b
  rw [WorldState.setStorage, WorldState.getAccount_modifyAccount]
  split
  · next hb =>
    subst hb
    refine ⟨(h b).nonce, (h b).balance, (h b).code, ?_⟩
    simp only [Ledger.store, if_true]
    exact (h b).slots.set hv
  · next hb =>
    refine ⟨(h b).nonce, (h b).balance, (h b).code, ?_⟩
    simp only [Ledger.store, if_neg hb]
    exact (h b).slots

theorem shows_setCode (h : L.Shows w) : (L.install a K).Shows (w.setCode a K.code) := by
  intro b
  rw [WorldState.setCode, WorldState.getAccount_modifyAccount]
  split
  · next hb =>
    subst hb
    refine ⟨(h b).nonce, (h b).balance, ?_, (h b).slots⟩
    simp only [Ledger.install, if_true, Option.elim_some]
  · next hb =>
    refine ⟨(h b).nonce, (h b).balance, ?_, (h b).slots⟩
    simp only [Ledger.install, if_neg hb]
    exact (h b).code

theorem Ledger.message_of_unpaid (hK : (L tx.to).contract = some K)
    (hunpaid : tx.executionGas < K.gas sender tx.data (L tx.to).slots) :
    L.message tx sender = L.fail tx sender [] := by
  unfold Ledger.message
  rw [hK]
  exact if_pos hunpaid

theorem Ledger.message_of_failure (hK : (L tx.to).contract = some K)
    (hpaid : K.gas sender tx.data (L tx.to).slots ≤ tx.executionGas)
    (hsuccess : (K.call sender tx.data (L tx.to).slots).success = false) :
    L.message tx sender =
      L.fail tx sender (K.call sender tx.data (L tx.to).slots).returnData := by
  unfold Ledger.message
  rw [hK]
  dsimp only
  rw [if_neg (not_lt.mpr hpaid), hsuccess, if_neg Bool.false_ne_true]

/-- A call that the gas covers and the contract accepts. -/
theorem Ledger.message_of_success (hK : (L tx.to).contract = some K)
    (hpaid : K.gas sender tx.data (L tx.to).slots ≤ tx.executionGas)
    (hsuccess : (K.call sender tx.data (L tx.to).slots).success = true) :
    L.message tx sender =
      (tx.succeeded (K.gas sender tx.data (L tx.to).slots)
        (K.call sender tx.data (L tx.to).slots).returnData none,
      (L.settle tx sender tx.to tx.value
        (calculateIntrinsicGas tx.data + K.gas sender tx.data (L tx.to).slots)).store tx.to
          (K.call sender tx.data (L tx.to).slots).slots) := by
  unfold Ledger.message
  rw [hK]
  dsimp only
  rw [if_neg (not_lt.mpr hpaid), if_pos hsuccess]

theorem Ledger.creation_of_unpaid {catalog : Catalog} (hK : catalog.contractOf tx.data = some K)
    (hunpaid : tx.executionGas < totalCost headerOps) :
    L.creation catalog tx sender a = L.fail tx sender [] := by
  unfold Ledger.creation
  rw [hK]
  exact if_pos hunpaid

theorem Ledger.creation_of_success {catalog : Catalog} (hK : catalog.contractOf tx.data = some K)
    (hpaid : totalCost headerOps ≤ tx.executionGas) :
    L.creation catalog tx sender a =
      (tx.succeeded (totalCost headerOps) K.code (some a),
      (L.settle tx sender a tx.value
        (calculateIntrinsicGas tx.data + totalCost headerOps)).install a K) := by
  unfold Ledger.creation
  rw [hK]
  dsimp only
  rw [if_neg (not_lt.mpr hpaid)]

/-- Gas that is paid up front and given back in part. -/
theorem settle_eq (hused : used = tx.gas - remaining) :
    (((L.settle tx sender sender 0 tx.gas).credit sender (-value)).credit recipient value).credit
      sender (remaining * tx.gasPrice) = L.settle tx sender recipient value used := by
  funext b
  have hrefund : used * tx.gasPrice = tx.gas * tx.gasPrice - remaining * tx.gasPrice := by
    rw [hused, sub_mul]
  simp only [Ledger.settle, Ledger.credit, hrefund, Holding.mk.injEq, and_true, true_and]
  split <;> split <;> ring

end Accounts

section Frames

variable {env : Env} (fuel : Nat) {tx : Transaction} {sender a : Bytes} {blockGasLimit : Int}
  {s s' : TxState} {L : Ledger} {K : Contract}

/-- What is refunded is not negative. -/
theorem Valid.refund_nonneg {cost : Int} (hvalid : Valid env tx s.world blockGasLimit sender)
    (hpaid : cost ≤ tx.executionGas) : 0 ≤ (tx.executionGas - cost) * tx.gasPrice :=
  Int.mul_nonneg (by omega) hvalid.nonNegative.gasPrice

theorem used_eq (tx : Transaction) (cost : Int) :
    calculateIntrinsicGas tx.data + cost = tx.gas - (tx.executionGas - cost) := by
  unfold Transaction.executionGas
  omega

/-- A creation with the init code of `r`. -/
theorem exact_of_initCode {r : Bytes} {n : UInt8} (hmemory : 256 < env.bufferLimit)
    (hfuel : 8 ≤ fuel) (hn : n.toNat = r.length) (hdata : tx.data = initHeader n ++ r)
    (hto : tx.to = []) (hvalid : Valid env tx s.world blockGasLimit sender)
    (ha : computeContractAddress env sender tx.nonce = .ok a) :
    ∃ w', payValue ((s.world.bill tx sender).addBalance a 0) sender a tx.value = .ok w' ∧
      Exact tx sender (creationFrame tx a) s w'
        (fun reverted returnData storage => reverted = false ∧ returnData = r ∧ storage = .empty)
        (totalCost headerOps) (applyTransaction env fuel tx blockGasLimit s) := by
  have ht : Opens env tx sender (s.world.bill tx sender) (creationFrame tx a) _ :=
    .creation hto ha
  obtain ⟨w', hpay⟩ := hvalid.payValue_opens ht
  let F : Setting := ⟨(creationFrame tx a).context tx sender tx.executionGas, some w'⟩
  have hcharged := costs_initCode F hmemory hn .empty fuel tx.executionGas
    (s.log ++ [.enter .creation F.context]) hfuel
  have hstart : (creationFrame tx a).start tx sender tx.executionGas w' s.log =
      F.state (initHeader n ++ r) 0 [] .empty .empty tx.executionGas
        (s.log ++ [.enter .creation F.context]) := by
    rw [← hdata]
    rfl
  refine ⟨w', hpay, exact_of_spent hvalid ht hpay ?_ ?_⟩
  · rw [hstart]
    intro e evm h
    rw [h] at hcharged
    cases hcharged with
    | unpaid _ _ _ _ => exact isRaised_raised _
  · rw [hstart]
    exact hcharged.spent

/-- The contract is called. -/
theorem call_refines (h : L.Shows s.world) (hvalid : Valid env tx s.world blockGasLimit sender)
    (hto : tx.to ≠ []) (hK : (L tx.to).contract = some K) (hmemory : 32 < env.bufferLimit)
    (hfuel : tx.executionGas.toNat + 2 ≤ fuel) :
    ∃ s', applyTransaction env fuel tx blockGasLimit s = .ok (L.message tx sender).1 s' ∧
      (L.message tx sender).2.Shows s'.world := by
  have hcode : (s.world.getAccount tx.to).code = K.code := by
    rw [(h tx.to).code, hK, Option.elim_some]
  obtain ⟨w', hpay, hexact⟩ := exact_of_takes (Q := (K.call sender tx.data (L tx.to).slots).Shown
      (s.world.getAccount tx.to).storage) hvalid hto hcode K.nonempty K.leaf hfuel
    fun F hcaller hdata => hcaller ▸ hdata ▸ K.takes F env _ _ hmemory (h tx.to).slots
  generalize applyTransaction env fuel tx blockGasLimit s = r at hexact ⊢
  cases hexact with
  | @unpaid s' hunpaid hworld =>
    rw [Ledger.message_of_unpaid hK hunpaid]
    exact ⟨s', rfl, hworld ▸ shows_bill h⟩
  | @reverted s' returnData storage hpaid hQ hworld =>
    rw [Ledger.message_of_failure hK hpaid hQ.success, hQ.returnData]
    exact ⟨s', rfl, hworld ▸ shows_bill h⟩
  | @committed s' returnData storage hpaid hQ hworld =>
    rw [Ledger.message_of_success hK hpaid hQ.success, hQ.returnData]
    refine ⟨s', rfl, ?_⟩
    have hstorage : (w'.getAccount tx.to).storage = (s.world.getAccount tx.to).storage :=
      (field_payValue Account.storage (fun _ _ => rfl) hpay tx.to).trans
        (field_bill Account.storage (fun _ _ _ => rfl) tx.to)
    have hpaid' := shows_payValue (shows_bill h) hvalid.nonNegative.value hpay
    have hwritten := shows_persistStorage (a := tx.to) hpaid' hQ.slots fun k hk =>
      hstorage ▸ hQ.keys k hk
    rw [hworld, ← settle_eq (used_eq tx _)]
    exact shows_refund hwritten (hvalid.refund_nonneg hpaid)

/-- The recipient has no code. -/
theorem payment_refines (h : L.Shows s.world) (hvalid : Valid env tx s.world blockGasLimit sender)
    (hto : tx.to ≠ []) (hnone : (L tx.to).contract = none) :
    ∃ s', applyTransaction env fuel tx blockGasLimit s = .ok (L.message tx sender).1 s' ∧
      (L.message tx sender).2.Shows s'.world := by
  have hcode : (s.world.getAccount tx.to).code = [] := by
    rw [(h tx.to).code, hnone, Option.elim_none]
  obtain ⟨w', happly, hw⟩ := applyTransaction_of_plain fuel hvalid ⟨hto, hcode⟩
  unfold Ledger.message
  rw [hnone]
  refine ⟨_, happly, fun a => ?_⟩
  rw [getAccount_of_postings hvalid hw a]
  refine ⟨?_, ?_, (h a).code, (h a).slots⟩
  · simp only [Ledger.settle, (h a).nonce]
  · simp only [Ledger.settle, (h a).balance]

theorem creation_refines {catalog : Catalog} (h : L.Shows s.world)
    (hvalid : Valid env tx s.world blockGasLimit sender) (hto : tx.to = [])
    (ha : computeContractAddress env sender tx.nonce = .ok a)
    (hK : catalog.contractOf tx.data = some K) (hmemory : 256 < env.bufferLimit)
    (hfuel : 8 ≤ fuel) :
    ∃ s', applyTransaction env fuel tx blockGasLimit s =
        .ok (L.creation catalog tx sender a).1 s' ∧
      (L.creation catalog tx sender a).2.Shows s'.world := by
  obtain ⟨n, hn, hbuild⟩ := buildInitCode_of_le K.short
  have hdata := Except.ok.inj ((catalog.initCode _ K hK).symm.trans hbuild)
  obtain ⟨w', hpay, hexact⟩ := exact_of_initCode fuel hmemory hfuel hn hdata hto hvalid ha
  generalize applyTransaction env fuel tx blockGasLimit s = r at hexact ⊢
  cases hexact with
  | @unpaid s' hunpaid hworld =>
    rw [Ledger.creation_of_unpaid hK hunpaid]
    exact ⟨s', rfl, hworld ▸ shows_bill h⟩
  | reverted _ hQ _ => cases hQ.1
  | @committed s' returnData storage hpaid hQ hworld =>
    obtain ⟨-, rfl, rfl⟩ := hQ
    rw [Ledger.creation_of_success hK hpaid]
    refine ⟨s', rfl, ?_⟩
    have hbilled : (L.settle tx sender sender 0 tx.gas).Shows
        ((s.world.bill tx sender).addBalance a 0) := by
      intro b
      rw [getAccount_touch]
      exact shows_bill h b
    have hdeployed := shows_setCode (a := a) (K := K)
      (shows_payValue hbilled hvalid.nonNegative.value hpay)
    rw [hworld, ← settle_eq (used_eq tx _)]
    exact shows_refund hdeployed (hvalid.refund_nonneg hpaid)

/-- A transaction that the ledger covers: fuel for all its gas, and no creation of anything
outside the catalog. -/
structure Ledger.Covered (catalog : Catalog) (fuel : Nat) (entry : Transaction × Int) : Prop where
  fuel : entry.1.gas.toNat + 2 ≤ fuel
  creation : entry.1.to = [] → ∃ K, catalog.contractOf entry.1.data = some K

/-- One transaction, accepted or not. -/
theorem ledger_refines {catalog : Catalog} (hmemory : 256 < env.bufferLimit) :
    Refines (applyEntry env fuel) (Ledger.apply env catalog) (fun s L => L.Shows s.world)
      (Ledger.Covered catalog fuel) := by
  rintro s L ⟨tx, blockGasLimit⟩ h ⟨hfuel, hcreation⟩
  dsimp only at hfuel hcreation
  have hvalidate := h.validate env tx blockGasLimit
  unfold applyEntry Ledger.apply
  dsimp only
  cases hv : validateTransaction env tx s.world blockGasLimit with
  | error e =>
    rw [hvalidate, hv, applyTransaction_of_invalid fuel hv]
    exact ⟨rfl, h⟩
  | ok sender =>
    rw [hvalidate, hv]
    dsimp only
    have hvalid := validateTransaction_eq_ok_iff.mp hv
    by_cases hto : tx.to = []
    · obtain ⟨K, hK⟩ := hcreation hto
      obtain ⟨a, ha⟩ := computeContractAddress_of_nonneg env hvalid.nonNegative.nonce sender
      have hsteps : 8 ≤ fuel := by
        have hintrinsic := le_calculateIntrinsicGas tx.data
        have hgas := hvalid.intrinsicGas
        omega
      obtain ⟨s', happly, hshows⟩ :=
        creation_refines fuel h hvalid hto ha hK hmemory hsteps
      rw [happly, if_pos hto, ha]
      exact ⟨rfl, hshows⟩
    · have hsteps : tx.executionGas.toNat + 2 ≤ fuel := by
        have hle := tx.executionGas_le
        omega
      obtain ⟨s', happly, hshows⟩ : ∃ s', applyTransaction env fuel tx blockGasLimit s =
          .ok (L.message tx sender).1 s' ∧ (L.message tx sender).2.Shows s'.world := by
        cases hcontract : (L tx.to).contract with
        | none => exact payment_refines fuel h hvalid hto hcontract
        | some K => exact call_refines fuel h hvalid hto hcontract (by omega) hsteps
      rw [happly, if_neg hto]
      exact ⟨rfl, hshows⟩

/-- Over any sequence of payments, deployments and calls of known contracts, by any senders,
accepted or not, the state transition answers what the ledger answers, and ends in a state that
holds what the ledger says. -/
theorem state_transition_refines_ledger (env : Env) (fuel : Nat) (catalog : Catalog)
    (txs : List (Transaction × Int)) (s : TxState) (L : Ledger) (hmemory : 256 < env.bufferLimit)
    (hshows : L.Shows s.world) (hcovered : ∀ entry ∈ txs, Ledger.Covered catalog fuel entry) :
    (applyAll env fuel txs s).1 = (Machine.run (Ledger.apply env catalog) txs L).1 ∧
      (Machine.run (Ledger.apply env catalog) txs L).2.Shows (applyAll env fuel txs s).2.world :=
  (ledger_refines fuel hmemory).run hshows hcovered

/-- A counter at 41, and an account that can pay for calls of it. -/
def counterLedger : Ledger := fun a =>
  if a = sampleSender then { balance := 1000000 }
  else if a = sampleContract then
    { balance := 10, contract := some counter, slots := SlotMap.empty.set 0 41 }
  else {}

theorem shows_counterLedger : counterLedger.Shows counterState.world := by
  intro a
  by_cases hsender : a = sampleSender
  · subst hsender
    exact ⟨rfl, rfl, rfl, fun _ => rfl⟩
  by_cases hcontract : a = sampleContract
  · subst hcontract
    refine ⟨rfl, rfl, rfl, ?_⟩
    have hempty : SlotMap.empty.Shows .empty := fun _ => rfl
    exact hempty.set rfl
  · have haccount : counterState.world.getAccount a = emptyAccount := by
      by_cases hcallee : a = sampleCallee
      · subst hcallee
        rfl
      · rw [counterState, WorldState.setStorage,
          WorldState.getAccount_modifyAccount_of_ne hcontract]
        simp [sampleWorld, WorldState.getAccount, Dict.getD, Dict.get?, Dict.lookup_cons_eq,
          hsender, hcontract, hcallee]
    have hledger : counterLedger a = {} := (if_neg hsender).trans (if_neg hcontract)
    rw [haccount, hledger]
    exact ⟨rfl, rfl, rfl, fun _ => rfl⟩

/-- An increment, and the count after it. -/
theorem state_transition_refines_ledger_sample :
    (applyAll counterEnv 100002 [(incrementTransaction, 100000), (getCountTransaction, 100000)]
      counterState).1.map (Except.map TransactionResult.returnData) =
      [.ok [], .ok (BigEndian.toBytes 32 42)] := by
  rw [(state_transition_refines_ledger counterEnv 100002 (.single counter)
    [(incrementTransaction, 100000), (getCountTransaction, 100000)] counterState counterLedger
    (by decide) shows_counterLedger ?_).1]
  · decide +kernel
  · intro entry hentry
    simp only [List.mem_cons, List.not_mem_nil, or_false] at hentry
    rcases hentry with rfl | rfl
    · exact ⟨by decide, fun h => absurd h (by decide)⟩
    · exact ⟨by decide, fun h => absurd h (by decide)⟩

end Frames

end Ethereum
