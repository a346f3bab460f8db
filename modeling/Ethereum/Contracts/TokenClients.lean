import Ethereum.Contracts.ExactGas
import Ethereum.Contracts.TokenSupply
import Ethereum.Core.Exact

/-! The token as its clients see it. Requests are encoded and sent among other transactions, and
answered one after the other like questions to a book of balances. -/
namespace Ethereum

open Stateful Sequencing

/-- What a client asks of the token. -/
inductive TokenRequest
  | transfer (toAddress : Bytes) (amount : Int)
  | balanceOf (address : Bytes)

def TokenRequest.encode (env : Env) : TokenRequest → Except PyException Bytes
  | .transfer toAddress amount => encodeTransfer env toAddress amount
  | .balanceOf address => encodeBalanceOf env address

/-- What every address holds. -/
abbrev Tokens := Bytes → Nat

/-- A request that was sent as a transaction, and what came back. -/
structure TokenReceipt where
  client : Bytes
  request : TokenRequest
  tx : Transaction
  result : TransactionResult

namespace Tokens

section Answers

variable (t : Tokens)

def move (sender recipient : Bytes) (amount : Nat) : Tokens :=
  let debited := Function.update t sender (t sender - amount)
  Function.update debited recipient (debited recipient + amount)

/-- What is returned and what the balances are then, unless the request is refused. -/
def answer (client : Bytes) : TokenRequest → Option (Bytes × Tokens)
  | .transfer toAddress amount =>
    if t client < amount.toNat then none else some ([], t.move client toAddress amount.toNat)
  | .balanceOf address => some (BigEndian.toBytes 32 (t address), t)

/-- The gas that the answer takes. -/
def gas (client : Bytes) : TokenRequest → Int
  | .transfer _ amount => if t client < amount.toNat then 185 else 10301
  | .balanceOf _ => 179

end Answers

/-- One receipt, or any other transaction. -/
inductive Serves : Tokens → Option TokenReceipt → Tokens → Prop
  | other {t : Tokens} : Serves t none t
  | unpaid {t : Tokens} {r : TokenReceipt} (hgas : r.tx.executionGas < t.gas r.client r.request)
      (hresult : r.result = r.tx.failed []) : Serves t (some r) t
  | refused {t : Tokens} {r : TokenReceipt} (hgas : t.gas r.client r.request ≤ r.tx.executionGas)
      (hanswer : t.answer r.client r.request = none) (hresult : r.result = r.tx.failed []) :
      Serves t (some r) t
  | answered {t t' : Tokens} {r : TokenReceipt} {data : Bytes}
      (hgas : t.gas r.client r.request ≤ r.tx.executionGas)
      (hanswer : t.answer r.client r.request = some (data, t'))
      (hresult : r.result = r.tx.succeeded (t.gas r.client r.request) data none) :
      Serves t (some r) t'

end Tokens

/-- Transactions on a chain with a token at `T`: requests of its clients that are accepted, and all
those that start no frame of it. -/
inductive Traffic (env : Env) (T : Bytes) : WorldState → Option TokenReceipt → WorldState → Prop
  | request {fuel tx blockGasLimit client request result w s'} (hto : tx.to = T)
      (hdata : request.encode env = .ok tx.data) (hclient : recoverSender env tx = .ok client)
      (hfuel : tx.gas.toNat + 2 ≤ fuel)
      (h : applyTransaction env fuel tx blockGasLimit { world := w } = .ok result s') :
      Traffic env T w (some ⟨client, request, tx, result⟩) s'.world
  | other {w x s'} (h : Submit env { world := w } x s') (hidle : T ∉ entered s'.log)
      (hsender : recoverSender env x.tx ≠ .ok T) :
      Traffic env T w none s'.world

/-- Balances by address are the slots that the contract reads. -/
def Tokens.InSlots (t : Tokens) (storage : Dict Int Int) : Prop :=
  ∀ a, a.length = 20 → storage.getD (intFromBytes a) 0 = t a

/-- The token at `T` holds these balances. -/
structure Tokens.Backed (T : Bytes) (w : WorldState) (t : Tokens) : Prop where
  code : (w.getAccount T).code = tokenRuntimeBytecode
  supply : ∃ supply, Supply (w.getAccount T).storage supply
  slots : t.InSlots (w.getAccount T).storage

section Encoding

variable {env : Env} {address data : Bytes} {amount : Int}

theorem length_of_encodeAddress_ok {b : Bytes} (h : encodeAddress address = .ok b) :
    address.length = 20 := by
  unfold encodeAddress at h
  split at h
  · cases h
  · next haddress => exact not_not.mp haddress

theorem word_of_encodeUint256_ok {b : Bytes} (h : encodeUint256 amount = .ok b) : Word amount := by
  unfold encodeUint256 at h
  split at h
  · cases h
  · next hneg =>
    split at h
    · cases h
    · next hlt => exact ⟨not_lt.mp hneg, not_le.mp hlt⟩

/-- Calldata that was encoded has the selector of the request, and its words. -/
theorem words_of_encodeTransfer (h : encodeTransfer env address amount = .ok data) :
    address.length = 20 ∧ Word amount ∧
      data.take 4 = computeSelector env "transfer(address,uint256)" ∧
      wordAt data 4 = intFromBytes address ∧ wordAt data 36 = amount := by
  obtain ⟨b, haddress, hrest⟩ := ok_of_bind h
  obtain ⟨c, hamount, -⟩ := ok_of_bind hrest
  have hlength := length_of_encodeAddress_ok haddress
  have hword := word_of_encodeUint256_ok hamount
  obtain ⟨data', hdata', hwords⟩ : ∃ data', encodeTransfer env address amount = .ok data' ∧ _ :=
    encodeTransfer_words hlength hword
  cases h.symm.trans hdata'
  exact ⟨hlength, hword, hwords⟩

theorem words_of_encodeBalanceOf (h : encodeBalanceOf env address = .ok data) :
    address.length = 20 ∧ data.take 4 = computeSelector env "balanceOf(address)" ∧
      wordAt data 4 = intFromBytes address := by
  obtain ⟨b, haddress, -⟩ := ok_of_bind h
  have hlength := length_of_encodeAddress_ok haddress
  obtain ⟨data', hdata', hwords⟩ : ∃ data', encodeBalanceOf env address = .ok data' ∧ _ :=
    encodeBalanceOf_words hlength
  cases h.symm.trans hdata'
  exact ⟨hlength, hwords⟩

end Encoding

section Balances

variable {storage : Dict Int Int} {supply c a amount : Int}

theorem Supply.debit (h : Supply storage supply) (hle : amount ≤ storage.getD c 0)
    (h0 : 0 ≤ amount) : Supply (storage.set c (storage.getD c 0 - amount)) (supply - amount) := by
  have hlt := h.lt
  have hset := h.set (k := c) (v := storage.getD c 0 - amount) (by omega) (by omega)
  rwa [show supply - storage.getD c 0 + (storage.getD c 0 - amount) = supply - amount by omega]
    at hset

/-- A balance after a transfer that the sender can pay; sender and recipient may coincide. -/
theorem getD_moveTokens (h : Supply storage supply) (h0 : 0 ≤ amount)
    (hle : amount ≤ storage.getD c 0) (k : Int) :
    (moveTokens storage c a amount).getD k 0 =
      storage.getD k 0 - (if k = c then amount else 0) + (if k = a then amount else 0) := by
  have hdebited := h.debit hle h0
  have hlt := h.lt
  have hfrom : (storage.getD c 0 - amount) % modValue = storage.getD c 0 - amount := by
    have hc := h.balance_le c
    exact Int.emod_eq_of_lt (by omega) (by unfold modValue; omega)
  have hget : ∀ j, (storage.set c (storage.getD c 0 - amount)).getD j 0 =
      storage.getD j 0 - if j = c then amount else 0 := by
    intro j
    rw [Dict.getD_set]
    split
    · next hj => rw [hj]
    · exact (sub_zero _).symm
  have hto : ((storage.set c (storage.getD c 0 - amount)).getD a 0 + amount) % modValue =
      (storage.set c (storage.getD c 0 - amount)).getD a 0 + amount := by
    have h0' := hdebited.balance_nonneg a
    have hle' := hdebited.balance_le a
    exact Int.emod_eq_of_lt (by omega) (by unfold modValue; omega)
  simp only [moveTokens, hfrom, hto]
  rw [Dict.getD_set]
  split
  · next hk => rw [hk, hget]
  · rw [hget, add_zero]

theorem get?_of_get?_moveTokens {k : Int} (h : (moveTokens storage c a amount).get? k = none) :
    storage.get? k = none := by
  unfold moveTokens at h
  rw [Dict.get?_set] at h
  split at h
  · cases h
  · rw [Dict.get?_set] at h
    split at h
    · cases h
    · exact h

end Balances

section Requests

variable {env : Env} {T client data : Bytes} {w w' : WorldState} {t : Tokens}
  {storage : Dict Int Int} {supply : Int} {request : TokenRequest}

/-- The moved balances are those of the book. -/
theorem inSlots_move {sender recipient : Bytes} {amount : Int} (hs : Supply storage supply)
    (h : t.InSlots storage) (hsender : sender.length = 20) (hrecipient : recipient.length = 20)
    (h0 : 0 ≤ amount) (hle : amount ≤ t sender) :
    (t.move sender recipient amount.toNat).InSlots
      (moveTokens storage (intFromBytes sender) (intFromBytes recipient) amount) := by
  intro a ha
  have hbalance : amount ≤ storage.getD (intFromBytes sender) 0 := by
    rw [h sender hsender]
    exact hle
  have hkey : ∀ b : Bytes, b.length = 20 → (intFromBytes a = intFromBytes b ↔ a = b) := by
    intro b hb
    exact ⟨intFromBytes_injective (ha.trans hb.symm), congrArg _⟩
  rw [getD_moveTokens hs h0 hbalance, h a ha]
  simp only [hkey sender hsender, hkey recipient hrecipient, Tokens.move, Function.update_apply]
  by_cases hr : a = recipient
  · subst hr
    by_cases hself : a = sender
    · subst hself
      simp only [if_true]
      omega
    · simp only [if_neg hself, if_true]
      omega
  · by_cases hself : a = sender
    · subst hself
      simp only [if_neg hr, if_true]
      omega
    · simp only [if_neg hr, if_neg hself]
      omega

/-- What the specification of the bytecode says for a request, by the book. -/
inductive Meets (t : Tokens) (client : Bytes) (request : TokenRequest) (storage : Dict Int Int) :
    Bool × Bytes × Dict Int Int → Prop
  | refused (hanswer : t.answer client request = none) :
      Meets t client request storage (false, [], storage)
  | answered {data : Bytes} {t' : Tokens} {storage' : Dict Int Int}
      (hanswer : t.answer client request = some (data, t'))
      (hsupply : ∃ supply, Supply storage' supply) (hslots : t'.InSlots storage')
      (hkeys : ∀ k, storage'.get? k = none → storage.get? k = none) :
      Meets t client request storage (true, data, storage')

theorem tokenGas_of_request (hselectors : TokenSelectors env) (h : t.InSlots storage)
    (hclient : client.length = 20) (hdata : request.encode env = .ok data) :
    tokenGas client data storage = t.gas client request := by
  unfold tokenGas
  cases request with
  | transfer toAddress amount =>
    obtain ⟨-, hamount, hselector, -, hword⟩ := words_of_encodeTransfer hdata
    have h0 := hamount.nonneg
    have hless : (t client : Int) < amount ↔ t client < amount.toNat := by omega
    rw [hselector, hselectors.transfer, if_pos rfl, hword, h client hclient]
    simp only [Tokens.gas, hless]
  | balanceOf address =>
    obtain ⟨-, hselector, -⟩ := words_of_encodeBalanceOf hdata
    rw [hselector, hselectors.balanceOf, if_neg (by decide), if_pos rfl]
    rfl

theorem tokenSpec_meets (hselectors : TokenSelectors env) (hs : Supply storage supply)
    (h : t.InSlots storage) (hclient : client.length = 20) (hdata : request.encode env = .ok data) :
    Meets t client request storage (tokenSpec client data storage) := by
  unfold tokenSpec
  cases request with
  | transfer toAddress amount =>
    obtain ⟨haddress, hamount, hselector, hto, hword⟩ := words_of_encodeTransfer hdata
    have h0 := hamount.nonneg
    rw [hselector, hselectors.transfer, if_pos rfl, hword, hto]
    split
    · next hless =>
      rw [h client hclient] at hless
      exact .refused (if_pos (by omega))
    · next hless =>
      have hle := not_lt.mp hless
      have hbook : amount ≤ t client := h client hclient ▸ hle
      have hmoved : moveTokens storage _ (intFromBytes toAddress) amount = _ :=
        moveTokens_of_le (hs.word _) h0 hle
      dsimp only at hmoved ⊢
      rw [← hmoved]
      refine .answered (if_neg (by omega)) ⟨supply, (hs.moveTokens h0 hle).1⟩
        (inSlots_move hs h hclient haddress h0 hbook) fun k hk => ?_
      exact get?_of_get?_moveTokens hk
  | balanceOf address =>
    obtain ⟨haddress, hselector, hto⟩ := words_of_encodeBalanceOf hdata
    rw [hselector, hselectors.balanceOf, if_neg (by decide), if_pos rfl, hto, h address haddress]
    exact .answered rfl ⟨supply, hs⟩ h fun _ hk => hk

end Requests

section Clients

variable {env : Env} {T : Bytes} {w w' : WorldState} {t t' : Tokens} {storage : Dict Int Int}
  {label : Option TokenReceipt}

theorem Tokens.Backed.same (h : t.Backed T w) (hs : SameContract T w w') : t.Backed T w' where
  code := hs.1.trans h.code
  supply := by
    rw [hs.2]
    exact h.supply
  slots := by
    rw [hs.2]
    exact h.slots

/-- The storage of a call that has ended is written back. -/
theorem Tokens.Backed.persist (h : t.Backed T w) (hsupply : ∃ supply, Supply storage supply)
    (hslots : t'.InSlots storage)
    (hkeys : ∀ k, storage.get? k = none → (w.getAccount T).storage.get? k = none) :
    t'.Backed T (w.persistStorage T storage) := by
  have hget := Dict.get?_update_of_subset hkeys
  have haccount : (w.persistStorage T storage).getAccount T =
      { w.getAccount T with storage := (w.getAccount T).storage.update storage } :=
    (WorldState.getAccount_persistStorage T storage).trans (if_pos rfl)
  obtain ⟨supply, hs⟩ := hsupply
  constructor
  · rw [haccount]
    exact h.code
  · rw [haccount]
    exact ⟨supply, hs.congr hget⟩
  · rw [haccount]
    intro a ha
    rw [Dict.getD, hget]
    exact hslots a ha

/-- A request that is accepted is answered by the book. -/
theorem served_of_request {fuel : Nat} {tx : Transaction} {blockGasLimit : Int} {client : Bytes}
    {request : TokenRequest} {result : TransactionResult} {s' : TxState}
    (hselectors : TokenSelectors env) (hmemory : 32 < env.bufferLimit) (hT : T ≠ [])
    (hb : t.Backed T w) (hto : tx.to = T) (hdata : request.encode env = .ok tx.data)
    (hclient : recoverSender env tx = .ok client) (hfuel : tx.gas.toNat + 2 ≤ fuel)
    (h : applyTransaction env fuel tx blockGasLimit { world := w } = .ok result s') :
    ∃ t', Tokens.Serves t (some ⟨client, request, tx, result⟩) t' ∧ t'.Backed T s'.world := by
  subst hto
  obtain ⟨sender, hvalid⟩ := (transition_of_applyTransaction h).valid
  cases hvalid.recovered.symm.trans hclient
  have hlength := (recoverSender_eq_ok hclient).2
  obtain ⟨supply, hs⟩ := hb.supply
  have hgas := tokenGas_of_request hselectors hb.slots hlength hdata
  have hmeets := tokenSpec_meets hselectors hs hb.slots hlength hdata
  have hsteps : tx.executionGas.toNat + 2 ≤ fuel := by
    have hle := tx.executionGas_le
    omega
  have hexecuted := exact_of_takes hvalid hT hb.code (by decide) leaf_tokenRuntimeBytecode hsteps
    fun F hcaller hcalldata => hcaller ▸ hcalldata ▸ takes_token F hmemory hs.word
  rw [h, hgas] at hexecuted
  obtain ⟨w', hpay, hexact⟩ := hexecuted
  generalize hspec : tokenSpec client tx.data (w.getAccount tx.to).storage = spec at hmeets hexact
  cases hexact with
  | unpaid hunpaid hworld =>
    rw [hworld]
    exact ⟨t, .unpaid hunpaid rfl, hb.same (sameContract_bill w)⟩
  | reverted hpaid hQ hworld =>
    cases hQ
    cases hmeets with
    | refused hanswer =>
      rw [hworld]
      exact ⟨t, .refused hpaid hanswer rfl, hb.same (sameContract_bill w)⟩
  | committed hpaid hQ hworld =>
    cases hQ
    cases hmeets with
    | answered hanswer hsupply hslots hkeys =>
      have hsame : SameContract tx.to w w' :=
        (sameContract_bill w).trans (sameContract_payValue hpay)
      have hwritten := (hb.same hsame).persist hsupply hslots fun k hk => by
        rw [hsame.2]
        exact hkeys k hk
      rw [hworld]
      exact ⟨_, .answered hpaid hanswer rfl, hwritten.same (sameContract_refund _ _)⟩

/-- A transaction that starts no frame of the token leaves it alone. -/
theorem served_of_other {x : Submission} {s' : TxState} (hb : t.Backed T w)
    (h : Submit env { world := w } x s') (hidle : T ∉ entered s'.log)
    (hsender : recoverSender env x.tx ≠ .ok T) : t.Backed T s'.world := by
  cases h with
  | accepted h =>
    have huntouched : Untouched w s'.world T := by
      cases accepted_of_applyTransaction h with
      | failed hvalid hworld =>
        rw [hworld]
        exact untouched_of_getAccount_eq
          (getAccount_bill_of_ne fun he => hsender (he ▸ hvalid.recovered))
      | completed hvalid hcompleted =>
        exact untouched_completed hcompleted (fun he => hsender (he ▸ hvalid.recovered)) hidle
    exact hb.same ⟨huntouched.code, huntouched.storage⟩
  | rejected h =>
    obtain rfl := state_of_rejected h
    exact hb

/-- Whatever is sent, every accepted request gets the answer, and takes the gas, that a book of
balances says when it is asked the same requests in this order. -/
theorem token_serves_clients (env : Env) (T : Bytes) (w w' : WorldState)
    (labels : List (Option TokenReceipt)) (t : Tokens) (hselectors : TokenSelectors env)
    (hmemory : 32 < env.bufferLimit) (hT : T ≠ [])
    (hcode : (w.getAccount T).code = tokenRuntimeBytecode)
    (hword : ∀ k v, (w.getAccount T).storage.get? k = some v → Word v)
    (htotal : (w.getAccount T).storage.total id < 2 ^ 256)
    (hbalances : ∀ a, a.length = 20 → w.getStorage T (intFromBytes a) = t a)
    (h : History (Traffic env T) w labels w') :
    ∃ t', History Tokens.Serves t labels t' ∧
      ∀ a, a.length = 20 → w'.getStorage T (intFromBytes a) = t' a := by
  have hbacked : t.Backed T w :=
    ⟨hcode, ⟨_, fun k v hk => (hword k v hk).nonneg, rfl, htotal⟩, hbalances⟩
  have hfollows : ∃ t', History Tokens.Serves t labels t' ∧ t'.Backed T w' :=
    h.follow (R := fun w (t : Tokens) => t.Backed T w) hbacked ?_
  · obtain ⟨t', hserves, hbacked'⟩ := hfollows
    exact ⟨t', hserves, hbacked'.slots⟩
  · intro w label w' t hb hstep
    cases hstep with
    | request hto hdata hclient hfuel h =>
      exact served_of_request hselectors hmemory hT hb hto hdata hclient hfuel h
    | other h hidle hsender => exact ⟨t, .other, served_of_other hb h hidle hsender⟩

end Clients

section Sample

theorem length_of_transferSigner : ∀ e ∈
    [(((0 : Int), transferTransaction.r, transferTransaction.s, transferTransactionHash),
      sampleSender)], e.2.length = 20 := by
  decide

def clientEnv : Env := .ofTables
  [(rlpEncode (.list [.bytes [], .bytes [1], .bytes [0x01, 0x86, 0xa0], .bytes sampleContract,
      .bytes [], .bytes transferTransaction.data]), transferTransactionHash),
    ("transfer(address,uint256)".toUTF8.data.toList, BigEndian.toBytes 32
      0xa9059cbb2ab09eb219583f4a59a5d0623ade346d962bcd4e46b11da047c9049b),
    ("balanceOf(address)".toUTF8.data.toList, BigEndian.toBytes 32
      0x70a08231b98ef4ca268c9cc3f6b4590e4bfec28280db06bb5d45e689f2a360be)]
  [((0, transferTransaction.r, transferTransaction.s, transferTransactionHash), sampleSender)]
  (by decide) length_of_transferSigner

def sampleTokens : Tokens := fun a => if a = sampleSender then 1000 else 0

/-- A transfer of 250 tokens is sent. -/
theorem token_serves_clients_transfer : ∃ result w',
    History (Traffic clientEnv sampleContract) tokenState.world
      [some ⟨sampleSender, .transfer sampleCallee 250, transferTransaction, result⟩] w' ∧
    result = transferTransaction.succeeded 10301 [] none ∧
    w'.getStorage sampleContract (intFromBytes sampleCallee) = 250 := by
  obtain ⟨result, s', h, -⟩ := exists_of_returns (p := fun result _ => result.success)
    (r := applyTransaction clientEnv 100002 transferTransaction 100000
      { world := tokenState.world }) (by decide +kernel)
  have htraffic : Traffic clientEnv sampleContract tokenState.world
      (some ⟨sampleSender, .transfer sampleCallee 250, transferTransaction, result⟩) s'.world :=
    .request rfl (by decide +kernel) (by decide +kernel) (by decide) h
  have hword : ∀ e ∈ (tokenState.world.getAccount sampleContract).storage.entries,
      0 ≤ e.2 ∧ e.2 < 2 ^ 256 := by decide +kernel
  have hbalances : ∀ a : Bytes, a.length = 20 →
      tokenState.world.getStorage sampleContract (intFromBytes a) = sampleTokens a := by
    intro a ha
    have hkey : intFromBytes a = intFromBytes sampleSender ↔ a = sampleSender :=
      ⟨intFromBytes_injective ha, congrArg _⟩
    change (Dict.set .empty (intFromBytes sampleSender) 1000).getD (intFromBytes a) 0 = _
    rw [Dict.getD_set, sampleTokens]
    simp only [hkey]
    split <;> rfl
  obtain ⟨t', hserves, hslots⟩ := token_serves_clients clientEnv sampleContract tokenState.world
    s'.world _ sampleTokens ⟨by decide +kernel, by decide +kernel⟩ (by decide +kernel) (by decide)
    (by decide +kernel) (fun k v hk => ⟨(hword _ (Dict.mem_of_get? hk)).1,
      (hword _ (Dict.mem_of_get? hk)).2⟩) (by decide +kernel) hbalances (.single htraffic)
  have hpaid : ¬ transferTransaction.executionGas <
      sampleTokens.gas sampleSender (.transfer sampleCallee 250) := by decide +kernel
  have hcovered : ¬ sampleTokens sampleSender < Int.toNat 250 := by decide
  have hmoved : sampleTokens.answer sampleSender (.transfer sampleCallee 250) =
      some ([], sampleTokens.move sampleSender sampleCallee 250) := by
    rw [Tokens.answer, if_neg hcovered]
    rfl
  cases hserves with
  | cons hstep hrest =>
    cases hrest
    cases hstep with
    | unpaid hgas _ => exact absurd hgas hpaid
    | refused _ hanswer _ => cases hmoved.symm.trans hanswer
    | answered _ hanswer hresult =>
      cases hmoved.symm.trans hanswer
      have hbook : sampleTokens.move sampleSender sampleCallee 250 sampleCallee = 250 := by
        decide +kernel
      refine ⟨result, s'.world, .single htraffic, hresult, (hslots sampleCallee rfl).trans ?_⟩
      rw [hbook]
      rfl

end Sample

end Ethereum
