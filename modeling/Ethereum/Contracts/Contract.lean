import Ethereum.Contracts.ExactGas

/-! What a contract is for, apart from its bytecode: what a call does to its slots, what it
returns and what it costs. -/
namespace Ethereum

open Stateful

/-- The slots of a contract hold words. -/
structure SlotMap where
  get : Int → Int
  word : ∀ k, Word (get k)

namespace SlotMap

def empty : SlotMap := ⟨fun _ => 0, fun _ => word_zero⟩

/-- A write wraps around. -/
def set (slots : SlotMap) (k v : Int) : SlotMap where
  get j := if j = k then v % 2 ^ 256 else slots.get j
  word j := word_ite (word_emod v) (slots.word j)

/-- A storage with these slots; one that was never written reads as zero. -/
def Shows (slots : SlotMap) (storage : Dict Int Int) : Prop := ∀ k, storage.getD k 0 = slots.get k

variable {slots : SlotMap} {storage : Dict Int Int} {k v u : Int}

theorem Shows.word (h : slots.Shows storage) (k : Int) : Word (storage.getD k 0) :=
  h k ▸ slots.word k

theorem Shows.set (h : slots.Shows storage) (hv : u = v % 2 ^ 256) :
    (slots.set k v).Shows (storage.set k u) := by
  intro j
  rw [Dict.getD_set, hv, h j]
  rfl

end SlotMap

/-- What a call does. -/
structure Reply where
  success : Bool
  returnData : Bytes
  slots : SlotMap

/-- A frame that has started with `storage` and ends with this reply. It has unset no slot. -/
structure Reply.Shown (reply : Reply) (storage : Dict Int Int) (reverted : Bool)
    (returnData : Bytes) (storage' : Dict Int Int) : Prop where
  success : reply.success = !reverted
  returnData : reply.returnData = returnData
  slots : reply.slots.Shows storage'
  keys : ∀ k, storage'.get? k = none → storage.get? k = none

/-- Bytecode that starts no frames, with what it does for a caller and calldata and the gas that
takes. -/
structure Contract where
  code : Bytes
  call : Bytes → Bytes → SlotMap → Reply
  gas : Bytes → Bytes → SlotMap → Int
  leaf : Leaf code
  nonempty : code ≠ []
  short : code.length ≤ 255
  takes : ∀ (F : Setting) (env : Env) (storage : Dict Int Int) (slots : SlotMap),
    32 < env.bufferLimit → slots.Shows storage →
    F.Takes env code 0 [] .empty storage (gas F.context.caller F.context.data slots)
      ((call F.context.caller F.context.data slots).Shown storage)

section Replies

variable {slots : SlotMap} {storage storage' : Dict Int Int} {k v : Int} {reverted : Bool}
  {returnData : Bytes}

theorem get?_of_get?_set {j : Int} (h : (storage.set k v).get? j = none) :
    storage.get? j = none := by
  rw [Dict.get?_set] at h
  split at h
  · cases h
  · exact h

/-- A reply that changes nothing. -/
theorem shown_self {success : Bool} {data : Bytes} (h : slots.Shows storage)
    (hspec : (!reverted, returnData, storage') = (success, data, storage)) :
    Reply.Shown ⟨success, data, slots⟩ storage reverted returnData storage' := by
  cases hspec
  exact ⟨rfl, rfl, h, fun _ hk => hk⟩

end Replies

section Counter

def counterCall (data : Bytes) (slots : SlotMap) : Reply :=
  if data.take 4 = incrementSelectorBytes then ⟨true, [], slots.set 0 (slots.get 0 + 1)⟩
  else if data.take 4 = getCountSelectorBytes then
    ⟨true, BigEndian.toBytes 32 (slots.get 0).toNat, slots⟩
  else ⟨false, [], slots⟩

theorem shown_counterCall {slots : SlotMap} {data returnData : Bytes} {reverted : Bool}
    {storage storage' : Dict Int Int} (h : slots.Shows storage)
    (hspec : Post.exactly (counterSpec data storage) reverted returnData storage') :
    (counterCall data slots).Shown storage reverted returnData storage' := by
  simp only [Post.exactly, counterSpec, h 0] at hspec
  unfold counterCall
  split at hspec
  · next hincrement =>
    rw [if_pos hincrement]
    obtain ⟨hsuccess, hdata, hstorage⟩ := Prod.mk_inj.mp hspec |>.imp_right Prod.mk_inj.mp
    subst hdata hstorage
    exact ⟨hsuccess.symm, rfl, h.set rfl, fun _ => get?_of_get?_set⟩
  · next hincrement =>
    rw [if_neg hincrement]
    split at hspec
    · next hgetCount =>
      rw [if_pos hgetCount]
      exact shown_self h hspec
    · next hgetCount =>
      rw [if_neg hgetCount]
      exact shown_self h hspec

/-- `contracts/counter.py` -/
def counter : Contract where
  code := counterRuntimeBytecode
  call _ := counterCall
  gas _ data _ := counterGas data
  leaf := leaf_counterRuntimeBytecode
  nonempty := by decide
  short := by decide
  takes F _ _ _ hmemory h :=
    (takes_counter F hmemory (h.word 0)).weaken fun _ _ _ => shown_counterCall h

end Counter

section Token

/-- The balances after a transfer that the sender can pay. -/
def SlotMap.move (slots : SlotMap) (sender recipient amount : Int) : SlotMap :=
  let debited := slots.set sender (slots.get sender - amount)
  debited.set recipient (debited.get recipient + amount)

def tokenCall (caller data : Bytes) (slots : SlotMap) : Reply :=
  if data.take 4 = transferSelectorBytes then
    if slots.get (intFromBytes caller) < wordAt data 36 then ⟨false, [], slots⟩
    else ⟨true, [], slots.move (intFromBytes caller) (wordAt data 4) (wordAt data 36)⟩
  else if data.take 4 = balanceOfSelectorBytes then
    ⟨true, BigEndian.toBytes 32 (slots.get (wordAt data 4)).toNat, slots⟩
  else ⟨false, [], slots⟩

/-- `tokenGas` by the slots. -/
def tokenCallGas (caller data : Bytes) (slots : SlotMap) : Int :=
  if data.take 4 = transferSelectorBytes then
    if slots.get (intFromBytes caller) < wordAt data 36 then 185 else 10301
  else if data.take 4 = balanceOfSelectorBytes then 179
  else 66

theorem shown_tokenCall {slots : SlotMap} {caller data returnData : Bytes} {reverted : Bool}
    {storage storage' : Dict Int Int} (h : slots.Shows storage)
    (hspec : Post.exactly (tokenSpec caller data storage) reverted returnData storage') :
    (tokenCall caller data slots).Shown storage reverted returnData storage' := by
  simp only [Post.exactly, tokenSpec, h (intFromBytes caller), h (wordAt data 4)] at hspec
  unfold tokenCall
  split at hspec
  · next htransfer =>
    rw [if_pos htransfer]
    split at hspec
    · next hless =>
      rw [if_pos hless]
      exact shown_self h hspec
    · next hless =>
      rw [if_neg hless]
      have hdebit : slots.get (intFromBytes caller) - wordAt data 36 =
          (slots.get (intFromBytes caller) - wordAt data 36) % 2 ^ 256 := by
        have hamount := (word_wordAt data 36).nonneg
        have hlt := (slots.word (intFromBytes caller)).lt
        omega
      have hdebited := h.set (k := intFromBytes caller) hdebit
      obtain ⟨hsuccess, hdata, hstorage⟩ := Prod.mk_inj.mp hspec |>.imp_right Prod.mk_inj.mp
      subst hdata hstorage
      refine ⟨hsuccess.symm, rfl, hdebited.set ?_, fun _ hk => ?_⟩
      · rw [hdebited (wordAt data 4)]
      · exact get?_of_get?_set (get?_of_get?_set hk)
  · next htransfer =>
    rw [if_neg htransfer]
    split at hspec
    · next hbalance =>
      rw [if_pos hbalance]
      exact shown_self h hspec
    · next hbalance =>
      rw [if_neg hbalance]
      exact shown_self h hspec

theorem tokenGas_of_shows {slots : SlotMap} {storage : Dict Int Int} (h : slots.Shows storage)
    (caller data : Bytes) : tokenGas caller data storage = tokenCallGas caller data slots := by
  rw [tokenGas, h (intFromBytes caller)]
  rfl

/-- `contracts/token.py` -/
def token : Contract where
  code := tokenRuntimeBytecode
  call := tokenCall
  gas := tokenCallGas
  leaf := leaf_tokenRuntimeBytecode
  nonempty := by decide
  short := by decide
  takes F _ _ _ hmemory h :=
    tokenGas_of_shows h _ _ ▸
      (takes_token F hmemory h.word).weaken fun _ _ _ => shown_tokenCall h

end Token

end Ethereum
