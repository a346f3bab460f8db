import Ethereum.Evm.Effects

/-! What a frame does with the outcome of a child frame. -/
namespace Ethereum

open Stateful

/-- How a frame ended, as its parent sees it. -/
def endingOf : Outcome → Ending
  | .ok result _ => if result.success then .success else .failure
  | .error (.raised (.evmError (.outOfGas _ _))) _ => .outOfGas
  | .error _ _ => .raised

namespace Pending

/-- The world state that the parent continues with. -/
def merge (p : Pending) : Outcome → Option WorldState
  | .ok result child =>
    if result.success then child.worldState.map (p.commit result.returnData child.storage)
    else child.worldState
  | .error _ child => child.worldState

/-- The gas that the parent is charged for a child that has ended. -/
def charge (p : Pending) : Outcome → Int
  | .ok result _ =>
    match p with
    | .call q => if result.success then result.gasUsed else q.forwardedGas
    | .create _ => result.gasUsed
  | .error _ _ =>
    match p with
    | .call q => q.forwardedGas
    | .create _ => 0

end Pending

/-- The parts of a parent frame after a child has ended, whatever came of it. -/
structure Settled (evm : EVM) (p : Pending) (o : Outcome) (evm' : EVM) : Prop where
  code : evm'.code = evm.code
  context : evm'.context = evm.context
  storage : evm'.storage = evm.storage
  worldState : evm'.worldState = p.merge o
  log : evm'.log = (final o).log ++ [.leave p.kind (endingOf o)]

/-- A shell without the gas. -/
def EVM.books (evm : EVM) : Shell := { evm.shell with gasRemaining := 0 }

variable {env : Env} {evm evm' : EVM} {p : Pending} {o : Outcome}

theorem settled_of_books (h : evm'.books = { evm.books with
      worldState := p.merge o
      log := (final o).log ++ [.leave p.kind (endingOf o)] }) : Settled evm p o evm' where
  code := congrArg Shell.code h
  context := congrArg Shell.context h
  storage := congrArg Shell.storage h
  worldState := congrArg Shell.worldState h
  log := congrArg Shell.log h

theorem keeps_books {α : Type} {x : EvmM α} (h : Keeps EVM.shell x) : Keeps EVM.books x :=
  fun s => congrArg (fun shell : Shell => { shell with gasRemaining := 0 }) (h s)

theorem keeps_useGas (amount : Int) : Keeps EVM.books (useGas amount) :=
  keeps_modify fun _ => rfl

theorem keeps_writeReturnData (retOffset retLength : Int) (returnData : Bytes) :
    Keeps EVM.shell (writeReturnData env retOffset retLength returnData) := by
  refine Keeps.ite ?_ (keeps_pure _)
  refine Keeps.ite ?_ (keeps_liftMemory _)
  exact (keeps_attempt _).bind fun _ => keeps_liftMemory _

theorem keeps_chargeAndPush (amount value : Int) :
    Keeps EVM.books (do useGas amount; stackPush value) :=
  (keeps_useGas _).bind fun _ => keeps_books (keeps_stackPush _)

/-- The exception that the code around a frame catches, or another one. -/
theorem outOfGas_or_other (e : Abort) :
    (∃ needed remaining, e = .raised (.evmError (.outOfGas needed remaining))) ∨
      ∀ needed remaining, e = .raised (.evmError (.outOfGas needed remaining)) → False := by
  by_cases h : ∃ needed remaining, e = .raised (.evmError (.outOfGas needed remaining))
  · exact .inl h
  · exact .inr fun needed remaining he => h ⟨needed, remaining, he⟩

theorem endingOf_raised {e : Abort} (child : EVM)
    (h : ∀ needed remaining, e ≠ .raised (.evmError (.outOfGas needed remaining))) :
    endingOf (.error e child) = .raised := by
  unfold endingOf
  split
  · contradiction
  · next he => cases he; exact absurd rfl (h _ _)
  · rfl

theorem opCallFinish_settled (q : PendingCall) :
    Settled evm (.call q) o (final (opCallFinish env q o evm)) := by
  refine settled_of_books ?_
  unfold opCallFinish
  split
  · next result child =>
    split
    · next hsuccess =>
      have hrest : Keeps EVM.books (do
          writeReturnData env q.retOffset q.retLength result.returnData
          useGas result.gasUsed
          stackPush 1) :=
        (keeps_books (keeps_writeReturnData _ _ _)).bind fun _ => keeps_chargeAndPush _ _
      rw [joinChild, bind_of_ok (modify_apply _ _), persistStorage,
        bind_of_ok (modify_apply _ _), hrest]
      rw [Pending.merge, endingOf, if_pos hsuccess, if_pos hsuccess]
      rfl
    · next hsuccess =>
      rw [joinChild, bind_of_ok (modify_apply _ _), keeps_chargeAndPush _ _]
      rw [Pending.merge, endingOf, if_neg hsuccess, if_neg hsuccess]
      rfl
  · rw [joinChild, bind_of_ok (modify_apply _ _), keeps_chargeAndPush _ _]
    rfl
  · next e child hne =>
    rw [joinChild, bind_of_ok (modify_apply _ _)]
    rw [endingOf_raised _ hne]
    rfl

theorem opCreateFinish_settled (q : PendingCreate) :
    Settled evm (.create q) o (final (opCreateFinish q o evm)) := by
  refine settled_of_books ?_
  unfold opCreateFinish
  split
  · next result child =>
    split
    · next hsuccess =>
      rw [joinChild, bind_of_ok (modify_apply _ _), bind_of_ok (modify_apply _ _),
        persistStorage, bind_of_ok (modify_apply _ _), keeps_chargeAndPush _ _]
      rw [Pending.merge, endingOf, if_pos hsuccess, if_pos hsuccess]
      simp only [EVM.books, EVM.shell, Option.map_map]
      rfl
    · next hsuccess =>
      rw [joinChild, bind_of_ok (modify_apply _ _), keeps_chargeAndPush _ _]
      rw [Pending.merge, endingOf, if_neg hsuccess, if_neg hsuccess]
      rfl
  · rw [joinChild, bind_of_ok (modify_apply _ _), keeps_books (keeps_stackPush _) _]
    rfl
  · next e child hne =>
    rw [joinChild, bind_of_ok (modify_apply _ _)]
    rw [endingOf_raised _ hne]
    rfl

theorem settle_settled (env : Env) (p : Pending) (o : Outcome) (evm : EVM) :
    Settled evm p o (final (settle env p o evm)) := by
  cases p with
  | call q => exact opCallFinish_settled q
  | create q => exact opCreateFinish_settled q

theorem gas_chargeAndPush (amount value : Int) (evm : EVM) :
    (final ((do useGas amount; stackPush value) evm)).gasRemaining =
      evm.gasRemaining - amount := by
  rw [useGas, bind_of_ok (modify_apply _ _)]
  exact congrArg Shell.gasRemaining (keeps_stackPush (f := EVM.shell) value _)

/-- What each step of the second half of an iteration maintains. -/
theorem settle_maintains {E : Abort → Prop} {I : EVM → Prop} (env : Env) {p : Pending} {o : Outcome}
    (hjoin : ∀ kind ending child, Maintains E I (joinChild kind ending child) fun _ => True)
    (hworld : ∀ f : WorldState → WorldState, Maintains E I
      (modify fun evm => { evm with worldState := evm.worldState.map f }) fun _ => True)
    (hwrite : ∀ q returnData, p = .call q →
      Maintains E I (writeReturnData env q.retOffset q.retLength returnData) fun _ => True)
    (hgas : ∀ amount, Maintains E I (useGas amount) fun _ => True)
    (hpush : ∀ value, value = 0 ∨ value = 1 ∨ value = intFromBytes p.address →
      Maintains E I (stackPush value) fun _ => True)
    (hthrow : ∀ e child, o = .error e child → E e) :
    Maintains E I (settle env p o) fun _ => True := by
  cases p with
  | call q =>
    change Maintains E I (opCallFinish env q o) fun _ => True
    unfold opCallFinish
    split
    · refine Maintains.ite (fun _ => ?_) fun _ => ?_
      · exact (hjoin _ _ _).bind fun _ _ => (hworld _).bind fun _ _ =>
          (hwrite q _ rfl).bind fun _ _ => (hgas _).bind fun _ _ => hpush 1 (.inr (.inl rfl))
      · exact (hjoin _ _ _).bind fun _ _ => (hgas _).bind fun _ _ => hpush 0 (.inl rfl)
    · exact (hjoin _ _ _).bind fun _ _ => (hgas _).bind fun _ _ => hpush 0 (.inl rfl)
    · exact (hjoin _ _ _).bind fun _ _ => maintains_throw (hthrow _ _ rfl)
  | create q =>
    change Maintains E I (opCreateFinish q o) fun _ => True
    unfold opCreateFinish
    split
    · refine Maintains.ite (fun _ => ?_) fun _ => ?_
      · exact (hjoin _ _ _).bind fun _ _ => (hworld _).bind fun _ _ => (hworld _).bind fun _ _ =>
          (hgas _).bind fun _ _ => hpush _ (.inr (.inr rfl))
      · exact (hjoin _ _ _).bind fun _ _ => (hgas _).bind fun _ _ => hpush 0 (.inl rfl)
    · exact (hjoin _ _ _).bind fun _ _ => hpush 0 (.inl rfl)
    · exact (hjoin _ _ _).bind fun _ _ => maintains_throw (hthrow _ _ rfl)

/-- A parent has paid for its child, or an exception came before that. -/
structure Paid (p : Pending) (o : Outcome) (evm : EVM) (r : EStateM.Result Abort EVM Unit) :
    Prop where
  final : (final r).gasRemaining = evm.gasRemaining ∨
    (final r).gasRemaining = evm.gasRemaining - p.charge o
  returned : ∀ evm', r = .ok () evm' →
    evm'.gasRemaining = evm.gasRemaining - p.charge o ∧ endingOf o ≠ .raised

theorem paid_chargeAndPush {amount value : Int} {evm₁ : EVM}
    (hgas : evm₁.gasRemaining = evm.gasRemaining) (hcharge : p.charge o = amount)
    (hend : endingOf o ≠ .raised) :
    Paid p o evm ((do useGas amount; stackPush value : EvmM Unit) evm₁) := by
  have h := gas_chargeAndPush amount value evm₁
  rw [hgas, ← hcharge] at h
  refine ⟨.inr (hcharge ▸ h), fun evm' hok => ⟨?_, hend⟩⟩
  rw [← hcharge] at hok
  rwa [hok] at h

theorem opCallFinish_paid (env : Env) (q : PendingCall) (o : Outcome) (evm : EVM) :
    Paid (.call q) o evm (opCallFinish env q o evm) := by
  unfold opCallFinish
  split
  · next result child =>
    split
    · next hsuccess =>
      rw [joinChild, bind_of_ok (modify_apply _ _), persistStorage, bind_of_ok (modify_apply _ _)]
      refine bind_cases ?_ ?_
      · intro _ evm₁ h₁
        have hgas := (keeps_writeReturnData _ _ _).of_ok h₁
        exact paid_chargeAndPush (congrArg Shell.gasRemaining hgas)
          (by simp [Pending.charge, hsuccess]) (by simp [endingOf, hsuccess])
      · intro e evm₁ h₁
        have hgas := (keeps_writeReturnData _ _ _).of_error h₁
        exact ⟨.inl (congrArg Shell.gasRemaining hgas), fun _ h => absurd h (by simp)⟩
    · next hsuccess =>
      rw [joinChild, bind_of_ok (modify_apply _ _)]
      exact paid_chargeAndPush rfl (by simp [Pending.charge, hsuccess])
        (by simp [endingOf, hsuccess])
  · rw [joinChild, bind_of_ok (modify_apply _ _)]
    exact paid_chargeAndPush rfl rfl (by simp [endingOf])
  · rw [joinChild, bind_of_ok (modify_apply _ _)]
    exact ⟨.inl rfl, fun _ h => absurd h (by simp [throw_apply])⟩

theorem opCreateFinish_paid (q : PendingCreate) (o : Outcome) (evm : EVM) :
    Paid (.create q) o evm (opCreateFinish q o evm) := by
  unfold opCreateFinish
  split
  · next result child =>
    split
    · next hsuccess =>
      rw [joinChild, bind_of_ok (modify_apply _ _), bind_of_ok (modify_apply _ _),
        persistStorage, bind_of_ok (modify_apply _ _)]
      exact paid_chargeAndPush rfl rfl (by simp [endingOf, hsuccess])
    · next hsuccess =>
      rw [joinChild, bind_of_ok (modify_apply _ _)]
      exact paid_chargeAndPush rfl rfl (by simp [endingOf, hsuccess])
  · rw [joinChild, bind_of_ok (modify_apply _ _)]
    have hkeeps : Keeps EVM.shell (stackPush 0) := keeps_stackPush 0
    refine ⟨.inl (congrArg Shell.gasRemaining (hkeeps _)), fun evm' h => ⟨?_, by simp [endingOf]⟩⟩
    exact (congrArg Shell.gasRemaining (hkeeps.of_ok h)).trans (sub_zero _).symm
  · rw [joinChild, bind_of_ok (modify_apply _ _)]
    exact ⟨.inl rfl, fun _ h => absurd h (by simp [throw_apply])⟩

theorem settle_paid (env : Env) (p : Pending) (o : Outcome) (evm : EVM) :
    Paid p o evm (settle env p o evm) := by
  cases p with
  | call q => exact opCallFinish_paid env q o evm
  | create q => exact opCreateFinish_paid q o evm

/-- A parent that continues has paid for the child, which did not end in an exception
other than `OutOfGas`. -/
theorem settle_gas (h : settle env p o evm = .ok () evm') :
    evm'.gasRemaining = evm.gasRemaining - p.charge o ∧ endingOf o ≠ .raised :=
  (settle_paid env p o evm).returned evm' h

end Ethereum
