import Ethereum.Encoding.Injective
import Ethereum.Evm.Metering
import Ethereum.Evm.Settle
import Ethereum.Evm.Termination
import Ethereum.Evm.WordRefinement

/-! The interpreter is the machine on words for frames that start frames, and over whole runs. -/
namespace Ethereum

open Stateful Padded Relational

namespace WordMachine

variable {env : Env} {I : Input} {evm evm' : EVM} {m m' : WordMachine}

/-- What `execute` makes of the end of the machine. -/
inductive Answers (gas : Nat) : Outcome → WordResult → Prop
  | returned {evm : EVM} {m : WordMachine} (hcells : ShowsCells evm.storage m.cells)
      (hworld : Option.Rel ShowsWorld evm.worldState m.world) (hshort : Short m.returnData)
      (hgas : m.gas ≤ gas) :
      Answers gas (.ok
        { success := !m.reverted
          returnData := m.returnData
          gasUsed := gas - m.gas
          gasRemaining := m.gas } evm) (.ok () m)
  | raised {e : Abort} {evm : EVM} {m : WordMachine}
      (hworld : Option.Rel ShowsWorld evm.worldState m.world) :
      Answers gas (.error e evm) (.error e.fault m)

/-- A frame at its start. -/
theorem shows_init {code : Bytes} {c : ExecutionContext} {storage : Dict Int Int} {cells : Cells}
    {w : Option WorldState} {v : Option WordWorld} {log : List Event} (hfits : Fits I)
    (hcode : code = I.code) (hcontext : c = ⟨I.caller, I.address, I.value.toNat, I.data, I.gas⟩)
    (hcells : ShowsCells storage cells) (hworld : Option.Rel ShowsWorld w v) :
    Shows env I (EVM.init code c storage w log) { cells, world := v, gas := I.gas } := by
  subst hcode hcontext
  exact {
    code := rfl
    data := rfl
    address := rfl
    caller := rfl
    value := rfl
    fits := hfits
    programCounter := rfl
    stack := rfl
    memory := refines_empty
    holds := .inl rfl
    cells := hcells
    world := hworld
    gas := rfl
    gas_le := le_rfl
    stopped := rfl
    reverted := rfl
    returnData := rfl
    answer_short := short_nil }

section Worlds

theorem rel_map {α β γ δ : Type} {R : α → β → Prop} {S : γ → δ → Prop} {f : α → γ} {g : β → δ}
    {o : Option α} {o' : Option β} (h : Option.Rel R o o') (hfg : ∀ a b, R a b → S (f a) (g b)) :
    Option.Rel S (o.map f) (o'.map g) := by
  cases h with
  | none => exact .none
  | some h => exact .some (hfg _ _ h)

theorem simulates_putWorld {w : WorldState} {v : WordWorld} (h : ShowsWorld w v) :
    Simulates env I (fun _ _ => True) (setWorld w) (putWorld v) :=
  simulates_modify fun _ _ hs => { hs with world := .some h }

theorem stands_zero : Stands 0 0 := rfl

theorem stands_one : Stands 1 1 := rfl

theorem simulates_attempt {α β γ : Type} {V : α → β → Prop} {x : Except PyException γ} {c : γ}
    {k : γ → EvmM α} {y : WordM β} (hx : x = .ok c) (h : Simulates env I V (k c) y) :
    Simulates env I V (attempt x >>= k) y := by
  subst hx
  exact h

/-- Give up a frame. -/
theorem simulates_pushNone {α β : Type} {V : α → β → Prop} {n : Int} {w : U256}
    (h : Stands n w) : Simulates env I (Option.Rel V) (do stackPush n; return none)
      (do push w; return none) :=
  (simulates_stackPush h).bind fun _ _ _ => related_pure .none

theorem computeContractAddress_natCast (creator : Bytes) (nonce : Nat) :
    computeContractAddress env creator nonce = .ok (contractAddress env creator nonce) := by
  have hbytes : intToRlpBytes nonce = .ok (BigEndian.minimal nonce) :=
    intToRlpBytes_eq_ok_iff.mpr ⟨Int.natCast_nonneg _, rfl⟩
  rw [computeContractAddress, hbytes]
  rfl

theorem length_contractAddress (creator : Bytes) (nonce : Nat) :
    (contractAddress env creator nonce).length = 20 := by
  rw [contractAddress, List.length_drop, env.keccak256_length]

theorem fault_of_other {e : Abort}
    (h : ∀ needed remaining, e = .raised (.evmError (.outOfGas needed remaining)) → False) :
    e.fault ≠ .outOfGas := by
  intro hfault
  rcases e with (_ | _ | _ | _ | e | _) | _
  case raised.evmError =>
    cases e with
    | outOfGas needed remaining => exact h needed remaining rfl
    | _ => cases hfault
  all_goals cases hfault

end Worlds

section Create

structure StartsCreate (env : Env) (p : PendingCreate) (f : WordFrame) : Prop where
  shows : Shows env f.input p.child f.start
  address : p.contractAddress = f.input.address

theorem simulates_createStart :
    Simulates env I (Option.Rel (StartsCreate env)) (opCreateStart env) (createStart env I) := by
  refine simulates_pop fun value => ?_
  refine simulates_pop fun offset => ?_
  refine simulates_pop fun size => ?_
  refine related_get_bind fun evm m h => ?_
  have hworld := h.world
  generalize evm.worldState = o, m.world = o' at hworld
  cases hworld with
  | none => exact simulates_pushNone stands_zero evm m h
  | @some w v hworld =>
    refine (simulates_readRange offset.toNat size.toNat).bind ?_ evm m h
    rintro code _ ⟨rfl, hcode⟩
    dsimp only
    rw [h.address, (hworld I.address).nonce]
    refine simulates_attempt (computeContractAddress_natCast _ _) ?_
    have hreserve := (hworld.bump I.address).touch
      (contractAddress env I.address (v I.address).nonce)
    refine (simulates_putWorld hreserve).bind fun _ _ _ => ?_
    cases hreserve.pay I.address (contractAddress env I.address (v I.address).nonce)
        value.toNat with
    | refused hw hv =>
      rw [hw, hv]
      exact simulates_pushNone stands_zero
    | paid hw hv hpaid =>
      rw [hw, hv]
      refine (simulates_putWorld hpaid).bind fun _ _ _ => related_pure (.some ⟨?_, rfl⟩)
      have hfits : Fits ⟨code, [], contractAddress env I.address (v I.address).nonce, I.address,
          value, m.gas⟩ :=
        ⟨hcode, short_nil, (length_contractAddress _ _).trans_le (by omega), h.fits.address,
          h.gas_le.trans_lt h.fits.gas⟩
      exact shows_init hfits rfl (by rw [h.gas]) showsCells_empty (.some hpaid)

/-- What is left when a child has used up some of what it was given. -/
theorem Shows.spend (h : Shows env I evm m) {cost : Int} {amount : Nat} (hcost : cost = amount)
    (hle : amount ≤ m.gas) : Shows env I { evm with gasRemaining := evm.gasRemaining - cost }
      { m with gas := m.gas - amount } := by
  have hgas := h.gas
  have hgas_le := h.gas_le
  refine { h with gas := ?_, gas_le := ?_ }
  · dsimp only
    omega
  · exact (Nat.sub_le _ _).trans hgas_le

theorem Shows.join (h : Shows env I evm m) {child : EVM} {child' : WordMachine}
    (hworld : Option.Rel ShowsWorld child.worldState child'.world) (log : List Event) :
    Shows env I { evm with worldState := child.worldState, log }
      { m with world := child'.world } := { h with world := hworld }

theorem Shows.changeWorld (h : Shows env I evm m) {f : WorldState → WorldState}
    {g : WordWorld → WordWorld} (hfg : ∀ w v, ShowsWorld w v → ShowsWorld (f w) (g v)) :
    Shows env I { evm with worldState := evm.worldState.map f }
      { m with world := m.world.map g } := { h with world := rel_map h.world hfg }

theorem simulates_join {child : EVM} {child' : WordMachine}
    (hworld : Option.Rel ShowsWorld child.worldState child'.world) (kind : FrameKind)
    (ending : Ending) :
    Simulates env I (fun _ _ => True) (joinChild kind ending child) (join child') :=
  simulates_modify fun _ _ h => { h with world := hworld }

/-- The end of a frame whose child has used some of its gas. -/
theorem simulates_spend {cost value : Int} {amount : Nat} {w : U256} (hcost : cost = amount)
    (hvalue : Stands value w) (h : Shows env I evm m) (hle : amount ≤ m.gas) :
    Agree (fun e f => e.fault = f) (Shows env I) (fun _ _ => True)
      ((useGas cost >>= fun _ => stackPush value) evm) ((spend amount >>= fun _ => push w) m) :=
  agree_modify_bind (simulates_stackPush hvalue _ _ (h.spend hcost hle))

theorem simulates_createFinish {p : PendingCreate} {f : WordFrame} (hp : StartsCreate env p f)
    {r : Outcome} {r' : WordResult} (hr : Answers f.input.gas r r') (h : Shows env I evm m)
    (hgas : f.input.gas ≤ m.gas) :
    Agree (fun e f => e.fault = f) (Shows env I) (fun _ _ => True) (opCreateFinish p r evm)
      (createFinish f r' m) := by
  cases hr with
  | @returned child child' hcells hworld hshort hle =>
    have hspent : (f.input.gas : Int) - child'.gas = (f.input.gas - child'.gas : Nat) :=
      (Int.ofNat_sub hle).symm
    have hpay : f.input.gas - child'.gas ≤ m.gas := (Nat.sub_le _ _).trans hgas
    rw [opCreateFinish, createFinish]
    cases hreverted : child'.reverted with
    | true =>
      have hjoin := h.join hworld (child.log ++ [.leave .create .failure])
      exact agree_modify_bind (simulates_spend hspent stands_zero hjoin hpay)
    | false =>
      have hjoin := h.join hworld (child.log ++ [.leave .create .success])
      have hdeploy := hjoin.changeWorld fun w v hw => hw.deploy f.input.address hshort
      have hpersist := hdeploy.changeWorld fun w v hw => hw.persist f.input.address hcells
      rw [hp.address]
      refine agree_modify_bind (agree_modify_bind (agree_modify_bind ?_))
      exact simulates_spend hspent (stands_ofBytes hp.shows.fits.address) hpersist hpay
  | @raised e child child' hworld =>
    rcases outOfGas_or_other e with ⟨needed, remaining, rfl⟩ | hother
    · exact ((simulates_join hworld .create .outOfGas).bind
        fun _ _ _ => simulates_stackPush stands_zero) evm m h
    · rw [opCreateFinish.eq_3 p e child hother,
        createFinish.eq_3 f e.fault child' (fault_of_other hother)]
      exact ((simulates_join hworld .create .raised).bind
        fun _ _ _ => simulates_throw rfl) evm m h

end Create

section Calls

structure StartsCall (env : Env) (p : PendingCall) (c : Call) : Prop where
  shows : Shows env c.input p.child c.start
  target : p.targetAddress = c.input.address
  gas : p.forwardedGas = c.input.gas
  retOffset : p.retOffset = c.retOffset
  retLength : p.retLength = c.retLength

/-- Without calldata there is nothing to read. -/
theorem simulates_readCalldata (o n : Nat) :
    Simulates env I (fun data data' => data = data' ∧ Short data') (readCalldata env o n)
      (readMemory env o n) := by
  rcases Nat.eq_zero_or_pos n with rfl | hpos
  · exact simulates_readRange o 0
  · rw [readCalldata, if_pos (by omega)]
    exact simulates_readRange o n

theorem intToBytes_toNat (v : U256) :
    intToBytes 32 v.toNat = .ok (BigEndian.toBytes 32 v.toNat) := by
  have hlt := v.isLt
  exact intToBytes_of_word (word_natCast hlt)

/-- Gas that is given and taken back. -/
theorem useGas_neg {α : Type} (amount : Int) (k : EvmM α) :
    (useGas amount >>= fun _ => useGas (-amount) >>= fun _ => k) = k := by
  funext evm
  have hgas : evm.gasRemaining - amount - -amount = evm.gasRemaining := by omega
  change k { evm with gasRemaining := evm.gasRemaining - amount - -amount } = k evm
  rw [hgas]

theorem simulates_callStart :
    Simulates env I (Option.Rel (StartsCall env)) (opCallStart env) (callStart env I) := by
  refine simulates_pop fun gas => ?_
  refine simulates_pop fun address => ?_
  refine simulates_pop fun value => ?_
  refine simulates_pop fun argsOffset => ?_
  refine simulates_pop fun argsLength => ?_
  refine simulates_pop fun retOffset => ?_
  refine simulates_pop fun retLength => ?_
  refine related_get_bind fun evm m h => ?_
  have hworld := h.world
  generalize evm.worldState = o, m.world = o' at hworld
  cases hworld with
  | none => exact simulates_pushNone stands_zero evm m h
  | @some w v hworld =>
    have htarget : (BigEndian.toBytes 32 address.toNat).drop 12 =
        BigEndian.toBytes 20 address.toNat := BigEndian.drop_toBytes 12 20 address.toNat
    refine simulates_attempt (intToBytes_toNat address) ?_ evm m h
    dsimp only
    rw [htarget, h.address, h.gas]
    generalize htarget' : BigEndian.toBytes 20 address.toNat = target
    have hlength : target.length = 20 := htarget' ▸ BigEndian.length_toBytes 20 _
    refine (simulates_readCalldata argsOffset.toNat argsLength.toNat).bind ?_
    rintro data _ ⟨rfl, hdata⟩
    have hcode := (hworld target).code
    cases hworld.pay I.address target value.toNat with
    | refused hw hv =>
      rw [hw, hv]
      exact simulates_pushNone stands_zero
    | paid hw hv hpaid =>
      rw [hw, hv]
      refine (simulates_putWorld hpaid).bind fun _ _ _ => ?_
      rw [hcode]
      refine Related.ite Iff.rfl ?_ ?_
      · rw [useGas_neg]
        exact simulates_pushNone stands_one
      · have hgas : min (gas.toNat : Int) m.gas = (min gas.toNat m.gas : Nat) := by omega
        have hfits : Fits ⟨(v target).code, data, target, I.address, value, min gas.toNat m.gas⟩ :=
          ⟨(hworld target).short, hdata, hlength.trans_le (by omega), h.fits.address,
            (Nat.min_le_right _ _).trans_lt (h.gas_le.trans_lt h.fits.gas)⟩
        refine related_pure (.some ⟨?_, rfl, hgas, rfl, rfl⟩)
        exact shows_init hfits rfl (by rw [hgas]) (hworld target).cells (.some hpaid)

theorem simulates_writeAnswer (o n : Nat) (answer : Bytes) :
    Simulates env I (fun _ _ => True) (writeReturnData env o n answer)
      (writeAnswer env o n answer) := by
  by_cases hanswer : answer = []
  · rw [writeReturnData, if_neg (fun h => h.2 hanswer), writeAnswer, if_pos hanswer]
    exact related_pure trivial
  rw [writeAnswer, if_neg hanswer]
  rcases Nat.eq_zero_or_pos n with rfl | hpos
  · rw [writeReturnData, if_neg (fun h => absurd h.1 (by omega))]
    exact simulates_writeRange o []
  rw [writeReturnData, if_pos ⟨by omega, hanswer⟩, Int.toNat_natCast]
  have hpadded : read (view 0 answer) 0 n =
      answer.take n ++ List.replicate ((n : Int) - (answer.take n).length).toNat 0 := by
    rw [read_view_zero, List.length_take]
    congr 2
    omega
  rw [hpadded]
  dsimp only
  split
  · next hmissing =>
    intro evm m h
    have hlength : (answer.take n ++
        List.replicate ((n : Int) - (answer.take n).length).toNat 0).length = n := by
      rw [← hpadded, length_read]
    rcases Nat.lt_or_ge n env.bufferLimit with hlt | hge
    · exact simulates_attempt (allocate_of_lt (by omega) (by omega))
        (simulates_writeRange o _) evm m h
    · obtain ⟨e, he, hmemory⟩ : ∃ e, env.allocate ((n : Int) - (answer.take n).length) n =
        .error e ∧ e.IsMemory := allocate_of_le (by omega)
      rw [he]
      exact agree_noBuffer hmemory h (by omega) (by omega)
  · next hmissing =>
    have hzero : ((n : Int) - (answer.take n).length).toNat = 0 := by omega
    rw [hzero, List.replicate_zero, List.append_nil]
    exact simulates_writeRange o _

theorem simulates_callFinish {p : PendingCall} {c : Call} (hp : StartsCall env p c)
    {r : Outcome} {r' : WordResult} (hr : Answers c.input.gas r r') (h : Shows env I evm m)
    (hgas : c.input.gas ≤ m.gas) :
    Agree (fun e f => e.fault = f) (Shows env I) (fun _ _ => True) (opCallFinish env p r evm)
      (callFinish env c r' m) := by
  cases hr with
  | @returned child child' hcells hworld hshort hle =>
    rw [opCallFinish, callFinish]
    cases hreverted : child'.reverted with
    | true =>
      have hjoin := h.join hworld (child.log ++ [.leave .call .failure])
      exact agree_modify_bind (simulates_spend hp.gas stands_zero hjoin hgas)
    | false =>
      have hjoin := h.join hworld (child.log ++ [.leave .call .success])
      have hpersist := hjoin.changeWorld fun w v hw => hw.persist c.input.address hcells
      rw [hp.target, hp.retOffset, hp.retLength]
      refine agree_modify_bind (agree_modify_bind ?_)
      refine (simulates_writeAnswer _ _ _ _ _ hpersist).bind ?_
      intro _ _ evm' m' hwrite _ h'
      have hkept : evm'.gasRemaining = evm.gasRemaining :=
        congrArg Shell.gasRemaining ((keeps_writeReturnData _ _ _).of_ok hwrite)
      have hleft : m'.gas = m.gas := by
        have hgas := h.gas
        have hgas' := h'.gas
        omega
      exact simulates_spend (Int.ofNat_sub hle).symm stands_one h' (by omega)
  | @raised e child child' hworld =>
    rcases outOfGas_or_other e with ⟨needed, remaining, rfl⟩ | hother
    · have hjoin := h.join hworld (child.log ++ [.leave .call .outOfGas])
      exact agree_modify_bind (simulates_spend hp.gas stands_zero hjoin hgas)
    · rw [opCallFinish.eq_3 env p e child hother,
        callFinish.eq_3 env c e.fault child' (fault_of_other hother)]
      exact ((simulates_join hworld .call .raised).bind
        fun _ _ _ => simulates_throw rfl) evm m h

end Calls

section Runs

/-- What frames do, in the interpreter and in the machine. -/
def Executes (env : Env) (exec : EVM → Outcome) (exec' : Input → WordMachine → WordResult) : Prop :=
  ∀ J evm m, Shows env J evm m → m.gas = J.gas → Answers J.gas (exec evm) (exec' J m)

variable {exec : EVM → Outcome} {exec' : Input → WordMachine → WordResult}

theorem child_gas_le {p : Pending} (h : Start evm (.ok (some p) evm')) :
    p.child.gasRemaining ≤ evm'.gasRemaining := by
  generalize hr : (EStateM.Result.ok (some p) evm' : EStateM.Result Abort EVM _) = r at h
  cases h with
  | unchanged hnone => exact absurd hr.symm (hnone p evm')
  | paid hnone => exact absurd hr.symm (hnone p evm')
  | reserved hnone => exact absurd hr.symm (hnone p evm')
  | child hc hs =>
    cases hr
    rw [show evm'.gasRemaining = evm.gasRemaining from congrArg Shell.gasRemaining hs, hc.child]
    exact hc.gas_le

/-- A child is not given more than is left. -/
theorem gas_le_of_start {p : Pending} (hstart : Start evm (.ok (some p) evm')) {J : Input}
    {child : WordMachine} (hchild : Shows env J p.child child) (hgas : child.gas = J.gas)
    (h : Shows env I evm' m') : J.gas ≤ m'.gas := by
  have hle := child_gas_le hstart
  rw [hchild.gas, h.gas, hgas] at hle
  exact Int.ofNat_le.mp hle

theorem simulates_create (hexec : Executes env exec exec') :
    Simulates env I (fun _ _ => True) (opCreate env exec) (instruction env I exec' .create) := by
  intro evm m h
  refine (simulates_createStart evm m h).bind ?_
  intro o o' evm' m' hstart ho h'
  cases ho with
  | none => exact related_pure trivial evm' m' h'
  | @some p f hp =>
    have hchildOf : StartAs Pending.create evm (opCreateStart env evm) := opCreateStart_start
    rw [hstart] at hchildOf
    have hle : f.input.gas ≤ m'.gas := gas_le_of_start (p := .create p) hchildOf hp.shows rfl h'
    exact simulates_createFinish hp (hexec _ _ _ hp.shows rfl) h' hle

theorem simulates_call (hexec : Executes env exec exec') :
    Simulates env I (fun _ _ => True) (opCall env exec) (instruction env I exec' .call) := by
  intro evm m h
  refine (simulates_callStart evm m h).bind ?_
  intro o o' evm' m' hstart ho h'
  cases ho with
  | none => exact related_pure trivial evm' m' h'
  | @some p c hp =>
    have hchildOf : StartAs Pending.call evm (opCallStart env evm) := opCallStart_start
    rw [hstart] at hchildOf
    have hle : c.input.gas ≤ m'.gas := gas_le_of_start (p := .call p) hchildOf hp.shows rfl h'
    exact simulates_callFinish hp (hexec _ _ _ hp.shows rfl) h' hle

theorem simulates_instruction (hexec : Executes env exec exec') {opcode : Opcode}
    (hpush : ∀ n, opcode = .push n → n ≤ 32) :
    Simulates env I (fun _ _ => True) (dispatch env exec opcode)
      (instruction env I exec' opcode) := by
  by_cases hcreate : opcode = .create
  · subst hcreate
    exact simulates_create hexec
  by_cases hcall : opcode = .call
  · subst hcall
    exact simulates_call hexec
  have hperform : instruction env I exec' opcode = perform env I opcode := by
    cases opcode <;> first | rfl | contradiction
  rw [dispatch_local exec hcreate hcall, hperform]
  exact simulates_localOp hpush

theorem simulates_consumeGas {cost : Int} (h0 : 0 ≤ cost) :
    Simulates env I (fun _ _ => True) (consumeGas cost) (payGas cost.toNat) := by
  refine related_get_bind fun evm m h => ?_
  have hless : evm.gasRemaining < cost ↔ m.gas < cost.toNat := by
    rw [h.gas]
    omega
  by_cases hgas : m.gas < cost.toNat
  · rw [if_pos (hless.mpr hgas), if_pos hgas]
    exact .error rfl h
  · rw [if_neg (mt hless.mp hgas), if_neg hgas]
    exact .ok trivial (h.spend (Int.toNat_of_nonneg h0).symm (Nat.not_lt.mp hgas))

theorem iterate_of_opcode (exec : EVM → Outcome) {byte : UInt8} {opcode : Opcode}
    (hbyte : evm.code[evm.programCounter]? = some byte)
    (hop : Opcode.ofByte byte = some opcode) (hne : opcode ≠ .invalid) :
    iterate env exec evm =
      (consumeGas (gasCost opcode) >>= fun _ =>
        emit (.executed evm.context.address opcode) >>= fun _ =>
        (modify fun evm => { evm with programCounter := evm.programCounter + 1 }) >>= fun _ =>
        dispatch env exec opcode) evm := by
  simp only [iterate, bind_apply, get_apply, hbyte, hop]

theorem step_of_opcode (exec' : Input → WordMachine → WordResult) {byte : UInt8}
    {opcode : Opcode} (hbyte : I.code[m.programCounter]? = some byte)
    (hop : Opcode.ofByte byte = some opcode) (hne : opcode ≠ .invalid) :
    step env I exec' m =
      (payGas (gasCost opcode).toNat >>= fun _ =>
        (modify fun m => { m with programCounter := m.programCounter + 1 }) >>= fun _ =>
        instruction env I exec' opcode) m := by
  simp only [step, bind_apply, get_apply, hbyte, hop, if_neg hne]

/-- One round of the loop is one instruction. -/
theorem simulates_iterate (hexec : Executes env exec exec') :
    Simulates env I (fun _ _ => True) (iterate env exec) (step env I exec') := by
  intro evm m h
  cases hbyte : I.code[m.programCounter]? with
  | none =>
    have hbyte' : evm.code[evm.programCounter]? = none := by rw [h.code, h.programCounter, hbyte]
    simp only [iterate, step, bind_apply, get_apply, hbyte, hbyte', pure_apply]
    exact .ok trivial h
  | some byte =>
    have hbyte' : evm.code[evm.programCounter]? = some byte := by
      rw [h.code, h.programCounter, hbyte]
    cases hop : Opcode.ofByte byte with
    | none =>
      simp only [iterate, step, bind_apply, get_apply, hbyte, hbyte', hop]
      exact .error rfl h
    | some opcode =>
      by_cases hinvalid : opcode = .invalid
      · subst hinvalid
        simp only [iterate, step, bind_apply, get_apply, hbyte, hbyte', hop]
        exact .ok trivial
          { h with gas := rfl, gas_le := Nat.zero_le _, stopped := rfl, reverted := rfl }
      · rw [iterate_of_opcode exec hbyte' hop hinvalid, step_of_opcode exec' hbyte hop hinvalid]
        refine Related.bind (V := fun _ _ => True) (simulates_consumeGas (gasCost_nonneg _))
          (fun _ _ _ => simulates_emit _ (Related.bind (V := fun _ _ => True) ?_ fun _ _ _ => ?_))
          evm m h
        · exact simulates_modify fun evm m h =>
            { h with programCounter := congrArg (· + 1) h.programCounter }
        · exact simulates_instruction hexec fun n hn => pushSize_le (hn ▸ hop)

theorem answers_conclude {gas : Int} {r : EStateM.Result Abort EVM Unit} {r' : WordResult}
    (hgas : gas = I.gas)
    (h : Agree (fun e f => e.fault = f) (Shows env I) (fun _ _ => True) r r') :
    Answers I.gas (conclude gas r) r' := by
  subst hgas
  cases h with
  | @ok _ _ evm m _ hs =>
    have hresult : Answers I.gas (.ok ⟨!m.reverted, m.returnData, I.gas - m.gas, m.gas, none⟩ evm)
        (.ok () m) := .returned hs.cells hs.world hs.answer_short hs.gas_le
    rw [← hs.reverted, ← hs.returnData, ← hs.gas] at hresult
    exact hresult
  | @error e f evm m he hs =>
    subst he
    rcases outOfGas_or_other e with ⟨needed, remaining, rfl⟩ | hother
    · exact .raised hs.world
    · rw [conclude.eq_3 _ e evm hother]
      exact .raised hs.world

theorem simulates_runLoop (I : Input) (fuel : Nat) :
    Simulates env I (fun _ _ => True) (runLoop env fuel) (run env I fuel) := by
  induction fuel generalizing I with
  | zero => exact simulates_throw rfl
  | succ fuel ih =>
    refine related_get_bind fun evm m h => ?_
    have hrunning : evm.running = true ↔ m.running I = true := by
      rw [EVM.running, running, h.stopped, h.programCounter, h.code]
    have hexec : Executes env (fun child => conclude child.gasRemaining (runLoop env fuel child))
        fun J => run env J fuel :=
      fun J child m hs hgas => answers_conclude (by rw [hs.gas, hgas]) (ih J child m hs)
    exact Related.ite hrunning ((simulates_iterate hexec).bind fun _ _ _ => ih I)
      (related_pure trivial) evm m h

/-- A frame is given words. -/
structure Worded (evm : EVM) : Prop where
  inRange : evm.InRange
  solvent : ∀ w, evm.worldState = some w → w.Solvent
  nonce : ∀ w, evm.worldState = some w → ∀ a, 0 ≤ (w.getAccount a).nonce

def input (code : Bytes) (context : ExecutionContext) : Input where
  code := code
  data := context.data
  address := context.address
  caller := context.caller
  value := .ofNat 256 context.value.toNat
  gas := context.gas.toNat

def start (context : ExecutionContext) (storage : Dict Int Int) (world : Option WorldState) :
    WordMachine where
  cells := cellsOf storage
  world := world.map wordsOf
  gas := context.gas.toNat

theorem shows_start {code : Bytes} {context : ExecutionContext} {storage : Dict Int Int}
    {world : Option WorldState} {log : List Event}
    (h : Worded (EVM.init code context storage world log)) :
    Shows env (input code context) (EVM.init code context storage world log)
      (start context storage world) := by
  have hgas : context.gas = context.gas.toNat := (Int.toNat_of_nonneg h.inRange.gas.nonneg).symm
  have hlt : context.gas < 2 ^ 256 := h.inRange.gas.lt
  have hfits : Fits (input code context) :=
    ⟨h.inRange.code, h.inRange.data, h.inRange.address, h.inRange.caller,
      show context.gas.toNat < 2 ^ 256 by omega⟩
  have hvalue : context.value = _ := stands_word h.inRange.value
  have hworld : Option.Rel ShowsWorld world (world.map wordsOf) := by
    cases hw : world with
    | none => exact .none
    | some w =>
      exact .some (.of_inRange (h.inRange.shared.world w hw) (h.solvent w hw) (h.nonce w hw))
  refine shows_init hfits rfl ?_ (showsCells_cellsOf h.inRange.storage) hworld
  exact congrArg₂ (fun value gas => { context with value, gas : ExecutionContext }) hvalue hgas

theorem fault_of_isRaised {e : Abort} (h : e.IsRaised) : e.fault ≠ .outOfFuel := by
  intro hfault
  rcases e with (_ | _ | _ | _ | e | _) | _
  case raised.evmError => cases e <;> cases hfault
  case outOfFuel => exact h rfl
  all_goals cases hfault

/-- The interpreter gives the result of the machine on words, through every nesting of frames:
the same success, return data, gas, storage and ledger, or an exception about the same fault.
Slightly more steps than gas are always enough. -/
theorem interpreter_refines_word_machine (env : Env) (fuel : Nat) (code : Bytes)
    (context : ExecutionContext) (storage : Dict Int Int) (world : Option WorldState)
    (log : List Event) (h : Worded (EVM.init code context storage world log)) :
    Answers context.gas.toNat (execute env fuel (EVM.init code context storage world log))
      (run env (input code context) fuel (start context storage world)) ∧
    (context.gas.toNat + 2 ≤ fuel → ∀ m,
      run env (input code context) fuel (start context storage world) ≠ .error .outOfFuel m) := by
  have hagree : Agree (fun e f => e.fault = f) (Shows env (input code context)) (fun _ _ => True)
      (runLoop env fuel (EVM.init code context storage world log))
      (run env (input code context) fuel (start context storage world)) :=
    simulates_runLoop (input code context) fuel _ _ (shows_start h)
  have hgas : context.gas = (input code context).gas :=
    (Int.toNat_of_nonneg h.inRange.gas.nonneg).symm
  refine ⟨answers_conclude hgas hagree, fun hfuel m hrun => ?_⟩
  have hends : Ends (runLoop env fuel (EVM.init code context storage world log)) :=
    runLoop_ends fuel _ h.inRange hfuel
  rw [hrun] at hagree
  generalize runLoop env fuel (EVM.init code context storage world log) = r at hagree hends
  cases hagree with
  | error he _ => exact fault_of_isRaised (hends _ _ rfl) he

theorem worded_sample {code : Bytes} {gas : Int} (hcode : Short code) (hgas : Word gas) :
    Worded (EVM.init code (sampleContext gas) .empty (some (sampleWorld code sevenCode)) []) := by
  have haccounts : ∀ e ∈ (sampleWorld code sevenCode).accounts.entries,
      (Short e.2.code ∧ WordValued e.2.storage) ∧ 0 ≤ e.2.balance ∧ 0 ≤ e.2.nonce := by
    intro e he
    simp only [sampleWorld, List.mem_cons, List.not_mem_nil, or_false] at he
    rcases he with rfl | rfl | rfl
    · exact ⟨⟨short_nil, wordValued_empty⟩, show (0 : Int) ≤ 1000000 by omega, le_rfl⟩
    · exact ⟨⟨hcode, wordValued_empty⟩, show (0 : Int) ≤ 10 by omega, le_rfl⟩
    · exact ⟨⟨show Short sevenCode by simp [Short, sevenCode], wordValued_empty⟩, le_rfl, le_rfl⟩
  refine ⟨{ inRange_sampleStart hcode hgas with shared := ?_ }, ?_, ?_⟩
  · refine ⟨fun w h => ?_, fun _ _ h => absurd h List.not_mem_nil⟩
    cases h
    exact inRange_of_entries fun e he => (haccounts e he).1
  · rintro w ⟨⟩
    exact solvent_of_entries fun e he => (haccounts e he).2.1
  · rintro w ⟨⟩
    exact WorldState.forall_getAccount (P := fun account => 0 ≤ account.nonce) le_rfl
      fun e he => (haccounts e he).2.2

/-- A contract pays 2 wei to another one, which writes its storage. -/
theorem interpreter_refines_word_machine_call : ∃ result evm w,
    execute sampleEnv 100 (EVM.init (callCode sampleCallee 2 [0x00]) (sampleContext 30000) .empty
      (some (sampleWorld (callCode sampleCallee 2 [0x00]) sevenCode)) []) = .ok result evm ∧
    result.success = true ∧ evm.worldState = some w ∧ w.getStorage sampleCallee 0 = 7 ∧
      w.getBalance sampleCallee = 2 := by
  obtain ⟨_, m, hrun, hp⟩ := exists_of_returns
    (p := fun (_ : Unit) (m : WordMachine) => !m.reverted && m.world.any fun v =>
      (v sampleCallee).cells 0 == some 7 && (v sampleCallee).balance == 2)
    (r := run sampleEnv (input (callCode sampleCallee 2 [0x00]) (sampleContext 30000)) 100
      (start (sampleContext 30000) .empty
        (some (sampleWorld (callCode sampleCallee 2 [0x00]) sevenCode)))) (by decide +kernel)
  have h := (interpreter_refines_word_machine sampleEnv 100 (callCode sampleCallee 2 [0x00])
    (sampleContext 30000) .empty (some (sampleWorld (callCode sampleCallee 2 [0x00]) sevenCode)) []
    (worded_sample (by simp [Short, callCode, sampleCallee]) ⟨by omega, by omega⟩)).1
  rw [hrun] at h
  obtain ⟨hsuccess, hworld⟩ := Bool.and_eq_true_iff.mp hp
  obtain ⟨v, hv, hcallee⟩ := (Option.any_eq_true _ _).mp hworld
  obtain ⟨hcell, hbalance⟩ := Bool.and_eq_true_iff.mp hcallee
  generalize execute sampleEnv 100 _ = r at h
  cases h with
  | @returned evm _ _ hshows =>
    rw [hv] at hshows
    generalize hw : evm.worldState = o at hshows
    cases hshows with
    | @some w _ hshows =>
      have haccount := hshows sampleCallee
      have hstored := haccount.cells.stands 0
      rw [beq_iff_eq.mp hcell] at hstored
      have hpaid := haccount.balance
      rw [beq_iff_eq.mp hbalance] at hpaid
      exact ⟨_, evm, w, rfl, hsuccess, hw, hstored, hpaid⟩

end Runs

end WordMachine

end Ethereum
