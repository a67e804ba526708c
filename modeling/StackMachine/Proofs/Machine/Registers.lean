import StackMachine.Proofs.Binary64.Integers
import StackMachine.Proofs.Machine.Account

set_option autoImplicit false

namespace StackMachine

theorem setIfInBounds_getElem_self {α : Type} {n i : Nat} (xs : Vector α n) (inside : i < n) :
    xs.setIfInBounds i xs[i] = xs := by
  ext j bound
  rw [Vector.getElem_setIfInBounds bound]
  split
  next same =>
    subst same
    rfl
  next => rfl

namespace Registers

variable {registers stored : Registers} {r : Register} {value : Binary64}

def Faithful (registers : Registers) : Prop :=
  ∀ (slot : Nat) (_ : slot < 4),
    (Binary64.ofInt registers.address[slot].toInt).toInt64 = registers.address[slot]

theorem faithful_zeroed : zeroed.Faithful := by
  intro slot inside
  simp only [zeroed, Vector.getElem_replicate]
  decide +kernel

theorem Faithful.set? (faithful : registers.Faithful) (set : registers.set? r value = some stored) :
    stored.Faithful := by
  unfold Registers.set? at set
  split at set
  next =>
    cases bank : r.bank <;> simp only [bank] at set <;> cases set
    · intro slot inside
      simp only [Vector.getElem_setIfInBounds]
      split
      next => exact Binary64.toInt64_ofInt_toInt64 value
      next => exact faithful slot inside
    · exact faithful
  next => cases set

theorem get?_of_set?_self (set : registers.set? r value = some stored) :
    stored.get? r = some (match r.bank with
      | .address => .ofInt value.clampedPart
      | .value => value) := by
  unfold Registers.set? at set
  split at set
  next inside =>
    cases bank : r.bank <;> simp only [bank] at set <;> cases set
    · simp [get?, bank, inside, (Binary64.ofInt_toInt64 value).1]
    · simp [get?, bank, inside]
  next => cases set

theorem set?_of_get? (faithful : registers.Faithful) (get : registers.get? r = some value) :
    registers.set? r value = some registers := by
  cases bank : r.bank with
  | address =>
    simp only [get?, bank, Option.map_eq_some_iff, Vector.getElem?_eq_some_iff] at get
    obtain ⟨_, ⟨inside, rfl⟩, rfl⟩ := get
    simp only [Registers.set?, inside, bank, if_true, faithful r.slot inside,
      setIfInBounds_getElem_self]
  | value =>
    simp only [get?, bank, Vector.getElem?_eq_some_iff] at get
    obtain ⟨inside, rfl⟩ := get
    simp only [Registers.set?, inside, bank, if_true, setIfInBounds_getElem_self]

theorem set?_congr (bank : r.bank = .address) {other : Binary64}
    (same : other.toInt64 = value.toInt64) : registers.set? r other = registers.set? r value := by
  simp only [Registers.set?, bank, same]

theorem address_of_set? (bank : r.bank = .value) (set : registers.set? r value = some stored) :
    stored.address = registers.address := by
  simp only [Registers.set?, bank, Option.ite_none_right_eq_some] at set
  obtain ⟨-, same⟩ := set
  cases same
  rfl

/-- What a register has become that was pushed and popped: what it was, but for the sign of a zero
and the pattern of a NaN. -/
structure GivenBack (r : Register) (before after : Registers) : Prop where
  others : ∀ other : Register, other ≠ r → after.get? other = before.get? other
  address : after.address = before.address
  kept : ∀ value : Binary64, before.get? r = some value →
    r.bank = .address ∨ value.isNaN = false ∧ value ≠ Binary64.zero.neg → after = before
  zero : r.bank = .value → before.get? r = some Binary64.zero.neg → after.get? r = some .zero
  nan : ∀ value : Binary64, r.bank = .value → before.get? r = some value → value.isNaN = true →
    ∃ nan : Binary64, nan.isNaN = true ∧ after.get? r = some nan

end Registers

theorem Binary64.toInt64_add_zero (x : Binary64) : (x.add zero).toInt64 = x.toInt64 := by
  rw [add_zero]
  split
  next none =>
    rw [toInt64, toInt64, if_pos none]
    rfl
  next =>
    unfold unsigned
    split
    next same =>
      rw [same]
      decide +kernel
    next => rfl

theorem Registers.givenBack {registers stored : Registers} {r : Register} {value : Binary64}
    (faithful : registers.Faithful) (get : registers.get? r = some value)
    (set : registers.set? r (value.add .zero) = some stored) :
    GivenBack r registers stored := by
  have kept (same : registers.set? r (value.add .zero) = registers.set? r value) :
      stored = registers := by
    rw [set, set?_of_get? faithful get] at same
    exact Option.some.inj same
  -- The conversion to an integer sees neither the sign of a zero nor the pattern of a NaN.
  have converted (bank : r.bank = .address) : stored = registers :=
    kept (set?_congr bank value.toInt64_add_zero)
  have held (bank : r.bank = .value) : stored.get? r = some (value.add .zero) := by
    have self := get?_of_set?_self set
    rwa [bank] at self
  refine ⟨fun other => get?_of_set? set, ?_, ?_, ?_, ?_⟩
  · cases bank : r.bank with
    | address => rw [converted bank]
    | value => exact address_of_set? bank set
  · rintro other shown (bank | ⟨number, some⟩)
    · exact converted bank
    · rw [get] at shown
      cases shown
      have same : value.add .zero = value := by
        rw [Binary64.add_zero, number, Binary64.unsigned, if_neg some]
        rfl
      exact kept (by rw [same])
  · intro bank shown
    rw [get] at shown
    cases shown
    exact held bank
  · intro other bank shown none
    rw [get] at shown
    cases shown
    refine ⟨_, ?_, held bank⟩
    rw [Binary64.add_zero, if_pos none]
    decide

def Operand.ofRegister (r : Register) : Operand := ⟨some r, none, false⟩

namespace Action

variable {session : Session} {r : Register} {value : Binary64} {rest : List Binary64}

theorem ran_of_ends {α : Type} {action : Action α} {result : α} {after : Session}
    (ends : action.Ends session (fun a left => a = result ∧ left = after) fun _ _ => False) :
    action session = .ok result after := by
  unfold Ends at ends
  split at ends
  next ran =>
    obtain ⟨rfl, rfl⟩ := ends
    exact ran
  next => cases ends

theorem inTable_ofRegister (known : r.InTable) : (Operand.ofRegister r).InTable := by
  rintro other ⟨⟩
  exact known

theorem execute_push_register (known : r.InTable)
    (get : session.machine.registers.get? r = some value) (length next : Nat) :
    execute length next (.push (.ofRegister r)) session =
      .ok (.next next) (session.pushed (value.add .zero)) := by
  apply ran_of_ends
  apply ends_then.mpr
  apply (ends_pushOperand (inTable_ofRegister known)).mpr
  simp [Machine.valueOf?, Machine.sumOf, Operand.ofRegister, get]

theorem execute_pop_register (known : r.InTable) (top : session.machine.stack = value :: rest)
    (length next : Nat) :
    ∃ registers events, session.machine.registers.set? r value = some registers ∧
      execute length next (.pop (.ofRegister r)) session = .ok (.next next)
        ⟨{ session.machine with stack := rest, registers }, session.sink, events⟩ := by
  obtain ⟨registers, set⟩ := session.machine.registers.exists_set? known value
  obtain ⟨stored, get⟩ := registers.exists_get? known
  refine ⟨registers, session.events ++ [.pop value] ++ [.register r stored], set, ?_⟩
  apply ran_of_ends
  apply ends_then.mpr
  apply (ends_popToRegister known).mpr
  rw [top]
  refine ⟨registers, stored, set, get, rfl, ?_⟩
  simp [Session.assigned, Session.popped, top]

theorem push_pop_register (faithful : session.machine.registers.Faithful) (known : r.InTable)
    (length middle next : Nat) :
    ∃ registers events,
      (execute length middle (.push (.ofRegister r)) >>= fun _ =>
        execute length next (.pop (.ofRegister r))) session =
          .ok (.next next) ⟨{ session.machine with registers }, session.sink, events⟩ ∧
      Registers.GivenBack r session.machine.registers registers := by
  obtain ⟨value, get⟩ := session.machine.registers.exists_get? known
  have top : (session.pushed (value.add .zero)).machine.stack =
    value.add .zero :: session.machine.stack := rfl
  obtain ⟨registers, events, set, popped⟩ := execute_pop_register known top length next
  refine ⟨registers, events, ?_, Registers.givenBack faithful get set⟩
  simp only [Bind.bind, EStateM.bind, execute_push_register known get, popped]
  rfl

theorem faithful_turn (program : Program) (faithful : session.machine.registers.Faithful) :
    (turn program).Ends session (fun _ after => after.machine.registers.Faithful)
      fun _ after => after.machine.registers.Faithful := by
  apply turn_ends
  case halts => exact fun _ => faithful
  case spent => exact fun _ _ => faithful
  case garbled => exact fun _ _ _ => faithful
  case executes =>
    intro i next known _
    have kept {after : Session} (changes : (session.paid.counted i).Changes after) :
        after.machine.registers.Faithful := by
      refine @Session.Changes.kept _ _ (·.machine.registers.Faithful) changes faithful ?_
      intro before after faithful change
      -- Only an assignment writes a register.
      cases change with
      | assign set => exact faithful.set? set
      | _ => exact faithful
    apply (changes_execute known _ _ _).mono
    · rintro (pc | _) after changes
      · have still := kept changes
        exact still
      · have still := kept changes
        exact still
    · exact fun _ _ changes => kept changes

end Action

inductive Visited (program : Program) (machine : Machine) (sink : Sink) : Machine → Sink → Prop
  | between {state : Machine} {written : Sink}
    (reached : Reached program machine sink state written) :
    Visited program machine sink state written
  | last {before state : Machine} {earlier written : Sink} {fault : Option RuntimeFault}
    (reached : Reached program machine sink before earlier)
    (stops : Stops program before earlier state written fault) :
    Visited program machine sink state written

theorem Visited.faithful {program : Program} {machine state : Machine} {sink written : Sink}
    (visited : Visited program machine sink state written) : state.registers.Faithful := by
  have between {state : Machine} {written : Sink}
      (reached : Reached program machine sink state written) : state.registers.Faithful := by
    refine @Reached.invariant _ _ _ _ _ (·.registers.Faithful) reached Registers.faithful_zeroed ?_
    intro before written after faithful ran
    exact (Action.ends_iff.mp (@Action.faithful_turn ⟨before, written, []⟩ program faithful)).1 _ _ ran
  cases visited with
  | between reached => exact between reached
  | @last before _ earlier _ _ reached stops =>
    have faithful : (⟨before, earlier, []⟩ : Session).machine.registers.Faithful := between reached
    have turned := Action.ends_iff.mp (Action.faithful_turn program faithful)
    cases stops with
    | halt ran => exact turned.1 _ _ ran
    | fail ran => exact turned.2 _ _ ran

theorem registers_givenBack {program : Program} {machine state : Machine} {sink written : Sink}
    (visited : Visited program machine sink state written) :
    (∀ (slot : Nat) (_ : slot < 4),
      (Binary64.ofInt state.registers.address[slot].toInt).toInt64 =
        state.registers.address[slot]) ∧
    (∀ r : Register, r.InTable → ∀ (length middle next : Nat) (events : List Event),
      ∃ registers told,
        (Action.execute length middle (.push (.ofRegister r)) >>= fun _ =>
          Action.execute length next (.pop (.ofRegister r))) ⟨state, written, events⟩ =
            .ok (.next next) ⟨{ state with registers }, written, told⟩ ∧
        Registers.GivenBack r state.registers registers) ∧
    ∀ r : Register, r.InTable → ∀ (session : Session) (value : Binary64) (rest : List Binary64)
      (length next : Nat), session.machine.stack = value :: rest → ∃ registers told,
        Action.execute length next (.pop (.ofRegister r)) session = .ok (.next next)
          ⟨{ session.machine with stack := rest, registers }, session.sink, told⟩ ∧
        (r.bank = .address → ∃ stored, registers.get? r = some stored ∧
          stored.isFinite = true ∧ stored.units = value.clampedPart * Binary64.unitsPerOne) ∧
        (r.bank = .value → registers.get? r = some value) ∧
        ∀ other : Register, other ≠ r →
          registers.get? other = session.machine.registers.get? other := by
  refine ⟨visited.faithful, ?_, ?_⟩
  · intro r known length middle next events
    have faithful : (⟨state, written, events⟩ : Session).machine.registers.Faithful :=
      visited.faithful
    exact Action.push_pop_register faithful known length middle next
  · intro r known session value rest length next top
    obtain ⟨registers, told, set, ran⟩ := Action.execute_pop_register known top length next
    have get := Registers.get?_of_set?_self set
    refine ⟨registers, told, ran, ?_, ?_, fun other => Registers.get?_of_set? set⟩
    · intro bank
      rw [bank] at get
      exact ⟨_, get, (Binary64.ofInt_toInt64 value).2⟩
    · intro bank
      rw [bank] at get
      exact get

theorem registers_givenBack_saturated :
    let program : Program := ⟨.two, #[33, 156, 117, 0, 136, 60, 228, 55, 126, 72, 1,
      33, 0, 0, 0, 0, 0, 0, 0, 0, 33, 0, 0, 0, 0, 0, 0, 240, 191, 4, 72, 5]⟩
    let rax : Register := ⟨.address, 0⟩
    let rex : Register := ⟨.value, 0⟩
    ∃ state written, Visited program (.zeroed 0 .default) .unlimited state written ∧
      state.registers.address[0] = Int64.maxValue ∧
      state.registers.get? rex = some Binary64.zero.neg ∧
      ∀ r ∈ [rax, rex], ∃ registers told,
        (Action.execute 32 2 (.push (.ofRegister r)) >>= fun _ =>
          Action.execute 32 4 (.pop (.ofRegister r))) ⟨state, written, []⟩ =
            .ok (.next 4) ⟨{ state with registers }, written, told⟩ ∧
        registers.address = state.registers.address ∧
        (r = rex → registers.get? rex = some .zero) := by
  intro program rax rex
  have ran : (turnsFrom program ignoreEvents 6 (Machine.zeroed 0 .default).reset .unlimited ()).map
      (fun reached => reached.1.registers) =
        some ⟨⟨#[Int64.maxValue, 0, 0, 0], rfl⟩, ⟨#[Binary64.zero.neg, .zero, .zero, .zero], rfl⟩⟩ := by
    decide +kernel
  obtain ⟨⟨state, written, ⟨⟩⟩, turns, held⟩ := Option.map_eq_some_iff.mp ran
  simp only at held
  have visited : Visited program (.zeroed 0 .default) .unlimited state written :=
    .between (.of_turnsFrom .start turns)
  have zero : state.registers.get? rex = some Binary64.zero.neg := by
    rw [held]
    rfl
  refine ⟨state, written, visited, by rw [held]; rfl, zero, ?_⟩
  intro r among
  have known : r.InTable := by
    simp only [List.mem_cons, List.not_mem_nil, or_false] at among
    obtain rfl | rfl := among <;> decide
  obtain ⟨registers, told, done, back⟩ := (registers_givenBack visited).2.1 r known 32 2 4 []
  refine ⟨registers, told, done, back.address, ?_⟩
  rintro rfl
  exact back.zero rfl zero

end StackMachine
