import StackMachine.Proofs.Machine.Bounds

set_option autoImplicit false

namespace StackMachine

def Instruction.operands : Instruction → Nat
  | .plain .add | .plain .sub | .plain .mul | .plain .div | .branch (.when _) _ => 2
  | .plain .sqrt | .plain .out | .pop _ => 1
  | .plain .hlt | .plain .ret | .push _ | .branch .jmp _ | .branch .call _ => 0

theorem Instruction.operands_le (i : Instruction) : i.operands ≤ 2 := by
  unfold operands
  split <;> omega

/-- In which way an instruction fails on a machine, and how many operands are gone then. -/
inductive Machine.Spends (machine : Machine) (length : Nat) :
    Instruction → RuntimeFault → Nat → Prop
  -- Before anything is popped.
  | load {operand : Operand} (cell : operand.inMemory = true)
    (outside : machine.memory.slot? (machine.sumOf operand) = none) :
    Spends machine length (.push operand)
      (.memoryOutOfBounds (machine.sumOf operand) machine.memory.size machine.pc) 0
  | write {value : Binary64} {rest : List Binary64} (reason : String)
    (top : machine.stack = value :: rest) : Spends machine length (.plain .out) (.output reason) 0
  | astray {op : BranchOp} {target : UInt32} (direct : op = .jmp ∨ op = .call)
    (outside : length < target.toNat) :
    Spends machine length (.branch op target) (.invalidJumpTarget target length machine.pc) 0
  | nested (target : UInt32) (full : machine.calls.limit ≤ machine.calls.depth) :
    Spends machine length (.branch .call target) (.recursionLimitExceeded machine.calls.limit) 0
  | unmatched (none : machine.calls.depth = 0) :
    Spends machine length (.plain .ret) (.emptyCallStack machine.pc) 0
  -- With the operand that is to blame, or that had no place to go.
  | root {value : Binary64} {rest : List Binary64} (top : machine.stack = value :: rest)
    (negative : value.lt tolerance.neg = true) :
    Spends machine length (.plain .sqrt) (.negativeSqrtArgument value machine.pc) 1
  | store {operand : Operand} {value : Binary64} {rest : List Binary64}
    (cell : operand.inMemory = true) (top : machine.stack = value :: rest)
    (outside : machine.memory.slot? (machine.sumOf operand) = none) :
    Spends machine length (.pop operand)
      (.memoryOutOfBounds (machine.sumOf operand) machine.memory.size machine.pc) 1
  -- With both operands.
  | divisor {right left : Binary64} {rest : List Binary64}
    (top : machine.stack = right :: left :: rest) (small : right.abs.lt tolerance = true) :
    Spends machine length (.plain .div) (.zeroDivision machine.pc) 2
  | taken {condition : Condition} {target : UInt32} {right left : Binary64} {rest : List Binary64}
    (top : machine.stack = right :: left :: rest)
    (holds : condition.holds left right tolerance = true) (outside : length < target.toNat) :
    Spends machine length (.branch (.when condition) target)
      (.invalidJumpTarget target length machine.pc) 2
  -- With all that there was.
  | missing {i : Instruction} (few : machine.stack.length < i.operands) :
    Spends machine length i (.emptyOperandStack machine.pc) machine.stack.length

theorem Machine.Spends.le {machine : Machine} {length spent : Nat} {i : Instruction}
    {fault : RuntimeFault} (spends : machine.Spends length i fault spent) :
    spent ≤ 2 ∧ spent ≤ machine.stack.length := by
  cases spends with
  | load | write | astray | nested | unmatched => exact ⟨Nat.zero_le _, Nat.zero_le _⟩
  | root top _ | store _ top _ => simp [top]
  | divisor top _ | taken top _ _ => simp [top]
  | missing few =>
    have bound := i.operands_le
    exact ⟨by omega, Nat.le_refl _⟩

def Session.FailsTo (session : Session) (length : Nat) (i : Instruction) (fault : RuntimeFault)
    (after : Session) : Prop :=
  ∃ spent, session.machine.Spends length i fault spent ∧
    after.machine = { session.machine with stack := session.machine.stack.drop spent } ∧
    after.sink = session.sink

namespace Action

variable {length : Nat} {session : Session} {i : Instruction} {operand : Operand}

def FailsAs {α : Type} (action : Action α) (session : Session) (length : Nat) (i : Instruction) :
    Prop :=
  action.Ends session (fun _ _ => True) (session.FailsTo length i)

theorem failsTo_empty (empty : session.machine.stack = []) (needs : 0 < i.operands) :
    session.FailsTo length i (.emptyOperandStack session.machine.pc) session := by
  refine ⟨_, .missing (by simpa [empty]), ?_, rfl⟩
  rw [List.drop_length, ← empty]

theorem failsTo_both {right left : Binary64} {rest : List Binary64} {fault : RuntimeFault}
    (top : session.machine.stack = right :: left :: rest)
    (spends : session.machine.Spends length i fault 2) :
    session.FailsTo length i fault ((session.popped right).popped left) :=
  ⟨2, spends, by simp [Session.popped, top], rfl⟩

theorem failsTo_single {right : Binary64} (single : session.machine.stack = [right])
    (needs : i.operands = 2) :
    session.FailsTo length i (.emptyOperandStack session.machine.pc) (session.popped right) := by
  refine ⟨_, .missing (by simp [single, needs]), ?_, rfl⟩
  simp [Session.popped, single]

theorem failsAs_pushOperand (known : operand.InTable) :
    FailsAs (pushOperand operand) session length (.push operand) := by
  apply (ends_pushOperand known).mpr
  split
  next => trivial
  next none =>
    simp only [Machine.valueOf?] at none
    split at none
    next cell => exact ⟨0, .load cell ((Memory.load?_eq_none_iff _ _).mp none), rfl, rfl⟩
    next => cases none

theorem failsAs_popOperand (known : operand.InTable) :
    FailsAs (popOperand operand) session length (.pop operand) := by
  unfold popOperand
  split
  next cell =>
    apply (ends_popToMemory known).mpr
    split
    next empty => exact failsTo_empty empty Nat.one_pos
    next top =>
      split
      next => trivial
      next outside => exact ⟨1, .store cell top outside, by simp [Session.popped], rfl⟩
  next =>
    split
    next r named =>
      apply (ends_popToRegister (known r named)).mpr
      split
      next empty => exact failsTo_empty empty Nat.one_pos
      next value _ _ =>
        obtain ⟨registers, set⟩ := session.machine.registers.exists_set? (known r named) value
        obtain ⟨stored, get⟩ := registers.exists_get? (known r named)
        exact ⟨registers, stored, set, get, trivial⟩
    next =>
      apply (ends_bind.trans ends_pop).mpr
      split
      next empty => exact failsTo_empty empty Nat.one_pos
      next => trivial

theorem failsAs_combine (f : Binary64 → Binary64 → Binary64) (needs : i.operands = 2) :
    FailsAs (combine f) session length i := by
  apply ends_combine.mpr
  split
  next empty => exact failsTo_empty empty (by omega)
  next single => exact failsTo_single single needs
  next => trivial

theorem failsAs_divide : FailsAs divide session length (.plain .div) := by
  apply ends_divide.mpr
  split
  next empty => exact failsTo_empty empty Nat.two_pos
  next single => exact failsTo_single single rfl
  next top =>
    split
    next small => exact failsTo_both top (.divisor top small)
    next => trivial

theorem failsAs_squareRoot : FailsAs squareRoot session length (.plain .sqrt) := by
  apply ends_squareRoot.mpr
  split
  next empty => exact failsTo_empty empty Nat.one_pos
  next top =>
    split
    next negative => exact ⟨1, .root top negative, by simp [Session.popped], rfl⟩
    next => trivial

theorem failsAs_output : FailsAs output session length (.plain .out) := by
  apply ends_output.mpr
  split
  next empty => exact failsTo_empty empty Nat.one_pos
  next top =>
    split
    next reason _ => exact ⟨0, .write reason top, rfl, rfl⟩
    next => trivial

theorem failsAs_jumpWhen {next : Nat} {condition : Condition} {target : UInt32} :
    FailsAs (jumpWhen length next condition target) session length
      (.branch (.when condition) target) := by
  apply ends_jumpWhen_iff.mpr
  split
  next empty => exact failsTo_empty empty Nat.two_pos
  next single => exact failsTo_single single rfl
  next top =>
    simp only
    split
    next holds =>
      apply ends_jump_iff.mpr
      split
      next outside => exact failsTo_both top (.taken top holds outside)
      next => trivial
    next => trivial

theorem failsAs_call {next : Nat} {target : UInt32} :
    FailsAs (call length next target) session length (.branch .call target) := by
  apply ends_call_iff.mpr
  split
  next outside => exact ⟨0, .astray (.inr rfl) outside, rfl, rfl⟩
  next =>
    split
    next refused => exact ⟨0, .nested target (CallStack.limit_le_of_push? refused), rfl, rfl⟩
    next => trivial

theorem failsAs_ret : FailsAs ret session length (.plain .ret) := by
  apply ends_ret_iff.mpr
  split
  next refused => exact ⟨0, .unmatched (CallStack.depth_of_pop? refused), rfl, rfl⟩
  next => trivial

theorem failsAs_execute (known : i.InTable) (next : Nat) :
    FailsAs (execute length next i) session length i := by
  cases i with
  | push operand => exact ends_then.mpr (failsAs_pushOperand known)
  | pop operand => exact ends_then.mpr (failsAs_popOperand known)
  | plain op =>
    cases op with
    | hlt => trivial
    | add | sub | mul => exact ends_then.mpr (failsAs_combine _ rfl)
    | div => exact ends_then.mpr failsAs_divide
    | sqrt => exact ends_then.mpr failsAs_squareRoot
    | out => exact ends_then.mpr failsAs_output
    | ret => exact failsAs_ret
  | branch op target =>
    cases op with
    | jmp =>
      apply ends_jump_iff.mpr
      split
      next outside => exact ⟨0, .astray (.inl rfl) outside, rfl, rfl⟩
      next => trivial
    | call => exact failsAs_call
    | «when» condition => exact failsAs_jumpWhen

end Action

/-- An instruction that fails leaves its machine and its output as they were, but for the operands
that its way to fail has spent. -/
theorem execute_failed {version : Version} {body : Array UInt8} {offset stop : Nat}
    {i : Instruction} (decoded : decodeAt version body offset = .ok (i, stop)) {length next : Nat}
    {session after : Session} {fault : RuntimeFault}
    (failed : Action.execute length next i session = .error fault after) :
    ∃ spent, session.machine.Spends length i fault spent ∧ spent ≤ 2 ∧
      spent ≤ session.machine.stack.length ∧
      after.machine = { session.machine with stack := session.machine.stack.drop spent } ∧
      after.sink = session.sink := by
  have known := (Instruction.wellFormed_of_decodeAt decoded).inTable
  have fails : Action.FailsAs (Action.execute length next i) session length i :=
    Action.failsAs_execute known next
  obtain ⟨spent, spends, kept, sink⟩ := (Action.ends_iff.mp fails).2 fault after failed
  exact ⟨spent, spends, spends.le.1, spends.le.2, kept, sink⟩

theorem execute_failed_branch :
    let i : Instruction := .branch (.when .notEqual) 100
    let machine : Machine := { Machine.zeroed 8 .default with stack := [.zero, .nan, .zero] }
    let session : Session := ⟨machine, .unlimited, []⟩
    let after := ((session.popped .zero).popped .nan).noted (.branch 100 true)
    decodeAt .two #[18, 100, 0, 0, 0] 0 = .ok (i, 5) ∧
      Action.execute 5 5 i session = .error (.invalidJumpTarget 100 5 0) after ∧
      machine.Spends 5 i (.invalidJumpTarget 100 5 0) 2 ∧
      after.machine = { machine with stack := [.zero] } := by
  intro i machine session after
  have decoded : decodeAt .two #[18, 100, 0, 0, 0] 0 = .ok (i, 5) := rfl
  have failed : Action.execute 5 5 i session = .error (.invalidJumpTarget 100 5 0) after := rfl
  obtain ⟨spent, spends, -, -, kept, -⟩ := execute_failed decoded failed
  have two : spent = 2 := by
    dsimp only [i] at spends
    cases spends with
    | astray direct _ => simp at direct
    | taken => rfl
  subst two
  exact ⟨decoded, failed, spends, kept⟩

end StackMachine
