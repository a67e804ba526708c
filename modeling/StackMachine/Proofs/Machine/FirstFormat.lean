import StackMachine.Proofs.Assembly.FirstFormat
import StackMachine.Proofs.Machine.Effects
import StackMachine.Proofs.Machine.Track

set_option autoImplicit false

namespace StackMachine

namespace Action

theorem turn_congr {left right : Program} {session : Session}
    (lengths : left.length = right.length)
    (decodes : session.machine.pc ≠ left.length →
      left.decodeAt session.machine.pc = right.decodeAt session.machine.pc) :
    turn left session = turn right session := by
  apply eq_of_ends
  intro done failed
  rw [ends_turn, ends_turn, ← lengths]
  split
  next => exact Iff.rfl
  next before => rw [decodes before]

theorem Transfers.flow_of_wellFormed_one {length next : Nat} {i : Instruction}
    {calls left : CallStack} {flow : Flow} (transfers : Transfers length next i calls flow left)
    (wellFormed : i.WellFormed .one) : flow = .next next ∨ flow = .halt := by
  cases transfers with
  | on stays => exact .inl rfl
  | halt => exact .inr rfl
  | jump | call =>
    have supported := wellFormed.supported
    rw [Instruction.isSupported_branch] at supported
    cases supported
  | ret => cases wellFormed.supported

end Action

theorem runFrom_congr {left right : Program} {holds : Machine → Prop}
    (same : ∀ session, holds session.machine →
      Action.turn left session = Action.turn right session)
    (kept : ∀ before written after, holds before →
      Action.turn left ⟨before, written, []⟩ = .ok .running after → holds after.machine)
    {τ : Type} (tracer : τ → Event → τ) (bound : Nat) {machine : Machine} (start : holds machine)
    (sink : Sink) (trace : τ) :
    runFrom left tracer bound machine sink trace =
      runFrom right tracer bound machine sink trace := by
  induction bound generalizing machine sink trace with
  | zero => rfl
  | succ bound ih =>
    simp only [runFrom, ← same ⟨machine, sink, []⟩ start]
    split
    next after ran => exact ih (kept _ _ _ start ran) _ _
    next => rfl
    next => rfl

namespace Layout

variable {code : List Instruction}

theorem isStop_of_turn (wellFormed : ∀ i ∈ code, i.WellFormed .one) {machine : Machine}
    {sink : Sink} {after : Session} (stop : IsStop .one code machine.pc)
    (ran : Action.turn (program .one code) ⟨machine, sink, []⟩ = .ok .running after) :
    IsStop .one code after.machine.pc := by
  have kept : (Action.turn (program .one code)).Ends ⟨machine, sink, []⟩
      (fun progress after => progress = .running → IsStop .one code after.machine.pc)
      fun _ _ => True := by
    rw [Action.ends_turn]
    split
    next => exact nofun
    next before =>
      split
      next => trivial
      next =>
        obtain ⟨index, inside, place⟩ := stop.exists_lt (length_program wellFormed ▸ before)
        rw [place, decodeAt_program wellFormed inside]
        have here := wellFormed code[index] (List.getElem_mem inside)
        refine (Action.ends_execute here.inTable _ _ _).mono ?_ fun _ _ _ => trivial
        rintro flow after ⟨calls, transfers, -⟩
        obtain rfl | rfl := transfers.flow_of_wellFormed_one here
        · exact fun _ => ⟨index + 1, inside, rfl⟩
        · exact nofun
  exact (Action.ends_iff.mp kept).1 _ _ ran rfl

theorem run_program (wellFormed : ∀ i ∈ code, i.WellFormed .one) {τ : Type} (machine : Machine)
    (bound : Nat) (sink : Sink) (tracer : τ → Event → τ) (start : τ) :
    machine.run bound (program .two code) sink tracer start =
      machine.run bound (program .one code) sink tracer start := by
  have lengths : (program .one code).length = (program .two code).length := by
    rw [length_program wellFormed, length_program (wellFormed_two wellFormed),
      offset_one_eq_two wellFormed]
  have alike (session : Session) (stop : IsStop .one code session.machine.pc) :
      Action.turn (program .one code) session = Action.turn (program .two code) session := by
    refine Action.turn_congr lengths fun before => ?_
    obtain ⟨index, inside, place⟩ := stop.exists_lt (length_program wellFormed ▸ before)
    rw [place, decodeAt_program wellFormed inside, offset_one_eq_two wellFormed,
      offset_one_eq_two wellFormed, decodeAt_program (wellFormed_two wellFormed) inside]
  exact (runFrom_congr alike (fun _ _ _ => isStop_of_turn wellFormed) tracer bound
    ⟨0, Nat.zero_le _, rfl⟩ sink start).symm

end Layout

/-- What assembles for the first format assembles for the second one, to a program that differs in
the first byte of each push and runs alike. -/
theorem assemble_one_two {pipeline : Pipeline} {source : String} {legacy : Assembly}
    (assembled : assemble .one pipeline source = .ok legacy) :
    ∃ current, assemble .two pipeline source = .ok current ∧
      current.labels = legacy.labels ∧
      current.program.instructions = legacy.program.instructions ∧
      current.program.length = legacy.program.length ∧
      (∀ place operand, (place, .push operand) ∈ legacy.program.instructions →
        legacy.program.body[place]? = some 0x01 ∧ current.program.body[place]? = some 0x21) ∧
      (∀ place, (∀ operand, (place, .push operand) ∉ legacy.program.instructions) →
        legacy.program.body[place]? = current.program.body[place]?) ∧
      ∀ (τ : Type) (machine : Machine) (bound : Nat) (sink : Sink) (tracer : τ → Event → τ)
        (start : τ),
        machine.run bound current.program sink tracer start =
          machine.run bound legacy.program sink tracer start := by
  obtain ⟨code, wellFormed, spelled, done⟩ := assemble_two_of_one assembled
  have second := Layout.wellFormed_two wellFormed
  have offsets := Layout.offset_one_eq_two wellFormed
  rw [spelled]
  refine ⟨_, done, rfl, ?_, ?_, fun place operand member => ?_, fun place none => ?_, ?_⟩
  · simp only [Layout.instructions_program wellFormed, Layout.instructions_program second, offsets]
  · simp only [Layout.length_program wellFormed, Layout.length_program second, offsets]
  · have push := (Layout.isPush_iff wellFormed place).mpr ⟨operand, member⟩
    obtain ⟨-, bytes⟩ | ⟨other, -⟩ := Layout.getElem?_bytes wellFormed place
    · simpa [Layout.program] using bytes
    · exact absurd push other
  · obtain ⟨push, -⟩ | ⟨-, same⟩ := Layout.getElem?_bytes wellFormed place
    · obtain ⟨operand, member⟩ := (Layout.isPush_iff wellFormed place).mp push
      exact absurd member (none operand)
    · simpa [Layout.program] using same
  · intro τ machine bound sink tracer start
    exact Layout.run_program wellFormed machine bound sink tracer start

theorem assemble_one_two_product :
    let source := "push 3\npush 4\nmul\nend: out"
    let legacy : Program :=
      ⟨.one, #[1, 0, 0, 0, 0, 0, 0, 8, 64, 1, 0, 0, 0, 0, 0, 0, 16, 64, 4, 6]⟩
    let labels : LabelTable := ⟨[("end", ⟨19, ⟨18, 21⟩⟩)]⟩
    assemble .one .singlePass source = .ok ⟨legacy, labels⟩ ∧
      ∃ current, assemble .two .singlePass source = .ok current ∧ current.labels = labels ∧
        current.program.length = 20 ∧
        ∀ (machine : Machine) (bound : Nat),
          machine.run bound current.program .unlimited collectEvents #[] =
            machine.run bound legacy .unlimited collectEvents #[] := by
  intro source legacy labels
  have assembled : assemble .one .singlePass source = .ok ⟨legacy, labels⟩ := by
    refine assemble_eq_ok_iff.mpr ⟨?_, ?_, ?_⟩
    all_goals decide +kernel
  obtain ⟨current, done, same, -, length, -, -, runs⟩ := assemble_one_two assembled
  refine ⟨assembled, current, done, same, length, fun machine bound => ?_⟩
  exact runs _ machine bound .unlimited collectEvents #[]

end StackMachine
