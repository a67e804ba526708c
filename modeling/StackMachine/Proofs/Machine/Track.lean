import StackMachine.Proofs.Assembly.Placement
import StackMachine.Proofs.Assembly.SinglePass
import StackMachine.Proofs.Machine.Turns

set_option autoImplicit false

namespace StackMachine

variable {program : Program} {statements : List Statement} {code : List Instruction}

def Layout.IsStop (version : Version) (code : List Instruction) (place : Nat) : Prop :=
  ∃ index ≤ code.length, place = Layout.offset version code index

theorem Layout.IsStop.exists_lt {version : Version} {place : Nat}
    (stop : Layout.IsStop version code place)
    (before : place ≠ Layout.offset version code code.length) :
    ∃ (index : Nat) (_ : index < code.length), place = Layout.offset version code index := by
  obtain ⟨index, bound, rfl⟩ := stop
  refine ⟨index, Nat.lt_of_le_of_ne bound fun last => before ?_, rfl⟩
  rw [last]

structure OnTrack (version : Version) (code : List Instruction) (machine : Machine) : Prop where
  pc : Layout.IsStop version code machine.pc
  returns : ∀ address ∈ machine.calls.frames, Layout.IsStop version code address.toNat

namespace OnTrack

variable {version : Version} {before after : Machine}

theorem reset (version : Version) (code : List Instruction) (machine : Machine) :
    OnTrack version code machine.reset := by
  refine ⟨⟨0, Nat.zero_le _, rfl⟩, ?_⟩
  simp [Machine.reset, CallStack.clear, CallStack.empty]

theorem of_control (track : OnTrack version code before) (same : after.control = before.control) :
    OnTrack version code after := by
  simp only [Machine.control, Machine.mk.injEq] at same
  have pc : after.pc = before.pc := same.2.1
  have calls : after.calls = before.calls := same.2.2.2.2.2.2.2
  exact ⟨pc ▸ track.pc, calls ▸ track.returns⟩

end OnTrack

namespace LaidOut

theorem isStop_target (laid : LaidOut program statements code) {i : Instruction} {target : UInt32}
    (member : i ∈ code) (branch : i.target? = some target) :
    Layout.IsStop program.version code target.toNat := by
  obtain ⟨statement, stands⟩ : ∃ statement,
      Statement.StandsFor program.version statements code statement i := by
    obtain ⟨index, inside, rfl⟩ := List.getElem_of_mem member
    exact ⟨_, laid.stands.get (laid.stands.length_eq ▸ inside) inside⟩
  cases stands with
  | instruction direct =>
    rw [direct] at branch
    cases branch
  | @branch _ _ _ _ _ _ above below place reaches =>
    cases branch
    refine ⟨above.countP Statement.isCode, ?_, reaches⟩
    rw [← laid.stands.length_eq, ← List.countP_eq_length_filter, place, List.countP_append]
    omega

theorem le_length (laid : LaidOut program statements code) {place : Nat}
    (stop : Layout.IsStop program.version code place) : place ≤ program.length := by
  obtain ⟨index, -, rfl⟩ := stop
  rw [← laid.ends]
  exact Layout.offset_le code index

theorem onTrack_transfer (laid : LaidOut program statements code)
    (short : program.length < UInt32.size) {index : Nat} (inside : index < code.length)
    {calls left : CallStack} {flow : Flow}
    (returns : ∀ address ∈ calls.frames, Layout.IsStop program.version code address.toNat)
    (transfers : Action.Transfers program.length
      (Layout.offset program.version code (index + 1)) code[index] calls flow left) :
    (∀ pc, flow = .next pc → Layout.IsStop program.version code pc) ∧
      ∀ address ∈ left.frames, Layout.IsStop program.version code address.toNat := by
  have behind : Layout.IsStop program.version code
      (Layout.offset program.version code (index + 1)) := ⟨index + 1, inside, rfl⟩
  have member := List.getElem_mem inside
  generalize code[index] = i at transfers member
  cases transfers with
  | on stays =>
    refine ⟨?_, returns⟩
    intro pc same
    cases same
    exact behind
  | halt => exact ⟨nofun, returns⟩
  | jump direct target =>
    refine ⟨?_, returns⟩
    intro pc same
    cases same
    exact laid.isStop_target member rfl
  | call target push =>
    constructor
    · intro pc same
      cases same
      exact laid.isStop_target member rfl
    · -- The program is short enough for the return address to be kept as it is.
      have kept := UInt32.toNat_ofNat_of_lt' (Nat.lt_of_le_of_lt (laid.le_length behind) short)
      rw [CallStack.frames_of_push? push, List.forall_mem_cons, kept]
      exact ⟨behind, returns⟩
  | ret pop =>
    rw [CallStack.frames_of_pop? pop, List.forall_mem_cons] at returns
    refine ⟨?_, returns.2⟩
    intro pc same
    cases same
    exact returns.1

theorem onTrack_turn (laid : LaidOut program statements code)
    (short : program.length < UInt32.size) {session : Session}
    (track : OnTrack program.version code session.machine) :
    (Action.turn program).Ends session
      (fun _ after => OnTrack program.version code after.machine)
      fun fault after =>
        OnTrack program.version code after.machine ∧ fault.isDerailment = false := by
  rw [Action.ends_turn]
  split
  next => exact track
  next before =>
    split
    next => exact ⟨track, rfl⟩
    next =>
      -- Control is not at the end, so that an instruction of the code stands here.
      obtain ⟨index, inside, place⟩ := track.pc.exists_lt (laid.ends ▸ before)
      have decoded := laid.decoded index inside
      rw [place, decoded]
      -- No register is missing, for the decoder has looked it up.
      have known := (Instruction.wellFormed_of_decodeAt decoded).inTable
      have begun : OnTrack program.version code (session.paid.counted code[index]).machine :=
        ⟨track.pc, track.returns⟩
      refine (Action.ends_execute known _ _ _).mono (fun flow after settled => ?_)
        fun fault after refused => ⟨begun.of_control refused.1, ?_⟩
      · obtain ⟨left, transfers, control⟩ := settled
        have handed := laid.onTrack_transfer short inside begun.returns transfers
        simp only [Machine.control, Machine.mk.injEq] at control
        obtain ⟨-, pc, -, -, -, -, -, calls⟩ := control
        cases flow with
        | next pc => exact ⟨handed.1 pc rfl, calls ▸ handed.2⟩
        | halt => exact ⟨pc ▸ begun.pc, calls ▸ handed.2⟩
      · by_contra derails
        obtain ⟨target, branch, outside⟩ := refused.2 (by simpa using derails)
        have stop := laid.isStop_target (List.getElem_mem inside) branch
        exact Nat.not_le.mpr outside (laid.le_length stop)

theorem onTrack_of_reached (laid : LaidOut program statements code)
    (short : program.length < UInt32.size) {machine state : Machine} {sink written : Sink}
    (reached : Reached program machine sink state written) :
    OnTrack program.version code state := by
  apply reached.invariant (.reset program.version code machine)
  intro before sink after track ran
  exact (Action.ends_iff.mp (laid.onTrack_turn short track)).1 _ _ ran

theorem onTrack_of_stops (laid : LaidOut program statements code)
    (short : program.length < UInt32.size) {state last : Machine} {written final : Sink}
    {fault : Option RuntimeFault} (track : OnTrack program.version code state)
    (stops : Stops program state written last final fault) :
    OnTrack program.version code last ∧ ∀ blamed ∈ fault, blamed.isDerailment = false := by
  cases stops with
  | halt ran => exact ⟨(Action.ends_iff.mp (laid.onTrack_turn short track)).1 _ _ ran, nofun⟩
  | fail ran =>
    obtain ⟨kept, direct⟩ := (Action.ends_iff.mp (laid.onTrack_turn short track)).2 _ _ ran
    refine ⟨kept, ?_⟩
    intro blamed same
    cases same
    exact direct

end LaidOut

theorem exists_laidOut {version : Version} {pipeline : Pipeline} {source : String}
    {assembly : Assembly} (assembled : assemble version pipeline source = .ok assembly) :
    ∃ code, LaidOut assembly.program (parse source).statements code := by
  obtain ⟨-, clean, rfl⟩ := assemble_eq_ok_iff.mp (assemble_twoPass_of_ok assembled)
  have encoded := Statement.clean_of_encode (List.append_eq_nil_iff.mp clean).2
  exact ⟨_, laidOut_of_clean encoded fun _ member => hasShape_parse member⟩

/-- Assembled code is never left, by no run on any machine. -/
theorem assembled_onTrack {version : Version} {pipeline : Pipeline} {source : String}
    {assembly : Assembly} (assembled : assemble version pipeline source = .ok assembly)
    (short : assembly.program.length < UInt32.size) :
    let program := assembly.program
    ∃ code, LaidOut program (parse source).statements code ∧
      ∀ (machine : Machine) (sink : Sink),
        (∀ state written, Reached program machine sink state written →
          OnTrack program.version code state) ∧
        ∀ (τ : Type) (bound : Nat) (tracer : τ → Event → τ) (start : τ) (outcome : Outcome τ),
          machine.run bound program sink tracer start = some outcome →
            OnTrack program.version code outcome.machine ∧
              ∀ fault ∈ outcome.fault, fault.isDerailment = false := by
  intro program
  obtain ⟨code, laid⟩ := exists_laidOut assembled
  refine ⟨code, laid, fun machine sink => ⟨fun state written reached => ?_, ?_⟩⟩
  · exact laid.onTrack_of_reached short reached
  · intro τ bound tracer start outcome ended
    obtain ⟨last, written, reached, stops⟩ := exists_stop_of_runFrom .start ended
    exact laid.onTrack_of_stops short (laid.onTrack_of_reached short reached) stops

theorem assembled_onTrack_call :
    let source := "call f\nhlt\nf: out\nret"
    let program : Program := ⟨.two, #[9, 6, 0, 0, 0, 0, 6, 10]⟩
    assemble .two .twoPass source = .ok ⟨program, ⟨[("f", ⟨6, ⟨11, 12⟩⟩)]⟩⟩ ∧
      program.length < UInt32.size ∧
      ∃ code, LaidOut program (parse source).statements code ∧
        ∀ state written, Reached program (.zeroed 8 .default) .unlimited state written →
          OnTrack .two code state := by
  intro source program
  have assembled : assemble .two .twoPass source = .ok ⟨program, ⟨[("f", ⟨6, ⟨11, 12⟩⟩)]⟩⟩ := by
    refine assemble_eq_ok_iff.mpr ⟨?_, ?_, ?_⟩
    all_goals decide +kernel
  have short : program.length < UInt32.size := by decide
  obtain ⟨code, laid, track⟩ := assembled_onTrack assembled short
  exact ⟨assembled, short, code, laid, (track (.zeroed 8 .default) .unlimited).1⟩

end StackMachine
