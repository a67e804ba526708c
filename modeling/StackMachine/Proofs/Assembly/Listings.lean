import StackMachine.Proofs.Assembly.Wording
import StackMachine.Proofs.Bytecode.Markers
import StackMachine.Proofs.Machine.Track

set_option autoImplicit false

namespace StackMachine

namespace Listing

variable (color : Bool)

theorem oneLine_styled {style text : String}
    (among : style ∈ [(Palette.ofFlag color).blue, (Palette.ofFlag color).green,
      (Palette.ofFlag color).red, (Palette.ofFlag color).dim]) (short : OneLine text) :
    OneLine ((Palette.ofFlag color).styled style text) := by
  have styles : ∀ style ∈ [(Palette.ofFlag color).blue, (Palette.ofFlag color).green,
      (Palette.ofFlag color).red, (Palette.ofFlag color).dim], OneLine style := by
    cases color <;> decide
  have reset : OneLine (Palette.ofFlag color).reset := by
    cases color <;> decide
  rw [Palette.styled, oneLine_append, oneLine_append]
  exact ⟨⟨styles style among, short⟩, reset⟩

theorem oneLine_instructionLine (width offset : Nat) (i : Instruction) :
    OneLine (instructionLine (.ofFlag color) width offset i) := by
  let palette := Palette.ofFlag color
  have place := printable_padLeft width (Nat.le_refl _) (printable_natText offset)
  have column : OneLine (palette.styled palette.dim (padLeft ' ' width (toString offset))) :=
    oneLine_styled color (by simp [palette]) place.oneLine
  have name : OneLine (palette.styled palette.blue i.mnemonic) :=
    oneLine_styled color (by simp [palette]) i.opcode.printable_mnemonic.oneLine
  have gap : OneLine "  " := by decide
  have front := oneLine_append.mpr ⟨oneLine_append.mpr ⟨column, gap⟩, name⟩
  simp only [instructionLine]
  split
  next argument shown =>
    rw [oneLine_append, oneLine_append]
    exact ⟨⟨front, by decide⟩, oneLine_styled color (by simp)
      (Instruction.printable_argument shown).oneLine⟩
  next => exact front

theorem oneLine_of_mem_lines (program : Program) :
    ∀ line ∈ lines (.ofFlag color) program, OneLine line := by
  intro line member
  rw [lines_eq, List.mem_append, List.mem_flatMap] at member
  obtain first | ⟨fault | ⟨offset, i⟩, -, step⟩ := member
  · simp only [opening, headerLines, List.mem_append, List.mem_cons, List.not_mem_nil,
      or_false] at first
    obtain (rfl | rfl | rfl) | rfl | rfl := first
    · exact oneLine_styled color (by simp) (by decide)
    · exact oneLine_append.mpr ⟨by decide, (printable_natText _).oneLine⟩
    · exact oneLine_append.mpr ⟨by decide, (printable_natText _).oneLine⟩
    · decide
    · exact oneLine_styled color (by simp) (by decide)
  · rw [stepLines, List.mem_singleton] at step
    subst step
    apply oneLine_styled color (by simp)
    rw [oneLine_append]
    exact ⟨by decide, fault.printable_message.oneLine⟩
  · rw [stepLines, List.mem_append, List.mem_singleton] at step
    obtain marked | rfl := step
    · split at marked
      next =>
        rw [List.mem_singleton] at marked
        subst marked
        rw [marker, oneLine_append]
        refine ⟨oneLine_styled color (by simp) ?_, by decide⟩
        rw [oneLine_append]
        exact ⟨by decide, (printable_natText offset).oneLine⟩
      next => cases marked
    · exact oneLine_instructionLine color _ offset i

theorem splitOn_listing (program : Program) :
    (program.listing (.ofFlag color)).toList.splitOn '\n' =
      (lines (.ofFlag color) program).map String.toList ++ [[]] :=
  splitOn_newline (oneLine_of_mem_lines color program)

end Listing

theorem LaidOut.instructions_eq {program : Program} {statements : List Statement}
    {code : List Instruction} (laid : LaidOut program statements code) :
    program.instructions =
      code.mapIdx fun index i => (Layout.offset program.version code index, i) := by
  have walked := Program.walk_of_decodeAt laid.decoded
  rw [laid.ends, Program.walkFrom_length] at walked
  exact Program.instructions_of_walk walked (.whole rfl)

theorem LaidOut.target_cases {program : Program} {statements : List Statement}
    {code : List Instruction} (laid : LaidOut program statements code) {target : UInt32}
    (goes : target ∈ Listing.targets program) :
    target.toNat = program.length ∨ ∃ i, (target.toNat, i) ∈ program.instructions := by
  obtain ⟨⟨offset, i⟩, member, branch⟩ := List.mem_filterMap.mp goes
  rw [laid.instructions_eq, List.mem_mapIdx] at member
  obtain ⟨index, inside, same⟩ := member
  cases same
  have stop := laid.isStop_target (List.getElem_mem inside) branch
  by_cases ends : target.toNat = program.length
  · exact .inl ends
  · obtain ⟨place, bound, here⟩ := stop.exists_lt (laid.ends ▸ ends)
    refine .inr ⟨code[place], ?_⟩
    rw [laid.instructions_eq, List.mem_mapIdx]
    exact ⟨place, bound, by rw [here]⟩

namespace Listing

/-- Of assembled code, each target but the end is marked once, right above the instruction that it
begins. All are, and nothing else is, unless some target is the end or an offset is too wide. -/
theorem assembled_marksTargets_iff {version : Version} {pipeline : Pipeline} {source : String}
    {assembly : Assembly} (assembled : assemble version pipeline source = .ok assembly)
    (color : Bool) :
    let program := assembly.program
    let palette := Palette.ofFlag color
    (program.listing palette).toList.splitOn '\n' =
        (lines palette program).map String.toList ++ [[]] ∧
      (∀ target ∈ targets program, target.toNat = program.length ∨
        ∃ i, (target.toNat, i) ∈ program.instructions) ∧
      (∀ target ∈ targets program, ∀ i, (target.toNat, i) ∈ program.instructions →
        ∃ below, MarksOnce (lines palette program) (marker palette target.toNat)
          (instructionLine palette (columnWidth program.length) target.toNat i :: below)) ∧
      (∀ offset, marker palette offset ∈ lines palette program ↔
        (∃ i, (offset, i) ∈ program.instructions) ∧ UInt32.ofNat offset ∈ targets program) ∧
      (MarksTargets palette program ↔
        (∀ target ∈ targets program, target.toNat ≠ program.length) ∧
        ∀ offset i, (offset, i) ∈ program.instructions →
          UInt32.ofNat offset ∈ targets program → offset < UInt32.size) := by
  intro program palette
  obtain ⟨code, laid⟩ := exists_laidOut assembled
  refine ⟨splitOn_listing color program, fun target => laid.target_cases, ?_, ?_, ?_⟩
  · exact fun target goes i => marksOnce_of_target color goes
  · intro offset
    rw [mem_lines_iff, isTarget_iff]
  · exact marksTargets_iff color

theorem assembled_marksTargets_iff_loop :
    let source := "a: call f\njmp a\nf: je a\n"
    let program : Program := ⟨.two, #[9, 10, 0, 0, 0, 11, 0, 0, 0, 0, 17, 0, 0, 0, 0]⟩
    let labels : LabelTable := ⟨[("a", ⟨0, ⟨0, 1⟩⟩), ("f", ⟨10, ⟨16, 17⟩⟩)]⟩
    assemble .two .twoPass source = .ok ⟨program, labels⟩ ∧
      targets program = [10, 0, 0] ∧ MarksTargets (.ofFlag false) program := by
  intro source program labels
  have assembled : assemble .two .twoPass source = .ok ⟨program, labels⟩ := by
    refine assemble_eq_ok_iff.mpr ⟨?_, ?_, ?_⟩
    all_goals decide +kernel
  have goals : targets program = [10, 0, 0] := by decide +kernel
  have short : ∀ item ∈ program.instructions, item.1 < UInt32.size := by decide +kernel
  refine ⟨assembled, goals, ?_⟩
  obtain ⟨-, -, -, -, marks⟩ := assembled_marksTargets_iff assembled false
  refine marks.mpr ⟨?_, fun offset i member _ => short _ member⟩
  have before : ∀ target ∈ targets program, target.toNat ≠ program.length := by
    rw [goals]
    simp [program, Program.length]
  exact before

/-- A branch to a label behind the last instruction: its target has no marker. -/
theorem not_marksTargets_trailing :
    let source := "jmp end\nend:\n"
    let program : Program := ⟨.two, #[11, 5, 0, 0, 0]⟩
    assemble .two .twoPass source = .ok ⟨program, ⟨[("end", ⟨5, ⟨8, 11⟩⟩)]⟩⟩ ∧
      lines (.ofFlag false) program =
        ["[header]", "version 2", "length  5", "", "[code]", "0  jmp @5"] ∧
      5 ∈ targets program ∧ ¬MarksTargets (.ofFlag false) program := by
  intro source program
  have shown : lines (.ofFlag false) program =
      ["[header]", "version 2", "length  5", "", "[code]", "0  jmp @5"] := by decide +kernel
  have goes : 5 ∈ targets program := by decide +kernel
  refine ⟨?_, shown, goes, ?_⟩
  · refine assemble_eq_ok_iff.mpr ⟨?_, ?_, ?_⟩
    all_goals decide +kernel
  · intro marks
    obtain ⟨above, split, -⟩ := marks.atEnd 5 goes rfl
    have member : marker (.ofFlag false) 5 ∈ lines (.ofFlag false) program := by simp [split]
    rw [shown] at member
    exact absurd member (by decide +kernel)

end Listing

end StackMachine
