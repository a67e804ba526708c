import Mathlib.Data.List.Basic
import StackMachine.Bytecode.Program
import StackMachine.Proofs.Bytecode.Canonical
import StackMachine.Proofs.Text.Display

set_option autoImplicit false

namespace StackMachine

namespace Program

variable {program : Program} {offset place : Nat} {i : Instruction}

theorem mem_instructions_iff : (place, i) ∈ program.instructions ↔ .ok (place, i) ∈ program.walk := by
  simp only [instructions, List.mem_filterMap]
  constructor
  · rintro ⟨_ | item, member, same⟩
    · cases same
    · cases same
      exact member
  · intro member
    exact ⟨_, member, rfl⟩

theorem bounds_of_mem_walkFrom (member : .ok (place, i) ∈ program.walkFrom offset) :
    offset ≤ place ∧ place < program.length := by
  fun_induction walkFrom program offset with
  | case1 offset more fault failed => simp at member
  | case2 offset more j next decoded ih =>
    have advances := decodeAt_advances decoded
    obtain here | later := List.mem_cons.mp member
    · cases here
      exact ⟨Nat.le_refl _, more⟩
    · have bounds := ih later
      omega
  | case3 offset behind => cases member

theorem pairwise_walkFrom (program : Program) (offset : Nat) :
    (program.walkFrom offset).Pairwise fun a b =>
      ∀ first second, a = .ok first → b = .ok second → first.1 < second.1 := by
  fun_induction walkFrom program offset with
  | case1 | case3 => simp
  | case2 offset more i next decoded ih =>
    have advances := decodeAt_advances decoded
    apply List.Pairwise.cons _ ih
    rintro _ later first ⟨place, j⟩ same rfl
    cases same
    have bounds := bounds_of_mem_walkFrom later
    simp only
    omega

end Program

theorem not_prefix_append {α : Type} {pattern first : List α} (rest : List α)
    (here : ¬pattern <+: first) (beyond : ¬first <+: pattern) : ¬pattern <+: first ++ rest := by
  intro found
  obtain short | long := List.prefix_or_prefix_of_prefix found (List.prefix_append first rest)
  · exact here short
  · exact beyond long

namespace Listing

variable {palette : Palette} {program : Program} {offset : Nat}

def lead (palette : Palette) : List Char := palette.dim.toList ++ ['@']

theorem lead_marker (palette : Palette) (offset : Nat) :
    lead palette <+: (marker palette offset).toList := by
  simp [lead, marker, Palette.styled, toString]

theorem marker_injective {other : Nat} (same : marker palette offset = marker palette other) :
    offset = other := by
  have chars := congrArg String.toList same
  simp only [marker, Palette.styled, toString, String.toList_append, List.append_cancel_left_eq,
    List.append_cancel_right_eq, Nat.repr_eq_ofList_toDigits, String.toList_ofList] at chars
  have values := congrArg (fun digits => Nat.ofDigitChars 10 digits 0) chars
  simpa using values

theorem instructionLine_plain (width offset : Nat) (i : Instruction) :
    instructionLine (.ofFlag false) width offset i =
      padLeft ' ' width (toString offset) ++ "  " ++ i.text := by
  cases i <;>
    simp [instructionLine, Instruction.text, Instruction.argument?, Palette.styled,
      Palette.ofFlag, Palette.plain, String.append_assoc]

theorem column_ne_nil (width offset : Nat) : (padLeft ' ' width (toString offset)).toList ≠ [] := by
  simp [padLeft]

theorem not_mem_column (width offset : Nat) :
    '@' ∉ (padLeft ' ' width (toString offset)).toList := by
  intro member
  obtain blank | digit := eq_or_isDigit_of_mem_padLeft member
  · exact absurd blank (by decide)
  · exact absurd digit (by decide)

theorem not_lead_instructionLine (palette : Palette) (width offset : Nat) (i : Instruction) :
    ¬lead palette <+: (instructionLine palette width offset i).toList := by
  have begins : ∃ rest, (instructionLine palette width offset i).toList =
      palette.dim.toList ++ ((padLeft ' ' width (toString offset)).toList ++ rest) := by
    simp only [instructionLine, Palette.styled]
    cases i.argument? <;> simp only [String.toList_append, List.append_assoc] <;> exact ⟨_, rfl⟩
  obtain ⟨rest, chars⟩ := begins
  rw [chars, lead, List.prefix_append_right_inj]
  have other := not_mem_column width offset
  generalize column : (padLeft ' ' width (toString offset)).toList = text at other
  cases text with
  | nil => exact absurd column (column_ne_nil width offset)
  | cons first text =>
    simp only [List.mem_cons, not_or] at other
    simpa using other.1

def opening (palette : Palette) (program : Program) : List String :=
  headerLines palette program ++ ["", palette.styled palette.blue "[code]"]

section

variable (color : Bool)

theorem not_lead_opening : ∀ line ∈ opening (.ofFlag color) program,
    ¬lead (.ofFlag color) <+: line.toList := by
  simp only [opening, headerLines, List.cons_append, List.nil_append, List.forall_mem_cons,
    List.not_mem_nil, false_imp_iff, implies_true, and_true, String.toList_append, toString]
  refine ⟨?_, ?_, ?_, ?_, ?_⟩
  · cases color <;> decide
  · apply not_prefix_append <;> cases color <;> decide
  · apply not_prefix_append <;> cases color <;> decide
  · cases color <;> decide
  · cases color <;> decide

theorem not_lead_faultLine (fault : DecodeFault) :
    ¬lead (.ofFlag color) <+: (faultLine (.ofFlag color) fault).toList := by
  have begins (palette : Palette) : (faultLine palette fault).toList =
      (palette.red ++ "!! ").toList ++ (fault.message ++ palette.reset).toList := by
    simp [faultLine, Palette.styled]
  rw [begins]
  apply not_prefix_append <;> cases color <;> decide

theorem mem_flatMap_stepLines_iff {width : Nat} {goals : List UInt32}
    {walk : List (Except DecodeFault (Nat × Instruction))} :
    marker (.ofFlag color) offset ∈ walk.flatMap (stepLines (.ofFlag color) width goals) ↔
      (∃ i, .ok (offset, i) ∈ walk) ∧ isTarget goals offset = true := by
  have leads := lead_marker (.ofFlag color) offset
  rw [List.mem_flatMap]
  constructor
  · rintro ⟨fault | ⟨place, i⟩, inside, member⟩
    · have same : marker (.ofFlag color) offset = faultLine (.ofFlag color) fault := by
        simpa [stepLines] using member
      exact absurd (same ▸ leads) (not_lead_faultLine color fault)
    · simp only [stepLines, List.mem_append, List.mem_singleton] at member
      obtain marked | same := member
      · split at marked
        next target =>
          have here := marker_injective (List.mem_singleton.mp marked)
          rw [here]
          exact ⟨⟨i, inside⟩, target⟩
        next => cases marked
      · exact absurd (same ▸ leads) (not_lead_instructionLine _ width place i)
  · rintro ⟨⟨i, inside⟩, target⟩
    exact ⟨_, inside, by simp [stepLines, target]⟩

theorem lines_eq (palette : Palette) (program : Program) :
    lines palette program = opening palette program ++
      program.walk.flatMap (stepLines palette (columnWidth program.length) (targets program)) := by
  simp [lines, codeLines, opening]

theorem mem_lines_iff :
    marker (.ofFlag color) offset ∈ lines (.ofFlag color) program ↔
      (∃ i, (offset, i) ∈ program.instructions) ∧ isTarget (targets program) offset = true := by
  have outside : marker (.ofFlag color) offset ∉ opening (.ofFlag color) program :=
    fun member => not_lead_opening color _ member (lead_marker _ offset)
  simp only [lines_eq, List.mem_append, outside, false_or, mem_flatMap_stepLines_iff,
    Program.mem_instructions_iff]

def MarksOnce (lines : List String) (marker : String) (below : List String) : Prop :=
  ∃ above, lines = above ++ marker :: below ∧ marker ∉ above ∧ marker ∉ below

theorem marksOnce_of_mem {i : Instruction} (member : (offset, i) ∈ program.instructions)
    (target : isTarget (targets program) offset = true) :
    ∃ below, MarksOnce (lines (.ofFlag color) program) (marker (.ofFlag color) offset)
      (instructionLine (.ofFlag color) (columnWidth program.length) offset i :: below) := by
  obtain ⟨above, below, split⟩ :=
    List.append_of_mem (Program.mem_instructions_iff.mp member)
  -- Offsets grow along the walk, so that this one stands neither above nor below.
  have ordered : program.walk.Pairwise _ := program.pairwise_walkFrom 0
  rw [split, List.pairwise_append, List.pairwise_cons] at ordered
  obtain ⟨-, ⟨later, -⟩, earlier⟩ := ordered
  have outside : marker (.ofFlag color) offset ∉ opening (.ofFlag color) program :=
    fun member => not_lead_opening color _ member (lead_marker _ offset)
  let steps := stepLines (.ofFlag color) (columnWidth program.length) (targets program)
  refine ⟨below.flatMap steps, opening (.ofFlag color) program ++ above.flatMap steps, ?_, ?_, ?_⟩
  · simp [lines_eq, split, steps, stepLines, target]
  · rw [List.mem_append, not_or, mem_flatMap_stepLines_iff]
    refine ⟨outside, ?_⟩
    rintro ⟨⟨j, found⟩, -⟩
    exact absurd (earlier _ found _ List.mem_cons_self _ _ rfl rfl) (Nat.lt_irrefl _)
  · rw [List.mem_cons, not_or, mem_flatMap_stepLines_iff]
    constructor
    · intro same
      exact not_lead_instructionLine _ _ offset i (same ▸ lead_marker _ offset)
    · rintro ⟨⟨j, found⟩, -⟩
      exact absurd (later _ found _ _ rfl rfl) (Nat.lt_irrefl _)

theorem isTarget_iff {goals : List UInt32} :
    isTarget goals offset = true ↔ UInt32.ofNat offset ∈ goals := by
  simp [isTarget]

/-- Each target that begins an instruction is marked once, right above it, a target at the end of
the program is marked once, below all else, and no other offset is marked. -/
structure MarksTargets (palette : Palette) (program : Program) : Prop where
  inside : ∀ target ∈ targets program, ∀ i, (target.toNat, i) ∈ program.instructions →
    ∃ below, MarksOnce (lines palette program) (marker palette target.toNat)
      (instructionLine palette (columnWidth program.length) target.toNat i :: below)
  atEnd : ∀ target ∈ targets program, target.toNat = program.length →
    MarksOnce (lines palette program) (marker palette target.toNat) []
  only : ∀ offset, marker palette offset ∈ lines palette program →
    ∃ target ∈ targets program, target.toNat = offset

theorem marksOnce_of_target {target : UInt32} (goes : target ∈ targets program) {i : Instruction}
    (member : (target.toNat, i) ∈ program.instructions) :
    ∃ below, MarksOnce (lines (.ofFlag color) program) (marker (.ofFlag color) target.toNat)
      (instructionLine (.ofFlag color) (columnWidth program.length) target.toNat i :: below) :=
  marksOnce_of_mem color member (isTarget_iff.mpr (by simpa using goes))

/-- A listing falls short of its targets in two ways: the end of the program has no marker, and an
offset that is too wide for a target is taken for its last four bytes. -/
theorem marksTargets_iff :
    MarksTargets (.ofFlag color) program ↔
      (∀ target ∈ targets program, target.toNat ≠ program.length) ∧
      ∀ offset i, (offset, i) ∈ program.instructions → UInt32.ofNat offset ∈ targets program →
        offset < UInt32.size := by
  constructor
  · intro marks
    constructor
    · intro target goes ends
      obtain ⟨above, split, -⟩ := marks.atEnd target goes ends
      have member : marker (.ofFlag color) target.toNat ∈ lines (.ofFlag color) program := by
        simp [split]
      obtain ⟨⟨i, found⟩, -⟩ := (mem_lines_iff color).mp member
      have bounds := Program.bounds_of_mem_walkFrom (Program.mem_instructions_iff.mp found)
      omega
    · intro offset i member goes
      have marked := (mem_lines_iff color).mpr ⟨⟨i, member⟩, isTarget_iff.mpr goes⟩
      obtain ⟨target, -, rfl⟩ := marks.only offset marked
      exact target.toNat_lt
  · rintro ⟨within, narrow⟩
    refine ⟨fun target goes i => marksOnce_of_target color goes, ?_, ?_⟩
    · exact fun target goes ends => absurd ends (within target goes)
    · intro offset member
      obtain ⟨⟨i, found⟩, target⟩ := (mem_lines_iff color).mp member
      have goes := isTarget_iff.mp target
      exact ⟨_, goes, UInt32.toNat_ofNat_of_lt' (narrow offset i found goes)⟩

end

end Listing

end StackMachine
