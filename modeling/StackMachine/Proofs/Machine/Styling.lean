import Mathlib.Data.List.Forall2
import StackMachine.Proofs.Bytecode.Printable
import StackMachine.Proofs.Machine.Columns
import StackMachine.Proofs.Text.Display

set_option autoImplicit false

namespace StackMachine

theorem Printable.unstyles {text : String} (printable : Printable text) : Unstyles text text :=
  .of_not_mem (printable.not_mem (by decide))

theorem Printable.unstyles_styled {text : String} (printable : Printable text)
    (style : Palette → String) (among : style ∈ Palette.styles) :
    Unstyles (Palette.colored.styled (style .colored) text)
      (Palette.plain.styled (style .plain) text) :=
  printable.unstyles.styled style among

abbrev LinesUnstyle (colored plain : List String) : Prop := List.Forall₂ Unstyles colored plain

namespace LinesUnstyle

variable {colored plain : List String}

theorem map_unstyled (lines : LinesUnstyle colored plain) : colored.map unstyled = plain := by
  induction lines with
  | nil => rfl
  | cons line _ ih => rw [List.map_cons, line.unstyled_eq, ih]

theorem joinLines (lines : LinesUnstyle colored plain) :
    Unstyles (joinLines colored) (joinLines plain) := by
  induction lines with
  | nil => exact Unstyles.of_not_mem (by decide)
  | cons line _ ih =>
    have newline : Unstyles "\n" "\n" := .of_not_mem (by decide)
    simpa [StackMachine.joinLines] using (line.append newline).append ih

theorem flatMap {α : Type} {items : List α} {first second : α → List String}
    (each : ∀ item ∈ items, LinesUnstyle (first item) (second item)) :
    LinesUnstyle (items.flatMap first) (items.flatMap second) := by
  induction items with
  | nil => exact .nil
  | cons item items ih =>
    obtain ⟨here, later⟩ := List.forall_mem_cons.mp each
    exact List.rel_append here (ih later)

theorem singleton {first second : String} (line : Unstyles first second) :
    LinesUnstyle [first] [second] := .cons line .nil

end LinesUnstyle

namespace Listing

theorem unstyles_instructionLine (width offset : Nat) (i : Instruction) :
    Unstyles (instructionLine .colored width offset i)
      (instructionLine .plain width offset i) := by
  have place := printable_padLeft width (Nat.le_refl _) (printable_natText offset)
  have gap : Printable "  " := by decide
  have name : Printable i.mnemonic := i.opcode.printable_mnemonic
  have column := place.unstyles_styled Palette.dim (by simp [Palette.styles])
  have mnemonic := name.unstyles_styled Palette.blue (by simp [Palette.styles])
  have front := (column.append gap.unstyles).append mnemonic
  unfold instructionLine
  cases shown : i.argument? with
  | none => exact front
  | some argument =>
    have space : Printable " " := by decide
    have operand := (Instruction.printable_argument shown).unstyles_styled Palette.green
      (by simp [Palette.styles])
    exact (front.append space.unstyles).append operand

theorem unstyles_stepLines (width : Nat) (goals : List UInt32)
    (step : Except DecodeFault (Nat × Instruction)) :
    LinesUnstyle (stepLines .colored width goals step) (stepLines .plain width goals step) := by
  cases step with
  | error fault =>
    have message : Printable ("!! " ++ fault.message) :=
      printable_append.mpr ⟨by decide, fault.printable_message⟩
    exact .singleton (message.unstyles_styled Palette.red (by simp [Palette.styles]))
  | ok item =>
    obtain ⟨offset, i⟩ := item
    have line := LinesUnstyle.singleton (unstyles_instructionLine width offset i)
    simp only [stepLines]
    split
    next =>
      have place : Printable s!"@{offset}" :=
        printable_append.mpr ⟨by decide, printable_natText offset⟩
      have colon : Printable ":" := by decide
      have lead := place.unstyles_styled Palette.dim (by simp [Palette.styles])
      exact .cons (lead.append colon.unstyles) line
    next => exact line

theorem unstyles_opening (program : Program) :
    LinesUnstyle (opening .colored program) (opening .plain program) := by
  have heading (text : String) (printable : Printable text) :=
    printable.unstyles_styled Palette.blue (by simp [Palette.styles])
  have entry (name : String) (printable : Printable name) (n : Nat) :
      Unstyles (name ++ toString n) (name ++ toString n) :=
    (printable_append.mpr ⟨printable, printable_natText n⟩).unstyles
  have empty : Unstyles "" "" := .of_not_mem (by decide)
  exact .cons (heading "[header]" (by decide)) <|
    .cons (entry "version " (by decide) _) <|
    .cons (entry "length  " (by decide) _) <|
    .cons empty <| LinesUnstyle.singleton (heading "[code]" (by decide))

theorem unstyled_listing (program : Program) :
    unstyled (program.listing (.ofFlag true)) = program.listing (.ofFlag false) := by
  apply Unstyles.unstyled_eq
  have steps : LinesUnstyle _ _ := .flatMap fun step (_ : step ∈ program.walk) =>
    unstyles_stepLines (columnWidth program.length) (targets program) step
  have whole : LinesUnstyle (lines .colored program) (lines .plain program) := by
    rw [lines_eq, lines_eq]
    exact List.rel_append (unstyles_opening program) steps
  exact whole.joinLines

end Listing

namespace TraceStyle

variable (verbosity : Verbosity) (width : Nat)

theorem unstyles_dimmed {text : String} (printable : Printable text) :
    Unstyles (dimmed ⟨verbosity, .colored, width⟩ text)
      (dimmed ⟨verbosity, .plain, width⟩ text) :=
  printable.unstyles_styled Palette.dim (by simp [Palette.styles])

theorem unstyles_value (v : Binary64) :
    Unstyles (value ⟨verbosity, .colored, width⟩ v) (value ⟨verbosity, .plain, width⟩ v) :=
  v.printable_valueText.unstyles_styled Palette.green (by simp [Palette.styles])

theorem unstyles_instructionText (i : Instruction) :
    Unstyles (instructionText ⟨verbosity, .colored, width⟩ i)
      (instructionText ⟨verbosity, .plain, width⟩ i) := by
  have blue : Palette.blue ∈ Palette.styles := by simp [Palette.styles]
  have space : Printable " " := by decide
  unfold instructionText
  cases split : splitAtBlank? i.text with
  | none => exact i.printable_text.unstyles_styled _ blue
  | some parts =>
    obtain ⟨mnemonic, operand⟩ := parts
    -- Both parts are shown in the characters of the whole.
    have printable := i.printable_text
    rw [eq_of_splitAtBlank? split, printable_append, printable_append] at printable
    obtain ⟨⟨name, -⟩, argument⟩ := printable
    exact ((name.unstyles_styled _ blue).append space.unstyles).append argument.unstyles

theorem unstyles_instructionLine (pc : Nat) (i : Instruction) :
    Unstyles (instructionLine ⟨verbosity, .colored, width⟩ pc i)
      (instructionLine ⟨verbosity, .plain, width⟩ pc i) := by
  have place := printable_padLeft width (by decide : ' '.toNat ≤ '0'.toNat) (printable_natText pc)
  have gap : Printable "  " := by decide
  have column := unstyles_dimmed verbosity width place
  exact (column.append gap.unstyles).append (unstyles_instructionText verbosity width i)

theorem unstyles_subLine {marker : String} (shown : '\x1b' ∉ marker.toList)
    {colored plain : String} (content : Unstyles colored plain) :
    Unstyles (subLine ⟨verbosity, .colored, width⟩ marker colored)
      (subLine ⟨verbosity, .plain, width⟩ marker plain) := by
  have empty : Printable (blanks (width + 2)) := by
    intro c member
    rw [blanks, String.toList_ofList, List.mem_replicate] at member
    exact member.2 ▸ Nat.le_refl _
  have space : Printable " " := by decide
  exact ((empty.unstyles.append (.of_not_mem shown)).append space.unstyles).append content

theorem unstyles_detail {marker : String} (shown : '\x1b' ∉ marker.toList)
    {colored plain : String} (content : Unstyles colored plain) :
    LinesUnstyle (detail ⟨verbosity, .colored, width⟩ marker colored)
      (detail ⟨verbosity, .plain, width⟩ marker plain) := by
  unfold detail
  split
  next => exact .nil
  next => exact .singleton (unstyles_subLine verbosity width shown content)

theorem unstyles_depthText (target : UInt32) (depth : Nat) :
    Unstyles (depthText ⟨verbosity, .colored, width⟩ target depth)
      (depthText ⟨verbosity, .plain, width⟩ target depth) := by
  have goal : Printable s!"@{target.toNat} " := by
    simp only [printable_append]
    exact ⟨⟨by decide, printable_natText _⟩, by decide⟩
  have calls : Printable s!"depth {depth}" :=
    printable_append.mpr ⟨by decide, printable_natText depth⟩
  exact goal.unstyles.append (unstyles_dimmed verbosity width calls)

theorem printable_stackText (values : List Binary64) : Printable (stackText values) := by
  have each : ∀ text ∈ values.reverse.map Binary64.valueText, Printable text :=
    List.forall_mem_map.mpr fun v _ => v.printable_valueText
  have row := printable_intercalate ", " (by decide) each
  simp only [stackText, printable_append]
  exact ⟨⟨by decide, row⟩, by decide⟩

theorem unstyles_lines {event : Event}
    (quiet : ∀ fault, event = .fault fault → '\x1b' ∉ fault.message.toList) :
    LinesUnstyle (lines ⟨verbosity, .colored, width⟩ event)
      (lines ⟨verbosity, .plain, width⟩ event) := by
  have value := unstyles_value verbosity width
  have sub {marker : String} (shown : '\x1b' ∉ marker.toList) {colored plain : String}
      (content : Unstyles colored plain) :=
    LinesUnstyle.singleton (unstyles_subLine verbosity width shown content)
  cases event with
  | instruction pc i => exact .singleton (unstyles_instructionLine verbosity width pc i)
  | push v | pop v => exact unstyles_detail verbosity width (by decide) (value v)
  | register r v =>
    have place : Printable (r.name ++ " = ") :=
      printable_append.mpr ⟨r.printable_name, by decide⟩
    exact unstyles_detail verbosity width (by decide) (place.unstyles.append (value v))
  | memory slot v =>
    have place : Printable s!"[{slot}] = " := by
      simp only [printable_append]
      exact ⟨⟨by decide, printable_natText _⟩, by decide⟩
    exact unstyles_detail verbosity width (by decide) (place.unstyles.append (value v))
  | branch target taken =>
    cases taken with
    | true =>
      have goal : Printable s!"taken @{target.toNat}" :=
        printable_append.mpr ⟨by decide, printable_natText _⟩
      exact sub (by decide) goal.unstyles
    | false => exact sub (by decide) (.of_not_mem (by decide))
  | call target depth | ret target depth =>
    exact sub (by decide) (unstyles_depthText verbosity width target depth)
  | output v => exact sub (by decide) (value v)
  | stack values =>
    simp only [lines]
    split
    next =>
      have operands := unstyles_dimmed verbosity width (printable_stackText values)
      exact sub (by decide) operands
    next => exact .nil
  | halt pc =>
    have halts : Printable "halt " := by decide
    have place : Printable s!"at {pc}" :=
      printable_append.mpr ⟨by decide, printable_natText pc⟩
    have dimmed := unstyles_dimmed verbosity width place
    exact sub (by decide) (halts.unstyles.append dimmed)
  | fault fault =>
    have message := Unstyles.of_not_mem (quiet fault rfl)
    exact sub (by decide) (message.styled Palette.red (by simp [Palette.styles]))

end TraceStyle

end StackMachine
