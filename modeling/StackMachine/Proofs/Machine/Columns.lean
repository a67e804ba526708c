import StackMachine.Machine.Event
import StackMachine.Proofs.Assembly.Listings
import StackMachine.Proofs.Machine.Telling

set_option autoImplicit false

namespace StackMachine

theorem eq_of_splitAtBlank? {text first rest : String}
    (split : splitAtBlank? text = some (first, rest)) : text = first ++ " " ++ rest := by
  have parts := List.takeWhile_append_dropWhile (p := fun c => decide (c ≠ ' ')) (l := text.toList)
  unfold splitAtBlank? at split
  split at split
  next => cases split
  next c behind dropped =>
    have blank : c = ' ' := by
      have stops := List.head?_dropWhile_not (fun c => decide (c ≠ ' ')) text.toList
      rw [dropped] at stops
      simpa using stops
    cases split
    rw [dropped, blank] at parts
    apply String.toList_inj.mp
    simpa using parts.symm

theorem Instruction.mnemonic_prefix_text (i : Instruction) :
    i.mnemonic.toList <+: i.text.toList := by
  cases i <;> simp [text, argument?]

theorem Machine.run_collect (style : TraceStyle) (machine : Machine) (bound : Nat)
    (program : Program) (sink : Sink) :
    machine.run bound program sink style.collect #[] =
      (machine.run bound program sink collectEvents #[]).map
        (Outcome.map fun events => (events.toList.flatMap style.lines).toArray) := by
  have told (events : Array Event) (event : Event) :
      ((collectEvents events event).toList.flatMap style.lines).toArray =
        style.collect (events.toList.flatMap style.lines).toArray event := by
    simp [collectEvents, TraceStyle.collect]
  exact runFrom_hom program (fun events => (events.toList.flatMap style.lines).toArray) told
    bound machine.reset sink #[]

def Event.marker? : Event → Option Char
  | .instruction _ _ => none
  | .push _ => some '↑'
  | .pop _ => some '↓'
  | .register _ _ | .memory _ _ => some '←'
  | .branch _ true => some '●'
  | .branch _ false => some '○'
  | .call _ _ => some '▶'
  | .ret _ _ => some '◀'
  | .output _ => some '»'
  | .stack _ => some '≡'
  | .halt _ => some '■'
  | .fault _ => some '✗'

theorem Event.eq_instruction {event : Event} (unmarked : event.marker? = none) :
    ∃ pc i, event = .instruction pc i := by
  cases event with
  | instruction pc i => exact ⟨pc, i, rfl⟩
  | branch target taken => cases taken <;> simp only [marker?, reduceCtorEq] at unmarked
  | _ => simp only [marker?, reduceCtorEq] at unmarked

def lineMarker? (width : Nat) (line : String) : Option Char :=
  if line.toList.take (width + 2) = List.replicate (width + 2) ' ' then line.toList[width + 2]?
  else none

namespace TraceStyle

variable {style : TraceStyle}

theorem lineMarker?_subLine (style : TraceStyle) {marker : String} {c : Char}
    (single : marker.toList = [c]) (content : String) :
    lineMarker? style.width (style.subLine marker content) = some c := by
  simp [lineMarker?, subLine, blanks, single]

theorem lineMarker?_detail (style : TraceStyle) {marker : String} {c : Char}
    (single : marker.toList = [c]) (content : String) :
    ∀ line ∈ style.detail marker content, lineMarker? style.width line = some c := by
  intro line member
  unfold detail at member
  split at member
  next => cases member
  next =>
    cases List.mem_singleton.mp member
    exact style.lineMarker?_subLine single content

theorem lineMarker?_lines {event : Event} {c : Char} (marked : event.marker? = some c) :
    ∀ line ∈ style.lines event, lineMarker? style.width line = some c := by
  have sub {marker : String} (single : marker.toList = [c]) (content : String) :
      ∀ line ∈ [style.subLine marker content], lineMarker? style.width line = some c := by
    intro line member
    cases List.mem_singleton.mp member
    exact style.lineMarker?_subLine single content
  cases event with
  | instruction => cases marked
  | push | pop | register | memory =>
    cases marked
    exact style.lineMarker?_detail (by decide) _
  | branch target taken =>
    cases taken <;> cases marked <;> refine sub ?_ _ <;> decide
  | stack values =>
    cases marked
    simp only [lines]
    split
    next => exact sub (by decide) _
    next => exact fun line member => absurd member List.not_mem_nil
  | call | ret | output | halt | fault =>
    cases marked
    refine sub ?_ _
    decide

theorem instructionLine_plain (verbosity : Verbosity) (width pc : Nat) (i : Instruction) :
    instructionLine ⟨verbosity, .ofFlag false, width⟩ pc i =
      padLeft '0' width (toString pc) ++ "  " ++ i.text := by
  have text : instructionText ⟨verbosity, .ofFlag false, width⟩ i = i.text := by
    unfold instructionText
    split
    next mnemonic operand split =>
      rw [eq_of_splitAtBlank? split]
      simp [Palette.styled, Palette.ofFlag, Palette.plain]
    next => simp [Palette.styled, Palette.ofFlag, Palette.plain]
  rw [instructionLine, text]
  simp [dimmed, Palette.styled, Palette.ofFlag, Palette.plain]

/-- The lines of an event stand where they belong: one that names an instruction begins with its
offset in the column, all others have their marker beside the column. -/
inductive Aligned (program : Program) (width : Nat) (line : String) : Event → Prop
  | instruction {pc : Nat} {i : Instruction} (inside : pc < program.length)
    (set : SetInColumn '0' width pc i.text line) : Aligned program width line (.instruction pc i)
  | effect {event : Event} {marker : Char} (marked : event.marker? = some marker)
    (below : lineMarker? width line = some marker) : Aligned program width line event

end TraceStyle

inductive Listing.Aligned (program : Program) (width : Nat) (line : String) : Prop
  | instruction {offset : Nat} {i : Instruction} (member : (offset, i) ∈ program.instructions)
    (set : SetInColumn ' ' width offset i.text line)
  | opening (member : line ∈ opening (.ofFlag false) program)
  | marker (offset : Nat) (same : line = marker (.ofFlag false) offset)
  | fault (fault : DecodeFault) (same : line = faultLine (.ofFlag false) fault)

theorem Listing.setInColumn_of_mem {program : Program} {offset : Nat} {i : Instruction}
    (member : (offset, i) ∈ program.instructions) :
    SetInColumn ' ' (columnWidth program.length) offset i.text
      (instructionLine (.ofFlag false) (columnWidth program.length) offset i) := by
  have bounds := Program.bounds_of_mem_walkFrom (Program.mem_instructions_iff.mp member)
  rw [instructionLine_plain]
  exact setInColumn_padLeft ' ' (digitCount_le_columnWidth bounds.2) i.text

theorem Listing.aligned_of_mem_lines {program : Program} {line : String}
    (member : line ∈ lines (.ofFlag false) program) :
    Aligned program (columnWidth program.length) line := by
  rw [lines_eq, List.mem_append, List.mem_flatMap] at member
  obtain first | ⟨fault | ⟨offset, i⟩, inside, step⟩ := member
  · exact .opening first
  · exact .fault fault (List.mem_singleton.mp step)
  · rw [stepLines, List.mem_append, List.mem_singleton] at step
    obtain marked | rfl := step
    · split at marked
      next => exact .marker offset (List.mem_singleton.mp marked)
      next => cases marked
    · have member := Program.mem_instructions_iff.mpr inside
      exact .instruction member (setInColumn_of_mem member)

theorem TraceStyle.aligned_of_mem_lines {program : Program} {event : Event}
    (decoded : ∀ pc i, event = .instruction pc i → pc < program.length) (verbosity : Verbosity) :
    ∀ line ∈ (forLength verbosity false program.length).lines event,
      Aligned program (columnWidth (program.length + 1)) line event := by
  intro line member
  cases marked : event.marker? with
  | some marker => exact .effect marked (lineMarker?_lines marked line member)
  | none =>
    obtain ⟨pc, i, rfl⟩ := Event.eq_instruction marked
    have inside := decoded pc i rfl
    have fits := digitCount_le_columnWidth (Nat.lt_succ_of_lt inside)
    rw [lines, List.mem_singleton, forLength, instructionLine_plain] at member
    rw [member]
    exact .instruction inside (setInColumn_padLeft '0' fits i.text)

/-- Columns are as wide as the last number that can stand in them, so that no listing and no trace
has an instruction or a marker out of line. -/
theorem columns_wide_enough (program : Program) :
    let listed := columnWidth program.length
    let traced := columnWidth (program.length + 1)
    (∀ count ≤ 1, columnWidth count = 1) ∧
    (∀ last, columnWidth (last + 1) = (toString last).length ∧
      ∀ number ≤ last, (toString number).length ≤ columnWidth (last + 1)) ∧
    (program.listing (.ofFlag false)).toList.splitOn '\n' =
      (Listing.lines (.ofFlag false) program).map String.toList ++ [[]] ∧
    (∀ offset i, (offset, i) ∈ program.instructions →
      ∃ line ∈ Listing.lines (.ofFlag false) program,
        SetInColumn ' ' listed offset i.text line ∧
          i.mnemonic.toList <+: line.toList.drop (listed + 2)) ∧
    (∀ line ∈ Listing.lines (.ofFlag false) program, Listing.Aligned program listed line) ∧
    ∀ verbosity (machine : Machine) bound sink outcome,
      let style := TraceStyle.forLength verbosity false program.length
      machine.run bound program sink style.collect #[] = some outcome →
        ∃ told, machine.run bound program sink collectEvents #[] = some told ∧
          outcome.trace.toList = told.trace.toList.flatMap style.lines ∧
          ∀ event ∈ told.trace, ∀ line ∈ style.lines event,
            TraceStyle.Aligned program traced line event := by
  intro listed traced
  refine ⟨?_, ?_, Listing.splitOn_listing false program, ?_, ?_, ?_⟩
  · intro count few
    rw [columnWidth, digitCount, if_pos (by omega)]
  · intro last
    refine ⟨(length_natText last).symm, fun number among => ?_⟩
    rw [length_natText]
    exact digitCount_le_columnWidth (Nat.lt_succ_of_le among)
  · intro offset i member
    have set := Listing.setInColumn_of_mem member
    refine ⟨_, ?_, set, ?_⟩
    · rw [Listing.lines_eq, List.mem_append, List.mem_flatMap]
      refine .inr ⟨_, Program.mem_instructions_iff.mp member, ?_⟩
      simp [Listing.stepLines]
    · rw [set.drop]
      exact i.mnemonic_prefix_text
  · exact fun line => Listing.aligned_of_mem_lines
  · intro verbosity machine bound sink outcome style ended
    rw [Machine.run_collect, Option.map_eq_some_iff] at ended
    obtain ⟨told, ran, rfl⟩ := ended
    refine ⟨told, ran, rfl, fun event member => ?_⟩
    apply TraceStyle.aligned_of_mem_lines
    -- An instruction that is told of has been decoded, and so stands inside the program.
    rintro pc i rfl
    obtain ⟨parts, ending, course, events⟩ := course_of_runFrom ran
    rw [← Array.mem_toList_iff, events] at member
    obtain ⟨next, decoded⟩ := course.decoded member
    have bounds := decodeAt_advances decoded
    exact Nat.lt_of_lt_of_le bounds.1 bounds.2

theorem columns_wide_enough_ten :
    let program : Program := ⟨.two, #[9, 5, 0, 0, 0, 0x41, 1, 0x48, 1, 0]⟩
    let style := TraceStyle.forLength .verbose false 10
    let lines := #["00  call @5", "    ▶ @5 depth 1", "05  push rax", "    ↑ 0", "07  pop rax",
      "    ↓ 0", "    ← rax = 0", "09  hlt", "    ■ halt at 9"]
    (∃ line ∈ Listing.lines (.ofFlag false) program, SetInColumn ' ' 1 7 "pop rax" line) ∧
      ((Machine.zeroed 8 .default).run 4 program .unlimited style.collect #[]).map Outcome.trace =
        some lines ∧
      ∃ events : Array Event, lines.toList = events.toList.flatMap style.lines ∧
        ∀ event ∈ events, ∀ line ∈ style.lines event,
          TraceStyle.Aligned program 2 line event := by
  intro program style lines
  have ran : ((Machine.zeroed 8 .default).run 4 program .unlimited style.collect #[]).map
      Outcome.trace = some lines := by decide +kernel
  have listed : (7, .pop ⟨some ⟨.address, 0⟩, none, false⟩) ∈ program.instructions := by
    decide +kernel
  obtain ⟨-, -, -, columns, -, traces⟩ := columns_wide_enough program
  obtain ⟨line, member, set, -⟩ := columns 7 _ listed
  obtain ⟨outcome, ended, same⟩ := Option.map_eq_some_iff.mp ran
  obtain ⟨told, -, shown, aligned⟩ := traces .verbose _ _ _ outcome ended
  have narrow : columnWidth program.length = 1 := by decide +kernel
  have wide : columnWidth (program.length + 1) = 2 := by decide +kernel
  have text : Instruction.text (.pop ⟨some ⟨.address, 0⟩, none, false⟩) = "pop rax" := by
    decide +kernel
  rw [narrow, text] at set
  rw [wide] at aligned
  rw [same] at shown
  exact ⟨⟨line, member, set⟩, ran, told.trace, shown, aligned⟩

end StackMachine
