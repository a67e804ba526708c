import StackMachine.Proofs.Machine.Account
import StackMachine.Proofs.Machine.Styling

set_option autoImplicit false

namespace StackMachine

theorem lineMarker?_of_head {width : Nat} {line : String}
    (other : line.toList.head? ≠ some ' ') : lineMarker? width line = none := by
  unfold lineMarker?
  rw [if_neg]
  intro blank
  have first := congrArg List.head? blank
  rw [List.head?_take, List.head?_replicate, if_neg (by omega), if_neg (by omega)] at first
  exact other first

namespace TraceStyle

variable (verbosity : Verbosity) (color : Bool) (width : Nat)

theorem lineMarker?_instructionLine (pc : Nat) (i : Instruction) :
    lineMarker? width (instructionLine ⟨verbosity, .ofFlag color, width⟩ pc i) = none := by
  apply lineMarker?_of_head
  -- The column comes first, or the sequence that dims it.
  cases color with
  | false =>
    rw [instructionLine_plain, String.toList_append, String.toList_append, List.append_assoc]
    cases chars : (padLeft '0' width (toString pc)).toList with
    | nil => simp [padLeft] at chars
    | cons c rest =>
      have begins := eq_or_isDigit_of_mem_padLeft (chars ▸ List.mem_cons_self)
      rw [List.cons_append, List.head?_cons, ne_eq, Option.some.injEq]
      rintro rfl
      obtain zero | digit := begins
      · cases zero
      · cases digit
  | true =>
    have begins : Palette.colored.dim.toList = ['\x1b', '[', '2', 'm'] := by decide
    simp [instructionLine, dimmed, Palette.styled, Palette.ofFlag, begins]

theorem lineMarker?_eq (event : Event) :
    ∀ line ∈ lines ⟨verbosity, .ofFlag color, width⟩ event,
      lineMarker? width line = event.marker? := by
  cases marked : event.marker? with
  | some marker => exact lineMarker?_lines marked
  | none =>
    obtain ⟨pc, i, rfl⟩ := Event.eq_instruction marked
    intro line member
    rw [lines, List.mem_singleton] at member
    rw [member]
    exact lineMarker?_instructionLine verbosity color width pc i

theorem filter_lines (keep : Option Char → Bool) (events : List Event) :
    (events.flatMap (lines ⟨verbosity, .ofFlag color, width⟩)).filter
        (fun line => keep (lineMarker? width line)) =
      (events.filter fun event => keep event.marker?).flatMap
        (lines ⟨verbosity, .ofFlag color, width⟩) := by
  have same := lineMarker?_eq verbosity color width
  induction events with
  | nil => rfl
  | cons event events ih =>
    rw [List.flatMap_cons, List.filter_append, ih, List.filter_cons]
    split
    next kept =>
      rw [List.flatMap_cons, List.filter_eq_self.mpr]
      exact fun line member => (same event line member).symm ▸ kept
    next dropped =>
      rw [List.filter_eq_nil_iff.mpr, List.nil_append]
      exact fun line member => (same event line member).symm ▸ dropped

end TraceStyle

theorem sum_map_of_one {α : Type} {items : List α} {f : α → Nat}
    (one : ∀ item ∈ items, f item = 1) : (items.map f).sum = items.length := by
  rw [List.map_congr_left one]
  simp

def marks (markers : List Char) (marker : Option Char) : Bool := marker.any (· ∈ markers)

/-- The second trace has the lines of the first, and among them a line with one of the markers for
each event that these stand for. -/
structure AddsLines (markers : List Char) (few more : TraceStyle) (events : List Event) :
    Prop where
  sublist : (events.flatMap few.lines).Sublist (events.flatMap more.lines)
  kept : events.flatMap few.lines =
    (events.flatMap more.lines).filter fun line => !marks markers (lineMarker? more.width line)
  added : ((events.flatMap more.lines).filter fun line =>
      marks markers (lineMarker? more.width line)) =
    (events.filter fun event => marks markers event.marker?).flatMap more.lines
  count : ((events.flatMap more.lines).countP fun line =>
      marks markers (lineMarker? more.width line)) =
    events.countP fun event => marks markers event.marker?

theorem TraceStyle.lines_verbose (color : Bool) (length : Nat) (event : Event) :
    (forLength .verbose color length).lines event =
      if marks ['≡'] event.marker? then []
      else (forLength .veryVerbose color length).lines event := by
  cases event with
  | branch target taken => cases taken <;> rfl
  | _ => rfl

namespace AddsLines

variable {markers : List Char} {less more : Verbosity} {color : Bool} {width : Nat}

theorem of_lines
    (each : ∀ event, TraceStyle.lines ⟨less, .ofFlag color, width⟩ event =
      if marks markers event.marker? then []
      else TraceStyle.lines ⟨more, .ofFlag color, width⟩ event)
    (single : ∀ event, marks markers event.marker? = true →
      (TraceStyle.lines ⟨more, .ofFlag color, width⟩ event).length = 1) (events : List Event) :
    AddsLines markers ⟨less, .ofFlag color, width⟩ ⟨more, .ofFlag color, width⟩ events := by
  have filtered := TraceStyle.filter_lines more color width
  have kept : events.flatMap (TraceStyle.lines ⟨less, .ofFlag color, width⟩) =
      (events.flatMap (TraceStyle.lines ⟨more, .ofFlag color, width⟩)).filter fun line =>
        !marks markers (lineMarker? width line) := by
    rw [filtered fun marker => !marks markers marker]
    -- Filtering is by events now, and one event shows its lines or none.
    induction events with
    | nil => rfl
    | cons event events ih =>
      rw [List.flatMap_cons, each, ih, List.filter_cons]
      cases marks markers event.marker? <;> rfl
  refine ⟨?_, kept, filtered (marks markers) events, ?_⟩
  · rw [kept]
    exact List.filter_sublist
  · rw [List.countP_eq_length_filter, filtered (marks markers) events,
      List.countP_eq_length_filter, List.length_flatMap]
    exact sum_map_of_one fun event member => single event (List.mem_filter.mp member).2

theorem verbose (color : Bool) (length : Nat) (events : List Event) :
    AddsLines ['↑', '↓', '←'] (.forLength .default color length)
      (.forLength .verbose color length) events := by
  apply of_lines
  · intro event
    cases event with
    | branch target taken => cases taken <;> rfl
    | _ => rfl
  · intro event marked
    cases event with
    | push | pop | register | memory => rfl
    | branch target taken => cases taken <;> simp [marks, Event.marker?] at marked
    | _ => simp [marks, Event.marker?] at marked

theorem veryVerbose (color : Bool) (length : Nat) (events : List Event) :
    AddsLines ['≡'] (.forLength .verbose color length)
      (.forLength .veryVerbose color length) events := by
  apply of_lines (TraceStyle.lines_verbose color length)
  intro event marked
  cases event with
  | stack => rfl
  | branch target taken => cases taken <;> simp [marks, Event.marker?] at marked
  | _ => simp [marks, Event.marker?] at marked

end AddsLines

/-- What is told of an instruction that completes ends with one more line, which has the operands
that are left. What is told of the end of a run stays the same. -/
structure ShowsStacks (color : Bool) (length : Nat) (parts : List (List Event))
    (ending : List Event) : Prop where
  each : ∀ part ∈ parts, ∃ values, part.getLast? = some (.stack values) ∧
    part.flatMap (TraceStyle.forLength .veryVerbose color length).lines =
      part.flatMap (TraceStyle.forLength .verbose color length).lines ++
        [(TraceStyle.forLength .veryVerbose color length).subLine "≡"
          ((TraceStyle.forLength .veryVerbose color length).dimmed (TraceStyle.stackText values))]
  ending : ending.flatMap (TraceStyle.forLength .veryVerbose color length).lines =
    ending.flatMap (TraceStyle.forLength .verbose color length).lines

section

variable {program : Program} {pc : Nat} {told : List Event}

theorem Episode.unmarked (episode : Episode program pc told) :
    ∀ event ∈ told, marks ['≡'] event.marker? = false := by
  cases episode with
  | intro decoded all =>
    rw [List.forall_mem_cons]
    refine ⟨rfl, fun event member => ?_⟩
    have effect := all event member
    cases event with
    | stack | instruction | halt | fault => cases effect
    | branch target taken => cases taken <;> rfl
    | _ => rfl

theorem Episode.countP_isInstruction (episode : Episode program pc told) :
    told.countP Event.isInstruction = 1 := by
  cases episode with
  | intro decoded all =>
    rw [List.countP_cons_of_pos rfl, Nat.add_eq_right, List.countP_eq_zero]
    intro event member
    have effect := all event member
    cases event with
    | instruction => cases effect
    | _ => exact Bool.false_ne_true

theorem flatMap_lines_of_unmarked (color : Bool) (length : Nat) {events : List Event}
    (unmarked : ∀ event ∈ events, marks ['≡'] event.marker? = false) :
    events.flatMap (TraceStyle.forLength .veryVerbose color length).lines =
      events.flatMap (TraceStyle.forLength .verbose color length).lines := by
  apply List.flatMap_congr
  intro event member
  rw [TraceStyle.lines_verbose, if_neg (by simp [unmarked event member])]

variable {machine : Machine} {sink : Sink} {parts : List (List Event)} {ending : List Event}

theorem Course.unmarked_ending (course : Course program machine sink parts ending) :
    ∀ event ∈ ending, marks ['≡'] event.marker? = false := by
  obtain ⟨pc, rfl⟩ | ⟨told, fault, rfl, none | ⟨pc, episode⟩⟩ := course.told.2
  · exact List.forall_mem_singleton.mpr rfl
  · rw [none]
    exact List.forall_mem_singleton.mpr rfl
  · exact List.forall_mem_append.mpr ⟨episode.unmarked, List.forall_mem_singleton.mpr rfl⟩

theorem Course.showsStacks (course : Course program machine sink parts ending) (color : Bool)
    (length : Nat) : ShowsStacks color length parts ending := by
  constructor
  · intro part member
    obtain ⟨pc, told, values, episode, rfl⟩ := course.told.1 part member
    refine ⟨values, List.getLast?_concat, ?_⟩
    rw [List.flatMap_append, List.flatMap_append,
      flatMap_lines_of_unmarked color length episode.unmarked, List.append_assoc]
    rfl
  · exact flatMap_lines_of_unmarked color length course.unmarked_ending

theorem Course.countP_stack (course : Course program machine sink parts ending) :
    (parts.flatten ++ ending).countP (fun event => marks ['≡'] event.marker?) = parts.length := by
  have last : ending.countP (fun event => marks ['≡'] event.marker?) = 0 :=
    List.countP_eq_zero.mpr fun event member => by simp [course.unmarked_ending event member]
  rw [List.countP_append, List.countP_flatten, last, Nat.add_zero, sum_map_of_one]
  intro part member
  obtain ⟨pc, told, values, episode, rfl⟩ := course.told.1 part member
  have inner : told.countP (fun event => marks ['≡'] event.marker?) = 0 :=
    List.countP_eq_zero.mpr fun event member => by simp [episode.unmarked event member]
  rw [List.countP_append, inner]
  rfl

theorem Course.countP_isInstruction (course : Course program machine sink parts ending) :
    (parts.flatten ++ ending).countP Event.isInstruction =
      parts.length + ending.countP Event.isInstruction := by
  rw [List.countP_append, List.countP_flatten, sum_map_of_one]
  intro part member
  obtain ⟨pc, told, values, episode, rfl⟩ := course.told.1 part member
  rw [List.countP_append, episode.countP_isInstruction]
  rfl

end

theorem fault_of_mem {events : List Event} {outcome : Outcome (Array Event)}
    (closed : EndsWith events outcome.lastEvent) {fault : RuntimeFault}
    (member : .fault fault ∈ events) : outcome.fault = some fault := by
  obtain ⟨inner, rfl, running⟩ := closed
  obtain early | last := List.mem_append.mp member
  · cases running _ early
  · rw [List.mem_singleton, Outcome.lastEvent] at last
    split at last
    next => cases last
    next other failed =>
      cases last
      exact failed

/-- Each level of a trace adds the lines with its markers to the level before it, the last of them
one for each instruction that completes. Color only decorates all of them, and listings as well. -/
theorem verbosity_adds_lines (program : Program) :
    let style verbosity color := TraceStyle.forLength verbosity color program.length
    unstyled (program.listing (.ofFlag true)) = program.listing (.ofFlag false) ∧
    ∀ (machine : Machine) bound sink outcome,
      machine.run bound program sink collectEvents #[] = some outcome →
      let events := outcome.trace.toList
      (∀ verbosity color,
        machine.run bound program sink (style verbosity color).collect #[] =
          some (outcome.map fun _ => (events.flatMap (style verbosity color).lines).toArray)) ∧
      (∀ color, AddsLines ['↑', '↓', '←'] (style .default color) (style .verbose color) events ∧
        AddsLines ['≡'] (style .verbose color) (style .veryVerbose color) events) ∧
      (∃ parts ending, Course program machine.reset sink parts ending ∧
        events = parts.flatten ++ ending ∧
        events.countP (fun event => marks ['≡'] event.marker?) = parts.length ∧
        outcome.machine.steps = parts.length + ending.countP Event.isInstruction ∧
        ∀ color, ShowsStacks color program.length parts ending) ∧
      ((∀ fault, outcome.fault = some fault → '\x1b' ∉ fault.message.toList) →
        ∀ verbosity, (events.flatMap (style verbosity true).lines).map unstyled =
          events.flatMap (style verbosity false).lines) := by
  intro style
  refine ⟨Listing.unstyled_listing program, fun machine bound sink outcome ended => ?_⟩
  intro events
  obtain ⟨account, closed, -⟩ := run_accounted ended
  refine ⟨?_, ?_, ?_, ?_⟩
  · intro verbosity color
    rw [Machine.run_collect, ended]
    rfl
  · exact fun color => ⟨.verbose color _ events, .veryVerbose color _ events⟩
  · obtain ⟨parts, ending, course, told⟩ := course_of_runFrom ended
    have split : events = parts.flatten ++ ending := told
    refine ⟨parts, ending, course, split, ?_, ?_, fun color => course.showsStacks color _⟩
    · rw [split, course.countP_stack]
    · rw [← account.steps, ← course.countP_isInstruction, ← split]
  · intro quiet verbosity
    apply LinesUnstyle.map_unstyled
    apply LinesUnstyle.flatMap
    intro event member
    apply TraceStyle.unstyles_lines
    rintro fault rfl
    exact quiet fault (fault_of_mem closed member)

theorem verbosity_adds_lines_empty :
    let program : Program := ⟨.two, #[0x41, 1, 0x48, 2, 6]⟩
    let style verbosity color := TraceStyle.forLength verbosity color 5
    ∃ outcome, (Machine.zeroed 8 .default).run 3 program .unlimited collectEvents #[] =
        some outcome ∧
      outcome.trace.toList.flatMap (style .veryVerbose false).lines =
        ["0  push rax", "   ↑ 0", "   ≡ [0]", "2  pop rbx", "   ↓ 0", "   ← rbx = 0", "   ≡ []",
          "4  out", "   ✗ operand stack is empty at offset 4"] ∧
      AddsLines ['≡'] (style .verbose false) (style .veryVerbose false) outcome.trace.toList ∧
      (outcome.trace.toList.flatMap (style .veryVerbose true).lines).map unstyled =
        outcome.trace.toList.flatMap (style .veryVerbose false).lines := by
  intro program style
  have ran : ((Machine.zeroed 8 .default).run 3 program .unlimited collectEvents #[]).map
      (fun outcome => (outcome.trace.toList.flatMap (style .veryVerbose false).lines,
        outcome.fault)) =
      some (["0  push rax", "   ↑ 0", "   ≡ [0]", "2  pop rbx", "   ↓ 0", "   ← rbx = 0",
        "   ≡ []", "4  out", "   ✗ operand stack is empty at offset 4"],
        some (.emptyOperandStack 4)) := by
    decide +kernel
  obtain ⟨outcome, ended, same⟩ := Option.map_eq_some_iff.mp ran
  obtain ⟨shown, failed⟩ := Prod.mk.inj same
  obtain ⟨-, adds, -, fades⟩ := (verbosity_adds_lines program).2 _ _ _ outcome ended
  refine ⟨outcome, ended, shown, (adds false).2, fades ?_ .veryVerbose⟩
  intro fault other
  rw [failed, Option.some.injEq] at other
  rw [← other]
  decide +kernel

end StackMachine
