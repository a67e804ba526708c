import StackMachine.Proofs.Assembly.FirstFormat
import StackMachine.Proofs.Machine.Account
import StackMachine.Proofs.Machine.Calls
import StackMachine.Proofs.Machine.Fuel
import StackMachine.Proofs.Machine.Telling
import StackMachine.Proofs.Machine.Track

set_option autoImplicit false

namespace StackMachine

namespace Statement

def leadsOn (statement : Statement) (below : List Statement) : Bool :=
  match statement.kind with
  | .label _ => true
  | .instruction i => !i.isCall && !i.isRet
  | .branch op name _ => decide (op ≠ .call) && (labels below).contains name

def goForward : List Statement → Bool
  | [] => true
  | statement :: below => statement.leadsOn below && goForward below

variable {statement : Statement} {statements above below : List Statement}

theorem leadsOn_of_goForward (forward : goForward statements = true)
    (place : statements = above ++ statement :: below) : statement.leadsOn below = true := by
  induction above generalizing statements with
  | nil =>
    subst place
    exact (Bool.and_eq_true _ _ ▸ forward).1
  | cons first above ih =>
    subst place
    exact ih (Bool.and_eq_true _ _ ▸ forward).2 rfl

theorem leadsOn_of_isLegacy (legacy : statement.isLegacy = true) (below : List Statement) :
    statement.leadsOn below = true := by
  rcases statement with ⟨span, _ | i | _⟩
  · rfl
  · cases i with
    | plain op =>
      cases op with
      | ret => cases legacy
      | _ => rfl
    | push | pop => rfl
    | branch op target =>
      have supported : (Instruction.branch op target).isSupported .one = true := legacy
      rw [Instruction.isSupported_branch] at supported
      cases supported
  · cases legacy

theorem goForward_of_isLegacy (legacy : ∀ statement ∈ statements, statement.isLegacy = true) :
    goForward statements = true := by
  induction statements with
  | nil => rfl
  | cons statement below ih =>
    rw [List.forall_mem_cons] at legacy
    rw [goForward, leadsOn_of_isLegacy legacy.1, ih legacy.2, Bool.and_true]

theorem lt_countP_of_below {front back : List Statement} {label : Statement} {name : String}
    (distinct : (labels statements).Nodup) (code : statement.isCode = true)
    (among : name ∈ labels below) (place : statements = above ++ statement :: below)
    (declared : label.kind = .label name) (split : statements = front ++ label :: back) :
    above.countP isCode < front.countP isCode := by
  have both := place.symm.trans split
  obtain ⟨middle, rfl, rest⟩ | ⟨middle, rfl, rest⟩ := List.append_eq_append_iff.mp both
  · cases middle with
    | nil =>
      cases rest
      simp [isCode, declared] at code
    | cons first middle =>
      cases rest
      simp [code]
  · -- The label stands above, and its name is declared twice.
    exfalso
    rw [place] at distinct
    cases middle with
    | nil =>
      cases rest
      simp [isCode, declared] at code
    | cons first middle =>
      cases rest
      simp only [labels, List.filterMap_append, List.filterMap_cons, declared] at distinct among
      have disjoint := (List.nodup_append.mp distinct).2.2 name (by simp) name
      simp only [ne_eq, not_true_eq_false, imp_false] at disjoint
      apply disjoint
      split
      · exact among
      · exact List.mem_cons_of_mem _ among

end Statement

theorem exists_split_of_filter {α : Type} {p : α → Bool} {items : List α} {index : Nat}
    (inside : index < (items.filter p).length) :
    ∃ above below, items = above ++ (items.filter p)[index] :: below ∧ above.countP p = index := by
  induction items generalizing index with
  | nil => cases inside
  | cons item rest ih =>
    by_cases kept : p item = true
    · cases index with
      | zero => exact ⟨[], rest, by simp [kept], rfl⟩
      | succ index =>
        rw [List.filter_cons_of_pos kept, List.length_cons] at inside
        obtain ⟨above, below, place, count⟩ := ih (Nat.lt_of_succ_lt_succ inside)
        refine ⟨item :: above, below, ?_, by simp [kept, count]⟩
        simpa [kept] using place
    · rw [List.filter_cons_of_neg kept] at inside
      obtain ⟨above, below, place, count⟩ := ih inside
      refine ⟨item :: above, below, ?_, by simp [kept, count]⟩
      simpa [kept] using place

namespace LaidOut

variable {program : Program} {statements : List Statement} {code : List Instruction} {index : Nat}

theorem exists_statement (laid : LaidOut program statements code) (inside : index < code.length) :
    ∃ above statement below, statements = above ++ statement :: below ∧
      above.countP Statement.isCode = index ∧ statement.isCode = true ∧
      Statement.StandsFor program.version statements code statement code[index] := by
  have bound := laid.stands.length_eq ▸ inside
  obtain ⟨above, below, place, count⟩ := exists_split_of_filter bound
  have among := List.mem_filter.mp (List.getElem_mem bound)
  exact ⟨above, _, below, place, count, among.2, laid.stands.get bound inside⟩

theorem offset_lt (laid : LaidOut program statements code) {later : Nat} (less : index < later)
    (bound : later ≤ code.length) :
    Layout.offset program.version code index < Layout.offset program.version code later := by
  induction later with
  | zero => cases less
  | succ later ih =>
    have step := (decodeAt_advances (laid.decoded later bound)).1
    obtain below | rfl := Nat.lt_succ_iff_lt_or_eq.mp less
    · exact Nat.lt_trans (ih below (Nat.le_of_succ_le bound)) step
    · exact step

theorem leads_on (laid : LaidOut program statements code)
    (distinct : (Statement.labels statements).Nodup)
    (forward : Statement.goForward statements = true) (inside : index < code.length) {pc : Nat}
    {calls left : CallStack}
    (transfers : Action.Transfers program.length
      (Layout.offset program.version code (index + 1)) code[index] calls (.next pc) left) :
    ∃ later, index < later ∧ later ≤ code.length ∧
      pc = Layout.offset program.version code later := by
  obtain ⟨above, statement, below, place, count, isCode, stands⟩ := laid.exists_statement inside
  have leads := Statement.leadsOn_of_goForward forward place
  generalize code[index] = i at transfers stands
  cases transfers with
  | on stays => exact ⟨index + 1, Nat.lt_succ_self index, inside, rfl⟩
  | jump direct target =>
    cases stands with
    | instruction direct => cases direct
    | @branch _ _ _ _ name _ front back split reaches =>
      simp only [Statement.leadsOn, Bool.and_eq_true, List.contains_iff_mem] at leads
      have ahead := Statement.lt_countP_of_below distinct isCode leads.2 place rfl split
      refine ⟨front.countP Statement.isCode, count ▸ ahead, ?_, reaches⟩
      rw [← laid.stands.length_eq, ← List.countP_eq_length_filter, split, List.countP_append]
      exact Nat.le_add_right _ _
  | call =>
    cases stands with
    | instruction direct => cases direct
    | branch => cases leads
  | ret =>
    cases stands with
    | instruction => cases leads

end LaidOut

def Event.executed? : Event → Option (Nat × Instruction)
  | .instruction pc i => some (pc, i)
  | _ => none

theorem Event.executed?_of_isEffect {event : Event} (effect : event.isEffect = true) :
    event.executed? = none := by
  cases event <;> first | rfl | cases effect

theorem Event.isSome_executed? (event : Event) : event.executed?.isSome = event.isInstruction := by
  cases event <;> rfl

def Layout.placed (version : Version) (code : List Instruction) : List (Nat × Instruction) :=
  code.mapIdx fun index i => (offset version code index, i)

@[simp] theorem Layout.length_placed (version : Version) (code : List Instruction) :
    (placed version code).length = code.length := by
  simp [placed]

theorem Episode.executed {program : Program} {pc : Nat} {told : List Event}
    (episode : Episode program pc told) :
    ∃ i next, program.decodeAt pc = .ok (i, next) ∧
      told.filterMap Event.executed? = [(pc, i)] := by
  obtain @⟨i, next, effects, decoded, all⟩ := episode
  have none : effects.filterMap Event.executed? = [] :=
    List.filterMap_eq_nil_iff.mpr fun event among => Event.executed?_of_isEffect (all event among)
  exact ⟨i, next, decoded, by rw [List.filterMap_cons, none]; rfl⟩

namespace LaidOut

variable {program : Program} {statements : List Statement} {code : List Instruction} {index : Nat}

theorem pairwise_placed (laid : LaidOut program statements code) :
    ((Layout.placed program.version code).map Prod.fst).Pairwise (· < ·) := by
  rw [List.pairwise_map, List.pairwise_iff_getElem]
  intro index later inside bound less
  rw [Layout.length_placed] at inside bound
  simp only [Layout.placed, List.getElem_mapIdx]
  exact laid.offset_lt less (Nat.le_of_lt bound)

theorem executed_turn (laid : LaidOut program statements code) (bound : index ≤ code.length)
    {machine : Machine} (sink : Sink)
    (place : machine.pc = Layout.offset program.version code index) :
    (Action.turn program).Ends ⟨machine, sink, []⟩
      (fun _ after => (after.events.filterMap Event.executed?).Sublist
        (((Layout.placed program.version code).drop index).take 1))
      fun _ after => (after.events.filterMap Event.executed?).Sublist
        (((Layout.placed program.version code).drop index).take 1) := by
  have here {told : List Event} (episode : Episode program machine.pc told) :
      told.filterMap Event.executed? =
        ((Layout.placed program.version code).drop index).take 1 := by
    obtain ⟨i, next, decoded, executed⟩ := episode.executed
    have before := decodeAt_advances decoded
    have inside : index < code.length := by
      refine Nat.lt_of_le_of_ne bound fun last => ?_
      rw [last, laid.ends] at place
      simp only [Program.length] at place
      omega
    rw [place, laid.decoded index inside] at decoded
    cases decoded
    have within : index < (Layout.placed program.version code).length := by simpa using inside
    rw [executed, List.drop_eq_getElem_cons within]
    simp [Layout.placed, place]
  apply Action.told_turn.mono
  · rintro (_ | _) after told
    · obtain ⟨told, episode, events⟩ := told
      simp [events, here episode, Event.executed?]
    · obtain ⟨-, events⟩ | ⟨-, told, episode, events⟩ := told
      · simp [events, List.filterMap_cons, Event.executed?]
      · simp [events, here episode, Event.executed?]
  · rintro fault after (none | episode)
    · simp [none]
    · rw [here episode]

theorem exists_runFrom (laid : LaidOut program statements code)
    (distinct : (Statement.labels statements).Nodup)
    (forward : Statement.goForward statements = true) {bound : Nat} (within : index ≤ code.length)
    (enough : code.length - index < bound) {machine : Machine} (free : machine.fuel = none)
    (place : machine.pc = Layout.offset program.version code index) (sink : Sink)
    (trace : Array Event) :
    ∃ outcome rest, runFrom program collectEvents bound machine sink trace = some outcome ∧
      outcome.trace.toList = trace.toList ++ rest ∧
      (rest.filterMap Event.executed?).Sublist
        ((Layout.placed program.version code).drop index) := by
  -- The index grows with each turn, so that a bound above what is left of the code is enough.
  induction bound generalizing index machine sink trace with
  | zero => cases enough
  | succ bound ih =>
    obtain ⟨told, failed⟩ := Action.ends_iff.mp (laid.executed_turn within sink place)
    have some : machine.fuel ≠ some 0 := by simp [free]
    simp only [runFrom]
    split
    next after ran =>
      obtain ⟨i, next, decoded, transfers⟩ :=
        (Action.ends_iff.mp Action.transfers_turn).1 _ _ ran
      have inside : index < code.length := by
        have before := decodeAt_advances decoded
        refine Nat.lt_of_le_of_ne within fun last => ?_
        simp only [place, last, laid.ends, Program.length] at before
        omega
      rw [place, laid.decoded index inside] at decoded
      cases decoded
      obtain ⟨later, less, below, there⟩ := laid.leads_on distinct forward inside transfers
      have fuel := ((Action.ends_iff.mp (Action.ends_turn_fueled some)).1 _ _ ran rfl).2.2
      obtain ⟨outcome, rest, ended, events, executed⟩ := ih below (by omega)
        (by simp [fuel, free]) there after.sink (after.events.foldl collectEvents trace)
      refine ⟨outcome, after.events ++ rest, ended, ?_, ?_⟩
      · rw [events, toList_foldl_collectEvents, List.append_assoc]
      · -- What is executed later stands behind this instruction.
        have further := executed.trans (List.drop_sublist_drop_left _ less)
        rw [List.filterMap_append, ← List.take_append_drop 1 (List.drop _ _), List.drop_drop]
        exact (told _ _ ran).append further
    next after ran =>
      refine ⟨_, after.events, rfl, toList_foldl_collectEvents after.events trace, ?_⟩
      exact (told _ _ ran).trans (List.take_sublist 1 _)
    next fault after ran =>
      refine ⟨_, after.events ++ [.fault fault], rfl, ?_, ?_⟩
      · simp [collectEvents, toList_foldl_collectEvents]
      · have executed := (failed _ _ ran).trans (List.take_sublist 1 _)
        simpa [List.filterMap_cons, Event.executed?] using executed

end LaidOut

theorem nodup_labels {version : Version} {pipeline : Pipeline} {source : String}
    {assembly : Assembly} (assembled : assemble version pipeline source = .ok assembly) :
    (Statement.labels (parse source).statements).Nodup := by
  obtain ⟨-, clean, -⟩ := assemble_eq_ok_iff.mp (assemble_twoPass_of_ok assembled)
  have declared := (List.append_eq_nil_iff.mp clean).1
  have names : (collectLabels version (parse source).statements).labels.entries.map Prod.fst =
      Statement.labels (parse source).statements := LabelPass.names_continueFrom declared
  rw [← names]
  exact LabelPass.nodup_continueFrom 0 (parse source).statements .nil

theorem goForward_of_one {pipeline : Pipeline} {source : String} {assembly : Assembly}
    (assembled : assemble .one pipeline source = .ok assembly) :
    Statement.goForward (parse source).statements = true := by
  obtain ⟨-, clean, -⟩ := assemble_eq_ok_iff.mp (assemble_twoPass_of_ok assembled)
  have encoded := Statement.clean_of_encode (List.append_eq_nil_iff.mp clean).2
  exact Statement.goForward_of_isLegacy fun statement member =>
    Statement.isLegacy_of_clean (encoded statement member)

/-- Without calls, and with all labels ahead, a run without a limit comes to an end. On its way it
executes some of the instructions, each of them once and in the order of the source. -/
theorem run_goForward {version : Version} {pipeline : Pipeline} {source : String}
    {assembly : Assembly} (assembled : assemble version pipeline source = .ok assembly) :
    let statements := (parse source).statements
    let program := assembly.program
    (version = .one → Statement.goForward statements = true) ∧
      (Statement.goForward statements = true →
        ∃ code, LaidOut program statements code ∧
          ∀ (machine : Machine) (sink : Sink), machine.fuelLimit = none →
            ∃ outcome, machine.run (code.length + 1) program sink collectEvents #[] =
                some outcome ∧
              let executed := outcome.trace.toList.filterMap Event.executed?
              (executed.map Prod.fst).Pairwise (· < ·) ∧
                executed.Sublist (code.mapIdx fun index i =>
                  (Layout.offset program.version code index, i)) ∧
                outcome.machine.steps = executed.length ∧
                executed.length ≤ statements.countP Statement.isCode) := by
  intro statements program
  constructor
  · rintro rfl
    exact goForward_of_one assembled
  intro forward
  obtain ⟨code, laid⟩ := exists_laidOut assembled
  refine ⟨code, laid, fun machine sink free => ?_⟩
  have begins : machine.reset.pc = Layout.offset program.version code 0 := rfl
  obtain ⟨outcome, rest, ended, events, executed⟩ :=
    laid.exists_runFrom (nodup_labels assembled) forward (Nat.zero_le _)
      (Nat.lt_succ_of_le (Nat.sub_le _ _)) free begins sink #[]
  simp only [List.nil_append, List.drop_zero] at events executed
  rw [← events] at executed
  have accounted : Session.Accounted machine.memory.size sink [] ⟨machine.reset, sink, []⟩ :=
    ⟨.reset machine sink, by simp⟩
  have account := (account_of_runFrom accounted ended).1
  refine ⟨outcome, ended, ?_, executed, ?_, ?_⟩
  · exact laid.pairwise_placed.sublist (executed.map Prod.fst)
  · rw [← account.steps, List.length_filterMap_eq_countP]
    simp only [Event.isSome_executed?]
  · have fewer := executed.length_le
    rwa [Layout.length_placed, ← laid.stands.length_eq, ← List.countP_eq_length_filter] at fewer

theorem run_goForward_skip :
    let source := "push 1
jmp f
out
f: jmp g
g: out
"
    let program : Program :=
      ⟨.two, #[0x21, 0, 0, 0, 0, 0, 0, 0xf0, 0x3f, 11, 15, 0, 0, 0, 6, 11, 20, 0, 0, 0, 6]⟩
    let labels : LabelTable := ⟨[("f", ⟨15, ⟨17, 18⟩⟩), ("g", ⟨20, ⟨26, 27⟩⟩)]⟩
    let machine : Machine := .zeroed 0 .default
    assemble .two .twoPass source = .ok ⟨program, labels⟩ ∧
      Statement.goForward (parse source).statements = true ∧ machine.fuelLimit = none ∧
      ∃ bound outcome, machine.run bound program .unlimited collectEvents #[] = some outcome ∧
        outcome.machine.steps ≤ 5 ∧
        ((outcome.trace.toList.filterMap Event.executed?).map Prod.fst).Pairwise (· < ·) := by
  intro source program labels machine
  have assembled : assemble .two .twoPass source = .ok ⟨program, labels⟩ := by
    refine assemble_eq_ok_iff.mpr ⟨?_, ?_, ?_⟩
    all_goals decide +kernel
  have forward : Statement.goForward (parse source).statements = true := by decide +kernel
  have count : (parse source).statements.countP Statement.isCode = 5 := by decide +kernel
  obtain ⟨code, laid, runs⟩ := (run_goForward assembled).2 forward
  obtain ⟨outcome, ended, grows, -, steps, few⟩ := runs machine .unlimited rfl
  exact ⟨assembled, forward, rfl, _, outcome, ended, by omega, grows⟩

end StackMachine
