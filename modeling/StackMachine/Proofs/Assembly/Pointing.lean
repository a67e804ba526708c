import StackMachine.Assembly.Diagnostic
import StackMachine.Proofs.Assembly.Complaints
import StackMachine.Proofs.Assembly.Places
import StackMachine.Proofs.Assembly.Wording

set_option autoImplicit false

namespace StackMachine

variable {version : Version}

/-- The complaints that statements can give rise to once they are read. -/
inductive Complains (statements : List Statement) : Diagnostic → Prop
  | duplicate {above below : List Statement} {first second : Statement} {name : String}
    (split : statements = above ++ second :: below) (earlier : first ∈ above)
    (declared : first.kind = .label name) (again : second.kind = .label name) :
    Complains statements ⟨.duplicateLabel, second.span, some name,
      [⟨"first defined here", first.span⟩]⟩
  | outOfRange {statement : Statement} {name : String} (member : statement ∈ statements)
    (declares : statement.kind = .label name) :
    Complains statements (.of .labelOutOfRange statement.span name)
  | unresolved {statement : Statement} {op : BranchOp} {name : String} {span : Span}
    (member : statement ∈ statements) (refers : statement.kind = .branch op name span) :
    Complains statements (.of .unresolvedLabel span name)
  | unavailable {statement : Statement} (member : statement ∈ statements) :
    Complains statements statement.unavailable

theorem exists_of_mem_continueFrom {labels : LabelTable} {offset : Nat}
    {statements : List Statement} {d : Diagnostic}
    (member : d ∈ (LabelPass.continueFrom version labels offset statements).diagnostics) :
    ∃ above statement below, statements = above ++ statement :: below ∧
      d ∈ (LabelPass.ofStatement (LabelPass.continueFrom version labels offset above).labels
        (offset + Statement.extent version above) statement).diagnostics := by
  induction statements generalizing labels offset with
  | nil => cases member
  | cons statement rest ih =>
    obtain here | later := List.mem_append.mp member
    · exact ⟨[], statement, rest, rfl, here⟩
    · obtain ⟨above, other, below, rfl, found⟩ := ih later
      refine ⟨statement :: above, other, below, rfl, ?_⟩
      simpa [LabelPass.continueFrom, Nat.add_assoc] using found

theorem complains_collectLabels {statements : List Statement} {d : Diagnostic}
    (member : d ∈ (collectLabels version statements).diagnostics) : Complains statements d := by
  obtain ⟨above, statement, below, split, found⟩ := exists_of_mem_continueFrom member
  have inside : statement ∈ statements := by simp [split]
  obtain ⟨name, -, -, -, done⟩ | ⟨name, first, label, taken, done⟩ | ⟨name, label, -, done⟩ |
    ⟨-, done⟩ := LabelPass.ofStatement_cases
      (LabelPass.continueFrom version .empty 0 above).labels
      (0 + Statement.extent version above) statement
  · rw [done] at found
    cases found
  · rw [done, List.mem_singleton] at found
    subst found
    obtain ⟨_, _, entries, -⟩ := List.lookup_eq_some_iff.mp taken
    have entry : (name, first) ∈
        (LabelPass.continueFrom version .empty 0 above).labels.entries := by
      simp [entries]
    obtain none | ⟨before, after, same, -⟩ := LabelPass.mem_continueFrom entry
    · cases none
    · have earlier : ⟨first.span, .label name⟩ ∈ above := by simp [same]
      exact .duplicate split earlier rfl label
  · rw [done, List.mem_singleton] at found
    subst found
    exact .outOfRange inside label
  · rw [done] at found
    cases found

theorem complains_ofStatement {labels : LabelTable} {statements : List Statement}
    {statement : Statement} (inside : statement ∈ statements) {d : Diagnostic}
    (member : d ∈ (Encoded.ofStatement version labels statement).diagnostics) :
    Complains statements d := by
  have lacking (i : Instruction) (named : Encoded.nameOf i = statement.shownName)
      (found : d ∈ (Encoded.ofInstruction version statement.span i).diagnostics) :
      Complains statements d := by
    rw [Encoded.diagnostics_ofInstruction] at found
    split at found
    next => cases found
    next =>
      rw [named, List.mem_singleton] at found
      subst found
      exact .unavailable inside
  rcases kind : statement.kind with name | i | ⟨op, name, span⟩
  · simp [Encoded.ofStatement, kind] at member
  · simp only [Encoded.ofStatement, kind] at member
    exact lacking i (by simp [Statement.shownName, kind]) member
  · have named (target : UInt32) : Encoded.nameOf (.branch op target) = statement.shownName := by
      simp only [Statement.shownName, kind]
      rfl
    simp only [Encoded.ofStatement, kind] at member
    split at member
    next target _ => exact lacking _ (named target) member
    next =>
      obtain rfl | later := List.mem_cons.mp member
      · exact .unresolved inside kind
      · exact lacking _ (named 0) later

theorem complains_encode {labels : LabelTable} {statements : List Statement} {d : Diagnostic}
    (member : d ∈ (encode version labels statements).diagnostics) : Complains statements d := by
  simp only [encode, List.flatMap_map, List.mem_flatMap] at member
  obtain ⟨statement, inside, found⟩ := member
  exact complains_ofStatement inside found

theorem exists_of_mem_aheadFaults {above statements : List Statement} {d : Diagnostic}
    (member : d ∈ Statement.aheadFaults version above statements) :
    ∃ statement ∈ statements, d ∈ statement.unresolved := by
  induction statements generalizing above with
  | nil => cases member
  | cons statement rest ih =>
    obtain here | later := List.mem_append.mp member
    · split at here
      next => exact ⟨statement, List.mem_cons_self, here⟩
      next => cases here
    · obtain ⟨other, inside, found⟩ := ih later
      exact ⟨other, List.mem_cons_of_mem statement inside, found⟩

theorem complains_aheadFaults {above statements : List Statement} {d : Diagnostic}
    (member : d ∈ Statement.aheadFaults version above statements) : Complains statements d := by
  obtain ⟨statement, inside, found⟩ := exists_of_mem_aheadFaults member
  rcases kind : statement.kind with name | i | ⟨op, name, span⟩
  · simp [Statement.unresolved, kind] at found
  · simp [Statement.unresolved, kind] at found
  · simp only [Statement.unresolved, kind, List.mem_singleton] at found
    subst found
    exact .unresolved inside kind

theorem complains_emitted {pipeline : Pipeline} {statements : List Statement} {d : Diagnostic}
    (member : d ∈ (Emitted.ofStatements version pipeline statements).diagnostics) :
    Complains statements d := by
  cases pipeline with
  | twoPass =>
    obtain placed | encoded := List.mem_append.mp member
    · exact complains_collectLabels placed
    · exact complains_encode encoded
  | singlePass =>
    have same := (diagnostics_encodeSinglePass statements).mem_iff.mp member
    obtain both | ahead := List.mem_append.mp same
    · obtain placed | encoded := List.mem_append.mp both
      · exact complains_collectLabels placed
      · exact complains_encode encoded
    · exact complains_aheadFaults ahead

structure Diagnostic.Points (source : String) (d : Diagnostic) : Prop where
  place : ∃ text, text ≠ [] ∧ '\n' ∉ text ∧ d.span.Shows 0 source.toList text
  message : OneLine d.message

section

variable {source : String} {line : List Token}

theorem oneLine_of_mem_line (inside : line ∈ Token.lines (Token.scan source)) {token : Token}
    (member : token ∈ Token.significant line) : OneLine token.text := by
  obtain ⟨above, within, below, -, short, rfl⟩ := Token.exists_of_mem_lines_scanFrom inside
  have shown := (Token.shows_of_mem_scanFrom (List.mem_of_mem_filter member)).2
  exact fun newline => short (shown.subset newline)

theorem place_of_mem_line (inside : line ∈ Token.lines (Token.scan source)) {token : Token}
    (member : token ∈ Token.significant line) :
    ∃ text, text ≠ [] ∧ '\n' ∉ text ∧ token.span.Shows 0 source.toList text := by
  have scanned := mem_scan_of_mem_line inside member
  obtain ⟨some, shown⟩ := Token.shows_of_mem_scanFrom scanned
  exact ⟨token.text.toList, some, oneLine_of_mem_line inside member, shown⟩

theorem isMisreading_of_mem_parse {d : Diagnostic} (member : d ∈ (parse source).diagnostics) :
    d.IsMisreading := by
  obtain ⟨line, inside, raised⟩ := Statement.exists_line_of_diagnostic member
  apply Statement.isMisreading_of_mem_parseLine _ raised
  intro token among
  exact oneLine_of_mem_line inside among

theorem points_of_mem_parse {d : Diagnostic} (member : d ∈ (parse source).diagnostics) :
    d.Points source := by
  obtain ⟨line, inside, raised⟩ := Statement.exists_line_of_diagnostic member
  have joined := (Statement.joined_of_mem_diagnostics (wide_of_mem_line inside) raised).1
  constructor
  · exact shows_of_joined inside joined
  · exact (isMisreading_of_mem_parse member).message

theorem place_of_mem_statements {statement : Statement}
    (member : statement ∈ (parse source).statements) :
    ∃ text, text ≠ [] ∧ '\n' ∉ text ∧ statement.span.Shows 0 source.toList text := by
  obtain ⟨line, inside, member⟩ := Statement.exists_line member
  exact shows_of_joined inside
    (Statement.joined_of_mem_parseLine (wide_of_mem_line inside) member)

theorem oneLine_name {statement : Statement} {name : String}
    (member : statement ∈ (parse source).statements) (label : statement.kind = .label name) :
    OneLine name := by
  obtain ⟨line, inside, token, among, rfl, -⟩ := Statement.exists_name member label
  exact oneLine_of_mem_line inside among

theorem oneLine_shownName {statement : Statement}
    (member : statement ∈ (parse source).statements) : OneLine statement.shownName := by
  unfold Statement.shownName
  split
  next name label => exact oneLine_name member label
  next i _ => exact Encoded.oneLine_nameOf i
  next op _ _ _ => exact (Opcode.branch op).printable_mnemonic.oneLine

theorem points_of_complains {d : Diagnostic} (complains : Complains (parse source).statements d) :
    d.Points source := by
  cases complains with
  | @duplicate above below first second name split earlier declared again =>
    have member : second ∈ (parse source).statements := by simp [split]
    constructor
    · exact place_of_mem_statements member
    · exact DiagnosticKind.oneLine_describe .duplicateLabel (oneLine_name member again)
  | outOfRange member declares =>
    constructor
    · exact place_of_mem_statements member
    · exact Diagnostic.oneLine_of _ _ (oneLine_name member declares)
  | unresolved member refers =>
    obtain ⟨line, inside, token, among, rfl, rfl⟩ := Statement.exists_target member refers
    constructor
    · exact place_of_mem_line inside among
    · exact Diagnostic.oneLine_of _ _ (oneLine_of_mem_line inside among)
  | unavailable member =>
    constructor
    · exact place_of_mem_statements member
    · apply Diagnostic.oneLine_of
      exact oneLine_quoted_append (oneLine_shownName member) (by decide +kernel)

theorem shows_name {statement : Statement} {name : String}
    (member : statement ∈ (parse source).statements) (label : statement.kind = .label name) :
    statement.span.Shows 0 source.toList name.toList := by
  obtain ⟨line, inside, token, among, rfl, place⟩ := Statement.exists_name member label
  rw [place]
  exact (Token.shows_of_mem_scanFrom (mem_scan_of_mem_line inside among)).2

theorem note_of_duplicate {d : Diagnostic} (complains : Complains (parse source).statements d)
    (twice : d.kind = .duplicateLabel) :
    ∃ name note, d.detail = some name ∧ d.notes = [note] ∧
      d.span.Shows 0 source.toList name.toList ∧ note.span.Shows 0 source.toList name.toList ∧
        note.span.stop ≤ d.span.start := by
  cases complains with
  | outOfRange | unresolved | unavailable => cases twice
  | @duplicate above below first second name split earlier declared again =>
    have member : second ∈ (parse source).statements := by simp [split]
    have before : first ∈ (parse source).statements := by simp [split, earlier]
    have ordered := Statement.pairwise_parse source
    rw [split, List.pairwise_append] at ordered
    have order := ordered.2.2 first earlier second List.mem_cons_self
    exact ⟨name, _, rfl, rfl, shows_name member again, shows_name before declared, order⟩

end

def reportLine (source : String) (d : Diagnostic) : String :=
  s!"line {1 + newlinesBefore source d.span.start}: error: {d.message}"

theorem compactLine_none (source : String) (d : Diagnostic) :
    Report.compactLine none (LineIndex.ofText source) d = reportLine source d ++ "\n" := by
  simp only [Report.compactLine, reportLine, toString, String.empty_append, LineIndex.line_eq]

theorem oneLine_reportLine (source : String) {d : Diagnostic} (short : OneLine d.message) :
    OneLine (reportLine source d) := by
  unfold reportLine
  simp only [oneLine_append]
  exact ⟨⟨⟨by decide +kernel, (printable_natText _).oneLine⟩, by decide +kernel⟩, short⟩

/-- Every complaint of a failed assembly points at one line, a second declaration also at the
first, and what a line is blamed for stands between its tokens. So the compact report has a line for
each complaint, under the number of the line at which its place begins. -/
theorem diagnostics_pointing {pipeline : Pipeline} {source : String}
    {diagnostics : List Diagnostic}
    (failed : assemble version pipeline source = .error diagnostics) :
    (∀ d ∈ diagnostics,
      (∃ text, text ≠ [] ∧ '\n' ∉ text ∧ d.span.Shows 0 source.toList text) ∧
        '\n' ∉ d.message.toList) ∧
    (∀ d ∈ diagnostics, d.kind = .duplicateLabel →
      ∃ name note, d.detail = some name ∧ d.notes = [note] ∧
        d.span.Shows 0 source.toList name.toList ∧ note.span.Shows 0 source.toList name.toList ∧
          note.span.stop ≤ d.span.start) ∧
    ((parse source).diagnostics <+: diagnostics ∧ ∀ d ∈ (parse source).diagnostics,
      ∃ line ∈ (Token.lines (Token.scan source)).map Token.significant,
        d ∈ (Statement.parseLine line).diagnostics ∧ d.span.Joined line ∧
          ∀ note ∈ d.notes, note.span.Joined line) ∧
    (Report.compact none source diagnostics).toList.splitOn '\n' =
      diagnostics.map (fun d => (reportLine source d).toList) ++ [[]] := by
  obtain ⟨-, split⟩ := assemble_eq_error_iff.mp failed
  have origin {d : Diagnostic} (member : d ∈ diagnostics) :
      d ∈ (parse source).diagnostics ∨ Complains (parse source).statements d := by
    rw [split] at member
    exact (List.mem_append.mp member).imp_right complains_emitted
  have points : ∀ d ∈ diagnostics, d.Points source := by
    intro d member
    obtain read | complains := origin member
    · exact points_of_mem_parse read
    · exact points_of_complains complains
  constructor
  · intro d member
    exact ⟨(points d member).place, (points d member).message⟩
  constructor
  · intro d member twice
    obtain read | complains := origin member
    · have kinds := (isMisreading_of_mem_parse read).kind
      rw [twice] at kinds
      exact absurd kinds (by decide)
    · exact note_of_duplicate complains twice
  constructor
  · constructor
    · exact ⟨_, split.symm⟩
    · intro d member
      obtain ⟨line, inside, raised⟩ := Statement.exists_line_of_diagnostic member
      have joined := Statement.joined_of_mem_diagnostics (wide_of_mem_line inside) raised
      exact ⟨_, List.mem_map_of_mem inside, raised, joined⟩
  · have lines : Report.compact none source diagnostics =
        String.join ((diagnostics.map (reportLine source)).map fun text => text ++ "\n") := by
      rw [Report.compact, List.map_map]
      exact congrArg String.join (List.map_congr_left fun d _ => compactLine_none source d)
    rw [lines, splitOn_newline, List.map_map]
    · rfl
    · intro text member
      obtain ⟨d, inside, rfl⟩ := List.mem_map.mp member
      exact oneLine_reportLine source (points d inside).message

theorem diagnostics_pointing_twice :
    let source := "a: push rax \x0b\né ; two\na: hlt\n"
    let diagnostics : List Diagnostic :=
      [.malformed ⟨12, 13⟩ (.unexpected "\x0b"), .of .unknownMnemonic ⟨14, 16⟩ "é",
        ⟨.duplicateLabel, ⟨23, 24⟩, some "a", [⟨"first defined here", ⟨0, 1⟩⟩]⟩]
    assemble .two .twoPass source = .error diagnostics ∧
      (Report.compact none source diagnostics).toList.splitOn '\n' =
        ["line 1: error: malformed operand: unexpected `\x0b`".toList,
          "line 2: error: unknown mnemonic `é`".toList,
          "line 3: error: label `a` is already defined".toList, []] := by
  intro source diagnostics
  have failed : assemble .two .twoPass source = .error diagnostics :=
    assemble_eq_error_iff.mpr ⟨nofun, by decide +kernel⟩
  obtain ⟨-, -, -, report⟩ := diagnostics_pointing failed
  have lines : diagnostics.map (fun d => (reportLine source d).toList) ++ [[]] =
      ["line 1: error: malformed operand: unexpected `\x0b`".toList,
        "line 2: error: unknown mnemonic `é`".toList,
        "line 3: error: label `a` is already defined".toList, []] := by
    decide +kernel
  exact ⟨failed, report.trans lines⟩

end StackMachine
