import Mathlib.Data.List.Induction
import StackMachine.Proofs.Assembly.SinglePass

set_option autoImplicit false

namespace StackMachine

variable {version : Version}

namespace Statement

def declaration? (name : String) (statements : List Statement) : Option Span :=
  (statements.find? fun statement => decide (statement.kind = .label name)).map span

def redeclaration (above : List Statement) (statement : Statement) : List Diagnostic :=
  match statement.kind with
  | .label name =>
    match declaration? name above with
    | some first =>
      [⟨.duplicateLabel, statement.span, some name, [⟨"first defined here", first⟩]⟩]
    | none => []
  | .instruction _ | .branch _ _ _ => []

def redeclarations (above : List Statement) : List Statement → List Diagnostic
  | [] => []
  | statement :: below =>
    redeclaration above statement ++ redeclarations (above ++ [statement]) below

def isResolved (statements : List Statement) (statement : Statement) : Bool :=
  match statement.kind with
  | .branch _ name _ => decide (name ∈ labels statements)
  | .label _ | .instruction _ => true

def isAvailable (version : Version) (statement : Statement) : Bool :=
  match statement.kind with
  | .label _ => true
  | .instruction i => i.isSupported version
  | .branch op _ _ => (Opcode.branch op).isSupported version

def shownName (statement : Statement) : String :=
  match statement.kind with
  | .label name => name
  | .instruction i => Encoded.nameOf i
  | .branch op _ _ => op.mnemonic

def unavailable (statement : Statement) : Diagnostic :=
  .of .unsupportedInstruction statement.span
    (quoted statement.shownName ++ " needs format version 2")

def complaints (version : Version) (statements : List Statement) (statement : Statement) :
    List Diagnostic :=
  (if statement.isResolved statements then [] else statement.unresolved) ++
    if statement.isAvailable version then [] else [statement.unavailable]

theorem declaration?_append (name : String) (above below : List Statement) :
    declaration? name (above ++ below) =
      (declaration? name above).or (declaration? name below) := by
  simp only [declaration?, List.find?_append]
  cases above.find? fun statement => decide (statement.kind = .label name) <;> rfl

theorem mem_labels {name : String} {statements : List Statement} :
    name ∈ labels statements ↔ ∃ statement ∈ statements, statement.kind = .label name := by
  rw [labels, List.mem_filterMap]
  refine exists_congr fun statement => and_congr_right fun _ => ?_
  rcases statement with ⟨span, other | _ | _⟩ <;> simp

theorem declaration?_eq_none_iff (name : String) (statements : List Statement) :
    declaration? name statements = none ↔ name ∉ labels statements := by
  simp [declaration?, mem_labels]

theorem declaredAt?_le {name : String} {offset found : Nat} {statements : List Statement}
    (declared : declaredAt? version name offset statements = some found) :
    found ≤ offset + extent version statements := by
  induction statements generalizing offset with
  | nil => simp [declaredAt?] at declared
  | cons statement rest ih =>
    simp only [declaredAt?] at declared
    split at declared
    next =>
      cases declared
      omega
    next =>
      have later := ih declared
      rw [extent_cons]
      omega

end Statement

theorem resolve?_eq_none_iff {statements : List Statement} (name : String)
    (reached : Statement.extent version statements < UInt32.size) :
    (collectLabels version statements).labels.resolve? name = none ↔
      name ∉ Statement.labels statements := by
  rw [resolve?_collectLabels, ← Statement.declaredAt?_eq_none_iff version name 0]
  cases found : Statement.declaredAt? version name 0 statements with
  | none => simp
  | some offset =>
    have inside := Statement.declaredAt?_le found
    have within : offset < UInt32.size := by omega
    simp [targetOf?, within]

theorem span_collectLabels (statements : List Statement) (name : String)
    (reached : Statement.extent version statements < UInt32.size) :
    ((collectLabels version statements).labels.get? name).map Label.span =
      Statement.declaration? name statements := by
  -- From the end: the last statement meets the table of everything above it.
  induction statements using List.reverseRecOn with
  | nil => rfl
  | append_singleton above statement ih =>
    rw [Statement.extent_append] at reached
    have before := ih (by omega)
    rw [Statement.declaration?_append, ← before, ← labels_ofStatement]
    obtain ⟨other, label, -, fresh, done⟩ | ⟨other, first, label, taken, done⟩ |
      ⟨other, label, past, done⟩ | ⟨other, done⟩ :=
        LabelPass.ofStatement_cases (collectLabels version above).labels
          (Statement.extent version above) statement
    · by_cases same : other = name
      · subst same
        simp [done, LabelTable.get?_append, fresh, Statement.declaration?, label]
      · simp [done, LabelTable.get?_append, Statement.declaration?, label, same]
    · by_cases same : other = name
      · subst same
        simp [done, taken]
      · simp [done, Statement.declaration?, label, same]
    · omega
    · simp [done, Statement.declaration?, other]

theorem get?_collectLabels {above below : List Statement} {first : Statement} {name : String}
    (reached : Statement.extent version (above ++ first :: below) < UInt32.size)
    (declares : first.kind = .label name) (fresh : name ∉ Statement.labels above) :
    ∃ label, (collectLabels version (above ++ first :: below)).labels.get? name = some label ∧
      label.span = first.span ∧ label.offset.toNat = Statement.extent version above := by
  have unseen := (Statement.declaration?_eq_none_iff name above).mpr fresh
  have unplaced := (Statement.declaredAt?_eq_none_iff version name 0 above).mpr fresh
  have place := span_collectLabels (above ++ first :: below) name reached
  rw [Statement.declaration?_append, unseen] at place
  simp only [Statement.declaration?, declares, decide_true, List.find?_cons_of_pos, Option.map_some,
    Option.none_or, Option.map_eq_some_iff] at place
  obtain ⟨label, found, same⟩ := place
  have offset : (collectLabels version (above ++ first :: below)).labels.resolve? name = _ :=
    resolve?_collectLabels (above ++ first :: below) name
  rw [Statement.declaredAt?_append, unplaced] at offset
  rw [Statement.extent_append] at reached
  have within : Statement.extent version above < UInt32.size := by omega
  simp only [LabelTable.resolve?, found, Statement.declaredAt?, declares, if_true, Option.map_some,
    Option.none_or, Option.bind_some, targetOf?, Nat.zero_add, within, Option.some.injEq] at offset
  refine ⟨label, found, same, ?_⟩
  rw [offset, UInt32.toNat_ofNat_of_lt' within]

theorem diagnostics_ofStatement {labels : LabelTable} {offset : Nat} {above : List Statement}
    (statement : Statement) (reached : offset < UInt32.size)
    (seen : ∀ name, (labels.get? name).map Label.span = Statement.declaration? name above) :
    (LabelPass.ofStatement labels offset statement).diagnostics =
      statement.redeclaration above := by
  obtain ⟨name, label, -, fresh, done⟩ | ⟨name, first, label, taken, done⟩ |
    ⟨name, label, past, done⟩ | ⟨other, done⟩ :=
      LabelPass.ofStatement_cases labels offset statement
  · simp [done, Statement.redeclaration, label, ← seen, fresh]
  · simp [done, Statement.redeclaration, label, ← seen, taken]
  · omega
  · rcases statement with ⟨span, name | _ | _⟩
    · exact absurd rfl (other name)
    all_goals rfl

theorem diagnostics_continueFrom (above rest : List Statement)
    (reached : Statement.extent version (above ++ rest) < UInt32.size) :
    (LabelPass.continueFrom version (collectLabels version above).labels
      (Statement.extent version above) rest).diagnostics = Statement.redeclarations above rest := by
  induction rest generalizing above with
  | nil => rfl
  | cons statement rest ih =>
    have before : Statement.extent version above < UInt32.size := by
      rw [Statement.extent_append] at reached
      omega
    have here := diagnostics_ofStatement statement before
      fun name => span_collectLabels above name before
    have later := ih (above ++ [statement]) (by simpa using reached)
    rw [Statement.extent_append, Statement.extent_cons, Statement.extent_nil, Nat.add_zero] at later
    rw [LabelPass.continueFrom, labels_ofStatement, here, later, Statement.redeclarations]

namespace Statement

@[simp] theorem labels_append (above below : List Statement) :
    labels (above ++ below) = labels above ++ labels below :=
  List.filterMap_append

theorem redeclaration_eq_nil_iff (above : List Statement) (statement : Statement) :
    redeclaration above statement = [] ↔
      ∀ name, statement.kind = .label name → name ∉ labels above := by
  rcases statement with ⟨span, name | _ | _⟩
  · simp only [redeclaration, StatementKind.label.injEq, forall_eq', ← declaration?_eq_none_iff]
    cases declaration? name above <;> simp
  all_goals simp [redeclaration]

theorem redeclarations_eq_nil_iff (above rest : List Statement) :
    redeclarations above rest = [] ↔
      (labels rest).Nodup ∧ ∀ name ∈ labels rest, name ∉ labels above := by
  induction rest generalizing above with
  | nil => simp [redeclarations, labels]
  | cons statement rest ih =>
    rw [redeclarations, List.append_eq_nil_iff, redeclaration_eq_nil_iff, ih, labels_append]
    rcases statement with ⟨span, name | _ | _⟩
    · have first : labels (⟨span, .label name⟩ :: rest) = name :: labels rest := rfl
      have alone : labels [⟨span, .label name⟩] = [name] := rfl
      simp only [first, alone, StatementKind.label.injEq, forall_eq', List.nodup_cons,
        List.forall_mem_cons, List.mem_append, List.mem_singleton]
      grind
    all_goals simp [labels]

end Statement

theorem Encoded.diagnostics_ofInstruction (span : Span) (i : Instruction) :
    (ofInstruction version span i).diagnostics = if i.isSupported version then [] else
      [.of .unsupportedInstruction span (quoted (nameOf i) ++ " needs format version 2")] := by
  unfold ofInstruction
  split <;> rfl

theorem Encoded.diagnostics_ofStatement {labels : LabelTable} {statements : List Statement}
    (statement : Statement)
    (resolved : ∀ name, labels.resolve? name = none ↔ name ∉ Statement.labels statements) :
    (ofStatement version labels statement).diagnostics =
      statement.complaints version statements := by
  rcases statement with ⟨span, name | i | ⟨op, name, nameSpan⟩⟩
  · rfl
  · exact diagnostics_ofInstruction span i
  · -- Neither the target nor what stands in for it shows in the complaint.
    have shown (target : UInt32) : (ofInstruction version span (.branch op target)).diagnostics =
        if Statement.isAvailable version ⟨span, .branch op name nameSpan⟩ then [] else
          [Statement.unavailable ⟨span, .branch op name nameSpan⟩] :=
      diagnostics_ofInstruction span (.branch op target)
    cases found : labels.resolve? name with
    | none =>
      have unknown := (resolved name).mp found
      simp [ofStatement, found, shown, Statement.complaints, Statement.isResolved, unknown,
        Statement.unresolved]
    | some target =>
      have known : name ∈ Statement.labels statements := by
        by_contra unknown
        simp [(resolved name).mpr unknown] at found
      simp [ofStatement, found, shown, Statement.complaints, Statement.isResolved, known]

theorem Statement.complaints_eq_nil_iff (statements : List Statement) (statement : Statement) :
    statement.complaints version statements = [] ↔
      statement.isResolved statements = true ∧ statement.isAvailable version = true := by
  rcases statement with ⟨span, name | i | ⟨op, name, nameSpan⟩⟩ <;>
    simp [complaints, isResolved, unresolved]

/-- Two walks report each name that is declared again, each branch to an unknown name and each
instruction that the format lacks, in their order, and nothing else stops an assembly. -/
theorem twoPass_complaints (version : Version) :
    (∀ statements : List Statement, Statement.extent version statements < UInt32.size →
      let collected := collectLabels version statements
      collected.diagnostics = Statement.redeclarations [] statements ∧
        (∀ above first below name, statements = above ++ first :: below →
          first.kind = .label name → name ∉ Statement.labels above →
          ∃ label, collected.labels.get? name = some label ∧ label.span = first.span ∧
            label.offset.toNat = Statement.extent version above) ∧
        (encode version collected.labels statements).diagnostics =
          statements.flatMap (Statement.complaints version statements)) ∧
    ∀ source,
      let parsed := parse source
      let collected := collectLabels version parsed.statements
      (Statement.extent version parsed.statements < UInt32.size →
        ((∃ assembly, assemble version .twoPass source = .ok assembly) ↔
          parsed.diagnostics = [] ∧ (Statement.labels parsed.statements).Nodup ∧
            ∀ statement ∈ parsed.statements,
              statement.isResolved parsed.statements = true ∧
                statement.isAvailable version = true)) ∧
        ∀ diagnostics, assemble version .twoPass source = .error diagnostics ↔
          diagnostics ≠ [] ∧ diagnostics = parsed.diagnostics ++ (collected.diagnostics ++
            (encode version collected.labels parsed.statements).diagnostics) := by
  have collect {statements : List Statement}
      (reached : Statement.extent version statements < UInt32.size) :
      (collectLabels version statements).diagnostics = Statement.redeclarations [] statements :=
    diagnostics_continueFrom [] statements reached
  have encoded {statements : List Statement}
      (reached : Statement.extent version statements < UInt32.size) :
      (encode version (collectLabels version statements).labels statements).diagnostics =
        statements.flatMap (Statement.complaints version statements) := by
    simp only [encode, List.flatMap_map]
    congr
    funext statement
    exact Encoded.diagnostics_ofStatement statement fun name => resolve?_eq_none_iff name reached
  refine ⟨fun statements reached => ⟨collect reached, ?_, encoded reached⟩, fun source => ⟨?_, ?_⟩⟩
  · rintro above first below name rfl declares fresh
    exact get?_collectLabels reached declares fresh
  · intro reached
    have done (assembly : Assembly) : assemble version .twoPass source = .ok assembly ↔ _ :=
      assemble_eq_ok_iff
    simp only [done, exists_and_left, exists_eq', and_true, Emitted.ofStatements,
      List.append_eq_nil_iff, collect reached, encoded reached,
      Statement.redeclarations_eq_nil_iff, List.flatMap_eq_nil_iff,
      Statement.complaints_eq_nil_iff]
    simp [Statement.labels]
  · intro diagnostics
    exact assemble_eq_error_iff

theorem twoPass_complaints_overlapping :
    let source := "a: ja b\na: pop rax\na: add\n"
    Statement.extent .one (parse source).statements < UInt32.size ∧
      assemble .one .twoPass source = .error
        [⟨.duplicateLabel, ⟨8, 9⟩, some "a", [⟨"first defined here", ⟨0, 1⟩⟩]⟩,
          ⟨.duplicateLabel, ⟨19, 20⟩, some "a", [⟨"first defined here", ⟨0, 1⟩⟩]⟩,
          .of .unresolvedLabel ⟨6, 7⟩ "b",
          .of .unsupportedInstruction ⟨3, 7⟩ "`ja` needs format version 2",
          .of .unsupportedInstruction ⟨11, 18⟩ "`pop rax` needs format version 2"] := by
  intro source
  have reached : Statement.extent .one (parse source).statements < UInt32.size := by
    decide +kernel
  obtain ⟨exact, whole⟩ := twoPass_complaints .one
  obtain ⟨declared, -, encoded⟩ := exact _ reached
  refine ⟨reached, ((whole source).2 _).mpr ⟨nofun, ?_⟩⟩
  rw [declared, encoded]
  decide +kernel

end StackMachine
