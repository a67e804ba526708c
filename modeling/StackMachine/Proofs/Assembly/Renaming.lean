import Mathlib.Logic.Function.Basic
import StackMachine.Assembly.Assembler

set_option autoImplicit false

namespace StackMachine

variable {rename : String → String} {version : Version}

namespace Statement

def renamed (rename : String → String) (statement : Statement) : Statement :=
  match statement.kind with
  | .label name => ⟨statement.span, .label (rename name)⟩
  | .instruction _ => statement
  | .branch op name nameSpan => ⟨statement.span, .branch op (rename name) nameSpan⟩

theorem size_renamed (statement : Statement) :
    (statement.renamed rename).size version = statement.size version := by
  rcases statement with ⟨span, _ | _ | _⟩ <;> rfl

end Statement

def Diagnostic.renamed (rename : String → String) (d : Diagnostic) : Diagnostic :=
  match d.kind with
  | .duplicateLabel | .unresolvedLabel | .labelOutOfRange =>
    { d with detail := d.detail.map rename }
  | .invalidLiteral | .malformedOperand | .unknownMnemonic | .unsupportedInstruction => d

/-- A complaint without its words. -/
def Diagnostic.outline (d : Diagnostic) : DiagnosticKind × Span × List Span :=
  (d.kind, d.span, d.notes.map Note.span)

theorem Diagnostic.outline_renamed (rename : String → String) (d : Diagnostic) :
    (d.renamed rename).outline = d.outline := by
  rcases d with ⟨kind, span, detail, notes⟩
  cases kind <;> rfl

theorem map_outline_renamed (rename : String → String) (diagnostics : List Diagnostic) :
    (diagnostics.map (Diagnostic.renamed rename)).map Diagnostic.outline =
      diagnostics.map Diagnostic.outline := by
  rw [List.map_map]
  exact List.map_congr_left fun d _ => d.outline_renamed rename

namespace LabelTable

def renamed (rename : String → String) (table : LabelTable) : LabelTable :=
  ⟨table.entries.map fun entry => (rename entry.1, entry.2)⟩

theorem get?_renamed (injective : Function.Injective rename) (table : LabelTable)
    (name : String) : (table.renamed rename).get? (rename name) = table.get? name := by
  rcases table with ⟨entries⟩
  simp only [get?, renamed]
  induction entries with
  | nil => rfl
  | cons entry rest ih =>
    have same : (rename name == rename entry.1) = (name == entry.1) := by
      rw [Bool.eq_iff_iff, beq_iff_eq, beq_iff_eq, injective.eq_iff]
    rw [List.map_cons, List.lookup_cons, List.lookup_cons, same, ih]

theorem resolve?_renamed (injective : Function.Injective rename) (table : LabelTable)
    (name : String) : (table.renamed rename).resolve? (rename name) = table.resolve? name := by
  rw [resolve?, resolve?, get?_renamed injective]

end LabelTable

namespace LabelPass

def renamed (rename : String → String) (pass : LabelPass) : LabelPass :=
  ⟨pass.labels.renamed rename, pass.diagnostics.map (Diagnostic.renamed rename)⟩

theorem declare_renamed (injective : Function.Injective rename) (labels : LabelTable)
    (name : String) (offset : Nat) (span : Span) :
    declare (labels.renamed rename) (rename name) offset span =
      (declare labels name offset span).renamed rename := by
  unfold declare
  split
  next => rfl
  next =>
    simp only [LabelTable.declare, LabelTable.get?_renamed injective]
    cases labels.get? name with
    | some first => rfl
    | none => simp [renamed, LabelTable.renamed]

theorem ofStatement_renamed (injective : Function.Injective rename) (labels : LabelTable)
    (offset : Nat) (statement : Statement) :
    ofStatement (labels.renamed rename) offset (statement.renamed rename) =
      (ofStatement labels offset statement).renamed rename := by
  rcases statement with ⟨span, name | _ | _⟩
  · exact declare_renamed injective labels name offset span
  · rfl
  · rfl

theorem continueFrom_renamed (injective : Function.Injective rename) (labels : LabelTable)
    (offset : Nat) (statements : List Statement) :
    LabelPass.continueFrom version (labels.renamed rename) offset
        (statements.map (Statement.renamed rename)) =
      (LabelPass.continueFrom version labels offset statements).renamed rename := by
  induction statements generalizing labels offset with
  | nil => rfl
  | cons statement rest ih =>
    have here := ofStatement_renamed injective labels offset statement
    have later := ih (ofStatement labels offset statement).labels
      (offset + statement.size version)
    rw [List.map_cons, LabelPass.continueFrom, here, Statement.size_renamed]
    simp only [renamed] at later ⊢
    rw [later, LabelPass.continueFrom, List.map_append]

end LabelPass

namespace Encoded

def renamed (rename : String → String) (encoded : Encoded) : Encoded :=
  ⟨encoded.bytes, encoded.diagnostics.map (Diagnostic.renamed rename)⟩

theorem ofInstruction_renamed (rename : String → String) (version : Version) (span : Span)
    (i : Instruction) :
    (ofInstruction version span i).renamed rename = ofInstruction version span i := by
  unfold ofInstruction
  split <;> rfl

theorem ofStatement_renamed (injective : Function.Injective rename) (version : Version)
    (labels : LabelTable) (statement : Statement) :
    ofStatement version (labels.renamed rename) (statement.renamed rename) =
      (ofStatement version labels statement).renamed rename := by
  rcases statement with ⟨span, _ | i | ⟨op, name, nameSpan⟩⟩
  · rfl
  · exact (ofInstruction_renamed rename version span i).symm
  · simp only [ofStatement, Statement.renamed, LabelTable.resolve?_renamed injective]
    cases labels.resolve? name with
    | some target => exact (ofInstruction_renamed rename version span _).symm
    | none =>
      have placeholder := congrArg diagnostics
        (ofInstruction_renamed rename version span (.branch op 0))
      simp only [renamed] at placeholder
      simp [renamed, placeholder, Diagnostic.renamed, Diagnostic.of]

end Encoded

theorem encode_renamed (injective : Function.Injective rename) (labels : LabelTable)
    (statements : List Statement) :
    encode version (labels.renamed rename) (statements.map (Statement.renamed rename)) =
      (encode version labels statements).renamed rename := by
  simp only [encode, Encoded.renamed, List.flatMap_map, List.map_flatMap,
    Encoded.ofStatement_renamed injective]

namespace SinglePass

def renamed (rename : String → String) (pass : SinglePass) : SinglePass :=
  ⟨pass.labels.renamed rename, pass.encoded.renamed rename⟩

theorem continueFrom_renamed (injective : Function.Injective rename) (labels : LabelTable)
    (offset : Nat) (statements : List Statement) :
    SinglePass.continueFrom version (labels.renamed rename) offset
        (statements.map (Statement.renamed rename)) =
      (SinglePass.continueFrom version labels offset statements).renamed rename := by
  induction statements generalizing labels offset with
  | nil => rfl
  | cons statement rest ih =>
    have declared := LabelPass.ofStatement_renamed injective labels offset statement
    have here := Encoded.ofStatement_renamed injective version labels statement
    have later := ih (LabelPass.ofStatement labels offset statement).labels
      (offset + (Encoded.ofStatement version labels statement).bytes.length)
    simp only [LabelPass.renamed, Encoded.renamed, renamed] at declared here later ⊢
    simp only [List.map_cons, SinglePass.continueFrom, declared, here, later, List.map_append]

end SinglePass

/-- Names that stay apart can be any names: neither pipeline sees the difference. -/
theorem labels_renamed (injective : Function.Injective rename) (version : Version)
    (statements : List Statement) :
    let others := statements.map (Statement.renamed rename)
    let collected := collectLabels version statements
    let encoded := encode version collected.labels statements
    let single := encodeSinglePass version statements
    let collected' := collectLabels version others
    let encoded' := encode version collected'.labels others
    let single' := encodeSinglePass version others
    (encoded'.bytes = encoded.bytes ∧ single'.encoded.bytes = single.encoded.bytes) ∧
      (collected'.labels.entries =
          collected.labels.entries.map (fun entry => (rename entry.1, entry.2)) ∧
        single'.labels.entries =
          single.labels.entries.map fun entry => (rename entry.1, entry.2)) ∧
      (collected'.diagnostics = collected.diagnostics.map (Diagnostic.renamed rename) ∧
        encoded'.diagnostics = encoded.diagnostics.map (Diagnostic.renamed rename) ∧
        single'.encoded.diagnostics =
          single.encoded.diagnostics.map (Diagnostic.renamed rename)) ∧
      collected'.diagnostics.map Diagnostic.outline =
        collected.diagnostics.map Diagnostic.outline ∧
      encoded'.diagnostics.map Diagnostic.outline = encoded.diagnostics.map Diagnostic.outline ∧
      single'.encoded.diagnostics.map Diagnostic.outline =
        single.encoded.diagnostics.map Diagnostic.outline := by
  intro others collected encoded single collected' encoded' single'
  have labels : collected' = collected.renamed rename :=
    LabelPass.continueFrom_renamed injective .empty 0 statements
  have bytes : encoded' = encoded.renamed rename := by
    have table : collected'.labels = collected.labels.renamed rename :=
      congrArg LabelPass.labels labels
    simp only [encoded', table]
    exact encode_renamed injective collected.labels statements
  have both : single' = single.renamed rename :=
    SinglePass.continueFrom_renamed injective .empty 0 statements
  rw [labels, bytes, both]
  refine ⟨⟨rfl, rfl⟩, ⟨rfl, rfl⟩, ⟨rfl, rfl, rfl⟩, ?_, ?_, ?_⟩
  · exact map_outline_renamed rename collected.diagnostics
  · exact map_outline_renamed rename encoded.diagnostics
  · exact map_outline_renamed rename single.encoded.diagnostics

theorem labels_renamed_twice :
    let rename := fun name => "_" ++ name
    let statements : List Statement :=
      [⟨⟨0, 5⟩, .branch .jmp "b" ⟨4, 5⟩⟩, ⟨⟨6, 7⟩, .label "a"⟩, ⟨⟨9, 10⟩, .label "a"⟩,
        ⟨⟨12, 17⟩, .branch .jmp "c" ⟨16, 17⟩⟩, ⟨⟨18, 19⟩, .label "b"⟩]
    let others := statements.map (Statement.renamed rename)
    Function.Injective rename ∧
      (collectLabels .two others).labels.entries =
        [("_a", ⟨5, ⟨6, 7⟩⟩), ("_b", ⟨10, ⟨18, 19⟩⟩)] ∧
      (encodeSinglePass .two others).encoded.diagnostics.map Diagnostic.outline =
        [(.unresolvedLabel, ⟨4, 5⟩, []), (.duplicateLabel, ⟨9, 10⟩, [⟨6, 7⟩]),
          (.unresolvedLabel, ⟨16, 17⟩, [])] := by
  intro rename statements others
  have injective : Function.Injective rename := by
    intro a b same
    have chars := congrArg String.toList same
    simp only [rename, String.toList_append, List.append_cancel_left_eq] at chars
    exact String.toList_injective chars
  obtain ⟨-, ⟨labels, -⟩, -, -, -, outlines⟩ := labels_renamed injective .two statements
  refine ⟨injective, labels.trans ?_, outlines.trans ?_⟩
  · decide +kernel
  · decide +kernel

end StackMachine
