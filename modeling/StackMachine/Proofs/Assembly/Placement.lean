import Mathlib.Data.List.Forall2
import StackMachine.Proofs.Assembly.Emission
import StackMachine.Proofs.Assembly.OperandShape
import StackMachine.Proofs.Bytecode.Layout

set_option autoImplicit false

namespace StackMachine

variable {version : Version}

namespace Statement

def isCode (statement : Statement) : Bool :=
  match statement.kind with
  | .label _ => false
  | .instruction _ | .branch _ _ _ => true

/-- How an instruction of some code comes from its statement. A branch goes to the first
instruction below the declaration of its label, or to the end of the code. -/
inductive StandsFor (version : Version) (statements : List Statement) (code : List Instruction) :
    Statement → Instruction → Prop
  | instruction {span : Span} {i : Instruction} (direct : i.target? = none) :
    StandsFor version statements code ⟨span, .instruction i⟩ i
  | branch {span nameSpan declared : Span} {op : BranchOp} {name : String} {target : UInt32}
    {above below : List Statement} (place : statements = above ++ ⟨declared, .label name⟩ :: below)
    (reaches : target.toNat = Layout.offset version code (above.countP isCode)) :
    StandsFor version statements code ⟨span, .branch op name nameSpan⟩ (.branch op target)

def instruction? (labels : LabelTable) (statement : Statement) : Option Instruction :=
  match statement.kind with
  | .label _ => none
  | .instruction i => some i
  | .branch op name _ => (labels.resolve? name).map (.branch op)

end Statement

/-- Code that fills a program: each instruction comes from one of the statements, in their order,
and is decoded where it stands. -/
structure LaidOut (program : Program) (statements : List Statement) (code : List Instruction) :
    Prop where
  stands : List.Forall₂ (Statement.StandsFor program.version statements code)
    (statements.filter Statement.isCode) code
  decoded : ∀ (index : Nat) (inside : index < code.length),
    program.decodeAt (Layout.offset program.version code index) =
      .ok (code[index], Layout.offset program.version code (index + 1))
  ends : Layout.offset program.version code code.length = program.length

namespace Encoded

theorem ofStatement_clean {labels : LabelTable} {statement : Statement}
    (clean : (ofStatement version labels statement).diagnostics = []) :
    (statement.isCode = false ∧ statement.instruction? labels = none ∧
      (ofStatement version labels statement).bytes = [] ∧ statement.size version = 0) ∨
    ∃ i, statement.isCode = true ∧ statement.instruction? labels = some i ∧
      (ofStatement version labels statement).bytes = i.bytes version ∧
      statement.size version = i.size version ∧ i.isSupported version = true := by
  have supported {span : Span} {i : Instruction}
      (clean : (ofInstruction version span i).diagnostics = []) :
      i.isSupported version = true ∧ (ofInstruction version span i).bytes = i.bytes version := by
    unfold ofInstruction at clean ⊢
    split at clean
    next kept => simp [kept]
    next => cases clean
  rcases statement with ⟨span, name | i | ⟨op, name, nameSpan⟩⟩
  · exact .inl ⟨rfl, rfl, rfl, rfl⟩
  · have kept := supported clean
    exact .inr ⟨i, rfl, rfl, kept.2, rfl, kept.1⟩
  · cases found : labels.resolve? name with
    | none => simp [ofStatement, found] at clean
    | some target =>
      simp only [ofStatement, found] at clean
      have kept := supported clean
      refine .inr ⟨.branch op target, rfl, ?_, ?_, ?_, kept.1⟩
      · simp [Statement.instruction?, found]
      · simp only [ofStatement, found, kept.2]
      · cases version <;> rfl

end Encoded

namespace Statement

def code (labels : LabelTable) (statements : List Statement) : List Instruction :=
  statements.filterMap (instruction? labels)

@[simp] theorem code_cons (labels : LabelTable) (statement : Statement) (rest : List Statement) :
    code labels (statement :: rest) =
      (instruction? labels statement).toList ++ code labels rest := by
  cases found : instruction? labels statement <;> simp [code, found]

def Clean (version : Version) (labels : LabelTable) (statements : List Statement) : Prop :=
  ∀ statement ∈ statements, (Encoded.ofStatement version labels statement).diagnostics = []

theorem Clean.tail {labels : LabelTable} {statement : Statement} {rest : List Statement}
    (clean : Clean version labels (statement :: rest)) : Clean version labels rest :=
  fun other member => clean other (List.mem_cons_of_mem statement member)

theorem clean_of_encode {labels : LabelTable} {statements : List Statement}
    (clean : (encode version labels statements).diagnostics = []) :
    Clean version labels statements := by
  simp only [encode, List.flatMap_map, List.flatMap_eq_nil_iff] at clean
  exact clean

theorem bytes_encode {labels : LabelTable} {statements : List Statement}
    (clean : Clean version labels statements) :
    (encode version labels statements).bytes = Layout.bytes version (code labels statements) := by
  induction statements with
  | nil => rfl
  | cons statement rest ih =>
    have later := ih clean.tail
    simp only [encode, Layout.bytes, List.flatMap_map] at later
    obtain ⟨-, none, bytes, -⟩ | ⟨i, -, some, bytes, -⟩ :=
      Encoded.ofStatement_clean (clean statement List.mem_cons_self)
    · simp [encode, Layout.bytes, List.flatMap_map, none, bytes, later]
    · simp [encode, Layout.bytes, List.flatMap_map, some, bytes, later]

theorem offset_code {labels : LabelTable} {statements above below : List Statement}
    (clean : Clean version labels statements) (place : statements = above ++ below) :
    Layout.offset version (code labels statements) (above.countP isCode) =
      extent version above := by
  subst place
  induction above with
  | nil => rfl
  | cons statement rest ih =>
    have later := ih clean.tail
    obtain ⟨label, none, -, size⟩ | ⟨i, isCode, some, -, size, -⟩ :=
      Encoded.ofStatement_clean (clean statement List.mem_cons_self)
    · simp [label, none, size, later]
    · simp [isCode, some, size, later]

theorem forall₂_code {labels : LabelTable} {statements : List Statement}
    {related : Statement → Instruction → Prop} (clean : Clean version labels statements)
    (each : ∀ statement ∈ statements, ∀ i, instruction? labels statement = some i →
      related statement i) :
    List.Forall₂ related (statements.filter isCode) (code labels statements) := by
  induction statements with
  | nil => exact .nil
  | cons statement rest ih =>
    have here := each statement List.mem_cons_self
    have later := ih clean.tail fun other member =>
      each other (List.mem_cons_of_mem statement member)
    obtain ⟨label, none, -⟩ | ⟨i, isCode, some, -⟩ :=
      Encoded.ofStatement_clean (clean statement List.mem_cons_self)
    · simpa [label, none] using later
    · simpa [isCode, some] using ⟨here i some, later⟩

theorem wellFormed_code {labels : LabelTable} {statements : List Statement}
    (clean : Clean version labels statements)
    (shaped : ∀ statement ∈ statements, HasShape statement.kind) :
    ∀ i ∈ code labels statements, i.WellFormed version := by
  intro i member
  obtain ⟨statement, inside, resolved⟩ := List.mem_filterMap.mp member
  obtain ⟨-, none, -⟩ | ⟨j, -, some, -, -, supported⟩ :=
    Encoded.ofStatement_clean (clean statement inside)
  · rw [none] at resolved
    cases resolved
  · rw [some] at resolved
    cases resolved
    refine ⟨supported, fun _ => ?_⟩
    have shape := shaped statement inside
    rcases statement with ⟨span, _ | k | ⟨op, name, nameSpan⟩⟩
    · cases some
    · cases some
      exact shape.2
    · simp only [instruction?, Option.map_eq_some_iff] at some
      obtain ⟨target, -, rfl⟩ := some
      trivial

theorem place_of_mem_collectLabels {statements : List Statement} {name : String} {label : Label}
    (clean : Clean version (collectLabels version statements).labels statements)
    (member : (name, label) ∈ (collectLabels version statements).labels.entries) :
    ∃ above below, statements = above ++ ⟨label.span, .label name⟩ :: below ∧
      label.offset.toNat = Layout.offset version
        (code (collectLabels version statements).labels statements) (above.countP isCode) := by
  obtain old | ⟨above, below, place, reached⟩ := LabelPass.mem_continueFrom member
  · cases old
  · refine ⟨above, below, place, ?_⟩
    rw [reached, Nat.zero_add, offset_code clean place]

theorem standsFor_code {statements : List Statement} {statement : Statement} {i : Instruction}
    (clean : Clean version (collectLabels version statements).labels statements)
    (shape : HasShape statement.kind)
    (resolved : instruction? (collectLabels version statements).labels statement = some i) :
    StandsFor version statements (code (collectLabels version statements).labels statements)
      statement i := by
  rcases statement with ⟨span, _ | k | ⟨op, name, nameSpan⟩⟩
  · cases resolved
  · cases resolved
    exact .instruction shape.1
  · simp only [instruction?, LabelTable.resolve?, LabelTable.get?, Option.map_eq_some_iff]
      at resolved
    obtain ⟨target, ⟨label, found, rfl⟩, rfl⟩ := resolved
    obtain ⟨before, after, entries, -⟩ := List.lookup_eq_some_iff.mp found
    have member : (name, label) ∈ (collectLabels version statements).labels.entries := by
      simp [entries]
    obtain ⟨above, below, place, reached⟩ := place_of_mem_collectLabels clean member
    exact .branch place reached

end Statement

theorem laidOut_of_clean {statements : List Statement}
    (clean : Statement.Clean version (collectLabels version statements).labels statements)
    (shaped : ∀ statement ∈ statements, Statement.HasShape statement.kind) :
    let labels := (collectLabels version statements).labels
    LaidOut ⟨version, (encode version labels statements).bytes.toArray⟩ statements
      (Statement.code labels statements) := by
  intro labels
  have wellFormed := Statement.wellFormed_code clean shaped
  rw [Statement.bytes_encode clean]
  refine ⟨?_, fun index inside => ?_, ?_⟩
  · exact Statement.forall₂_code clean fun statement member i resolved =>
      Statement.standsFor_code clean (shaped statement member) resolved
  · simpa using Program.decodeAt_offset wellFormed [] inside
  · simp [Program.length, Layout.length_bytes wellFormed, labels]

/-- What two walks assemble is found again by a walk over the bytes, with labels where they were
declared. -/
theorem assemble_twoPass_walk {source : String} {assembly : Assembly}
    (assembled : assemble version .twoPass source = .ok assembly) :
    let statements := (parse source).statements
    assembly.program.version = version ∧
      (assembly.labels.entries.map Prod.fst = Statement.labels statements ∧
        (Statement.labels statements).Nodup) ∧
      ∃ code : List Instruction,
        List.Forall₂ (Statement.StandsFor version statements code)
          (statements.filter Statement.isCode) code ∧
        assembly.program.walk =
          code.mapIdx (fun index i => .ok (Layout.offset version code index, i)) ∧
        Layout.offset version code code.length = assembly.program.length ∧
        ∀ name label, (name, label) ∈ assembly.labels.entries →
          ∃ above below, statements = above ++ ⟨label.span, .label name⟩ :: below ∧
            label.offset.toNat = Layout.offset version code (above.countP Statement.isCode) := by
  intro statements
  obtain ⟨-, clean, rfl⟩ := assemble_eq_ok_iff.mp assembled
  have parts := List.append_eq_nil_iff.mp clean
  have names : (collectLabels version statements).labels.entries.map Prod.fst =
      Statement.labels statements := LabelPass.names_continueFrom parts.1
  have distinct : (Statement.labels statements).Nodup := by
    rw [← names]
    exact LabelPass.nodup_continueFrom 0 statements .nil
  have encoded := Statement.clean_of_encode parts.2
  have laid := laidOut_of_clean encoded fun _ member => hasShape_parse member
  refine ⟨rfl, ⟨names, distinct⟩, _, laid.stands, ?_, laid.ends, ?_⟩
  · have walked := Program.walk_of_decodeAt laid.decoded
    rw [laid.ends, Program.walkFrom_length, List.append_nil] at walked
    exact walked
  · intro name label member
    exact Statement.place_of_mem_collectLabels encoded member

theorem assemble_twoPass_walk_forward :
    let source := "jmp end\nf: hlt\nend:\n"
    let program : Program := ⟨.two, #[11, 6, 0, 0, 0, 0]⟩
    let labels : LabelTable := ⟨[("f", ⟨5, ⟨8, 9⟩⟩), ("end", ⟨6, ⟨15, 18⟩⟩)]⟩
    assemble .two .twoPass source = .ok ⟨program, labels⟩ ∧
      ∃ code, program.walk = code.mapIdx (fun index i => .ok (Layout.offset .two code index, i)) ∧
        Layout.offset .two code code.length = 6 := by
  intro source program labels
  have assembled : assemble .two .twoPass source = .ok ⟨program, labels⟩ := by
    refine assemble_eq_ok_iff.mpr ⟨?_, ?_, ?_⟩
    all_goals decide +kernel
  obtain ⟨-, -, code, -, walked, ends, -⟩ := assemble_twoPass_walk assembled
  exact ⟨assembled, code, walked, ends⟩

end StackMachine
