import StackMachine.Proofs.Assembly.Placement
import StackMachine.Proofs.Assembly.SinglePass
import StackMachine.Proofs.Bytecode.Formats

set_option autoImplicit false

namespace StackMachine

namespace Statement

def isLegacy (statement : Statement) : Bool :=
  match statement.kind with
  | .label _ => true
  | .instruction i => i.isSupported .one
  | .branch _ _ _ => false

variable {statement : Statement} {statements : List Statement} {labels : LabelTable}

theorem isLegacy_of_clean
    (clean : (Encoded.ofStatement .one labels statement).diagnostics = []) :
    statement.isLegacy = true := by
  obtain ⟨label, -⟩ | ⟨i, -, found, -, -, supported⟩ := Encoded.ofStatement_clean clean
  · rcases statement with ⟨span, _ | _ | _⟩
    · rfl
    · cases label
    · cases label
  · rcases statement with ⟨span, _ | _ | ⟨op, name, nameSpan⟩⟩
    · rfl
    · cases found
      exact supported
    · obtain ⟨target, -, rfl⟩ := Option.map_eq_some_iff.mp found
      rw [Instruction.isSupported_branch] at supported
      cases supported

theorem size_of_isLegacy (legacy : statement.isLegacy = true) :
    statement.size .one = statement.size .two := by
  rcases statement with ⟨span, _ | i | _⟩
  · rfl
  · exact Instruction.size_of_isSupported_one legacy
  · cases legacy

theorem clean_of_isLegacy (legacy : statement.isLegacy = true) :
    (Encoded.ofStatement .two labels statement).diagnostics = [] := by
  rcases statement with ⟨span, _ | i | _⟩
  · rfl
  · simp [Encoded.ofStatement, Encoded.ofInstruction, Instruction.isSupported_two]
  · cases legacy

theorem refersAhead_of_isLegacy {version : Version} {above below : List Statement}
    (legacy : statement.isLegacy = true) : refersAhead version above statement below = false := by
  rcases statement with ⟨span, _ | _ | _⟩
  · rfl
  · rfl
  · cases legacy

end Statement

theorem LabelPass.continueFrom_congr {left right : Version} {statements : List Statement}
    (sizes : ∀ statement ∈ statements, statement.size left = statement.size right)
    (labels : LabelTable) (offset : Nat) :
    LabelPass.continueFrom left labels offset statements =
      LabelPass.continueFrom right labels offset statements := by
  induction statements generalizing labels offset with
  | nil => rfl
  | cons statement rest ih =>
    have here := sizes statement List.mem_cons_self
    have later := ih fun other member => sizes other (List.mem_cons_of_mem statement member)
    simp only [LabelPass.continueFrom, here, later]

theorem Emitted.of_clean {version : Version} {statements : List Statement}
    (declared : (collectLabels version statements).diagnostics = [])
    (clean : Statement.Clean version (collectLabels version statements).labels statements) :
    let labels := (collectLabels version statements).labels
    Emitted.ofStatements version .twoPass statements =
      ⟨labels, Layout.bytes version (Statement.code labels statements), []⟩ := by
  have encoded : (encode version (collectLabels version statements).labels
      statements).diagnostics = [] := by
    simp only [encode, List.flatMap_map, List.flatMap_eq_nil_iff]
    exact clean
  simp only [Emitted.ofStatements, declared, encoded, Statement.bytes_encode clean, List.append_nil]

theorem collectLabels_of_isLegacy {statements : List Statement}
    (legacy : ∀ statement ∈ statements, statement.isLegacy = true) :
    collectLabels .one statements = collectLabels .two statements :=
  LabelPass.continueFrom_congr
    (fun statement member => Statement.size_of_isLegacy (legacy statement member)) .empty 0

theorem aheadFaults_of_isLegacy {statements : List Statement}
    (legacy : ∀ statement ∈ statements, statement.isLegacy = true) (version : Version) :
    Statement.aheadFaults version [] statements = [] := by
  refine (Statement.aheadFaults_eq_nil_iff [] statements).mpr fun first statement last split => ?_
  have member : statement ∈ statements := by simp [split]
  exact Statement.refersAhead_of_isLegacy (legacy statement member)

theorem assemble_two_of_one {pipeline : Pipeline} {source : String} {legacy : Assembly}
    (assembled : assemble .one pipeline source = .ok legacy) :
    ∃ code, (∀ i ∈ code, Instruction.WellFormed .one i) ∧
      legacy.program = Layout.program .one code ∧
      assemble .two pipeline source = .ok ⟨Layout.program .two code, legacy.labels⟩ := by
  obtain ⟨read, clean, rfl⟩ := assemble_eq_ok_iff.mp (assemble_twoPass_of_ok assembled)
  obtain ⟨declared, encoded⟩ := List.append_eq_nil_iff.mp clean
  have first := Statement.clean_of_encode encoded
  have simple : ∀ statement ∈ (parse source).statements, statement.isLegacy = true :=
    fun statement member => Statement.isLegacy_of_clean (first statement member)
  have second : Statement.Clean .two (collectLabels .two (parse source).statements).labels
      (parse source).statements :=
    fun statement member => Statement.clean_of_isLegacy (simple statement member)
  have tables := collectLabels_of_isLegacy simple
  have one := Emitted.of_clean declared first
  have two := Emitted.of_clean (tables ▸ declared) second
  rw [← tables] at two
  refine ⟨_, Statement.wellFormed_code first fun _ member => hasShape_parse member, ?_, ?_⟩
  · rw [one]
    rfl
  · rw [one]
    have done := assemble_eq_ok_iff.mpr ⟨read, congrArg Emitted.diagnostics two,
      congrArg (Emitted.assembly · .two) two⟩
    cases pipeline with
    | twoPass => exact done
    | singlePass => exact assemble_singlePass_iff.mpr ⟨done, aheadFaults_of_isLegacy simple .two⟩

end StackMachine
