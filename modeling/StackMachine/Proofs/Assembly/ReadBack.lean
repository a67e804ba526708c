import StackMachine.Proofs.Assembly.Concatenation
import StackMachine.Proofs.Assembly.Listings
import StackMachine.Proofs.Assembly.OperandText
import StackMachine.Proofs.Bytecode.Formats

set_option autoImplicit false

namespace StackMachine

theorem parse_texts {code : List Instruction} (read : ∀ i ∈ code, i.IsRead) :
    (parse (joinLines (code.map Instruction.text))).diagnostics = [] ∧
      (parse (joinLines (code.map Instruction.text))).statements.map Statement.kind =
        (code.map Instruction.unsigned).map .instruction := by
  induction code with
  | nil => exact ⟨by decide +kernel, by decide +kernel⟩
  | cons i code ih =>
    obtain ⟨here, later⟩ := List.forall_mem_cons.mp read
    obtain ⟨span, parsed⟩ := Instruction.exists_parse_text here
    obtain ⟨clean, kinds⟩ := ih later
    have below (distance : Nat) (parsed : Parsed) :
        ((parsed.shift distance).statements.map Statement.kind) =
          (parsed.statements.map Statement.kind).map (StatementKind.shift distance) := by
      simp only [Parsed.shift, List.map_map]
      rfl
    have lines : joinLines ((i :: code).map Instruction.text) =
        i.text ++ "\n" ++ joinLines (code.map Instruction.text) := by
      simp [joinLines, String.append_assoc]
    rw [lines, parse_below, parsed]
    constructor
    · exact congrArg (List.map (Diagnostic.shift _)) clean
    · have moved := below (i.text.utf8ByteSize + 1) (parse (joinLines (code.map Instruction.text)))
      rw [kinds, List.map_map] at moved
      exact congrArg (List.cons _) moved

section

variable {version : Version} {code : List Instruction}

theorem continueFrom_instructions {statements : List Statement}
    (kinds : statements.map Statement.kind = code.map .instruction) (labels : LabelTable)
    (offset : Nat) :
    LabelPass.continueFrom version labels offset statements = ⟨labels, []⟩ := by
  induction statements generalizing code offset with
  | nil => rfl
  | cons statement rest ih =>
    obtain _ | ⟨i, code⟩ := code
    · cases kinds
    · obtain ⟨span, kind⟩ := statement
      obtain ⟨rfl, later⟩ := List.cons_eq_cons.mp kinds
      simp only [LabelPass.continueFrom, LabelPass.ofStatement, ih later, List.append_nil]

theorem encode_instructions {statements : List Statement}
    (kinds : statements.map Statement.kind = code.map .instruction)
    (supported : ∀ i ∈ code, i.isSupported version = true) (labels : LabelTable) :
    encode version labels statements = ⟨Layout.bytes version code, []⟩ := by
  induction statements generalizing code with
  | nil =>
    obtain rfl : code = [] := by simpa using kinds.symm
    rfl
  | cons statement rest ih =>
    obtain _ | ⟨i, code⟩ := code
    · cases kinds
    · obtain ⟨span, kind⟩ := statement
      obtain ⟨rfl, later⟩ := List.cons_eq_cons.mp kinds
      obtain ⟨here, others⟩ := List.forall_mem_cons.mp supported
      have below := ih later others
      simp only [encode, Encoded.mk.injEq] at below
      simp [encode, below, Encoded.ofStatement, Encoded.ofInstruction, here, Layout.bytes]

theorem assemble_instructions {source : String} (clean : (parse source).diagnostics = [])
    (kinds : (parse source).statements.map Statement.kind = code.map .instruction)
    (supported : ∀ i ∈ code, i.isSupported version = true) (pipeline : Pipeline) :
    assemble version pipeline source =
      .ok ⟨⟨version, (Layout.bytes version code).toArray⟩, .empty⟩ := by
  have declared : collectLabels version (parse source).statements = ⟨.empty, []⟩ :=
    continueFrom_instructions kinds .empty 0
  have twoPass : assemble version .twoPass source =
      .ok ⟨⟨version, (Layout.bytes version code).toArray⟩, .empty⟩ := by
    refine assemble_eq_ok_iff.mpr ⟨clean, ?_⟩
    simp [Emitted.ofStatements, declared, encode_instructions kinds supported, Emitted.assembly]
  cases pipeline with
  | twoPass => exact twoPass
  | singlePass =>
    refine assemble_singlePass_iff.mpr ⟨twoPass, ?_⟩
    refine (Statement.aheadFaults_eq_nil_iff [] _).mpr fun first statement last split => ?_
    have member := List.mem_map_of_mem (f := Statement.kind)
      (show statement ∈ (parse source).statements by simp [split])
    rw [kinds] at member
    obtain ⟨i, -, kind⟩ := List.mem_map.mp member
    rw [Statement.refersAhead, ← kind]

end

theorem Register.length_name_le {r : Register} (known : r.InTable) : r.name.length ≤ 3 := by
  have each : ∀ entry ∈ table, entry.1.length ≤ 3 := by decide +kernel
  exact each _ (mem_table_of_inTable r known)

namespace Operand

theorem length_sumText_le {operand : Operand} (read : operand.IsRead) :
    (sumText operand.register operand.literal).length ≤ 1900 := by
  obtain ⟨r, value, inMemory⟩ := operand
  obtain ⟨known, finite, -⟩ := read
  cases r with
  | none =>
    cases value with
    | none => exact Nat.zero_le _
    | some value => exact (Binary64.length_valueText_le (finite value rfl)).trans (by decide)
  | some r =>
    have name := Register.length_name_le (known r rfl)
    cases value with
    | none => exact name.trans (by decide)
    | some value =>
      have number := Binary64.length_valueText_le (finite value rfl)
      have plus : " + ".length = 3 := rfl
      simp only [sumText, String.length_append]
      omega

theorem length_text_le {operand : Operand} (read : operand.IsRead) :
    operand.text.length ≤ 2000 := by
  have sum := length_sumText_le read
  unfold text
  split
  next => decide
  next =>
    split
    next =>
      have brackets : "[".length = 1 ∧ "]".length = 1 := ⟨rfl, rfl⟩
      simp only [String.length_append]
      omega
    next => exact sum.trans (by decide)

end Operand

namespace Instruction

theorem isSupported_unsigned (i : Instruction) (version : Version) :
    i.unsigned.isSupported version = i.isSupported version := by
  rcases i with _ | ⟨r, _ | value, inMemory⟩ | _ | _ <;> cases version <;> rfl

theorem isRead_of_isInstruction {tokens : List Token} {i : Instruction}
    (readable : Statement.IsInstruction tokens (.instruction i))
    (operand : i.opcode.hasOperand = true) : i.IsRead := by
  cases readable with
  | plain => cases operand
  | push _ written =>
    rcases written with written | written
    · exact .push written.isRead.1 written.isRead.2.1
    · exact .push written.isRead.1 written.isRead.2.1
  | pop _ written =>
    cases written with
    | cell written =>
      obtain ⟨read, some, inMemory⟩ := written.isRead
      exact .pop read (.inr (.inr ⟨inMemory, some⟩))
    | register written =>
      have read := (Operand.IsSum.register written).isRead.1
      exact .pop read (.inr (.inl ⟨_, rfl⟩))
    | void => exact .pop ⟨nofun, nofun, nofun⟩ (.inl rfl)

theorem isRead_of_parse? {source : String} {parsed : Parsed} {span : Span} {i : Instruction}
    (found : parse? source = some parsed)
    (member : ⟨span, .instruction i⟩ ∈ parsed.statements)
    (operand : i.opcode.hasOperand = true) : i.IsRead := by
  obtain ⟨line, among⟩ := exists_parseLine_of_parse? found member
  obtain ⟨name, label⟩ | ⟨head, operands, read⟩ := Statement.exists_operation among
  · cases label
  · exact isRead_of_isInstruction (Statement.parseOperation_eq_ok_iff.mp read) operand

theorem utf8ByteSize_text_lt {i : Instruction} (read : i.IsRead) :
    i.text.utf8ByteSize < UInt32.size := by
  have shown (op : Opcode) {operand : Operand} (read : operand.IsRead) :
      (op.mnemonic ++ " " ++ operand.text).utf8ByteSize < UInt32.size := by
    have short : op.mnemonic.length ≤ 10 := by
      have each : ∀ op ∈ Opcode.all, op.mnemonic.length ≤ 10 := by decide +kernel
      exact each op (Opcode.mem_all op)
    have blank : " ".length = 1 := rfl
    have operand_short := Operand.length_text_le read
    refine (utf8ByteSize_le _).trans_lt ?_
    simp only [String.length_append, UInt32.size]
    omega
  cases read with
  | push read | pop read => exact shown _ read

theorem exists_parse?_text {i : Instruction} (read : i.IsRead) :
    ∃ span, parse? i.text = some ⟨[⟨span, .instruction i.unsigned⟩], []⟩ := by
  obtain ⟨span, parsed⟩ := exists_parse_text read
  exact ⟨span, by rw [parse?_of_lt (utf8ByteSize_text_lt read), parsed]⟩

end Instruction

theorem exists_code {version : Version} {pipeline : Pipeline} {source : String} {parsed : Parsed}
    {assembly : Assembly} (found : parse? source = some parsed)
    (assembled : parsed.assembled version pipeline = .ok assembly) :
    ∃ code, LaidOut assembly.program parsed.statements code ∧
      (∀ i ∈ code, i.WellFormed version) ∧ assembly.program = Layout.program version code := by
  have twoPass := Parsed.assembled_twoPass_of_ok assembled
  obtain ⟨-, clean, rfl⟩ := Parsed.assembled_eq_ok_iff.mp twoPass
  have encoded := Statement.clean_of_encode (List.append_eq_nil_iff.mp clean).2
  have shaped : ∀ statement ∈ parsed.statements, Statement.HasShape statement.kind :=
    fun _ member => hasShape_of_parse? found member
  refine ⟨_, laidOut_of_clean encoded shaped, Statement.wellFormed_code encoded shaped, ?_⟩
  rw [Layout.program, ← Statement.bytes_encode encoded]
  rfl

theorem LaidOut.mem_statements {program : Program} {statements : List Statement}
    {code : List Instruction} (laid : LaidOut program statements code) {i : Instruction}
    (member : i ∈ code) (direct : i.target? = none) :
    ∃ span, ⟨span, .instruction i⟩ ∈ statements := by
  obtain ⟨statement, among, stands⟩ : ∃ statement ∈ statements,
      Statement.StandsFor program.version statements code statement i := by
    obtain ⟨index, inside, rfl⟩ := List.getElem_of_mem member
    have bound := laid.stands.length_eq ▸ inside
    exact ⟨_, List.mem_of_mem_filter (List.getElem_mem bound), laid.stands.get bound inside⟩
  cases stands with
  | instruction => exact ⟨_, among⟩
  | branch => cases direct

theorem Layout.take_drop_bytes {version : Version} {code : List Instruction}
    (wellFormed : ∀ i ∈ code, i.WellFormed version) {index : Nat} (inside : index < code.length) :
    ((bytes version code).drop (offset version code index)).take (code[index].size version) =
      code[index].bytes version := by
  have above : (bytes version (code.take index)).length = offset version code index := by
    rw [length_bytes fun i member => wellFormed i (List.mem_of_mem_take member), offset,
      List.take_length, offset]
  have here := Instruction.length_bytes (wellFormed _ (List.getElem_mem inside)).supported
  have parts : bytes version code = bytes version (code.take index) ++
      (code[index].bytes version ++ bytes version (code.drop (index + 1))) := by
    have split : code = code.take index ++ code[index] :: code.drop (index + 1) := by
      rw [← List.drop_eq_getElem_cons inside, List.take_append_drop]
    have whole := congrArg (bytes version) split
    simp only [bytes, List.flatMap_append, List.flatMap_cons] at whole ⊢
    exact whole
  rw [parts, ← above, List.drop_left, ← here, List.take_left]

theorem encoded_of_assembled {version : Version} {pipeline : Pipeline} {source : String}
    {parsed : Parsed} {assembly : Assembly} (found : parse? source = some parsed)
    (assembled : parsed.assembled version pipeline = .ok assembly)
    {offset : Nat} {i : Instruction} (member : (offset, i) ∈ assembly.program.instructions) :
    (assembly.program.body.toList.drop offset).take (i.size version) = i.bytes version ∧
      i.isSupported version = true ∧ (i.opcode.hasOperand = true → i.IsRead) := by
  obtain ⟨code, laid, wellFormed, program⟩ := exists_code found assembled
  rw [laid.instructions_eq, List.mem_mapIdx] at member
  obtain ⟨index, inside, same⟩ := member
  cases same
  have among := List.getElem_mem inside
  refine ⟨?_, (wellFormed _ among).supported, fun operand => ?_⟩
  · rw [program]
    exact Layout.take_drop_bytes wellFormed inside
  · have direct : code[index].target? = none := by
      generalize code[index] = i at operand
      cases i with
      | branch => cases operand
      | plain | push | pop => rfl
    obtain ⟨span, written⟩ := laid.mem_statements among direct
    exact Instruction.isRead_of_parse? found written operand

/-- What listings show of instructions with an operand is a source: each text is read back as its
instruction, and all together are assembled to the bytes that the instructions have, up to the signs
of zeros, unless they take `2 ^ 32` bytes of text. -/
theorem listed_operands_read_back (source : String) (parsed : Parsed)
    (found : parse? source = some parsed) :
    (∀ span i, ⟨span, .instruction i⟩ ∈ parsed.statements → i.opcode.hasOperand = true →
      (∃ shown, parse? i.text = some ⟨[⟨shown, .instruction i.unsigned⟩], []⟩) ∧
        ∀ width offset, Listing.instructionLine (.ofFlag false) width offset i =
          padLeft ' ' width (toString offset) ++ "  " ++ i.text) ∧
    ∀ version pipeline assembly, assemble? version pipeline source = some (.ok assembly) →
      let listed := assembly.program.instructions.filter fun item => item.2.opcode.hasOperand
      let column := joinLines (listed.map fun item => item.2.text)
      (∀ item ∈ listed, (assembly.program.body.toList.drop item.1).take (item.2.size version) =
        item.2.bytes version) ∧
      (column.utf8ByteSize < UInt32.size → ∀ again, assemble? version again column =
        some (.ok ⟨⟨version, (listed.flatMap fun item => item.2.unsigned.bytes version).toArray⟩,
          .empty⟩)) := by
  refine ⟨fun span i member operand => ⟨?_, fun width offset => ?_⟩, ?_⟩
  · exact Instruction.exists_parse?_text (Instruction.isRead_of_parse? found member operand)
  · exact Listing.instructionLine_plain width offset i
  · intro version pipeline assembly assembled listed column
    rw [assemble?, found, Option.map_some, Option.some.injEq] at assembled
    have encoded : ∀ item ∈ listed, _ := fun item member =>
      encoded_of_assembled found assembled (List.mem_of_mem_filter member)
    refine ⟨fun item member => (encoded item member).1, fun small again => ?_⟩
    let code := listed.map Prod.snd
    have shown : column = joinLines (code.map Instruction.text) := by
      simp only [column, code, List.map_map]
      rfl
    have bytes : (listed.flatMap fun item => item.2.unsigned.bytes version) =
        Layout.bytes version (code.map Instruction.unsigned) := by
      simp [code, Layout.bytes, List.flatMap_map]
    have read : ∀ i ∈ code, i.IsRead := List.forall_mem_map.mpr fun item member =>
      (encoded item member).2.2 (List.mem_filter.mp member).2
    have supported : ∀ i ∈ code.map Instruction.unsigned, i.isSupported version = true := by
      refine List.forall_mem_map.mpr (List.forall_mem_map.mpr fun item member => ?_)
      rw [Instruction.isSupported_unsigned]
      exact (encoded item member).2.1
    obtain ⟨clean, kinds⟩ := parse_texts read
    rw [assemble?_of_lt small, shown, bytes, assemble_instructions clean kinds supported again]

theorem listed_operands_read_back_zero :
    let source := "f: push [-0 + rbx] ; here\njmp f\nPUSH 1e-3\npop void"
    let cell : Instruction := .push ⟨some ⟨.address, 1⟩, some ⟨0x8000000000000000⟩, true⟩
    let again : Instruction := .push ⟨some ⟨.address, 1⟩, some ⟨0⟩, true⟩
    let fraction : List UInt8 := [33, 252, 169, 241, 210, 77, 98, 80, 63]
    let body := [225, 2, 0, 0, 0, 0, 0, 0, 0, 128] ++ [11, 0, 0, 0, 0] ++ fraction ++ [8]
    let assembly : Assembly := ⟨⟨.two, body.toArray⟩, ⟨[("f", ⟨0, ⟨0, 1⟩⟩)]⟩⟩
    let column := "push [rbx + 0]\npush 0.001\npop void\n"
    let positive := [225, 2, 0, 0, 0, 0, 0, 0, 0, 0] ++ fraction ++ [8]
    ⟨⟨3, 18⟩, .instruction cell⟩ ∈ (parse source).statements ∧ cell.opcode.hasOperand = true ∧
      cell.text = "push [rbx + 0]" ∧
      (∃ shown, parse? "push [rbx + 0]" = some ⟨[⟨shown, .instruction again⟩], []⟩) ∧
      assemble? .two .singlePass source = some (.ok assembly) ∧
      assemble? .two .twoPass column = some (.ok ⟨⟨.two, positive.toArray⟩, .empty⟩) := by
  intro source cell again fraction body assembly column positive
  have small : source.utf8ByteSize < UInt32.size := by decide +kernel
  have found := parse?_of_lt small
  have member : ⟨⟨3, 18⟩, .instruction cell⟩ ∈ (parse source).statements := by decide +kernel
  have text : cell.text = "push [rbx + 0]" := by decide +kernel
  have back : cell.unsigned = again := by decide +kernel
  have assembled : assemble? .two .singlePass source = some (.ok assembly) := by
    rw [assemble?_of_lt small]
    refine congrArg some (Parsed.assembled_eq_ok_iff.mpr ⟨?_, ?_, ?_⟩)
    all_goals decide +kernel
  obtain ⟨each, whole⟩ := listed_operands_read_back source (parse source) found
  obtain ⟨read, -⟩ := each _ cell member rfl
  obtain ⟨-, joined⟩ := whole .two .singlePass assembly assembled
  have shown : joinLines ((assembly.program.instructions.filter
      fun item => item.2.opcode.hasOperand).map fun item => item.2.text) = column := by
    decide +kernel
  have bytes : ((assembly.program.instructions.filter
      fun item => item.2.opcode.hasOperand).flatMap fun item => item.2.unsigned.bytes .two) =
        positive := by
    decide +kernel
  rw [text, back] at read
  rw [shown, bytes] at joined
  exact ⟨member, rfl, text, read, assembled, joined (by decide +kernel) .twoPass⟩

end StackMachine
