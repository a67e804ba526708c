import StackMachine.Proofs.Assembly.Emission

set_option autoImplicit false

namespace StackMachine

variable {version : Version}

theorem labels_ofStatement (above : List Statement) (statement : Statement) :
    (LabelPass.ofStatement (collectLabels version above).labels (Statement.extent version above)
      statement).labels = (collectLabels version (above ++ [statement])).labels := by
  simp [collectLabels, LabelPass.continueFrom_append, LabelPass.continueFrom]

namespace Statement

/-- Whether a statement is a branch to a name that is declared within reach, but only below. -/
def refersAhead (version : Version) (above : List Statement) (statement : Statement)
    (below : List Statement) : Bool :=
  match statement.kind with
  | .branch _ name _ => !(labels above).contains name &&
    ((declaredAt? version name (extent version (above ++ [statement])) below).bind
      targetOf?).isSome
  | _ => false

def unresolved (statement : Statement) : List Diagnostic :=
  match statement.kind with
  | .branch _ name nameSpan => [.of .unresolvedLabel nameSpan name]
  | _ => []

def aheadFaults (version : Version) (above : List Statement) : List Statement → List Diagnostic
  | [] => []
  | statement :: below =>
    (if refersAhead version above statement below then statement.unresolved else []) ++
      aheadFaults version (above ++ [statement]) below

theorem resolve?_branch (version : Version) (above below : List Statement) (span nameSpan : Span)
    (op : BranchOp) (name : String) :
    let statement : Statement := ⟨span, .branch op name nameSpan⟩
    let seen := (collectLabels version above).labels.resolve? name
    let final := (collectLabels version (above ++ statement :: below)).labels.resolve? name
    if refersAhead version above statement below then seen = none ∧ final.isSome
    else seen = final := by
  intro statement seen final
  -- What the statements below add, if those above do not declare the name.
  let behind := declaredAt? version name (extent version (above ++ [statement])) below
  have final_eq : final = ((declaredAt? version name 0 above).or behind).bind targetOf? := by
    simp [final, behind, statement, resolve?_collectLabels, declaredAt?_append, declaredAt?]
  have seen_eq : seen = (declaredAt? version name 0 above).bind targetOf? :=
    resolve?_collectLabels above name
  have unseen := declaredAt?_eq_none_iff version name 0 above
  have ahead : refersAhead version above statement below =
      (!(labels above).contains name && (behind.bind targetOf?).isSome) := rfl
  rw [final_eq, seen_eq, ahead]
  cases found : declaredAt? version name 0 above with
  | some offset =>
    have known : name ∈ labels above := by simpa [found] using unseen
    simp [known]
  | none =>
    have unknown : name ∉ labels above := unseen.mp found
    cases reached : behind.bind targetOf? <;> simp [unknown, reached]

end Statement

namespace Encoded

theorem ofStatement_above (version : Version) (above below : List Statement)
    (statement : Statement) :
    let seen := ofStatement version (collectLabels version above).labels statement
    let final := ofStatement version (collectLabels version (above ++ statement :: below)).labels
      statement
    let ahead := Statement.refersAhead version above statement below
    seen.diagnostics = (if ahead then statement.unresolved else []) ++ final.diagnostics ∧
      ∀ index,
        seen.bytes[index]? = final.bytes[index]? ∨ (ahead = true ∧ 0 < index ∧ index < 5) := by
  intro seen final ahead
  rcases statement with ⟨span, _ | i | ⟨op, name, nameSpan⟩⟩
  · exact ⟨rfl, fun index => .inl rfl⟩
  · exact ⟨rfl, fun index => .inl rfl⟩
  · have resolved := Statement.resolve?_branch version above below span nameSpan op name
    simp only at resolved
    split at resolved
    next refers =>
      obtain ⟨target, reached⟩ := Option.isSome_iff_exists.mp resolved.2
      -- The target is 0 here and another one there, which is seen behind the first byte alone.
      have same := ofInstruction_branch version span op 0 target
      have five (target : UInt32) :
          (ofInstruction version span (.branch op target)).bytes.length = 5 := by
        rw [length_ofInstruction]
        cases version <;> rfl
      simp only [ofStatement, seen, final, ahead, resolved.1, reached, refers, if_true]
      refine ⟨by simp [Statement.unresolved, same.1], fun index => ?_⟩
      by_cases inside : index < 5
      · by_cases first : index = 0
        · subst first
          exact .inl same.2
        · exact .inr ⟨trivial, by omega, inside⟩
      · have past (target : UInt32) :
            (ofInstruction version span (.branch op target)).bytes[index]? = none :=
          List.getElem?_eq_none (by rw [five]; omega)
        exact .inl (by rw [past, past])
    next refers => simp [ofStatement, seen, final, ahead, resolved, refers]

end Encoded

namespace SinglePass

def below (version : Version) (above rest : List Statement) : SinglePass :=
  .continueFrom version (collectLabels version above).labels (Statement.extent version above) rest

theorem below_cons (above : List Statement) (statement : Statement) (rest : List Statement) :
    below version above (statement :: rest) =
      let table := (collectLabels version above).labels
      let here := Encoded.ofStatement version table statement
      let after := below version (above ++ [statement]) rest
      ⟨after.labels, here.bytes ++ after.encoded.bytes,
        (LabelPass.ofStatement table (Statement.extent version above) statement).diagnostics ++
          here.diagnostics ++ after.encoded.diagnostics⟩ := by
  simp [below, SinglePass.continueFrom, Encoded.length_ofStatement, labels_ofStatement]

theorem labels_below (above rest : List Statement) :
    (below version above rest).labels = (collectLabels version (above ++ rest)).labels := by
  induction rest generalizing above with
  | nil => simp [below, SinglePass.continueFrom]
  | cons statement rest ih => simp [below_cons, ih]

theorem length_below (above rest : List Statement) :
    (below version above rest).encoded.bytes.length = Statement.extent version rest := by
  induction rest generalizing above with
  | nil => rfl
  | cons statement rest ih => simp [below_cons, ih, Encoded.length_ofStatement]

theorem bytes_below (above rest : List Statement) (index : Nat) :
    (below version above rest).encoded.bytes[index]? =
        (encode version (collectLabels version (above ++ rest)).labels rest).bytes[index]? ∨
      ∃ first statement last, rest = first ++ statement :: last ∧
        Statement.refersAhead version (above ++ first) statement last = true ∧
        Statement.extent version first < index ∧ index < Statement.extent version first + 5 := by
  induction rest generalizing above index with
  | nil => exact .inl rfl
  | cons statement rest ih =>
    have split (labels : LabelTable) : (encode version labels (statement :: rest)).bytes =
        (Encoded.ofStatement version labels statement).bytes ++
          (encode version labels rest).bytes := by
      simp [encode]
    rw [below_cons, split]
    -- Either the byte is one of the first statement, or it belongs to those below.
    by_cases inside : index < statement.size version
    · rw [List.getElem?_append_left (by rwa [Encoded.length_ofStatement]),
        List.getElem?_append_left (by rwa [Encoded.length_ofStatement])]
      have here := (Encoded.ofStatement_above version above rest statement).2 index
      refine here.imp id ?_
      rintro ⟨ahead, first, last⟩
      refine ⟨[], statement, rest, rfl, by simpa using ahead, ?_, ?_⟩
      · simpa using first
      · simpa using last
    · rw [List.getElem?_append_right (by rw [Encoded.length_ofStatement]; omega),
        List.getElem?_append_right (by rw [Encoded.length_ofStatement]; omega),
        Encoded.length_ofStatement, Encoded.length_ofStatement]
      have after := ih (above ++ [statement]) (index - statement.size version)
      simp only [List.append_assoc, List.singleton_append] at after
      refine after.imp id ?_
      rintro ⟨first, branch, last, rfl, ahead, lower, upper⟩
      refine ⟨statement :: first, branch, last, rfl, ahead, ?_, ?_⟩
      · rw [Statement.extent_cons]
        omega
      · rw [Statement.extent_cons]
        omega

theorem diagnostics_below (above rest : List Statement) :
    let final := (collectLabels version (above ++ rest)).labels
    (below version above rest).encoded.diagnostics.Perm
      ((LabelPass.continueFrom version (collectLabels version above).labels
        (Statement.extent version above) rest).diagnostics ++
        (encode version final rest).diagnostics ++ Statement.aheadFaults version above rest) := by
  induction rest generalizing above with
  | nil => exact .refl _
  | cons statement rest ih =>
    have here := (Encoded.ofStatement_above version above rest statement).1
    have after := List.perm_iff_count.mp (ih (above ++ [statement]))
    simp only [List.append_assoc, List.singleton_append, Statement.extent_append,
      Statement.extent_cons, Statement.extent_nil, Nat.add_zero, encode] at after
    -- The two walks find the same in another order, so that each complaint is counted.
    rw [List.perm_iff_count]
    intro d
    have counted := after d
    simp only [List.count_append] at counted
    simp only [below_cons, here, Statement.aheadFaults, LabelPass.continueFrom, labels_ofStatement,
      encode, List.map_cons, List.flatMap_cons, List.count_append]
    omega

end SinglePass

theorem Statement.aheadFaults_eq_nil_iff (above rest : List Statement) :
    aheadFaults version above rest = [] ↔
      ∀ first statement last, rest = first ++ statement :: last →
        refersAhead version (above ++ first) statement last = false := by
  induction rest generalizing above with
  | nil => simp [aheadFaults]
  | cons statement rest ih =>
    have here :
        (if refersAhead version above statement rest then statement.unresolved else []) = [] ↔
          refersAhead version above statement rest = false := by
      rcases statement with ⟨span, _ | _ | _⟩ <;> simp [refersAhead, unresolved]
    rw [aheadFaults, List.append_eq_nil_iff, here, ih]
    constructor
    · rintro ⟨now, later⟩ first branch last split
      cases first with
      | nil =>
        cases split
        simpa using now
      | cons head first =>
        cases split
        simpa using later first branch last rfl
    · intro none
      refine ⟨by simpa using none [] statement rest rfl, fun first branch last split => ?_⟩
      simpa using none (statement :: first) branch last (by rw [split]; rfl)

theorem labels_encodeSinglePass (statements : List Statement) :
    (encodeSinglePass version statements).labels = (collectLabels version statements).labels :=
  SinglePass.labels_below [] statements

theorem diagnostics_encodeSinglePass (statements : List Statement) :
    (encodeSinglePass version statements).encoded.diagnostics.Perm
      ((collectLabels version statements).diagnostics ++
        (encode version (collectLabels version statements).labels statements).diagnostics ++
        Statement.aheadFaults version [] statements) :=
  SinglePass.diagnostics_below [] statements

theorem bytes_encodeSinglePass {statements : List Statement}
    (none : Statement.aheadFaults version [] statements = []) :
    (encodeSinglePass version statements).encoded.bytes =
      (encode version (collectLabels version statements).labels statements).bytes := by
  apply List.ext_getElem?
  intro index
  obtain same | ⟨first, statement, last, split, ahead, -⟩ :=
    SinglePass.bytes_below [] statements index
  · exact same
  · have behind := (Statement.aheadFaults_eq_nil_iff [] statements).mp none
    have direct := behind first statement last split
    rw [ahead] at direct
    cases direct

theorem diagnostics_singlePass_eq_nil_iff (statements : List Statement) :
    (Emitted.ofStatements version .singlePass statements).diagnostics = [] ↔
      (Emitted.ofStatements version .twoPass statements).diagnostics = [] ∧
        Statement.aheadFaults version [] statements = [] := by
  have complaints : (encodeSinglePass version statements).encoded.diagnostics.Perm _ :=
    diagnostics_encodeSinglePass statements
  simp only [Emitted.ofStatements]
  rw [← List.append_eq_nil_iff]
  constructor
  · intro clean
    rw [clean] at complaints
    exact complaints.nil_eq.symm
  · intro clean
    rw [clean] at complaints
    exact complaints.eq_nil

theorem Parsed.assembled_singlePass_iff {parsed : Parsed} {assembly : Assembly} :
    parsed.assembled version .singlePass = .ok assembly ↔
      parsed.assembled version .twoPass = .ok assembly ∧
        Statement.aheadFaults version [] parsed.statements = [] := by
  have same (none : Statement.aheadFaults version [] parsed.statements = []) :
      (Emitted.ofStatements version .singlePass parsed.statements).assembly version =
        (Emitted.ofStatements version .twoPass parsed.statements).assembly version := by
    simp only [Emitted.ofStatements, Emitted.assembly, bytes_encodeSinglePass none,
      labels_encodeSinglePass]
  rw [assembled_eq_ok_iff, assembled_eq_ok_iff, diagnostics_singlePass_eq_nil_iff]
  constructor
  · rintro ⟨read, ⟨clean, none⟩, done⟩
    exact ⟨⟨read, clean, same none ▸ done⟩, none⟩
  · rintro ⟨⟨read, clean, done⟩, none⟩
    exact ⟨read, ⟨clean, none⟩, same none ▸ done⟩

theorem Parsed.assembled_twoPass_of_ok {parsed : Parsed} {pipeline : Pipeline}
    {assembly : Assembly} (assembled : parsed.assembled version pipeline = .ok assembly) :
    parsed.assembled version .twoPass = .ok assembly := by
  cases pipeline with
  | twoPass => exact assembled
  | singlePass => exact (assembled_singlePass_iff.mp assembled).1

theorem assemble_singlePass_iff {source : String} {assembly : Assembly} :
    assemble version .singlePass source = .ok assembly ↔
      assemble version .twoPass source = .ok assembly ∧
        Statement.aheadFaults version [] (parse source).statements = [] :=
  Parsed.assembled_singlePass_iff

theorem assemble_twoPass_of_ok {pipeline : Pipeline} {source : String} {assembly : Assembly}
    (assembled : assemble version pipeline source = .ok assembly) :
    assemble version .twoPass source = .ok assembly :=
  Parsed.assembled_twoPass_of_ok assembled

/-- The two pipelines agree up to branches that refer ahead. -/
theorem singlePass_twoPass (version : Version) :
    (∀ statements : List Statement,
      let collected := collectLabels version statements
      let encoded := encode version collected.labels statements
      let single := encodeSinglePass version statements
      single.labels = collected.labels ∧
        single.encoded.bytes.length = encoded.bytes.length ∧
        (∀ index, single.encoded.bytes[index]? = encoded.bytes[index]? ∨
          ∃ above statement below, statements = above ++ statement :: below ∧
            Statement.refersAhead version above statement below = true ∧
            Statement.extent version above < index ∧
            index < Statement.extent version above + 5) ∧
        single.encoded.diagnostics.Perm
          (collected.diagnostics ++ encoded.diagnostics ++
            Statement.aheadFaults version [] statements)) ∧
    ∀ source assembly,
      assemble version .singlePass source = .ok assembly ↔
        assemble version .twoPass source = .ok assembly ∧
          ∀ above statement below, (parse source).statements = above ++ statement :: below →
            Statement.refersAhead version above statement below = false := by
  refine ⟨fun statements => ⟨?_, ?_, ?_, ?_⟩, fun source assembly => ?_⟩
  · exact SinglePass.labels_below [] statements
  · rw [length_encode]
    exact SinglePass.length_below [] statements
  · exact SinglePass.bytes_below [] statements
  · exact SinglePass.diagnostics_below [] statements
  · rw [assemble_singlePass_iff, Statement.aheadFaults_eq_nil_iff]
    rfl

end StackMachine
