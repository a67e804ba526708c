import Mathlib.Algebra.Ring.Nat
import StackMachine.Assembly.Assembler

set_option autoImplicit false

namespace StackMachine

variable {version : Version}

namespace Statement

def extent (version : Version) (statements : List Statement) : Nat :=
  (statements.map (·.size version)).sum

def declaredAt? (version : Version) (name : String) (offset : Nat) : List Statement → Option Nat
  | [] => none
  | statement :: rest =>
    if statement.kind = .label name then some offset
    else declaredAt? version name (offset + statement.size version) rest

@[simp] theorem extent_nil : extent version [] = 0 := rfl

@[simp] theorem extent_cons (statement : Statement) (rest : List Statement) :
    extent version (statement :: rest) = statement.size version + extent version rest := by
  simp [extent]

@[simp] theorem extent_append (above below : List Statement) :
    extent version (above ++ below) = extent version above + extent version below := by
  simp [extent]

theorem declaredAt?_append (name : String) (offset : Nat) (above below : List Statement) :
    declaredAt? version name offset (above ++ below) =
      (declaredAt? version name offset above).or
        (declaredAt? version name (offset + extent version above) below) := by
  induction above generalizing offset with
  | nil => simp [declaredAt?]
  | cons statement above ih =>
    by_cases found : statement.kind = .label name
    · simp [declaredAt?, found]
    · simp [declaredAt?, found, ih, Nat.add_assoc]

theorem declaredAt?_eq_none_iff (version : Version) (name : String) (offset : Nat)
    (statements : List Statement) :
    declaredAt? version name offset statements = none ↔ name ∉ labels statements := by
  induction statements generalizing offset with
  | nil => simp [declaredAt?, labels]
  | cons statement rest ih =>
    simp only [labels] at ih
    rcases statement with ⟨span, other | _ | _⟩
    · by_cases same : other = name
      · simp [declaredAt?, labels, same]
      · simp [declaredAt?, labels, same, Ne.symm same, ih]
    all_goals simp [declaredAt?, labels, ih]

theorem le_of_declaredAt? {name : String} {offset found : Nat} {statements : List Statement}
    (declared : declaredAt? version name offset statements = some found) : offset ≤ found := by
  induction statements generalizing offset with
  | nil => simp [declaredAt?] at declared
  | cons statement rest ih =>
    simp only [declaredAt?] at declared
    split at declared
    · cases declared
      exact Nat.le_refl _
    · have later := ih declared
      omega

end Statement

def targetOf? (offset : Nat) : Option UInt32 :=
  if offset < UInt32.size then some (UInt32.ofNat offset) else none

namespace LabelTable

theorem get?_append (table : LabelTable) (other name : String) (label : Label) :
    get? ⟨table.entries ++ [(other, label)]⟩ name =
      (table.get? name).or (if other = name then some label else none) := by
  simp only [get?, List.lookup_append]
  by_cases same : name = other
  · cases table.entries.lookup name <;> simp [same]
  · have differs := beq_eq_false_iff_ne.mpr same
    cases table.entries.lookup name <;> simp [List.lookup_cons, Ne.symm same, differs]

theorem resolve?_append (table : LabelTable) (other name : String) (label : Label) :
    resolve? ⟨table.entries ++ [(other, label)]⟩ name =
      (table.resolve? name).or (if other = name then some label.offset else none) := by
  simp only [resolve?, get?_append]
  by_cases same : other = name <;> cases table.get? name <;> simp [same]

end LabelTable

namespace LabelPass

theorem ofStatement_cases (labels : LabelTable) (offset : Nat) (statement : Statement) :
    (∃ name, statement.kind = .label name ∧ offset < UInt32.size ∧ labels.get? name = none ∧
      ofStatement labels offset statement =
        ⟨⟨labels.entries ++ [(name, ⟨UInt32.ofNat offset, statement.span⟩)]⟩, []⟩) ∨
    (∃ name first, statement.kind = .label name ∧ labels.get? name = some first ∧
      ofStatement labels offset statement = ⟨labels,
        [⟨.duplicateLabel, statement.span, some name, [⟨"first defined here", first.span⟩]⟩]⟩) ∨
    (∃ name, statement.kind = .label name ∧ UInt32.size ≤ offset ∧
      ofStatement labels offset statement =
        ⟨labels, [.of .labelOutOfRange statement.span name]⟩) ∨
    ((∀ name, statement.kind ≠ .label name) ∧
      ofStatement labels offset statement = ⟨labels, []⟩) := by
  rcases statement with ⟨span, name | _ | _⟩
  · by_cases reached : offset < UInt32.size
    · cases found : labels.get? name with
      | none =>
        refine .inl ⟨name, rfl, reached, found, ?_⟩
        simp [ofStatement, declare, Nat.not_le.mpr reached, LabelTable.declare, found]
      | some first =>
        refine .inr (.inl ⟨name, first, rfl, found, ?_⟩)
        simp [ofStatement, declare, Nat.not_le.mpr reached, LabelTable.declare, found]
    · have past := Nat.not_lt.mp reached
      exact .inr (.inr (.inl ⟨name, rfl, past, by simp [ofStatement, declare, past]⟩))
  · exact .inr (.inr (.inr ⟨nofun, rfl⟩))
  · exact .inr (.inr (.inr ⟨nofun, rfl⟩))

theorem resolve?_ofStatement (labels : LabelTable) (offset : Nat) (statement : Statement)
    (name : String) :
    (ofStatement labels offset statement).labels.resolve? name =
      (labels.resolve? name).or
        (if statement.kind = .label name then targetOf? offset else none) := by
  obtain ⟨other, label, reached, fresh, done⟩ | ⟨other, first, label, taken, done⟩ |
    ⟨other, label, past, done⟩ | ⟨other, done⟩ := ofStatement_cases labels offset statement
  · simp [done, label, LabelTable.resolve?_append, targetOf?, reached]
  · by_cases same : other = name
    · subst same
      simp [done, LabelTable.resolve?, taken]
    · simp [done, label, same]
  · simp [done, targetOf?, Nat.not_lt.mpr past]
  · simp [done, other]

theorem resolve?_continueFrom (labels : LabelTable) (offset : Nat) (statements : List Statement)
    (name : String) :
    (LabelPass.continueFrom version labels offset statements).labels.resolve? name =
      (labels.resolve? name).or
        ((Statement.declaredAt? version name offset statements).bind targetOf?) := by
  induction statements generalizing labels offset with
  | nil => simp [LabelPass.continueFrom, Statement.declaredAt?]
  | cons statement rest ih =>
    simp only [LabelPass.continueFrom, ih, resolve?_ofStatement, Option.or_assoc,
      Statement.declaredAt?]
    split
    next found =>
      cases later : Statement.declaredAt? version name (offset + statement.size version) rest with
      | none => simp
      | some second =>
        -- A second declaration stands no lower, so that it is out of reach if the first one is.
        have order := Statement.le_of_declaredAt? later
        simp [targetOf?]
        grind
    next => simp

theorem continueFrom_append (labels : LabelTable) (offset : Nat) (above below : List Statement) :
    LabelPass.continueFrom version labels offset (above ++ below) =
      let first := LabelPass.continueFrom version labels offset above
      let second := LabelPass.continueFrom version first.labels
        (offset + Statement.extent version above) below
      ⟨second.labels, first.diagnostics ++ second.diagnostics⟩ := by
  induction above generalizing labels offset with
  | nil => rfl
  | cons statement above ih =>
    simp [LabelPass.continueFrom, ih, Nat.add_assoc]

theorem mem_continueFrom {labels : LabelTable} {offset : Nat} {statements : List Statement}
    {name : String} {label : Label}
    (member : (name, label) ∈
      (LabelPass.continueFrom version labels offset statements).labels.entries) :
    (name, label) ∈ labels.entries ∨
      ∃ above below, statements = above ++ ⟨label.span, .label name⟩ :: below ∧
        label.offset.toNat = offset + Statement.extent version above := by
  induction statements generalizing labels offset with
  | nil => exact .inl member
  | cons statement rest ih =>
    obtain earlier | ⟨above, below, rfl, place⟩ := ih member
    · obtain ⟨other, kind, reached, -, done⟩ | ⟨_, _, _, _, done⟩ | ⟨_, _, _, done⟩ | ⟨_, done⟩ :=
        ofStatement_cases labels offset statement
      · rw [done, List.mem_append, List.mem_singleton, Prod.mk.injEq] at earlier
        obtain old | ⟨rfl, rfl⟩ := earlier
        · exact .inl old
        · obtain ⟨span, _⟩ := statement
          cases kind
          exact .inr ⟨[], rest, rfl, UInt32.toNat_ofNat_of_lt' reached⟩
      all_goals exact .inl (by rwa [done] at earlier)
    · exact .inr ⟨statement :: above, below, rfl, by simp [place, Nat.add_assoc]⟩

theorem names_continueFrom {labels : LabelTable} {offset : Nat} {statements : List Statement}
    (clean : (LabelPass.continueFrom version labels offset statements).diagnostics = []) :
    (LabelPass.continueFrom version labels offset statements).labels.entries.map Prod.fst =
      labels.entries.map Prod.fst ++ Statement.labels statements := by
  induction statements generalizing labels offset with
  | nil => simp [LabelPass.continueFrom, Statement.labels]
  | cons statement rest ih =>
    simp only [LabelPass.continueFrom, List.append_eq_nil_iff] at clean ⊢
    rw [ih clean.2]
    obtain ⟨name, label, -, -, done⟩ | ⟨_, _, _, _, done⟩ | ⟨_, _, _, done⟩ | ⟨other, done⟩ :=
      ofStatement_cases labels offset statement
    · simp [done, Statement.labels, label]
    · simp [done] at clean
    · simp [done] at clean
    · obtain ⟨span, _ | _ | _⟩ := statement
      · exact absurd rfl (other _)
      all_goals simp [done, Statement.labels]

theorem nodup_continueFrom {labels : LabelTable} (offset : Nat) (statements : List Statement)
    (distinct : (labels.entries.map Prod.fst).Nodup) :
    ((LabelPass.continueFrom version labels offset statements).labels.entries.map
      Prod.fst).Nodup := by
  induction statements generalizing labels offset with
  | nil => exact distinct
  | cons statement rest ih =>
    apply ih
    obtain ⟨name, -, -, fresh, done⟩ | ⟨_, _, _, _, done⟩ | ⟨_, _, _, done⟩ | ⟨_, done⟩ :=
      ofStatement_cases labels offset statement
    · -- Only a name that the table does not have is entered.
      have unused : name ∉ labels.entries.map Prod.fst := by
        intro member
        obtain ⟨entry, known, rfl⟩ := List.mem_map.mp member
        have differs := List.lookup_eq_none_iff.mp fresh entry known
        simp at differs
      rw [done, List.map_append, List.nodup_append]
      refine ⟨distinct, by simp, ?_⟩
      intro earlier member added last same
      simp only [List.map_cons, List.map_nil, List.mem_singleton] at last
      exact unused (last ▸ same ▸ member)
    all_goals rwa [done]

end LabelPass

theorem resolve?_collectLabels (statements : List Statement) (name : String) :
    (collectLabels version statements).labels.resolve? name =
      (Statement.declaredAt? version name 0 statements).bind targetOf? := by
  have unknown : LabelTable.empty.resolve? name = none := rfl
  rw [collectLabels, LabelPass.resolve?_continueFrom, unknown, Option.none_or]

end StackMachine
