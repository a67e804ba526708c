import Mathlib.Data.Finset.Card
import Mathlib.Data.List.Induction
import StackMachine.Proofs.Assembly.LabelPass

set_option autoImplicit false

namespace StackMachine

abbrev Declaration := String × Label

namespace LabelTable

variable {table : LabelTable} {history : List Declaration}

def after (table : LabelTable) (declaration : Declaration) : LabelTable :=
  match table.declare declaration.1 declaration.2 with
  | .ok declared => declared
  | .error _ => table

def names (table : LabelTable) : List String := table.entries.map Prod.fst

theorem after_of_taken {name : String} {first : Label} (taken : table.get? name = some first)
    (label : Label) : table.after (name, label) = table := by
  simp [after, declare, taken]

theorem after_of_fresh {name : String} (fresh : table.get? name = none) (label : Label) :
    table.after (name, label) = ⟨table.entries ++ [(name, label)]⟩ := by
  simp [after, declare, fresh]

structure Records (history : List Declaration) (table : LabelTable) : Prop where
  first : ∀ name, table.get? name = history.lookup name
  mem : ∀ name, name ∈ table.names ↔ name ∈ history.map Prod.fst
  ordered : table.names.Pairwise fun a b =>
    (history.map Prod.fst).idxOf a < (history.map Prod.fst).idxOf b

theorem lookup_eq_none_iff {name : String} :
    history.lookup name = none ↔ name ∉ history.map Prod.fst := by
  induction history with
  | nil => simp
  | cons declaration history ih =>
    rw [List.lookup_cons, List.map_cons, List.mem_cons, not_or, ← ih]
    by_cases same : name = declaration.1
    · simp [same]
    · have differs := beq_eq_false_iff_ne.mpr same
      rw [differs]
      exact (and_iff_right same).symm

theorem Records.after_of_taken {name : String} {first : Label} (records : Records history table)
    (taken : table.get? name = some first) (label : Label) :
    Records (history ++ [(name, label)]) table := by
  -- The declaration is not the first one of its name, so that no first place changes.
  have known : name ∈ history.map Prod.fst := by
    by_contra fresh
    rw [records.first, lookup_eq_none_iff.mpr fresh] at taken
    cases taken
  constructor
  · intro other
    rw [List.lookup_append, ← records.first]
    by_cases same : other = name
    · rw [same, taken]
      rfl
    · have differs := beq_eq_false_iff_ne.mpr same
      simp [List.lookup_cons, differs]
  · intro other
    rw [records.mem, List.map_append, List.mem_append]
    constructor
    · exact .inl
    · rintro (before | here)
      · exact before
      · exact List.mem_singleton.mp here ▸ known
  · refine records.ordered.imp_of_mem fun {a b} left right before => ?_
    rw [List.map_append, List.idxOf_append_of_mem ((records.mem a).mp left),
      List.idxOf_append_of_mem ((records.mem b).mp right)]
    exact before

theorem Records.after_of_fresh {name : String} (records : Records history table)
    (fresh : table.get? name = none) (label : Label) :
    Records (history ++ [(name, label)]) ⟨table.entries ++ [(name, label)]⟩ := by
  have unknown : name ∉ history.map Prod.fst := by
    rw [← lookup_eq_none_iff, ← records.first, fresh]
  have extended : names ⟨table.entries ++ [(name, label)]⟩ = table.names ++ [name] := by
    simp [names]
  constructor
  · intro other
    rw [get?_append, List.lookup_append, records.first]
    by_cases same : name = other
    · simp [same]
    · have differs := beq_eq_false_iff_ne.mpr (Ne.symm same)
      simp [List.lookup_cons, same, differs]
  · intro other
    simp [extended, records.mem]
  · rw [extended, List.pairwise_append]
    refine ⟨?_, List.pairwise_singleton _ _, ?_⟩
    · refine records.ordered.imp_of_mem fun {a b} left right before => ?_
      rw [List.map_append, List.idxOf_append_of_mem ((records.mem a).mp left),
        List.idxOf_append_of_mem ((records.mem b).mp right)]
      exact before
    · -- A new name stands behind all that were declared before it.
      intro a left b right
      rw [List.mem_singleton.mp right, List.map_append,
        List.idxOf_append_of_mem ((records.mem a).mp left), List.idxOf_append_of_notMem unknown]
      exact Nat.lt_add_right _ (List.idxOf_lt_length_of_mem ((records.mem a).mp left))

theorem Records.after (records : Records history table) (declaration : Declaration) :
    Records (history ++ [declaration]) (table.after declaration) := by
  obtain ⟨name, label⟩ := declaration
  cases found : table.get? name with
  | none =>
    rw [LabelTable.after_of_fresh found]
    exact records.after_of_fresh found label
  | some first =>
    rw [LabelTable.after_of_taken found]
    exact records.after_of_taken found label

theorem records_foldl (history : List Declaration) :
    Records history (history.foldl LabelTable.after .empty) := by
  -- From the end: the last declaration meets the table of all before it.
  induction history using List.reverseRecOn with
  | nil => exact ⟨fun _ => rfl, fun _ => Iff.rfl, .nil⟩
  | append_singleton earlier declaration ih =>
    rw [List.foldl_append, List.foldl_cons, List.foldl_nil]
    exact ih.after declaration

theorem Records.nodup (records : Records history table) : table.names.Nodup :=
  records.ordered.imp fun before same => absurd (same ▸ before) (Nat.lt_irrefl _)

theorem Records.mem_entries_iff (records : Records history table) (name : String) (label : Label) :
    (name, label) ∈ table.entries ↔ history.lookup name = some label := by
  have found {label} (looked : history.lookup name = some label) : (name, label) ∈ table.entries := by
    rw [← records.first, get?, List.lookup_eq_some_iff] at looked
    obtain ⟨above, below, entries, -⟩ := looked
    exact entries ▸ List.mem_append_right above (.head _)
  refine ⟨fun member => ?_, found⟩
  have declared := (records.mem name).mp (List.mem_map_of_mem member)
  cases looked : history.lookup name with
  | none => exact absurd declared (lookup_eq_none_iff.mp looked)
  | some first =>
    -- Both entries bear the name, and no two of them do.
    have same := List.inj_on_of_nodup_map records.nodup member (found looked) rfl
    rw [(Prod.mk.inj same).2]

theorem Records.size_eq (records : Records history table) :
    table.size = (history.map Prod.fst).toFinset.card := by
  have same : table.names.toFinset = (history.map Prod.fst).toFinset :=
    Finset.ext fun name => by rw [List.mem_toFinset, List.mem_toFinset, records.mem]
  rw [← same, List.toFinset_card_of_nodup records.nodup, names, List.length_map, size]

theorem Records.declare_eq_error_iff (records : Records history table) (name : String)
    (label first : Label) :
    table.declare name label = .error first ↔ history.lookup name = some first := by
  rw [← records.first]
  cases found : table.get? name <;> simp [declare, found]

theorem Records.exists_declare_eq_ok_iff (records : Records history table) (name : String)
    (label : Label) :
    (∃ declared, table.declare name label = .ok declared) ↔ name ∉ history.map Prod.fst := by
  rw [← lookup_eq_none_iff, ← records.first]
  cases found : table.get? name <;> simp [declare, found]

/-- A declaration succeeds where the name is new. Else it changes nothing and comes back with the
first one, to which the report of the label pass points. Reading the table, its listing and its
size know of first declarations only. -/
structure FirstWins (history : List Declaration) (table : LabelTable) : Prop where
  accepts : ∀ name label,
    (∃ declared, table.declare name label = .ok declared) ↔ name ∉ history.map Prod.fst
  refuses : ∀ name label first,
    table.declare name label = .error first ↔ history.lookup name = some first
  keeps : ∀ name label first,
    table.declare name label = .error first → table.after (name, label) = table
  reports : ∀ name offset span first, offset < UInt32.size → history.lookup name = some first →
    LabelPass.declare table name offset span = ⟨table,
      [⟨.duplicateLabel, span, some name, [⟨"first defined here", first.span⟩]⟩]⟩
  get : ∀ name, table.get? name = history.lookup name
  resolve : ∀ name, table.resolve? name = (history.lookup name).map Label.offset
  lists : ∀ name label, (name, label) ∈ table.entries ↔ history.lookup name = some label
  once : table.names.Nodup
  ordered : table.names.Pairwise fun a b =>
    (history.map Prod.fst).idxOf a < (history.map Prod.fst).idxOf b
  counts : table.size = (history.map Prod.fst).toFinset.card

theorem first_declaration_wins (history : List Declaration) :
    FirstWins history (history.foldl after .empty) := by
  have records := records_foldl history
  generalize history.foldl LabelTable.after .empty = table at records
  refine {
    accepts := records.exists_declare_eq_ok_iff
    refuses := records.declare_eq_error_iff
    get := records.first
    lists := records.mem_entries_iff
    once := records.nodup
    ordered := records.ordered
    counts := records.size_eq
    keeps := ?keeps
    reports := ?reports
    resolve := ?resolve }
  case keeps =>
    intro name label first refused
    have taken := (records.declare_eq_error_iff name label first).mp refused
    exact after_of_taken (records.first name ▸ taken) label
  case reports =>
    intro name offset span first reached taken
    have refused := (records.declare_eq_error_iff name ⟨UInt32.ofNat offset, span⟩ first).mpr taken
    simp [LabelPass.declare, Nat.not_le.mpr reached, refused]
  case resolve =>
    intro name
    rw [resolve?, records.first]

end LabelTable

end StackMachine
