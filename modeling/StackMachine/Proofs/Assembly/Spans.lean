import Mathlib.Data.List.Forall2
import StackMachine.Assembly.Statement
import StackMachine.Proofs.Assembly.Scanning

set_option autoImplicit false

namespace StackMachine

variable {related : Span → Span → Prop}

structure Span.Joins (related : Span → Span → Prop) : Prop where
  cover : ∀ {a b c d : Span}, related a b → related c d → related (a.cover c) (b.cover d)

structure Token.Alike (related : Span → Span → Prop) (a b : Token) : Prop where
  kind : a.kind = b.kind
  text : a.text = b.text
  span : related a.span b.span

structure Note.Alike (related : Span → Span → Prop) (a b : Note) : Prop where
  label : a.label = b.label
  span : related a.span b.span

structure Diagnostic.Alike (related : Span → Span → Prop) (a b : Diagnostic) : Prop where
  kind : a.kind = b.kind
  span : related a.span b.span
  detail : a.detail = b.detail
  notes : List.Forall₂ (Note.Alike related) a.notes b.notes

inductive StatementKind.Alike (related : Span → Span → Prop) : StatementKind → StatementKind → Prop
  | label (name : String) : Alike related (.label name) (.label name)
  | instruction (i : Instruction) : Alike related (.instruction i) (.instruction i)
  | branch (op : BranchOp) (name : String) {a b : Span} (span : related a b) :
    Alike related (.branch op name a) (.branch op name b)

structure Statement.Alike (related : Span → Span → Prop) (a b : Statement) : Prop where
  span : related a.span b.span
  kind : StatementKind.Alike related a.kind b.kind

structure Parsed.Alike (related : Span → Span → Prop) (a b : Parsed) : Prop where
  statements : List.Forall₂ (Statement.Alike related) a.statements b.statements
  diagnostics : List.Forall₂ (Diagnostic.Alike related) a.diagnostics b.diagnostics

inductive Agree {ε α : Type} (faults : ε → ε → Prop) (values : α → α → Prop) :
    Except ε α → Except ε α → Prop
  | ok {a b : α} (same : values a b) : Agree faults values (.ok a) (.ok b)
  | error {a b : ε} (same : faults a b) : Agree faults values (.error a) (.error b)

namespace Agree

variable {ε α β : Type} {faults : ε → ε → Prop} {values : α → α → Prop} {results : β → β → Prop}
  {first second : Except ε α}

theorem bind {f g : α → Except ε β} (agree : Agree faults values first second)
    (next : ∀ a b, values a b → Agree faults results (f a) (g b)) :
    Agree faults results (first.bind f) (second.bind g) := by
  cases agree with
  | ok same => exact next _ _ same
  | error same => exact .error same

theorem map {f g : α → β} (agree : Agree faults values first second)
    (next : ∀ a b, values a b → results (f a) (g b)) :
    Agree faults results (first.map f) (second.map g) := by
  cases agree with
  | ok same => exact .ok (next _ _ same)
  | error same => exact .error same

end Agree

theorem Diagnostic.alike_of (kind : DiagnosticKind) (detail : String) {a b : Span}
    (span : related a b) : Alike related (.of kind a detail) (.of kind b detail) :=
  ⟨rfl, span, rfl, .nil⟩

theorem Diagnostic.alike_malformed (cause : Malformation) {a b : Span} (span : related a b) :
    Alike related (.malformed a cause) (.malformed b cause) :=
  alike_of _ _ span

namespace Term

variable {a b : Token}

theorem alike_unexpected (same : a.Alike related b) :
    Diagnostic.Alike related (unexpected a) (unexpected b) := by
  simp only [unexpected, same.kind, same.text]
  exact Diagnostic.alike_malformed _ same.span

theorem alike_ofToken (same : a.Alike related b) :
    Agree (Diagnostic.Alike related) Eq (ofToken a) (ofToken b) := by
  have unexpected := alike_unexpected same
  simp only [ofToken, ofWord, same.kind, same.text]
  split
  next =>
    split
    next => exact .ok rfl
    next =>
      split
      next =>
        split
        next => exact .ok rfl
        next => exact .error (Diagnostic.alike_of _ _ same.span)
      next => exact .error (Diagnostic.alike_malformed _ same.span)
  next => exact .error unexpected

end Term

namespace Token

variable {a b : Token} {left right : List Token}

theorem alike_last (same : a.Alike related b) (others : List.Forall₂ (Alike related) left right) :
    (left.getLast?.getD a).Alike related (right.getLast?.getD b) := by
  induction others generalizing a b with
  | nil => exact same
  | cons head _ ih => simpa [List.getLast?_cons] using ih head

theorem related_cover (joins : Span.Joins related) (same : a.Alike related b)
    (others : List.Forall₂ (Alike related) left right) :
    related (a.cover left) (b.cover right) :=
  joins.cover same.span (alike_last same others).span

theorem related_coverAll (joins : Span.Joins related) {anchor other : Span}
    (anchors : related anchor other) (tokens : List.Forall₂ (Alike related) left right) :
    related (coverAll anchor left) (coverAll other right) := by
  cases tokens with
  | nil => exact anchors
  | cons head others => exact related_cover joins head others

theorem alike_find (name : String) (same : a.Alike related b)
    (tokens : List.Forall₂ (Alike related) left right) :
    ((left.find? fun token => token.text == name).getD a).Alike related
      ((right.find? fun token => token.text == name).getD b) := by
  induction tokens with
  | nil => exact same
  | @cons first second _ _ head _ ih =>
    by_cases found : first.text = name
    · simpa [found, ← head.text] using head
    · simpa [found, ← head.text] using ih

theorem alike_takeWhile (kind : TokenKind) (tokens : List.Forall₂ (Alike related) left right) :
    List.Forall₂ (Alike related) (left.takeWhile fun token => decide (token.kind ≠ kind))
      (right.takeWhile fun token => decide (token.kind ≠ kind)) := by
  induction tokens with
  | nil => exact .nil
  | @cons first second _ _ head _ ih =>
    by_cases stops : first.kind = kind
    · simp [stops, ← head.kind]
    · simpa [List.takeWhile_cons, stops, ← head.kind] using ⟨head, by simpa using ih⟩

theorem alike_dropWhile (kind : TokenKind) (tokens : List.Forall₂ (Alike related) left right) :
    List.Forall₂ (Alike related) (left.dropWhile fun token => decide (token.kind ≠ kind))
      (right.dropWhile fun token => decide (token.kind ≠ kind)) := by
  induction tokens with
  | nil => exact .nil
  | @cons first second _ _ head others ih =>
    by_cases stops : first.kind = kind
    · simpa [List.dropWhile_cons, stops, ← head.kind] using ⟨head, others⟩
    · simpa [List.dropWhile_cons, stops, ← head.kind] using ih

end Token

namespace Operand

variable {a b c d : Token} {left right : List Token} {anchor other : Span}

theorem alike_ofTerms {first second : Term} (spans : related anchor other) :
    Agree (Diagnostic.Alike related) Eq (ofTerms anchor first second)
      (ofTerms other first second) := by
  cases first <;> cases second
  · exact .error (Diagnostic.alike_malformed _ spans)
  · exact .ok rfl
  · exact .ok rfl
  · exact .error (Diagnostic.alike_malformed _ spans)

theorem alike_parseSum (joins : Span.Joins related) (anchors : related anchor other)
    (tokens : List.Forall₂ (Token.Alike related) left right) :
    Agree (Diagnostic.Alike related) Eq (parseSum anchor left) (parseSum other right) := by
  cases tokens with
  | nil => exact .error (Diagnostic.alike_malformed _ anchors)
  | @cons first first' rest rest' head tail =>
    have term := Term.alike_ofToken head
    simp only [parseSum]
    generalize Term.ofToken first = read, Term.ofToken first' = read' at term
    cases term with
    | error fault => exact .error fault
    | @ok value _ same =>
      subst same
      cases tail with
      | nil => exact .ok rfl
      | @cons plus plus' more more' between tail =>
        simp only [between.kind]
        split
        next => exact .error (Term.alike_unexpected between)
        next =>
          cases tail with
          | nil => exact .error (Diagnostic.alike_malformed _ between.span)
          | @cons second second' extra extra' next tail =>
            have term := Term.alike_ofToken next
            simp only
            generalize Term.ofToken second = read, Term.ofToken second' = read' at term
            cases term with
            | error fault => exact .error fault
            | ok same =>
              subst same
              cases tail with
              | nil => exact alike_ofTerms (joins.cover head.span next.span)
              | cons last _ =>
                simp only [last.kind]
                split
                next => exact .error (Diagnostic.alike_malformed _ last.span)
                next => exact .error (Term.alike_unexpected last)

theorem alike_indexed (joins : Span.Joins related) (opening : a.Alike related b)
    (closing : c.Alike related d) (inner : List.Forall₂ (Token.Alike related) left right)
    (sum : Operand) :
    Agree (Diagnostic.Alike related) Eq (indexed a c left sum) (indexed b d right sum) := by
  unfold indexed
  split
  next => exact .error (Diagnostic.alike_malformed _ (Token.alike_find _ opening inner).span)
  next =>
    split
    next => exact .error (Diagnostic.alike_malformed _ (joins.cover opening.span closing.span))
    next => exact .ok rfl

theorem alike_parseReference (joins : Span.Joins related) (opening : a.Alike related b)
    (rest : List.Forall₂ (Token.Alike related) left right) :
    Agree (Diagnostic.Alike related) Eq (parseReference a left) (parseReference b right) := by
  -- Both sides are cut at the first closing bracket, which stands at the same place in both.
  have inner := Token.alike_takeWhile .bracketClose rest
  have outer := Token.alike_dropWhile .bracketClose rest
  simp only [parseReference]
  generalize left.takeWhile _ = inside, right.takeWhile _ = inside' at inner ⊢
  generalize left.dropWhile _ = outside, right.dropWhile _ = outside' at outer ⊢
  cases outer with
  | nil => exact .error (Diagnostic.alike_malformed _ (Token.related_cover joins opening rest))
  | @cons closing closing' after after' closes behind =>
    cases behind with
    | cons extra _ => exact .error (Term.alike_unexpected extra)
    | nil =>
      cases inner with
      | nil => exact .error (Diagnostic.alike_malformed _ (joins.cover opening.span closes.span))
      | cons head tail =>
        have sums := alike_parseSum joins opening.span (.cons head tail)
        refine sums.bind fun sum same equal => ?_
        subst equal
        exact alike_indexed joins opening closes (.cons head tail) sum

theorem alike_parse (joins : Span.Joins related) (anchors : related anchor other)
    (tokens : List.Forall₂ (Token.Alike related) left right) :
    Agree (Diagnostic.Alike related) Eq (parse anchor left) (parse other right) := by
  cases tokens with
  | nil => exact .error (Diagnostic.alike_malformed _ anchors)
  | cons head tail =>
    simp only [parse, head.kind]
    split
    next => exact alike_parseReference joins head tail
    next => exact alike_parseSum joins anchors (.cons head tail)

end Operand

namespace Statement

variable {a b : Token} {left right : List Token} {anchor other : Span}

theorem alike_voidWord? (tokens : List.Forall₂ (Token.Alike related) left right) :
    Option.Rel (Token.Alike related) (voidWord? left) (voidWord? right) := by
  cases tokens with
  | nil => exact .none
  | @cons first second _ _ head tail =>
    cases tail with
    | cons _ _ => exact .none
    | nil =>
      by_cases void : first.text = "void"
      · simpa [voidWord?, void, ← head.text] using head
      · simp [voidWord?, void, ← head.text]

theorem alike_parsePush (joins : Span.Joins related) (anchors : related anchor other)
    (operands : List.Forall₂ (Token.Alike related) left right) :
    Agree (Diagnostic.Alike related) (StatementKind.Alike related) (parsePush anchor left)
      (parsePush other right) := by
  have void := alike_voidWord? operands
  have operand := Operand.alike_parse joins anchors operands
  unfold parsePush
  generalize voidWord? left = word, voidWord? right = word' at void ⊢
  cases void with
  | some word => exact .error (Diagnostic.alike_malformed _ word.span)
  | none =>
    refine operand.map fun value same equal => ?_
    subst equal
    exact .instruction _

theorem alike_parsePop (joins : Span.Joins related) (anchors : related anchor other)
    (operands : List.Forall₂ (Token.Alike related) left right) :
    Agree (Diagnostic.Alike related) (StatementKind.Alike related) (parsePop anchor left)
      (parsePop other right) := by
  have void := alike_voidWord? operands
  have operand := Operand.alike_parse joins anchors operands
  unfold parsePop
  generalize voidWord? left = word, voidWord? right = word' at void ⊢
  cases void with
  | some word => exact .ok (.instruction _)
  | none =>
    refine operand.bind fun value same equal => ?_
    subst equal
    split
    next => exact .ok (.instruction _)
    next =>
      exact .error (Diagnostic.alike_malformed _ (Token.related_coverAll joins anchors operands))

theorem alike_parseBranch (op : BranchOp) (anchors : related anchor other)
    (operands : List.Forall₂ (Token.Alike related) left right) :
    Agree (Diagnostic.Alike related) (StatementKind.Alike related) (parseBranch op anchor left)
      (parseBranch op other right) := by
  cases operands with
  | nil => exact .error (Diagnostic.alike_malformed _ anchors)
  | cons head tail =>
    simp only [parseBranch, head.kind, head.text]
    split
    next => exact .error (Diagnostic.alike_malformed _ head.span)
    next =>
      cases tail with
      | nil => exact .ok (.branch op _ head.span)
      | cons extra _ =>
        simp only [extra.text]
        exact .error (Diagnostic.alike_malformed _ extra.span)

theorem alike_parsePlain (joins : Span.Joins related) (op : PlainOp)
    (operands : List.Forall₂ (Token.Alike related) left right) :
    Agree (Diagnostic.Alike related) (StatementKind.Alike related) (parsePlain op left)
      (parsePlain op right) := by
  cases operands with
  | nil => exact .ok (.instruction _)
  | cons head tail =>
    exact .error (Diagnostic.alike_malformed _ (Token.related_cover joins head tail))

theorem alike_parseOperation (joins : Span.Joins related) (head : a.Alike related b)
    (operands : List.Forall₂ (Token.Alike related) left right) :
    Agree (Diagnostic.Alike related) (StatementKind.Alike related) (parseOperation a left)
      (parseOperation b right) := by
  simp only [parseOperation, head.kind, head.text]
  split
  next => exact .error (Diagnostic.alike_of _ _ head.span)
  next => exact alike_parsePush joins head.span operands
  next => exact alike_parsePop joins head.span operands
  next => exact alike_parseBranch _ head.span operands
  next => exact alike_parsePlain joins _ operands

theorem alike_parseRest (joins : Span.Joins related)
    (tokens : List.Forall₂ (Token.Alike related) left right) :
    Parsed.Alike related (parseRest left) (parseRest right) := by
  cases tokens with
  | nil => exact ⟨.nil, .nil⟩
  | @cons first first' rest rest' head operands =>
    have operation := alike_parseOperation joins head operands
    simp only [parseRest]
    generalize parseOperation first rest = read, parseOperation first' rest' = read' at operation ⊢
    cases operation with
    | error fault => exact ⟨.nil, .cons fault .nil⟩
    | ok kind =>
      exact ⟨.cons ⟨Token.related_cover joins head operands, kind⟩ .nil, .nil⟩

theorem alike_parseLine (joins : Span.Joins related)
    (tokens : List.Forall₂ (Token.Alike related) left right)
    (touch : Token.touch left = Token.touch right) :
    Parsed.Alike related (parseLine left) (parseLine right) := by
  -- Lines of fewer than two tokens have no label.
  cases tokens with
  | nil => exact ⟨.nil, .nil⟩
  | @cons name name' _ _ head tail =>
    cases tail with
    | nil => exact alike_parseRest joins (.cons head .nil)
    | @cons colon colon' rest rest' next others =>
      have same : colon.span.start = name.span.stop ↔ colon'.span.start = name'.span.stop := by
        simpa [Token.touch] using touch
      have labelled := alike_parseRest joins others
      have unlabelled := alike_parseRest joins (.cons head (.cons next others))
      simp only [parseLine, splitLabel, head.kind, next.kind, same]
      split
      next =>
        simp only [Option.map_some, Option.toList_some, List.singleton_append, ofLabel, head.text]
        exact ⟨.cons ⟨head.span, .label _⟩ labelled.statements, labelled.diagnostics⟩
      next => exact unlabelled

end Statement

theorem Token.alike_lines {left right : List Token}
    (tokens : List.Forall₂ (Token.Alike related) left right) :
    List.Forall₂ (List.Forall₂ (Token.Alike related)) (lines left) (lines right) := by
  induction tokens with
  | nil => exact .cons .nil .nil
  | @cons first second rest rest' head _ ih =>
    simp only [lines, head.kind]
    split
    next => exact .cons .nil ih
    next =>
      generalize lines rest = above, lines rest' = below at ih
      cases ih with
      | nil => exact .cons (.cons head .nil) .nil
      | cons line others => exact .cons (.cons head line) others

theorem map_eq_of_forall₂ {α β γ : Type} {relation : α → β → Prop} {f : α → γ} {g : β → γ}
    {left : List α} {right : List β} (each : List.Forall₂ relation left right)
    (same : ∀ a b, relation a b → f a = g b) : left.map f = right.map g := by
  induction each with
  | nil => rfl
  | cons head _ ih => rw [List.map_cons, List.map_cons, same _ _ head, ih]

namespace Parsed

def join (lines : List Parsed) : Parsed :=
  ⟨lines.flatMap statements, lines.flatMap diagnostics⟩

theorem alike_join {left right : List Parsed}
    (lines : List.Forall₂ (Alike related) left right) :
    Alike related (join left) (join right) := by
  induction lines with
  | nil => exact ⟨.nil, .nil⟩
  | cons line _ ih =>
    exact ⟨List.rel_append line.statements ih.statements,
      List.rel_append line.diagnostics ih.diagnostics⟩

end Parsed

def parseTokens (tokens : List Token) : Parsed :=
  .join ((Token.lines tokens).map Statement.parseLine)

theorem parse_eq_parseTokens (source : String) :
    parse source = parseTokens (Token.significant (Token.scan source)) := by
  simp only [parse, parseTokens, Parsed.join, ← Token.significant_lines, List.map_map]
  rfl

theorem alike_parseLines (joins : Span.Joins related) {left right : List (List Token)}
    (lines : List.Forall₂ (List.Forall₂ (Token.Alike related)) left right)
    (touch : left.map Token.touch = right.map Token.touch) :
    Parsed.Alike related (.join (left.map Statement.parseLine))
      (.join (right.map Statement.parseLine)) := by
  refine Parsed.alike_join ?_
  rw [List.forall₂_map_left_iff, List.forall₂_map_right_iff]
  induction lines with
  | nil => exact .nil
  | cons line _ ih =>
    simp only [List.map_cons, List.cons.injEq] at touch
    exact .cons (Statement.alike_parseLine joins line touch.1) (ih touch.2)

theorem alike_parseTokens (joins : Span.Joins related) {left right : List Token}
    (tokens : List.Forall₂ (Token.Alike related) left right)
    (touch : (Token.lines left).map Token.touch = (Token.lines right).map Token.touch) :
    Parsed.Alike related (parseTokens left) (parseTokens right) :=
  alike_parseLines joins (Token.alike_lines tokens) touch

end StackMachine
