import StackMachine.Assembly.Assembler
import StackMachine.Proofs.Assembly.LineGrammar
import StackMachine.Proofs.Bytecode.Printable
import StackMachine.Proofs.Text.Lines

set_option autoImplicit false

namespace StackMachine

@[simp] theorem oneLine_quoted {text : String} : OneLine (quoted text) ↔ OneLine text := by
  simp [quoted, OneLine]

theorem Printable.oneLine {text : String} (printable : Printable text) : OneLine text :=
  printable.not_mem (by decide)

theorem Encoded.oneLine_nameOf (i : Instruction) : OneLine (nameOf i) := by
  have argument (mnemonic : String) (operand : Operand) (short : OneLine mnemonic) :
      OneLine (mnemonic ++ " " ++ operand.text) := by
    rw [oneLine_append, oneLine_append]
    exact ⟨⟨short, by decide +kernel⟩, operand.printable_text.oneLine⟩
  cases i with
  | plain op => exact (Opcode.plain op).printable_mnemonic.oneLine
  | push operand => exact argument "push" operand (by decide +kernel)
  | pop operand => exact argument "pop" operand (by decide +kernel)
  | branch op target => exact (Opcode.branch op).printable_mnemonic.oneLine

theorem oneLine_quoted_append {name : String} (short : OneLine name) {rest : String}
    (fixed : OneLine rest) : OneLine (quoted name ++ rest) :=
  oneLine_append.mpr ⟨oneLine_quoted.mpr short, fixed⟩

theorem DiagnosticKind.oneLine_describe (kind : DiagnosticKind) {detail : String}
    (short : OneLine detail) : OneLine (kind.describe detail) := by
  unfold describe
  cases kind with
  | invalidLiteral => exact oneLine_quoted_append short (by decide +kernel)
  | unknownMnemonic =>
    rw [oneLine_append, oneLine_quoted]
    exact ⟨by decide +kernel, short⟩
  | duplicateLabel | unresolvedLabel | labelOutOfRange =>
    rw [oneLine_append, oneLine_append, oneLine_quoted]
    exact ⟨⟨by decide +kernel, short⟩, by decide +kernel⟩
  | malformedOperand | unsupportedInstruction =>
    rw [oneLine_append, oneLine_append]
    exact ⟨⟨by decide +kernel, by decide +kernel⟩, short⟩

def Malformation.quote? : Malformation → Option String
  | .unexpected text | .neitherRegisterNorNumber text | .afterLabel text | .notALabel text =>
    some text
  | _ => none

theorem Malformation.oneLine_message (cause : Malformation)
    (short : ∀ text, cause.quote? = some text → OneLine text) : OneLine cause.message := by
  unfold message
  cases cause with
  | unexpected text | notALabel text =>
    rw [oneLine_append, oneLine_quoted]
    exact ⟨by decide +kernel, short text rfl⟩
  | neitherRegisterNorNumber text =>
    exact oneLine_quoted_append (short text rfl) (by decide +kernel)
  | afterLabel text =>
    rw [oneLine_append, oneLine_append, oneLine_quoted]
    exact ⟨⟨by decide +kernel, short text rfl⟩, by decide +kernel⟩
  | valueRegisterAsIndex r =>
    exact oneLine_quoted_append r.printable_name.oneLine (by decide +kernel)
  | missingLabel op =>
    have named : OneLine op.mnemonic := (Opcode.branch op).printable_mnemonic.oneLine
    exact oneLine_quoted_append named (by decide +kernel)
  | needlessOperand op =>
    have named : OneLine op.mnemonic := (Opcode.plain op).printable_mnemonic.oneLine
    exact oneLine_quoted_append named (by decide +kernel)
  | _ => decide +kernel

theorem Diagnostic.oneLine_of (kind : DiagnosticKind) (span : Span) {detail : String}
    (short : OneLine detail) : OneLine (Diagnostic.of kind span detail).message :=
  kind.oneLine_describe short

def DiagnosticKind.misreadings : List DiagnosticKind :=
  [.invalidLiteral, .malformedOperand, .unknownMnemonic]

structure Diagnostic.IsMisreading (fault : Diagnostic) : Prop where
  kind : fault.kind ∈ DiagnosticKind.misreadings
  message : OneLine fault.message

theorem Diagnostic.isMisreading_of {kind : DiagnosticKind}
    (among : kind ∈ DiagnosticKind.misreadings) (span : Span) {detail : String}
    (short : OneLine detail) : (Diagnostic.of kind span detail).IsMisreading :=
  ⟨among, oneLine_of kind span short⟩

theorem Diagnostic.isMisreading_malformed (span : Span) (cause : Malformation)
    (short : ∀ text, cause.quote? = some text → OneLine text) :
    (Diagnostic.malformed span cause).IsMisreading :=
  isMisreading_of (by decide) span (cause.oneLine_message short)

def Blames {α : Type} (read : Except Diagnostic α) : Prop :=
  ∀ fault, read = .error fault → fault.IsMisreading

section

variable {α β : Type} {span : Span} {fault : Diagnostic}

theorem blames_ok (a : α) : Blames (.ok a) := nofun

theorem blames_error (short : fault.IsMisreading) :
    Blames (.error fault : Except Diagnostic α) := by
  intro other same
  cases same
  exact short

theorem blames_malformed {cause : Malformation}
    (short : ∀ text, cause.quote? = some text → OneLine text) :
    Blames (.error (.malformed span cause) : Except Diagnostic α) :=
  blames_error (Diagnostic.isMisreading_malformed span cause short)

theorem blames_unquoted {cause : Malformation} (none : cause.quote? = none) :
    Blames (.error (.malformed span cause) : Except Diagnostic α) := by
  apply blames_malformed
  intro text quoted
  rw [none] at quoted
  cases quoted

theorem Blames.bind {read : Except Diagnostic α} {next : α → Except Diagnostic β}
    (first : Blames read) (second : ∀ a, Blames (next a)) :
    Blames (read.bind next) := by
  cases read with
  | ok a => exact second a
  | error fault => exact blames_error (first fault rfl)

theorem Blames.map {read : Except Diagnostic α} {f : α → β} (first : Blames read) :
    Blames (read.map f) := by
  cases read with
  | ok a => exact blames_ok (f a)
  | error fault => exact blames_error (first fault rfl)

end

section

variable {token : Token} {tokens : List Token} {anchor : Span}

theorem Term.isMisreading_unexpected (short : OneLine token.text) :
    (unexpected token).IsMisreading := by
  apply Diagnostic.isMisreading_malformed
  intro text quoted
  cases quoted
  split
  next => decide +kernel
  next => exact short

theorem Term.blames_ofToken (short : OneLine token.text) : Blames (ofToken token) := by
  unfold ofToken ofWord
  split
  next =>
    split
    next => exact blames_ok _
    next =>
      split
      next =>
        split
        next => exact blames_ok _
        next => exact blames_error (Diagnostic.isMisreading_of (by decide) _ short)
      next =>
        apply blames_malformed
        intro text quoted
        cases quoted
        exact short
  next => exact blames_error (isMisreading_unexpected short)

namespace Operand

theorem blames_ofTerms (left right : Term) : Blames (ofTerms anchor left right) := by
  cases left <;> cases right
  · exact blames_unquoted rfl
  · exact blames_ok _
  · exact blames_ok _
  · exact blames_unquoted rfl

theorem blames_parseSum (short : ∀ token ∈ tokens, OneLine token.text) :
    Blames (parseSum anchor tokens) := by
  unfold parseSum
  split
  next => exact blames_unquoted rfl
  next first rest =>
    obtain ⟨head, tail⟩ := List.forall_mem_cons.mp short
    split
    next fault read => exact blames_error (Term.blames_ofToken head fault read)
    next => exact blames_ok _
    next plus others _ =>
      obtain ⟨between, others⟩ := List.forall_mem_cons.mp tail
      split
      next => exact blames_error (Term.isMisreading_unexpected between)
      next =>
        split
        next => exact blames_unquoted rfl
        next second extra =>
          obtain ⟨last, behind⟩ := List.forall_mem_cons.mp others
          split
          next fault read => exact blames_error (Term.blames_ofToken last fault read)
          next => exact blames_ofTerms _ _
          next more _ _ =>
            have unexpected := Term.isMisreading_unexpected (behind more List.mem_cons_self)
            split
            next => exact blames_unquoted rfl
            next => exact blames_error unexpected

theorem blames_indexed (opening closing : Token) (inner : List Token) (sum : Operand) :
    Blames (indexed opening closing inner sum) := by
  unfold indexed
  split
  next => exact blames_unquoted rfl
  next =>
    split
    next => exact blames_unquoted rfl
    next => exact blames_ok _

theorem blames_parseReference {opening : Token}
    (short : ∀ token ∈ tokens, OneLine token.text) :
    Blames (parseReference opening tokens) := by
  have inner : ∀ token ∈ tokens.takeWhile fun token => decide (token.kind ≠ .bracketClose),
      OneLine token.text :=
    fun token member => short token ((List.takeWhile_sublist _).subset member)
  simp only [parseReference]
  split
  next => exact blames_unquoted rfl
  next closing after cut =>
    have outer : ∀ token ∈ closing :: after, OneLine token.text := by
      rw [← cut]
      exact fun token member => short token ((List.dropWhile_sublist _).subset member)
    split
    next extra rest =>
      have unexpected := outer extra (List.mem_cons_of_mem closing List.mem_cons_self)
      exact blames_error (Term.isMisreading_unexpected unexpected)
    next => exact blames_unquoted rfl
    next =>
      exact (blames_parseSum inner).bind fun sum => blames_indexed opening closing _ sum

theorem blames_parse (short : ∀ token ∈ tokens, OneLine token.text) :
    Blames (parse anchor tokens) := by
  unfold parse
  split
  next => exact blames_unquoted rfl
  next =>
    split
    next => exact blames_parseReference (List.forall_mem_cons.mp short).2
    next => exact blames_parseSum short

end Operand

namespace Statement

theorem blames_parsePush (short : ∀ token ∈ tokens, OneLine token.text) :
    Blames (parsePush anchor tokens) := by
  unfold parsePush
  split
  next => exact blames_unquoted rfl
  next => exact (Operand.blames_parse short).map

theorem blames_parsePop (short : ∀ token ∈ tokens, OneLine token.text) :
    Blames (parsePop anchor tokens) := by
  unfold parsePop
  split
  next => exact blames_ok _
  next =>
    apply (Operand.blames_parse short).bind
    intro operand
    split
    next => exact blames_ok _
    next => exact blames_unquoted rfl

theorem blames_parseBranch (op : BranchOp) (short : ∀ token ∈ tokens, OneLine token.text) :
    Blames (parseBranch op anchor tokens) := by
  cases tokens with
  | nil => exact blames_unquoted rfl
  | cons first rest =>
    obtain ⟨head, others⟩ := List.forall_mem_cons.mp short
    simp only [parseBranch]
    split
    next =>
      apply blames_malformed
      intro text quoted
      cases quoted
      exact head
    next =>
      cases rest with
      | nil => exact blames_ok _
      | cons extra rest =>
        apply blames_malformed
        intro text quoted
        cases quoted
        exact others extra List.mem_cons_self

theorem blames_parsePlain (op : PlainOp) (tokens : List Token) :
    Blames (parsePlain op tokens) := by
  cases tokens with
  | nil => exact blames_ok _
  | cons first rest => exact blames_unquoted rfl

theorem blames_parseOperation (head : OneLine token.text)
    (short : ∀ token ∈ tokens, OneLine token.text) :
    Blames (parseOperation token tokens) := by
  unfold parseOperation
  split
  next => exact blames_error (Diagnostic.isMisreading_of (by decide) _ head)
  next => exact blames_parsePush short
  next => exact blames_parsePop short
  next op _ => exact blames_parseBranch op short
  next op _ => exact blames_parsePlain op tokens

theorem isMisreading_of_mem_parseRest (short : ∀ token ∈ tokens, OneLine token.text)
    {fault : Diagnostic} (member : fault ∈ (parseRest tokens).diagnostics) :
    fault.IsMisreading := by
  cases tokens with
  | nil => cases member
  | cons head operands =>
    obtain ⟨first, others⟩ := List.forall_mem_cons.mp short
    simp only [parseRest] at member
    split at member
    next => cases member
    next other read =>
      rw [List.mem_singleton] at member
      subst member
      exact blames_parseOperation first others _ read

theorem isMisreading_of_mem_parseLine (short : ∀ token ∈ tokens, OneLine token.text)
    {fault : Diagnostic} (member : fault ∈ (parseLine tokens).diagnostics) :
    fault.IsMisreading := by
  obtain ⟨name, colon, rest, rfl, -, split⟩ | ⟨-, split⟩ := splitLabel_cases tokens
  · rw [parseLine, split] at member
    simp only [List.forall_mem_cons] at short
    exact isMisreading_of_mem_parseRest short.2.2 member
  · rw [parseLine, split] at member
    exact isMisreading_of_mem_parseRest short member

end Statement

end

end StackMachine
