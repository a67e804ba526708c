import StackMachine.Assembly.OperandSyntax

set_option autoImplicit false

namespace StackMachine

inductive StatementKind where
  -- A name for the offset of whatever follows.
  | label (name : String)
  | instruction (instruction : Instruction)
  -- A branch or call, its target still a name.
  | branch (op : BranchOp) (label : String) (labelSpan : Span)
  deriving DecidableEq

structure Statement where
  -- The label name, or the mnemonic through its last operand token.
  span : Span
  kind : StatementKind
  deriving DecidableEq

structure Parsed where
  statements : List Statement
  diagnostics : List Diagnostic
  deriving DecidableEq

namespace Statement

def splitLabel : List Token → Option Token × List Token
  | name :: colon :: rest =>
    if name.kind = .word ∧ colon.kind = .colon ∧ colon.span.start = name.span.stop then
      (some name, rest)
    else (none, name :: colon :: rest)
  | tokens => (none, tokens)

def voidWord? : List Token → Option Token
  | [token] => if token.text = "void" then some token else none
  | _ => none

def parsePush (anchor : Span) (operands : List Token) : Except Diagnostic StatementKind :=
  match voidWord? operands with
  | some word => .error (.malformed word.span .voidPushed)
  | none => (Operand.parse anchor operands).map fun operand => .instruction (.push operand)

def parsePop (anchor : Span) (operands : List Token) : Except Diagnostic StatementKind :=
  match voidWord? operands with
  | some _ => .ok (.instruction (.pop .void))
  | none => (Operand.parse anchor operands).bind fun operand =>
    if operand.mode.validFor .pop then .ok (.instruction (.pop operand))
    else .error (.malformed (Token.coverAll anchor operands) .popIntoValue)

def parseBranch (op : BranchOp) (anchor : Span) : List Token → Except Diagnostic StatementKind
  | [] => .error (.malformed anchor (.missingLabel op))
  | first :: rest =>
    if first.kind ≠ .word then .error (.malformed first.span (.notALabel first.text))
    else match rest with
      | [] => .ok (.branch op first.text first.span)
      | extra :: _ => .error (.malformed extra.span (.afterLabel extra.text))

def parsePlain (op : PlainOp) : List Token → Except Diagnostic StatementKind
  | [] => .ok (.instruction (.plain op))
  | first :: rest => .error (.malformed (first.cover rest) (.needlessOperand op))

def parseOperation (head : Token) (operands : List Token) : Except Diagnostic StatementKind :=
  match if head.kind = .word then Opcode.ofMnemonic? head.text else none with
  | none => .error (.of .unknownMnemonic head.span head.text)
  | some .push => parsePush head.span operands
  | some .pop => parsePop head.span operands
  | some (.branch op) => parseBranch op head.span operands
  | some (.plain op) => parsePlain op operands

def parseRest : List Token → Parsed
  | [] => ⟨[], []⟩
  | head :: operands =>
    match parseOperation head operands with
    | .ok kind => ⟨[⟨head.cover operands, kind⟩], []⟩
    | .error fault => ⟨[], [fault]⟩

def ofLabel (name : Token) : Statement := ⟨name.span, .label name.text⟩

def parseLine (tokens : List Token) : Parsed :=
  let (label, rest) := splitLabel tokens
  let parsed := parseRest rest
  ⟨(label.map ofLabel).toList ++ parsed.statements, parsed.diagnostics⟩

def labels (statements : List Statement) : List String := statements.filterMap fun statement =>
  match statement.kind with
  | .label name => some name
  | _ => none

end Statement

/-- What `parse?` gives where no offset wraps. -/
def parse (source : String) : Parsed :=
  let parsed := (Token.lines (Token.scan source)).map fun line =>
    Statement.parseLine (Token.significant line)
  ⟨parsed.flatMap Parsed.statements, parsed.flatMap Parsed.diagnostics⟩

end StackMachine
