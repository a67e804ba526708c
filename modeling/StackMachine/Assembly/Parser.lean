import StackMachine.Assembly.Statement
import StackMachine.Assembly.Token

set_option autoImplicit false

namespace StackMachine

-- The parser as it reads a source: every text, every token by number and every cut is taken where
-- it is asked for, and there is no answer where one of them is missing.

namespace Term

def unexpected? (source : String) (token : BareToken) : Option Diagnostic := do
  let text ← if token.kind = .newline then some "end of line" else token.text? source
  some (.malformed token.span (.unexpected text))

def ofToken? (source : String) (token : BareToken) : Option (Except Diagnostic Term) :=
  if token.kind = .word then (token.text? source).map fun text => ofWord text token.span
  else (unexpected? source token).map .error

end Term

namespace Operand

def parseSum? (source : String) (anchor : Span) (tokens : List BareToken) :
    Option (Except Diagnostic Operand) :=
  match tokens with
  | [] => some (.error (.malformed anchor .missingOperand))
  | first :: rest => do
    match ← Term.ofToken? source first, rest with
    | .error fault, _ => some (.error fault)
    | .ok left, [] => some (.ok (ofTerm left))
    | .ok left, plus :: others =>
      if plus.kind ≠ .plus then (Term.unexpected? source plus).map .error
      else match others with
        | [] => some (.error (.malformed plus.span .missingTerm))
        | second :: extra =>
          match ← Term.ofToken? source second, extra with
          | .error fault, _ => some (.error fault)
          | .ok right, [] =>
            let begins ← tokens[0]?
            let ends ← tokens[2]?
            some (ofTerms (begins.span.cover ends.span) left right)
          | .ok _, more :: _ =>
            if more.kind = .plus then some (.error (.malformed more.span .tooManyTerms))
            else (Term.unexpected? source more).map .error

def indexed? (source : String) (opening closing : BareToken) (inner : List BareToken)
    (sum : Operand) : Option (Except Diagnostic Operand) :=
  match sum.register.filter (!·.isAddress) with
  | some register => do
    let place ← BareToken.find? source register.name inner
    some (.error (.malformed (place.getD opening).span (.valueRegisterAsIndex register)))
  | none =>
    if sum.literal.any (·.hasFraction) then
      some (.error (.malformed (opening.span.cover closing.span) .fractionalIndex))
    else some (.ok { sum with inMemory := true })

def parseReference? (source : String) (opening : BareToken) (tokens : List BareToken) :
    Option (Except Diagnostic Operand) :=
  match tokens.findIdx? (·.kind = .bracketClose) with
  | none =>
    let last := tokens.getLast?.getD opening
    some (.error (.malformed (opening.span.cover last.span) .unclosedBracket))
  | some close =>
    match tokens[close + 1]? with
    | some extra => (Term.unexpected? source extra).map .error
    | none => do
      let inner ← BareToken.cut? tokens 1 close
      let closing ← tokens[close]?
      if inner.isEmpty then
        some (.error (.malformed (opening.span.cover closing.span) .emptyReference))
      else
        match ← parseSum? source opening.span inner with
        | .error fault => some (.error fault)
        | .ok sum => indexed? source opening closing inner sum

def parse? (source : String) (anchor : Span) (tokens : List BareToken) :
    Option (Except Diagnostic Operand) :=
  match tokens with
  | [] => some (.error (.malformed anchor .missingOperand))
  | first :: _ =>
    if first.kind = .bracketOpen then parseReference? source first tokens
    else parseSum? source anchor tokens

end Operand

namespace Statement

def takeLabel : List BareToken → Option BareToken × List BareToken
  | name :: colon :: rest =>
    if name.kind = .word ∧ colon.kind = .colon ∧ colon.span.start = name.span.stop then
      (some name, rest)
    else (none, name :: colon :: rest)
  | tokens => (none, tokens)

def findVoid? (source : String) : List BareToken → Option (Option BareToken)
  | [token] => (token.text? source).map fun text => if text = "void" then some token else none
  | _ => some none

def parsePush? (source : String) (anchor : Span) (operands : List BareToken) :
    Option (Except Diagnostic StatementKind) := do
  match ← findVoid? source operands with
  | some word => some (.error (.malformed word.span .voidPushed))
  | none =>
    let parsed ← Operand.parse? source anchor operands
    some (parsed.map fun operand => .instruction (.push operand))

def parsePop? (source : String) (anchor : Span) (operands : List BareToken) :
    Option (Except Diagnostic StatementKind) := do
  match ← findVoid? source operands with
  | some _ => some (.ok (.instruction (.pop .void)))
  | none =>
    match ← Operand.parse? source anchor operands with
    | .error fault => some (.error fault)
    | .ok operand =>
      if operand.mode.validFor .pop then some (.ok (.instruction (.pop operand)))
      else
        let first ← operands.head?
        let last ← operands.getLast?
        some (.error (.malformed (first.span.cover last.span) .popIntoValue))

def parseBranch? (source : String) (op : BranchOp) (anchor : Span) :
    List BareToken → Option (Except Diagnostic StatementKind)
  | [] => some (.error (.malformed anchor (.missingLabel op)))
  | first :: rest =>
    if first.kind ≠ .word then
      (first.text? source).map fun text => .error (.malformed first.span (.notALabel text))
    else match rest with
      | [] => (first.text? source).map fun name => .ok (.branch op name first.span)
      | extra :: _ =>
        (extra.text? source).map fun text => .error (.malformed extra.span (.afterLabel text))

def plainOf (op : PlainOp) : List BareToken → Except Diagnostic StatementKind
  | [] => .ok (.instruction (.plain op))
  | first :: rest => .error (.malformed (first.cover rest) (.needlessOperand op))

def parseOperation? (source : String) (head : BareToken) (operands : List BareToken) :
    Option (Except Diagnostic StatementKind) := do
  let mnemonic ← head.text? source
  match if head.kind = .word then Opcode.ofMnemonic? mnemonic else none with
  | none => some (.error (.of .unknownMnemonic head.span mnemonic))
  | some .push => parsePush? source head.span operands
  | some .pop => parsePop? source head.span operands
  | some (.branch op) => parseBranch? source op head.span operands
  | some (.plain op) => some (plainOf op operands)

def parseRest? (source : String) : List BareToken → Option Parsed
  | [] => some ⟨[], []⟩
  | head :: operands => (parseOperation? source head operands).map fun
    | .ok kind => ⟨[⟨head.cover operands, kind⟩], []⟩
    | .error fault => ⟨[], [fault]⟩

def labelOf? (source : String) : Option BareToken → Option (List Statement)
  | none => some []
  | some name => (name.text? source).map fun text => [⟨name.span, .label text⟩]

def parseLine? (source : String) (tokens : List BareToken) : Option Parsed := do
  let (label, rest) := takeLabel tokens
  let declared ← labelOf? source label
  let parsed ← parseRest? source rest
  some ⟨declared ++ parsed.statements, parsed.diagnostics⟩

def parseLines? (source : String) (tokens : List BareToken) : Option Parsed := do
  let lines := (tokens.splitOnP (·.kind = .newline)).map BareToken.significant
  let parsed ← lines.mapM (parseLine? source)
  some ⟨parsed.flatMap Parsed.statements, parsed.flatMap Parsed.diagnostics⟩

end Statement

/-- Statements and diagnostics of a source. There are none if the lexer has no tokens of it, or the
text of a token is asked for that its span does not show. -/
def parse? (source : String) : Option Parsed := do
  let tokens ← BareToken.lex? source
  Statement.parseLines? source tokens

end StackMachine
