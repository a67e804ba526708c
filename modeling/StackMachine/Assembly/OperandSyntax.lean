import StackMachine.Assembly.Diagnostic
import StackMachine.Assembly.Token
import StackMachine.Bytecode.Instruction
import StackMachine.Bytecode.Opcode

set_option autoImplicit false

namespace StackMachine

inductive Malformation where
  | missingOperand
  | unclosedBracket
  | emptyReference
  | unexpected (text : String)
  | neitherRegisterNorNumber (text : String)
  | missingTerm
  | tooManyTerms
  | twoRegisters
  | twoNumbers
  | valueRegisterAsIndex (register : Register)
  | fractionalIndex
  | voidPushed
  | popIntoValue
  | missingLabel (op : BranchOp)
  | afterLabel (text : String)
  | notALabel (text : String)
  | needlessOperand (op : PlainOp)
  deriving DecidableEq

namespace Malformation

def message : Malformation → String
  | .missingOperand => "missing operand"
  | .unclosedBracket => "missing closing `]`"
  | .emptyReference => "empty memory reference"
  | .unexpected text => "unexpected " ++ quoted text
  | .neitherRegisterNorNumber text => quoted text ++ " is neither a register nor a number"
  | .missingTerm => "expected a register or number after `+`"
  | .tooManyTerms => "an operand holds at most one register and one number"
  | .twoRegisters => "cannot add two registers"
  | .twoNumbers => "cannot add two numbers"
  | .valueRegisterAsIndex register => quoted register.name ++ " cannot index memory, use rax..rdx"
  | .fractionalIndex => "memory offset must be an integer"
  | .voidPushed => "`void` is only valid as the operand of `pop`"
  | .popIntoValue => "`pop` stores into a register, a memory cell or `void`"
  | .missingLabel op => quoted op.mnemonic ++ " needs a label"
  | .afterLabel text => "unexpected " ++ quoted text ++ " after label"
  | .notALabel text => "expected a label, found " ++ quoted text
  | .needlessOperand op => quoted op.mnemonic ++ " takes no operand"

end Malformation

def Diagnostic.malformed (span : Span) (cause : Malformation) : Diagnostic :=
  .of .malformedOperand span cause.message

inductive Term where
  | register (register : Register)
  | literal (value : Binary64)
  deriving DecidableEq

namespace Term

/-- A digit, or a minus or a point before a digit or a point, begins a number. -/
def looksNumeric : List Char → Bool
  | [] => false
  | first :: rest =>
    first.isDigit || ((first == '-' || first == '.') && match rest with
      | second :: _ => second.isDigit || second == '.'
      | [] => false)

def ofWord (text : String) (span : Span) : Except Diagnostic Term :=
  match Register.ofName? text with
  | some found => .ok (.register found)
  | none =>
    if looksNumeric text.toList then
      match Binary64.parse? text with
      | some value => .ok (.literal value)
      | none => .error (.of .invalidLiteral span text)
    else .error (.malformed span (.neitherRegisterNorNumber text))

def unexpected (token : Token) : Diagnostic :=
  .malformed token.span (.unexpected (if token.kind = .newline then "end of line" else token.text))

def ofToken (token : Token) : Except Diagnostic Term :=
  if token.kind = .word then ofWord token.text token.span else .error (unexpected token)

end Term

namespace Operand

def ofTerm : Term → Operand
  | .register register => ⟨some register, none, false⟩
  | .literal value => ⟨none, some value, false⟩

def ofTerms (span : Span) : Term → Term → Except Diagnostic Operand
  | .register register, .literal value | .literal value, .register register =>
    .ok ⟨some register, some value, false⟩
  | .register _, .register _ => .error (.malformed span .twoRegisters)
  | .literal _, .literal _ => .error (.malformed span .twoNumbers)

def parseSum (anchor : Span) : List Token → Except Diagnostic Operand
  | [] => .error (.malformed anchor .missingOperand)
  | first :: rest =>
    -- The leftmost fault is the one reported.
    match Term.ofToken first, rest with
    | .error fault, _ => .error fault
    | .ok left, [] => .ok (ofTerm left)
    | .ok left, plus :: others =>
      if plus.kind ≠ .plus then .error (Term.unexpected plus)
      else match others with
        | [] => .error (.malformed plus.span .missingTerm)
        | second :: extra =>
          match Term.ofToken second, extra with
          | .error fault, _ => .error fault
          | .ok right, [] => ofTerms (first.span.cover second.span) left right
          | .ok _, more :: _ =>
            .error (if more.kind = .plus then .malformed more.span .tooManyTerms
              else Term.unexpected more)

def indexed (opening closing : Token) (inner : List Token) (sum : Operand) :
    Except Diagnostic Operand :=
  match sum.register.filter (!·.isAddress) with
  | some register =>
    let place := (inner.find? fun token => token.text == register.name).getD opening
    .error (.malformed place.span (.valueRegisterAsIndex register))
  | none =>
    if sum.literal.any (·.hasFraction) then
      .error (.malformed (opening.span.cover closing.span) .fractionalIndex)
    else .ok { sum with inMemory := true }

def parseReference (opening : Token) (rest : List Token) : Except Diagnostic Operand :=
  let inner := rest.takeWhile fun token => decide (token.kind ≠ .bracketClose)
  match rest.dropWhile fun token => decide (token.kind ≠ .bracketClose) with
  | [] => .error (.malformed (opening.cover rest) .unclosedBracket)
  | closing :: after =>
    match after, inner with
    | extra :: _, _ => .error (Term.unexpected extra)
    | [], [] => .error (.malformed (opening.span.cover closing.span) .emptyReference)
    | [], _ => (parseSum opening.span inner).bind (indexed opening closing inner)

def parse (anchor : Span) : List Token → Except Diagnostic Operand
  | [] => .error (.malformed anchor .missingOperand)
  | first :: rest =>
    if first.kind = .bracketOpen then parseReference first rest else parseSum anchor (first :: rest)

end Operand

end StackMachine
