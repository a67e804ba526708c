import StackMachine.Text.Characters
import StackMachine.Text.Source

set_option autoImplicit false

namespace StackMachine

inductive TokenKind where
  | word
  | plus
  | bracketOpen
  | bracketClose
  | colon
  | newline
  | whitespace
  | comment
  -- White space that separates nothing, such as a vertical tab or a non-ASCII space.
  | garbage
  deriving DecidableEq

namespace TokenKind

def isBlank (c : Char) : Bool := c == ' ' || c == '\t' || c == '\r' || c == '\x0c'

def isPunctuation (c : Char) : Bool := c == '+' || c == '[' || c == ']' || c == ':' || c == ';'

def isWordChar (c : Char) : Bool := !isWhiteSpace c && !isPunctuation c

def isGarbage (c : Char) : Bool := isWhiteSpace c && !isBlank c && c != '\n'

def ofFirst (c : Char) : TokenKind :=
  if c = '+' then .plus
  else if c = '[' then .bracketOpen
  else if c = ']' then .bracketClose
  else if c = ':' then .colon
  else if c = '\n' then .newline
  else if c = ';' then .comment
  else if isBlank c then .whitespace
  else if isWhiteSpace c then .garbage
  else .word

def continuesOver : TokenKind → Char → Bool
  | .word, c => isWordChar c
  | .whitespace, c => isBlank c
  | .comment, c => c != '\n'
  | .garbage, c => isGarbage c
  | _, _ => false

def isTrivia : TokenKind → Bool
  | .whitespace | .comment => true
  | _ => false

end TokenKind

structure Token where
  kind : TokenKind
  span : Span
  text : String
  deriving DecidableEq

namespace Token

def scanFrom (offset : Nat) : List Char → List Token
  | [] => []
  | first :: rest =>
    let kind := TokenKind.ofFirst first
    let chars := first :: rest.takeWhile kind.continuesOver
    let stop := offset + byteLength chars
    ⟨kind, ⟨offset, stop⟩, String.ofList chars⟩ :: scanFrom stop (rest.dropWhile kind.continuesOver)
termination_by chars => chars.length
decreasing_by
  have shorter : (rest.dropWhile (TokenKind.ofFirst first).continuesOver).length ≤ rest.length :=
    (List.dropWhile_sublist _).length_le
  simp only [List.length_cons]
  omega

def scan (source : String) : List Token := scanFrom 0 source.toList

def lines : List Token → List (List Token)
  | [] => [[]]
  | token :: rest =>
    if token.kind = .newline then [] :: lines rest
    else match lines rest with
      | [] => [[token]]
      | line :: others => (token :: line) :: others

def significant (tokens : List Token) : List Token :=
  tokens.filter fun token => !token.kind.isTrivia

def cover (first : Token) (others : List Token) : Span :=
  first.span.cover (others.getLast?.getD first).span

def coverAll (anchor : Span) : List Token → Span
  | [] => anchor
  | first :: others => first.cover others

end Token

/-- A token as it is kept. Its text is looked up in the source where it is asked for. -/
structure BareToken where
  kind : TokenKind
  span : Span
  deriving DecidableEq

def Token.bare (token : Token) : BareToken := ⟨token.kind, token.span⟩

@[simp] theorem Token.bare_kind (token : Token) : token.bare.kind = token.kind := rfl

@[simp] theorem Token.bare_span (token : Token) : token.bare.span = token.span := rfl

namespace TokenKind

def matchesOver (kind : TokenKind) (c : Char) : Bool := kind != .garbage && kind.continuesOver c

end TokenKind

namespace Token

def matchFrom (offset : Nat) : List Char → List Token
  | [] => []
  | first :: rest =>
    let kind := TokenKind.ofFirst first
    let chars := first :: rest.takeWhile kind.matchesOver
    let stop := offset + byteLength chars
    ⟨kind, ⟨offset, stop⟩, String.ofList chars⟩ :: matchFrom stop (rest.dropWhile kind.matchesOver)
termination_by chars => chars.length
decreasing_by
  have shorter : (rest.dropWhile (TokenKind.ofFirst first).matchesOver).length ≤ rest.length :=
    (List.dropWhile_sublist _).length_le
  simp only [List.length_cons]
  omega

end Token

namespace BareToken

/-- What is kept of matches behind the last token. An error that follows another one joins it. -/
def keepFrom? (last : BareToken) : List Token → Option (List BareToken)
  | [] => some [last]
  | found :: rest => do
    let span ← found.span.narrow?
    if found.kind = .garbage ∧ last.kind = .garbage then
      keepFrom? ⟨last.kind, last.span.cover span⟩ rest
    else (keepFrom? ⟨found.kind, span⟩ rest).map (last :: ·)

def keep? : List Token → Option (List BareToken)
  | [] => some []
  | first :: rest => do
    let span ← first.span.narrow?
    keepFrom? ⟨first.kind, span⟩ rest

def lex? (source : String) : Option (List BareToken) := keep? (Token.matchFrom 0 source.toList)

def text? (source : String) (token : BareToken) : Option String := token.span.slice? source

def significant (tokens : List BareToken) : List BareToken :=
  tokens.filter fun token => !token.kind.isTrivia

def cover (first : BareToken) (others : List BareToken) : Span :=
  first.span.cover (others.getLast?.getD first).span

def find? (source name : String) : List BareToken → Option (Option BareToken)
  | [] => some none
  | token :: rest => do
    let text ← token.text? source
    if text == name then some (some token) else find? source name rest

def cut? (tokens : List BareToken) (start stop : Nat) : Option (List BareToken) :=
  if start ≤ stop ∧ stop ≤ tokens.length then some ((tokens.take stop).drop start) else none

end BareToken

end StackMachine
