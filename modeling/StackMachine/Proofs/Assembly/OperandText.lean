import StackMachine.Proofs.Assembly.Tiling
import StackMachine.Proofs.Assembly.Wording
import StackMachine.Proofs.Binary64.ReadBack

set_option autoImplicit false

namespace StackMachine

namespace TokenKind

theorem isWordChar_of_isDigit {c : Char} (digit : c.isDigit = true) : isWordChar c = true := by
  have code := Char.isDigit_iff_toNat.mp digit
  have bounds : 48 ≤ c.toNat ∧ c.toNat ≤ 57 := code
  have visible : isWhiteSpace c = false := by
    simp only [isWhiteSpace, inRanges, whiteSpaceRanges, List.any_cons, List.any_nil,
      Bool.or_eq_false_iff, Bool.and_eq_false_iff, decide_eq_false_iff_not, and_true]
    omega
  have mark : isPunctuation c = false := Bool.eq_false_iff.mpr fun mark => by
    simp only [isPunctuation, Bool.or_eq_true, beq_iff_eq] at mark
    rcases mark with (((rfl | rfl) | rfl) | rfl) | rfl <;> exact absurd digit (by decide)
  simp [isWordChar, visible, mark]

theorem holds_word_of_all {text : List Char} (all : text.all isWordChar = true) :
    Holds .word text :=
  fun c member => isWordChar_iff.mp (List.all_eq_true.mp all c member)

end TokenKind

namespace Binary64

variable {x : Binary64}

theorem word_valueText (finite : x.isFinite = true) :
    x.valueText.toList ≠ [] ∧ TokenKind.word.Holds x.valueText.toList := by
  obtain ⟨sign, whole, behind, shown, minus, some, digits, others⟩ := valueText_eq finite
  rw [shown]
  refine ⟨by simp [some], fun c member => TokenKind.isWordChar_iff.mp ?_⟩
  simp only [List.mem_append] at member
  obtain (first | digit) | last := member
  · simp only [List.mem_cons, List.not_mem_nil, or_false] at minus
    obtain rfl | rfl := minus
    · cases first
    · cases List.mem_singleton.mp first
      decide
  · exact TokenKind.isWordChar_of_isDigit (digits c digit)
  · obtain digit | rfl := others c last
    · exact TokenKind.isWordChar_of_isDigit digit
    · decide

theorem looksNumeric_valueText (finite : x.isFinite = true) :
    Term.looksNumeric x.valueText.toList = true := by
  obtain ⟨sign, whole, behind, shown, minus, some, digits, -⟩ := valueText_eq finite
  obtain ⟨first, others, rfl⟩ := List.exists_cons_of_ne_nil some
  have digit := digits first List.mem_cons_self
  simp only [List.mem_cons, List.not_mem_nil, or_false] at minus
  obtain rfl | rfl := minus <;> simp [shown, Term.looksNumeric, digit]

theorem hasFraction_unsigned (integral : x.hasFraction = false) :
    x.unsigned.hasFraction = false := by
  unfold unsigned
  split
  next => decide +kernel
  next => exact integral

end Binary64

abbrev Pieces := List (TokenKind × List Char)

namespace Token

def lay (offset : Nat) : Pieces → List Token
  | [] => []
  | (kind, text) :: rest => place offset kind text :: lay (offset + byteLength text) rest

/-- Pieces that each are a token, and that no token in front goes on over. -/
structure Separate (pieces : Pieces) : Prop where
  holds : ∀ piece ∈ pieces, piece.2 ≠ [] ∧ TokenKind.Holds piece.1 piece.2
  apart : (pieces.map Prod.fst).IsChain fun left right =>
    ¬(left = right ∧ left ∈ TokenKind.runs) ∧ left ≠ .comment

theorem scanFrom_pieces {pieces : Pieces} (separate : Separate pieces) (offset : Nat) :
    scanFrom offset (pieces.flatMap Prod.snd) = lay offset pieces := by
  induction pieces generalizing offset with
  | nil => simp [scanFrom, lay]
  | cons piece rest ih =>
    obtain ⟨holds, apart⟩ := separate
    obtain ⟨⟨some, here⟩, later⟩ := List.forall_mem_cons.mp holds
    have ends : ∀ c ∈ (rest.flatMap Prod.snd).head?, piece.1.continuesOver c = false := by
      cases rest with
      | nil => simp
      | cons next others =>
        obtain ⟨someNext, kind⟩ := later next List.mem_cons_self
        obtain ⟨first, more, begins⟩ := List.exists_cons_of_ne_nil someNext
        rw [begins] at kind
        have same := TokenKind.ofFirst_of_holds (TokenKind.holds_cons_iff.mp kind).1
        obtain ⟨⟨other, plain⟩, -⟩ := List.isChain_cons_cons.mp apart
        intro c read
        obtain rfl : first = c := by simpa [begins] using read
        exact TokenKind.continuesOver_eq_false_iff.mpr
          ⟨same ▸ other, fun comment => absurd comment plain⟩
    rw [List.flatMap_cons, scanFrom_append offset some here ends, ih ⟨later, apart.tail⟩]
    rfl

end Token

namespace Register

theorem mem_table_of_inTable : ∀ r : Register, r.InTable → (r.name, r) ∈ table := by
  unfold InTable
  decide +kernel

theorem word_name {r : Register} (known : r.InTable) :
    r.name.toList ≠ [] ∧ TokenKind.word.Holds r.name.toList := by
  have each : ∀ entry ∈ table, entry.1.toList ≠ [] ∧
      entry.1.toList.all TokenKind.isWordChar = true := by decide +kernel
  obtain ⟨some, word⟩ := each _ (mem_table_of_inTable r known)
  exact ⟨some, TokenKind.holds_word_of_all word⟩

end Register

namespace Operand

structure IsRead (operand : Operand) : Prop where
  known : operand.InTable
  finite : ∀ value ∈ operand.literal, value.isFinite = true
  indexes : operand.inMemory = true →
    (∀ r ∈ operand.register, r.isAddress = true) ∧
      ∀ value ∈ operand.literal, value.hasFraction = false

theorem inTable_of_isWritten {token : Token} {r : Register}
    (written : Term.IsWritten token (.register r)) : r.InTable := by
  cases written with
  | register _ named => exact List.mem_map_of_mem (f := Prod.snd) named

theorem isFinite_of_isWritten {token : Token} {value : Binary64}
    (written : Term.IsWritten token (.literal value)) : value.isFinite = true := by
  cases written with
  | literal _ _ reads => exact (Binary64.parse?_eq_some_iff.mp reads).2

theorem IsSum.isRead {tokens : List Token} {operand : Operand} (written : IsSum tokens operand) :
    operand.IsRead ∧ operand.HasValue ∧ operand.inMemory = false := by
  cases written with
  | register written =>
    refine ⟨⟨?_, by simp, by simp⟩, .inl rfl, rfl⟩
    simpa [InTable] using inTable_of_isWritten written
  | literal written =>
    refine ⟨⟨by simp [InTable], ?_, by simp⟩, .inr rfl, rfl⟩
    simpa using isFinite_of_isWritten written
  | registerFirst first _ second | literalFirst second _ first =>
    refine ⟨⟨?_, ?_, by simp⟩, .inl rfl, rfl⟩
    · simpa [InTable] using inTable_of_isWritten first
    · simpa using isFinite_of_isWritten second

theorem IsCell.isRead {tokens : List Token} {operand : Operand} (written : IsCell tokens operand) :
    operand.IsRead ∧ operand.HasValue ∧ operand.inMemory = true := by
  cases written with
  | brackets _ _ sum address integral =>
    obtain ⟨⟨known, finite, -⟩, value, -⟩ := sum.isRead
    exact ⟨⟨known, finite, fun _ => ⟨address, integral⟩⟩, value, rfl⟩

def unsigned (operand : Operand) : Operand :=
  { operand with literal := operand.literal.map Binary64.unsigned }

def sumPieces : Option Register → Option Binary64 → Pieces
  | some r, some value =>
    [(.word, r.name.toList), (.whitespace, [' ']), (.plus, ['+']), (.whitespace, [' ']),
      (.word, value.valueText.toList)]
  | some r, none => [(.word, r.name.toList)]
  | none, some value => [(.word, value.valueText.toList)]
  | none, none => []

def pieces (operand : Operand) : Pieces :=
  if operand.isVoid then [(.word, "void".toList)]
  else if operand.inMemory then
    (.bracketOpen, ['[']) ::
      (sumPieces operand.register operand.literal ++ [(.bracketClose, [']'])])
  else sumPieces operand.register operand.literal

theorem flatMap_sumPieces (r : Option Register) (value : Option Binary64) :
    (sumPieces r value).flatMap Prod.snd = (sumText r value).toList := by
  cases r <;> cases value <;> simp [sumPieces, sumText]

theorem flatMap_pieces (operand : Operand) :
    operand.pieces.flatMap Prod.snd = operand.text.toList := by
  simp only [pieces, text]
  split
  next => rfl
  next =>
    split
    next => simp [flatMap_sumPieces]
    next => exact flatMap_sumPieces operand.register operand.literal

theorem holds_sumPieces {operand : Operand} (read : operand.IsRead) :
    ∀ piece ∈ sumPieces operand.register operand.literal,
      piece.2 ≠ [] ∧ TokenKind.Holds piece.1 piece.2 := by
  obtain ⟨r, value, inMemory⟩ := operand
  obtain ⟨known, finite, -⟩ := read
  have blank : [' '] ≠ [] ∧ TokenKind.Holds .whitespace [' '] := by simp [TokenKind.Holds]
  have plus : ['+'] ≠ [] ∧ TokenKind.Holds .plus ['+'] := ⟨by simp, rfl⟩
  cases r with
  | none =>
    cases value with
    | none => exact List.forall_mem_nil _
    | some value => exact List.forall_mem_singleton.mpr (Binary64.word_valueText (finite value rfl))
  | some r =>
    have name := Register.word_name (known r rfl)
    cases value with
    | none => exact List.forall_mem_singleton.mpr name
    | some value =>
      have number := Binary64.word_valueText (finite value rfl)
      simp only [sumPieces, List.forall_mem_cons]
      exact ⟨name, blank, plus, blank, number, List.forall_mem_nil _⟩

theorem separate_pieces {operand : Operand} (read : operand.IsRead) {mnemonic : List Char}
    (named : mnemonic ≠ [] ∧ TokenKind.Holds .word mnemonic) :
    Token.Separate ((.word, mnemonic) :: (.whitespace, [' ']) :: operand.pieces) := by
  have blank : [' '] ≠ [] ∧ TokenKind.Holds .whitespace [' '] := by simp [TokenKind.Holds]
  have void : TokenKind.Holds .word "void".toList := TokenKind.holds_word_of_all (by decide +kernel)
  have sum := holds_sumPieces read
  constructor
  · refine List.forall_mem_cons.mpr ⟨named, List.forall_mem_cons.mpr ⟨blank, ?_⟩⟩
    unfold pieces
    split
    next => exact List.forall_mem_singleton.mpr ⟨by simp, void⟩
    next =>
      split
      next =>
        refine List.forall_mem_cons.mpr ⟨⟨by simp, rfl⟩, List.forall_mem_append.mpr ⟨sum, ?_⟩⟩
        exact List.forall_mem_singleton.mpr ⟨by simp, rfl⟩
      next => exact sum
  · -- The kinds alone matter, and there are few ways to put an operand together.
    rcases operand with ⟨_ | r, _ | value, _ | _⟩
    all_goals simp [pieces, isVoid, sumPieces, TokenKind.runs]

variable {offset : Nat}

theorem isWritten_register {r : Register} (known : r.InTable) :
    Term.IsWritten (Token.place offset .word r.name.toList) (.register r) := by
  refine .register rfl ?_
  rw [Token.place, String.ofList_toList]
  exact Register.mem_table_of_inTable r known

theorem isWritten_literal {value : Binary64} (finite : value.isFinite = true) :
    Term.IsWritten (Token.place offset .word value.valueText.toList) (.literal value.unsigned) := by
  refine .literal rfl ?_ ?_
  all_goals rw [Token.place, String.ofList_toList]
  · exact Binary64.looksNumeric_valueText finite
  · exact Binary64.parse?_valueText finite

theorem isSum_lay {operand : Operand} (read : operand.IsRead) (some : operand.HasValue)
    (offset : Nat) :
    IsSum (Token.significant (Token.lay offset (sumPieces operand.register operand.literal)))
      ⟨operand.register, operand.literal.map Binary64.unsigned, false⟩ := by
  obtain ⟨r, value, inMemory⟩ := operand
  obtain ⟨known, finite, -⟩ := read
  cases r with
  | none =>
    cases value with
    | none => simp [HasValue] at some
    | some value => exact .literal (isWritten_literal (finite value rfl))
  | some r =>
    have name := known r rfl
    cases value with
    | none => exact .register (isWritten_register name)
    | some value =>
      exact .registerFirst (isWritten_register name) rfl (isWritten_literal (finite value rfl))

theorem lay_append (offset : Nat) (first second : Pieces) :
    Token.lay offset (first ++ second) = Token.lay offset first ++
      Token.lay (offset + byteLength (first.flatMap Prod.snd)) second := by
  induction first generalizing offset with
  | nil => rfl
  | cons piece first ih => simp [Token.lay, ih, Nat.add_assoc]

theorem isVoid_of_hasValue {operand : Operand} (some : operand.HasValue) :
    operand.isVoid = false := by
  rcases operand with ⟨_ | r, _ | value, inMemory⟩ <;> simp_all [HasValue, isVoid]

theorem isCell_lay {operand : Operand} (read : operand.IsRead) (some : operand.HasValue)
    (inMemory : operand.inMemory = true) (offset : Nat) :
    IsCell (Token.significant (Token.lay offset operand.pieces)) operand.unsigned := by
  obtain ⟨address, integral⟩ := read.indexes inMemory
  have sum := isSum_lay read some (offset + 1)
  have cell : operand.unsigned =
      { (⟨operand.register, operand.literal.map Binary64.unsigned, false⟩ : Operand) with
        inMemory := true } := by
    rw [unsigned, inMemory]
  rw [pieces, isVoid_of_hasValue some, inMemory, cell]
  simp only [Bool.false_eq_true, if_false, if_true, Token.lay, lay_append, Token.significant_cons,
    Token.significant_append]
  refine .brackets rfl rfl sum address fun value member => ?_
  obtain ⟨shown, among, rfl⟩ := Option.mem_map.mp member
  exact Binary64.hasFraction_unsigned (integral shown among)

theorem isWritten_lay {operand : Operand} (read : operand.IsRead) (some : operand.HasValue)
    (offset : Nat) :
    IsWritten (Token.significant (Token.lay offset operand.pieces)) operand.unsigned := by
  cases inMemory : operand.inMemory with
  | true => exact .cell (isCell_lay read some inMemory offset)
  | false =>
    have sum := isSum_lay read some offset
    rw [pieces, isVoid_of_hasValue some, unsigned, inMemory]
    exact .sum sum

theorem isPlaceWritten_lay {operand : Operand} (read : operand.IsRead) (place : operand.IsPlace)
    (offset : Nat) :
    IsPlaceWritten (Token.significant (Token.lay offset operand.pieces)) operand.unsigned := by
  obtain rfl | ⟨r, rfl⟩ | ⟨inMemory, some⟩ := place
  · exact .void String.ofList_toList
  · exact .register (isWritten_register (read.known r rfl))
  · exact .cell (isCell_lay read some inMemory offset)

end Operand

namespace Instruction

def unsigned : Instruction → Instruction
  | .push operand => .push operand.unsigned
  | .pop operand => .pop operand.unsigned
  | i => i

inductive IsRead : Instruction → Prop
  | push {operand : Operand} (read : operand.IsRead) (some : operand.HasValue) :
    IsRead (.push operand)
  | pop {operand : Operand} (read : operand.IsRead) (place : operand.IsPlace) :
    IsRead (.pop operand)

end Instruction

namespace Statement

theorem IsInstruction.kind_ne_colon {head token : Token} {rest : List Token} {kind : StatementKind}
    (lexeme : token.IsLexeme) (readable : IsInstruction (head :: token :: rest) kind) :
    token.kind ≠ .colon := by
  have operand {operand : Operand} (written : Operand.IsWritten (token :: rest) operand) :
      token.kind ≠ .colon := by
    rcases written with written | written <;> simp [written.head]
  cases readable with
  | branch _ word => simp [word]
  | push _ written => exact operand written
  | pop _ written =>
    cases written with
    | cell written => exact operand (.cell written)
    | register written => exact operand (.sum (.register written))
    | void text => simp [lexeme.kind_of_void text]

theorem parseLine_of_isInstruction {head : Token} {operands : List Token} {kind : StatementKind}
    (lexemes : ∀ token ∈ operands, token.IsLexeme)
    (readable : IsInstruction (head :: operands) kind) :
    parseLine (head :: operands) = ⟨[⟨head.cover operands, kind⟩], []⟩ := by
  have unlabelled : splitLabel (head :: operands) = (none, head :: operands) := by
    obtain ⟨name, colon, rest, split, label, -⟩ | ⟨-, none⟩ := splitLabel_cases (head :: operands)
    · cases split
      exact absurd label.2.1 (readable.kind_ne_colon (lexemes colon List.mem_cons_self))
    · exact none
  rw [parseLine, unlabelled]
  simp [parseRest, parseOperation_eq_ok_iff.mpr readable]

end Statement

theorem parse_of_oneLine {source : String} (short : OneLine source) :
    parse source = Statement.parseLine (Token.significant (Token.scan source)) := by
  have one : Token.lines (Token.scan source) = [Token.scan source] :=
    Token.lines_of_one fun token => Token.kind_ne_newline short
  simp [parse, one]

namespace Opcode

theorem word_mnemonic (op : Opcode) :
    op.mnemonic.toList ≠ [] ∧ TokenKind.Holds .word op.mnemonic.toList := by
  have each : ∀ op ∈ all, op.mnemonic.toList ≠ [] ∧
      op.mnemonic.toList.all TokenKind.isWordChar = true := by decide +kernel
  obtain ⟨some, word⟩ := each op (mem_all op)
  exact ⟨some, TokenKind.holds_word_of_all word⟩

theorem names_mnemonic (op : Opcode) : (Token.place 0 .word op.mnemonic.toList).Names op := by
  have each : ∀ op ∈ all, op.mnemonic.map Char.toLower = op.mnemonic := by decide +kernel
  refine ⟨rfl, ?_⟩
  rw [Token.place, String.ofList_toList]
  exact each op (mem_all op)

end Opcode

namespace Instruction

theorem exists_parse (op : Opcode) {operand : Operand} {kind : StatementKind}
    (read : operand.IsRead)
    (readable : ∀ offset, Statement.IsInstruction (Token.place 0 .word op.mnemonic.toList ::
      Token.significant (Token.lay offset operand.pieces)) kind) :
    ∃ span, parse (op.mnemonic ++ " " ++ operand.text) = ⟨[⟨span, kind⟩], []⟩ := by
  have short : OneLine (op.mnemonic ++ " " ++ operand.text) :=
    oneLine_append.mpr ⟨oneLine_append.mpr ⟨op.printable_mnemonic.oneLine, by decide +kernel⟩,
      operand.printable_text.oneLine⟩
  let pieces : Pieces := (.word, op.mnemonic.toList) :: (.whitespace, [' ']) :: operand.pieces
  have chars : (op.mnemonic ++ " " ++ operand.text).toList = pieces.flatMap Prod.snd := by
    simp [pieces, Operand.flatMap_pieces]
  have scanned : Token.scanFrom 0 (pieces.flatMap Prod.snd) = Token.lay 0 pieces :=
    Token.scanFrom_pieces (Operand.separate_pieces read op.word_mnemonic) 0
  have lexemes : ∀ token ∈ Token.lay 0 pieces, token.IsLexeme := by
    rw [← scanned]
    exact fun token => Token.isLexeme_of_mem_scanFrom
  rw [parse_of_oneLine short, Token.scan, chars, scanned]
  refine ⟨_, Statement.parseLine_of_isInstruction (fun token member => ?_) (readable _)⟩
  exact lexemes token (List.mem_cons_of_mem _ (List.mem_of_mem_filter member))

theorem exists_parse_text {i : Instruction} (read : i.IsRead) :
    ∃ span, parse i.text = ⟨[⟨span, .instruction i.unsigned⟩], []⟩ := by
  cases read with
  | push read some =>
    exact exists_parse .push read fun offset =>
      .push (Opcode.names_mnemonic .push) (Operand.isWritten_lay read some offset)
  | pop read place =>
    exact exists_parse .pop read fun offset =>
      .pop (Opcode.names_mnemonic .pop) (Operand.isPlaceWritten_lay read place offset)

end Instruction

end StackMachine
