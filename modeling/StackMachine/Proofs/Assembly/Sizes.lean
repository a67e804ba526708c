import Mathlib.Algebra.Order.BigOperators.Group.List
import Mathlib.Algebra.Order.Group.Nat
import StackMachine.Proofs.Assembly.Parsing
import StackMachine.Proofs.Assembly.SinglePass

set_option autoImplicit false

namespace StackMachine

variable {version : Version}

theorem length_le_byteLength (chars : List Char) : chars.length ≤ byteLength chars := by
  induction chars with
  | nil => exact Nat.le_refl 0
  | cons c chars ih =>
    have wide := c.utf8Size_pos
    simp only [List.length_cons, byteLength]
    omega

namespace Token

/-- How many bytes a token of this text takes at least. No word is cut short, but what stands for
other tokens may be. -/
def weight (token : Token) : Nat := if token.kind = .word then max 1 token.text.length else 1

def totalWeight (tokens : List Token) : Nat := (tokens.map weight).sum

@[simp] theorem totalWeight_nil : totalWeight [] = 0 := rfl

@[simp] theorem totalWeight_cons (token : Token) (tokens : List Token) :
    totalWeight (token :: tokens) = token.weight + totalWeight tokens := by
  simp [totalWeight]

@[simp] theorem totalWeight_append (left right : List Token) :
    totalWeight (left ++ right) = totalWeight left + totalWeight right := by
  simp [totalWeight]

theorem totalWeight_le_of_sublist {some all : List Token} (sublist : some.Sublist all) :
    totalWeight some ≤ totalWeight all :=
  (sublist.map _).sum_le_sum fun _ _ => Nat.zero_le _

theorem one_le_weight (token : Token) : 1 ≤ token.weight := by
  unfold weight
  split
  next => exact Nat.le_max_left 1 _
  next => exact Nat.le_refl 1

theorem length_le_totalWeight (tokens : List Token) : tokens.length ≤ totalWeight tokens := by
  induction tokens with
  | nil => exact Nat.le_refl 0
  | cons token tokens ih =>
    have here := token.one_le_weight
    simp only [List.length_cons, totalWeight_cons]
    omega

theorem Names.length_le {token : Token} {op : Opcode} (named : token.Names op) :
    op.mnemonic.length ≤ token.weight := by
  rw [weight, if_pos named.1, ← named.2, String.length_map]
  exact Nat.le_max_right 1 _

end Token

namespace Operand

theorem size_le (operand : Operand) : operand.size ≤ 9 := by
  unfold size
  split <;> split <;> decide

theorem IsWritten.ne_nil {operand : Operand} : ¬IsWritten [] operand := by
  rintro (written | written)
  · exact absurd written IsSum.ne_nil
  · exact absurd written.length (by decide)

end Operand

namespace Statement

variable {tokens : List Token} {kind : StatementKind} {parsed : Parsed}

theorem size_push_le (version : Version) (operand : Operand) :
    (Instruction.push operand).size version ≤ 10 := by
  have small := operand.size_le
  cases version <;> simp only [Instruction.size] <;> omega

theorem IsInstruction.size_le (readable : IsInstruction tokens kind) (span : Span) :
    size version ⟨span, kind⟩ ≤ 2 * Token.totalWeight tokens := by
  cases readable with
  | @plain head op named =>
    have wide := head.one_le_weight
    simp only [size, Instruction.size, Token.totalWeight_cons]
    omega
  | @branch head target op named word =>
    have two : 2 ≤ (Opcode.branch op).mnemonic.length := by
      rcases op with _ | _ | condition
      · decide
      · decide
      · cases condition <;> decide
    have wide := named.length_le
    have label := target.one_le_weight
    simp only [size, Instruction.size, Token.totalWeight_cons]
    omega
  | @push head operands operand named written =>
    have four : Opcode.push.mnemonic.length = 4 := by decide
    have wide := named.length_le
    have some : operands.length ≠ 0 := by
      intro none
      rw [List.length_eq_zero_iff.mp none] at written
      exact written.ne_nil
    have long := Token.length_le_totalWeight operands
    have small := size_push_le version operand
    simp only [size, Token.totalWeight_cons]
    omega
  | @pop head operands operand named written =>
    have three : Opcode.pop.mnemonic.length = 3 := by decide
    have wide := named.length_le
    have long := Token.length_le_totalWeight operands
    simp only [size, Instruction.size, Token.totalWeight_cons]
    cases written with
    | cell written =>
      -- The brackets alone make up for the size of what stands between them.
      have brackets := written.length
      have small := operand.size_le
      omega
    | @register _ r _ =>
      have one : (⟨some r, none, false⟩ : Operand).size = 1 := rfl
      omega
    | void =>
      have none : Operand.void.size = 0 := rfl
      omega

theorem extent_parseRest_le (version : Version) (tokens : List Token) :
    extent version (parseRest tokens).statements ≤ 2 * Token.totalWeight tokens := by
  cases tokens with
  | nil => exact Nat.zero_le _
  | cons head operands =>
    cases parsed : parseOperation head operands with
    | ok kind =>
      simp only [parseRest, parsed, extent_cons, extent_nil]
      exact (parseOperation_eq_ok_iff.mp parsed).size_le _
    | error fault =>
      simp only [parseRest, parsed, extent_nil]
      exact Nat.zero_le _

theorem extent_parseLine_le (version : Version) (tokens : List Token) :
    extent version (parseLine tokens).statements ≤ 2 * Token.totalWeight tokens := by
  obtain ⟨name, colon, rest, rfl, -, split⟩ | ⟨-, split⟩ := splitLabel_cases tokens
  · have behind := extent_parseRest_le version rest
    simp only [parseLine, split, Option.map_some, Option.toList_some, List.singleton_append,
      extent_cons, size, ofLabel, Token.totalWeight_cons]
    omega
  · simpa [parseLine, split] using extent_parseRest_le version tokens

theorem extent_flatMap_le (version : Version) (lines : List (List Token)) :
    extent version (lines.flatMap fun line => (parseLine line).statements) ≤
      2 * Token.totalWeight lines.flatten := by
  induction lines with
  | nil => exact Nat.zero_le _
  | cons line lines ih =>
    have first := extent_parseLine_le version line
    simp only [List.flatMap_cons, List.flatten_cons, extent_append, Token.totalWeight_append]
    omega

theorem extent_parseTokens_le (version : Version) (tokens : List Token) :
    extent version (parseTokens tokens).statements ≤ 2 * Token.totalWeight tokens := by
  have lines := extent_flatMap_le version (Token.lines tokens)
  have kept := Token.totalWeight_le_of_sublist (Token.flatten_lines_sublist tokens)
  rw [← List.flatMap_map (f := parseLine)] at lines
  refine Nat.le_trans ?_ (Nat.mul_le_mul_left 2 kept)
  exact lines

end Statement

namespace Token

theorem sum_byteLength_scanFrom (offset : Nat) (chars : List Char) :
    ((scanFrom offset chars).map fun token => byteLength token.text.toList).sum =
      byteLength chars := by
  fun_induction scanFrom offset chars with
  | case1 => rfl
  | case2 offset first rest kind chars stop ih =>
    have split : first :: rest = chars ++ rest.dropWhile kind.continuesOver := by simp [chars]
    rw [List.map_cons, List.sum_cons, String.toList_ofList, ih, split, byteLength_append]

theorem weight_filled_le {source : String} {token : Token} {bare : BareToken}
    (member : token ∈ scan source) (narrows : token.Narrows bare) :
    (bare.filled source).weight ≤ byteLength token.text.toList := by
  obtain ⟨some, _, _, _, start, stop⟩ := shows_of_mem_scanFrom member
  have one : 1 ≤ byteLength token.text.toList :=
    (List.length_pos_iff.mpr some).trans_le (length_le_byteLength _)
  unfold weight
  split
  next word =>
    refine Nat.max_le.mpr ⟨one, ?_⟩
    cases shown : bare.text? source with
    | none => simp [BareToken.filled, shown]
    | some text =>
      have named : token.kind ≠ .garbage := by
        rw [← narrows.kind]
        simp [show bare.kind = .word from word]
      obtain ⟨_, _, _, bareStart, bareStop⟩ := Span.slice?_eq_some_iff.mp shown
      have narrow := narrows.narrower named
      have short := length_le_byteLength text.toList
      simp only [BareToken.filled, shown, Option.getD_some]
      rw [String.length_toList] at short
      omega
  next => exact one

end Token

/-- Tokens take no more of the source where they wrap than where they do not. -/
theorem BareToken.totalWeight_filled_le {source : String} {tokens : List BareToken}
    (lexed : lex? source = some tokens) :
    Token.totalWeight (tokens.map (filled source)) ≤ source.utf8ByteSize := by
  have both := (List.forall₂_and_left _ _).mpr ⟨fun _ member => member, narrows_of_lex? lexed⟩
  have each : List.Forall₂ (· ≤ ·) ((tokens.map (filled source)).map Token.weight)
      ((Token.scan source).map fun token => byteLength token.text.toList) := by
    rw [List.map_map, List.forall₂_map_left_iff, List.forall₂_map_right_iff]
    exact both.flip.imp fun _ _ pair => Token.weight_filled_le pair.1 pair.2
  rw [← byteLength_toList, ← Token.sum_byteLength_scanFrom 0]
  exact each.sum_le_sum

theorem length_assemble?_le {pipeline : Pipeline} {source : String} {assembly : Assembly}
    (assembled : assemble? version pipeline source = some (.ok assembly)) :
    assembly.program.length ≤ 2 * source.utf8ByteSize := by
  obtain ⟨parsed, found, built⟩ := Option.map_eq_some_iff.mp assembled
  have twoPass := Parsed.assembled_twoPass_of_ok built
  obtain ⟨-, -, rfl⟩ := Parsed.assembled_eq_ok_iff.mp twoPass
  obtain ⟨tokens, lexed, same⟩ := exists_parseTokens found
  have short := Statement.extent_parseTokens_le version
    (Token.significant (tokens.map (BareToken.filled source)))
  have kept : Token.totalWeight (Token.significant (tokens.map (BareToken.filled source))) ≤
      Token.totalWeight (tokens.map (BareToken.filled source)) :=
    Token.totalWeight_le_of_sublist List.filter_sublist
  have wide := BareToken.totalWeight_filled_le lexed
  rw [← same, ← length_encode (collectLabels version parsed.statements).labels] at short
  simp only [Program.length, Emitted.assembly, Emitted.ofStatements, List.size_toArray]
  omega

end StackMachine
