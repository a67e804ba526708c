import StackMachine.Assembly.Token

set_option autoImplicit false

namespace StackMachine

@[simp] theorem byteLength_append (left right : List Char) :
    byteLength (left ++ right) = byteLength left + byteLength right := by
  induction left with
  | nil => simp [byteLength]
  | cons c left ih => simp [byteLength, ih, Nat.add_assoc]

theorem byteLength_toList (text : String) : byteLength text.toList = text.utf8ByteSize := by
  have each (chars : List Char) : (String.ofList chars).utf8ByteSize = byteLength chars := by
    induction chars with
    | nil => simp [byteLength]
    | cons c chars ih => simp [byteLength, String.ofList_cons, ih]
  rw [← each, String.ofList_toList]

theorem utf8ByteSize_le (text : String) : text.utf8ByteSize ≤ 4 * text.length := by
  have each (chars : List Char) : byteLength chars ≤ 4 * chars.length := by
    induction chars with
    | nil => exact Nat.le_refl 0
    | cons c chars ih =>
      have := c.utf8Size_le_four
      simp only [byteLength, List.length_cons]
      omega
  rw [← byteLength_toList, ← String.length_toList]
  exact each text.toList

def Span.shift (distance : Nat) (span : Span) : Span :=
  ⟨span.start + distance, span.stop + distance⟩

namespace TokenKind

theorem continuesOver_newline (kind : TokenKind) : kind.continuesOver '\n' = false := by
  cases kind <;> decide

theorem takeWhile_append_newline (kind : TokenKind) (line below : List Char) :
    (line ++ '\n' :: below).takeWhile kind.continuesOver =
      line.takeWhile kind.continuesOver := by
  induction line with
  | nil => simp [continuesOver_newline]
  | cons c line ih => simp [List.takeWhile_cons, ih]

theorem dropWhile_append_newline (kind : TokenKind) (line below : List Char) :
    (line ++ '\n' :: below).dropWhile kind.continuesOver =
      line.dropWhile kind.continuesOver ++ '\n' :: below := by
  induction line with
  | nil => simp [continuesOver_newline]
  | cons c line ih =>
    by_cases continues : kind.continuesOver c = true <;> simp [continues, ih]

end TokenKind

namespace Token

def shift (distance : Nat) (token : Token) : Token :=
  { token with span := token.span.shift distance }

theorem scanFrom_add (offset distance : Nat) (chars : List Char) :
    scanFrom (offset + distance) chars = (scanFrom offset chars).map (shift distance) := by
  fun_induction scanFrom offset chars with
  | case1 offset => simp [scanFrom]
  | case2 offset first rest kind chars stop ih =>
    have moved : offset + distance + byteLength chars = stop + distance := by omega
    simp only [scanFrom, List.map_cons]
    rw [moved, ih]
    rfl

def newlineAt (offset : Nat) : Token := ⟨.newline, ⟨offset, offset + 1⟩, "\n"⟩

theorem scanFrom_newline (offset : Nat) (below : List Char) :
    scanFrom offset ('\n' :: below) = newlineAt offset :: scanFrom (offset + 1) below := by
  have alone (chars : List Char) : chars.takeWhile (TokenKind.newline.continuesOver) = [] ∧
      chars.dropWhile (TokenKind.newline.continuesOver) = chars := by
    cases chars <;> exact ⟨rfl, rfl⟩
  have first : TokenKind.ofFirst '\n' = .newline := by decide
  rw [scanFrom, first, (alone below).1, (alone below).2]
  rfl

theorem scanFrom_append_newline (offset : Nat) (above below : List Char) :
    scanFrom offset (above ++ '\n' :: below) = scanFrom offset above ++
      newlineAt (offset + byteLength above) :: scanFrom (offset + byteLength above + 1) below := by
  fun_induction scanFrom offset above with
  | case1 offset => exact scanFrom_newline offset below
  | case2 offset first rest kind chars stop ih =>
    have split : byteLength (first :: rest) =
        byteLength chars + byteLength (rest.dropWhile kind.continuesOver) := by
      rw [← byteLength_append]
      simp [chars]
    rw [List.cons_append, scanFrom, TokenKind.takeWhile_append_newline,
      TokenKind.dropWhile_append_newline, split, ← Nat.add_assoc, List.cons_append]
    exact congrArg _ ih

def IsLexeme (token : Token) : Prop :=
  ∃ first rest, token.text = String.ofList (first :: rest) ∧ token.kind = TokenKind.ofFirst first

theorem isLexeme_of_mem_scanFrom {offset : Nat} {chars : List Char} {token : Token}
    (member : token ∈ scanFrom offset chars) : token.IsLexeme := by
  fun_induction scanFrom offset chars with
  | case1 => cases member
  | case2 offset first rest kind chars stop ih =>
    cases member with
    | head => exact ⟨first, _, rfl, rfl⟩
    | tail _ later => exact ih later

theorem lines_eq_splitOnP (tokens : List Token) :
    lines tokens = tokens.splitOnP (·.kind = .newline) := by
  induction tokens with
  | nil => rfl
  | cons token rest ih =>
    rw [List.splitOnP_cons_eq_if_modifyHead, lines, ih]
    by_cases ends : token.kind = .newline
    · simp [ends]
    · simp only [ends, decide_false, Bool.false_eq_true, if_false]
      cases split : rest.splitOnP (·.kind = .newline) with
      | nil => exact absurd split (List.splitOnP_ne_nil _ rest)
      | cons line others => rfl

theorem lines_ne_nil (tokens : List Token) : lines tokens ≠ [] := by
  rw [lines_eq_splitOnP]
  exact List.splitOnP_ne_nil _ tokens

theorem mem_of_mem_lines {tokens line : List Token} {token : Token}
    (inside : line ∈ lines tokens) (member : token ∈ line) : token ∈ tokens := by
  induction tokens generalizing line with
  | nil => simp_all [lines]
  | cons first rest ih =>
    rw [lines] at inside
    split at inside
    next =>
      obtain rfl | later := List.mem_cons.mp inside
      · cases member
      · exact List.mem_cons_of_mem first (ih later member)
    next =>
      split at inside
      next => simp_all
      next head others split =>
        obtain rfl | later := List.mem_cons.mp inside
        · obtain rfl | further := List.mem_cons.mp member
          · exact List.mem_cons_self
          · exact List.mem_cons_of_mem first (ih (split ▸ List.mem_cons_self) further)
        · exact List.mem_cons_of_mem first (ih (split ▸ List.mem_cons_of_mem head later) member)

theorem significant_cons (token : Token) (rest : List Token) :
    significant (token :: rest) =
      if token.kind.isTrivia then significant rest else token :: significant rest := by
  cases trivia : token.kind.isTrivia <;> simp [significant, trivia]

@[simp] theorem significant_append (left right : List Token) :
    significant (left ++ right) = significant left ++ significant right :=
  List.filter_append left right

theorem significant_shift (distance : Nat) (tokens : List Token) :
    significant (tokens.map (shift distance)) = (significant tokens).map (shift distance) := by
  simp only [significant, List.filter_map]
  rfl

theorem significant_lines (tokens : List Token) :
    (lines tokens).map significant = lines (significant tokens) := by
  induction tokens with
  | nil => rfl
  | cons token rest ih =>
    rw [lines, significant_cons]
    by_cases ends : token.kind = .newline
    · simp only [ends, if_true, TokenKind.isTrivia, Bool.false_eq_true, if_false, lines, ← ih]
      rfl
    · cases split : lines rest with
      | nil => exact absurd split (lines_ne_nil rest)
      | cons line others =>
        rw [split] at ih
        cases trivia : token.kind.isTrivia
        · simp [ends, lines, ← ih, significant_cons, trivia]
        · simp [ends, ← ih, significant_cons, trivia]

theorem lines_shift (distance : Nat) (tokens : List Token) :
    lines (tokens.map (shift distance)) = (lines tokens).map (List.map (shift distance)) := by
  induction tokens with
  | nil => rfl
  | cons token rest ih =>
    have kind : (token.shift distance).kind = token.kind := rfl
    rw [List.map_cons, lines, lines, kind, ih]
    split
    next => rfl
    next => cases lines rest <;> rfl

def touch : List Token → Bool
  | first :: second :: _ => decide (second.span.start = first.span.stop)
  | _ => false

theorem touch_shift (distance : Nat) (line : List Token) :
    touch (line.map (shift distance)) = touch line := by
  obtain _ | ⟨first, _ | ⟨second, rest⟩⟩ := line
  · rfl
  · rfl
  · simp [touch, shift, Span.shift]

theorem lines_append_newline {newline : Token} (ends : newline.kind = .newline)
    (above below : List Token) :
    lines (above ++ newline :: below) = lines above ++ lines below := by
  simp only [lines_eq_splitOnP]
  exact List.splitOnP_append_cons above below (by simpa using ends)

end Token

end StackMachine
