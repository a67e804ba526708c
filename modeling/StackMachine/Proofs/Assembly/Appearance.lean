import Mathlib.Data.List.Forall2
import Mathlib.Data.List.TakeWhile
import StackMachine.Proofs.Assembly.Scanning

set_option autoImplicit false

namespace StackMachine

namespace Token

def look (tokens : List Token) : List (List (TokenKind × String) × Bool) :=
  (lines (significant tokens)).map fun line =>
    (line.map fun token => (token.kind, token.text), touch line)

theorem look_shift (distance : Nat) (tokens : List Token) :
    look (tokens.map (shift distance)) = look tokens := by
  simp only [look, significant_shift, lines_shift, List.map_map]
  refine List.map_congr_left fun line _ => ?_
  simp only [Function.comp_apply, touch_shift, List.map_map]
  rfl

theorem look_append_newline {newline : Token} (ends : newline.kind = .newline)
    (above below : List Token) : look (above ++ newline :: below) = look above ++ look below := by
  have kept : significant (newline :: below) = newline :: significant below := by
    simp [significant_cons, ends, TokenKind.isTrivia]
  simp only [look, significant_append, kept, lines_append_newline ends, List.map_append]

theorem look_congr {left right : List Token} (same : significant left = significant right) :
    look left = look right := by
  rw [look, look, same]

end Token

def appearance (text : List Char) : List (List (TokenKind × String) × Bool) :=
  Token.look (Token.scanFrom 0 text)

theorem look_scanFrom (offset : Nat) (text : List Char) :
    Token.look (Token.scanFrom offset text) = appearance text := by
  rw [appearance, ← Nat.zero_add offset, Token.scanFrom_add, Token.look_shift]

theorem appearance_append_newline (above below : List Char) :
    appearance (above ++ '\n' :: below) = appearance above ++ appearance below := by
  rw [appearance, Token.scanFrom_append_newline, Token.look_append_newline rfl, look_scanFrom,
    look_scanFrom]

/-- Characters that only add trivia to the text before them. -/
structure Vanishes (text : List Char) : Prop where
  alone : ∀ offset, Token.significant (Token.scanFrom offset text) = []
  behindTrivia : ∀ kind : TokenKind, kind.isTrivia = true → ∀ offset,
    Token.significant (Token.scanFrom offset (text.dropWhile kind.continuesOver)) = []
  behindOthers : ∀ kind : TokenKind, kind.isTrivia = false →
    text.takeWhile kind.continuesOver = [] ∧ text.dropWhile kind.continuesOver = text

theorem takeWhile_append_of_dropWhile_ne_nil {α : Type} {p : α → Bool} {left : List α}
    (stops : left.dropWhile p ≠ []) (right : List α) :
    (left ++ right).takeWhile p = left.takeWhile p ∧
      (left ++ right).dropWhile p = left.dropWhile p ++ right := by
  have shorter : (left.takeWhile p).length ≠ left.length := by
    intro whole
    have parts := congrArg List.length (List.takeWhile_append_dropWhile (p := p) (l := left))
    rw [List.length_append, whole] at parts
    exact stops (List.eq_nil_of_length_eq_zero (by omega))
  rw [List.takeWhile_append, if_neg shorter, List.dropWhile_append, if_neg (by simpa using stops)]
  exact ⟨rfl, rfl⟩

theorem significant_append_of_vanishes {tail : List Char} (vanishes : Vanishes tail)
    (offset : Nat) (text : List Char) :
    Token.significant (Token.scanFrom offset (text ++ tail)) =
      Token.significant (Token.scanFrom offset text) := by
  fun_induction Token.scanFrom offset text with
  | case1 offset => exact vanishes.alone offset
  | case2 offset first rest kind chars stop ih =>
    rw [List.cons_append, Token.scanFrom]
    by_cases ends : rest.dropWhile kind.continuesOver = []
    · -- The last token of the text. What follows either joins it or stands alone.
      have all := List.dropWhile_eq_nil_iff.mp ends
      have whole : chars = first :: rest := by
        rw [← List.takeWhile_append_dropWhile (p := kind.continuesOver) (l := rest), ends]
        simp [chars]
      rw [List.takeWhile_append_of_pos all, List.dropWhile_append_of_pos all, ends]
      have last (stop : Nat) : Token.significant (Token.scanFrom stop []) = [] := by
        simp [Token.scanFrom, Token.significant]
      cases trivia : kind.isTrivia with
      | true =>
        have joined : (TokenKind.ofFirst first).isTrivia = true := trivia
        simp only [Token.significant_cons, trivia, joined, if_true, last]
        exact vanishes.behindTrivia kind trivia _
      | false =>
        have shown : (TokenKind.ofFirst first).isTrivia = false := trivia
        obtain ⟨none, apart⟩ := vanishes.behindOthers kind trivia
        rw [none, apart, List.append_nil, ← whole]
        simp only [Token.significant_cons, trivia, shown, Bool.false_eq_true, if_false, last,
          vanishes.alone]
        rfl
    · obtain ⟨taken, left⟩ := takeWhile_append_of_dropWhile_ne_nil ends tail
      rw [taken, left, Token.significant_cons, Token.significant_cons, ih]

theorem TokenKind.ofFirst_of_isBlank {c : Char} (blank : isBlank c = true) :
    ofFirst c = .whitespace ∧ comment.continuesOver c = true ∧
      ∀ kind : TokenKind, kind.isTrivia = false → kind.continuesOver c = false := by
  simp only [isBlank, Bool.or_eq_true, beq_iff_eq] at blank
  rcases blank with ((rfl | rfl) | rfl) | rfl
  all_goals
    refine ⟨by decide, by decide, fun kind => ?_⟩
    cases kind <;> decide

theorem significant_of_continues {first : Char} {rest : List Char} (offset : Nat)
    (trivia : (TokenKind.ofFirst first).isTrivia = true)
    (continues : ∀ c ∈ rest, (TokenKind.ofFirst first).continuesOver c = true) :
    Token.significant (Token.scanFrom offset (first :: rest)) = [] := by
  rw [Token.scanFrom, List.dropWhile_eq_nil_iff.mpr continues, Token.scanFrom]
  simp [Token.significant, trivia]

theorem vanishes_blanks {blanks : List Char} (blank : ∀ c ∈ blanks, TokenKind.isBlank c = true) :
    Vanishes blanks := by
  have kinds {c : Char} (member : c ∈ blanks) := TokenKind.ofFirst_of_isBlank (blank c member)
  refine ⟨fun offset => ?_, fun kind trivia offset => ?_, fun kind other => ?_⟩
  · cases blanks with
    | nil => simp [Token.scanFrom, Token.significant]
    | cons first rest =>
      have kind := (kinds List.mem_cons_self).1
      apply significant_of_continues
      · rw [kind]
        rfl
      · rw [kind]
        exact fun c member => blank c (List.mem_cons_of_mem first member)
  · have all : blanks.dropWhile kind.continuesOver = [] := by
      rw [List.dropWhile_eq_nil_iff]
      intro c member
      cases kind with
      | whitespace => exact blank c member
      | comment => exact (kinds member).2.1
      | _ => cases trivia
    simp [all, Token.scanFrom, Token.significant]
  · cases blanks with
    | nil => exact ⟨rfl, rfl⟩
    | cons first rest =>
      have stops := (kinds List.mem_cons_self).2.2 kind other
      simp [stops]

theorem vanishes_comment {comment : List Char} (single : '\n' ∉ comment) :
    Vanishes (';' :: comment) := by
  have first : TokenKind.ofFirst ';' = .comment := by decide
  have continues : ∀ c ∈ comment, TokenKind.comment.continuesOver c = true := by
    intro c member
    have other : c ≠ '\n' := fun same => single (same ▸ member)
    simpa [TokenKind.continuesOver] using other
  have alone (offset : Nat) :
      Token.significant (Token.scanFrom offset (';' :: comment)) = [] := by
    apply significant_of_continues
    · rw [first]
      rfl
    · rwa [first]
  refine ⟨alone, fun kind trivia offset => ?_, fun kind other => ?_⟩
  · cases kind with
    | whitespace => exact alone offset
    | comment =>
      have all : (';' :: comment).dropWhile TokenKind.comment.continuesOver = [] := by
        rw [List.dropWhile_eq_nil_iff, List.forall_mem_cons]
        exact ⟨by decide, continues⟩
      simp [all, Token.scanFrom, Token.significant]
    | _ => cases trivia
  · have stops : kind.continuesOver ';' = false := by
      cases kind with
      | comment => cases other
      | _ => decide
    simp [stops]

theorem appearance_append {tail : List Char} (vanishes : Vanishes tail) (text : List Char) :
    appearance (text ++ tail) = appearance text :=
  Token.look_congr (significant_append_of_vanishes vanishes 0 text)

theorem significant_dropWhile_isBlank (offset : Nat) (text : List Char) :
    Token.significant (Token.scanFrom offset text) =
      Token.significant (Token.scanFrom
        (offset + byteLength (text.takeWhile TokenKind.isBlank))
        (text.dropWhile TokenKind.isBlank)) := by
  cases text with
  | nil => rfl
  | cons first rest =>
    by_cases blank : TokenKind.isBlank first = true
    · have kind := (TokenKind.ofFirst_of_isBlank blank).1
      rw [Token.scanFrom, kind, Token.significant_cons]
      simp only [TokenKind.isTrivia, if_true, List.takeWhile_cons_of_pos blank,
        List.dropWhile_cons_of_pos blank]
      rfl
    · simp [blank, byteLength]

theorem appearance_append_blanks {blanks : List Char}
    (blank : ∀ c ∈ blanks, TokenKind.isBlank c = true) (text : List Char) :
    appearance (blanks ++ text) = appearance text := by
  have same : Token.significant (Token.scanFrom 0 (blanks ++ text)) =
      Token.significant (Token.scanFrom (byteLength blanks) text) := by
    rw [significant_dropWhile_isBlank, List.takeWhile_append_of_pos blank,
      List.dropWhile_append_of_pos blank, byteLength_append, ← Nat.add_assoc, Nat.zero_add,
      ← significant_dropWhile_isBlank]
  rw [appearance, Token.look_congr same, look_scanFrom]

def withCarriageReturns (text : List Char) : List Char :=
  text.flatMap fun c => if c = '\n' then ['\r', '\n'] else [c]

theorem appearance_withCarriageReturns (text : List Char) :
    appearance (withCarriageReturns text) = appearance text := by
  -- The line so far is generalized: a carriage return is a blank at its end.
  have behind (line text : List Char) :
      appearance (line ++ withCarriageReturns text) = appearance (line ++ text) := by
    induction text generalizing line with
    | nil => rfl
    | cons c text ih =>
      by_cases ends : c = '\n'
      · subst ends
        have cut : line ++ withCarriageReturns ('\n' :: text) =
            (line ++ ['\r']) ++ '\n' :: withCarriageReturns text := by
          simp [withCarriageReturns]
        have blank : ∀ c ∈ ['\r'], TokenKind.isBlank c = true := by simp [TokenKind.isBlank]
        have below := ih []
        simp only [List.nil_append] at below
        rw [cut, appearance_append_newline, appearance_append_newline,
          appearance_append (vanishes_blanks blank), below]
      · have step := ih (line ++ [c])
        simpa [withCarriageReturns, ends] using step
  exact behind [] text

/-- Lines that differ in indentation, blanks at the end and comments alone. -/
inductive Retouched : String → String → Prop
  | refl (line : String) : Retouched line line
  | symm {first second : String} (other : Retouched first second) : Retouched second first
  | trans {first second third : String} (left : Retouched first second)
    (right : Retouched second third) : Retouched first third
  | indent {blanks line : String} (blank : ∀ c ∈ blanks.toList, TokenKind.isBlank c = true) :
    Retouched line (blanks ++ line)
  | trail {blanks line : String} (blank : ∀ c ∈ blanks.toList, TokenKind.isBlank c = true) :
    Retouched line (line ++ blanks)
  | comment {line comment : String} (single : '\n' ∉ comment.toList) :
    Retouched line (line ++ ";" ++ comment)

theorem Retouched.appearance_eq {left right : String} (retouched : Retouched left right) :
    appearance left.toList = appearance right.toList := by
  induction retouched with
  | refl => rfl
  | symm _ ih => exact ih.symm
  | trans _ _ first second => exact first.trans second
  | indent blank => rw [String.toList_append, appearance_append_blanks blank]
  | trail blank => rw [String.toList_append, appearance_append (vanishes_blanks blank)]
  | @comment line comment single =>
    have chars : (line ++ ";" ++ comment).toList = line.toList ++ ';' :: comment.toList := by simp
    rw [chars, appearance_append (vanishes_comment single)]

theorem appearance_intercalate {left right : List String}
    (lines : List.Forall₂ Retouched left right) :
    appearance ("\n".intercalate left).toList = appearance ("\n".intercalate right).toList := by
  have below (line rest : String) : appearance (line ++ "\n" ++ rest).toList =
      appearance line.toList ++ appearance rest.toList := by
    have chars : (line ++ "\n" ++ rest).toList = line.toList ++ '\n' :: rest.toList := by simp
    rw [chars, appearance_append_newline]
  induction lines with
  | nil => rfl
  | cons line others ih =>
    cases others with
    | nil => simpa using line.appearance_eq
    | cons _ _ => simp only [String.intercalate_cons_cons, below, ih, line.appearance_eq]

end StackMachine
