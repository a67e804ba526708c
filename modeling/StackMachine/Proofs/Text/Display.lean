import StackMachine.Text.Display

set_option autoImplicit false

namespace StackMachine

theorem digitCount_eq (n : Nat) : digitCount n = (Nat.toDigits 10 n).length := by
  fun_induction digitCount n with
  | case1 n small => rw [Nat.toDigits_of_lt_base small, List.length_singleton]
  | case2 n large ih =>
    rw [ih, Nat.toDigits_of_base_le (by decide) (Nat.not_lt.mp large), List.length_append,
      List.length_singleton]

theorem length_natText (n : Nat) : (toString n).length = digitCount n := by
  rw [digitCount_eq, Nat.toString_eq_ofList_toDigits, String.length_ofList]

theorem digitCount_mono {less more : Nat} (le : less ≤ more) :
    digitCount less ≤ digitCount more := by
  have some : 0 < (Nat.toDigits 10 more).length := Nat.length_toDigits_pos
  have most := (Nat.length_toDigits_le_iff (by decide) some).mp (Nat.le_refl _)
  rw [digitCount_eq, digitCount_eq, Nat.length_toDigits_le_iff (by decide) some]
  exact Nat.lt_of_le_of_lt le most

theorem digitCount_le_columnWidth {number count : Nat} (below : number < count) :
    digitCount number ≤ columnWidth count :=
  digitCount_mono (Nat.le_sub_one_of_lt below)

theorem eq_or_isDigit_of_mem_padLeft {fill c : Char} {width n : Nat}
    (member : c ∈ (padLeft fill width (toString n)).toList) : c = fill ∨ c.isDigit = true := by
  simp only [padLeft, String.toList_append, String.toList_ofList, List.mem_append,
    List.mem_replicate, Nat.toString_eq_ofList_toDigits] at member
  obtain ⟨-, same⟩ | digit := member
  · exact .inl same
  · exact .inr (Nat.isDigit_of_mem_toDigits (by decide) (by decide) digit)

def SetInColumn (fill : Char) (width number : Nat) (text line : String) : Prop :=
  ∃ column : List Char, column.length = width ∧
    (∃ count, column = List.replicate count fill ++ (toString number).toList) ∧
    line.toList = column ++ ' ' :: ' ' :: text.toList

theorem setInColumn_padLeft (fill : Char) {width number : Nat}
    (fits : digitCount number ≤ width) (text : String) :
    SetInColumn fill width number text
      (padLeft fill width (toString number) ++ "  " ++ text) := by
  refine ⟨(padLeft fill width (toString number)).toList, ?_,
    ⟨width - (toString number).length, ?_⟩, ?_⟩
  · rw [← length_natText] at fits
    simp only [padLeft, String.toList_append, String.toList_ofList, List.length_append,
      List.length_replicate, String.length_toList]
    omega
  · simp only [padLeft, String.toList_append, String.toList_ofList]
  · simp only [String.toList_append, List.append_assoc]
    rfl

theorem SetInColumn.drop {fill : Char} {width number : Nat} {text line : String}
    (set : SetInColumn fill width number text line) :
    line.toList.drop (width + 2) = text.toList := by
  obtain ⟨column, rfl, -, chars⟩ := set
  rw [chars, ← List.drop_drop, List.drop_left]
  rfl

namespace Palette

def sequences (palette : Palette) : List (List Char) :=
  [palette.blue, palette.green, palette.red, palette.dim, palette.reset].map String.toList

def styles : List (Palette → String) := [blue, green, red, dim]

end Palette

def eraseStyles : List Char → List Char
  | [] => []
  | c :: rest =>
    match Palette.colored.sequences.find? fun sequence => sequence.isPrefixOf (c :: rest) with
    | some sequence => eraseStyles (rest.drop (sequence.length - 1))
    | none => c :: eraseStyles rest
termination_by chars => chars.length
decreasing_by all_goals simp only [List.length_cons, List.length_drop]; omega

def unstyled (text : String) : String := String.ofList (eraseStyles text.toList)

def Unstyles (styled plain : String) : Prop :=
  ∀ rest, eraseStyles (styled.toList ++ rest) = plain.toList ++ eraseStyles rest

theorem eraseStyles_sequence {sequence : List Char}
    (among : sequence ∈ Palette.colored.sequences) (rest : List Char) :
    eraseStyles (sequence ++ rest) = eraseStyles rest := by
  have sequences : Palette.colored.sequences = [['\x1b', '[', '3', '4', 'm'],
      ['\x1b', '[', '3', '2', 'm'], ['\x1b', '[', '3', '1', 'm'], ['\x1b', '[', '2', 'm'],
      ['\x1b', '[', '0', 'm']] := by
    decide
  rw [sequences] at among
  simp only [List.mem_cons, List.not_mem_nil, or_false] at among
  -- None of them is the beginning of another, so that each finds itself.
  obtain rfl | rfl | rfl | rfl | rfl := among <;>
    rw [List.cons_append, eraseStyles, sequences] <;> rfl

namespace Unstyles

variable {first second third fourth : String}

theorem of_not_mem {text : String} (none : '\x1b' ∉ text.toList) : Unstyles text text := by
  have escape : ∀ sequence ∈ Palette.colored.sequences, sequence.head? = some '\x1b' := by
    decide
  unfold Unstyles
  generalize text.toList = chars at none
  induction chars with
  | nil => simp
  | cons c chars ih =>
    intro rest
    rw [List.mem_cons, not_or] at none
    -- No sequence is found where the text has its first character.
    have plain : Palette.colored.sequences.find? (fun sequence =>
        sequence.isPrefixOf (c :: (chars ++ rest))) = .none := by
      rw [List.find?_eq_none]
      intro sequence among found
      have begins := escape sequence among
      obtain ⟨behind, whole⟩ := List.isPrefixOf_iff_prefix.mp found
      cases sequence with
      | nil => cases begins
      | cons first tail =>
        rw [List.head?_cons, Option.some.injEq] at begins
        rw [List.cons_append, List.cons.injEq] at whole
        exact none.1 (begins.symm.trans whole.1)
    rw [List.cons_append, eraseStyles, plain, List.cons_append]
    simp only [ih none.2 rest]

theorem append (left : Unstyles first second) (right : Unstyles third fourth) :
    Unstyles (first ++ third) (second ++ fourth) := by
  intro rest
  rw [String.toList_append, List.append_assoc, left, right, String.toList_append,
    List.append_assoc]

theorem styled (style : Palette → String) (among : style ∈ Palette.styles)
    (unstyles : Unstyles first second) :
    Unstyles (Palette.colored.styled (style .colored) first)
      (Palette.plain.styled (style .plain) second) := by
  have begins : (style .colored).toList ∈ Palette.colored.sequences := by
    simp only [Palette.styles, List.mem_cons, List.not_mem_nil, or_false] at among
    obtain rfl | rfl | rfl | rfl := among <;> simp [Palette.sequences]
  have ends : Palette.colored.reset.toList ∈ Palette.colored.sequences := by
    simp [Palette.sequences]
  have none : style .plain = "" := by
    simp only [Palette.styles, List.mem_cons, List.not_mem_nil, or_false] at among
    obtain rfl | rfl | rfl | rfl := among <;> rfl
  intro rest
  simp only [Palette.styled, none, String.toList_append, List.append_assoc]
  rw [eraseStyles_sequence begins, unstyles, eraseStyles_sequence ends]
  rfl

theorem unstyled_eq (unstyles : Unstyles first second) : unstyled first = second := by
  have whole := unstyles []
  simp only [List.append_nil, eraseStyles] at whole
  rw [unstyled, whole, String.ofList_toList]

end Unstyles

end StackMachine
