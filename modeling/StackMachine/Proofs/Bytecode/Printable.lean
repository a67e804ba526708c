import StackMachine.Bytecode.Cursor
import StackMachine.Bytecode.Instruction

set_option autoImplicit false

namespace StackMachine

def Printable (text : String) : Prop := ∀ c ∈ text.toList, ' '.toNat ≤ c.toNat

instance (text : String) : Decidable (Printable text) :=
  decidable_of_iff (text.toList.all (fun c => decide (' '.toNat ≤ c.toNat)) = true)
    (by simp [Printable])

@[simp] theorem printable_append {first second : String} :
    Printable (first ++ second) ↔ Printable first ∧ Printable second := by
  simp [Printable, or_imp, forall_and]

theorem Printable.not_mem {text : String} (printable : Printable text) {c : Char}
    (control : c.toNat < ' '.toNat) : c ∉ text.toList :=
  fun member => absurd (printable c member) (Nat.not_le.mpr control)

theorem printable_digit {c : Char} (digit : c.isDigit = true) : ' '.toNat ≤ c.toNat := by
  simp only [Char.isDigit, Bool.and_eq_true, decide_eq_true_eq] at digit
  exact Nat.le_trans (by decide : ' '.toNat ≤ '0'.toNat) digit.1

theorem printable_natText (n : Nat) : Printable (toString n) := by
  intro c member
  rw [Nat.toString_eq_ofList_toDigits, String.toList_ofList] at member
  exact printable_digit (Nat.isDigit_of_mem_toDigits (by decide) (by decide) member)

theorem printable_padLeft {fill : Char} (width : Nat) {text : String}
    (visible : ' '.toNat ≤ fill.toNat) (printable : Printable text) :
    Printable (padLeft fill width text) := by
  rw [padLeft, printable_append]
  refine ⟨fun c member => ?_, printable⟩
  rw [String.toList_ofList, List.mem_replicate] at member
  rw [member.2]
  exact visible

theorem printable_byteText (byte : UInt8) : Printable (byteText byte) := by
  have digits : ∀ n < 256, (Nat.toDigits 16 n).all (fun c => decide (' '.toNat ≤ c.toNat)) := by
    decide +kernel
  rw [byteText, printable_append]
  refine ⟨by decide, printable_padLeft 2 (by decide) ?_⟩
  rw [Printable, String.toList_ofList]
  simpa using digits byte.toNat byte.toNat_lt

theorem printable_intercalate (separator : String) (between : Printable separator)
    {texts : List String} (each : ∀ text ∈ texts, Printable text) :
    Printable (separator.intercalate texts) := by
  induction texts with
  | nil => simp [Printable]
  | cons first texts ih =>
    obtain ⟨head, tail⟩ := List.forall_mem_cons.mp each
    cases texts with
    | nil => simpa using head
    | cons second texts =>
      rw [String.intercalate_cons_cons, printable_append, printable_append]
      exact ⟨⟨head, between⟩, ih tail⟩

theorem Decimal.printable_positional (coefficient places : Nat) :
    ∀ c ∈ positional coefficient places, ' '.toNat ≤ c.toNat := by
  have padded (count : Nat) :
      ∀ c ∈ List.replicate count '0' ++ Nat.toDigits 10 coefficient, ' '.toNat ≤ c.toNat := by
    intro c member
    obtain zero | digit := List.mem_append.mp member
    · rw [(List.mem_replicate.mp zero).2]
      decide
    · exact printable_digit (Nat.isDigit_of_mem_toDigits (by decide) (by decide) digit)
  intro c member
  simp only [positional] at member
  split at member
  next => exact padded _ c (List.mem_of_mem_take member)
  next =>
    obtain whole | point := List.mem_append.mp member
    · exact padded _ c (List.mem_of_mem_take whole)
    · obtain rfl | fraction := List.mem_cons.mp point
      · decide
      · exact padded _ c (List.mem_of_mem_drop fraction)

namespace Binary64

theorem printable_text (x : Binary64) : Printable x.text := by
  have finite (d : Decimal) : Printable (String.ofList d.chars) := by
    have digits := Decimal.printable_positional
    unfold Printable Decimal.chars
    rw [String.toList_ofList]
    split
    next => exact List.forall_mem_cons.mpr ⟨by decide, digits _ _⟩
    next => exact digits _ _
  unfold text
  split
  next => decide
  next =>
    split
    next => split <;> decide
    next =>
      split
      next => split <;> decide
      next => exact finite _

theorem printable_valueText (x : Binary64) : Printable x.valueText := by
  unfold valueText
  split
  next => decide
  next => exact x.printable_text

end Binary64

theorem Register.printable_name (r : Register) : Printable r.name := by
  unfold name
  split
  next entry found =>
    have named : ∀ entry ∈ table, Printable entry.1 := by decide
    exact named entry (List.mem_of_find?_eq_some found)
  next => decide

theorem Opcode.printable_mnemonic (op : Opcode) : Printable op.mnemonic := by
  have each : ∀ op ∈ all, Printable op.mnemonic := by decide
  exact each op (mem_all op)

theorem Operand.printable_sumText (r : Option Register) (value : Option Binary64) :
    Printable (sumText r value) := by
  have plus : Printable " + " := by decide
  cases r with
  | none =>
    cases value with
    | none => decide
    | some value => exact value.printable_valueText
  | some r =>
    cases value with
    | none => exact r.printable_name
    | some value =>
      unfold sumText
      rw [printable_append, printable_append]
      exact ⟨⟨r.printable_name, plus⟩, value.printable_valueText⟩

theorem Operand.printable_text (operand : Operand) : Printable operand.text := by
  have opening : Printable "[" := by decide
  have closing : Printable "]" := by decide
  have sum := printable_sumText operand.register operand.literal
  unfold text
  split
  next => decide
  next =>
    simp only
    split
    next =>
      rw [printable_append, printable_append]
      exact ⟨⟨opening, sum⟩, closing⟩
    next => exact sum

namespace Instruction

theorem printable_argument {i : Instruction} {argument : String}
    (shown : i.argument? = some argument) : Printable argument := by
  cases i with
  | plain op => cases shown
  | push operand | pop operand =>
    cases shown
    exact operand.printable_text
  | branch op target =>
    cases shown
    rw [printable_append]
    exact ⟨by decide, printable_natText _⟩

theorem printable_text (i : Instruction) : Printable i.text := by
  have name : Printable i.mnemonic := i.opcode.printable_mnemonic
  unfold text
  split
  next argument shown =>
    rw [printable_append, printable_append]
    exact ⟨⟨name, by decide⟩, printable_argument shown⟩
  next => exact name

end Instruction

theorem DecodeFault.printable_message (fault : DecodeFault) : Printable fault.message := by
  unfold message
  cases fault with
  | undefinedCommand byte offset =>
    rw [printable_append, printable_append, printable_append]
    exact ⟨⟨⟨by decide, printable_byteText byte⟩, by decide⟩,
      printable_natText offset⟩
  | invalidRegister index offset =>
    rw [printable_append, printable_append, printable_append]
    exact ⟨⟨⟨by decide, printable_natText _⟩, by decide⟩,
      printable_natText offset⟩
  | unexpectedEnd offset =>
    rw [printable_append]
    exact ⟨by decide, printable_natText offset⟩

end StackMachine
