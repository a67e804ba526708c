import StackMachine.Proofs.Text.Lines
import StackMachine.Text.Utf8

set_option autoImplicit false

namespace StackMachine

namespace Utf8

theorem toNat_ofNat {n : Nat} (valid : n.isValidChar) : (Char.ofNat n).val.toNat = n := by
  rw [Char.ofNat, dif_pos valid]
  rfl

theorem ofNat_eq (byte : UInt8) {n : Nat} (same : byte.toNat = n) : UInt8.ofNat n = byte := by
  rw [← same, UInt8.ofNat_toNat]

section

variable {point : Nat} {first second third fourth : UInt8}

theorem utf8EncodeChar_one (narrow : first.toNat < 0x80) :
    String.utf8EncodeChar (Char.ofNat first.toNat) = [first] := by
  have valid : first.toNat.isValidChar := .inl (by omega)
  simp only [String.utf8EncodeChar, toNat_ofNat valid]
  rw [if_pos (by omega), UInt8.ofNat_toNat]

theorem utf8EncodeChar_two (wide : 0x80 ≤ point) (narrow : point < 0x800)
    (lead : first.toNat = point / 64 + 0xc0) (tail : second.toNat = point % 64 + 0x80) :
    String.utf8EncodeChar (Char.ofNat point) = [first, second] := by
  have valid : point.isValidChar := .inl (by omega)
  have lead : UInt8.ofNat (point / 64 % 32 + 0xc0) = first := ofNat_eq first (by omega)
  simp only [String.utf8EncodeChar, toNat_ofNat valid]
  rw [if_neg (by omega), if_pos (by omega), lead, ofNat_eq second tail]

theorem utf8EncodeChar_three (wide : 0x800 ≤ point) (narrow : point < 0x10000)
    (valid : point.isValidChar) (lead : first.toNat = point / 4096 + 0xe0)
    (middle : second.toNat = point / 64 % 64 + 0x80) (tail : third.toNat = point % 64 + 0x80) :
    String.utf8EncodeChar (Char.ofNat point) = [first, second, third] := by
  have lead : UInt8.ofNat (point / 4096 % 16 + 0xe0) = first := ofNat_eq first (by omega)
  simp only [String.utf8EncodeChar, toNat_ofNat valid]
  rw [if_neg (by omega), if_neg (by omega), if_pos (by omega), lead, ofNat_eq second middle,
    ofNat_eq third tail]

theorem utf8EncodeChar_four (wide : 0x10000 ≤ point) (narrow : point < 0x110000)
    (lead : first.toNat = point / 262144 + 0xf0)
    (upper : second.toNat = point / 4096 % 64 + 0x80)
    (lower : third.toNat = point / 64 % 64 + 0x80) (tail : fourth.toNat = point % 64 + 0x80) :
    String.utf8EncodeChar (Char.ofNat point) = [first, second, third, fourth] := by
  have valid : point.isValidChar := .inr (by omega)
  have lead : UInt8.ofNat (point / 262144 % 8 + 0xf0) = first := ofNat_eq first (by omega)
  simp only [String.utf8EncodeChar, toNat_ofNat valid]
  rw [if_neg (by omega), if_neg (by omega), if_neg (by omega), lead, ofNat_eq second upper,
    ofNat_eq third lower, ofNat_eq fourth tail]

end

theorem exists_of_map_eq_ok {ε α β : Type} {result : Except ε α} {f : α → β} {b : β}
    (done : result.map f = .ok b) : ∃ a, result = .ok a ∧ f a = b := by
  cases result with
  | error fault => cases done
  | ok a =>
    cases done
    exact ⟨a, rfl, rfl⟩

theorem exists_of_continuation {taken wanted point low high value : Nat} {bytes : List UInt8}
    (read : continuation taken (wanted + 1) point low high bytes = .ok value) :
    ∃ byte rest, bytes = byte :: rest ∧ low ≤ byte.toNat ∧ byte.toNat ≤ high ∧
      continuation (taken + 1) wanted (point * 64 + byte.toNat % 64) 0x80 0xbf rest =
        .ok value := by
  cases bytes with
  | nil => cases read
  | cons byte rest =>
    simp only [continuation] at read
    split at read
    next within => exact ⟨byte, rest, rfl, within.1, within.2, read⟩
    next => cases read

section

variable {first : UInt8} {taken low high value : Nat} {rest : List UInt8}

theorem utf8EncodeChar_of_continuation_two (lead : 0xc2 ≤ first.toNat ∧ first.toNat ≤ 0xdf)
    (read : continuation taken 1 (first.toNat % 32) 0x80 0xbf rest = .ok value) :
    String.utf8EncodeChar (Char.ofNat value) = first :: rest.take 1 := by
  obtain ⟨second, rest, rfl, above, below, done⟩ := exists_of_continuation read
  cases done
  apply utf8EncodeChar_two <;> omega

theorem utf8EncodeChar_of_continuation_three (lead : 0xe0 ≤ first.toNat ∧ first.toNat ≤ 0xef)
    (least : 0x80 ≤ low) (most : high ≤ 0xbf) (overlong : first.toNat = 0xe0 → 0xa0 ≤ low)
    (surrogate : first.toNat = 0xed → high ≤ 0x9f)
    (read : continuation taken 2 (first.toNat % 16) low high rest = .ok value) :
    String.utf8EncodeChar (Char.ofNat value) = first :: rest.take 2 := by
  obtain ⟨second, rest, rfl, above, below, read⟩ := exists_of_continuation read
  obtain ⟨third, rest, rfl, after, before, done⟩ := exists_of_continuation read
  cases done
  apply utf8EncodeChar_three
  case valid =>
    simp only [Nat.isValidChar]
    omega
  all_goals omega

theorem utf8EncodeChar_of_continuation_four (lead : 0xf0 ≤ first.toNat ∧ first.toNat ≤ 0xf4)
    (least : 0x80 ≤ low) (most : high ≤ 0xbf) (overlong : first.toNat = 0xf0 → 0x90 ≤ low)
    (beyond : first.toNat = 0xf4 → high ≤ 0x8f)
    (read : continuation taken 3 (first.toNat % 8) low high rest = .ok value) :
    String.utf8EncodeChar (Char.ofNat value) = first :: rest.take 3 := by
  obtain ⟨second, rest, rfl, above, below, read⟩ := exists_of_continuation read
  obtain ⟨third, rest, rfl, thirdAbove, thirdBelow, read⟩ := exists_of_continuation read
  obtain ⟨fourth, rest, rfl, fourthAbove, fourthBelow, done⟩ := exists_of_continuation read
  cases done
  apply utf8EncodeChar_four <;> omega

theorem secondByteBounds?_cases {lead width : Nat}
    (found : secondByteBounds? lead = some (width, low, high)) :
    (width = 2 ∧ (0xc2 ≤ lead ∧ lead ≤ 0xdf) ∧ low = 0x80 ∧ high = 0xbf) ∨
    (width = 3 ∧ (0xe0 ≤ lead ∧ lead ≤ 0xef) ∧ 0x80 ≤ low ∧ high ≤ 0xbf ∧
      (lead = 0xe0 → 0xa0 ≤ low) ∧ (lead = 0xed → high ≤ 0x9f)) ∨
    (width = 4 ∧ (0xf0 ≤ lead ∧ lead ≤ 0xf4) ∧ 0x80 ≤ low ∧ high ≤ 0xbf ∧
      (lead = 0xf0 → 0x90 ≤ low) ∧ (lead = 0xf4 → high ≤ 0x8f)) := by
  unfold secondByteBounds? at found
  repeat' split at found
  all_goals cases found
  all_goals omega

theorem utf8EncodeChar_of_character {c : Char} {used : Nat}
    (read : character first rest = .ok (c, used)) :
    String.utf8EncodeChar c = first :: rest.take used := by
  unfold character at read
  split at read
  next narrow =>
    cases read
    exact utf8EncodeChar_one (UInt8.lt_iff_toNat_lt.mp narrow)
  next =>
    split at read
    next => cases read
    next width low high found =>
      obtain ⟨value, point, same⟩ := exists_of_map_eq_ok read
      cases same
      obtain ⟨rfl, lead, rfl, rfl⟩ | ⟨rfl, lead, least, most, overlong, surrogate⟩ |
        ⟨rfl, lead, least, most, overlong, beyond⟩ := secondByteBounds?_cases found
      · exact utf8EncodeChar_of_continuation_two lead point
      · exact utf8EncodeChar_of_continuation_three lead least most overlong surrogate point
      · exact utf8EncodeChar_of_continuation_four lead least most overlong beyond point

end

theorem utf8Bytes_of_decodeFrom {index : Nat} {bytes : List UInt8} {chars : List Char}
    (read : decodeFrom index bytes = .ok chars) : utf8Bytes chars = bytes := by
  fun_induction decodeFrom index bytes generalizing chars with
  | case1 =>
    cases read
    rfl
  | case2 => cases read
  | case3 index first rest c used one ih =>
    obtain ⟨others, later, rfl⟩ := exists_of_map_eq_ok read
    rw [utf8Bytes, List.flatMap_cons, utf8EncodeChar_of_character one, ← utf8Bytes, ih later,
      List.cons_append, List.take_append_drop]

theorem utf8Bytes_of_decode {bytes : List UInt8} {text : String}
    (read : decode bytes = .ok text) : utf8Bytes text.toList = bytes := by
  obtain ⟨chars, decoded, rfl⟩ := exists_of_map_eq_ok read
  rw [String.toList_ofList]
  exact utf8Bytes_of_decodeFrom decoded

theorem length_of_decode {bytes : List UInt8} {text : String} (read : decode bytes = .ok text) :
    text.utf8ByteSize = bytes.length := by
  rw [← byteLength_toList, ← length_utf8Bytes, utf8Bytes_of_decode read]

end Utf8

end StackMachine
