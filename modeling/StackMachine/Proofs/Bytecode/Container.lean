import StackMachine.Proofs.Bytecode.Canonical

set_option autoImplicit false

namespace StackMachine

def Program.IsFile (version : Version) (body file : List UInt8) : Prop :=
  ∃ length : List UInt8, length.length = 8 ∧ littleEndian length = body.length ∧
    file = 0x47 :: 0x44 :: version.number :: (length ++ body)

namespace LoadFault

inductive AppliesTo (file : List UInt8) : LoadFault → Prop
  | tooShort (short : file.length < 11) : AppliesTo file (.tooShort file.length)
  | invalidMagic (other : file.take 2 ≠ [0x47, 0x44]) : AppliesTo file .invalidMagic
  | assembledWithErrors (zero : file[2]? = some 0) : AppliesTo file .assembledWithErrors
  | unsupportedVersion {version : UInt8} (found : file[2]? = some version)
    (unknown : version ≠ 1 ∧ version ≠ 2) : AppliesTo file (.unsupportedVersion version)
  | lengthMismatch {announced : UInt64}
    (found : announced.toNat = littleEndian ((file.drop 3).take 8))
    (differs : announced.toNat ≠ file.length - 11) :
    AppliesTo file (.lengthMismatch announced (file.length - 11))

def rank : LoadFault → Nat
  | .tooShort _ => 0
  | .invalidMagic => 1
  | .assembledWithErrors => 2
  | .unsupportedVersion _ => 3
  | .lengthMismatch _ _ => 4
  | .unreadable _ => 5

def IsFirst (file : List UInt8) (fault : LoadFault) : Prop :=
  fault.AppliesTo file ∧ ∀ other : LoadFault, other.AppliesTo file → fault.rank ≤ other.rank

theorem AppliesTo.eq_of_rank {file : List UInt8} {fault other : LoadFault}
    (applies : fault.AppliesTo file) (also : other.AppliesTo file)
    (same : fault.rank = other.rank) : fault = other := by
  cases applies <;> cases also <;> simp [rank] at same
  case tooShort.tooShort | invalidMagic.invalidMagic |
    assembledWithErrors.assembledWithErrors => rfl
  case unsupportedVersion.unsupportedVersion found _ _ foundToo _ =>
    rw [found] at foundToo
    cases foundToo
    rfl
  case lengthMismatch.lengthMismatch found _ _ foundToo _ =>
    rw [UInt64.toNat.inj (found.trans foundToo.symm)]

section

variable {file : List UInt8} {fault : LoadFault}

theorem AppliesTo.one_le_rank (applies : fault.AppliesTo file) (long : 11 ≤ file.length) :
    1 ≤ fault.rank := by
  cases applies with
  | tooShort short => omega
  | invalidMagic | assembledWithErrors | unsupportedVersion | lengthMismatch => simp [rank]

theorem AppliesTo.two_le_rank (applies : fault.AppliesTo file) (long : 11 ≤ file.length)
    (mark : file.take 2 = [0x47, 0x44]) : 2 ≤ fault.rank := by
  have later := applies.one_le_rank long
  cases applies with
  | tooShort => simp [rank] at later
  | invalidMagic other => exact absurd mark other
  | assembledWithErrors | unsupportedVersion | lengthMismatch => simp [rank]

theorem AppliesTo.three_le_rank (applies : fault.AppliesTo file) (long : 11 ≤ file.length)
    (mark : file.take 2 = [0x47, 0x44]) (finished : file[2]? ≠ some 0) : 3 ≤ fault.rank := by
  have later := applies.two_le_rank long mark
  cases applies with
  | tooShort | invalidMagic => simp [rank] at later
  | assembledWithErrors zero => exact absurd zero finished
  | unsupportedVersion | lengthMismatch => simp [rank]

theorem AppliesTo.four_le_rank (applies : fault.AppliesTo file) (long : 11 ≤ file.length)
    (mark : file.take 2 = [0x47, 0x44]) (known : file[2]? = some 1 ∨ file[2]? = some 2) :
    4 ≤ fault.rank := by
  have later := applies.three_le_rank long mark (by obtain one | two := known <;> simp [*])
  cases applies with
  | tooShort | invalidMagic | assembledWithErrors => simp [rank] at later
  | unsupportedVersion found unknown => simp_all
  | lengthMismatch => simp [rank]

end

theorem IsFirst.eq {file : List UInt8} {fault other : LoadFault} (first : fault.IsFirst file)
    (also : other.IsFirst file) : fault = other :=
  first.1.eq_of_rank also.1 (Nat.le_antisymm (first.2 _ also.1) (also.2 _ first.1))

end LoadFault

namespace Program

theorem exists_parts {file : Array UInt8} (long : Header.size ≤ file.size) :
    ∃ first second version : UInt8, ∃ length body : List UInt8, length.length = 8 ∧
      file = (first :: second :: version :: (length ++ body)).toArray := by
  obtain ⟨bytes⟩ := file
  simp only [Header.size, List.size_toArray] at long
  obtain _ | ⟨first, _ | ⟨second, _ | ⟨version, rest⟩⟩⟩ := bytes
  all_goals simp only [List.length_nil, List.length_cons] at long
  all_goals try omega
  refine ⟨first, second, version, rest.take 8, rest.drop 8, ?_, ?_⟩
  · rw [List.length_take]
    omega
  · rw [List.take_append_drop]

section

variable {first second version : UInt8} {length body : List UInt8}

theorem toNat_announced (eight : length.length = 8) :
    (UInt64.ofNat (littleEndian length)).toNat = littleEndian length := by
  have small := littleEndian_lt length
  rw [eight] at small
  exact UInt64.toNat_ofNat_of_lt' small

theorem ofBytes?_parts (eight : length.length = 8) :
    Header.ofBytes? (((first :: second :: version :: (length ++ body)).toArray.extract 0
      Header.size).toList) =
        some ⟨(first, second), version, UInt64.ofNat (littleEndian length)⟩ := by
  have within : (length ++ body).take 8 = length := by
    rw [← eight, List.take_left]
  simp [Header.size, Header.ofBytes?, ← eight]

theorem ofBytes_parts (eight : length.length = 8) :
    ofBytes (first :: second :: version :: (length ++ body)).toArray =
      if (first, second) ≠ Header.mark then .error .invalidMagic
      else if version = 0 then .error .assembledWithErrors
      else match Version.ofNumber? version with
        | none => .error (.unsupportedVersion version)
        | some known =>
          if littleEndian length ≠ body.length then
            .error (.lengthMismatch (UInt64.ofNat (littleEndian length)) body.length)
          else .ok ⟨known, body.toArray⟩ := by
  simp only [ofBytes, ofBytes?_parts eight, Header.hasMark, Header.marksErrors,
    toNat_announced eight]
  by_cases mark : (first, second) = Header.mark
  · by_cases zero : version = 0
    · simp [mark, zero]
    · cases Version.ofNumber? version with
      | none => simp [mark, zero]
      | some known => simp [mark, zero, Header.size, eight]
  · simp [mark]

theorem length_parts (eight : length.length = 8) :
    (first :: second :: version :: (length ++ body)).length = 11 + body.length := by
  simp only [List.length_cons, List.length_append]
  omega

theorem announced_parts (eight : length.length = 8) :
    ((first :: second :: version :: (length ++ body)).drop 3).take 8 = length := by
  change (length ++ body).take 8 = length
  rw [← eight, List.take_left]

theorem lengthMismatch_applies (eight : length.length = 8)
    (differs : littleEndian length ≠ body.length) :
    LoadFault.AppliesTo (first :: second :: version :: (length ++ body))
      (.lengthMismatch (UInt64.ofNat (littleEndian length)) body.length) := by
  have size : (first :: second :: version :: (length ++ body)).length - 11 = body.length := by
    rw [length_parts eight, Nat.add_sub_cancel_left]
  rw [← size]
  apply LoadFault.AppliesTo.lengthMismatch
  · rw [toNat_announced eight, announced_parts eight]
  · rwa [toNat_announced eight, size]

theorem ofBytes_short {file : Array UInt8} (short : file.size < Header.size) :
    ofBytes file = .error (.tooShort file.size) := by
  obtain ⟨bytes⟩ := file
  simp only [Header.size, List.size_toArray] at short
  obtain _ | ⟨first, _ | ⟨second, _ | ⟨version, rest⟩⟩⟩ := bytes
  · rfl
  · rfl
  · rfl
  · have few : ¬8 ≤ min 8 rest.length := by
      simp only [List.length_cons] at short
      omega
    simp [ofBytes, Header.size, Header.ofBytes?, few]

end

theorem isFile_of_ofBytes {file : Array UInt8} {program : Program}
    (loaded : ofBytes file = .ok program) :
    IsFile program.version program.body.toList file.toList := by
  by_cases short : file.size < Header.size
  · rw [ofBytes_short short] at loaded
    cases loaded
  · obtain ⟨first, second, version, length, body, eight, rfl⟩ := exists_parts (Nat.not_lt.mp short)
    rw [ofBytes_parts eight] at loaded
    split at loaded
    next => cases loaded
    next mark =>
      split at loaded
      next => cases loaded
      next =>
        split at loaded
        next => cases loaded
        next known found =>
          split at loaded
          next => cases loaded
          next same =>
            cases loaded
            cases Decidable.not_not.mp mark
            have number := Version.ofNumber?_eq_some_iff.mp found
            exact ⟨length, eight, Decidable.not_not.mp same, by rw [number]⟩

theorem ofBytes_of_isFile {file : Array UInt8} {program : Program}
    (isFile : IsFile program.version program.body.toList file.toList) :
    ofBytes file = .ok program := by
  obtain ⟨length, eight, announced, bytes⟩ := isFile
  obtain ⟨version, ⟨body⟩⟩ := program
  obtain ⟨list⟩ := file
  cases bytes
  have known : Version.ofNumber? version.number = some version :=
    Version.ofNumber?_eq_some_iff.mpr rfl
  have marks : version.number ≠ 0 := by cases version <;> decide
  simp [ofBytes_parts eight, Header.mark, known, marks, announced]

theorem isFirst_of_ofBytes {file : Array UInt8} {fault : LoadFault}
    (refused : ofBytes file = .error fault) : fault.IsFirst file.toList := by
  by_cases short : file.size < Header.size
  · rw [ofBytes_short short] at refused
    cases refused
    exact ⟨.tooShort short, fun other _ => Nat.zero_le _⟩
  · have long : 11 ≤ file.toList.length := Nat.not_lt.mp short
    obtain ⟨first, second, version, length, body, eight, rfl⟩ := exists_parts long
    rw [ofBytes_parts eight] at refused
    split at refused
    next other =>
      cases refused
      have differs : [first, second] ≠ [0x47, 0x44] := by simpa [Header.mark] using other
      exact ⟨.invalidMagic differs, fun fault also => also.one_le_rank long⟩
    next mark =>
      cases Decidable.not_not.mp mark
      split at refused
      next zero =>
        cases refused
        exact ⟨.assembledWithErrors (congrArg some zero), fun fault also =>
          also.two_le_rank long rfl⟩
      next finished =>
        have nonzero : some version ≠ some 0 := by simpa using finished
        split at refused
        next unknown =>
          cases refused
          have neither : version ≠ 1 ∧ version ≠ 2 := by
            constructor <;> rintro rfl <;> exact absurd unknown (by decide)
          exact ⟨.unsupportedVersion rfl neither, fun fault also =>
            also.three_le_rank long rfl nonzero⟩
        next known found =>
          split at refused
          next differs =>
            cases refused
            have number : some version = some 1 ∨ some version = some 2 := by
              rw [Version.ofNumber?_eq_some_iff.mp found]
              cases known <;> simp [Version.number]
            exact ⟨lengthMismatch_applies eight differs, fun fault also =>
              also.four_le_rank long rfl number⟩
          next => cases refused

theorem IsFile.not_appliesTo {version : Version} {body file : List UInt8}
    (isFile : IsFile version body file) (fault : LoadFault) : ¬fault.AppliesTo file := by
  intro applies
  obtain ⟨length, eight, announced, rfl⟩ := isFile
  have long : 11 ≤ (0x47 :: 0x44 :: version.number :: (length ++ body)).length := by
    rw [length_parts eight]
    omega
  have number : some version.number = some 1 ∨ some version.number = some 2 := by
    cases version <;> simp [Version.number]
  have last := applies.four_le_rank long rfl number
  cases applies with
  | tooShort | invalidMagic | assembledWithErrors | unsupportedVersion =>
    simp [LoadFault.rank] at last
  | lengthMismatch found differs =>
    rw [found, announced_parts eight, length_parts eight, announced] at differs
    omega

theorem ofBytes_eq_error_iff (file : Array UInt8) (fault : LoadFault) :
    ofBytes file = .error fault ↔ fault.IsFirst file.toList := by
  refine ⟨isFirst_of_ofBytes, fun first => ?_⟩
  cases loaded : ofBytes file with
  | error other => rw [first.eq (isFirst_of_ofBytes loaded)]
  | ok program => exact absurd first.1 ((isFile_of_ofBytes loaded).not_appliesTo fault)

theorem isFile_bytes {program : Program} (fits : program.length < UInt64.size) :
    IsFile program.version program.body.toList program.bytes.toList := by
  have size : (UInt64.ofNat program.length).toNat = program.length :=
    UInt64.toNat_ofNat_of_lt' fits
  have value : littleEndian (toLittleEndian 8 program.length) = program.length := by
    rw [littleEndian_toLittleEndian]
    exact Nat.mod_eq_of_lt fits
  refine ⟨toLittleEndian 8 program.length, length_toLittleEndian 8 _, value, ?_⟩
  simp [bytes, header, Header.ofBody, Header.bytes, Header.mark, size]

theorem ofBytes_bytes {program : Program} (fits : program.length < UInt64.size) :
    ofBytes program.bytes = .ok program :=
  ofBytes_of_isFile (isFile_bytes fits)

theorem bytes_of_isFile {file : Array UInt8} {program : Program}
    (isFile : IsFile program.version program.body.toList file.toList) :
    program.bytes = file ∧
      Header.ofBytes? (file.extract 0 Header.size).toList = some program.header := by
  obtain ⟨length, eight, announced, bytes⟩ := isFile
  obtain ⟨list⟩ := file
  cases bytes
  rw [Array.length_toList] at announced
  have same : UInt64.ofNat (littleEndian length) = UInt64.ofNat program.length := by
    rw [announced, Program.length]
  have size : (UInt64.ofNat program.length).toNat = program.length := by
    rw [← same, toNat_announced eight, announced, Program.length]
  have spelled : toLittleEndian 8 program.length = length := by
    rw [Program.length, ← announced, ← eight, toLittleEndian_littleEndian]
  constructor
  · apply Array.toList_inj.mp
    simp [Program.bytes, header, Header.ofBody, Header.bytes, Header.mark, size, spelled]
  · rw [ofBytes?_parts eight, same]
    rfl

/-- Files load that are the bytes of a program, and any other is refused for its first fault. -/
theorem ofBytes_exact :
    (∀ (file : Array UInt8) (program : Program), ofBytes file = .ok program ↔
      IsFile program.version program.body.toList file.toList) ∧
    (∀ (file : Array UInt8) (program : Program), ofBytes file = .ok program →
      program.bytes = file ∧
        Header.ofBytes? (file.extract 0 Header.size).toList = some program.header) ∧
    (∀ program : Program, program.length < UInt64.size → ofBytes program.bytes = .ok program) ∧
    (∀ (file : Array UInt8) (fault : LoadFault),
      ofBytes file = .error fault ↔ fault.IsFirst file.toList) ∧
    ∀ file : Array UInt8, Header.size ≤ file.size →
      ∃ header, Header.ofBytes? (file.extract 0 Header.size).toList = some header := by
  refine ⟨fun file program => ⟨isFile_of_ofBytes, ofBytes_of_isFile⟩, ?_, ?_, ?_, ?_⟩
  · intro file program loaded
    exact bytes_of_isFile (isFile_of_ofBytes loaded)
  · intro program fits
    exact ofBytes_bytes fits
  · exact ofBytes_eq_error_iff
  · intro file long
    obtain ⟨first, second, version, length, body, eight, rfl⟩ := exists_parts long
    exact ⟨_, ofBytes?_parts eight⟩

theorem ofBytes_exact_two_faults :
    let program : Program := ⟨.two, #[6]⟩
    ofBytes program.bytes = .ok program ∧
      ofBytes #[0x47, 0x44, 0, 5, 0, 0, 0, 0, 0, 0, 0, 6] = .error .assembledWithErrors ∧
      ofBytes (program.bytes.push 6) = .error (.lengthMismatch 1 2) := by
  intro program
  obtain ⟨-, -, loads, refuses, -⟩ := ofBytes_exact
  refine ⟨loads program (by decide), (refuses _ _).mpr ?_, (refuses _ _).mpr ?_⟩
  · exact ⟨.assembledWithErrors rfl, fun fault also => also.two_le_rank (by decide) rfl⟩
  · have long : 11 ≤ (program.bytes.push 6).toList.length := by decide
    exact ⟨.lengthMismatch (by decide) (by decide), fun fault also =>
      also.four_le_rank long rfl (.inr rfl)⟩

end Program

end StackMachine
