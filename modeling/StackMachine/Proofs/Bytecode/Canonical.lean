import StackMachine.Proofs.Bytecode.Decoded
import StackMachine.Proofs.Bytecode.Layout

set_option autoImplicit false

namespace StackMachine

theorem Register.index_of_ofIndex? {index : UInt8} {r : Register}
    (found : ofIndex? index = some r) : r.index = index := by
  have slots : ∀ place : Fin table.length, table[place].2.index = UInt8.ofNat (place + 1) := by
    decide
  unfold ofIndex? at found
  split at found
  next => cases found
  next positive =>
    obtain ⟨entry, place, rfl⟩ := Option.map_eq_some_iff.mp found
    obtain ⟨inside, rfl⟩ := List.getElem?_eq_some_iff.mp place
    have some : index.toNat ≠ 0 := fun zero => positive (UInt8.toNat.inj zero)
    have same := slots ⟨index.toNat - 1, inside⟩
    rw [Nat.sub_add_cancel (Nat.pos_of_ne_zero some), UInt8.ofNat_toNat] at same
    exact same

theorem Opcode.code_of_ofCode? {code : UInt8} {op : Opcode} (found : ofCode? code = some op) :
    op.code = code := by
  simpa using List.find?_some found

theorem Mode.bits_ofByte (byte : UInt8) :
    (byte &&& OpByte.operationBits) ||| (Mode.ofByte byte).bits = byte := by
  have all : ∀ place : Fin 256, (UInt8.ofNat place &&& OpByte.operationBits) |||
      (Mode.ofByte (UInt8.ofNat place)).bits = UInt8.ofNat place := by
    decide +kernel
  simpa using all ⟨byte.toNat, byte.toNat_lt⟩

theorem OpByte.toByte_of_ofByte? {byte : UInt8} {op : OpByte} (found : ofByte? byte = some op) :
    op.toByte = byte := by
  obtain ⟨opcode, known, rfl⟩ := Option.map_eq_some_iff.mp found
  simp only [toByte, Opcode.code_of_ofCode? known, Mode.bits_ofByte]

theorem OpByte.eq_code_of_ofByte? {byte : UInt8} {opcode : Opcode} {mode : Mode}
    (known : ofByte? byte = some ⟨opcode, mode⟩) (empty : mode.isEmpty = true) :
    byte = opcode.code := by
  rw [← toByte_of_ofByte? known, beq_iff_eq.mp empty]
  simp [toByte, Mode.bits, Mode.empty]

theorem littleEndian_lt (bytes : List UInt8) : littleEndian bytes < Nat.pow 256 bytes.length := by
  induction bytes with
  | nil => exact Nat.one_pos
  | cons byte rest ih =>
    have low := byte.toNat_lt
    rw [List.length_cons, show Nat.pow 256 (rest.length + 1) = 256 * Nat.pow 256 rest.length from
      Nat.pow_succ', littleEndian]
    omega

namespace Reader

variable {α β : Type}

/-- Whenever the reader gives a result, the bytes that it has passed spell the result. -/
def Consumes (read : Reader α) (spells : α → List UInt8 → Prop) : Prop :=
  ∀ (start stop : Cursor) (result : α), read start = .ok result stop →
    ∃ bytes, spells result bytes ∧ stop = ⟨start.bytes, start.position + bytes.length⟩ ∧
      start.bytes.toList.drop start.position = bytes ++ stop.bytes.toList.drop stop.position

theorem consumes_pure {spells : α → List UInt8 → Prop} {result : α} (nothing : spells result []) :
    Consumes (pure result) spells := by
  intro start stop other ran
  cases ran
  exact ⟨[], nothing, rfl, rfl⟩

theorem consumes_throw (fault : DecodeFault) (spells : α → List UInt8 → Prop) :
    Consumes (throw fault) spells := by
  intro start stop result ran
  cases ran

theorem Consumes.mono {read : Reader α} {spells allowed : α → List UInt8 → Prop}
    (reads : Consumes read spells) (allows : ∀ a bytes, spells a bytes → allowed a bytes) :
    Consumes read allowed := by
  intro start stop result ran
  obtain ⟨bytes, spelled, rest⟩ := reads start stop result ran
  exact ⟨bytes, allows result bytes spelled, rest⟩

theorem Consumes.bind {first : Reader α} {next : α → Reader β} {head : α → List UInt8 → Prop}
    {spells : β → List UInt8 → Prop} (one : Consumes first head)
    (two : ∀ a bytes, head a bytes → Consumes (next a) fun b more => spells b (bytes ++ more)) :
    Consumes (first >>= next) spells := by
  intro start stop result ran
  simp only [Bind.bind, EStateM.bind] at ran
  split at ran
  next a between done =>
    obtain ⟨bytes, spelled, rfl, left⟩ := one _ _ _ done
    obtain ⟨more, both, rfl, right⟩ := two a bytes spelled _ _ _ ran
    refine ⟨bytes ++ more, both, ?_, ?_⟩
    · simp [Nat.add_assoc]
    · simp only [left, right, List.append_assoc]
  next => cases ran

theorem Consumes.map {read : Reader α} {spells : α → List UInt8 → Prop} {f : α → β}
    {image : β → List UInt8 → Prop} (reads : Consumes read spells)
    (maps : ∀ a bytes, spells a bytes → image (f a) bytes) : Consumes (f <$> read) image :=
  reads.bind fun a bytes spelled => consumes_pure (by simpa using maps a bytes spelled)

theorem consumes_position : Consumes position fun _ bytes => bytes = [] := by
  intro start stop result ran
  cases ran
  exact ⟨[], rfl, rfl, rfl⟩

theorem consumes_take (count : Nat) :
    Consumes (take count) fun taken bytes => taken = bytes ∧ bytes.length = count := by
  intro start stop result ran
  simp only [take] at ran
  split at ran
  next fits =>
    cases ran
    have long : (start.bytes.extract start.position (start.position + count)).toList.length =
        count := by
      simp
      omega
    refine ⟨_, ⟨rfl, long⟩, by rw [long], ?_⟩
    simp [List.take_append_drop, ← List.drop_drop]
  next => cases ran

theorem consumes_number {ofNumber : Nat → α} (number : α → Nat) (width : Nat)
    (kept : ∀ n < Nat.pow 256 width, number (ofNumber n) = n) :
    Consumes (take width >>= fun bytes => pure (ofNumber (littleEndian bytes)))
      fun a bytes => bytes = toLittleEndian width (number a) := by
  refine (consumes_take width).bind fun taken bytes read => consumes_pure ?_
  obtain ⟨rfl, rfl⟩ := read
  rw [List.append_nil, kept _ (littleEndian_lt taken), toLittleEndian_littleEndian]

theorem consumes_byte : Consumes byte fun b bytes => bytes = [b] := by
  have read : Consumes byte fun b bytes => bytes = toLittleEndian 1 b.toNat :=
    consumes_number UInt8.toNat 1 fun _ small => UInt8.toNat_ofNat_of_lt' small
  simpa [toLittleEndian] using read

theorem consumes_word :
    Consumes word fun target bytes => bytes = toLittleEndian 4 target.toNat :=
  consumes_number UInt32.toNat 4 fun _ small => UInt32.toNat_ofNat_of_lt' small

theorem consumes_value : Consumes value fun v bytes => bytes = toLittleEndian 8 v.bits.toNat :=
  consumes_number (fun v : Binary64 => v.bits.toNat) 8 fun _ small =>
    UInt64.toNat_ofNat_of_lt' small

theorem consumes_register : Consumes register fun r bytes => bytes = [r.index] := by
  refine consumes_position.bind fun offset _ nothing => consumes_byte.bind fun index bytes one => ?_
  subst nothing one
  split
  next r found => exact consumes_pure (by rw [Register.index_of_ofIndex? found]; rfl)
  next => exact consumes_throw _ _

theorem consumes_part {read : Reader α} {encode : α → List UInt8} (announced : Bool)
    (reads : Consumes read fun a bytes => bytes = encode a) :
    Consumes (part announced read) fun content bytes => bytes = content.elim [] encode := by
  cases announced with
  | false => exact consumes_pure rfl
  | true => exact reads.map fun a bytes spelled => spelled

theorem Consumes.and {read : Reader α} {spells : α → List UInt8 → Prop} {possible : α → Prop}
    (reads : Consumes read spells) (yields : Yields read possible) :
    Consumes read fun a bytes => possible a ∧ spells a bytes := by
  intro start stop result ran
  obtain ⟨bytes, spelled, place, rest⟩ := reads start stop result ran
  exact ⟨bytes, ⟨yields start stop result ran, spelled⟩, place, rest⟩

theorem consumes_operand (mode : Mode) :
    Consumes (operand mode) fun o bytes => (o.mode = mode ∧ o.InTable) ∧ bytes = o.bytes := by
  refine Consumes.and ?_ (yields_operand mode)
  refine (consumes_part mode.register consumes_register).bind fun r bytes spelled => ?_
  refine (consumes_part mode.literal consumes_value).bind fun literal more written => ?_
  subst spelled written
  refine consumes_pure ?_
  cases r <;> cases literal <;> simp [Operand.bytes]

theorem consumes_announced {byte : UInt8} {opcode : Opcode} {mode : Mode}
    (known : OpByte.ofByte? byte = some ⟨opcode, mode⟩) :
    Consumes (operand mode) fun o bytes =>
      [byte] ++ bytes = OpByte.toByte ⟨opcode, o.mode⟩ :: o.bytes := by
  refine (consumes_operand mode).mono fun o bytes read => ?_
  obtain ⟨⟨rfl, -⟩, rfl⟩ := read
  rw [OpByte.toByte_of_ofByte? known]
  rfl

theorem consumes_instructionOne :
    Consumes instructionOne fun i bytes => bytes = i.bytes .one := by
  refine consumes_position.bind fun offset _ nothing => consumes_byte.bind fun code first one => ?_
  subst nothing one
  split
  next found =>
    have same := Opcode.code_of_ofCode? (Option.filter_eq_some_iff.mp found).1
    refine consumes_value.map fun v bytes written => ?_
    rw [written, ← same]
    rfl
  next op found =>
    have same := Opcode.code_of_ofCode? (Option.filter_eq_some_iff.mp found).1
    exact consumes_pure (by rw [← same]; rfl)
  next => exact consumes_throw _ _

theorem consumes_instructionTwo :
    Consumes instructionTwo fun i bytes => bytes = i.bytes .two := by
  refine consumes_position.bind fun offset _ nothing => consumes_byte.bind fun byte first one => ?_
  subst nothing one
  split
  next op mode found =>
    obtain ⟨known, valid⟩ := Option.filter_eq_some_iff.mp found
    rw [OpByte.eq_code_of_ofByte? known valid]
    exact consumes_pure rfl
  next mode found =>
    have known := (Option.filter_eq_some_iff.mp found).1
    exact (consumes_announced known).map fun o bytes spelled => spelled
  next mode found =>
    have known := (Option.filter_eq_some_iff.mp found).1
    exact (consumes_announced known).map fun o bytes spelled => spelled
  next op mode found =>
    obtain ⟨known, valid⟩ := Option.filter_eq_some_iff.mp found
    refine consumes_word.map fun target bytes written => ?_
    rw [written, OpByte.eq_code_of_ofByte? known valid]
    rfl
  next => exact consumes_throw _ _

end Reader

namespace Instruction

theorem bytes_of_decodeAt {version : Version} {body : Array UInt8} {offset next : Nat}
    {i : Instruction} (decoded : StackMachine.decodeAt version body offset = .ok (i, next)) :
    next = offset + i.size version ∧
      body.toList.drop offset = i.bytes version ++ body.toList.drop next := by
  have length := Instruction.length_bytes (wellFormed_of_decodeAt decoded).supported
  have consumes : (Reader.instruction version).Consumes fun i bytes => bytes = i.bytes version := by
    cases version with
    | one => exact Reader.consumes_instructionOne
    | two => exact Reader.consumes_instructionTwo
  unfold StackMachine.decodeAt at decoded
  split at decoded
  next result cursor ran =>
    cases decoded
    obtain ⟨bytes, rfl, rfl, rest⟩ := consumes _ _ _ ran
    exact ⟨by rw [length], rest⟩
  next => cases decoded

end Instruction

namespace Program

inductive EndsWalk (program : Program) (stop : Nat) :
    List (Except DecodeFault (Nat × Instruction)) → Prop
  | whole (ends : stop = program.length) : EndsWalk program stop []
  | fault {fault : DecodeFault} (inside : stop < program.length)
    (failed : program.decodeAt stop = .error fault) : EndsWalk program stop [.error fault]

theorem exists_walkFrom {program : Program} {offset : Nat} (inside : offset ≤ program.length) :
    ∃ code rest, let place := Layout.offset program.version code
      program.walkFrom offset = code.mapIdx (fun index i => .ok (offset + place index, i)) ++ rest ∧
        program.EndsWalk (offset + place code.length) rest ∧
        (∀ i ∈ code, i.WellFormed program.version) ∧
        program.body.toList.drop offset = Layout.bytes program.version code ++
          program.body.toList.drop (offset + place code.length) := by
  fun_induction walkFrom program offset with
  | case1 offset more fault failed =>
    exact ⟨[], [.error fault], rfl, .fault more failed, nofun, rfl⟩
  | case2 offset more i next decoded ih =>
    obtain ⟨place, bytes⟩ := Instruction.bytes_of_decodeAt decoded
    obtain ⟨code, rest, walked, ends, wellFormed, spelled⟩ := ih (decodeAt_advances decoded).2
    refine ⟨i :: code, rest, ?_, ?_, ?_, ?_⟩
    · rw [walked]
      simp [place, Nat.add_assoc]
    · simpa [place, Nat.add_assoc] using ends
    · exact List.forall_mem_cons.mpr ⟨Instruction.wellFormed_of_decodeAt decoded, wellFormed⟩
    · rw [bytes, spelled]
      simp [Layout.bytes, place, Nat.add_assoc]
  | case3 offset behind =>
    have ended : offset = program.length := by omega
    exact ⟨[], [], rfl, .whole ended, nofun, rfl⟩

theorem instructions_of_walk {program : Program} {code : List Instruction} {place : Nat → Nat}
    {stop : Nat} {rest : List (Except DecodeFault (Nat × Instruction))}
    (walked : program.walk = code.mapIdx (fun index i => .ok (place index, i)) ++ rest)
    (ends : program.EndsWalk stop rest) :
    program.instructions = code.mapIdx fun index i => (place index, i) := by
  rw [instructions, walked, List.filterMap_append, List.mapIdx_eq_zipIdx_map,
    List.mapIdx_eq_zipIdx_map, List.filterMap_map]
  have kept := congrFun (List.filterMap_eq_map (f := fun item : Instruction × Nat =>
    (place item.2, item.1))) code.zipIdx
  cases ends with
  | whole | fault => exact (List.append_nil _).trans kept

theorem exists_walk (program : Program) :
    let code := program.instructions.map Prod.snd
    let place := Layout.offset program.version code
    ∃ rest, program.walk = code.mapIdx (fun index i => .ok (place index, i)) ++ rest ∧
      program.EndsWalk (place code.length) rest ∧ (∀ i ∈ code, i.WellFormed program.version) ∧
      Layout.bytes program.version code = program.body.toList.take (place code.length) := by
  obtain ⟨code, rest, walked, ends, wellFormed, spelled⟩ :=
    exists_walkFrom (Nat.zero_le program.length)
  simp only [Nat.zero_add, List.drop_zero] at walked ends spelled
  have found : program.instructions.map Prod.snd = code := by
    simp [instructions_of_walk walked ends, List.mapIdx_eq_zipIdx_map, Function.comp_def]
  rw [found]
  refine ⟨rest, walked, ends, wellFormed, ?_⟩
  rw [← Layout.length_bytes wellFormed] at spelled ⊢
  rw [spelled, List.take_left]

def IsClean (program : Program) : Prop := ∀ fault, .error fault ∉ program.walk

theorem bytes_of_isClean {program : Program} (clean : program.IsClean) :
    Layout.bytes program.version (program.instructions.map Prod.snd) = program.body.toList := by
  obtain ⟨rest, walked, ends, -, spelled⟩ := program.exists_walk
  rw [spelled]
  cases ends with
  | whole ends =>
    rw [ends]
    exact List.take_length
  | @fault fault inside failed => exact absurd (by simp [walked]) (clean fault)

theorem eq_of_isClean {left right : Program} (version : left.version = right.version)
    (leftClean : left.IsClean) (rightClean : right.IsClean)
    (listed : left.instructions.map Prod.snd = right.instructions.map Prod.snd) : left = right := by
  have bytes : left.body.toList = right.body.toList := by
    rw [← bytes_of_isClean leftClean, ← bytes_of_isClean rightClean, version, listed]
  cases left
  cases right
  cases version
  simpa using bytes

/-- Each body is the encoding of the instructions in it, up to where a walk over it ends. -/
theorem walk_canonical (program : Program) :
    let version := program.version
    let code := program.instructions.map Prod.snd
    let stop := Layout.offset version code code.length
    (∃ rest, program.walk =
        code.mapIdx (fun index i => .ok (Layout.offset version code index, i)) ++ rest ∧
      program.EndsWalk stop rest) ∧
      (∀ i ∈ code, i.WellFormed version) ∧
      Layout.bytes version code = program.body.toList.take stop ∧
      ∀ other : Program, other.version = version → program.IsClean → other.IsClean →
        other.instructions.map Prod.snd = code → other = program := by
  intro version code stop
  obtain ⟨rest, walked, ends, wellFormed, spelled⟩ := program.exists_walk
  refine ⟨⟨rest, walked, ends⟩, wellFormed, spelled, ?_⟩
  intro other same clean otherClean listed
  exact eq_of_isClean same otherClean clean listed

end Program

end StackMachine
