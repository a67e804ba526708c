import StackMachine.Proofs.Bytecode.Canonical

set_option autoImplicit false

namespace StackMachine

theorem Register.ofIndex?_eq_none_iff (index : UInt8) :
    ofIndex? index = none ↔ index = 0 ∨ 8 < index := by
  have all : ∀ place : Fin 256, ofIndex? (UInt8.ofNat place) = none ↔
      UInt8.ofNat place = 0 ∨ 8 < UInt8.ofNat place := by
    decide +kernel
  simpa using all ⟨index.toNat, index.toNat_lt⟩

def DecodeFault.FoundBy (start stop : Cursor) : DecodeFault → Prop
  | .undefinedCommand byte place =>
    place = start.position ∧ start.bytes[place]? = some byte ∧ stop.position = place + 1
  | .invalidRegister index place =>
    place = start.position + 1 ∧ start.bytes[place]? = some index ∧ (index = 0 ∨ 8 < index) ∧
      stop.position = place + 1
  | .unexpectedEnd place =>
    stop.position = place ∧
      (place = start.position ∧ start.bytes.size ≤ place ∨
        start.position < place ∧ place ≤ start.position + 2 ∧ place ≤ start.bytes.size)

namespace Reader

variable {α β : Type} {start : Cursor} {blames : DecodeFault → Cursor → Prop}

def Fails (read : Reader α) (start : Cursor) (blames : DecodeFault → Cursor → Prop) : Prop :=
  ∀ fault stop, read start = .error fault stop → blames fault stop

theorem fails_pure (a : α) : Fails (pure a) start blames := by
  intro fault stop failed
  cases failed

theorem fails_throw {fault : DecodeFault} (blamed : blames fault start) :
    Fails (throw fault : Reader α) start blames := by
  intro other stop failed
  cases failed
  exact blamed

theorem Fails.bind {first : Reader α} {next : α → Reader β} (one : Fails first start blames)
    (two : ∀ a middle, first start = .ok a middle → Fails (next a) middle blames) :
    Fails (first >>= next) start blames := by
  intro fault stop failed
  simp only [Bind.bind, EStateM.bind] at failed
  split at failed
  next a middle ran => exact two a middle ran fault stop failed
  next ran =>
    cases failed
    exact one _ _ ran

theorem Fails.map {read : Reader α} {f : α → β} (fails : Fails read start blames) :
    Fails (f <$> read) start blames :=
  fails.bind fun a _ _ => fails_pure (f a)

theorem Fails.part {read : Reader α} (announced : Bool) (fails : Fails read start blames) :
    Fails (part announced read) start blames := by
  cases announced with
  | false => exact fails_pure none
  | true => exact fails.map

theorem fails_position : Fails position start blames := by
  intro fault stop failed
  cases failed

theorem fails_number {count : Nat} {ofBytes : List UInt8 → α}
    (ends : start.bytes.size < start.position + count →
      blames (.unexpectedEnd start.position) start) :
    Fails (take count >>= fun bytes => pure (ofBytes bytes)) start blames := by
  refine Fails.bind ?_ fun bytes _ _ => fails_pure _
  intro fault stop failed
  simp only [take] at failed
  split at failed
  next => cases failed
  next short =>
    cases failed
    exact ends (Nat.not_le.mp short)

theorem byte_eq_ok {result : UInt8} {stop : Cursor} (ran : byte start = .ok result stop) :
    start.bytes[start.position]? = some result ∧ start.position < start.bytes.size ∧
      stop = ⟨start.bytes, start.position + 1⟩ := by
  obtain ⟨bytes, rfl, rfl, here⟩ := consumes_byte _ _ _ ran
  have first := congrArg List.head? here
  exact ⟨by simpa [List.head?_drop] using first, (lt_position_of_byte ran).2.1, rfl⟩

theorem fails_register
    (ends : start.bytes.size ≤ start.position → blames (.unexpectedEnd start.position) start)
    (unknown : ∀ index, start.bytes[start.position]? = some index → index = 0 ∨ 8 < index →
      blames (.invalidRegister index start.position) ⟨start.bytes, start.position + 1⟩) :
    Fails register start blames := by
  refine fails_position.bind fun offset before here => ?_
  cases here
  refine Fails.bind ?_ fun index after read => ?_
  · exact fails_number fun short => ends (Nat.le_of_lt_succ short)
  · obtain ⟨stands, -, rfl⟩ := byte_eq_ok read
    split
    next => exact fails_pure _
    next none =>
      exact fails_throw (unknown index stands ((Register.ofIndex?_eq_none_iff index).mp none))

theorem position_of_part_register {announced : Bool} {result : Option Register} {stop : Cursor}
    (ran : part announced register start = .ok result stop) :
    stop.bytes = start.bytes ∧ start.position ≤ stop.position ∧
      stop.position ≤ start.position + 1 ∧
      (stop.position = start.position ∨ stop.position ≤ start.bytes.size) := by
  obtain ⟨bytes, spelled, rfl, -⟩ := consumes_part announced consumes_register _ _ _ ran
  obtain ⟨-, -, inside⟩ := forward_register.part announced _ _ _ ran
  cases result <;> simp_all

section

variable {before : Cursor}

theorem fails_operand (mode : Mode) (inside : before.position < before.bytes.size) :
    Fails (operand mode) ⟨before.bytes, before.position + 1⟩
      fun fault stop => fault.FoundBy before stop := by
  refine Fails.bind ?_ fun r middle read => ?_
  · refine (fails_register ?_ ?_).part _
    · exact fun _ => ⟨rfl, .inr (by simp only; omega)⟩
    · exact fun index stands outside => ⟨rfl, stands, outside, rfl⟩
  · obtain ⟨-, least, most, limit⟩ := position_of_part_register read
    simp only at least most limit
    refine Fails.bind ?_ fun literal _ _ => fails_pure _
    exact (fails_number fun _ => ⟨rfl, .inr (by omega)⟩).part _

theorem fails_behind {count : Nat} {ofBytes : List UInt8 → α}
    (inside : before.position < before.bytes.size) :
    Fails (take count >>= fun bytes => pure (ofBytes bytes)) ⟨before.bytes, before.position + 1⟩
      fun fault stop => fault.FoundBy before stop :=
  fails_number fun _ => ⟨rfl, .inr (by simp only; omega)⟩

theorem fails_first {tail : Nat → UInt8 → Reader α}
    (behind : ∀ first, start.bytes[start.position]? = some first →
      start.position < start.bytes.size →
      Fails (tail start.position first) ⟨start.bytes, start.position + 1⟩
        fun fault stop => fault.FoundBy start stop) :
    Fails (position >>= fun offset => byte >>= tail offset) start
      fun fault stop => fault.FoundBy start stop := by
  refine fails_position.bind fun offset here same => ?_
  cases same
  refine Fails.bind ?_ fun first middle read => ?_
  · exact fails_number fun short => ⟨rfl, .inl ⟨rfl, Nat.le_of_lt_succ short⟩⟩
  · obtain ⟨stands, inside, rfl⟩ := byte_eq_ok read
    exact behind first stands inside

end

theorem fails_instructionOne (start : Cursor) :
    Fails instructionOne start fun fault stop => fault.FoundBy start stop := by
  apply fails_first
  intro first stands inside
  split
  next => exact (fails_behind inside).map
  next => exact fails_pure _
  next => exact fails_throw ⟨rfl, stands, rfl⟩

theorem fails_instructionTwo (start : Cursor) :
    Fails instructionTwo start fun fault stop => fault.FoundBy start stop := by
  apply fails_first
  intro first stands inside
  split
  next => exact fails_pure _
  next mode _ => exact (fails_operand mode inside).map
  next mode _ => exact (fails_operand mode inside).map
  next => exact (fails_behind inside).map
  next => exact fails_throw ⟨rfl, stands, rfl⟩

theorem fails_instruction (version : Version) (start : Cursor) :
    Fails (instruction version) start fun fault stop => fault.FoundBy start stop := by
  cases version with
  | one => exact fails_instructionOne start
  | two => exact fails_instructionTwo start

end Reader

theorem foundBy_of_decodeAt {version : Version} {body : Array UInt8} {offset : Nat}
    {fault : DecodeFault} (failed : decodeAt version body offset = .error fault) :
    ∃ stop, fault.FoundBy ⟨body, offset⟩ stop := by
  unfold decodeAt at failed
  split at failed
  next => cases failed
  next stop ran =>
    cases failed
    exact ⟨stop, Reader.fails_instruction _ _ _ _ ran⟩

end StackMachine
