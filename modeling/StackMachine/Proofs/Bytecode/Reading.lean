import StackMachine.Bytecode.Decoding

set_option autoImplicit false

namespace StackMachine

namespace Register

def InTable (r : Register) : Prop := r ∈ table.map Prod.snd

instance (r : Register) : Decidable r.InTable :=
  inferInstanceAs (Decidable (r ∈ table.map Prod.snd))

theorem ofIndex?_index : ∀ r : Register, r.InTable → ofIndex? r.index = some r := by
  unfold InTable
  decide

end Register

theorem Opcode.ofCode?_code (op : Opcode) : ofCode? op.code = some op := by
  have all : ∀ op ∈ Opcode.all, ofCode? op.code = some op := by decide
  exact all op op.mem_all

theorem OpByte.ofByte?_toByte (op : OpByte) : ofByte? op.toByte = some op := by
  have all : ∀ code ∈ Opcode.all, ∀ literal register memory : Bool,
      ofByte? (toByte ⟨code, literal, register, memory⟩) =
        some ⟨code, literal, register, memory⟩ := by decide
  obtain ⟨code, literal, register, memory⟩ := op
  exact all code code.mem_all literal register memory

namespace Reader

def Reads {α : Type} (read : Reader α) (bytes : List UInt8) (result : α) : Prop :=
  ∀ before after : List UInt8,
    read ⟨(before ++ (bytes ++ after)).toArray, before.length⟩ =
      .ok result ⟨(before ++ (bytes ++ after)).toArray, before.length + bytes.length⟩

theorem reads_pure {α : Type} (result : α) : Reads (pure result) [] result := by
  intro before after
  rfl

theorem Reads.bind {α β : Type} {first : Reader α} {next : α → Reader β} {head tail : List UInt8}
    {a : α} {b : β} (one : Reads first head a) (two : Reads (next a) tail b) :
    Reads (first >>= next) (head ++ tail) b := by
  intro before after
  have left := one before (tail ++ after)
  have right := two (before ++ head) after
  simp only [List.append_assoc, List.length_append, ← Nat.add_assoc] at left right ⊢
  simp only [Bind.bind, EStateM.bind, left, right]

theorem Reads.bind_pure {α β : Type} {first : Reader α} {next : α → Reader β} {bytes : List UInt8}
    {a : α} {b : β} (reads : Reads first bytes a) (ends : next a = pure b) :
    Reads (first >>= next) bytes b := by
  have both := reads.bind (ends ▸ reads_pure b)
  rwa [List.append_nil] at both

theorem Reads.map {α β : Type} {read : Reader α} {bytes : List UInt8} {a : α} (f : α → β)
    (reads : Reads read bytes a) : Reads (f <$> read) bytes (f a) := by
  intro before after
  have done := reads before after
  simp only [Functor.map, EStateM.map, done]

-- A reader asks for its place only to blame it, so that the place does not matter here.
theorem Reads.ofPosition {α : Type} {next : Nat → Reader α} {bytes : List UInt8} {a : α}
    (reads : ∀ offset, Reads (next offset) bytes a) : Reads (position >>= next) bytes a := by
  intro before after
  exact reads before.length before after

theorem reads_take (bytes : List UInt8) : Reads (take bytes.length) bytes bytes := by
  intro before after
  have fits : before.length + bytes.length ≤ (before ++ (bytes ++ after)).toArray.size := by
    simp
  simp only [take, if_pos fits]
  simp

theorem reads_number {α : Type} (ofNumber : Nat → α) (width number : Nat) :
    Reads (take width >>= fun bytes => pure (ofNumber (littleEndian bytes)))
      (toLittleEndian width number) (ofNumber (number % Nat.pow 256 width)) := by
  have taken := reads_take (toLittleEndian width number)
  rw [length_toLittleEndian] at taken
  have converted : Reads (take width >>= fun bytes => pure (ofNumber (littleEndian bytes))) _ _ :=
    taken.bind_pure rfl
  rwa [littleEndian_toLittleEndian] at converted

theorem reads_byte (b : UInt8) : Reads byte [b] b := by
  have read := reads_number UInt8.ofNat 1 b.toNat
  have fits : b.toNat % Nat.pow 256 1 = b.toNat := Nat.mod_eq_of_lt b.toNat_lt
  rwa [fits, toLittleEndian, toLittleEndian, UInt8.ofNat_toNat] at read

theorem reads_word (target : UInt32) : Reads word (toLittleEndian 4 target.toNat) target := by
  have read := reads_number UInt32.ofNat 4 target.toNat
  have fits : target.toNat % Nat.pow 256 4 = target.toNat := Nat.mod_eq_of_lt target.toNat_lt
  rwa [fits, UInt32.ofNat_toNat] at read

theorem reads_value (v : Binary64) : Reads value (toLittleEndian 8 v.bits.toNat) v := by
  have read := reads_number (fun number => Binary64.mk (UInt64.ofNat number)) 8 v.bits.toNat
  have fits : v.bits.toNat % Nat.pow 256 8 = v.bits.toNat := Nat.mod_eq_of_lt v.bits.toNat_lt
  rwa [fits, UInt64.ofNat_toNat] at read

theorem reads_register {r : Register} (known : r.InTable) : Reads register [r.index] r := by
  refine Reads.ofPosition fun offset => ?_
  refine (reads_byte r.index).bind_pure ?_
  rw [Register.ofIndex?_index r known]

theorem reads_part {α : Type} {read : Reader α} {encode : α → List UInt8} (content : Option α)
    (reads : ∀ a ∈ content, Reads read (encode a) a) :
    Reads (part content.isSome read) (content.elim [] encode) content := by
  cases content with
  | none => exact reads_pure none
  | some a => exact (reads a rfl).map some

end Reader

end StackMachine
