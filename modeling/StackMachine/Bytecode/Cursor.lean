import StackMachine.Binary64.Basic
import StackMachine.Text.Display

set_option autoImplicit false

namespace StackMachine

def littleEndian : List UInt8 → Nat
  | [] => 0
  | byte :: rest => byte.toNat + 256 * littleEndian rest

def toLittleEndian : (width value : Nat) → List UInt8
  | 0, _ => []
  | width + 1, value => UInt8.ofNat value :: toLittleEndian width (value / 256)

@[simp] theorem length_toLittleEndian (width value : Nat) :
    (toLittleEndian width value).length = width := by
  induction width generalizing value with
  | zero => rfl
  | succ width ih => simp [toLittleEndian, ih]

theorem littleEndian_toLittleEndian (width value : Nat) :
    littleEndian (toLittleEndian width value) = value % Nat.pow 256 width := by
  induction width generalizing value with
  | zero => simp [toLittleEndian, littleEndian, Nat.mod_one]
  | succ width ih =>
    simp only [toLittleEndian, littleEndian, ih, UInt8.toNat_ofNat']
    rw [show Nat.pow 256 (width + 1) = 256 * Nat.pow 256 width from Nat.pow_succ', Nat.mod_mul]

theorem toLittleEndian_littleEndian (bytes : List UInt8) :
    toLittleEndian bytes.length (littleEndian bytes) = bytes := by
  induction bytes with
  | nil => rfl
  | cons byte rest ih =>
    have low := byte.toNat_lt
    have quotient : (byte.toNat + 256 * littleEndian rest) / 256 = littleEndian rest := by omega
    simp only [List.length_cons, toLittleEndian, littleEndian, quotient, ih, List.cons.injEq,
      and_true]
    apply UInt8.toNat.inj
    rw [UInt8.toNat_ofNat']
    omega

inductive DecodeFault where
  | undefinedCommand (byte : UInt8) (offset : Nat)
  | invalidRegister (index : UInt8) (offset : Nat)
  | unexpectedEnd (offset : Nat)
  deriving DecidableEq

def DecodeFault.message : DecodeFault → String
  | .undefinedCommand byte offset => s!"undefined command {byteText byte} at offset {offset}"
  | .invalidRegister index offset => s!"invalid register index {index.toNat} at offset {offset}"
  | .unexpectedEnd offset => s!"unexpected end of bytecode at offset {offset}"

/-- A place in bytes, which may lie past their end. -/
structure Cursor where
  bytes : Array UInt8
  position : Nat

def Cursor.remaining (cursor : Cursor) : Nat := cursor.bytes.size - cursor.position

def Cursor.isAtEnd (cursor : Cursor) : Bool := cursor.remaining == 0

abbrev Reader := EStateM DecodeFault Cursor

namespace Reader

def position : Reader Nat := fun cursor => .ok cursor.position cursor

def take (count : Nat) : Reader (List UInt8) := fun cursor =>
  let stop := cursor.position + count
  if stop ≤ cursor.bytes.size then
    .ok (cursor.bytes.extract cursor.position stop).toList { cursor with position := stop }
  else .error (.unexpectedEnd cursor.position) cursor

def byte : Reader UInt8 := do
  let bytes ← take 1
  return UInt8.ofNat (littleEndian bytes)

def word : Reader UInt32 := do
  let bytes ← take 4
  return UInt32.ofNat (littleEndian bytes)

def value : Reader Binary64 := do
  let bytes ← take 8
  return ⟨UInt64.ofNat (littleEndian bytes)⟩

end Reader

end StackMachine
