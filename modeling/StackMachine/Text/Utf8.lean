set_option autoImplicit false

namespace StackMachine

namespace Utf8

inductive Fault where
  -- A sequence cut off by the end of the bytes.
  | incomplete (index : Nat)
  | invalid (index length : Nat)
  deriving DecidableEq

def Fault.message : Fault → String
  | .incomplete index => s!"incomplete utf-8 byte sequence from index {index}"
  | .invalid index length => s!"invalid utf-8 sequence of {length} bytes from index {index}"

def Fault.shift (amount : Nat) : Fault → Fault
  | .incomplete index => .incomplete (index + amount)
  | .invalid index length => .invalid (index + amount) length

/-- Bytes of a sequence that begins so, and the bounds of its second byte; the other bytes are
within `0x80` and `0xbf`. Overlong forms, surrogates and code points above U+10FFFF have no second
byte. -/
def secondByteBounds? (first : Nat) : Option (Nat × Nat × Nat) :=
  if 0xc2 ≤ first ∧ first ≤ 0xdf then some (2, 0x80, 0xbf)
  else if first = 0xe0 then some (3, 0xa0, 0xbf)
  else if first = 0xed then some (3, 0x80, 0x9f)
  else if 0xe1 ≤ first ∧ first ≤ 0xef then some (3, 0x80, 0xbf)
  else if first = 0xf0 then some (4, 0x90, 0xbf)
  else if 0xf1 ≤ first ∧ first ≤ 0xf3 then some (4, 0x80, 0xbf)
  else if first = 0xf4 then some (4, 0x80, 0x8f)
  else none

def continuation (taken : Nat) : (wanted point low high : Nat) → List UInt8 → Except Fault Nat
  | 0, point, _, _, _ => .ok point
  | _ + 1, _, _, _, [] => .error (.incomplete 0)
  | wanted + 1, point, low, high, byte :: rest =>
    if low ≤ byte.toNat ∧ byte.toNat ≤ high then
      continuation (taken + 1) wanted (point * 64 + byte.toNat % 64) 0x80 0xbf rest
    else .error (.invalid 0 taken)

def character (first : UInt8) (rest : List UInt8) : Except Fault (Char × Nat) :=
  if first < 0x80 then .ok (Char.ofNat first.toNat, 0)
  else match secondByteBounds? first.toNat with
    | none => .error (.invalid 0 1)
    | some (width, low, high) =>
      let leadBits := first.toNat % 1 <<< (7 - width)
      (continuation 1 (width - 1) leadBits low high rest).map fun point =>
        (Char.ofNat point, width - 1)

def decodeFrom (index : Nat) : List UInt8 → Except Fault (List Char)
  | [] => .ok []
  | first :: rest =>
    match character first rest with
    | .error fault => .error (fault.shift index)
    | .ok (c, used) => (decodeFrom (index + 1 + used) (rest.drop used)).map (c :: ·)
termination_by bytes => bytes.length
decreasing_by
  simp only [List.length_drop, List.length_cons]
  omega

def decode (bytes : List UInt8) : Except Fault String := (decodeFrom 0 bytes).map String.ofList

end Utf8

end StackMachine
