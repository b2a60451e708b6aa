import Bytesmith.Text.Quoted
import Bytesmith.Wire.Bytes

namespace Bytesmith.Wire

inductive Tagged
  | moduleKind
  | valueKind
  | type
deriving DecidableEq, Repr

def Tagged.name : Tagged → String
  | .moduleKind => "module kind"
  | .valueKind => "value kind"
  | .type => "type"

inductive DecodeError
  /-- Fewer than `needed` bytes were left at `offset`. -/
  | unexpectedEof (offset needed : Nat)
  /-- The bytes from `offset` on are not UTF-8. -/
  | invalidUtf8 (offset : Nat)
  | invalidOpcode (byte : UInt8) (offset : Nat)
  | invalidTag (what : Tagged) (tag : UInt8) (offset : Nat)
deriving DecidableEq, Repr

def hexByte (b : UInt8) : String :=
  let digits := Text.hex b.toNat
  if digits.length < 2 then "0x0" ++ digits else "0x" ++ digits

def DecodeError.message : DecodeError → String
  | .unexpectedEof offset needed => s!"Unexpected end of input at offset {offset} (needed {needed} bytes)"
  | .invalidUtf8 offset => s!"Invalid UTF-8 string at offset {offset}"
  | .invalidOpcode byte offset => s!"Invalid opcode {hexByte byte} at offset {offset}"
  | .invalidTag what tag offset => s!"Invalid {what.name} tag {tag} at offset {offset}"

structure Reader where
  data : Array UInt8
  position : Nat
deriving DecidableEq, Repr

namespace Reader

def ofArray (data : Array UInt8) : Reader := ⟨data, 0⟩

def remaining (r : Reader) : Nat := r.data.size - r.position

def isAtEnd (r : Reader) : Bool := r.data.size ≤ r.position

def seek (r : Reader) (position : Nat) : Reader := { r with position := position }

end Reader

/-- A computation that reads. It ends in a value or an error, and in a reader either way. -/
abbrev ReadM := EStateM DecodeError Reader

namespace ReadM

def position : ReadM Nat := fun r => .ok r.position r

def take (n : Nat) : ReadM (List UInt8) := fun r =>
  if r.position + n ≤ r.data.size then
    .ok (r.data.extract r.position (r.position + n)).toList { r with position := r.position + n }
  else .error (.unexpectedEof r.position n) r

def word (width : Nat) : ReadM Nat := do
  return ofLittleEndian (← take width)

def u8 : ReadM UInt8 := do return (← word 1).toUInt8

def u16 : ReadM UInt16 := do return (← word 2).toUInt16

def u32 : ReadM UInt32 := do return (← word 4).toUInt32

def u64 : ReadM UInt64 := do return (← word 8).toUInt64

def i32 : ReadM Int32 := do return (← u32).toInt32

def i64 : ReadM Int64 := do return (← u64).toInt64

def f64 : ReadM Double := do return ⟨← u64⟩

def text : ReadM String := do
  let size ← word 4
  let offset ← position
  let bytes ← take size
  match String.fromUTF8? ⟨bytes.toArray⟩ with
  | some s => return s
  | none => throw (.invalidUtf8 offset)

def index : ReadM (Option UInt32) := do
  let i ← u32
  return if i = noIndex then none else some i

def times {α : Type} (item : ReadM α) : Nat → ReadM (List α)
  | 0 => return []
  | n + 1 => do
    let x ← item
    let xs ← times item n
    return x :: xs

def list {α : Type} (item : ReadM α) : ReadM (List α) := do
  times item (← word 4)

end ReadM

end Bytesmith.Wire
