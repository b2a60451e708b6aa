import Bytesmith.Text.Column
import Bytesmith.Wire.Reader

namespace Bytesmith.Code

open Wire

inductive ValueKind
  | reference
  | bool
  | i32
  | i64
  | f64
deriving DecidableEq, Repr

namespace ValueKind

def toByte : ValueKind → UInt8
  | .reference => 0
  | .bool => 1
  | .i32 => 2
  | .i64 => 3
  | .f64 => 4

def ofByte? : UInt8 → Option ValueKind
  | 0 => some .reference
  | 1 => some .bool
  | 2 => some .i32
  | 3 => some .i64
  | 4 => some .f64
  | _ => none

def name : ValueKind → String
  | .reference => "ref"
  | .bool => "bool"
  | .i32 => "i32"
  | .i64 => "i64"
  | .f64 => "f64"

def all : List ValueKind := [.reference, .bool, .i32, .i64, .f64]

def ofName? (s : String) : Option ValueKind := all.find? (·.name == s)

def ofTag (tag : UInt8) (offset : Nat) : Except DecodeError ValueKind :=
  match ofByte? tag with
  | some kind => .ok kind
  | none => .error (.invalidTag .valueKind tag offset)

def encode (kind : ValueKind) : List UInt8 := [kind.toByte]

def decode : ReadM ValueKind := do
  let offset ← ReadM.position
  let tag ← ReadM.u8
  match ofTag tag offset with
  | .ok kind => return kind
  | .error e => throw e

end ValueKind

inductive TypeTag
  | object
  | string
  | class (id : UInt32)
deriving DecidableEq, Repr

namespace TypeTag

def encode : TypeTag → List UInt8
  | .object => u8 0 ++ u32 0
  | .string => u8 1 ++ u32 0
  | .class id => u8 2 ++ u32 id

/-- The number is read for every tag; only a class uses it. -/
def decode : ReadM TypeTag := do
  let offset ← ReadM.position
  let tag ← ReadM.u8
  let id ← ReadM.u32
  match tag with
  | 0 => return .object
  | 1 => return .string
  | 2 => return .class id
  | _ => throw (.invalidTag .type tag offset)

end TypeTag

inductive ModuleKind
  | library
  | executable
deriving DecidableEq, Repr

namespace ModuleKind

def name : ModuleKind → String
  | .library => "library"
  | .executable => "executable"

def ofName? (s : String) : Option ModuleKind := [library, executable].find? (·.name == s)

def extension : ModuleKind → String
  | .library => "ryb"
  | .executable => "rye"

def encode : ModuleKind → List UInt8
  | .library => u8 0
  | .executable => u8 1

def decode : ReadM ModuleKind := do
  let offset ← ReadM.position
  let tag ← ReadM.u8
  match tag with
  | 0 => return .library
  | 1 => return .executable
  | _ => throw (.invalidTag .moduleKind tag offset)

end ModuleKind

end Bytesmith.Code
