import Bytesmith.Code.Instr

namespace Bytesmith.Build

open Code

/-- Classes and enums are given by handle and name. -/
inductive StaticType
  | void
  | bool
  | int
  | long
  | double
  | string
  | object
  | null
  | class (id : Nat) (name : String)
  | enum (id : Nat) (name : String)
deriving DecidableEq, Repr

namespace StaticType

def text : StaticType → String
  | .void => "void"
  | .bool => "bool"
  | .int => "int"
  | .long => "long"
  | .double => "double"
  | .string => "string"
  | .object => "object"
  | .null => "null"
  | .class _ name | .enum _ name => name

def builtin : List StaticType := [.void, .bool, .int, .long, .double, .string, .object, .null]

def ofText? (s : String) : Option StaticType := builtin.find? (·.text == s)

def isValue : StaticType → Bool
  | .bool | .int | .long | .double | .enum _ _ => true
  | _ => false

def isReference : StaticType → Bool
  | .string | .object | .null | .class _ _ => true
  | _ => false

def isVoid : StaticType → Bool
  | .void => true
  | _ => false

/-- Neither void nor null, so that something of the type can be stored. -/
def isStorable : StaticType → Bool
  | .void | .null => false
  | _ => true

/-- Values of the type have an order, though they are no numbers. -/
def isOrdered : StaticType → Bool
  | .string | .enum _ _ => true
  | _ => false

def classId? : StaticType → Option Nat
  | .class id _ => some id
  | _ => none

def numeric? : StaticType → Option Numeric
  | .int => some .i32
  | .long => some .i64
  | .double => some .f64
  | _ => none

def isNumeric (t : StaticType) : Bool := t.numeric?.isSome

def ofNumeric : Numeric → StaticType
  | .i32 => .int
  | .i64 => .long
  | .f64 => .double

def valueKind : StaticType → ValueKind
  | .bool => .bool
  | .int | .enum _ _ => .i32
  | .long => .i64
  | .double => .f64
  | _ => .reference

def tag? : StaticType → Option TypeTag
  | .object => some .object
  | .string => some .string
  | .class id _ => some (.class id.toUInt32)
  | _ => none

def common? (a b : StaticType) : Option StaticType := do
  return ofNumeric ((← a.numeric?).max (← b.numeric?))

def widening? (source target : StaticType) : Option Widening := do
  (← source.numeric?).widening? (← target.numeric?)

def arithmetic? {τ : Type} (t : StaticType) (op : Arithmetic) : Option (Instr τ) :=
  match t, op with
  | .string, .add => some .concat
  | t, op => t.numeric?.map (.arith · op)

end StaticType

end Bytesmith.Build
