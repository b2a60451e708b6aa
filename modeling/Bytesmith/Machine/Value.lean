import Bytesmith.Code.Kind

namespace Bytesmith.Machine

open Code

inductive Value
  | null
  | bool (b : Bool)
  | i32 (n : Int32)
  | i64 (n : Int64)
  | f64 (x : Double)
  | string (s : String)
  /-- An index into the heap. -/
  | object (ref : Nat)
  /-- A value wrapped so that it is a reference. -/
  | boxed (v : Value)
deriving DecidableEq, Repr, Inhabited

namespace Value

def default : ValueKind → Value
  | .reference => .null
  | .bool => .bool false
  | .i32 => .i32 0
  | .i64 => .i64 0
  | .f64 => .f64 .zero

def kind? : Value → Option ValueKind
  | .null => none
  | .bool _ => some .bool
  | .i32 _ => some .i32
  | .i64 _ => some .i64
  | .f64 _ => some .f64
  | .string _ | .object _ | .boxed _ => some .reference

def typeName : Value → String
  | .null => "null"
  | .bool _ => "bool"
  | .i32 _ => "int"
  | .i64 _ => "long"
  | .f64 _ => "double"
  | .string _ => "string"
  | .object _ => "object"
  | .boxed _ => "boxed"

/-- Equality as programs see it: numbers by value, objects by identity. -/
def same : Value → Value → Bool
  | .f64 x, .f64 y => x.same y
  | .boxed v, .boxed w => v.same w
  | v, w => v == w

end Value

structure Object where
  classId : UInt32
  fields : List (UInt32 × Value)
deriving DecidableEq, Repr

namespace Object

def field? (o : Object) (id : UInt32) : Option Value := o.fields.lookup id

def setField (o : Object) (id : UInt32) (v : Value) : Object :=
  { o with fields := o.fields.map fun f => if f.1 = id then (id, v) else f }

end Object

structure Store where
  heap : Array Object
  statics : List (UInt32 × Value)
deriving DecidableEq, Repr

namespace Store

def empty : Store := ⟨#[], []⟩

/-- References come from `allocate` only, so the object is always there. -/
def object (s : Store) (ref : Nat) : Object := s.heap.getD ref ⟨Wire.noIndex, []⟩

def allocate (s : Store) (o : Object) : Nat × Store :=
  (s.heap.size, { s with heap := s.heap.push o })

def setField (s : Store) (ref : Nat) (id : UInt32) (v : Value) : Store :=
  { s with heap := s.heap.modify ref (·.setField id v) }

def setStatic (s : Store) (id : UInt32) (v : Value) : Store :=
  { s with statics := (id, v) :: s.statics.filter (·.1 ≠ id) }

end Store

def Value.classId? (s : Store) : Value → Option UInt32
  | .object ref => some (s.object ref).classId
  | _ => none

def Value.text (s : Store) : Value → String
  | .null => "null"
  | .bool b => if b then "true" else "false"
  | .i32 n => toString n.toInt
  | .i64 n => toString n.toInt
  | .f64 x => x.text
  | .string t => t
  | .object ref => s!"object#{(s.object ref).classId}"
  | .boxed v => v.text s

end Bytesmith.Machine
