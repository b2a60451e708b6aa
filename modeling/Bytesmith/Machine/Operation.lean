import Bytesmith.Code.Module
import Bytesmith.Machine.Fault

namespace Bytesmith.Machine

open Code

namespace Value

def toI32 (op : Opcode) : Value → Except Fault Int32
  | .i32 n => .ok n
  | v => .error (.typeError (.operand op v.typeName))

def toI64 (op : Opcode) : Value → Except Fault Int64
  | .i64 n => .ok n
  | v => .error (.typeError (.operand op v.typeName))

def toF64 (op : Opcode) : Value → Except Fault Double
  | .f64 x => .ok x
  | v => .error (.typeError (.operand op v.typeName))

/-- The text that concatenation uses; null adds nothing. -/
def toPiece (op : Opcode) : Value → Except Fault String
  | .null => .ok ""
  | .string s => .ok s
  | v => .error (.typeError (.operand op v.typeName))

end Value

/-- Wraps around, and cuts quotients toward zero. -/
def arithI32 (op : Arithmetic) (a b : Int32) : Except Fault Int32 :=
  match op with
  | .add => .ok (a + b)
  | .sub => .ok (a - b)
  | .mul => .ok (a * b)
  | .div => if b = 0 then .error .divisionByZero else .ok (a / b)
  | .rem => if b = 0 then .error .divisionByZero else .ok (a % b)

def arithI64 (op : Arithmetic) (a b : Int64) : Except Fault Int64 :=
  match op with
  | .add => .ok (a + b)
  | .sub => .ok (a - b)
  | .mul => .ok (a * b)
  | .div => if b = 0 then .error .divisionByZero else .ok (a / b)
  | .rem => if b = 0 then .error .divisionByZero else .ok (a % b)

def arithF64 (op : Arithmetic) (a b : Double) : Double :=
  match op with
  | .add => a.add b
  | .sub => a.sub b
  | .mul => a.mul b
  | .div => a.div b
  | .rem => a.rem b

/-- The left operand is examined first. -/
def arith (kind : Numeric) (op : Arithmetic) (a b : Value) : Except Fault Value :=
  let opcode := Opcode.arith kind op
  match kind with
  | .i32 => do return .i32 (← arithI32 op (← a.toI32 opcode) (← b.toI32 opcode))
  | .i64 => do return .i64 (← arithI64 op (← a.toI64 opcode) (← b.toI64 opcode))
  | .f64 => do return .f64 (arithF64 op (← a.toF64 opcode) (← b.toF64 opcode))

def widen (w : Widening) (v : Value) : Except Fault Value :=
  let opcode := Opcode.widen w
  match w with
  | .i32ToI64 => do return .i64 (← v.toI32 opcode).toInt64
  | .i32ToF64 => do return .f64 (.ofInt32 (← v.toI32 opcode))
  | .i64ToF64 => do return .f64 (.ofInt64 (← v.toI64 opcode))

def concat (a b : Value) : Except Fault Value := do
  return .string ((← a.toPiece .concat) ++ (← b.toPiece .concat))

/-- The order of two numbers of one kind or of two strings; none when they are unordered. -/
def order (op : Opcode) (a b : Value) : Except Fault (Option Ordering) :=
  match a, b with
  | .i32 x, .i32 y => .ok (some (compare x.toInt y.toInt))
  | .i64 x, .i64 y => .ok (some (compare x.toInt y.toInt))
  | .f64 x, .f64 y => .ok (x.compare? y)
  | .string x, .string y => .ok (some (compare x y))
  | a, b => .error (.typeError (.compared op a.typeName b.typeName))

/-- Whether a branch is taken. Equality is defined on all values. -/
def test (t : Test) (a b : Value) : Except Fault Bool :=
  let ordered (holds : Ordering → Bool) : Except Fault Bool := do
    return (← order (.branch t) a b).any holds
  match t with
  | .eq => .ok (a.same b)
  | .ne => .ok (!a.same b)
  | .lt => ordered (·.isLT)
  | .le => ordered (·.isLE)
  | .gt => ordered (·.isGT)
  | .ge => ordered (·.isGE)
  | .notLt => (!·) <$> ordered (·.isLT)
  | .notLe => (!·) <$> ordered (·.isLE)
  | .notGt => (!·) <$> ordered (·.isGT)
  | .notGe => (!·) <$> ordered (·.isGE)

/-- Whether a value is an instance of the type; null is an instance of none. -/
def isInstance (m : Module) (s : Store) (v : Value) : TypeTag → Bool
  | .object => v != .null
  | .string => match v with
    | .string _ => true
    | _ => false
  | .class id => (v.classId? s).any (m.isAssignable · id)

def className (m : Module) (id : UInt32) : String :=
  match m.class? id with
  | some c => c.name
  | none => s!"class#{id}"

def tagName (m : Module) : TypeTag → String
  | .object => "object"
  | .string => "string"
  | .class id => className m id

def runtimeType (m : Module) (s : Store) : Value → String
  | .object ref => className m (s.object ref).classId
  | .boxed v => "boxed " ++ v.typeName
  | v => v.typeName

def unbox (m : Module) (s : Store) (kind : ValueKind) (v : Value) : Except Fault Value :=
  let mismatch : Except Fault Value := .error (.invalidCast (runtimeType m s v) kind.name)
  match v with
  | .null => .error (.nullReference (.unboxed kind))
  | .boxed inner => if inner.kind? = some kind then .ok inner else mismatch
  | _ => mismatch

def cast (m : Module) (s : Store) (tag : TypeTag) (v : Value) : Except Fault Value :=
  if v = .null || isInstance m s v tag then .ok v
  else .error (.invalidCast (runtimeType m s v) (tagName m tag))

def newObject (m : Module) (id : UInt32) : Except Fault Object :=
  match m.class? id with
  | none => .error (.unknown .classEntry (toString id))
  | some c =>
    if c.isAbstract || c.isInterface then .error (.abstractInstantiation c.name)
    else .ok ⟨id, (m.instanceFields id).eraseDups.map fun f =>
      (f, ((m.field? f).map fun info => Value.default info.kind).getD .null)⟩

def fieldName (m : Module) (id : UInt32) : String :=
  match m.field? id with
  | some f => f.name
  | none => toString id

def receiverClass (s : Store) (member : String) : Value → Except Fault UInt32
  | .object ref => .ok (s.object ref).classId
  | .null => .error (.nullReference (.member member))
  | v => .error (.typeError (.member member v.typeName))

def fieldReceiver (m : Module) (id : UInt32) : Value → Except Fault Nat
  | .object ref => .ok ref
  | .null => .error (.nullReference (.field (fieldName m id)))
  | v => .error (.typeError (.field (fieldName m id) v.typeName))

def loadField (m : Module) (s : Store) (id : UInt32) (receiver : Value) : Except Fault Value := do
  let ref ← fieldReceiver m id receiver
  match (s.object ref).field? id with
  | some v => .ok v
  | none => .error (.unknown .field (fieldName m id))

def storeField (m : Module) (s : Store) (id : UInt32) (receiver v : Value) :
    Except Fault Store := do
  let ref ← fieldReceiver m id receiver
  match (s.object ref).field? id with
  | some _ => .ok (s.setField ref id v)
  | none => .error (.unknown .field (fieldName m id))

/-- A static field that was never assigned has its default. -/
def loadStatic (m : Module) (s : Store) (id : UInt32) : Except Fault Value :=
  match m.field? id with
  | some f => .ok ((s.statics.lookup id).getD (.default f.kind))
  | none => .error (.unknown .field (toString id))

end Bytesmith.Machine
