import Bytesmith.Build.Typing
import Bytesmith.Code.Pool

namespace Bytesmith.Build

open Code

inductive Literal
  | null
  | bool (b : Bool)
  | i32 (n : Int32)
  | i64 (n : Int64)
  | f64 (x : Double)
  | string (s : String)
  | enum (ty : StaticType) (member : String) (value : Int32)
deriving DecidableEq, Repr

namespace Literal

def ty : Literal → StaticType
  | .null => .null
  | .bool _ => .bool
  | .i32 _ => .int
  | .i64 _ => .long
  | .f64 _ => .double
  | .string _ => .string
  | .enum ty _ _ => ty

def text : Literal → String
  | .null => "null"
  | .bool b => if b then "true" else "false"
  | .i32 n => toString n.toInt
  | .i64 n => toString n.toInt ++ "L"
  | .f64 x => x.text
  | .string s => Text.quoted s
  | .enum ty member _ => s!"{ty.text}.{member}"

end Literal

inductive Access
  | field (id : Nat) (writable : Bool)
  | property (id : Nat) (getter setter : Option Nat)
deriving DecidableEq, Repr

structure Member where
  name : String
  ty : StaticType
  access : Access
deriving DecidableEq, Repr

inductive Variable
  | slot (method : Nat) (index : UInt16) (name : String) (ty : StaticType)
  | constant (value : Literal)
  | own (member : Member)
  | of (object : Variable) (member : Member)
  | shared (type : String) (member : Member)
deriving DecidableEq, Repr

namespace Variable

def name : Variable → String
  | .slot _ _ name _ => name
  | .constant value => value.text
  | .own m | .of _ m | .shared _ m => m.name

def ty : Variable → StaticType
  | .slot _ _ _ ty => ty
  | .constant value => value.ty
  | .own m | .of _ m | .shared _ m => m.ty

def text : Variable → String
  | .slot _ _ name _ => name
  | .constant value => value.text
  | .own m => m.name
  | .of object m => s!"{object.text}.{m.name}"
  | .shared type m => s!"{type}.{m.name}"

def definition (v : Variable) : String :=
  match v with
  | .constant value => s!"const {value.ty.text} = {value.text}"
  | v => s!"{v.ty.text} {v.name}"

/-- The method whose slots the variable depends on. -/
def owner? : Variable → Option Nat
  | .slot method _ _ _ => some method
  | .of object _ => object.owner?
  | _ => none

/-- Whether a receiver stands below the value when the variable is read or written. -/
def needsReceiver : Variable → Bool
  | .own _ | .of _ _ => true
  | .shared _ m => match m.access with
    | .property _ _ _ => true
    | .field _ _ => false
  | _ => false

end Variable

structure Output where
  emitter : Emitter
  constants : Pool

/-- Writing code that may add constants. An error keeps what was written before it. -/
abbrev CodeM := EStateM BuildError Output

namespace CodeM

def emitting {α : Type} (op : EmitM α) : CodeM α := fun o =>
  match op o.emitter with
  | .ok a e => .ok a { o with emitter := e }
  | .error err e => .error err { o with emitter := e }

def emit (i : Instr Label) : CodeM Unit := emitting (EmitM.emit i)

def ofExcept {α : Type} : Except BuildError α → CodeM α
  | .ok a => return a
  | .error e => throw e

def emitString (s : String) : CodeM Unit := do
  let o ← get
  let (index, constants) := o.constants.add s
  set { o with constants := constants }
  emit (.constStr index)

end CodeM

def Literal.load : Literal → CodeM Unit
  | .null => CodeM.emit .constNull
  | .bool b => CodeM.emit (.constBool b)
  | .i32 n => CodeM.emit (.constI32 n)
  | .i64 n => CodeM.emit (.constI64 n)
  | .f64 x => CodeM.emit (.constF64 x)
  | .string s => CodeM.emitString s
  | .enum _ _ value => CodeM.emit (.constI32 value)

namespace Member

def checkLoad (m : Member) : Except BuildError Unit :=
  match m.access with
  | .property _ none _ => .error (.invalidOperation (.noGetter m.name))
  | _ => .ok ()

def checkSave (m : Member) : Except BuildError Unit :=
  match m.access with
  | .field _ false => .error (.invalidOperation (.readonlyField m.name))
  | .property _ _ none => .error (.invalidOperation (.noSetter m.name))
  | _ => .ok ()

/-- Replaces the receiver on the stack by the value; a static field has no receiver. -/
def load (m : Member) (isStatic : Bool) : CodeM Unit :=
  match m.access with
  | .field id _ =>
    CodeM.emit (if isStatic then .loadStatic id.toUInt32 else .loadField id.toUInt32)
  | .property _ (some getter) _ => CodeM.emit (.call .method getter.toUInt32 0)
  | .property _ none _ => throw (.invalidOperation (.noGetter m.name))

/-- Takes the value and the receiver below it from the stack. -/
def save (m : Member) (isStatic : Bool) : CodeM Unit :=
  match m.access with
  | .field id _ =>
    CodeM.emit (if isStatic then .storeStatic id.toUInt32 else .storeField id.toUInt32)
  | .property _ _ (some setter) => CodeM.emit (.call .method setter.toUInt32 1)
  | .property _ _ none => throw (.invalidOperation (.noSetter m.name))

end Member

namespace Variable

def checkLoad : Variable → Except BuildError Unit
  | .own m | .shared _ m => m.checkLoad
  | .of object m => do
    m.checkLoad
    object.checkLoad
  | _ => .ok ()

def checkSave : Variable → Except BuildError Unit
  | .slot _ _ _ _ => .ok ()
  | .constant value => .error (.invalidArgument (.constantTarget value.text))
  | .own m | .shared _ m => m.checkSave
  | .of object m => do
    m.checkSave
    object.checkLoad

def load : Variable → CodeM Unit
  | .slot _ index _ _ => CodeM.emit (.loadLocal index)
  | .constant value => value.load
  | .own m => do
    CodeM.emit (.loadLocal 0)
    m.load false
  | .of object m => do
    object.load
    m.load false
  | .shared _ m => m.load true

def loadReceiver : Variable → CodeM Unit
  | .own _ => CodeM.emit (.loadLocal 0)
  | .of object _ => object.load
  | _ => return ()

def save : Variable → CodeM Unit
  | .slot _ index _ _ => CodeM.emit (.storeLocal index)
  | .constant value => throw (.invalidArgument (.constantTarget value.text))
  | .own m | .of _ m => m.save false
  | .shared _ m => m.save true

end Variable

end Bytesmith.Build
