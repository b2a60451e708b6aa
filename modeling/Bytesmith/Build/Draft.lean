import Bytesmith.Build.Command
import Bytesmith.Build.Options
import Bytesmith.Code.Module
import Bytesmith.Text.Blank

namespace Bytesmith.Build

open Code

structure TypeAttributes where
  isPublic : Bool := false
  isAbstract : Bool := false
  /-- Not to be used as a base. -/
  isSealed : Bool := false
  isInterface : Bool := false
deriving DecidableEq, Repr

structure MethodAttributes where
  isPublic : Bool := false
  isStatic : Bool := false
  isAbstract : Bool := false
deriving DecidableEq, Repr

structure FieldAttributes where
  isPublic : Bool := false
  isStatic : Bool := false
  isReadonly : Bool := false
deriving DecidableEq, Repr

structure TypeDef where
  name : String
  attrs : TypeAttributes
  base : Option Nat
  interfaces : List Nat
  fields : List Nat
  properties : List Nat
  methods : List Nat
  constructors : List Nat
  /-- The finished class; a type that has one takes no more members. -/
  created : Option ClassEntry

structure EnumDef where
  name : String
  members : List (String × Int32)
  created : Option EnumTable

structure FieldDef where
  owner : Nat
  name : String
  ty : StaticType
  attrs : FieldAttributes

structure PropertyDef where
  owner : Nat
  name : String
  ty : StaticType
  getter : Option Nat
  setter : Option Nat
  backing : Option Nat

structure Parameter where
  name : String
  ty : StaticType
deriving DecidableEq, Repr

inductive Block
  /-- The label of the failed condition is gone once there is an else branch. -/
  | conditional (elseLabel : Option Label) (finalLabel : Label)
  | loop (startLabel endLabel : Label)
  | guarded (hasCatch : Bool)
deriving DecidableEq, Repr

namespace Block

def kind : Block → BlockKind
  | .conditional _ _ => .conditional
  | .loop _ _ => .loop
  | .guarded _ => .guarded

def describe : Block → String
  | .conditional none _ => "If with Else"
  | .guarded false => "Try without Catch"
  | b => b.kind.text

end Block

/-- A body takes operations while it is open. An operation that fails aborts it. -/
inductive BodyState
  | open
  | aborted
  | finished (body : Body)
deriving DecidableEq, Repr

structure MethodDef where
  owner : Nat
  name : String
  attrs : MethodAttributes
  returnType : StaticType
  params : List Parameter
  isConstructor : Bool
  isSynthesized : Bool
  emitter : Emitter
  commands : Array Emitted
  /-- Innermost first. -/
  blocks : List Block
  state : BodyState

namespace MethodDef

def slotCount (attrs : MethodAttributes) (params : List Parameter) : Nat :=
  params.length + if attrs.isStatic then 0 else 1

def start (owner : Nat) (name : String) (attrs : MethodAttributes) (returnType : StaticType)
    (params : List Parameter) (isConstructor : Bool) : MethodDef where
  owner := owner
  name := name
  attrs := attrs
  returnType := returnType
  params := params
  isConstructor := isConstructor
  isSynthesized := false
  emitter := .start name (slotCount attrs params)
  commands := #[]
  blocks := []
  state := .open

def paramTypes (m : MethodDef) : List StaticType := m.params.map (·.ty)

def typeList (types : List StaticType) : String := ", ".intercalate (types.map (·.text))

def signature (m : MethodDef) : String := s!"{m.name}({typeList m.paramTypes})"

def paramCount (m : MethodDef) : Nat := slotCount m.attrs m.params

def body? (m : MethodDef) : Option Body :=
  match m.state with
  | .finished body => some body
  | _ => none

def declares (m : MethodDef) (name : String) : Bool :=
  m.params.any (·.name == name) || m.emitter.locals.contains name

def flags (m : MethodDef) : UInt32 :=
  (if m.attrs.isStatic then Function.staticFlag else 0) |||
  (if m.isConstructor then Function.constructorFlag else 0) |||
  (if m.attrs.isAbstract then Function.abstractFlag else 0) |||
  (if m.returnType.isVoid then 0 else Function.returnsValueFlag)

end MethodDef

/-- A module in the making. Its definitions are known by their places in the tables, of which there
is no end; an instruction has 32 bits for a place, so that what is said of code which names
definitions supposes tables of at most 2 ^ 32 entries. -/
structure Draft where
  name : String
  options : Options
  types : Array TypeDef
  enums : Array EnumDef
  methods : Array MethodDef
  fields : Array FieldDef
  properties : Array PropertyDef
  constants : Pool
  nameCount : Nat
  entryPoint : Option Nat
  /-- The finished module; a draft that has one takes no more definitions. -/
  created : Option Module

def constructorName : String := ".ctor"

namespace Draft

def empty (name : String) (options : Options) : Draft where
  name := name
  options := options
  types := #[]
  enums := #[]
  methods := #[]
  fields := #[]
  properties := #[]
  constants := .empty
  nameCount := 0
  entryPoint := none
  created := none

def handleText (id : Nat) : String := s!"#{id}"

def find {α : Type} (kind : MemberKind) (table : Array α) (id : Nat) : Except BuildError α :=
  match table[id]? with
  | some a => .ok a
  | none => .error (.unknownMember kind (handleText id))

def type (d : Draft) (id : Nat) : Except BuildError TypeDef := find .type d.types id

def enum (d : Draft) (id : Nat) : Except BuildError EnumDef := find .enum d.enums id

def method (d : Draft) (id : Nat) : Except BuildError MethodDef := find .method d.methods id

def classType (d : Draft) (id : Nat) : Except BuildError StaticType := do
  return .class id (← d.type id).name

def enumType (d : Draft) (id : Nat) : Except BuildError StaticType := do
  return .enum id (← d.enum id).name

def ensureOpen (d : Draft) : Except BuildError Unit :=
  if d.created.isSome then .error (.moduleSealed d.name) else .ok ()

def modifyType (d : Draft) (id : Nat) (f : TypeDef → TypeDef) : Draft :=
  { d with types := d.types.modify id f }

def modifyMethod (d : Draft) (id : Nat) (f : MethodDef → MethodDef) : Draft :=
  { d with methods := d.methods.modify id f }

end Draft

def requireName (kind : MemberKind) (name : String) : Except BuildError Unit :=
  if Text.isBlankText name then .error (.invalidArgument (.emptyName kind)) else .ok ()

def requireStorable (kind : MemberKind) (name : String) (ty : StaticType) :
    Except BuildError Unit :=
  if ty.isStorable then .ok () else .error (.invalidArgument (.notStorable kind name ty))

/-- A computation on a draft. What it did before it failed stays. -/
abbrev BuildM := EStateM BuildError Draft

namespace BuildM

def ofExcept {α : Type} : Except BuildError α → BuildM α
  | .ok a => return a
  | .error e => throw e

def reading {α : Type} (f : Draft → Except BuildError α) : BuildM α := do
  ofExcept (f (← get))

end BuildM

end Bytesmith.Build
