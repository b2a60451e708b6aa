import Bytesmith.Code.Class
import Bytesmith.Code.Function
import Bytesmith.Code.Pool

namespace Bytesmith.Code

structure Module where
  magic : List UInt8
  version : UInt32
  flags : UInt32
  name : String
  kind : ModuleKind
  entryPoint : Option UInt32
  constants : Pool
  functions : List Function
  classes : List ClassEntry
  fields : List FieldEntry
  enums : List EnumTable
  listing : Option String
  checksum : List UInt8
deriving DecidableEq, Repr

namespace Module

def standardMagic : List UInt8 := [0x52, 0x59, 0x45, 0x4D]

def currentVersion : UInt32 := 1

def empty (name : String) (kind : ModuleKind) : Module where
  magic := standardMagic
  version := currentVersion
  flags := 0
  name := name
  kind := kind
  entryPoint := none
  constants := .empty
  functions := []
  classes := []
  fields := []
  enums := []
  listing := none
  checksum := List.replicate 32 0

def class? (m : Module) (id : UInt32) : Option ClassEntry := m.classes[id.toNat]?

def function? (m : Module) (id : UInt32) : Option Function := m.functions[id.toNat]?

def field? (m : Module) (id : UInt32) : Option FieldEntry := m.fields[id.toNat]?

def findClass? (m : Module) (name : String) : Option UInt32 :=
  (m.classes.findIdx? (·.name == name)).map (·.toUInt32)

/-- A class and its parents, nearest first, for at most `steps` classes. -/
def chainFrom (m : Module) : Nat → Option UInt32 → List ClassEntry
  | 0, _ => []
  | _, none => []
  | steps + 1, some id =>
    match m.class? id with
    | none => []
    | some c => c :: m.chainFrom steps c.parent

def chain (m : Module) (id : UInt32) : List ClassEntry := m.chainFrom m.classes.length (some id)

def findMethod? (m : Module) (id : UInt32) (name : String) : Option UInt32 :=
  (m.chain id).findSome? (·.method? name)

def findProperty? (m : Module) (id : UInt32) (name : String) : Option PropertyEntry :=
  (m.chain id).findSome? (·.property? name)

def declaredField? (m : Module) (c : ClassEntry) (name : String) : Option UInt32 :=
  c.fields.find? fun f => (m.field? f).any (·.name == name)

def findField? (m : Module) (id : UInt32) (name : String) : Option UInt32 :=
  (m.chain id).findSome? (m.declaredField? · name)

/-- The fields an instance has, those of the farthest ancestor first. -/
def instanceFields (m : Module) (id : UInt32) : List UInt32 :=
  ((m.chain id).reverse.flatMap (·.fields)).filter fun f => (m.field? f).any (!·.isStatic)

/-- Whether `target` is met on the way from a class along parents and interfaces, following at
most `steps` links. The class itself need not exist. -/
def reaches (m : Module) (target : UInt32) : Nat → UInt32 → Bool
  | 0, id => id == target
  | steps + 1, id =>
    id == target ||
      match m.class? id with
      | none => false
      | some c => (c.interfaces ++ c.parent.toList).any (m.reaches target steps)

def isAssignable (m : Module) (id target : UInt32) : Bool := m.reaches target m.classes.length id

def implementation? (m : Module) (id : UInt32) (name : String) (arity : Nat) : Option UInt32 :=
  (m.chain id).findSome? fun c =>
    (c.methods.find? fun entry =>
      entry.name == name && (m.function? entry.function).any fun f =>
        !f.isStatic && !f.isAbstract && f.arity == arity).map (·.function)

end Module

end Bytesmith.Code
