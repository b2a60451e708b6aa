import Bytesmith.Code.Kind

namespace Bytesmith.Code

open Wire

structure MethodEntry where
  name : String
  function : UInt32
deriving DecidableEq, Repr

structure PropertyEntry where
  name : String
  getter : Option UInt32
  setter : Option UInt32
deriving DecidableEq, Repr

structure ClassEntry where
  name : String
  parent : Option UInt32
  interfaces : List UInt32
  isInterface : Bool
  isAbstract : Bool
  /-- Declared fields by their index in the field table. -/
  fields : List UInt32
  methods : List MethodEntry
  constructors : List UInt32
  properties : List PropertyEntry
deriving DecidableEq, Repr

structure FieldEntry where
  name : String
  owner : UInt32
  kind : ValueKind
  isStatic : Bool
deriving DecidableEq, Repr

structure EnumTable where
  name : String
  members : List (String × Int32)
deriving DecidableEq, Repr

namespace MethodEntry

def encode (m : MethodEntry) : List UInt8 := text m.name ++ u32 m.function

def decode : ReadM MethodEntry := do
  let name ← ReadM.text
  let function ← ReadM.u32
  return ⟨name, function⟩

end MethodEntry

namespace PropertyEntry

def encode (p : PropertyEntry) : List UInt8 := text p.name ++ index p.getter ++ index p.setter

def decode : ReadM PropertyEntry := do
  let name ← ReadM.text
  let getter ← ReadM.index
  let setter ← ReadM.index
  return ⟨name, getter, setter⟩

end PropertyEntry

namespace ClassEntry

def method? (c : ClassEntry) (name : String) : Option UInt32 :=
  (c.methods.find? (·.name == name)).map (·.function)

def property? (c : ClassEntry) (name : String) : Option PropertyEntry :=
  c.properties.find? (·.name == name)

def flags (c : ClassEntry) : UInt8 :=
  (if c.isInterface then 1 else 0) ||| (if c.isAbstract then 2 else 0)

def encode (c : ClassEntry) : List UInt8 :=
  text c.name ++ index c.parent ++ u8 c.flags ++ Wire.list u32 c.interfaces ++
    Wire.list u32 c.fields ++ Wire.list MethodEntry.encode c.methods ++
    Wire.list u32 c.constructors ++ Wire.list PropertyEntry.encode c.properties

def decode : ReadM ClassEntry := do
  let name ← ReadM.text
  let parent ← ReadM.index
  let flags ← ReadM.u8
  let interfaces ← ReadM.list ReadM.u32
  let fields ← ReadM.list ReadM.u32
  let methods ← ReadM.list MethodEntry.decode
  let constructors ← ReadM.list ReadM.u32
  let properties ← ReadM.list PropertyEntry.decode
  return ⟨name, parent, interfaces, flags &&& 1 != 0, flags &&& 2 != 0, fields, methods,
    constructors, properties⟩

end ClassEntry

namespace FieldEntry

def encode (f : FieldEntry) : List UInt8 :=
  text f.name ++ u32 f.owner ++ f.kind.encode ++ u8 (if f.isStatic then 1 else 0)

def decode : ReadM FieldEntry := do
  let name ← ReadM.text
  let owner ← ReadM.u32
  let kind ← ValueKind.decode
  let isStatic ← ReadM.u8
  return ⟨name, owner, kind, isStatic != 0⟩

end FieldEntry

namespace EnumTable

def value? (e : EnumTable) (member : String) : Option Int32 :=
  (e.members.find? (·.1 == member)).map (·.2)

def encodeMember (m : String × Int32) : List UInt8 := text m.1 ++ i32 m.2

def decodeMember : ReadM (String × Int32) := do
  let name ← ReadM.text
  let value ← ReadM.i32
  return (name, value)

def encode (e : EnumTable) : List UInt8 := text e.name ++ Wire.list encodeMember e.members

def decode : ReadM EnumTable := do
  let name ← ReadM.text
  let members ← ReadM.list decodeMember
  return ⟨name, members⟩

end EnumTable

end Bytesmith.Code
