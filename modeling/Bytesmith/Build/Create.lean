import Bytesmith.Build.Definition
import Bytesmith.Build.Listing
import Bytesmith.Code.Format
import Bytesmith.Disk

namespace Bytesmith.Build

open Code

namespace TypeDef

def isEmpty (t : TypeDef) : Bool :=
  t.fields.isEmpty && t.properties.isEmpty && t.methods.isEmpty && t.constructors.isEmpty

end TypeDef

def EnumDef.table (e : EnumDef) : EnumTable := e.created.getD ⟨e.name, e.members⟩

namespace Draft

def outputPath? (d : Draft) : Option String :=
  d.options.outputDir.map fun dir => Disk.join dir s!"{d.name}.{d.options.kind.extension}"

def toClass (d : Draft) (t : TypeDef) : ClassEntry where
  name := t.name
  parent := t.base.map (·.toUInt32)
  interfaces := t.interfaces.map (·.toUInt32)
  isInterface := t.attrs.isInterface
  isAbstract := t.attrs.isAbstract
  fields := t.fields.map (·.toUInt32)
  methods := t.methods.filterMap fun m => d.methods[m]?.map fun e => ⟨e.name, m.toUInt32⟩
  constructors := t.constructors.map (·.toUInt32)
  properties := t.properties.filterMap fun p => d.properties[p]?.map fun e =>
    ⟨e.name, e.getter.map (·.toUInt32), e.setter.map (·.toUInt32)⟩

end Draft

def MethodDef.toFunction (m : MethodDef) : Except BuildError Function :=
  match m.body? with
  | none => .error (.invalidOperation (.unfinishedMethod m.signature))
  | some body => .ok {
      name := m.name
      owner := some m.owner.toUInt32
      flags := m.flags
      paramCount := m.paramCount
      paramKinds := m.paramTypes.map (·.valueKind)
      localCount := body.localCount
      code := body.code
      handlers := body.handlers }

def FieldDef.toField (f : FieldDef) : FieldEntry :=
  ⟨f.name, f.owner.toUInt32, f.ty.valueKind, f.attrs.isStatic⟩

namespace BuildM

/-- Creates a type among those below a bound. The types it is built on come first. -/
def createTypeBelow : Nat → Nat → BuildM ClassEntry
  | 0, id => throw (.unknownMember .type (Draft.handleText id))
  | bound + 1, id => do
    let t ← reading (·.type id)
    match t.created with
    | some c => return c
    | none =>
      if t.isEmpty then throw (.emptyType t.name)
      (t.base.toList ++ t.interfaces).forM fun i => discard <| createTypeBelow bound i
      (t.constructors ++ t.methods).forM finalize
      let d ← get
      let c := d.toClass t
      set (d.modifyType id ({ · with created := some c }))
      return c

def createType (id : Nat) : BuildM ClassEntry := do
  createTypeBelow ((← get).types.size + 1) id

def createEnums : BuildM (List EnumTable) := do
  let d ← get
  set { d with enums := d.enums.map fun (e : EnumDef) => { e with created := some e.table } }
  return d.enums.toList.map EnumDef.table

def assemble : BuildM Module := do
  let d ← get
  if d.types.isEmpty && d.enums.isEmpty then throw (.emptyModule d.name)
  if d.options.kind = .executable && d.entryPoint.isNone then throw (.missingEntryPoint d.name)
  let enums ← createEnums
  let classes ← (List.range d.types.size).mapM createType
  let d ← get
  let functions ← ofExcept (d.methods.toList.mapM MethodDef.toFunction)
  let m := { Module.empty d.name d.options.kind with
    entryPoint := d.entryPoint.map Nat.toUInt32
    constants := d.constants
    functions := functions
    classes := classes
    fields := d.fields.toList.map FieldDef.toField
    enums := enums
    listing := if d.options.debugListing then some d.listing else none }
  return { m with checksum := Digest.sha256 m.payload }

end BuildM

structure Project where
  draft : Draft
  disk : Disk

abbrev ProjectM := EStateM BuildError Project

namespace ProjectM

def building {α : Type} (op : BuildM α) : ProjectM α := fun p =>
  match op p.draft with
  | .ok a d => .ok a { p with draft := d }
  | .error e d => .error e { p with draft := d }

/-- Creates the module. A module that was created before is neither built nor written again. -/
def create : ProjectM Module := do
  let p ← get
  match p.draft.created with
  | some m => return m
  | none =>
    let m ← building BuildM.assemble
    if let some path := p.draft.outputPath? then
      match p.disk.save? path m.encode.toArray with
      | some disk => modify ({ · with disk := disk })
      | none => throw .io
    modify fun p => { p with draft := { p.draft with created := some m } }
    return m

end ProjectM

end Bytesmith.Build
