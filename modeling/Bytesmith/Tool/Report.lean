import Bytesmith.Code.Disassembly
import Bytesmith.Text.Blank
import Bytesmith.Tool.Terminal

namespace Bytesmith.Tool

open Code ToolM

structure ReportRequest where
  file : String
  disassembly : Bool
  listing : Bool

def qualifiedName (m : Module) (id : UInt32) : String :=
  match m.function? id with
  | none => s!"<{id}>"
  | some f => match f.owner.bind m.class? with
    | some c => s!"{c.name}.{f.name}"
    | none => f.name

def enumLine (e : EnumTable) : String :=
  let members := e.members.map fun (name, value) => s!"{name} = {value.toInt}"
  "  " ++ e.name ++ " \x7b " ++ ", ".intercalate members ++ " \x7d"

def classHeader (m : Module) (c : ClassEntry) : String :=
  let parent := match c.parent.bind m.class? with
    | some p => s!" : {p.name}"
    | none => ""
  let mark := if c.isInterface then " (interface)" else if c.isAbstract then " (abstract)" else ""
  s!"  {c.name}{parent}{mark}"

def fieldLine (f : FieldEntry) : String :=
  let scope := if f.isStatic then "static " else ""
  s!"    field {scope}{f.kind.name} {f.name}"

def methodLine (entry : MethodEntry) (f : Function) : String :=
  s!"    method {entry.name} #{entry.function} ({f.paramCount} params, {f.code.size} bytes)"

/-- Members that are not in the module are left out. -/
def classLines (m : Module) (c : ClassEntry) : List String :=
  classHeader m c ::
    (c.fields.filterMap m.field?).map fieldLine ++
    c.methods.filterMap fun entry => (m.function? entry.function).map (methodLine entry)

def reportFunction (m : Module) (id : Nat) (f : Function) : ToolM Unit := do
  printLine ""
  heading s!"#{id} {qualifiedName m id.toUInt32}"
  let text ← wrapping .unreadableCode (disassemble f m.constants)
  printLine (Text.trimEnd text)

def report (request : ReportRequest) : ToolM Unit := do
  let m ← loadModule request.file
  heading s!"module {m.name}"
  labelled "kind" m.kind.name
  labelled "checksum" (Wire.toHex m.checksum)
  labelled "entry" ((m.entryPoint.map (qualifiedName m)).getD "-")
  labelled "constants" (toString m.constants.size)
  labelled "functions" (toString m.functions.length)
  if !m.enums.isEmpty then
    printLine ""
    heading "enums"
    m.enums.forM fun e => printLine (enumLine e)
  printLine ""
  heading "types"
  m.classes.forM fun c => (classLines m c).forM printLine
  if request.disassembly then
    m.functions.zipIdx.forM fun (f, id) => reportFunction m id f
  if request.listing then
    printLine ""
    match m.listing with
    | some listing => printLine (Text.trimEnd listing)
    | none => printLine "(no listing; rebuild with debug_listing = true)"

end Bytesmith.Tool
