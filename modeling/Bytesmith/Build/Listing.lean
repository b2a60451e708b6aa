import Bytesmith.Build.Draft

namespace Bytesmith.Build

open Code

def modifiers (words : List (Bool × String)) : String :=
  String.join ((words.filter (·.1)).map fun w => w.2 ++ " ")

def visibility (isPublic : Bool) : String := if isPublic then "public " else "private "

namespace Command

/-- What is added to the depth before and after the line of a command. Lines that continue or close
a block stand with the line that opened it. -/
def indentDelta (c : Command) : Int32 × Int32 :=
  (if c.outdents then -1 else 0, if c.indents then 1 else 0)

def lineDepth (c : Command) (depth : Int32) : Int32 := max (depth + c.indentDelta.1) 0

def nextDepth (c : Command) (depth : Int32) : Int32 := c.lineDepth depth + c.indentDelta.2

end Command

namespace MethodDef

def header (m : MethodDef) (owner : String) : String :=
  let params := ", ".intercalate (m.params.map fun p => s!"{p.ty.text} {p.name}")
  let words := modifiers [(m.attrs.isStatic, "static"), (m.attrs.isAbstract, "abstract")]
  let callee := if m.isConstructor then owner else s!"{m.returnType.text} {m.name}"
  s!"{visibility m.attrs.isPublic}{words}{callee}({params})"

/-- The commands from a depth on, each followed by a line break. -/
def commandText (depth : Int32) : List Emitted → String
  | [] => ""
  | e :: rest =>
    Text.indent (e.command.lineDepth depth).toNatClampNeg ++ e.command.text ++ "\n" ++
      commandText (e.command.nextDepth depth) rest

def render (m : MethodDef) (level : Nat) (owner : String) : String :=
  let start := Text.indent level ++ m.header owner
  if m.attrs.isAbstract then start ++ ";\n"
  else
    start ++ " \x7b\n" ++ commandText (level.toInt32 + 1) m.commands.toList ++
      Text.indent level ++ "\x7d\n"

end MethodDef

def FieldDef.line (f : FieldDef) : String :=
  let words := modifiers [(f.attrs.isStatic, "static"), (f.attrs.isReadonly, "readonly")]
  s!"    {visibility f.attrs.isPublic}{words}{f.ty.text} {f.name};"

def PropertyDef.line (p : PropertyDef) : String :=
  let accessors := modifiers [(p.getter.isSome, "get;"), (p.setter.isSome, "set;")]
  s!"    {p.ty.text} {p.name} \x7b {accessors}\x7d"

def EnumDef.lines (e : EnumDef) : List String :=
  (s!"enum {e.name} \x7b" :: e.members.map fun (name, value) => s!"    {name} = {value.toInt},") ++
    ["\x7d"]

namespace Draft

def typeHeader (d : Draft) (t : TypeDef) : String :=
  let words :=
    if t.attrs.isInterface then modifiers [(t.attrs.isPublic, "public"), (true, "interface")]
    else modifiers [(t.attrs.isPublic, "public"), (t.attrs.isAbstract, "abstract"),
      (t.attrs.isSealed, "sealed"), (true, "class")]
  let supertypes := (t.base.toList ++ t.interfaces).filterMap fun id => d.types[id]?.map (·.name)
  let suffix := if supertypes.isEmpty then "" else " : " ++ ", ".intercalate supertypes
  words ++ t.name ++ suffix ++ " \x7b"

/-- Generated accessors are not shown. -/
def typeText (d : Draft) (t : TypeDef) : String :=
  let fields := t.fields.filterMap fun f => d.fields[f]?.map FieldDef.line
  let properties := t.properties.filterMap fun p => d.properties[p]?.map PropertyDef.line
  let constructors := t.constructors.filterMap fun m => d.methods[m]?
  let methods := (t.methods.filterMap fun m => d.methods[m]?).filter (!·.isSynthesized)
  Text.unlines (d.typeHeader t :: fields ++ properties) ++
    String.join ((constructors ++ methods).map (·.render 1 t.name)) ++ "\x7d\n"

/-- Enums come first; each definition follows an empty line. -/
def listing (d : Draft) : String :=
  let definitions := d.enums.toList.map (Text.unlines ·.lines) ++ d.types.toList.map d.typeText
  s!"// module {d.name} ({d.options.kind.name})\n" ++ String.join (definitions.map ("\n" ++ ·))

end Draft

end Bytesmith.Build
