import Bytesmith.Build.Create
import Bytesmith.Tool.Terminal

namespace Bytesmith.Tool

open Code Build ToolM

namespace Sample

open BuildM

def publicType : TypeAttributes := { isPublic := true }

def publicMember : MethodAttributes := { isPublic := true }

def publicStatic : MethodAttributes := { isPublic := true, isStatic := true }

def number (n : Int32) : Variable := .constant (.i32 n)

def counter : BuildM Unit := do
  let type ← defineType "Counter" publicType none []
  let ty ← reading (·.classType type)
  discard <| defineDefaultConstructor type publicMember
  discard <| defineAutoProperty type "Value" .int
  let make ← defineMethod type "Make" publicStatic ty []
  let object ← newObject make type []
  let value ← reading (·.propertyOf make object "Value")
  let next ← arithmetic make .add value (number 1)
  assign make value next
  ret make object

def maximum (m : Nat) : BuildM Unit := do
  let a ← reading (·.param m 0)
  let b ← reading (·.param m 1)
  ifBegin m a .less b
  ret m b
  elseBegin m
  ret m a
  endIf m

def sumBelow (m : Nat) : BuildM Unit := do
  let n ← reading (·.param m 0)
  let total ← createLocal m "sum" .int
  let i ← createLocal m "i" .int
  assign m total (number 0)
  assign m i (number 0)
  whileBegin m i .less n
  let next ← arithmetic m .add total i
  assign m total next
  discard <| increment m i
  endWhile m
  ret m total

def calculations : BuildM (Nat × Nat) := do
  let type ← defineType "Calc" publicType none []
  let max ← defineMethod type "Max" publicStatic .int [⟨"a", .int⟩, ⟨"b", .int⟩]
  let sum ← defineMethod type "Sum" publicStatic .int [⟨"n", .int⟩]
  maximum max
  sumBelow sum
  return (max, sum)

def fail (m fault : Nat) : BuildM Unit := do
  let code ← reading (·.param m 0)
  let object ← newObject m fault []
  let field ← reading (·.fieldOf m object "Code")
  assign m field code
  raise m object

def safeDivide (m fail : Nat) (fault : StaticType) : BuildM Unit := do
  let a ← reading (·.param m 0)
  let b ← reading (·.param m 1)
  tryBegin m
  ifBegin m b .equal (number 0)
  discard <| call m fail none [number (-1)]
  endIf m
  let quotient ← arithmetic m .div a b
  ret m quotient
  let caught ← catchBegin m fault
  let code ← reading (·.fieldOf m caught "Code")
  ret m code
  endTry m

def guarded : BuildM Nat := do
  let fault ← defineType "Fault" publicType none []
  discard <| defineField fault "Code" .int { isPublic := true }
  discard <| defineDefaultConstructor fault publicMember
  let faultType ← reading (·.classType fault)
  let type ← defineType "Guard" publicType none []
  let failing ← defineMethod type "Fail" publicStatic .void [⟨"code", .int⟩]
  let divide ← defineMethod type "SafeDivide" publicStatic .int [⟨"a", .int⟩, ⟨"b", .int⟩]
  fail failing fault
  safeDivide divide failing faultType
  return divide

def program (max sum divide : Nat) : BuildM Nat := do
  let type ← defineType "Program" publicType none []
  let main ← defineMethod type "Main" publicStatic .int []
  let total ← createLocal main "total" .int
  let biggest ← call main max none [number 3, number 7]
  let summed ← call main sum none [number 5]
  let divided ← call main divide none [number 10, number 0]
  assign main total (number 0)
  [biggest, summed, divided].forM fun part => do
    if let some part := part then
      let next ← arithmetic main .add total part
      assign main total next
  ret main total
  return main

def define : BuildM Unit := do
  counter
  let (max, sum) ← calculations
  let divide ← guarded
  let main ← program max sum divide
  if (← get).options.kind = .executable then setEntryPoint main

end Sample

structure SampleRequest where
  outputDir : Option String
  kind : Option String
  config : Option String

def readKind (name : String) : Except ToolError ModuleKind :=
  if name = "library" || name = "lib" then .ok .library
  else if name = "executable" || name = "exe" then .ok .executable
  else .error (.unknownKind name)

/-- What is asked for goes before what the options file says. -/
def sampleOptions (request : SampleRequest) : ToolM Options := do
  let options ← loadOptions request.config
  let kind ← match request.kind with
    | some name => ofExcept (readKind name)
    | none => pure options.kind
  return { options with kind := kind, outputDir := request.outputDir <|> options.outputDir }

def createSample (options : Options) : ToolM (Draft × Module) := do
  let create : ProjectM Module := do
    ProjectM.building Sample.define
    ProjectM.create
  let t ← get
  match create ⟨.empty "demo" options, t.disk⟩ with
  | .ok m p =>
    set { t with disk := p.disk, saved := p.draft.outputPath?.toList ++ t.saved }
    return (p.draft, m)
  | .error e p =>
    set { t with disk := p.disk }
    throw (.build e)

def sample (request : SampleRequest) : ToolM Unit := do
  let (draft, m) ← createSample (← sampleOptions request)
  printLine (Text.trimEnd draft.listing)
  printLine ""
  match draft.outputPath? with
  | some path => success s!"wrote {path}"
  | none => success "created (not persisted; pass --out DIR)"
  labelled "checksum" (Wire.toHex m.checksum)

end Bytesmith.Tool
