import Bytesmith.Tool.Terminal

namespace Bytesmith.Tool

open Code Machine ToolM

structure CallRequest where
  file : String
  entry : Option String
  config : Option String
  args : List String

def splitEntry? (entry : String) : Option (String × String) :=
  match (entry.splitOn ".").reverse with
  | method :: first :: rest => some (".".intercalate (first :: rest).reverse, method)
  | _ => none

def findStatic (m : Module) (entry : String) : Except ToolError UInt32 := do
  let some (className, method) := splitEntry? entry | throw (.unqualified entry)
  let some classId := m.findClass? className | throw (.unknownClass className)
  let some id := m.findMethod? classId method | throw (.unknownMethod entry)
  if (m.function? id).any (·.isStatic) then return id else throw (.notStatic entry)

def findTarget (m : Module) (entry : Option String) : Except ToolError UInt32 :=
  match entry, m.entryPoint with
  | some entry, _ => findStatic m entry
  | none, some id => .ok id
  | none, none => .error (.noEntryPoint m.name)

def readBetween? (low high : Int) (text : String) : Option Int :=
  (Decimal.readInt? text).filter fun n => low ≤ n && n ≤ high

def dropSuffix (letter : Char) (text : String) : String :=
  if text.toList.getLast? = some letter then String.ofList text.toList.dropLast else text

/-- A value of a kind. A long may end in the letter of its literals, and a reference is null or a
string. -/
def readValue? (text : String) : ValueKind → Option Value
  | .bool => if text = "true" then some (.bool true)
    else if text = "false" then some (.bool false) else none
  | .i32 =>
    (readBetween? Int32.minValue.toInt Int32.maxValue.toInt text).map fun n =>
      .i32 (Int32.ofInt n)
  | .i64 =>
    (readBetween? Int64.minValue.toInt Int64.maxValue.toInt (dropSuffix 'L' text)).map fun n =>
      .i64 (Int64.ofInt n)
  | .f64 => (Double.ofText? text).map .f64
  | .reference => some (if text = "null" then .null else .string text)

def readValues (f : Function) (args : List String) : Except ToolError (List Value) := do
  if args.length ≠ f.paramKinds.length then
    throw (.argumentCount f.name f.paramKinds.length args.length)
  (f.paramKinds.zip args).zipIdx.mapM fun ((kind, text), i) =>
    match readValue? text kind with
    | some v => return v
    | none => throw (.argument (i + 1) text kind)

def callModule (request : CallRequest) (fuel : Nat) : ToolM Unit := do
  let m ← loadModule request.file
  let options ← loadOptions request.config
  let target ← ofExcept (findTarget m request.entry)
  let some f := m.function? target | throw (.missingFunction target m.name)
  let args ← ofExcept (readValues f request.args)
  match (Host.start m options.maxCallDepth fuel).invoke target args .empty with
  | .ok v store => if f.returnsValue then printLine (v.text store)
  | .error (.fault e) _ => throw (.fault e)
  | .error .outOfFuel _ => throw .outOfFuel

end Bytesmith.Tool
