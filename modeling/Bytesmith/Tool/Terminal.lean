import Bytesmith.Build.OptionsFile
import Bytesmith.Tool.Error

namespace Bytesmith.Tool

open Code Build

inductive Color
  | green
  | cyan
deriving DecidableEq, Repr

def Color.code : Color → String
  | .green => "32"
  | .cyan => "36"

structure Terminal where
  disk : Disk
  colored : Bool
  output : String
  saved : List String

abbrev ToolM := EStateM ToolError Terminal

namespace ToolM

def wrapping {ε α : Type} (wrap : ε → ToolError) : Except ε α → ToolM α
  | .ok a => return a
  | .error e => throw (wrap e)

def print (s : String) : ToolM Unit := modify fun t => { t with output := t.output ++ s }

def printLine (s : String) : ToolM Unit := print (s ++ "\n")

def control (code : String) : ToolM Unit := do
  if (← get).colored then print s!"\x1b[{code}m"

def printStyled (bold : Bool) (color : Option Color) (s : String) : ToolM Unit := do
  control "0"
  if bold then control "1"
  if let some c := color then control c.code
  print s
  control "0"

def heading (s : String) : ToolM Unit := printStyled true none (s ++ "\n")

def success (s : String) : ToolM Unit := printStyled true (some .green) (s ++ "\n")

def labelled (label value : String) : ToolM Unit := do
  printStyled false (some .cyan) (Text.padRight 12 (label ++ ":"))
  printLine (" " ++ value)

def loadModule (path : String) : ToolM Module := do
  match (← get).disk.read? path with
  | none => throw (.unreadableFile path)
  | some bytes => wrapping (.invalidModule path) (Module.decode bytes)

def loadOptions (path : Option String) : ToolM Options := do
  match path with
  | none => return {}
  | some path => wrapping (fun fault => .build (.config fault)) (Options.load (← get).disk path)

end ToolM

end Bytesmith.Tool
