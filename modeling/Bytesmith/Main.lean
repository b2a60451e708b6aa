import Bytesmith.Tool.Arguments

namespace Bytesmith.Tool

def readDisk (paths : List String) : IO Disk :=
  paths.foldlM (fun (disk : Disk) (path : String) => do
    try
      let bytes ← IO.FS.readBinFile path
      return (disk.save? path bytes.data).getD disk
    catch _ => return disk) Disk.empty

def writeFile (path : String) (bytes : Array UInt8) : IO Unit := do
  let directory := "/".intercalate (path.splitOn "/").dropLast
  if !directory.isEmpty then IO.FS.createDirAll directory
  IO.FS.writeBinFile path ⟨bytes⟩

/-- Whether output is styled. The environment decides before the command line does. -/
def isColored (choice : Option String) : IO Bool := do
  if (← IO.getEnv "NO_COLOR").isSome then return false
  match choice with
  | some "always" => return true
  | some "never" => return false
  | _ => (← IO.getStdout).isTty

def failureText : List String → String
  | [] => "Error"
  | [message] => s!"Error: {message}"
  | [message, cause] => s!"Error: {message}\n\nCaused by:\n    {cause}"
  | message :: causes =>
    let lines := causes.zipIdx.map fun (cause, i) => s!"\n    {i}: {cause}"
    s!"Error: {message}\n\nCaused by:" ++ String.join lines

def unlimited : Nat := 1000000000000000

end Bytesmith.Tool

open Bytesmith.Tool

def main (args : List String) : IO UInt32 := do
  match readArguments args with
  | .error message =>
    (← IO.getStderr).putStrLn s!"error: {message}"
    return 2
  | .ok (request, choice) =>
    let disk ← readDisk request.inputs
    let (terminal, failure) := match request.run unlimited ⟨disk, ← isColored choice, "", []⟩ with
      | .ok _ t => (t, none)
      | .error e t => (t, some e)
    for path in terminal.saved do
      if let some bytes := terminal.disk.read? path then writeFile path bytes
    (← IO.getStdout).putStr terminal.output
    match failure with
    | none => return 0
    | some e =>
      (← IO.getStderr).putStrLn (failureText e.chain)
      return 1
