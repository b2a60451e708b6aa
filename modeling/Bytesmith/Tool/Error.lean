import Bytesmith.Build.Error
import Bytesmith.Code.Format
import Bytesmith.Machine.Host

namespace Bytesmith.Tool

open Code Build Machine

inductive ToolError
  | unreadableFile (path : String)
  | invalidModule (path : String) (cause : ModuleError)
  | unreadableCode (cause : Wire.DecodeError)
  | build (cause : BuildError)
  | fault (cause : Fault)
  | outOfFuel
  | unknownKind (name : String)
  | noEntryPoint (module : String)
  | missingFunction (id : UInt32) (module : String)
  | unqualified (entry : String)
  | unknownClass (name : String)
  | unknownMethod (entry : String)
  | notStatic (entry : String)
  | argumentCount (function : String) (expected found : Nat)
  /-- Arguments are counted from one. -/
  | argument (position : Nat) (text : String) (kind : ValueKind)
deriving DecidableEq, Repr

def ToolError.chain : ToolError → List String
  | .unreadableFile path => [s!"failed to read {path}", "I/O error"]
  | .invalidModule path cause => s!"invalid module file {path}" :: cause.chain
  | .unreadableCode cause => [cause.message]
  | .build cause => cause.chain
  | .fault cause => cause.chain
  | .outOfFuel => ["the program did not end"]
  | .unknownKind name => [s!"unknown module kind '{name}' (expected library or executable)"]
  | .noEntryPoint module => [s!"module '{module}' has no entry point; pass --entry Class.method"]
  | .missingFunction id module => [s!"function {id} is not in module '{module}'"]
  | .unqualified entry => [s!"expected Class.method, got '{entry}'"]
  | .unknownClass name => [s!"unknown class '{name}'"]
  | .unknownMethod entry => [s!"unknown method '{entry}'"]
  | .notStatic entry => [s!"'{entry}' is not a static method"]
  | .argumentCount function expected found =>
    [s!"'{function}' takes {expected} argument(s), got {found}"]
  | .argument position text kind =>
    [s!"argument {position} ('{text}') is not a valid {kind.name}"]

end Bytesmith.Tool
