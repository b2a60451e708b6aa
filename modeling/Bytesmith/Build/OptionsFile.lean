import Bytesmith.Build.Error
import Bytesmith.Build.Options
import Bytesmith.Disk
import Bytesmith.Toml.Document

namespace Bytesmith.Build

open Code Toml

namespace Options

/-- The value of a key. A key that is missing is no fault. -/
def setting {α : Type} (entries : Entries) (key : String) (read : Toml.Value → Option α) :
    Except OptionsFault (Option α) :=
  match entries.lookup key with
  | none => .ok none
  | some v => match read v with
    | some a => .ok (some a)
    | none => .error .malformed

/-- A kind by its name, or as the one key of a table, with nothing in it. -/
def readKind : Toml.Value → Option ModuleKind
  | .string s => ModuleKind.ofName? s
  | .table _ [(name, .array [])] | .table _ [(name, .table _ [])] => ModuleKind.ofName? name
  | _ => none

def readText : Toml.Value → Option String
  | .string s => some s
  | _ => none

def readFlag : Toml.Value → Option Bool
  | .boolean b => some b
  | _ => none

def readCount : Toml.Value → Option Nat
  | .integer n => if 0 ≤ n then some n.toNat else none
  | _ => none

def ofEntries (entries : Entries) : Except OptionsFault Options := do
  let defaults : Options := {}
  let kind ← setting entries "kind" readKind
  let outputDir ← setting entries "output_dir" readText
  let debugListing ← setting entries "debug_listing" readFlag
  let maxCallDepth ← setting entries "max_call_depth" readCount
  if maxCallDepth = some 0 then throw .zeroCallDepth
  return {
    kind := kind.getD defaults.kind
    outputDir := outputDir
    debugListing := debugListing.getD defaults.debugListing
    maxCallDepth := maxCallDepth.getD defaults.maxCallDepth }

def ofToml (text : String) : Except OptionsFault Options :=
  match Toml.parse? text with
  | some entries => ofEntries entries
  | none => .error .malformed

def toToml (o : Options) : Except OptionsFault String :=
  let line (key value : String) : String := key ++ " = " ++ value ++ "\n"
  if !Toml.fitsInt64 o.maxCallDepth then .error .callDepthTooLarge
  else .ok (String.join
    ([line "kind" (written o.kind.name)] ++
      (o.outputDir.map fun dir => line "output_dir" (written dir)).toList ++
      [line "debug_listing" (toString o.debugListing),
        line "max_call_depth" (toString o.maxCallDepth)]))

def load (disk : Disk) (path : String) : Except OptionsFault Options :=
  match (disk.read? path).bind fun bytes => String.fromUTF8? ⟨bytes⟩ with
  | some text => ofToml text
  | none => .error .unreadable

end Options

end Bytesmith.Build
