import Bytesmith.Code.Kind

namespace Bytesmith.Build

open Code

structure Options where
  kind : ModuleKind := .library
  /-- Where the module is written when it is created; nowhere if absent. -/
  outputDir : Option String := none
  debugListing : Bool := false
  maxCallDepth : Nat := 256
deriving DecidableEq, Repr

end Bytesmith.Build
