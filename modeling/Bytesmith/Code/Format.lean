import Bytesmith.Code.Module
import Bytesmith.Digest.Crc32
import Bytesmith.Digest.Sha256
import Bytesmith.Wire.Hex

namespace Bytesmith.Code

open Wire

inductive ModuleError
  | decodeError (cause : DecodeError)
  | invalidMagic (found : List UInt8)
  | unsupportedVersion (found : UInt32)
  | checksumMismatch (expected actual : UInt32)
  | hashMismatch (expected actual : List UInt8)
deriving DecidableEq, Repr

namespace ModuleError

def message : ModuleError → String
  | .decodeError cause => "Decode error: " ++ cause.message
  | .invalidMagic found =>
    let bytes := ", ".intercalate (found.map fun b => toString b)
    s!"Invalid magic number: expected RYEM, got [{bytes}]"
  | .unsupportedVersion found => s!"Unsupported version: {found} (current: {Module.currentVersion})"
  | .checksumMismatch expected actual =>
    "Checksum mismatch: expected 0x" ++ Text.hex expected.toNat ++ ", got 0x" ++ Text.hex actual.toNat
  | .hashMismatch expected actual =>
    "Content hash mismatch: expected " ++ toHex expected ++ ", got " ++ toHex actual

def chain : ModuleError → List String
  | .decodeError cause => [(decodeError cause).message, cause.message]
  | e => [e.message]

end ModuleError

namespace Module

def listingFlag : UInt32 := 1

def headerSize : Nat := 48

/-- The flags as they are written: the listing flag says whether there is a listing. -/
def writtenFlags (m : Module) : UInt32 :=
  if m.listing.isSome then m.flags ||| listingFlag else m.flags &&& ~~~ listingFlag

def payload (m : Module) : List UInt8 :=
  text m.name ++ m.kind.encode ++ index m.entryPoint ++ m.constants.encode ++
    Wire.list Function.encode m.functions ++ Wire.list ClassEntry.encode m.classes ++
    Wire.list FieldEntry.encode m.fields ++ Wire.list EnumTable.encode m.enums ++
    (m.listing.map text).getD []

def encode (m : Module) : List UInt8 :=
  let contents := m.payload
  m.magic ++ u32 m.version ++ u32 m.writtenFlags ++ u32 (Digest.crc32 contents) ++
    Digest.sha256 contents ++ contents

structure Header where
  magic : List UInt8
  version : UInt32
  flags : UInt32
  crc : UInt32
  hash : List UInt8
deriving DecidableEq, Repr

def validate (m : Module) : Except ModuleError Unit :=
  if m.magic ≠ standardMagic then .error (.invalidMagic m.magic)
  else if m.version ≠ currentVersion then .error (.unsupportedVersion m.version)
  else .ok ()

abbrev LoadM := EStateM ModuleError Reader

def reading {α : Type} (read : ReadM α) : LoadM α := fun r =>
  match read r with
  | .ok a r => .ok a r
  | .error e r => .error (.decodeError e) r

def decodeHeader : LoadM Header := do
  let magic ← reading (ReadM.take 4)
  if magic ≠ standardMagic then throw (.invalidMagic magic)
  let version ← reading ReadM.u32
  if version ≠ currentVersion then throw (.unsupportedVersion version)
  let flags ← reading ReadM.u32
  let crc ← reading ReadM.u32
  let hash ← reading (ReadM.take 32)
  return ⟨magic, version, flags, crc, hash⟩

def verify (h : Header) (contents : List UInt8) : Except ModuleError Unit :=
  let crc := Digest.crc32 contents
  if h.crc ≠ crc then .error (.checksumMismatch h.crc crc)
  else
    let hash := Digest.sha256 contents
    if h.hash ≠ hash then .error (.hashMismatch h.hash hash)
    else .ok ()

/-- Reads the contents; bytes after them are not looked at. -/
def decodePayload (h : Header) : ReadM Module := do
  let name ← ReadM.text
  let kind ← ModuleKind.decode
  let entryPoint ← ReadM.index
  let constants ← Pool.decode
  let functions ← ReadM.list Function.decode
  let classes ← ReadM.list ClassEntry.decode
  let fields ← ReadM.list FieldEntry.decode
  let enums ← ReadM.list EnumTable.decode
  let listing ← if h.flags &&& listingFlag != 0 then some <$> ReadM.text else pure none
  return ⟨h.magic, h.version, h.flags, name, kind, entryPoint, constants, functions, classes,
    fields, enums, listing, h.hash⟩

def load : LoadM Module := do
  let header ← decodeHeader
  let r ← get
  match verify header (r.data.toList.drop headerSize) with
  | .ok () => reading (decodePayload header)
  | .error e => throw e

def decode (data : Array UInt8) : Except ModuleError Module :=
  match load (.ofArray data) with
  | .ok m _ => .ok m
  | .error e _ => .error e

end Module

end Bytesmith.Code
