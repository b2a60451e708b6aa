
namespace Bytesmith.Wire

def hexDigits (b : UInt8) : List Char :=
  [Nat.digitChar (b.toNat / 16), Nat.digitChar (b.toNat % 16)]

def toHex (bytes : List UInt8) : String := String.ofList (bytes.flatMap hexDigits)

def hexValue (c : Char) : Nat := if c.isDigit then c.toNat - 48 else c.toNat - 87

def ofHexDigits : List Char → List UInt8
  | a :: b :: rest => (16 * hexValue a + hexValue b).toUInt8 :: ofHexDigits rest
  | _ => []

def ofHex (s : String) : List UInt8 := ofHexDigits s.toList

end Bytesmith.Wire
