
namespace Bytesmith.Digest

def crcPolynomial : UInt32 := 0xEDB88320

def crcShift (c : UInt32) : UInt32 :=
  if c &&& 1 = 1 then (c >>> 1) ^^^ crcPolynomial else c >>> 1

def crcShifts : Nat → UInt32 → UInt32
  | 0, c => c
  | n + 1, c => crcShifts n (crcShift c)

def crcByte (c : UInt32) (b : UInt8) : UInt32 :=
  crcShifts 8 (c ^^^ b.toUInt32)

def crc32 (bytes : List UInt8) : UInt32 :=
  ~~~ bytes.foldl crcByte 0xFFFFFFFF

end Bytesmith.Digest
