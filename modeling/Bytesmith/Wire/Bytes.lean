import Bytesmith.Double

namespace Bytesmith.Wire

def littleEndian : Nat → Nat → List UInt8
  | 0, _ => []
  | width + 1, n => n.toUInt8 :: littleEndian width (n / 256)

def ofLittleEndian : List UInt8 → Nat
  | [] => 0
  | b :: bs => b.toNat + 256 * ofLittleEndian bs

def u8 (v : UInt8) : List UInt8 := [v]

def u16 (v : UInt16) : List UInt8 := littleEndian 2 v.toNat

def u32 (v : UInt32) : List UInt8 := littleEndian 4 v.toNat

def u64 (v : UInt64) : List UInt8 := littleEndian 8 v.toNat

def i32 (v : Int32) : List UInt8 := u32 v.toUInt32

def i64 (v : Int64) : List UInt8 := u64 v.toUInt64

def f64 (v : Double) : List UInt8 := u64 v.bits

def utf8 (s : String) : List UInt8 := s.toUTF8.data.toList

def count (n : Nat) : List UInt8 := u32 n.toUInt32

def text (s : String) : List UInt8 := count (utf8 s).length ++ utf8 s

def list {α : Type} (item : α → List UInt8) (xs : List α) : List UInt8 :=
  count xs.length ++ xs.flatMap item

/-- The index that stands for none. -/
def noIndex : UInt32 := 0xFFFFFFFF

def index (i : Option UInt32) : List UInt8 := u32 (i.getD noIndex)

/-- Overwrites the bytes from `offset` on by as many others. -/
def patch (bytes : List UInt8) (offset : Nat) (word : List UInt8) : List UInt8 :=
  bytes.take offset ++ word ++ bytes.drop (offset + word.length)

end Bytesmith.Wire
