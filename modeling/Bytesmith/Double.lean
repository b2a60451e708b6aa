import Bytesmith.Decimal.Read
import Bytesmith.Decimal.Shortest

namespace Bytesmith

structure Double where
  bits : UInt64
deriving DecidableEq, Inhabited, Repr

namespace Double

open Decimal

def toFloat (x : Double) : Float := Float.ofBits x.bits

def ofFloat (x : Float) : Double := ⟨x.toBits⟩

def zero : Double := ⟨0⟩

def signBit : UInt64 := 0x8000000000000000

def infinity : Double := ⟨0x7FF0000000000000⟩

def nan : Double := ⟨0x7FF8000000000000⟩

def isNegative (x : Double) : Bool := x.bits &&& signBit != 0

def biased (x : Double) : Nat := (x.bits.toNat >>> 52) % 2048

def leadingBit : Nat := 0x10000000000000

def fraction (x : Double) : Nat := x.bits.toNat % leadingBit

def isNaN (x : Double) : Bool := x.biased == 2047 && x.fraction != 0

def isInfinite (x : Double) : Bool := x.biased == 2047 && x.fraction == 0

/-- The absolute value of a finite double is `significand * 2 ^ scale`. -/
def significand (x : Double) : Nat :=
  if x.biased = 0 then x.fraction else x.fraction + leadingBit

def scale (x : Double) : Int :=
  if x.biased = 0 then -1074 else (x.biased : Int) - 1075

/-- The double `± m * 2 ^ q` for `m < 2 ^ 53` and `-1074 ≤ q`. -/
def ofScaled (negative : Bool) (m : Nat) (q : Int) : Double :=
  let shift := if m = 0 then 0 else min (52 - m.log2) (q + 1074).toNat
  let m' := m <<< shift
  let magnitude :=
    if m' < leadingBit then m' else ((q - shift + 1075).toNat <<< 52) + (m' - leadingBit)
  let sign := if negative then signBit else 0
  ⟨sign ||| magnitude.toUInt64⟩

def neg (x : Double) : Double := ⟨x.bits ^^^ signBit⟩

def add (x y : Double) : Double := ofFloat (x.toFloat + y.toFloat)

def sub (x y : Double) : Double := ofFloat (x.toFloat - y.toFloat)

def mul (x y : Double) : Double := ofFloat (x.toFloat * y.toFloat)

def div (x y : Double) : Double := ofFloat (x.toFloat / y.toFloat)

/-- The remainder of the quotient cut toward zero. It is exact and has the sign of the dividend. -/
def rem (x y : Double) : Double :=
  if x.isNaN || y.isNaN || x.isInfinite || y.significand = 0 then nan
  else if y.isInfinite then x
  else
    let q := min x.scale y.scale
    let a := x.significand * Nat.pow 2 (x.scale - q).toNat
    let b := y.significand * Nat.pow 2 (y.scale - q).toNat
    ofScaled x.isNegative (a % b) q

/-- Equality of numbers: zeros of both signs are equal, a not-a-number differs from itself. -/
def same (x y : Double) : Bool := x.toFloat == y.toFloat

def compare? (x y : Double) : Option Ordering :=
  if x.toFloat < y.toFloat then some .lt
  else if y.toFloat < x.toFloat then some .gt
  else if x.same y then some .eq
  else none

/-- Digits without an exponent from `10 ^ -4` up to `10 ^ 16`, with a fraction always shown. -/
def positional (digits : List Char) (lead : Int) : String :=
  let ds := String.ofList digits
  if lead < 0 then
    "0." ++ String.ofList (List.replicate (-lead - 1).toNat '0') ++ ds
  else
    let whole := lead.toNat + 1
    if digits.length ≤ whole then
      ds ++ String.ofList (List.replicate (whole - digits.length) '0') ++ ".0"
    else String.ofList (digits.take whole) ++ "." ++ String.ofList (digits.drop whole)

def scientific (digits : List Char) (lead : Int) : String :=
  let tail := digits.drop 1
  String.ofList (digits.take 1) ++ (if tail.isEmpty then "" else "." ++ String.ofList tail) ++
    "e" ++ toString lead

def magnitudeText (x : Double) : String :=
  if x.significand = 0 then "0.0"
  else
    let d := shortest x.significand x.scale (x.fraction == 0 && 1 < x.biased)
    let lead := leadingExponent d
    if -4 ≤ lead && lead < 16 then positional (significant d) lead
    else scientific (significant d) lead

def text (x : Double) : String :=
  if x.isNaN then "NaN"
  else
    let sign := if x.isNegative then "-" else ""
    if x.isInfinite then sign ++ "inf" else sign ++ x.magnitudeText

/-- The double nearest to `digits * 10 ^ exponent`. Exponents far outside the range are decided
without computing the power. -/
def nearest (digits : Nat) (exponent : Int) : Double :=
  let size := (Nat.toDigits 10 digits).length
  if digits = 0 then zero
  else if 310 < exponent + size then infinity
  else if exponent + size < -330 then zero
  else ofFloat (Float.ofScientific digits (exponent < 0) exponent.natAbs)

def ofText? (s : String) : Option Double :=
  (read? s).map fun (negative, reading) =>
    let magnitude := match reading with
      | .finite digits exponent => nearest digits exponent
      | .infinite => infinity
      | .notANumber => nan
    if negative then magnitude.neg else magnitude

def ofInt32 (n : Int32) : Double := ofFloat n.toFloat

def ofInt64 (n : Int64) : Double := ofFloat n.toFloat

end Double

end Bytesmith
