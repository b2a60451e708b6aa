
namespace Bytesmith.Decimal

def readNat? (cs : List Char) : Option Nat :=
  if cs.isEmpty || !cs.all Char.isDigit then none
  else some (cs.foldl (fun n c => 10 * n + (c.toNat - '0'.toNat)) 0)

def splitSign : List Char → Bool × List Char
  | '-' :: cs => (true, cs)
  | '+' :: cs => (false, cs)
  | cs => (false, cs)

def readInt? (s : String) : Option Int :=
  let (negative, cs) := splitSign s.toList
  (readNat? cs).map fun n => if negative then -(n : Int) else n

inductive Reading
  | finite (digits : Nat) (exponent : Int)
  | infinite
  | notANumber
deriving DecidableEq, Repr

/-- Digits with at most one point among them, as a number of units of the last place. -/
def readMantissa? (cs : List Char) : Option (Nat × Int) :=
  let whole := cs.takeWhile (· != '.')
  let rest := cs.dropWhile (· != '.')
  let fraction := rest.drop 1
  (readNat? (whole ++ fraction)).map fun n => (n, -(fraction.length : Int))

def isExponentMark (c : Char) : Bool := c == 'e' || c == 'E'

def readUnsigned? (cs : List Char) : Option Reading :=
  let word := String.ofList (cs.map Char.toLower)
  if word = "inf" || word = "infinity" then some .infinite
  else if word = "nan" then some .notANumber
  else
    let mantissa := cs.takeWhile (!isExponentMark ·)
    match readMantissa? mantissa, cs.dropWhile (!isExponentMark ·) with
    | some (n, e), [] => some (.finite n e)
    | some (n, e), _ :: power => (readInt? (String.ofList power)).map fun p => .finite n (e + p)
    | none, _ => none

def read? (s : String) : Option (Bool × Reading) :=
  let (negative, cs) := splitSign s.toList
  (readUnsigned? cs).map fun r => (negative, r)

end Bytesmith.Decimal
