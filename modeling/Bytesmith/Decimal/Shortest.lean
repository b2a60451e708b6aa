
namespace Bytesmith.Decimal

structure Numeral where
  digits : Nat
  exponent : Int
deriving DecidableEq, Repr

/-- The reals that round to one binary fraction, as numerators over a common denominator. The ends
belong to the interval when `closed` holds. -/
structure Interval where
  low : Nat
  mid : Nat
  high : Nat
  denominator : Nat
  closed : Bool

/-- `lowerGapHalved` says that the next smaller fraction lies half as far away as the next larger. -/
def Interval.around (m : Nat) (q : Int) (lowerGapHalved : Bool) : Interval :=
  let scale := Nat.pow 2 (q - 2).toNat
  { low := (4 * m - if lowerGapHalved then 1 else 2) * scale
    mid := 4 * m * scale
    high := (4 * m + 2) * scale
    denominator := Nat.pow 2 (2 - q).toNat
    closed := m % 2 == 0 }

def Interval.contains (i : Interval) (c : Nat) (k : Int) : Bool :=
  let point := c * Nat.pow 10 k.toNat * i.denominator
  let unit := Nat.pow 10 (-k).toNat
  if i.closed then i.low * unit ≤ point && point ≤ i.high * unit
  else i.low * unit < point && point < i.high * unit

def lift : Nat := 400

def Interval.leading (i : Interval) : Int :=
  ((Nat.toDigits 10 (i.mid * Nat.pow 10 lift / i.denominator)).length : Int) - 1 - lift

/-- The point of the grid `10 ^ k` that is nearest to the middle among those in the interval; a tie
goes up. -/
def Interval.onGrid (i : Interval) (k : Int) : Option Nat :=
  let num := i.mid * Nat.pow 10 (-k).toNat
  let den := i.denominator * Nat.pow 10 k.toNat
  let c := num / den
  let below := i.contains c k
  let above := i.contains (c + 1) k
  if above && (!below || den ≤ 2 * (num % den)) then some (c + 1)
  else if below then some c
  else none

/-- Tries ever finer grids, `tries` of them, and settles for the last. -/
def Interval.search (i : Interval) : Nat → Int → Numeral
  | 0, k => ⟨i.mid * Nat.pow 10 (-k).toNat / (i.denominator * Nat.pow 10 k.toNat), k⟩
  | tries + 1, k =>
    match i.onGrid k with
    | some c => ⟨c, k⟩
    | none => i.search tries (k - 1)

/-- Seventeen digits tell any two doubles apart. -/
def shortest (m : Nat) (q : Int) (lowerGapHalved : Bool) : Numeral :=
  let i := Interval.around m q lowerGapHalved
  i.search 17 i.leading

def significant (d : Numeral) : List Char :=
  ((Nat.toDigits 10 d.digits).reverse.dropWhile (· == '0')).reverse

def leadingExponent (d : Numeral) : Int :=
  ((Nat.toDigits 10 d.digits).length : Int) - 1 + d.exponent

end Bytesmith.Decimal
