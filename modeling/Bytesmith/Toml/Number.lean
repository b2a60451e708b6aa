import Bytesmith.Toml.Text
import Bytesmith.Toml.Value

namespace Bytesmith.Toml

open Scan

def groupedDigit (isDigit : Char → Bool) : Scan Char :=
  one isDigit <|> char '_' *> one isDigit

def digits (isDigit : Char → Bool) : Scan (List Char) := do
  let c ← one isDigit
  return c :: (← repeated (groupedDigit isDigit))

def sign : Scan (List Char) := do
  return (← optional (one fun c => c == '+' || c == '-')).toList

def wholeDigits : Scan (List Char) := do
  match ← peek? with
  | some '0' => return [← one (· == '0')]
  | _ => digits Char.isDigit

def fitsInt64 (n : Int) : Bool := Int64.minValue.toInt ≤ n && n ≤ Int64.maxValue.toInt

def integerOf (n : Int) : Scan Value := if fitsInt64 n then return .integer n else failure

def decimalInteger : Scan Value := do
  let sign ← sign
  let n := positionalValue 10 (← wholeDigits)
  integerOf (if sign = ['-'] then -(n : Int) else n)

def basedInteger (mark : Char) (base : Nat) (isDigit : Char → Bool) : Scan Value := do
  word ['0', mark]
  integerOf (positionalValue base (← digits isDigit))

def integer : Scan Value := do
  match ← get with
  | '0' :: 'x' :: _ => basedInteger 'x' 16 isHexDigit
  | '0' :: 'o' :: _ => basedInteger 'o' 8 fun c => '0' ≤ c && c ≤ '7'
  | '0' :: 'b' :: _ => basedInteger 'b' 2 fun c => c == '0' || c == '1'
  | _ => decimalInteger

def exponent : Scan (List Char) := do
  discard (one fun c => c == 'e' || c == 'E')
  let sign ← sign
  return 'e' :: sign ++ (← digits Char.isDigit)

def fraction : Scan (List Char) := do
  char '.'
  return '.' :: (← digits Char.isDigit)

/-- A double with a fraction, an exponent, or both. A number too large for a double is refused; one
too far below zero is not. -/
def decimalFloat : Scan Value := do
  let sign ← sign
  let whole ← wholeDigits
  let fraction ← optional fraction
  let exponent ← optional exponent
  if fraction.isNone && exponent.isNone then failure
  let text := sign ++ whole ++ fraction.getD [] ++ exponent.getD []
  match Double.ofText? (String.ofList text) with
  | some x => if x = Double.infinity then failure else return .float x
  | none => failure

def specialFloat : Scan Value := do
  let sign ← sign
  let x ← word ['i', 'n', 'f'] *> pure Double.infinity <|> word ['n', 'a', 'n'] *> pure Double.nan
  return .float (if sign = ['-'] then x.neg else x)

def twoDigits (low high : Nat) : Scan (List Char) := do
  let ds ← exactly Char.isDigit 2
  let n := positionalValue 10 ds
  if low ≤ n && n ≤ high then return ds else failure

def daysIn (year month : Nat) : Nat :=
  let leap := year % 4 = 0 && (year % 100 ≠ 0 || year % 400 = 0)
  if month = 2 then if leap then 29 else 28
  else if [4, 6, 9, 11].contains month then 30 else 31

def date : Scan (List Char) := do
  let year ← exactly Char.isDigit 4
  char '-'
  let month ← twoDigits 1 12
  char '-'
  let day ← twoDigits 1 (daysIn (positionalValue 10 year) (positionalValue 10 month))
  return year ++ '-' :: month ++ '-' :: day

def time : Scan (List Char) := do
  let hour ← twoDigits 0 23
  char ':'
  let minute ← twoDigits 0 59
  char ':'
  let second ← twoDigits 0 60
  let part ← optional (char '.' *> many1 Char.isDigit)
  return hour ++ ':' :: minute ++ ':' :: second ++ (part.map ('.' :: ·)).getD []

def offset : Scan (List Char) := do
  let mark ← one fun c => c == 'Z' || c == 'z' || c == '+' || c == '-'
  if mark = 'Z' || mark = 'z' then return ['Z']
  let hour ← twoDigits 0 23
  char ':'
  let minute ← twoDigits 0 59
  return mark :: hour ++ ':' :: minute

def timeAfterDate : Scan (List Char) := do
  discard (one fun c => c == 'T' || c == 't' || c == ' ')
  let time ← time
  return 'T' :: time ++ (← optional offset).getD []

def dateTime : Scan (List Char) := do
  let date ← date
  return date ++ (← optional timeAfterDate).getD []

def moment : Scan Value := (fun cs => .moment (String.ofList cs)) <$> (dateTime <|> time)

def number : Scan Value := moment <|> decimalFloat <|> specialFloat <|> integer

end Bytesmith.Toml
