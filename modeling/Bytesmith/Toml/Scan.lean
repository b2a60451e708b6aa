
namespace Bytesmith.Toml

abbrev Scan := StateT (List Char) Option

namespace Scan

def peek? : Scan (Option Char) := return (← get).head?

def one (p : Char → Bool) : Scan Char := fun
  | c :: rest => if p c then some (c, rest) else none
  | [] => none

def char (c : Char) : Scan Unit := discard (one (· == c))

def many (p : Char → Bool) : Scan (List Char) := fun s => some (s.span p)

def many1 (p : Char → Bool) : Scan (List Char) := do
  let c ← one p
  return c :: (← many p)

def exactly (p : Char → Bool) : Nat → Scan (List Char)
  | 0 => return []
  | n + 1 => do
    let c ← one p
    return c :: (← exactly p n)

def word (cs : List Char) : Scan Unit := cs.forM char

def upTo {α : Type} (scan : Scan α) : Nat → Scan (List α)
  | 0 => return []
  | n + 1 => do
    match ← optional scan with
    | some a => return a :: (← upTo scan n)
    | none => return []

/-- As many results as follow one another, if each takes a character at least. -/
def repeated {α : Type} (scan : Scan α) : Scan (List α) := do upTo scan (← get).length

/-- Results divided by a character; there may be none, and none follows the last divider. -/
def separated {α : Type} (scan : Scan α) (divider : Char) : Scan (List α) := do
  match ← optional scan with
  | none => return []
  | some a => return a :: (← repeated (char divider *> scan))

def all? {α : Type} (scan : Scan α) (s : String) : Option α :=
  match scan s.toList with
  | some (a, []) => some a
  | _ => none

end Scan

open Scan

def isBlank (c : Char) : Bool := c == ' ' || c == '\t'

def isText (c : Char) : Bool := c == '\t' || (' ' ≤ c && c != '\x7f')

def blanks : Scan Unit := discard (many isBlank)

def newline : Scan Unit := char '\n' <|> word ['\r', '\n']

def comment : Scan Unit := char '#' *> discard (many isText)

def endOfText : Scan Unit := fun
  | [] => some ((), [])
  | _ :: _ => none

def lineEnd : Scan Unit := do
  blanks
  discard (optional comment)
  newline <|> endOfText

def spacing : Scan Unit := do
  blanks
  discard (repeated (discard (optional comment) *> newline *> blanks))

end Bytesmith.Toml
