import Bytesmith.Toml.Scan

namespace Bytesmith.Toml

open Scan

def escape? : Char → Option Char
  | 'b' => some '\x08'
  | 't' => some '\t'
  | 'n' => some '\n'
  | 'f' => some '\x0c'
  | 'r' => some '\r'
  | '"' => some '"'
  | '\\' => some '\\'
  | _ => none

def isHexDigit (c : Char) : Bool := c.isDigit || ('a' ≤ c && c ≤ 'f') || ('A' ≤ c && c ≤ 'F')

def hexDigitValue (c : Char) : Nat :=
  if c.isDigit then c.toNat - '0'.toNat else c.toLower.toNat - 'a'.toNat + 10

def positionalValue (base : Nat) (digits : List Char) : Nat :=
  digits.foldl (fun n c => base * n + hexDigitValue c) 0

def codePoint? (digits : List Char) : Option Char :=
  let n := positionalValue 16 digits
  if digits.all isHexDigit && n.isValidChar then some (Char.ofNat n) else none

def firstNewline : Scan Unit := discard (optional newline)

def innerQuotes (quote : Char) : List Char → List Char × List Char
  | a :: b :: rest =>
    if a = quote && b = quote then ([a, b], rest)
    else if a = quote then ([a], b :: rest) else ([], a :: b :: rest)
  | [a] => if a = quote then ([a], []) else ([], [a])
  | [] => ([], [])

def prepend (c : Char) (read : Option (List Char × List Char)) : Option (List Char × List Char) :=
  read.map fun (s, rest) => (c :: s, rest)

def basicBody : List Char → Option (List Char × List Char)
  | [] => none
  | '"' :: rest => some ([], rest)
  | '\\' :: 'u' :: a :: b :: c :: d :: rest => do
    prepend (← codePoint? [a, b, c, d]) (basicBody rest)
  | '\\' :: 'U' :: a :: b :: c :: d :: e :: f :: g :: h :: rest => do
    prepend (← codePoint? [a, b, c, d, e, f, g, h]) (basicBody rest)
  | '\\' :: c :: rest => do prepend (← escape? c) (basicBody rest)
  | c :: rest => if c = '\\' || !isText c then none else prepend c (basicBody rest)

/-- Where a text on several lines stands: in the text, after a backslash at the end of a line, or in
the white space that such a backslash takes away. -/
inductive Gap
  | none
  | opening
  | inside
deriving DecidableEq, Repr

/-- What the text between three double quotes stands for. A line end is one character, however it is
written. -/
def multilineBasicBody : Gap → List Char → Option (List Char × List Char)
  | _, [] => .none
  | .opening, '\r' :: '\n' :: rest => multilineBasicBody .inside rest
  | .opening, c :: rest =>
    if isBlank c then multilineBasicBody .opening rest
    else if c = '\n' then multilineBasicBody .inside rest
    else .none
  | _, '"' :: '"' :: '"' :: rest => some (innerQuotes '"' rest)
  | gap, '\r' :: '\n' :: rest =>
    if gap = .inside then multilineBasicBody .inside rest
    else prepend '\n' (multilineBasicBody .none rest)
  | _, '\\' :: 'u' :: a :: b :: c :: d :: rest => do
    prepend (← codePoint? [a, b, c, d]) (multilineBasicBody .none rest)
  | _, '\\' :: 'U' :: a :: b :: c :: d :: e :: f :: g :: h :: rest => do
    prepend (← codePoint? [a, b, c, d, e, f, g, h]) (multilineBasicBody .none rest)
  | _, '\\' :: c :: rest =>
    match escape? c with
    | some ch => prepend ch (multilineBasicBody .none rest)
    | .none => multilineBasicBody .opening (c :: rest)
  | gap, c :: rest =>
    if gap = .inside && (isBlank c || c = '\n') then multilineBasicBody .inside rest
    else if c = '\\' || !(isText c || c = '\n') then .none
    else prepend c (multilineBasicBody .none rest)

def multilineLiteralBody : List Char → Option (List Char × List Char)
  | [] => none
  | '\'' :: '\'' :: '\'' :: rest => some (innerQuotes '\'' rest)
  | '\r' :: '\n' :: rest => prepend '\n' (multilineLiteralBody rest)
  | c :: rest => if isText c || c = '\n' then prepend c (multilineLiteralBody rest) else none

def basicString : Scan String := char '"' *> String.ofList <$> (basicBody : Scan (List Char))

def literalString : Scan String := do
  char '\''
  let s ← many fun c => isText c && c != '\''
  char '\''
  return String.ofList s

def multilineBasicString : Scan String := do
  word ['"', '"', '"']
  firstNewline
  String.ofList <$> (multilineBasicBody .none : Scan (List Char))

def multilineLiteralString : Scan String := do
  word ['\'', '\'', '\'']
  firstNewline
  String.ofList <$> (multilineLiteralBody : Scan (List Char))

def string : Scan String := do
  match ← get with
  | '"' :: '"' :: '"' :: _ => multilineBasicString
  | '"' :: _ => basicString
  | '\'' :: '\'' :: '\'' :: _ => multilineLiteralString
  | _ => literalString

def longestRun (c : Char) : Nat → List Char → Nat
  | current, [] => current
  | current, d :: rest =>
    if d = c then longestRun c (current + 1) rest else max current (longestRun c 0 rest)

structure Traits where
  singleQuotes : Nat
  doubleQuotes : Nat
  hasBackslash : Bool
  hasNewline : Bool
  hasControls : Bool

def Traits.of (cs : List Char) : Traits where
  singleQuotes := longestRun '\'' 0 cs
  doubleQuotes := longestRun '"' 0 cs
  hasBackslash := cs.contains '\\'
  hasNewline := cs.contains '\n'
  hasControls := cs.any fun c => c != '\n' && !isText c

inductive Style
  | basic
  | literal
  | multilineBasic
  | multilineLiteral
deriving DecidableEq, Repr

/-- The first way to write a text that needs no escapes, and otherwise one that allows them. -/
def Traits.style (t : Traits) : Style :=
  if !t.hasControls && !t.hasBackslash && t.doubleQuotes = 0 && !t.hasNewline then .basic
  else if !t.hasControls && t.singleQuotes = 0 && !t.hasNewline then .literal
  else if !t.hasControls && !t.hasBackslash && t.doubleQuotes ≤ 2 then .multilineBasic
  else if !t.hasControls && t.singleQuotes ≤ 2 then .multilineLiteral
  else if t.hasNewline then .multilineBasic
  else .basic

def upperHex4 (n : Nat) : List Char :=
  let digits := (Nat.toDigits 16 n).map Char.toUpper
  List.replicate (4 - digits.length) '0' ++ digits

def escaped (multiline : Bool) (c : Char) : List Char :=
  if c = '\x08' then ['\\', 'b']
  else if c = '\t' then ['\\', 't']
  else if c = '\n' && !multiline then ['\\', 'n']
  else if c = '\x0c' then ['\\', 'f']
  else if c = '\r' then ['\\', 'r']
  else if c = '\\' then ['\\', '\\']
  else if c = '\n' || isText c then [c]
  else '\\' :: 'u' :: upperHex4 c.toNat

/-- The text between double quotes. At most `allowed` quotes follow one another unescaped. -/
def escapedBody (multiline : Bool) (allowed : Nat) : Nat → List Char → List Char
  | _, [] => []
  | quotes, c :: rest =>
    if c = '"' then
      if quotes < allowed then c :: escapedBody multiline allowed (quotes + 1) rest
      else '\\' :: c :: escapedBody multiline allowed 0 rest
    else escaped multiline c ++ escapedBody multiline allowed 0 rest

def written (s : String) : String :=
  let cs := s.toList
  let t := Traits.of cs
  let between (quotes : String) (body : List Char) : String :=
    quotes ++ String.ofList body ++ quotes
  let lead := if t.hasNewline then ['\n'] else []
  match t.style with
  | .basic => between "\"" (escapedBody false 0 0 cs)
  | .literal => between "'" cs
  | .multilineBasic => between "\"\"\"" (lead ++ escapedBody true 2 0 cs)
  | .multilineLiteral => between "'''" (lead ++ cs)

end Bytesmith.Toml
