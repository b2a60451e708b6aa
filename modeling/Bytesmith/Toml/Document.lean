import Bytesmith.Toml.Number

namespace Bytesmith.Toml

open Scan

/-- How deep arrays and tables between braces may be nested, and how many parts a key may have. -/
def maxDepth : Nat := 79

def isKeyChar (c : Char) : Bool := c.isAlphanum || c == '-' || c == '_'

def keyPart : Scan String := do
  blanks
  let part ← basicString <|> literalString <|> String.ofList <$> many1 isKeyChar
  blanks
  return part

def key : Scan (List String) := do
  let first ← keyPart
  let parts := first :: (← repeated (char '.' *> keyPart))
  if parts.length ≤ maxDepth then return parts else failure

def boolean : Scan Value :=
  word "true".toList *> pure (.boolean true) <|> word "false".toList *> pure (.boolean false)

def array (item : Scan Value) : Scan Value := do
  char '['
  let items ← separated (spacing *> item <* spacing) ','
  if !items.isEmpty then discard (optional (char ','))
  spacing
  char ']'
  return .array items

def assignment (item : Scan Value) : Scan (List String × Value) := do
  let key ← key
  char '='
  blanks
  return (key, ← item)

def inlineTable (item : Scan Value) : Scan Value := do
  char '\x7b'
  let pairs ← separated (assignment item <* blanks) ','
  blanks
  char '\x7d'
  match pairs.foldlM (fun entries (key, v) => Entries.insert? v key entries) [] with
  | some entries => return .table .inline entries
  | none => failure

def scalar : Scan Value := do
  match ← peek? with
  | some '"' | some '\'' => .string <$> string
  | some 't' | some 'f' => boolean
  | _ => number

/-- A value in which arrays and tables are nested to a depth at most. -/
def value : Nat → Scan Value
  | 0 => scalar
  | depth + 1 => do
    match ← peek? with
    | some '[' => array (value depth)
    | some '\x7b' => inlineTable (value depth)
    | _ => scalar

inductive Line
  | empty
  | header (path : List String)
  | row (path : List String)
  | assign (key : List String) (v : Value)

def line : Scan Line := do
  blanks
  match ← get with
  | '[' :: '[' :: _ =>
    word ['[', '[']
    let path ← key
    word [']', ']']
    lineEnd
    return .row path
  | '[' :: _ =>
    char '['
    let path ← key
    char ']'
    lineEnd
    return .header path
  | '#' :: _ =>
    comment
    newline <|> endOfText
    return .empty
  | '\n' :: _ | '\r' :: _ =>
    newline
    return .empty
  | _ =>
    let (key, v) ← assignment (value maxDepth)
    lineEnd
    return .assign key v

def lines : Scan (List Line) := do
  discard (optional (char '\ufeff'))
  let lines ← repeated line
  blanks
  return lines

structure Document where
  entries : Entries
  here : List String

def Document.add? (d : Document) : Line → Option Document
  | .empty => some d
  | .header path => do return ⟨← d.entries.open? path, path⟩
  | .row path => do return ⟨← d.entries.openRow? path, path⟩
  | .assign key v => do return { d with entries := ← d.entries.modifyAt? (Entries.insert? v key) d.here }

def parse? (text : String) : Option Entries := do
  let lines ← lines.all? text
  return (← lines.foldlM Document.add? ⟨[], []⟩).entries

end Bytesmith.Toml
