import Bytesmith.Double

namespace Bytesmith.Toml

inductive Origin
  | inline
  | header
  | path
  | dotted
deriving DecidableEq, Repr

inductive Value
  | string (text : String)
  | integer (n : Int)
  | float (x : Double)
  | boolean (b : Bool)
  | moment (text : String)
  | array (items : List Value)
  | table (origin : Origin) (entries : List (String × Value))
  /-- The tables of a header in double brackets, in order. -/
  | tables (rows : List (List (String × Value)))
deriving Repr

abbrev Entries := List (String × Value)

namespace Entries

def put (key : String) (v : Value) (entries : Entries) : Entries :=
  if (entries.lookup key).isSome then entries.map fun e => if e.1 == key then (key, v) else e
  else entries ++ [(key, v)]

/-- Adds a value under a dotted key. Tables on the way are made, or have come about by dotted keys;
tables that headers made are only passed through. -/
def insert? (v : Value) : List String → Entries → Option Entries
  | [], _ => none
  | [key], entries => if (entries.lookup key).isSome then none else some (entries.put key v)
  | key :: rest, entries =>
    match entries.lookup key with
    | none => do return entries.put key (.table .dotted (← insert? v rest []))
    | some (.table .dotted inner) => do return entries.put key (.table .dotted (← insert? v rest inner))
    | some (.table .path inner) => do
      if rest.length = 1 then none
      else return entries.put key (.table .path (← insert? v rest inner))
    | some (.tables rows) => do
      if rest.length = 1 then none
      else return entries.put key (.tables (rows.dropLast ++ [← insert? v rest (← rows.getLast?)]))
    | some _ => none

/-- Changes the table that a path leads to. The way goes through the last table of a header in
double brackets, and tables that are missing are made. -/
def modifyAt? (f : Entries → Option Entries) : List String → Entries → Option Entries
  | [], entries => f entries
  | key :: rest, entries =>
    match entries.lookup key with
    | none => do return entries.put key (.table .path (← modifyAt? f rest []))
    | some (.table origin inner) => do
      if origin = .inline then none
      else return entries.put key (.table origin (← modifyAt? f rest inner))
    | some (.tables rows) => do
      return entries.put key (.tables (rows.dropLast ++ [← modifyAt? f rest (← rows.getLast?)]))
    | some _ => none

/-- Opens a table by a header. Each table has one header at most. -/
def open? (path : List String) (entries : Entries) : Option Entries := do
  let key ← path.getLast?
  entries.modifyAt? (fun parent => match parent.lookup key with
    | none => some (parent.put key (.table .header []))
    | some (.table .path inner) => some (parent.put key (.table .header inner))
    | some _ => none) path.dropLast

def openRow? (path : List String) (entries : Entries) : Option Entries := do
  let key ← path.getLast?
  entries.modifyAt? (fun parent => match parent.lookup key with
    | none => some (parent.put key (.tables [[]]))
    | some (.tables rows) => some (parent.put key (.tables (rows ++ [[]])))
    | some _ => none) path.dropLast

end Entries

end Bytesmith.Toml
