
namespace Bytesmith

abbrev Place := List String

structure Disk where
  files : List (Place × Array UInt8)
  directories : List Place
deriving DecidableEq, Repr

namespace Disk

def empty : Disk := ⟨[], []⟩

def isDirectory (d : Disk) (p : Place) : Bool := p.isEmpty || d.directories.contains p

def isFile (d : Disk) (p : Place) : Bool := d.files.any (·.1 == p)

def isValidName (name : String) : Bool := name.utf8ByteSize ≤ 255 && !name.contains '\x00'

/-- Follows names from a place. Each step starts in a directory. -/
def walk (d : Disk) : Place → List String → Option Place
  | p, [] => some p
  | p, name :: rest =>
    if !d.isDirectory p then none
    else if name == "" || name == "." then d.walk p rest
    else if name == ".." then d.walk p.dropLast rest
    else d.walk (p ++ [name]) rest

def place? (d : Disk) (path : String) : Option Place := d.walk [] (path.splitOn "/")

def read? (d : Disk) (path : String) : Option (Array UInt8) := do
  d.files.lookup (← d.place? path)

def makeDirectories (d : Disk) : Place → List String → Option Disk
  | _, [] => some d
  | p, name :: rest =>
    if name == "" || name == "." then d.makeDirectories p rest
    else if name == ".." then d.makeDirectories p.dropLast rest
    else
      let next := p ++ [name]
      if d.isDirectory next then d.makeDirectories next rest
      else if d.isFile next || !isValidName name then none
      else { d with directories := next :: d.directories }.makeDirectories next rest

def write? (d : Disk) (path : String) (bytes : Array UInt8) : Option Disk := do
  let p ← d.place? path
  match p.getLast? with
  | none => none
  | some name =>
    if d.isDirectory p || !isValidName name then none
    else some { d with files := (p, bytes) :: d.files.filter (·.1 ≠ p) }

def save? (d : Disk) (path : String) (bytes : Array UInt8) : Option Disk := do
  let made ← d.makeDirectories [] (path.splitOn "/").dropLast
  made.write? path bytes

def remove (d : Disk) (path : String) : Disk :=
  match d.place? path with
  | some p => { d with files := d.files.filter (·.1 ≠ p) }
  | none => d

/-- A file name under a directory; an absolute name stands alone. -/
def join (directory name : String) : String :=
  if name.startsWith "/" || directory.isEmpty then name
  else if directory.endsWith "/" then directory ++ name
  else directory ++ "/" ++ name

def listing (d : Disk) : List (String × Array UInt8) :=
  (d.files.map fun (p, bytes) => ("/".intercalate p, bytes)).mergeSort (·.1 ≤ ·.1)

end Disk

end Bytesmith
