import Bytesmith.Wire.Reader

namespace Bytesmith.Code

open Wire

structure Pool where
  strings : List String
deriving DecidableEq, Repr

namespace Pool

def empty : Pool := ⟨[]⟩

def size (p : Pool) : Nat := p.strings.length

def get? (p : Pool) (index : UInt32) : Option String := p.strings[index.toNat]?

/-- The index of a string and the pool that has it; a string already present keeps its index. -/
def add (p : Pool) (s : String) : UInt32 × Pool :=
  match p.strings.idxOf? s with
  | some i => (i.toUInt32, p)
  | none => (p.strings.length.toUInt32, ⟨p.strings ++ [s]⟩)

def insert (p : Pool) (s : String) : Pool := (p.add s).2

def ofList (strings : List String) : Pool := strings.foldl insert empty

def encode (p : Pool) : List UInt8 := Wire.list text p.strings

/-- Strings go in through `insert`, so repeated ones collapse. -/
def decode : ReadM Pool := do
  return ofList (← ReadM.list ReadM.text)

end Pool

end Bytesmith.Code
