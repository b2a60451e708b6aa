import Bytesmith.Code.Function
import Bytesmith.Code.Instr
import Bytesmith.Code.Pool

namespace Bytesmith.Code

open Wire

structure Placed where
  offset : Nat
  next : Nat
  instr : Instr Int32
deriving DecidableEq, Repr

/-- Decodes up to the end of the data; an instruction takes at least one byte, so `fuel` bytes
hold at most `fuel` instructions. -/
def decodeAll : Nat → ReadM (List Placed)
  | 0 => return []
  | fuel + 1 => do
    let r ← get
    if r.isAtEnd then return []
    let instr ← Instr.decode
    let next ← ReadM.position
    let rest ← decodeAll fuel
    return ⟨r.position, next, instr⟩ :: rest

def instructions (code : Array UInt8) : Except DecodeError (List Placed) :=
  match decodeAll code.size (.ofArray code) with
  | .ok is _ => .ok is
  | .error e _ => .error e

def Placed.destination (p : Placed) (distance : Int32) : Int := p.next + distance.toInt

def kindText (tag : UInt8) : String :=
  match ValueKind.ofByte? tag with
  | some kind => kind.name
  | none => s!"?{tag}"

def TypeTag.text : TypeTag → String
  | .object => "object"
  | .string => "string"
  | .class id => s!"class#{id}"

def TypeTag.caption : TypeTag → String
  | .object => "Object"
  | .string => "Str"
  | .class id => s!"Class({id})"

def constantText (pool : Pool) (index : UInt32) : String :=
  match pool.get? index with
  | some s => s!"#{index} " ++ Text.quoted s
  | none => s!"#{index} <missing>"

def Placed.operandText (pool : Pool) (p : Placed) : String :=
  match p.instr with
  | .constI32 v => toString v.toInt
  | .constI64 v => toString v.toInt ++ "L"
  | .constF64 v => v.text
  | .constStr index => constantText pool index
  | .loadLocal slot | .storeLocal slot => toString slot.toNat
  | .jump d | .branch _ d => "-> " ++ Text.zeroPadded 4 (p.destination d)
  | .call _ function argc => s!"fn#{function} argc={argc}"
  | .new id => s!"class#{id}"
  | .loadField id | .storeField id | .loadStatic id | .storeStatic id => s!"field#{id}"
  | .box tag | .unbox tag => kindText tag
  | .cast tag => tag.text
  | _ => ""

def Placed.line (pool : Pool) (p : Placed) : String :=
  let start := "  " ++ Text.zeroPadded 4 p.offset ++ "  "
  let name := p.instr.opcode.name
  let operands := p.operandText pool
  if operands.isEmpty then start ++ name else start ++ Text.padRight 16 name ++ " " ++ operands

def Handler.line (h : Handler) : String :=
  let position (n : UInt32) := Text.zeroPadded 4 n.toNat
  "  .try " ++ position h.tryStart ++ ".." ++ position h.tryEnd ++ " catch " ++
    h.catchType.caption ++ " -> " ++ position h.handlerStart

def disassemble (f : Function) (pool : Pool) : Except DecodeError String := do
  let placed ← instructions f.code
  let head := s!"fn {f.name} (params={f.paramCount}, locals={f.localCount})"
  let lines := head :: placed.map (Placed.line pool) ++ f.handlers.map Handler.line
  return String.join (lines.map (· ++ "\n"))

end Bytesmith.Code
