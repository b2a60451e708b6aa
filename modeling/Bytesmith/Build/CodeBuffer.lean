import Bytesmith.Build.Emitter

namespace Bytesmith.Build

open Code Wire

/-- A jump whose distance will be written over the four bytes at the position. -/
structure OpenJump where
  position : Nat
  target : Label
deriving DecidableEq, Repr

/-- An emitter that writes bytes at once. -/
structure CodeBuffer where
  name : String
  paramCount : Nat
  bytes : Array UInt8
  locals : Array String
  nextLabel : Nat
  marks : List (Label × Nat)
  jumps : Array OpenJump
  handlers : List Handler
  regions : List Region
  lastOpcode : Option Opcode
  isFinished : Bool
deriving DecidableEq, Repr

namespace CodeBuffer

def start (name : String) (paramCount : Nat) : CodeBuffer where
  name := name
  paramCount := paramCount
  bytes := #[]
  locals := #[]
  nextLabel := 0
  marks := []
  jumps := #[]
  handlers := []
  regions := []
  lastOpcode := none
  isFinished := false

def offset (b : CodeBuffer) : Nat := b.bytes.size

def localCount (b : CodeBuffer) : Nat := b.paramCount + b.locals.size

def position? (b : CodeBuffer) (l : Label) : Option Nat := b.marks.lookup l

def isMarked (b : CodeBuffer) (l : Label) : Bool := (b.position? l).isSome

def canFallThrough (b : CodeBuffer) : Bool :=
  match b.lastOpcode with
  | none => true
  | some op => !op.isTerminator || b.marks.any (·.2 == b.offset)

def unmarkedLabels (b : CodeBuffer) : List Label :=
  (((b.jumps.toList.map (·.target)).filter (!b.isMarked ·)).mergeSort (·.id ≤ ·.id)).eraseReps

def op (b : CodeBuffer) (opcode : Opcode) : CodeBuffer :=
  { b with bytes := b.bytes.push opcode.toByte, lastOpcode := some opcode }

def write (b : CodeBuffer) (word : List UInt8) : CodeBuffer := { b with bytes := b.bytes ++ word }

def opJump (b : CodeBuffer) (opcode : Opcode) (l : Label) : CodeBuffer :=
  let b := b.op opcode
  { b.write (i32 0) with jumps := b.jumps.push ⟨b.offset, l⟩ }

/-- Writes an instruction, with nothing yet for the distance of a jump. -/
def put (b : CodeBuffer) : Instr Label → CodeBuffer
  | .constI32 v => (b.op .constI32).write (i32 v)
  | .constI64 v => (b.op .constI64).write (i64 v)
  | .constF64 v => (b.op .constF64).write (f64 v)
  | .constStr index => (b.op .constStr).write (u32 index)
  | .loadLocal slot => (b.op .loadLocal).write (u16 slot)
  | .storeLocal slot => (b.op .storeLocal).write (u16 slot)
  | .jump l => b.opJump .jump l
  | .branch test l => b.opJump (.branch test) l
  | .call mode function argc => ((b.op (.call mode)).write (u32 function)).write (u16 argc)
  | .new id => (b.op .new).write (u32 id)
  | .loadField id => (b.op .loadField).write (u32 id)
  | .storeField id => (b.op .storeField).write (u32 id)
  | .loadStatic id => (b.op .loadStatic).write (u32 id)
  | .storeStatic id => (b.op .storeStatic).write (u32 id)
  | .box tag => (b.op .box).write (u8 tag)
  | .unbox tag => (b.op .unbox).write (u8 tag)
  | .cast tag => (b.op .cast).write tag.encode
  | i => b.op i.opcode

/-- The distance from behind the operand of a jump to the mark of its label. -/
def distance (b : CodeBuffer) (j : OpenJump) : Int32 :=
  Int32.ofNat ((b.position? j.target).getD 0) - Int32.ofNat (j.position + 4)

def patchJump (b : CodeBuffer) (bytes : List UInt8) (j : OpenJump) : List UInt8 :=
  patch bytes j.position (i32 (b.distance j))

def resolve (b : CodeBuffer) : CodeBuffer :=
  { b with bytes := (b.jumps.toList.foldl b.patchJump b.bytes.toList).toArray, isFinished := true }

end CodeBuffer

/-- Writing to a buffer. An error keeps what was written before it. -/
abbrev BufferM := EStateM BuildError CodeBuffer

namespace BufferM

def ensureOpen : BufferM Unit := do
  let b ← get
  if b.isFinished then throw (.invalidOperation (.finishedEmitter b.name))

def emit (i : Instr Label) : BufferM Unit := do
  ensureOpen
  modify (·.put i)

def emitOpcode (op : Opcode) : BufferM Unit := do
  ensureOpen
  if op.operandSize ≠ 0 then throw (.invalidArgument (.operandsMissing op))
  modify (·.op op)

def emitBranch (op : Opcode) (l : Label) : BufferM Unit := do
  match op with
  | .branch test => emit (.branch test l)
  | _ => throw (.invalidArgument (.notBranch op))

def emitBox (kind : ValueKind) : BufferM Unit := do
  ensureOpen
  if kind = .reference then throw (.invalidArgument (.notValueKind .box))
  modify (·.put (.box kind.toByte))

def emitUnbox (kind : ValueKind) : BufferM Unit := do
  ensureOpen
  if kind = .reference then throw (.invalidArgument (.notValueKind .unbox))
  modify (·.put (.unbox kind.toByte))

def declareLocal (name : String) : BufferM UInt16 := do
  ensureOpen
  let b ← get
  let slot := b.localCount
  if 65536 ≤ slot then throw (.invalidOperation (.tooManyLocals b.name))
  set { b with locals := b.locals.push name }
  return slot.toUInt16

def defineLabel : BufferM Label := do
  let b ← get
  set { b with nextLabel := b.nextLabel + 1 }
  return ⟨b.nextLabel⟩

def markLabel (l : Label) : BufferM Unit := do
  ensureOpen
  let b ← get
  if b.isMarked l then throw (.invalidOperation (.markedTwice l.id b.name))
  set { b with marks := (l, b.offset) :: b.marks }

def leaveTo (l : Label) : BufferM Unit := do
  if (← get).canFallThrough then emit (.jump l)

def beginTry : BufferM Label := do
  ensureOpen
  let l ← defineLabel
  modify fun b => { b with regions := ⟨b.offset, none, l, 0⟩ :: b.regions }
  return l

def beginCatch (tag : TypeTag) : BufferM Unit := do
  ensureOpen
  let b ← get
  match b.regions with
  | [] => throw (.invalidOperation .catchOutside)
  | region :: outer =>
    let tryEnd := region.tryEnd.getD b.offset
    leaveTo region.endLabel
    modify fun b =>
      { b with
        handlers := b.handlers ++
          [⟨region.tryStart.toUInt32, tryEnd.toUInt32, b.offset.toUInt32, tag⟩]
        regions := { region with tryEnd := some tryEnd, catches := region.catches + 1 } :: outer }

def endTry : BufferM Unit := do
  ensureOpen
  let b ← get
  match b.regions with
  | [] => throw (.invalidOperation .noRegion)
  | region :: outer =>
    if region.catches = 0 then throw (.invalidOperation .noCatch)
    set { b with regions := outer }
    leaveTo region.endLabel
    markLabel region.endLabel

def finish : BufferM Body := do
  ensureOpen
  let b ← get
  if !b.regions.isEmpty then throw (.invalidOperation (.openRegions b.name b.regions.length))
  if let some l := b.unmarkedLabels.head? then throw (.unmarkedLabel b.name l.id)
  set b.resolve
  return ⟨b.resolve.bytes, b.localCount, b.handlers⟩

end BufferM

end Bytesmith.Build
