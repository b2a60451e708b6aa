import Bytesmith.Build.Error
import Bytesmith.Code.Function

namespace Bytesmith.Build

open Code

structure Label where
  id : Nat
deriving DecidableEq, Repr

def Label.text (l : Label) : String := s!"L{l.id}"

structure Region where
  tryStart : Nat
  /-- Where the first catch clause ended the protected code. -/
  tryEnd : Option Nat
  endLabel : Label
  catches : Nat
deriving DecidableEq, Repr

def totalSize {τ : Type} : List (Instr τ) → Nat
  | [] => 0
  | i :: code => i.size + totalSize code

@[simp]
theorem totalSize_append {τ : Type} (a b : List (Instr τ)) :
    totalSize (a ++ b) = totalSize a + totalSize b := by
  induction a with
  | nil => simp [totalSize]
  | cons i a ih => simp only [List.cons_append, totalSize, ih, Nat.add_assoc]

structure Emitter where
  name : String
  /-- The first slots hold the parameters. -/
  paramCount : Nat
  code : Array (Instr Label)
  offset : Nat
  locals : Array String
  nextLabel : Nat
  marks : List (Label × Nat)
  handlers : List Handler
  regions : List Region
  isFinished : Bool
  offset_eq : offset = totalSize code.toList

namespace Emitter

def start (name : String) (paramCount : Nat) : Emitter where
  name := name
  paramCount := paramCount
  code := #[]
  offset := 0
  locals := #[]
  nextLabel := 0
  marks := []
  handlers := []
  regions := []
  isFinished := false
  offset_eq := rfl

def localCount (e : Emitter) : Nat := e.paramCount + e.locals.size

def position? (e : Emitter) (l : Label) : Option Nat := e.marks.lookup l

def isMarked (e : Emitter) (l : Label) : Bool := (e.position? l).isSome

/-- Whether control can reach the end of the code: the last instruction lets it through, or a
label is marked there. -/
def canFallThrough (e : Emitter) : Bool :=
  match e.code.back? with
  | none => true
  | some i => !i.opcode.isTerminator || e.marks.any (·.2 == e.offset)

def targets (e : Emitter) : List Label := e.code.toList.filterMap Instr.target?

def unmarkedLabels (e : Emitter) : List Label :=
  ((e.targets.filter (!e.isMarked ·)).mergeSort (·.id ≤ ·.id)).eraseReps

def distance (e : Emitter) (next : Nat) (l : Label) : Int32 :=
  Int32.ofNat ((e.position? l).getD 0) - Int32.ofNat next

/-- Encodes instructions that start at an offset. A target is given to `distance` with the offset
after its jump. -/
def assemble (distance : Nat → Label → Int32) : Nat → List (Instr Label) → List UInt8
  | _, [] => []
  | offset, i :: is =>
    (i.mapTarget (distance (offset + i.size))).encode ++ assemble distance (offset + i.size) is

/-- The bytes written so far. Distances are zero until the code is finished. -/
def bytes (e : Emitter) : List UInt8 :=
  assemble (if e.isFinished then e.distance else fun _ _ => 0) 0 e.code.toList

def push (e : Emitter) (i : Instr Label) : Emitter :=
  { e with
    code := e.code.push i
    offset := e.offset + i.size
    offset_eq := by simp [e.offset_eq, totalSize] }

end Emitter

/-- An emitting computation. An error keeps what was written before it. -/
abbrev EmitM := EStateM BuildError Emitter

namespace EmitM

def ensureOpen : EmitM Unit := do
  let e ← get
  if e.isFinished then throw (.invalidOperation (.finishedEmitter e.name))

def emit (i : Instr Label) : EmitM Unit := do
  ensureOpen
  modify (·.push i)

def emitOpcode (op : Opcode) : EmitM Unit := do
  ensureOpen
  match Instr.ofOpcode? op with
  | some i => modify (·.push i)
  | none => throw (.invalidArgument (.operandsMissing op))

def emitBranch (op : Opcode) (l : Label) : EmitM Unit := do
  match op with
  | .branch test => emit (.branch test l)
  | _ => throw (.invalidArgument (.notBranch op))

def emitBox (kind : ValueKind) : EmitM Unit := do
  ensureOpen
  if kind = .reference then throw (.invalidArgument (.notValueKind .box))
  modify (·.push (.box kind.toByte))

def emitUnbox (kind : ValueKind) : EmitM Unit := do
  ensureOpen
  if kind = .reference then throw (.invalidArgument (.notValueKind .unbox))
  modify (·.push (.unbox kind.toByte))

def declareLocal (name : String) : EmitM UInt16 := do
  ensureOpen
  let e ← get
  let slot := e.localCount
  if 65536 ≤ slot then throw (.invalidOperation (.tooManyLocals e.name))
  set { e with locals := e.locals.push name }
  return slot.toUInt16

def defineLabel : EmitM Label := do
  let e ← get
  set { e with nextLabel := e.nextLabel + 1 }
  return ⟨e.nextLabel⟩

def markLabel (l : Label) : EmitM Unit := do
  ensureOpen
  let e ← get
  if e.isMarked l then throw (.invalidOperation (.markedTwice l.id e.name))
  set { e with marks := (l, e.offset) :: e.marks }

/-- Jumps only where control can come from. -/
def leaveTo (l : Label) : EmitM Unit := do
  if (← get).canFallThrough then emit (.jump l)

def beginTry : EmitM Label := do
  ensureOpen
  let l ← defineLabel
  modify fun e => { e with regions := ⟨e.offset, none, l, 0⟩ :: e.regions }
  return l

def beginCatch (tag : TypeTag) : EmitM Unit := do
  ensureOpen
  let e ← get
  match e.regions with
  | [] => throw (.invalidOperation .catchOutside)
  | region :: outer =>
    let tryEnd := region.tryEnd.getD e.offset
    leaveTo region.endLabel
    modify fun e =>
      { e with
        handlers := e.handlers ++
          [⟨region.tryStart.toUInt32, tryEnd.toUInt32, e.offset.toUInt32, tag⟩]
        regions := { region with tryEnd := some tryEnd, catches := region.catches + 1 } :: outer }

def endTry : EmitM Unit := do
  ensureOpen
  let e ← get
  match e.regions with
  | [] => throw (.invalidOperation .noRegion)
  | region :: outer =>
    if region.catches = 0 then throw (.invalidOperation .noCatch)
    set { e with regions := outer }
    leaveTo region.endLabel
    markLabel region.endLabel

def finish : EmitM Body := do
  ensureOpen
  let e ← get
  if !e.regions.isEmpty then throw (.invalidOperation (.openRegions e.name e.regions.length))
  if let some l := e.unmarkedLabels.head? then throw (.unmarkedLabel e.name l.id)
  let finished := { e with isFinished := true }
  set finished
  return ⟨finished.bytes.toArray, e.localCount, e.handlers⟩

end EmitM

end Bytesmith.Build
