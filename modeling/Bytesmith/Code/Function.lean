import Bytesmith.Code.Kind

namespace Bytesmith.Code

open Wire

structure Handler where
  tryStart : UInt32
  tryEnd : UInt32
  handlerStart : UInt32
  catchType : TypeTag
deriving DecidableEq, Repr

namespace Handler

def covers (h : Handler) (offset : Nat) : Bool :=
  h.tryStart.toNat ≤ offset && offset < h.tryEnd.toNat

def encode (h : Handler) : List UInt8 :=
  u32 h.tryStart ++ u32 h.tryEnd ++ u32 h.handlerStart ++ h.catchType.encode

def decode : ReadM Handler := do
  let tryStart ← ReadM.u32
  let tryEnd ← ReadM.u32
  let handlerStart ← ReadM.u32
  let catchType ← TypeTag.decode
  return ⟨tryStart, tryEnd, handlerStart, catchType⟩

end Handler

structure Body where
  code : Array UInt8
  localCount : Nat
  handlers : List Handler
deriving DecidableEq, Repr

structure Function where
  name : String
  owner : Option UInt32
  flags : UInt32
  /-- Parameter slots, the receiver's included. -/
  paramCount : Nat
  /-- The kinds of the parameters, without the receiver. -/
  paramKinds : List ValueKind
  /-- All slots, those of parameters included. -/
  localCount : Nat
  code : Array UInt8
  handlers : List Handler
deriving DecidableEq, Repr

namespace Function

def staticFlag : UInt32 := 1

def constructorFlag : UInt32 := 2

def abstractFlag : UInt32 := 4

def returnsValueFlag : UInt32 := 8

def isStatic (f : Function) : Bool := f.flags &&& staticFlag != 0

def isConstructor (f : Function) : Bool := f.flags &&& constructorFlag != 0

def isAbstract (f : Function) : Bool := f.flags &&& abstractFlag != 0

def returnsValue (f : Function) : Bool := f.flags &&& returnsValueFlag != 0

def arity (f : Function) : Nat :=
  if f.isStatic then f.paramCount else f.paramCount - 1

def encode (f : Function) : List UInt8 :=
  text f.name ++ index f.owner ++ u32 f.flags ++ count f.paramCount ++
    Wire.list ValueKind.encode f.paramKinds ++ count f.localCount ++
    Wire.list u8 f.code.toList ++ Wire.list Handler.encode f.handlers

def decode : ReadM Function := do
  let name ← ReadM.text
  let owner ← ReadM.index
  let flags ← ReadM.u32
  let paramCount ← ReadM.word 4
  let paramKinds ← ReadM.list ValueKind.decode
  let localCount ← ReadM.word 4
  let code ← ReadM.take (← ReadM.word 4)
  let handlers ← ReadM.list Handler.decode
  return ⟨name, owner, flags, paramCount, paramKinds, localCount, code.toArray, handlers⟩

end Function

end Bytesmith.Code
