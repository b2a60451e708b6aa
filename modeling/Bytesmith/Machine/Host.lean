import Bytesmith.Machine.Execution

namespace Bytesmith.Machine

open Code

def defaultCallDepth : Nat := 256

structure Host where
  module : Module
  maxCallDepth : Nat
  fuel : Nat
deriving DecidableEq, Repr

inductive Halt
  | fault (fault : Fault)
  | outOfFuel
deriving DecidableEq, Repr

/-- A call of the host. What it did to the store before it failed stays. -/
abbrev HostM := EStateM Halt Store

def describe (m : Module) (s : Store) (v : Value) : String :=
  match v with
  | .object ref => match m.class? (s.object ref).classId with
    | some c => c.name
    | none => v.text s
  | .string t => "\"" ++ t ++ "\""
  | v => v.text s

namespace HostM

def fail {α : Type} (e : Fault) : HostM α := throw (.fault e)

def ofExcept {α : Type} : Except Fault α → HostM α
  | .ok a => return a
  | .error e => fail e

def ofOption {α : Type} (what : Sought) (name : String) : Option α → HostM α
  | some a => return a
  | none => fail (.unknown what name)

end HostM

namespace Host

open HostM

def start (m : Module) (maxCallDepth fuel : Nat) : Host := ⟨m, max maxCallDepth 1, fuel⟩

/-- Runs a function on arguments that fill its parameter slots, the receiver's included. -/
def invoke (h : Host) (id : UInt32) (args : List Value) : HostM Value := do
  let f ← ofExcept (function h.module id)
  if args.length ≠ f.paramCount then fail (.arityMismatch f.name f.paramCount args.length)
  let s ← get
  match run h.module h.maxCallDepth h.fuel (enter h.module h.maxCallDepth s [] id args) with
  | .returned v s =>
    set s
    return v
  | .uncaught v s =>
    set s
    fail (.uncaughtException (describe h.module s v))
  | .faulted e s =>
    set s
    fail e
  | .running k =>
    set k.store
    throw .outOfFuel

def classId (h : Host) (name : String) : HostM UInt32 :=
  ofOption .classEntry name (h.module.findClass? name)

/-- The static method of a name: the first of that name along the parents, if it is static. -/
def staticMethod? (h : Host) (id : UInt32) (name : String) : Option UInt32 :=
  (h.module.findMethod? id name).filter fun f => (h.module.function? f).any (·.isStatic)

def invokeStatic (h : Host) (className name : String) (args : List Value) : HostM Value := do
  let id ← h.classId className
  let f ← ofOption .staticMethod s!"{className}.{name}" (h.staticMethod? id name)
  h.invoke f args

def newObject (h : Host) (className : String) (args : List Value) : HostM Value := do
  let id ← h.classId className
  let object ← ofExcept (Machine.newObject h.module id)
  let (ref, s) := (← get).allocate object
  set s
  let constructors := ((h.module.class? id).map (·.constructors)).getD []
  match constructors.find? fun f => (h.module.function? f).any (·.arity == args.length) with
  | some f => discard <| h.invoke f (.object ref :: args)
  | none =>
    if !(constructors.isEmpty && args.isEmpty) then
      fail (.unknown .constructor s!"{className}({args.length} argument(s))")
  return .object ref

def callMethod (h : Host) (receiver : Value) (name : String) (args : List Value) :
    HostM Value := do
  let id ← ofExcept (receiverClass (← get) name receiver)
  let f ← ofOption .method name (h.module.implementation? id name args.length)
  h.invoke f (receiver :: args)

def getProperty (h : Host) (receiver : Value) (name : String) : HostM Value := do
  let id ← ofExcept (receiverClass (← get) name receiver)
  let f ← ofOption .readableProperty name ((h.module.findProperty? id name).bind (·.getter))
  h.invoke f [receiver]

def setProperty (h : Host) (receiver : Value) (name : String) (v : Value) : HostM Unit := do
  let id ← ofExcept (receiverClass (← get) name receiver)
  let f ← ofOption .writableProperty name ((h.module.findProperty? id name).bind (·.setter))
  discard <| h.invoke f [receiver, v]

def getField (h : Host) (receiver : Value) (name : String) : HostM Value := do
  let s ← get
  let id ← ofExcept (receiverClass s name receiver)
  let f ← ofOption .field name (h.module.findField? id name)
  match receiver with
  | .object ref => ofOption .field name ((s.object ref).field? f)
  | _ => fail (.nullReference (.member name))

def runEntryPoint (h : Host) (args : List Value) : HostM Value := do
  match h.module.entryPoint with
  | some f => h.invoke f args
  | none => fail .noEntryPoint

end Host

end Bytesmith.Machine
