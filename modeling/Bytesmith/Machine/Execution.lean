import Bytesmith.Machine.Operation

namespace Bytesmith.Machine

open Code Wire

structure Frame where
  function : Function
  position : Nat
  /-- Top first. -/
  stack : List Value
  locals : Array Value
deriving DecidableEq, Repr

/-- What a suspended caller does with the result of its call. -/
inductive Resume
  | discard
  | push
  /-- A constructor call leaves the object and drops the result. -/
  | leave (object : Value)
deriving DecidableEq, Repr

structure Caller where
  frame : Frame
  callOffset : Nat
  resume : Resume
deriving DecidableEq, Repr

inductive Effect
  | next (frame : Frame) (store : Store)
  | call (function : UInt32) (args : List Value) (caller : Frame) (resume : Resume)
  | ret (v : Value)
  | raise (v : Value)
deriving DecidableEq, Repr

namespace Frame

/-- Missing slots are null. -/
def enter (f : Function) (args : List Value) : Frame :=
  ⟨f, 0, [], (args ++ List.replicate (f.localCount - args.length) Value.null).toArray⟩

def push (f : Frame) (v : Value) : Frame := { f with stack := v :: f.stack }

def underflow {α : Type} (f : Frame) : Except Fault α := .error (.stackUnderflow f.function.name)

def pop (f : Frame) : Except Fault (Value × Frame) :=
  match f.stack with
  | v :: rest => .ok (v, { f with stack := rest })
  | [] => f.underflow

def pop2 (f : Frame) : Except Fault (Value × Value × Frame) := do
  let (b, f) ← f.pop
  let (a, f) ← f.pop
  return (a, b, f)

def popArgs (f : Frame) (n : Nat) : Except Fault (List Value × Frame) :=
  if f.stack.length < n then f.underflow
  else .ok ((f.stack.take n).reverse, { f with stack := f.stack.drop n })

def isAtEnd (f : Frame) : Bool := f.function.code.size ≤ f.position

def jump (f : Frame) (distance : Int32) : Except Fault Frame :=
  let target := f.position + distance.toInt
  if target < 0 || f.function.code.size < target then
    .error (.invalidJump f.function.name target)
  else .ok { f with position := target.toNat }

def loadLocal (f : Frame) (slot : UInt16) : Except Fault Value :=
  match f.locals[slot.toNat]? with
  | some v => .ok v
  | none => .error (.unknown .localSlot (toString slot.toNat))

def storeLocal (f : Frame) (slot : UInt16) (v : Value) : Except Fault Frame :=
  if slot.toNat < f.locals.size then .ok { f with locals := f.locals.setIfInBounds slot.toNat v }
  else .error (.unknown .localSlot (toString slot.toNat))

/-- Reads what comes behind the position, and moves on. -/
def read {α : Type} (f : Frame) (x : ReadM α) : Except Fault (α × Frame) :=
  match x ⟨f.function.code, f.position⟩ with
  | .ok a r => .ok (a, { f with position := r.position })
  | .error e _ => .error (.decode e)

end Frame

def readOpcode : ReadM Opcode := do
  let offset ← ReadM.position
  let byte ← ReadM.u8
  match Opcode.ofByte? byte with
  | some op => return op
  | none => throw (.invalidOpcode byte offset)

def function (m : Module) (id : UInt32) : Except Fault Function :=
  match m.function? id with
  | some f => .ok f
  | none => .error (.unknown .function (toString id))

/-- Calls of abstract methods go to the implementation of the receiver's class. -/
def callEffect (m : Module) (s : Store) (mode : CallMode) (id : UInt32) (argc : Nat) (f : Frame) :
    Except Fault Effect := do
  let target ← function m id
  let (args, f) ← f.popArgs argc
  let resume := if target.returnsValue then Resume.push else Resume.discard
  match mode with
  | .static => return .call id args f resume
  | .method =>
    let (receiver, f) ← f.pop
    let classId ← receiverClass s target.name receiver
    if target.isAbstract then
      match m.implementation? classId target.name argc with
      | some resolved => return .call resolved (receiver :: args) f resume
      | none => throw (.unknown .implementation target.name)
    else return .call id (receiver :: args) f resume
  | .constructor =>
    let (object, f) ← f.pop
    discard <| receiverClass s target.name object
    return .call id (object :: args) f (.leave object)

/-- Jumps by a distance; a branch compares two values to tell whether it does. -/
def jumpEffect (s : Store) (test? : Option Test) (f : Frame) : Except Fault Effect := do
  let (distance, f) ← f.read ReadM.i32
  match test? with
  | none => return .next (← f.jump distance) s
  | some t =>
    let (a, b, f) ← f.pop2
    if ← test t a b then return .next (← f.jump distance) s
    else return .next f s

/-- Carries out an opcode in a frame that stands behind it. The operands are read first. -/
def execOpcode (m : Module) (s : Store) (f : Frame) (op : Opcode) : Except Fault Effect := do
  let push (v : Value) (f : Frame) : Except Fault Effect := .ok (.next (f.push v) s)
  match op with
  | .nop => return .next f s
  | .pop =>
    let (_, f) ← f.pop
    return .next f s
  | .dup =>
    match f.stack with
    | v :: _ => push v f
    | [] => f.underflow
  | .constNull => push .null f
  | .constTrue => push (.bool true) f
  | .constFalse => push (.bool false) f
  | .constI32 =>
    let (n, f) ← f.read ReadM.i32
    push (.i32 n) f
  | .constI64 =>
    let (n, f) ← f.read ReadM.i64
    push (.i64 n) f
  | .constF64 =>
    let (x, f) ← f.read ReadM.f64
    push (.f64 x) f
  | .constStr =>
    let (index, f) ← f.read ReadM.u32
    match m.constants.get? index with
    | some t => push (.string t) f
    | none => throw (.unknown .stringConstant (toString index))
  | .loadLocal =>
    let (slot, f) ← f.read ReadM.u16
    push (← f.loadLocal slot) f
  | .storeLocal =>
    let (slot, f) ← f.read ReadM.u16
    let (v, f) ← f.pop
    return .next (← f.storeLocal slot v) s
  | .arith kind op =>
    let (a, b, f) ← f.pop2
    push (← arith kind op a b) f
  | .widen w =>
    let (v, f) ← f.pop
    push (← widen w v) f
  | .concat =>
    let (a, b, f) ← f.pop2
    push (← concat a b) f
  | .jump => jumpEffect s none f
  | .branch t => jumpEffect s (some t) f
  | .call mode =>
    let (id, f) ← f.read ReadM.u32
    let (argc, f) ← f.read ReadM.u16
    callEffect m s mode id argc.toNat f
  | .ret =>
    let (v, _) ← f.pop
    return .ret v
  | .retVoid => return .ret .null
  | .new =>
    let (id, f) ← f.read ReadM.u32
    let (ref, s) := s.allocate (← newObject m id)
    return .next (f.push (.object ref)) s
  | .loadField =>
    let (id, f) ← f.read ReadM.u32
    let (receiver, f) ← f.pop
    push (← loadField m s id receiver) f
  | .storeField =>
    let (id, f) ← f.read ReadM.u32
    let (receiver, v, f) ← f.pop2
    return .next f (← storeField m s id receiver v)
  | .loadStatic =>
    let (id, f) ← f.read ReadM.u32
    push (← loadStatic m s id) f
  | .storeStatic =>
    let (id, f) ← f.read ReadM.u32
    discard <| loadStatic m s id
    let (v, f) ← f.pop
    return .next f (s.setStatic id v)
  | .box =>
    let (_, f) ← f.read ValueKind.decode
    let (v, f) ← f.pop
    push (.boxed v) f
  | .unbox =>
    let (kind, f) ← f.read ValueKind.decode
    let (v, f) ← f.pop
    push (← unbox m s kind v) f
  | .cast =>
    let (tag, f) ← f.read TypeTag.decode
    let (v, f) ← f.pop
    push (← cast m s tag v) f
  | .raise =>
    let (v, _) ← f.pop
    if v = .null then throw (.nullReference .thrown)
    return .raise v

def Frame.effect (m : Module) (s : Store) (f : Frame) : Except Fault Effect := do
  let (op, f) ← f.read readOpcode
  execOpcode m s f op

structure Configuration where
  store : Store
  frame : Frame
  callers : List Caller
deriving DecidableEq, Repr

inductive Outcome
  | running (configuration : Configuration)
  | returned (v : Value) (store : Store)
  | uncaught (v : Value) (store : Store)
  | faulted (fault : Fault) (store : Store)
deriving DecidableEq, Repr

def Configuration.depth (k : Configuration) : Nat := k.callers.length + 1

/-- Starts a function on top of the callers, of which there may be fewer than `limit`. -/
def enter (m : Module) (limit : Nat) (s : Store) (callers : List Caller) (id : UInt32)
    (args : List Value) : Outcome :=
  if limit ≤ callers.length then .faulted (.stackOverflow limit) s
  else match function m id with
    | .error e => .faulted e s
    | .ok f =>
      if f.isAbstract then .faulted (.typeError (.abstractBody f.name)) s
      else .running ⟨s, .enter f args, callers⟩

def finishFrame (s : Store) (v : Value) : List Caller → Outcome
  | [] => .returned v s
  | c :: callers =>
    let frame := match c.resume with
      | .discard => c.frame
      | .push => c.frame.push v
      | .leave object => c.frame.push object
    .running ⟨s, frame, callers⟩

def handlerFor? (m : Module) (s : Store) (v : Value) (f : Frame) (offset : Nat) : Option Handler :=
  f.function.handlers.find? fun h => h.covers offset && isInstance m s v h.catchType

def Frame.handle (f : Frame) (h : Handler) (v : Value) : Frame :=
  { f with stack := [v], position := h.handlerStart.toNat }

def unwind (m : Module) (s : Store) (v : Value) (f : Frame) (offset : Nat) : List Caller → Outcome
  | [] =>
    match handlerFor? m s v f offset with
    | some h => .running ⟨s, f.handle h v, []⟩
    | none => .uncaught v s
  | c :: callers =>
    match handlerFor? m s v f offset with
    | some h => .running ⟨s, f.handle h v, c :: callers⟩
    | none => unwind m s v c.frame c.callOffset callers

/-- One instruction. Running past the end of the code returns null. -/
def step (m : Module) (limit : Nat) (k : Configuration) : Outcome :=
  if k.frame.isAtEnd then finishFrame k.store .null k.callers
  else
    match k.frame.effect m k.store with
    | .error e => .faulted e k.store
    | .ok (.next f s) => .running ⟨s, f, k.callers⟩
    | .ok (.call id args caller resume) =>
      enter m limit k.store (⟨caller, k.frame.position, resume⟩ :: k.callers) id args
    | .ok (.ret v) => finishFrame k.store v k.callers
    | .ok (.raise v) => unwind m k.store v k.frame k.frame.position k.callers

def run (m : Module) (limit : Nat) : Nat → Outcome → Outcome
  | fuel + 1, .running k => run m limit fuel (step m limit k)
  | _, outcome => outcome

end Bytesmith.Machine
