import Bytesmith.Build.Lookup

namespace Bytesmith.Build

open Code

namespace Draft

/-- Slots belong to one method; a variable that depends on another method's is refused. -/
def ensureOwned (d : Draft) (m : Nat) (v : Variable) : Except BuildError Unit := do
  match v.owner? with
  | some owner =>
    if owner ≠ m then
      throw (.invalidOperation (.foreignVariable v.name (← d.method m).signature))
  | none => return ()

def this (d : Draft) (m : Nat) : Except BuildError Variable := do
  let target ← d.method m
  if target.attrs.isStatic then throw (.invalidOperation (.noReceiver target.signature))
  return .slot m 0 "this" (← d.classType target.owner)

def param (d : Draft) (m : Nat) (index : Nat) : Except BuildError Variable := do
  let target ← d.method m
  match target.params[index]? with
  | some p =>
    let first : UInt16 := if target.attrs.isStatic then 0 else 1
    return .slot m (first + index.toUInt16) p.name p.ty
  | none =>
    throw (.invalidArgument (.parameterIndex target.signature target.params.length index))

def paramNamed (d : Draft) (m : Nat) (name : String) : Except BuildError Variable := do
  let target ← d.method m
  match target.params.findIdx? (·.name == name) with
  | some index => d.param m index
  | none => throw (.unknownMember .parameter name)

def fieldDef (d : Draft) (id : Nat) : Except BuildError FieldDef := find .field d.fields id

def propertyDef (d : Draft) (id : Nat) : Except BuildError PropertyDef :=
  find .property d.properties id

/-- A field as a method sees it: readonly ones are writable in constructors of their type. -/
def fieldMember (target : MethodDef) (id : Nat) (f : FieldDef) : Member :=
  let writable := !f.attrs.isReadonly || (target.isConstructor && target.owner == f.owner)
  ⟨f.name, f.ty, .field id writable⟩

def propertyMember (id : Nat) (p : PropertyDef) : Member :=
  ⟨p.name, p.ty, .property id p.getter p.setter⟩

def field (d : Draft) (m : Nat) (name : String) : Except BuildError Variable := do
  let target ← d.method m
  match d.findField? target.owner name with
  | none => throw (.unknownMember .field name)
  | some id =>
    let f ← d.fieldDef id
    if f.attrs.isStatic then
      return .shared (← d.type f.owner).name (fieldMember target id f)
    if target.attrs.isStatic then
      throw (.invalidOperation (.instanceFieldInStatic name target.signature))
    return .own (fieldMember target id f)

def fieldOf (d : Draft) (m : Nat) (object : Variable) (name : String) :
    Except BuildError Variable := do
  let target ← d.method m
  d.ensureOwned m object
  match object.ty.classId? with
  | none => throw (.invalidArgument (.noFields object.ty))
  | some type =>
    match d.findField? type name with
    | none => throw (.unknownMember .field s!"{object.ty.text}.{name}")
    | some id =>
      let f ← d.fieldDef id
      if f.attrs.isStatic then throw (.invalidArgument (.staticThroughInstance name))
      return .of object (fieldMember target id f)

def property (d : Draft) (m : Nat) (name : String) : Except BuildError Variable := do
  let target ← d.method m
  if target.attrs.isStatic then
    throw (.invalidOperation (.propertyInStatic name target.signature))
  match d.findProperty? target.owner name with
  | none => throw (.unknownMember .property name)
  | some id => return .own (propertyMember id (← d.propertyDef id))

def propertyOf (d : Draft) (m : Nat) (object : Variable) (name : String) :
    Except BuildError Variable := do
  d.ensureOwned m object
  match object.ty.classId? with
  | none => throw (.invalidArgument (.noProperties object.ty))
  | some type =>
    match d.findProperty? type name with
    | none => throw (.unknownMember .property s!"{object.ty.text}.{name}")
    | some id => return .of object (propertyMember id (← d.propertyDef id))

def bindArguments (d : Draft) (m : Nat) (target : CallTarget) (args : List Variable) :
    Except BuildError (List Argument) := do
  if args.length ≠ target.params.length then
    throw (.invalidArgument (.arity target.name target.params.length args.length))
  (args.zip target.params).mapM fun (value, param) => do
    d.ensureOwned m value
    return ⟨value, ← d.coercion value.ty param, param⟩

end Draft

namespace MethodDef

def ensureOpen (m : MethodDef) : Except BuildError Unit :=
  match m.state with
  | .open =>
    if m.attrs.isAbstract then .error (.invalidOperation (.abstractBody m.signature)) else .ok ()
  | .aborted => .error (.invalidOperation (.abortedBody m.signature))
  | .finished _ => .error (.invalidOperation (.sealedBody m.signature))

/-- Ends the body: control that reaches its end returns the default, and labels get positions. -/
def finalize (m : MethodDef) : EmitM Body := do
  if !m.attrs.isAbstract && (← get).canFallThrough then
    if m.returnType.isVoid then EmitM.emit .retVoid
    else
      EmitM.emit (.default m.returnType.valueKind)
      EmitM.emit .ret
  EmitM.finish

end MethodDef

namespace BuildM

/-- Runs an operation on an open body; the body is aborted when it fails. -/
def recording {α : Type} (m : Nat) (op : MethodDef → BuildM α) : BuildM α := do
  let target ← reading (·.method m)
  ofExcept target.ensureOpen
  fun d => match op target d with
    | .ok a d => .ok a d
    | .error e d => .error e (d.modifyMethod m ({ · with state := .aborted }))

def writing {α : Type} (m : Nat) (op : CodeM α) : BuildM α := do
  let target ← reading (·.method m)
  fun d =>
    let store (o : Output) : Draft :=
      { d.modifyMethod m ({ · with emitter := o.emitter }) with constants := o.constants }
    match op ⟨target.emitter, d.constants⟩ with
    | .ok a o => .ok a (store o)
    | .error e o => .error e (store o)

def push (m : Nat) (c : Command) : BuildM Unit := do
  let (codeStart, codeEnd) ← writing m do
    let codeStart := (← get).emitter.offset
    c.setup
    return (codeStart, (← get).emitter.offset)
  modify (·.modifyMethod m fun target =>
    { target with commands := target.commands.push ⟨c, codeStart, codeEnd⟩ })

def declare (m : Nat) (name : String) (ty : StaticType) : BuildM Variable := do
  let slot ← writing m (CodeM.emitting (EmitM.declareLocal name))
  return .slot m slot name ty

/-- A local with a name that no other temporary of the draft has. -/
def temp (m : Nat) (stem : String) (ty : StaticType) : BuildM Variable := do
  let d ← get
  let count := d.nameCount + 1
  set { d with nameCount := count }
  declare m s!"__{stem}{count}" ty

def defineLabel (m : Nat) : BuildM Label := writing m (CodeM.emitting EmitM.defineLabel)

def setBlocks (m : Nat) (blocks : List Block) : BuildM Unit :=
  modify (·.modifyMethod m ({ · with blocks := blocks }))

def ensureOwned (m : Nat) (v : Variable) : BuildM Unit := reading (·.ensureOwned m v)

def createLocal (m : Nat) (name : String) (ty : StaticType) : BuildM Variable :=
  recording m fun target => do
    ofExcept (requireName .localVariable name)
    ofExcept (requireStorable .localVariable name ty)
    if target.declares name then throw (.duplicateMember target.signature name)
    let v ← declare m name ty
    push m (.defineLocal v)
    return v

def assign (m : Nat) (target source : Variable) : BuildM Unit :=
  recording m fun _ => do
    ensureOwned m target
    ensureOwned m source
    let coercion ← reading (·.coercion source.ty target.ty)
    push m (.assign target source coercion)

def arithmetic (m : Nat) (op : Arithmetic) (left right : Variable) : BuildM Variable :=
  recording m fun _ => do
    ensureOwned m left
    ensureOwned m right
    let ty ← ofExcept (operandType op left.ty right.ty)
    let result ← temp m op.stem ty
    push m (.arithmetic op left right ty result)
    return result

def bump (m : Nat) (op : Arithmetic) (target : Variable) : BuildM Variable := do
  let next ← arithmetic m op target (.constant (.i32 1))
  assign m target next
  return next

def increment (m : Nat) (target : Variable) : BuildM Variable := bump m .add target

def decrement (m : Nat) (target : Variable) : BuildM Variable := bump m .sub target

/-- Makes an object with the constructor that fits the arguments. A type without constructors
takes no arguments. -/
def newObject (m : Nat) (type : Nat) (args : List Variable) : BuildM Variable :=
  recording m fun _ => do
    let t ← reading (·.type type)
    if t.attrs.isAbstract then throw (.invalidOperation (.abstractInstance t.name))
    let ty := StaticType.class type t.name
    let (constructor, bound) ←
      if t.constructors.isEmpty && args.isEmpty then pure (none, [])
      else do
        let types := args.map Variable.ty
        match (← get).findConstructor? type types with
        | none =>
          throw (.unknownMember .constructor s!"{ty.text}({MethodDef.typeList types})")
        | some c => do
          let target ← reading (·.callTarget c)
          pure (some target, ← reading (·.bindArguments m target args))
    let result ← temp m "new" ty
    push m (.newObject ty constructor bound result)
    return result

/-- The receiver of a call; instance methods are called on the receiver of the caller unless one
is given. -/
def callReceiver (m : Nat) (target : CallTarget) (receiver : Option Variable) :
    BuildM (Option Variable) := do
  if target.isStatic then
    if receiver.isSome then throw (.invalidArgument (.receiverOfStatic target.name))
    return none
  let object ← match receiver with
    | some v => pure v
    | none => reading (·.this m)
  ensureOwned m object
  let coercion ← reading (·.coercion object.ty target.owner)
  if coercion ≠ .none then throw (.typeMismatch target.owner object.ty)
  return some object

def call (m : Nat) (method : Nat) (receiver : Option Variable) (args : List Variable) :
    BuildM (Option Variable) :=
  recording m fun _ => do
    let target ← reading (·.callTarget method)
    if target.isConstructor then throw (.invalidArgument (.constructorCall target.owner))
    let object ← callReceiver m target receiver
    let bound ← reading (·.bindArguments m target args)
    let result ←
      if target.returnType.isVoid then pure none
      else some <$> temp m "call" target.returnType
    push m (.call target object bound result)
    return result

def callNamed (m : Nat) (receiver : Variable) (name : String) (args : List Variable) :
    BuildM (Option Variable) := do
  let method ← recording m fun _ => do
    match receiver.ty.classId? with
    | none => throw (.invalidArgument (.noMethods receiver.ty))
    | some type =>
      let types := args.map Variable.ty
      match (← get).findMethod? type name types with
      | some found => return found
      | none =>
        throw (.unknownMember .method s!"{receiver.ty.text}.{name}({MethodDef.typeList types})")
  call m method (some receiver) args

def callBase (m : Nat) (args : List Variable) : BuildM Unit :=
  recording m fun target => do
    if !target.isConstructor then throw (.invalidOperation (.notConstructor target.signature))
    let owner ← reading (·.type target.owner)
    match owner.base with
    | none => throw (.invalidOperation (.noBase owner.name))
    | some base =>
      let types := args.map Variable.ty
      match (← get).findConstructor? base types with
      | none => throw (.unknownMember .constructor s!"base({MethodDef.typeList types})")
      | some c =>
        let callee ← reading (·.callTarget c)
        let bound ← reading (·.bindArguments m callee args)
        let this ← reading (·.this m)
        push m (.call callee (some this) bound none)

def box (m : Nat) (value : Variable) : BuildM Variable :=
  recording m fun _ => do
    ensureOwned m value
    if !value.ty.isValue then throw (.invalidArgument (.boxSource value.ty))
    let result ← temp m "box" .object
    push m (.box value result)
    return result

def unbox (m : Nat) (value : Variable) (ty : StaticType) : BuildM Variable :=
  recording m fun _ => do
    ensureOwned m value
    if !ty.isValue then throw (.invalidArgument (.unboxTarget ty))
    if !value.ty.isReference then throw (.invalidArgument (.unboxSource value.ty))
    let result ← temp m "unbox" ty
    push m (.unbox value ty result)
    return result

def cast (m : Nat) (value : Variable) (ty : StaticType) : BuildM Variable :=
  recording m fun _ => do
    ensureOwned m value
    if ty.tag?.isNone then throw (.invalidArgument (.castTarget ty))
    if !value.ty.isReference then throw (.invalidArgument (.castSource value.ty))
    let result ← temp m "cast" ty
    push m (.cast value ty result)
    return result

def raise (m : Nat) (value : Variable) : BuildM Unit :=
  recording m fun _ => do
    ensureOwned m value
    if !value.ty.isReference || value.ty = .null then
      throw (.invalidArgument (.notThrowable value.ty))
    push m (.raise value)

def condition (m : Nat) (left : Variable) (comparison : Comparison) (right : Variable) :
    BuildM Condition := do
  ensureOwned m left
  ensureOwned m right
  ofExcept (Condition.make left comparison right)

def unbalanced (marker : Marker) (blocks : List Block) : BuildError :=
  .unbalancedBlock marker ((blocks.head?.map Block.describe).getD "no open block")

def ifBegin (m : Nat) (left : Variable) (comparison : Comparison) (right : Variable) :
    BuildM Unit :=
  recording m fun target => do
    let c ← condition m left comparison right
    let elseLabel ← defineLabel m
    let finalLabel ← defineLabel m
    push m (.ifBegin c elseLabel finalLabel)
    setBlocks m (.conditional (some elseLabel) finalLabel :: target.blocks)

def elseIf (m : Nat) (left : Variable) (comparison : Comparison) (right : Variable) : BuildM Unit :=
  recording m fun target => do
    match target.blocks with
    | .conditional (some previousElse) finalLabel :: outer =>
      let c ← condition m left comparison right
      let elseLabel ← defineLabel m
      push m (.elseIf c previousElse elseLabel finalLabel)
      setBlocks m (.conditional (some elseLabel) finalLabel :: outer)
    | blocks => throw (unbalanced .elseIf blocks)

def elseBegin (m : Nat) : BuildM Unit :=
  recording m fun target => do
    match target.blocks with
    | .conditional (some previousElse) finalLabel :: outer =>
      push m (.elseBegin previousElse finalLabel)
      setBlocks m (.conditional none finalLabel :: outer)
    | blocks => throw (unbalanced .else blocks)

def endIf (m : Nat) : BuildM Unit :=
  recording m fun target => do
    match target.blocks with
    | .conditional pendingElse finalLabel :: outer =>
      push m (.endIf pendingElse finalLabel)
      setBlocks m outer
    | blocks => throw (unbalanced .endIf blocks)

def whileBegin (m : Nat) (left : Variable) (comparison : Comparison) (right : Variable) :
    BuildM Unit :=
  recording m fun target => do
    let c ← condition m left comparison right
    let startLabel ← defineLabel m
    let endLabel ← defineLabel m
    push m (.whileBegin c startLabel endLabel)
    setBlocks m (.loop startLabel endLabel :: target.blocks)

def endWhile (m : Nat) : BuildM Unit :=
  recording m fun target => do
    match target.blocks with
    | .loop startLabel endLabel :: outer =>
      push m (.endWhile startLabel endLabel)
      setBlocks m outer
    | blocks => throw (unbalanced .endWhile blocks)

def tryBegin (m : Nat) : BuildM Unit :=
  recording m fun target => do
    push m .tryBegin
    setBlocks m (.guarded false :: target.blocks)

def catchBegin (m : Nat) (ty : StaticType) : BuildM Variable :=
  recording m fun target => do
    match target.blocks with
    | .guarded _ :: outer =>
      if ty.tag?.isNone then throw (.invalidArgument (.notCatchableValues ty))
      let v ← temp m "ex" ty
      push m (.catchBegin ty v)
      setBlocks m (.guarded true :: outer)
      return v
    | blocks => throw (unbalanced .catch blocks)

def endTry (m : Nat) : BuildM Unit :=
  recording m fun target => do
    match target.blocks with
    | .guarded true :: outer =>
      push m .endTry
      setBlocks m outer
    | blocks => throw (unbalanced .endTry blocks)

def ret (m : Nat) (value : Variable) : BuildM Unit :=
  recording m fun target => do
    ensureOwned m value
    if target.returnType.isVoid then throw (.typeMismatch target.returnType value.ty)
    let coercion ← reading (·.coercion value.ty target.returnType)
    push m (.ret (some (value, coercion)) target.returnType)

def retVoid (m : Nat) : BuildM Unit :=
  recording m fun target => do
    if !target.returnType.isVoid then throw (.typeMismatch target.returnType .void)
    push m (.ret none target.returnType)

/-- Finishes a body. A body that is finished already stays as it is. -/
def finalize (m : Nat) : BuildM Unit := do
  let target ← reading (·.method m)
  match target.state with
  | .finished _ => return ()
  | .aborted => throw (.methodAborted target.signature)
  | .open =>
    if let some innermost := target.blocks.head? then
      throw (.unclosedBlock target.signature target.blocks.length innermost.kind)
    let body ← writing m (CodeM.emitting target.finalize)
    modify (·.modifyMethod m ({ · with state := .finished body }))

end BuildM

end Bytesmith.Build
