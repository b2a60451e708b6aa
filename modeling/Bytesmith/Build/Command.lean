import Bytesmith.Build.Variable

namespace Bytesmith.Build

open Code

structure Condition where
  left : Variable
  comparison : Comparison
  right : Variable
  widenTo : Option StaticType
deriving DecidableEq, Repr

structure CallTarget where
  method : Nat
  owner : StaticType
  name : String
  params : List StaticType
  returnType : StaticType
  isStatic : Bool
  isConstructor : Bool
deriving DecidableEq, Repr

structure Argument where
  value : Variable
  coercion : Coercion
  paramType : StaticType
deriving DecidableEq, Repr

inductive Command
  | arithmetic (op : Arithmetic) (left right : Variable) (operandType : StaticType)
      (result : Variable)
  | assign (target source : Variable) (coercion : Coercion)
  /-- A type without constructors is made without a call. -/
  | newObject (type : StaticType) (constructor : Option CallTarget) (args : List Argument)
      (result : Variable)
  | call (target : CallTarget) (receiver : Option Variable) (args : List Argument)
      (result : Option Variable)
  | box (value result : Variable)
  | unbox (value : Variable) (ty : StaticType) (result : Variable)
  | cast (value : Variable) (ty : StaticType) (result : Variable)
  | raise (value : Variable)
  | defineLocal (v : Variable)
  | ifBegin (condition : Condition) (elseLabel finalLabel : Label)
  | elseIf (condition : Condition) (previousElse elseLabel finalLabel : Label)
  | elseBegin (previousElse finalLabel : Label)
  | endIf (pendingElse : Option Label) (finalLabel : Label)
  | whileBegin (condition : Condition) (startLabel endLabel : Label)
  | endWhile (startLabel endLabel : Label)
  | tryBegin
  | catchBegin (ty : StaticType) (v : Variable)
  | endTry
  | ret (value : Option (Variable × Coercion)) (returnType : StaticType)
deriving DecidableEq, Repr

namespace Condition

def make (left : Variable) (comparison : Comparison) (right : Variable) :
    Except BuildError Condition := do
  return ⟨left, comparison, right, ← comparedType left.ty comparison right.ty⟩

def check (c : Condition) : Except BuildError Unit := do
  c.left.checkLoad
  c.right.checkLoad

def text (c : Condition) : String := s!"{c.left.text} {c.comparison.symbol} {c.right.text}"

end Condition

def loadWidened (v : Variable) (target : StaticType) : CodeM Unit := do
  v.load
  if let some w := v.ty.widening? target then CodeM.emit (.widen w)

namespace Condition

def loadOperand (c : Condition) (v : Variable) : CodeM Unit :=
  match c.widenTo with
  | some target => loadWidened v target
  | none => v.load

/-- Compares, and jumps when the condition fails. -/
def branchUnless (c : Condition) (l : Label) : CodeM Unit := do
  c.loadOperand c.left
  c.loadOperand c.right
  CodeM.emit (.branch c.comparison.failureTest l)

end Condition

namespace Argument

def load (a : Argument) : CodeM Unit := do
  a.value.load
  CodeM.emitting a.coercion.emit

def text (a : Argument) : String := a.coercion.text a.paramType a.value.text

def listText (args : List Argument) : String := ", ".intercalate (args.map text)

end Argument

namespace CallTarget

def mode (t : CallTarget) : CallMode :=
  if t.isConstructor then .constructor else if t.isStatic then .static else .method

end CallTarget

namespace Command

def kind : Command → String
  | .arithmetic op _ _ _ _ => op.name
  | .assign _ _ _ => "Assign"
  | .newObject _ _ _ _ => "NewObject"
  | .call _ _ _ _ => "Call"
  | .box _ _ => "Box"
  | .unbox _ _ _ => "UnBox"
  | .cast _ _ _ => "Cast"
  | .raise _ => "Throw"
  | .defineLocal _ => "DefineLocal"
  | .ifBegin _ _ _ => "If"
  | .elseIf _ _ _ _ => "ElseIf"
  | .elseBegin _ _ => "Else"
  | .endIf _ _ => "EndIf"
  | .whileBegin _ _ _ => "While"
  | .endWhile _ _ => "EndWhile"
  | .tryBegin => "Try"
  | .catchBegin _ _ => "Catch"
  | .endTry => "EndTry"
  | .ret _ _ => "Return"

def result? : Command → Option Variable
  | .arithmetic _ _ _ _ result => some result
  | .newObject _ _ _ result => some result
  | .call _ _ _ result => result
  | .box _ result => some result
  | .unbox _ _ result => some result
  | .cast _ _ result => some result
  | .defineLocal v => some v
  | .catchBegin _ v => some v
  | _ => none

/-- Whether the command continues or closes a block, and so stands one level further out. -/
def outdents : Command → Bool
  | .elseIf _ _ _ _ | .elseBegin _ _ | .catchBegin _ _ => true
  | .endIf _ _ | .endWhile _ _ | .endTry => true
  | _ => false

/-- Whether the commands after it stand one level further in. -/
def indents : Command → Bool
  | .ifBegin _ _ _ | .whileBegin _ _ _ | .tryBegin => true
  | .elseIf _ _ _ _ | .elseBegin _ _ | .catchBegin _ _ => true
  | _ => false

def check : Command → Except BuildError Unit
  | .arithmetic _ left right _ _ => do
    left.checkLoad
    right.checkLoad
  | .assign target source _ => do
    target.checkSave
    source.checkLoad
  | .newObject _ _ args _ => args.forM (·.value.checkLoad)
  | .call _ receiver args _ => do
    if let some r := receiver then r.checkLoad
    args.forM (·.value.checkLoad)
  | .box value _ | .unbox value _ _ | .cast value _ _ | .raise value => value.checkLoad
  | .ifBegin c _ _ | .elseIf c _ _ _ | .whileBegin c _ _ => c.check
  | .ret (some (value, _)) _ => value.checkLoad
  | _ => .ok ()

def tagFor (ty : StaticType) (fault : ArgumentFault) : CodeM TypeTag :=
  match ty.tag? with
  | some tag => return tag
  | none => throw (.invalidArgument fault)

def emit : Command → CodeM Unit
  | .arithmetic op left right ty result => do
    match ty.arithmetic? op with
    | none => throw (.invalidArgument (.undefinedFor op ty))
    | some instr =>
      loadWidened left ty
      loadWidened right ty
      CodeM.emit instr
      result.save
  | .assign target source coercion => do
    target.loadReceiver
    source.load
    CodeM.emitting coercion.emit
    target.save
  | .newObject type constructor args result => do
    match type.classId? with
    | none => throw (.invalidArgument (.notInstantiable type))
    | some id =>
      CodeM.emit (.new id.toUInt32)
      if let some target := constructor then
        args.forM Argument.load
        CodeM.emit (.call .constructor target.method.toUInt32 args.length.toUInt16)
      result.save
  | .call target receiver args result => do
    if let some r := receiver then r.load
    args.forM Argument.load
    CodeM.emit (.call target.mode target.method.toUInt32 args.length.toUInt16)
    if target.isConstructor then CodeM.emit .pop
    if let some r := result then r.save
  | .box value result => do
    value.load
    CodeM.emitting (EmitM.emitBox value.ty.valueKind)
    result.save
  | .unbox value ty result => do
    value.load
    CodeM.emitting (EmitM.emitUnbox ty.valueKind)
    result.save
  | .cast value ty result => do
    let tag ← tagFor ty (.notCastable ty)
    value.load
    CodeM.emit (.cast tag)
    result.save
  | .raise value => do
    value.load
    CodeM.emit .raise
  | .defineLocal _ => return ()
  | .ifBegin c elseLabel _ => c.branchUnless elseLabel
  | .elseIf c previousElse elseLabel finalLabel => do
    CodeM.emitting (EmitM.leaveTo finalLabel)
    CodeM.emitting (EmitM.markLabel previousElse)
    c.branchUnless elseLabel
  | .elseBegin previousElse finalLabel => do
    CodeM.emitting (EmitM.leaveTo finalLabel)
    CodeM.emitting (EmitM.markLabel previousElse)
  | .endIf pendingElse finalLabel => do
    if let some l := pendingElse then CodeM.emitting (EmitM.markLabel l)
    CodeM.emitting (EmitM.markLabel finalLabel)
  | .whileBegin c startLabel endLabel => do
    CodeM.emitting (EmitM.markLabel startLabel)
    c.branchUnless endLabel
  | .endWhile startLabel endLabel => do
    CodeM.emit (.jump startLabel)
    CodeM.emitting (EmitM.markLabel endLabel)
  | .tryBegin => discard <| CodeM.emitting EmitM.beginTry
  | .catchBegin ty v => do
    let tag ← tagFor ty (.notCatchable ty)
    CodeM.emitting (EmitM.beginCatch tag)
    v.save
  | .endTry => CodeM.emitting EmitM.endTry
  | .ret (some (value, coercion)) _ => do
    value.load
    CodeM.emitting coercion.emit
    CodeM.emit .ret
  | .ret none _ => CodeM.emit .retVoid

def setup (c : Command) : CodeM Unit := do
  CodeM.ofExcept c.check
  c.emit

def text : Command → String
  | .arithmetic op left right _ result =>
    s!"{result.definition} = {left.text} {op.symbol} {right.text};"
  | .assign target source coercion =>
    s!"{target.text} = {coercion.text target.ty source.text};"
  | .newObject type _ args result =>
    s!"{result.definition} = new {type.text}({Argument.listText args});"
  | .call target receiver args result =>
    let assigned := (result.map fun r => r.definition ++ " = ").getD ""
    let callee :=
      if target.isConstructor then "base"
      else ((receiver.map Variable.text).getD target.owner.text) ++ "." ++ target.name
    s!"{assigned}{callee}({Argument.listText args});"
  | .box value result => s!"{result.definition} = (object){value.text};"
  | .unbox value ty result | .cast value ty result =>
    s!"{result.definition} = ({ty.text}){value.text};"
  | .raise value => s!"throw {value.text};"
  | .defineLocal v => v.definition ++ ";"
  | .ifBegin c _ _ => s!"if ({c.text}) \x7b"
  | .elseIf c _ _ _ => s!"\x7d else if ({c.text}) \x7b"
  | .elseBegin _ _ => "\x7d else \x7b"
  | .endIf _ _ | .endWhile _ _ | .endTry => "\x7d"
  | .whileBegin c _ _ => s!"while ({c.text}) \x7b"
  | .tryBegin => "try \x7b"
  | .catchBegin _ v => s!"\x7d catch ({v.definition}) \x7b"
  | .ret (some (value, coercion)) returnType =>
    s!"return {coercion.text returnType value.text};"
  | .ret none _ => "return;"

end Command

structure Emitted where
  command : Command
  codeStart : Nat
  codeEnd : Nat
deriving DecidableEq, Repr

end Bytesmith.Build
