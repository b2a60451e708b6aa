import Bytesmith.Build.Emitter

namespace Bytesmith.Build

open Code

/-- The type both operands are converted to. Strings can only be added. -/
def operandType (op : Arithmetic) (left right : StaticType) : Except BuildError StaticType :=
  if op = .add ∧ left = .string ∧ right = .string then .ok .string
  else match left.common? right with
    | some ty => .ok ty
    | none => .error (.invalidArgument (.undefinedOperator op left right))

def comparableAsIs (left : StaticType) (comparison : Comparison) (right : StaticType) : Bool :=
  left == right && left.isOrdered ||
    comparison.isEquality &&
      (left == .bool && right == .bool || left.isReference && right.isReference)

def comparedType (left : StaticType) (comparison : Comparison) (right : StaticType) :
    Except BuildError (Option StaticType) :=
  match left.common? right with
  | some ty => .ok (some ty)
  | none =>
    if comparableAsIs left comparison right then .ok none
    else .error (.invalidArgument (.incomparable left comparison right))

inductive Coercion
  | none
  | widen (w : Widening)
  | box (kind : ValueKind)
  | unbox (kind : ValueKind)
  | cast (tag : TypeTag)
deriving DecidableEq, Repr

namespace Coercion

def ofReferences? (isSubtype : Nat → Nat → Bool) (source target : StaticType) : Option Coercion :=
  match source, target with
  | .null, _ | _, .object => some .none
  | .class sub _, .class sup _ =>
    if isSubtype sub sup then some .none else some (.cast (.class sup.toUInt32))
  | .object, target => target.tag?.map .cast
  | _, _ => Option.none

def select? (isSubtype : Nat → Nat → Bool) (source target : StaticType) : Option Coercion :=
  if source.isVoid || !target.isStorable then Option.none
  else if source = target then some .none
  else match source.isValue, target.isValue with
    | true, true => (source.widening? target).map .widen
    | true, false => if target = .object then some (.box source.valueKind) else Option.none
    | false, true => if source = .object then some (.unbox target.valueKind) else Option.none
    | false, false => ofReferences? isSubtype source target

def select (isSubtype : Nat → Nat → Bool) (source target : StaticType) :
    Except BuildError Coercion :=
  match select? isSubtype source target with
  | some c => .ok c
  | Option.none => .error (.typeMismatch target source)

/-- Conversions that cannot fail when the program runs. -/
def isImplicit : Coercion → Bool
  | .none | .widen _ | .box _ => true
  | .unbox _ | .cast _ => false

def emit : Coercion → EmitM Unit
  | .none => return ()
  | .widen w => EmitM.emit (.widen w)
  | .box kind => EmitM.emitBox kind
  | .unbox kind => EmitM.emitUnbox kind
  | .cast tag => EmitM.emit (.cast tag)

/-- An expression with the conversion before it; widening does not show. -/
def text (c : Coercion) (target : StaticType) (expr : String) : String :=
  match c with
  | .none | .widen _ => expr
  | .box _ => "(object)" ++ expr
  | .unbox _ | .cast _ => s!"({target.text}){expr}"

end Coercion

end Bytesmith.Build
