import Bytesmith.Build.StaticType

namespace Bytesmith.Build

open Code

inductive MemberKind
  | type
  | enum
  | enumMember
  | field
  | property
  | method
  | constructor
  | parameter
  | localVariable
deriving DecidableEq, Repr

def MemberKind.text : MemberKind → String
  | .type => "type"
  | .enum => "enum"
  | .enumMember => "enum member"
  | .field => "field"
  | .property => "property"
  | .method => "method"
  | .constructor => "constructor"
  | .parameter => "parameter"
  | .localVariable => "local"

inductive ArgumentFault
  | emptyName (kind : MemberKind)
  | operandsMissing (op : Opcode)
  | notBranch (op : Opcode)
  | notValueKind (op : Opcode)
  | undefinedOperator (op : Arithmetic) (left right : StaticType)
  | undefinedFor (op : Arithmetic) (ty : StaticType)
  | incomparable (left : StaticType) (comparison : Comparison) (right : StaticType)
  | notInstantiable (ty : StaticType)
  | notCastable (ty : StaticType)
  | notCatchable (ty : StaticType)
  | notCatchableValues (ty : StaticType)
  | constantTarget (literal : String)
  | notStorable (kind : MemberKind) (name : String) (ty : StaticType)
  | duplicateParameter (name : String)
  | arity (name : String) (expected found : Nat)
  | parameterIndex (signature : String) (count index : Nat)
  | noFields (ty : StaticType)
  | noProperties (ty : StaticType)
  | noMethods (ty : StaticType)
  | staticThroughInstance (field : String)
  | constructorCall (owner : StaticType)
  | receiverOfStatic (method : String)
  | boxSource (ty : StaticType)
  | unboxTarget (ty : StaticType)
  | unboxSource (ty : StaticType)
  | castTarget (ty : StaticType)
  | castSource (ty : StaticType)
  | notThrowable (ty : StaticType)
  | interfaceField (type field : String)
  | constructorName
  | nullReturn (method : String)
  | staticInterfaceMethod (method : String)
  | abstractInConcrete (method : String)
  | staticAbstract (method : String)
  | interfaceConstructor (type : String)
  | constructorAttributes
  | noAccessor (property : String)
  | getterParameters (property : String)
  | setterParameters (property : String)
  | foreignAccessor (method property type : String)
  | unusableBase (type : String)
  | interfaceBase (type : String)
  | notInterface (type : String)
  | entryPoint (signature : String)
deriving DecidableEq, Repr

def ArgumentFault.text : ArgumentFault → String
  | .emptyName kind => s!"{kind.text} name must not be empty"
  | .operandsMissing op => s!"{op.name} requires operands"
  | .notBranch op => s!"{op.name} is not a branch opcode"
  | .notValueKind op => s!"{op.name} requires a value kind"
  | .undefinedOperator op left right =>
    s!"operator {op.symbol} is not defined for {left.text} and {right.text}"
  | .undefinedFor op ty => s!"{op.name} is not defined for {ty.text}"
  | .incomparable left comparison right =>
    s!"cannot compare {left.text} {comparison.symbol} {right.text}"
  | .notInstantiable ty => s!"cannot instantiate {ty.text}"
  | .notCastable ty => s!"cannot cast to {ty.text}"
  | .notCatchable ty => s!"cannot catch {ty.text}"
  | .notCatchableValues ty => s!"cannot catch values of type {ty.text}"
  | .constantTarget literal => s!"cannot assign to constant {literal}"
  | .notStorable kind name ty => s!"{kind.text} '{name}' cannot have type {ty.text}"
  | .duplicateParameter name => s!"duplicate parameter name '{name}'"
  | .arity name expected found => s!"'{name}' expects {expected} argument(s), got {found}"
  | .parameterIndex signature count index =>
    s!"'{signature}' has {count} parameter(s), index {index} is out of range"
  | .noFields ty => s!"{ty.text} has no fields"
  | .noProperties ty => s!"{ty.text} has no properties"
  | .noMethods ty => s!"{ty.text} has no methods"
  | .staticThroughInstance field =>
    s!"static field '{field}' cannot be accessed through an instance"
  | .constructorCall owner =>
    s!"constructor of {owner.text} is invoked through new_object or call_base_constructor"
  | .receiverOfStatic method => s!"static method '{method}' takes no receiver"
  | .boxSource ty => s!"box requires a value type, got {ty.text}"
  | .unboxTarget ty => s!"unbox target must be a value type, got {ty.text}"
  | .unboxSource ty => s!"unbox source must be a reference, got {ty.text}"
  | .castTarget ty => s!"cast target must be a reference type, got {ty.text}"
  | .castSource ty => s!"cast source must be a reference, got {ty.text}"
  | .notThrowable ty => s!"only objects can be thrown, got {ty.text}"
  | .interfaceField type field => s!"interface '{type}' cannot declare field '{field}'"
  | .constructorName => "constructors are declared with define_constructor"
  | .nullReturn method => s!"method '{method}' cannot return the null type"
  | .staticInterfaceMethod method => s!"interface method '{method}' cannot be static"
  | .abstractInConcrete method => s!"abstract method '{method}' requires an abstract type"
  | .staticAbstract method => s!"method '{method}' cannot be both static and abstract"
  | .interfaceConstructor type => s!"interface '{type}' cannot declare constructors"
  | .constructorAttributes => "constructors cannot be static or abstract"
  | .noAccessor property => s!"property '{property}' needs a getter or a setter"
  | .getterParameters property => s!"getter of '{property}' must take no parameters"
  | .setterParameters property => s!"setter of '{property}' must take exactly one parameter"
  | .foreignAccessor method property type =>
    s!"accessor '{method}' of '{property}' must be an instance method of '{type}'"
  | .unusableBase type => s!"'{type}' cannot be used as a base type"
  | .interfaceBase type => s!"interface '{type}' cannot have a base type"
  | .notInterface type => s!"'{type}' is not an interface"
  | .entryPoint signature => s!"entry point '{signature}' must be a static method"

inductive OperationFault
  | finishedEmitter (name : String)
  | tooManyLocals (name : String)
  | markedTwice (label : Nat) (name : String)
  | catchOutside
  | noRegion
  | noCatch
  | openRegions (name : String) (count : Nat)
  | abstractBody (signature : String)
  | abortedBody (signature : String)
  | sealedBody (signature : String)
  | foreignVariable (name signature : String)
  | noReceiver (signature : String)
  | instanceFieldInStatic (field signature : String)
  | propertyInStatic (property signature : String)
  | abstractInstance (type : String)
  | notConstructor (signature : String)
  | noBase (type : String)
  | readonlyField (field : String)
  | noGetter (property : String)
  | noSetter (property : String)
  | unfinishedMethod (signature : String)
deriving DecidableEq, Repr

def OperationFault.text : OperationFault → String
  | .finishedEmitter name => s!"Cannot modify finalized emitter for '{name}'"
  | .tooManyLocals name => s!"Too many locals in '{name}'"
  | .markedTwice label name => s!"Label L{label} marked twice in '{name}'"
  | .catchOutside => "catch outside of an exception block"
  | .noRegion => "no open exception block"
  | .noCatch => "exception block has no catch clause"
  | .openRegions name count => s!"'{name}' has {count} open exception block(s)"
  | .abstractBody signature => s!"abstract method '{signature}' has no body"
  | .abortedBody signature => s!"method '{signature}' was aborted by an earlier error"
  | .sealedBody signature => s!"method '{signature}' is sealed"
  | .foreignVariable name signature =>
    s!"'{name}' belongs to another method and cannot be used in '{signature}'"
  | .noReceiver signature => s!"static method '{signature}' has no 'this'"
  | .instanceFieldInStatic field signature =>
    s!"instance field '{field}' used in static method '{signature}'"
  | .propertyInStatic property signature =>
    s!"property '{property}' used in static method '{signature}'"
  | .abstractInstance type => s!"cannot instantiate abstract type '{type}'"
  | .notConstructor signature => s!"'{signature}' is not a constructor"
  | .noBase type => s!"'{type}' has no base type"
  | .readonlyField field => s!"readonly field '{field}' can only be assigned in a constructor"
  | .noGetter property => s!"property '{property}' has no getter"
  | .noSetter property => s!"property '{property}' has no setter"
  | .unfinishedMethod signature => s!"method '{signature}' was not finalized"

inductive BlockKind
  | conditional
  | loop
  | guarded
deriving DecidableEq, Repr

def BlockKind.text : BlockKind → String
  | .conditional => "If"
  | .loop => "While"
  | .guarded => "Try"

inductive Marker
  | elseIf
  | else
  | endIf
  | endWhile
  | catch
  | endTry
deriving DecidableEq, Repr

def Marker.text : Marker → String
  | .elseIf => "ElseIf"
  | .else => "Else"
  | .endIf => "EndIf"
  | .endWhile => "EndWhile"
  | .catch => "Catch"
  | .endTry => "EndTry"

inductive OptionsFault
  | unreadable
  | malformed
  | zeroCallDepth
  | callDepthTooLarge
deriving DecidableEq, Repr

inductive BuildError
  | invalidArgument (fault : ArgumentFault)
  | invalidOperation (fault : OperationFault)
  | typeMismatch (expected found : StaticType)
  | typeSealed (type : String)
  | moduleSealed (module : String)
  | duplicateMember (owner member : String)
  | unknownMember (kind : MemberKind) (name : String)
  /-- `innermost` describes the block that is open where the marker stands. -/
  | unbalancedBlock (marker : Marker) (innermost : String)
  | unclosedBlock (method : String) (count : Nat) (innermost : BlockKind)
  | unmarkedLabel (method : String) (label : Nat)
  | methodAborted (signature : String)
  | emptyType (type : String)
  | emptyModule (module : String)
  | missingEntryPoint (module : String)
  | io
  | config (fault : OptionsFault)
deriving DecidableEq, Repr

def OptionsFault.detail? : OptionsFault → Option String
  | .zeroCallDepth => some "max_call_depth must be greater than zero"
  | .unreadable | .malformed | .callDepthTooLarge => none

def BuildError.message : BuildError → String
  | .invalidArgument fault => "Invalid argument: " ++ fault.text
  | .invalidOperation fault => "Invalid operation: " ++ fault.text
  | .typeMismatch expected found =>
    s!"Type mismatch: cannot use {found.text} where {expected.text} is expected"
  | .typeSealed type => s!"Type '{type}' is sealed and cannot be modified"
  | .moduleSealed module => s!"Module '{module}' has been created and cannot be modified"
  | .duplicateMember owner member => s!"Member '{member}' already exists on '{owner}'"
  | .unknownMember kind name => s!"Unknown {kind.text} '{name}'"
  | .unbalancedBlock marker innermost =>
    s!"Unbalanced block: '{marker.text}' does not close the innermost open block ({innermost})"
  | .unclosedBlock method count innermost =>
    s!"Method '{method}' has {count} unclosed block(s), innermost '{innermost.text}'"
  | .unmarkedLabel method label => s!"Label {label} in '{method}' was never marked"
  | .methodAborted signature => s!"Method '{signature}' was aborted by an earlier error"
  | .emptyType type => s!"Type '{type}' defines no members"
  | .emptyModule module => s!"Module '{module}' defines no types or enums"
  | .missingEntryPoint module => s!"Executable module '{module}' has no entry point"
  | .io => "I/O error"
  | .config fault => match fault.detail? with
    | some detail => "Config error: " ++ detail
    | none => "Config error"

def BuildError.chain : BuildError → List String
  | .io => ["I/O error", "I/O error"]
  | e => [e.message]

end Bytesmith.Build
