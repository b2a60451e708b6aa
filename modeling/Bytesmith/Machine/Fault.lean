import Bytesmith.Code.Opcode
import Bytesmith.Machine.Value

namespace Bytesmith.Machine

open Code

inductive NullUse
  | thrown
  | member (name : String)
  | field (name : String)
  | unboxed (kind : ValueKind)
deriving DecidableEq, Repr

def NullUse.text : NullUse → String
  | .thrown => "throw of null"
  | .member name => s!"access to '{name}'"
  | .field name => s!"access to field '{name}'"
  | .unboxed kind => s!"unbox to {kind.name}"

inductive TypeFault
  | abstractBody (method : String)
  | member (name found : String)
  | field (name found : String)
  | operand (op : Opcode) (found : String)
  | compared (op : Opcode) (left right : String)
deriving DecidableEq, Repr

def TypeFault.text : TypeFault → String
  | .abstractBody method => s!"abstract method '{method}' has no body"
  | .member name found => s!"'{name}' accessed on {found}"
  | .field name found => s!"field '{name}' accessed on {found}"
  | .operand op found => s!"{op.name} cannot operate on {found}"
  | .compared op left right => s!"{op.name} cannot compare {left} with {right}"

inductive Sought
  | classEntry
  | function
  | method
  | staticMethod
  | implementation
  | constructor
  | field
  | readableProperty
  | writableProperty
  | stringConstant
  | localSlot
deriving DecidableEq, Repr

def Sought.text : Sought → String
  | .classEntry => "class"
  | .function => "function"
  | .method => "method"
  | .staticMethod => "static method"
  | .implementation => "method implementation"
  | .constructor => "constructor"
  | .field => "field"
  | .readableProperty => "readable property"
  | .writableProperty => "writable property"
  | .stringConstant => "string constant"
  | .localSlot => "local slot"

inductive Fault
  | nullReference (use : NullUse)
  | typeError (fault : TypeFault)
  | invalidCast (found target : String)
  | divisionByZero
  | stackOverflow (limit : Nat)
  | stackUnderflow (function : String)
  | unknown (what : Sought) (name : String)
  | arityMismatch (function : String) (expected found : Nat)
  | abstractInstantiation (type : String)
  | uncaughtException (value : String)
  | noEntryPoint
  | invalidJump (function : String) (target : Int)
  | decode (cause : Wire.DecodeError)
deriving DecidableEq, Repr

def Fault.message : Fault → String
  | .nullReference use => "Null reference: " ++ use.text
  | .typeError fault => "Type error: " ++ fault.text
  | .invalidCast found target => s!"Invalid cast: cannot convert {found} to {target}"
  | .divisionByZero => "Division by zero"
  | .stackOverflow limit => s!"Stack overflow: call depth exceeded {limit}"
  | .stackUnderflow function => s!"Stack underflow in '{function}'"
  | .unknown what name => s!"Unknown {what.text} '{name}'"
  | .arityMismatch function expected found =>
    s!"'{function}' expects {expected} argument(s), got {found}"
  | .abstractInstantiation type => s!"Cannot instantiate abstract type '{type}'"
  | .uncaughtException value => "Uncaught exception: " ++ value
  | .noEntryPoint => "Module has no entry point"
  | .invalidJump function target => s!"Invalid jump target {target} in '{function}'"
  | .decode cause => "Bytecode error: " ++ cause.message

def Fault.chain : Fault → List String
  | .decode cause => [(Fault.decode cause).message, cause.message]
  | e => [e.message]

end Bytesmith.Machine
