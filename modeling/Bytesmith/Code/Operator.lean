
namespace Bytesmith.Code

inductive Arithmetic
  | add
  | sub
  | mul
  | div
  | rem
deriving DecidableEq, Repr

namespace Arithmetic

def symbol : Arithmetic → String
  | .add => "+"
  | .sub => "-"
  | .mul => "*"
  | .div => "/"
  | .rem => "%"

def name : Arithmetic → String
  | .add => "Add"
  | .sub => "Subtract"
  | .mul => "Multiply"
  | .div => "Divide"
  | .rem => "Modulo"

def stem : Arithmetic → String
  | .add => "add"
  | .sub => "sub"
  | .mul => "mul"
  | .div => "div"
  | .rem => "mod"

def all : List Arithmetic := [.add, .sub, .mul, .div, .rem]

def ofSymbol? (s : String) : Option Arithmetic := all.find? (·.symbol == s)

end Arithmetic

inductive Comparison
  | equal
  | notEqual
  | less
  | lessOrEqual
  | greater
  | greaterOrEqual
deriving DecidableEq, Repr

namespace Comparison

def symbol : Comparison → String
  | .equal => "=="
  | .notEqual => "!="
  | .less => "<"
  | .lessOrEqual => "<="
  | .greater => ">"
  | .greaterOrEqual => ">="

def negated : Comparison → Comparison
  | .equal => .notEqual
  | .notEqual => .equal
  | .less => .greaterOrEqual
  | .lessOrEqual => .greater
  | .greater => .lessOrEqual
  | .greaterOrEqual => .less

def isEquality : Comparison → Bool
  | .equal | .notEqual => true
  | _ => false

def all : List Comparison :=
  [.equal, .notEqual, .less, .lessOrEqual, .greater, .greaterOrEqual]

def ofSymbol? (s : String) : Option Comparison := all.find? (·.symbol == s)

end Comparison

end Bytesmith.Code
