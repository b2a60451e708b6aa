import Bytesmith.Code.Operator

namespace Bytesmith.Code

inductive Numeric
  | i32
  | i64
  | f64
deriving DecidableEq, Repr

inductive Widening
  | i32ToI64
  | i32ToF64
  | i64ToF64
deriving DecidableEq, Repr

namespace Numeric

def max : Numeric → Numeric → Numeric
  | .f64, _ | _, .f64 => .f64
  | .i64, _ | _, .i64 => .i64
  | .i32, .i32 => .i32

def widening? : Numeric → Numeric → Option Widening
  | .i32, .i64 => some .i32ToI64
  | .i32, .f64 => some .i32ToF64
  | .i64, .f64 => some .i64ToF64
  | _, _ => none

end Numeric

/-- The condition of a branch on two operands. The last four hold also when the operands are
unordered. -/
inductive Test
  | eq
  | ne
  | lt
  | le
  | gt
  | ge
  | notLt
  | notLe
  | notGt
  | notGe
deriving DecidableEq, Repr

/-- How a call finds its receiver and what it leaves: a static call has no receiver, a constructor
call leaves its receiver. -/
inductive CallMode
  | static
  | method
  | constructor
deriving DecidableEq, Repr

inductive Opcode
  | nop
  | pop
  | dup
  | constNull
  | constTrue
  | constFalse
  | constI32
  | constF64
  | constStr
  | constI64
  | loadLocal
  | storeLocal
  | arith (kind : Numeric) (op : Arithmetic)
  | widen (w : Widening)
  | concat
  | jump
  | branch (test : Test)
  | call (mode : CallMode)
  | ret
  | retVoid
  | new
  | loadField
  | storeField
  | loadStatic
  | storeStatic
  | box
  | unbox
  | cast
  | raise
deriving DecidableEq, Repr

def Comparison.test : Comparison → Test
  | .equal => .eq
  | .notEqual => .ne
  | .less => .lt
  | .lessOrEqual => .le
  | .greater => .gt
  | .greaterOrEqual => .ge

/-- The branch taken when the comparison fails, for unordered operands too. -/
def Comparison.failureTest : Comparison → Test
  | .equal => .ne
  | .notEqual => .eq
  | .less => .notLt
  | .lessOrEqual => .notLe
  | .greater => .notGt
  | .greaterOrEqual => .notGe

namespace Opcode

def toByte : Opcode → UInt8
  | .nop => 0x00
  | .pop => 0x01
  | .dup => 0x02
  | .constNull => 0x04
  | .constTrue => 0x05
  | .constFalse => 0x06
  | .constI32 => 0x07
  | .constF64 => 0x08
  | .constStr => 0x09
  | .constI64 => 0x0B
  | .loadLocal => 0x10
  | .storeLocal => 0x11
  | .arith .i32 .add => 0x20
  | .arith .i32 .sub => 0x21
  | .arith .i32 .mul => 0x22
  | .arith .i32 .div => 0x23
  | .arith .i32 .rem => 0x24
  | .arith .i64 .add => 0x28
  | .arith .i64 .sub => 0x29
  | .arith .i64 .mul => 0x2A
  | .arith .i64 .div => 0x2B
  | .arith .i64 .rem => 0x2C
  | .arith .f64 .add => 0x30
  | .arith .f64 .sub => 0x31
  | .arith .f64 .mul => 0x32
  | .arith .f64 .div => 0x33
  | .arith .f64 .rem => 0x34
  | .widen .i32ToI64 => 0x40
  | .widen .i32ToF64 => 0x41
  | .widen .i64ToF64 => 0x42
  | .concat => 0x80
  | .jump => 0x90
  | .branch .eq => 0x94
  | .branch .ne => 0x95
  | .branch .lt => 0x96
  | .branch .le => 0x97
  | .branch .gt => 0x98
  | .branch .ge => 0x99
  | .branch .notLt => 0x9A
  | .branch .notLe => 0x9B
  | .branch .notGt => 0x9C
  | .branch .notGe => 0x9D
  | .call .static => 0xA0
  | .call .method => 0xA1
  | .ret => 0xA2
  | .retVoid => 0xA3
  | .new => 0xB0
  | .loadField => 0xB1
  | .storeField => 0xB2
  | .loadStatic => 0xB3
  | .storeStatic => 0xB4
  | .call .constructor => 0xB5
  | .box => 0xE0
  | .unbox => 0xE1
  | .cast => 0xE2
  | .raise => 0xF8

def ofByte? : UInt8 → Option Opcode
  | 0x00 => some .nop
  | 0x01 => some .pop
  | 0x02 => some .dup
  | 0x04 => some .constNull
  | 0x05 => some .constTrue
  | 0x06 => some .constFalse
  | 0x07 => some .constI32
  | 0x08 => some .constF64
  | 0x09 => some .constStr
  | 0x0B => some .constI64
  | 0x10 => some .loadLocal
  | 0x11 => some .storeLocal
  | 0x20 => some (.arith .i32 .add)
  | 0x21 => some (.arith .i32 .sub)
  | 0x22 => some (.arith .i32 .mul)
  | 0x23 => some (.arith .i32 .div)
  | 0x24 => some (.arith .i32 .rem)
  | 0x28 => some (.arith .i64 .add)
  | 0x29 => some (.arith .i64 .sub)
  | 0x2A => some (.arith .i64 .mul)
  | 0x2B => some (.arith .i64 .div)
  | 0x2C => some (.arith .i64 .rem)
  | 0x30 => some (.arith .f64 .add)
  | 0x31 => some (.arith .f64 .sub)
  | 0x32 => some (.arith .f64 .mul)
  | 0x33 => some (.arith .f64 .div)
  | 0x34 => some (.arith .f64 .rem)
  | 0x40 => some (.widen .i32ToI64)
  | 0x41 => some (.widen .i32ToF64)
  | 0x42 => some (.widen .i64ToF64)
  | 0x80 => some .concat
  | 0x90 => some .jump
  | 0x94 => some (.branch .eq)
  | 0x95 => some (.branch .ne)
  | 0x96 => some (.branch .lt)
  | 0x97 => some (.branch .le)
  | 0x98 => some (.branch .gt)
  | 0x99 => some (.branch .ge)
  | 0x9A => some (.branch .notLt)
  | 0x9B => some (.branch .notLe)
  | 0x9C => some (.branch .notGt)
  | 0x9D => some (.branch .notGe)
  | 0xA0 => some (.call .static)
  | 0xA1 => some (.call .method)
  | 0xA2 => some .ret
  | 0xA3 => some .retVoid
  | 0xB0 => some .new
  | 0xB1 => some .loadField
  | 0xB2 => some .storeField
  | 0xB3 => some .loadStatic
  | 0xB4 => some .storeStatic
  | 0xB5 => some (.call .constructor)
  | 0xE0 => some .box
  | 0xE1 => some .unbox
  | 0xE2 => some .cast
  | 0xF8 => some .raise
  | _ => none

def name : Opcode → String
  | .nop => "NOP"
  | .pop => "POP"
  | .dup => "DUP"
  | .constNull => "CONST_NULL"
  | .constTrue => "CONST_TRUE"
  | .constFalse => "CONST_FALSE"
  | .constI32 => "CONST_I32"
  | .constF64 => "CONST_F64"
  | .constStr => "CONST_STR"
  | .constI64 => "CONST_I64"
  | .loadLocal => "LOAD_LOCAL"
  | .storeLocal => "STORE_LOCAL"
  | .arith .i32 .add => "IADD"
  | .arith .i32 .sub => "ISUB"
  | .arith .i32 .mul => "IMUL"
  | .arith .i32 .div => "IDIV"
  | .arith .i32 .rem => "IMOD"
  | .arith .i64 .add => "LADD"
  | .arith .i64 .sub => "LSUB"
  | .arith .i64 .mul => "LMUL"
  | .arith .i64 .div => "LDIV"
  | .arith .i64 .rem => "LMOD"
  | .arith .f64 .add => "FADD"
  | .arith .f64 .sub => "FSUB"
  | .arith .f64 .mul => "FMUL"
  | .arith .f64 .div => "FDIV"
  | .arith .f64 .rem => "FMOD"
  | .widen .i32ToI64 => "I2L"
  | .widen .i32ToF64 => "I2F"
  | .widen .i64ToF64 => "L2F"
  | .concat => "SCONCAT"
  | .jump => "JMP"
  | .branch .eq => "BR_EQ"
  | .branch .ne => "BR_NE"
  | .branch .lt => "BR_LT"
  | .branch .le => "BR_LE"
  | .branch .gt => "BR_GT"
  | .branch .ge => "BR_GE"
  | .branch .notLt => "BR_NLT"
  | .branch .notLe => "BR_NLE"
  | .branch .notGt => "BR_NGT"
  | .branch .notGe => "BR_NGE"
  | .call .static => "CALL"
  | .call .method => "CALL_METHOD"
  | .ret => "RETURN"
  | .retVoid => "RETURN_VOID"
  | .new => "NEW"
  | .loadField => "LOAD_FIELD"
  | .storeField => "STORE_FIELD"
  | .loadStatic => "LOAD_STATIC"
  | .storeStatic => "STORE_STATIC"
  | .call .constructor => "CALL_CONSTRUCTOR"
  | .box => "BOX"
  | .unbox => "UNBOX"
  | .cast => "CAST"
  | .raise => "THROW"

def operandSize : Opcode → Nat
  | .constI32 | .constStr | .jump | .branch _ => 4
  | .constF64 | .constI64 => 8
  | .loadLocal | .storeLocal => 2
  | .call _ => 6
  | .new | .loadField | .storeField | .loadStatic | .storeStatic => 4
  | .box | .unbox => 1
  | .cast => 5
  | _ => 0

def isBranch : Opcode → Bool
  | .branch _ => true
  | _ => false

def isJump (op : Opcode) : Bool := op == .jump || op.isBranch

def isCall : Opcode → Bool
  | .call _ => true
  | _ => false

def isReturn : Opcode → Bool
  | .ret | .retVoid => true
  | _ => false

def isTerminator (op : Opcode) : Bool := op == .jump || op == .raise || op.isReturn

def all : List Opcode :=
  (List.range 256).filterMap fun b => ofByte? b.toUInt8

def ofName? (s : String) : Option Opcode := all.find? (·.name == s)

end Opcode

end Bytesmith.Code
