import Bytesmith.Code.Kind
import Bytesmith.Code.Opcode

namespace Bytesmith.Code

open Wire

inductive Instr (τ : Type)
  | nop
  | pop
  | dup
  | constNull
  | constBool (value : Bool)
  | constI32 (value : Int32)
  | constI64 (value : Int64)
  | constF64 (value : Double)
  | constStr (index : UInt32)
  | loadLocal (slot : UInt16)
  | storeLocal (slot : UInt16)
  | arith (kind : Numeric) (op : Arithmetic)
  | widen (w : Widening)
  | concat
  | jump (target : τ)
  | branch (test : Test) (target : τ)
  | call (mode : CallMode) (function : UInt32) (argc : UInt16)
  | ret
  | retVoid
  | new (classId : UInt32)
  | loadField (field : UInt32)
  | storeField (field : UInt32)
  | loadStatic (field : UInt32)
  | storeStatic (field : UInt32)
  /-- The tag of a kind; code that was not made by an emitter may hold any byte. -/
  | box (tag : UInt8)
  | unbox (tag : UInt8)
  | cast (tag : TypeTag)
  | raise
deriving DecidableEq, Repr

namespace Instr

variable {τ σ : Type}

def opcode : Instr τ → Opcode
  | .nop => .nop
  | .pop => .pop
  | .dup => .dup
  | .constNull => .constNull
  | .constBool true => .constTrue
  | .constBool false => .constFalse
  | .constI32 _ => .constI32
  | .constI64 _ => .constI64
  | .constF64 _ => .constF64
  | .constStr _ => .constStr
  | .loadLocal _ => .loadLocal
  | .storeLocal _ => .storeLocal
  | .arith kind op => .arith kind op
  | .widen w => .widen w
  | .concat => .concat
  | .jump _ => .jump
  | .branch test _ => .branch test
  | .call mode _ _ => .call mode
  | .ret => .ret
  | .retVoid => .retVoid
  | .new _ => .new
  | .loadField _ => .loadField
  | .storeField _ => .storeField
  | .loadStatic _ => .loadStatic
  | .storeStatic _ => .storeStatic
  | .box _ => .box
  | .unbox _ => .unbox
  | .cast _ => .cast
  | .raise => .raise

def size (i : Instr τ) : Nat := 1 + i.opcode.operandSize

def target? : Instr τ → Option τ
  | .jump t | .branch _ t => some t
  | _ => none

def mapTarget (f : τ → σ) : Instr τ → Instr σ
  | .nop => .nop
  | .pop => .pop
  | .dup => .dup
  | .constNull => .constNull
  | .constBool v => .constBool v
  | .constI32 v => .constI32 v
  | .constI64 v => .constI64 v
  | .constF64 v => .constF64 v
  | .constStr i => .constStr i
  | .loadLocal s => .loadLocal s
  | .storeLocal s => .storeLocal s
  | .arith kind op => .arith kind op
  | .widen w => .widen w
  | .concat => .concat
  | .jump t => .jump (f t)
  | .branch test t => .branch test (f t)
  | .call mode function argc => .call mode function argc
  | .ret => .ret
  | .retVoid => .retVoid
  | .new c => .new c
  | .loadField f => .loadField f
  | .storeField f => .storeField f
  | .loadStatic f => .loadStatic f
  | .storeStatic f => .storeStatic f
  | .box tag => .box tag
  | .unbox tag => .unbox tag
  | .cast tag => .cast tag
  | .raise => .raise

def ofOpcode? : Opcode → Option (Instr τ)
  | .nop => some .nop
  | .pop => some .pop
  | .dup => some .dup
  | .constNull => some .constNull
  | .constTrue => some (.constBool true)
  | .constFalse => some (.constBool false)
  | .arith kind op => some (.arith kind op)
  | .widen w => some (.widen w)
  | .concat => some .concat
  | .ret => some .ret
  | .retVoid => some .retVoid
  | .raise => some .raise
  | _ => none

def default : ValueKind → Instr τ
  | .reference => .constNull
  | .bool => .constBool false
  | .i32 => .constI32 0
  | .i64 => .constI64 0
  | .f64 => .constF64 .zero

def operands : Instr Int32 → List UInt8
  | .constI32 v => i32 v
  | .constI64 v => i64 v
  | .constF64 v => f64 v
  | .constStr index => u32 index
  | .loadLocal slot | .storeLocal slot => u16 slot
  | .jump distance | .branch _ distance => i32 distance
  | .call _ function argc => u32 function ++ u16 argc
  | .new id | .loadField id | .storeField id | .loadStatic id | .storeStatic id => u32 id
  | .box tag | .unbox tag => u8 tag
  | .cast tag => tag.encode
  | _ => []

def encode (i : Instr Int32) : List UInt8 := i.opcode.toByte :: i.operands

def decodeOperands : Opcode → ReadM (Instr Int32)
  | .nop => return .nop
  | .pop => return .pop
  | .dup => return .dup
  | .constNull => return .constNull
  | .constTrue => return .constBool true
  | .constFalse => return .constBool false
  | .constI32 => return .constI32 (← ReadM.i32)
  | .constI64 => return .constI64 (← ReadM.i64)
  | .constF64 => return .constF64 (← ReadM.f64)
  | .constStr => return .constStr (← ReadM.u32)
  | .loadLocal => return .loadLocal (← ReadM.u16)
  | .storeLocal => return .storeLocal (← ReadM.u16)
  | .arith kind op => return .arith kind op
  | .widen w => return .widen w
  | .concat => return .concat
  | .jump => return .jump (← ReadM.i32)
  | .branch test => return .branch test (← ReadM.i32)
  | .call mode => do
    let function ← ReadM.u32
    let argc ← ReadM.u16
    return .call mode function argc
  | .ret => return .ret
  | .retVoid => return .retVoid
  | .new => return .new (← ReadM.u32)
  | .loadField => return .loadField (← ReadM.u32)
  | .storeField => return .storeField (← ReadM.u32)
  | .loadStatic => return .loadStatic (← ReadM.u32)
  | .storeStatic => return .storeStatic (← ReadM.u32)
  | .box => return .box (← ReadM.u8)
  | .unbox => return .unbox (← ReadM.u8)
  | .cast => return .cast (← TypeTag.decode)
  | .raise => return .raise

def decode : ReadM (Instr Int32) := do
  let offset ← ReadM.position
  let byte ← ReadM.u8
  match Opcode.ofByte? byte with
  | some op => decodeOperands op
  | none => throw (.invalidOpcode byte offset)

end Instr

end Bytesmith.Code
