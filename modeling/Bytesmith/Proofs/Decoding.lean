import Bytesmith.Code.Instr
import Bytesmith.Machine.Execution
import Bytesmith.Proofs.Takes

namespace Bytesmith.Machine

open Code Wire Bytesmith.Outcome

def Frame.fetch (f : Frame) : Except Fault (Instr Int32 × Frame) := f.read Instr.decode

def kindOperand (f : Frame) (tag : UInt8) : Except Fault ValueKind :=
  match ValueKind.ofTag tag (f.position - 1) with
  | .ok kind => .ok kind
  | .error e => .error (.decode e)

def exec (m : Module) (s : Store) (f : Frame) (i : Instr Int32) : Except Fault Effect := do
  let push (v : Value) (f : Frame) : Except Fault Effect := .ok (.next (f.push v) s)
  match i with
  | .nop => return .next f s
  | .pop =>
    let (_, f) ← f.pop
    return .next f s
  | .dup =>
    match f.stack with
    | v :: _ => push v f
    | [] => f.underflow
  | .constNull => push .null f
  | .constBool b => push (.bool b) f
  | .constI32 n => push (.i32 n) f
  | .constI64 n => push (.i64 n) f
  | .constF64 x => push (.f64 x) f
  | .constStr index =>
    match m.constants.get? index with
    | some t => push (.string t) f
    | none => throw (.unknown .stringConstant (toString index))
  | .loadLocal slot => push (← f.loadLocal slot) f
  | .storeLocal slot =>
    let (v, f) ← f.pop
    return .next (← f.storeLocal slot v) s
  | .arith kind op =>
    let (a, b, f) ← f.pop2
    push (← arith kind op a b) f
  | .widen w =>
    let (v, f) ← f.pop
    push (← widen w v) f
  | .concat =>
    let (a, b, f) ← f.pop2
    push (← concat a b) f
  | .jump distance => return .next (← f.jump distance) s
  | .branch t distance =>
    let (a, b, f) ← f.pop2
    if ← test t a b then return .next (← f.jump distance) s
    else return .next f s
  | .call mode id argc => callEffect m s mode id argc.toNat f
  | .ret =>
    let (v, _) ← f.pop
    return .ret v
  | .retVoid => return .ret .null
  | .new id =>
    let (ref, s) := s.allocate (← newObject m id)
    return .next (f.push (.object ref)) s
  | .loadField id =>
    let (receiver, f) ← f.pop
    push (← loadField m s id receiver) f
  | .storeField id =>
    let (receiver, v, f) ← f.pop2
    return .next f (← storeField m s id receiver v)
  | .loadStatic id => push (← loadStatic m s id) f
  | .storeStatic id =>
    discard <| loadStatic m s id
    let (v, f) ← f.pop
    return .next f (s.setStatic id v)
  | .box tag =>
    discard <| kindOperand f tag
    let (v, f) ← f.pop
    push (.boxed v) f
  | .unbox tag =>
    let kind ← kindOperand f tag
    let (v, f) ← f.pop
    push (← unbox m s kind v) f
  | .cast tag =>
    let (v, f) ← f.pop
    push (← cast m s tag v) f
  | .raise =>
    let (v, _) ← f.pop
    if v = .null then throw (.nullReference .thrown)
    return .raise v

variable {α β γ : Type} {m : Module} {s : Store} {f : Frame}

namespace Frame

theorem eq_of_read {x : ReadM α} {a : α} {f' : Frame} (h : f.read x = .ok (a, f')) :
    f' = { f with position := f'.position } := by
  unfold read at h
  split at h
  · cases h
    rfl
  · cases h

variable {i : Instr Int32} {f' : Frame}

theorem eq_of_fetch (h : f.fetch = .ok (i, f')) : f' = { f with position := f'.position } :=
  eq_of_read h

theorem fetch_function (h : f.fetch = .ok (i, f')) : f'.function = f.function := by
  rw [eq_of_fetch h]

theorem stack_fetch (h : f.fetch = .ok (i, f')) : f'.stack = f.stack := by
  rw [eq_of_fetch h]

theorem read_bind {x : ReadM α} {n : Nat} (hx : Spends n x) (g : α → ReadM β) :
    f.read (x >>= g) = f.read x >>= fun r => r.2.read (g r.1) := by
  unfold read
  cases h : x ⟨f.function.code, f.position⟩ with
  | ok a r =>
    obtain ⟨rfl, -⟩ := hx _ a r h
    rw [bind_of_ok h]
    rfl
  | error e r =>
    rw [bind_of_error h]
    rfl

theorem read_position (g : Nat → ReadM β) :
    f.read (ReadM.position >>= g) = f.read (g f.position) := rfl

theorem read_map_bind {x : ReadM α} {n : Nat} (hx : Spends n x) (g : α → β)
    (k : β × Frame → Except Fault γ) :
    f.read (x >>= fun a => pure (g a)) >>= k = f.read x >>= fun r => k (g r.1, r.2) := by
  rw [read_bind hx]
  cases f.read x <;> rfl

theorem read_kind : f.read ValueKind.decode =
    f.read ReadM.u8 >>= fun r => (kindOperand r.2 r.1).map (·, r.2) := by
  rw [ValueKind.decode, read_position, read_bind .u8]
  unfold read
  cases h : ReadM.u8 ⟨f.function.code, f.position⟩ with
  | ok tag r =>
    obtain ⟨rfl, -⟩ := Spends.u8 _ tag r h
    change _ = (kindOperand { f with position := f.position + 1 } tag).map _
    rw [kindOperand, Nat.add_sub_cancel]
    change read _ _ = _
    cases ValueKind.ofTag tag f.position <;> rfl
  | error e r => rfl

end Frame

/-- The machine, which reads the operands of each opcode by itself, carries out the instruction that
the disassembler decodes there. -/
theorem execOpcode_eq (op : Opcode) : execOpcode m s f op =
    f.read (Instr.decodeOperands op) >>= fun r => exec m s r.2 r.1 := by
  cases op with
  | constI32 | jump | branch =>
    rw [Instr.decodeOperands, Frame.read_map_bind .i32]
    rfl
  | constI64 =>
    rw [Instr.decodeOperands, Frame.read_map_bind .i64]
    rfl
  | constF64 =>
    rw [Instr.decodeOperands, Frame.read_map_bind .f64]
    rfl
  | loadLocal | storeLocal =>
    rw [Instr.decodeOperands, Frame.read_map_bind .u16]
    rfl
  | constStr | new | loadField | storeField | loadStatic | storeStatic =>
    rw [Instr.decodeOperands, Frame.read_map_bind .u32]
    rfl
  | call mode =>
    rw [Instr.decodeOperands, Frame.read_bind .u32, bind_assoc]
    refine bind_congr fun r => ?_
    rw [Frame.read_map_bind .u16]
    rfl
  | box | unbox =>
    rw [Instr.decodeOperands, Frame.read_map_bind .u8, execOpcode, Frame.read_kind, bind_assoc]
    refine bind_congr fun r => ?_
    rw [exec]
    cases kindOperand r.2 r.1 <;> rfl
  | cast =>
    rw [Instr.decodeOperands, Frame.read_map_bind TypeTag.spends_decode]
    rfl
  | _ => rfl

theorem Frame.effect_eq : f.effect m s = f.fetch >>= fun r => exec m s r.2 r.1 := by
  rw [Frame.fetch, Instr.decode, Frame.effect, readOpcode, read_position, read_position,
    read_bind .u8, read_bind .u8, bind_assoc, bind_assoc]
  refine bind_congr fun r => ?_
  cases Opcode.ofByte? r.1 with
  | none => rfl
  | some op => exact execOpcode_eq op

theorem Frame.effect_of_fetch {i : Instr Int32} {f₁ : Frame} (h : f.fetch = .ok (i, f₁)) :
    f.effect m s = exec m s f₁ i := by
  rw [effect_eq, h]
  rfl

theorem Frame.effect_eq_ok {e : Effect} :
    f.effect m s = .ok e ↔ ∃ i f₁, f.fetch = .ok (i, f₁) ∧ exec m s f₁ i = .ok e := by
  rw [effect_eq, except_bind_eq_ok, Prod.exists]

end Bytesmith.Machine
