import Bytesmith.Proofs.Frames

namespace Bytesmith.Code

structure Scope where
  locals : Nat
  strings : Nat
  classes : Nat
  returns : UInt32 → Option Bool

namespace Instr

variable {τ σ : Type}

def InScope (scope : Scope) : Instr τ → Prop
  | .loadLocal slot | .storeLocal slot => slot.toNat < scope.locals
  | .constStr index => index.toNat < scope.strings
  | .new id => id.toNat < scope.classes
  | .call _ id _ => (scope.returns id).isSome
  | .box tag | .unbox tag => (ValueKind.ofByte? tag).isSome
  | _ => True

def gives (scope : Scope) : Instr τ → Nat
  | .call .constructor _ _ => 1
  | .call _ id _ => if scope.returns id = some true then 1 else 0
  | i => i.pushes

theorem gives_call {scope : Scope} {mode : CallMode} {id : UInt32} {argc : UInt16} {b : Bool}
    (hmode : mode ≠ .constructor) (h : scope.returns id = some b) :
    (Instr.call mode id argc : Instr τ).gives scope = b.toNat := by
  cases mode with
  | constructor => exact absurd rfl hmode
  | _ => cases b <;> simp [gives, h]

structure Lifts (scope : Scope) (i : Instr τ) (h h' : Nat) : Prop where
  inScope : i.InScope scope
  enough : i.pops ≤ h
  eq : h' + i.pops = h + i.gives scope

end Instr

end Bytesmith.Code

namespace Bytesmith.Machine

open Code Bytesmith.Outcome

def Fault.isMalformed : Fault → Bool
  | .stackUnderflow _ | .invalidJump _ _ | .decode _ => true
  | .unknown what _ => [.function, .classEntry, .localSlot, .stringConstant].contains what
  | _ => false

def scopeOf (m : Module) (f : Function) : Scope where
  locals := f.localCount
  strings := m.constants.strings.length
  classes := m.classes.length
  returns id := (m.function? id).map (·.returnsValue)

def Benign {α : Type} (x : Except Fault α) : Prop := ∀ e, x = .error e → e.isMalformed = false

namespace Benign

variable {α β : Type}

theorem ok (a : α) : Benign (.ok a) := by
  rintro _ ⟨⟩

theorem error {e : Fault} (h : e.isMalformed = false) : Benign (.error e : Except Fault α) := by
  rintro _ ⟨⟩
  exact h

theorem bind {x : Except Fault α} {f : α → Except Fault β} (hx : Benign x)
    (hf : ∀ a, x = .ok a → Benign (f a)) : Benign (x >>= f) := by
  cases x with
  | ok a => exact hf a rfl
  | error e => exact fun e' h => hx e' (by cases h; rfl)

theorem toI32 (op : Opcode) (v : Value) : Benign (v.toI32 op) := by
  cases v <;> first | exact ok _ | exact error rfl

theorem toI64 (op : Opcode) (v : Value) : Benign (v.toI64 op) := by
  cases v <;> first | exact ok _ | exact error rfl

theorem toF64 (op : Opcode) (v : Value) : Benign (v.toF64 op) := by
  cases v <;> first | exact ok _ | exact error rfl

theorem toPiece (op : Opcode) (v : Value) : Benign (v.toPiece op) := by
  cases v <;> first | exact ok _ | exact error rfl

theorem arithI32 (op : Arithmetic) (a b : Int32) : Benign (arithI32 op a b) := by
  unfold Machine.arithI32
  split <;> first | exact ok _ | (split <;> first | exact ok _ | exact error rfl)

theorem arithI64 (op : Arithmetic) (a b : Int64) : Benign (arithI64 op a b) := by
  unfold Machine.arithI64
  split <;> first | exact ok _ | (split <;> first | exact ok _ | exact error rfl)

theorem arith (kind : Numeric) (op : Arithmetic) (a b : Value) : Benign (arith kind op a b) := by
  cases kind with
  | i32 =>
    exact (toI32 _ a).bind fun x _ => (toI32 _ b).bind fun y _ =>
      (arithI32 op x y).bind fun z _ => ok _
  | i64 =>
    exact (toI64 _ a).bind fun x _ => (toI64 _ b).bind fun y _ =>
      (arithI64 op x y).bind fun z _ => ok _
  | f64 => exact (toF64 _ a).bind fun x _ => (toF64 _ b).bind fun y _ => ok _

theorem widen (w : Widening) (v : Value) : Benign (widen w v) := by
  cases w with
  | i32ToI64 | i32ToF64 => exact (toI32 _ v).bind fun x _ => ok _
  | i64ToF64 => exact (toI64 _ v).bind fun x _ => ok _

theorem concat (a b : Value) : Benign (concat a b) :=
  (toPiece _ a).bind fun _ _ => (toPiece _ b).bind fun _ _ => ok _

theorem order (op : Opcode) (a b : Value) : Benign (order op a b) := by
  unfold Machine.order
  split <;> first | exact ok _ | exact error rfl

theorem test (t : Test) (a b : Value) : Benign (test t a b) := by
  have hordered (holds : Ordering → Bool) : Benign (do
      return (← Machine.order (.branch t) a b).any holds) :=
    (order _ a b).bind fun _ _ => ok _
  cases t with
  | eq | ne => exact ok _
  | lt | le | gt | ge => exact hordered _
  | notLt | notLe | notGt | notGe =>
    rw [Machine.test, map_eq_pure_bind]
    exact (hordered _).bind fun _ _ => ok _

variable {m : Module} {s : Store}

theorem unbox (kind : ValueKind) (v : Value) : Benign (unbox m s kind v) := by
  cases v with
  | null => exact error rfl
  | boxed inner =>
    unfold Machine.unbox
    dsimp only
    split
    · exact ok _
    · exact error rfl
  | _ => exact error rfl

theorem cast (tag : TypeTag) (v : Value) : Benign (cast m s tag v) := by
  unfold Machine.cast
  split
  · exact ok _
  · exact error rfl

theorem newObject {id : UInt32} (h : id.toNat < m.classes.length) : Benign (newObject m id) := by
  unfold Machine.newObject
  rw [Module.class?, List.getElem?_eq_getElem h]
  dsimp only
  split
  · exact error rfl
  · exact ok _

theorem receiverClass (member : String) (v : Value) : Benign (receiverClass s member v) := by
  cases v <;> first | exact ok _ | exact error rfl

theorem fieldReceiver (id : UInt32) (v : Value) : Benign (fieldReceiver m id v) := by
  cases v <;> first | exact ok _ | exact error rfl

theorem loadField (id : UInt32) (v : Value) : Benign (loadField m s id v) := by
  refine (fieldReceiver id v).bind fun ref _ => ?_
  split
  · exact ok _
  · exact error rfl

theorem storeField (id : UInt32) (receiver v : Value) : Benign (storeField m s id receiver v) := by
  refine (fieldReceiver id receiver).bind fun ref _ => ?_
  split
  · exact ok _
  · exact error rfl

theorem loadStatic (id : UInt32) : Benign (loadStatic m s id) := by
  unfold Machine.loadStatic
  split
  · exact ok _
  · exact error rfl

variable {f : Frame}

theorem pop (h : 1 ≤ f.stack.length) : Benign f.pop := by
  unfold Frame.pop
  cases hs : f.stack with
  | nil => simp [hs] at h
  | cons v rest => exact ok _

theorem pop2 (h : 2 ≤ f.stack.length) : Benign f.pop2 := by
  refine (pop (by omega)).bind fun ⟨b, f₁⟩ hpop => ?_
  obtain ⟨rest, hs, rfl⟩ := Frame.pop_eq_ok hpop
  rw [hs, List.length_cons] at h
  exact (pop (Nat.le_of_succ_le_succ h)).bind fun _ _ => ok _

theorem popArgs {n : Nat} (h : n ≤ f.stack.length) : Benign (f.popArgs n) := by
  rw [Frame.popArgs, if_neg (by omega)]
  exact ok _

theorem loadLocal {slot : UInt16} (h : slot.toNat < f.locals.size) : Benign (f.loadLocal slot) := by
  rw [Frame.loadLocal, Array.getElem?_eq_getElem h]
  exact ok _

theorem storeLocal {slot : UInt16} {v : Value} (h : slot.toNat < f.locals.size) :
    Benign (f.storeLocal slot v) := by
  rw [Frame.storeLocal, if_pos h]
  exact ok _

theorem kindOperand {tag : UInt8} (h : (ValueKind.ofByte? tag).isSome) :
    Benign (kindOperand f tag) := by
  obtain ⟨kind, hkind⟩ := Option.isSome_iff_exists.mp h
  unfold Machine.kindOperand
  rw [ValueKind.ofTag, hkind]
  exact ok _

theorem jump {distance : Int32} (hmin : 0 ≤ f.position + distance.toInt)
    (hmax : f.position + distance.toInt ≤ f.function.code.size) : Benign (f.jump distance) := by
  unfold Frame.jump
  dsimp only
  rw [if_neg]
  · exact ok _
  · simp only [Bool.or_eq_true, decide_eq_true_eq]
    omega

theorem function {id : UInt32} (h : (m.function? id).isSome) : Benign (function m id) := by
  obtain ⟨g, hg⟩ := Option.isSome_iff_exists.mp h
  rw [Machine.function, hg]
  exact ok _

theorem callEffect {mode : CallMode} {id : UInt32} {argc : Nat} (hid : (m.function? id).isSome)
    (h : argc + (if mode = .static then 0 else 1) ≤ f.stack.length) :
    Benign (callEffect m s mode id argc f) := by
  refine (function hid).bind fun target _ => (popArgs (by omega)).bind fun ⟨args, f₁⟩ hargs => ?_
  obtain ⟨-, -, rfl⟩ := Frame.popArgs_eq_ok hargs
  have hreceiver (hmode : mode ≠ .static) : Benign (Frame.pop { f with stack := f.stack.drop argc }) := by
    refine pop ?_
    rw [if_neg hmode] at h
    rw [List.length_drop]
    omega
  cases mode with
  | static => exact ok _
  | method =>
    refine (hreceiver nofun).bind fun ⟨receiver, f₂⟩ _ => ?_
    refine (receiverClass _ _).bind fun classId _ => ?_
    split
    · split
      · exact ok _
      · exact error rfl
    · exact ok _
  | constructor =>
    refine (hreceiver nofun).bind fun ⟨object, f₂⟩ _ => ?_
    exact ((receiverClass _ _).bind fun _ _ => ok _).bind fun _ _ => ok _

theorem exec {i : Instr Int32} {h' : Nat}
    (hl : i.Lifts (scopeOf m f.function) f.stack.length h')
    (hlocals : f.function.localCount ≤ f.locals.size)
    (hjump : ∀ d, i.target? = some d →
      0 ≤ f.position + d.toInt ∧ f.position + d.toInt ≤ f.function.code.size) :
    Benign (exec m s f i) := by
  have henough := hl.enough
  have hscope := hl.inScope
  cases i with
  | nop | constNull | constBool _ | constI32 _ | constI64 _ | constF64 _ | retVoid => exact ok _
  | pop | ret => exact (pop henough).bind fun _ _ => ok _
  | dup =>
    unfold Machine.exec
    cases hs : f.stack with
    | nil => simp [hs, Instr.pops] at henough
    | cons v rest => exact ok _
  | constStr index =>
    have hget : m.constants.get? index = some m.constants.strings[index.toNat] :=
      List.getElem?_eq_getElem hscope
    unfold Machine.exec
    simp only [hget]
    exact ok _
  | loadLocal slot => exact (loadLocal (Nat.lt_of_lt_of_le hscope hlocals)).bind fun _ _ => ok _
  | storeLocal slot =>
    refine (pop henough).bind fun r hpop => ?_
    obtain ⟨v, f₁⟩ := r
    obtain ⟨rest, -, rfl⟩ := Frame.pop_eq_ok hpop
    have hslot := Nat.lt_of_lt_of_le hscope hlocals
    exact (storeLocal (f := { f with stack := rest }) hslot).bind fun _ _ => ok _
  | arith kind op => exact (pop2 henough).bind fun _ _ => (arith _ _ _ _).bind fun _ _ => ok _
  | widen w => exact (pop henough).bind fun _ _ => (widen _ _).bind fun _ _ => ok _
  | concat => exact (pop2 henough).bind fun _ _ => (concat _ _).bind fun _ _ => ok _
  | jump d =>
    obtain ⟨hmin, hmax⟩ := hjump d rfl
    exact (jump hmin hmax).bind fun _ _ => ok _
  | branch t d =>
    obtain ⟨hmin, hmax⟩ := hjump d rfl
    refine (pop2 henough).bind fun r hpop => (test _ _ _).bind fun taken _ => ?_
    obtain ⟨a, b, f₁⟩ := r
    obtain ⟨rest, -, rfl⟩ := Frame.pop2_eq_ok hpop
    cases taken with
    | true => exact (jump (f := { f with stack := rest }) hmin hmax).bind fun _ _ => ok _
    | false => exact ok _
  | call mode id argc =>
    refine callEffect ?_ henough
    rw [← Option.isSome_map]
    exact hscope
  | new id => exact (newObject hscope).bind fun _ _ => ok _
  | loadField id => exact (pop henough).bind fun _ _ => (loadField _ _).bind fun _ _ => ok _
  | storeField id => exact (pop2 henough).bind fun _ _ => (storeField _ _ _).bind fun _ _ => ok _
  | loadStatic id => exact (loadStatic _).bind fun _ _ => ok _
  | storeStatic id =>
    exact ((loadStatic _).bind fun _ _ => ok _).bind fun _ _ =>
      (pop henough).bind fun _ _ => ok _
  | box tag =>
    exact ((kindOperand hscope).bind fun _ _ => ok _).bind fun _ _ =>
      (pop henough).bind fun _ _ => ok _
  | unbox tag =>
    exact (kindOperand hscope).bind fun _ _ =>
      (pop henough).bind fun _ _ => (unbox _ _).bind fun _ _ => ok _
  | cast tag => exact (pop henough).bind fun _ _ => (cast _ _).bind fun _ _ => ok _
  | raise =>
    refine (pop henough).bind fun r _ => ?_
    obtain ⟨v, f₁⟩ := r
    by_cases hv : v = .null
    · simp only [hv, if_true]
      exact error rfl
    · simp only [hv, if_false]
      exact ok _

theorem enter {limit : Nat} {callers : List Caller} {id : UInt32} {g : Function}
    {args : List Value} (hg : Machine.function m id = .ok g) {e : Fault} {s' : Store}
    (h : Machine.enter m limit s callers id args = .faulted e s') : e.isMalformed = false := by
  unfold Machine.enter at h
  rw [hg] at h
  dsimp only at h
  split at h
  · cases h
    rfl
  · split at h
    · cases h
      rfl
    · cases h

end Benign

end Bytesmith.Machine
