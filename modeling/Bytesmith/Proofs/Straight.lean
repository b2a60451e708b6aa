import Bytesmith.Proofs.Emission
import Bytesmith.Proofs.Layout

namespace Bytesmith.Code

theorem Pool.get?_indexOf {q : Pool} {s : String} (h : s ∈ q.strings)
    (hsize : q.strings.length ≤ 2 ^ 32) : q.get? (q.indexOf s) = some s := by
  obtain ⟨i, hi⟩ := Option.isSome_iff_exists.mp (List.isSome_idxOf?.mpr h)
  obtain ⟨hlt, hat, -⟩ := List.findIdx?_eq_some_iff_getElem.mp hi
  have hindex : i.toUInt32.toNat = i := Nat.mod_eq_of_lt (Nat.lt_of_lt_of_le hlt hsize)
  rw [indexOf_of_idxOf? hi, get?, hindex, List.getElem?_eq_getElem hlt, beq_iff_eq.mp hat]

def Instr.isString {τ : Type} : Instr τ → Bool
  | .constStr _ => true
  | _ => false

end Bytesmith.Code

namespace Bytesmith.Build

open Code

namespace Emitter

def append (e : Emitter) (code : List (Instr Label)) : Emitter := code.foldl push e

variable (e : Emitter) (code : List (Instr Label))

theorem append_cons (i : Instr Label) : e.append (i :: code) = (e.push i).append code := rfl

theorem append_append (more : List (Instr Label)) :
    (e.append code).append more = e.append (code ++ more) := List.foldl_append.symm

@[simp]
theorem code_append : (e.append code).code.toList = e.code.toList ++ code := by
  induction code generalizing e with
  | nil => exact (List.append_nil _).symm
  | cons i code ih =>
    rw [append_cons, ih, push, Array.toList_push, List.append_assoc]
    rfl

@[simp]
theorem marks_append : (e.append code).marks = e.marks := by
  induction code generalizing e with
  | nil => rfl
  | cons i code ih => rw [append_cons, ih, push]

@[simp]
theorem handlers_append : (e.append code).handlers = e.handlers := by
  induction code generalizing e with
  | nil => rfl
  | cons i code ih => rw [append_cons, ih, push]

@[simp]
theorem regions_append : (e.append code).regions = e.regions := by
  induction code generalizing e with
  | nil => rfl
  | cons i code ih => rw [append_cons, ih, push]

@[simp]
theorem localCount_append : (e.append code).localCount = e.localCount := by
  induction code generalizing e with
  | nil => rfl
  | cons i code ih =>
    rw [append_cons, ih]
    rfl

@[simp]
theorem offset_append : (e.append code).offset = e.offset + totalSize code := by
  rw [offset_eq, code_append, totalSize_append, ← e.offset_eq]

end Emitter

namespace Action

/-- The action appends an instruction, which pushes no string by an index of its own, and control
goes on behind it in every case. -/
def isStraight : Action → Bool
  | .put i => i.target?.isNone && !i.opcode.isTerminator && !i.isString
  | .putString _ => true
  | _ => false

def instr? (q : Pool) : Action → Option (Instr Label)
  | .put i => some i
  | .putString s => some (.constStr (q.indexOf s))
  | _ => none

end Action

def codeOf (q : Pool) (actions : List Action) : List (Instr Label) :=
  actions.filterMap (Action.instr? q)

theorem codeOf_append (q : Pool) (a b : List Action) : codeOf q (a ++ b) = codeOf q a ++ codeOf q b :=
  List.filterMap_append ..

theorem Runs.eq_append {q : Pool} {e e' : Emitter} {actions : List Action}
    (h : Runs q e actions e') (hs : actions.all Action.isStraight = true) :
    e' = e.append (codeOf q actions) ∧ ∀ s, .putString s ∈ actions → s ∈ q.strings := by
  induction h with
  | nil e => exact ⟨rfl, fun s hs => by cases hs⟩
  | cons hact _ ih =>
    rw [List.all_cons, Bool.and_eq_true] at hs
    obtain ⟨he, hstrings⟩ := ih hs.2
    cases hact with
    | put i e =>
      refine ⟨he, fun s hmem => ?_⟩
      cases hmem with
      | tail _ hmem => exact hstrings s hmem
    | putString hmem e =>
      refine ⟨he, fun s hmem' => ?_⟩
      cases hmem' with
      | head => exact hmem
      | tail _ hmem' => exact hstrings s hmem'
    | mark | leave | openRegion | openCatch | closeRegion => cases hs.1

theorem straight_of_mem_codeOf {q : Pool} {actions : List Action} {i : Instr Label}
    (hs : actions.all Action.isStraight = true) (hi : i ∈ codeOf q actions) :
    i.target? = none ∧ i.opcode.isTerminator = false := by
  obtain ⟨a, ha, hia⟩ := List.mem_filterMap.mp hi
  have hstraight := List.all_eq_true.mp hs a ha
  cases a with
  | put j =>
    cases hia
    simp only [Action.isStraight, Bool.and_eq_true, Option.isNone_iff_eq_none,
      Bool.not_eq_true'] at hstraight
    exact hstraight.1
  | putString s =>
    cases hia
    exact ⟨rfl, rfl⟩
  | _ => cases hia

@[simp]
theorem Literal.isStraight_loads (l : Literal) : l.loads.all Action.isStraight = true := by
  cases l with
  | bool b => cases b <;> rfl
  | _ => rfl

@[simp]
theorem Member.isStraight_loads (m : Member) (isStatic : Bool) :
    (m.loads isStatic).all Action.isStraight = true := by
  obtain ⟨name, ty, access⟩ := m
  cases access with
  | field id writable => cases isStatic <;> rfl
  | property id getter setter => cases getter <;> rfl

@[simp]
theorem Member.isStraight_saves (m : Member) (isStatic : Bool) :
    (m.saves isStatic).all Action.isStraight = true := by
  obtain ⟨name, ty, access⟩ := m
  cases access with
  | field id writable => cases isStatic <;> rfl
  | property id getter setter => cases setter <;> rfl

@[simp]
theorem Variable.isStraight_loads (v : Variable) : v.loads.all Action.isStraight = true := by
  induction v with
  | slot method index name ty => rfl
  | constant value => exact value.isStraight_loads
  | own m =>
    rw [loads, List.all_cons, Member.isStraight_loads]
    rfl
  | of object m ih => rw [loads, List.all_append, ih, Member.isStraight_loads, Bool.and_self]
  | shared type m => exact m.isStraight_loads true

@[simp]
theorem Variable.isStraight_receives (v : Variable) : v.receives.all Action.isStraight = true := by
  cases v with
  | of object m => exact object.isStraight_loads
  | _ => rfl

@[simp]
theorem Variable.isStraight_saves (v : Variable) : v.saves.all Action.isStraight = true := by
  cases v with
  | slot | constant => rfl
  | own m | of _ m => exact m.isStraight_saves false
  | shared type m => exact m.isStraight_saves true

@[simp]
theorem Coercion.isStraight_converts (c : Coercion) : c.converts.all Action.isStraight = true := by
  cases c <;> rfl

@[simp]
theorem Variable.isStraight_widens (v : Variable) (target : StaticType) :
    (v.widens target).all Action.isStraight = true := by
  rw [widens, List.all_append, isStraight_loads, Bool.true_and]
  cases v.ty.widening? target <;> rfl

@[simp]
theorem Condition.isStraight_operand (c : Condition) (v : Variable) :
    (c.operand v).all Action.isStraight = true := by
  obtain ⟨left, comparison, right, widenTo⟩ := c
  cases widenTo with
  | none => exact v.isStraight_loads
  | some target => exact v.isStraight_widens target

@[simp]
theorem Argument.isStraight_loads (args : List Argument) :
    (args.flatMap Argument.loads).all Action.isStraight = true := by
  induction args with
  | nil => rfl
  | cons a args ih =>
    rw [List.flatMap_cons, List.all_append, ih, loads, List.all_append]
    simp

namespace Condition

def code (q : Pool) (c : Condition) : List (Instr Label) :=
  codeOf q (c.operand c.left ++ c.operand c.right)

theorem straight_of_mem_code {q : Pool} {c : Condition} {i : Instr Label} (hi : i ∈ c.code q) :
    i.target? = none ∧ i.opcode.isTerminator = false :=
  straight_of_mem_codeOf (by simp) hi

theorem runs_branches {q : Pool} {c : Condition} {l : Label} {e e' : Emitter}
    (h : Runs q e (c.branches l) e') :
    e' = (e.append (c.code q)).push (.branch c.comparison.failureTest l) ∧
      ∀ s, .putString s ∈ c.operand c.left ++ c.operand c.right → s ∈ q.strings := by
  rw [branches, ← List.append_assoc] at h
  obtain ⟨e₁, hcode, hbranch⟩ := h.append_inv
  obtain ⟨rfl, hstrings⟩ := hcode.eq_append (by simp)
  exact ⟨hbranch.single_inv.put_inv, hstrings⟩

end Condition

namespace Command

def exit? : Command → Option (Instr Label)
  | .raise _ => some .raise
  | .ret (some _) _ => some .ret
  | .ret none _ => some .retVoid
  | _ => none

def body (c : Command) : List Action :=
  match c with
  | .raise value => value.loads
  | .ret (some (value, coercion)) _ => value.loads ++ coercion.converts
  | .ret none _ => []
  | c => c.actions

theorem actions_eq (c : Command) : c.actions = c.body ++ c.exit?.toList.map .put := by
  cases c with
  | ret value returnType =>
    match value with
    | none => rfl
    | some (v, coercion) => exact (List.append_assoc ..).symm
  | raise value => rfl
  | _ => exact (List.append_nil _).symm

theorem isStraight_body {c : Command} (hi : c.indents = false) (ho : c.outdents = false) :
    c.body.all Action.isStraight = true := by
  cases c with
  | arithmetic op left right ty result =>
    simp only [body, actions, List.all_append, Variable.isStraight_widens,
      Variable.isStraight_saves, Bool.and_true, Bool.true_and]
    cases ty <;> cases op <;> rfl
  | assign target source coercion => simp [body, actions]
  | newObject type constructor args result =>
    have hnew : (type.classId?.toList.map fun id => Action.put (.new id.toUInt32)).all
        Action.isStraight = true := by
      cases type.classId? <;> rfl
    simp only [body, actions, List.all_append, hnew, Variable.isStraight_saves, Bool.and_true,
      Bool.true_and]
    cases constructor with
    | none => rfl
    | some target =>
      simp only [Option.toList_some, List.flatMap_singleton, List.all_append,
        Argument.isStraight_loads, Bool.true_and]
      rfl
  | call target receiver args result =>
    have hreceiver : (receiver.toList.flatMap Variable.loads).all Action.isStraight = true := by
      cases receiver with
      | none => rfl
      | some r => simp only [Option.toList_some, List.flatMap_singleton, Variable.isStraight_loads]
    have hresult : (result.toList.flatMap Variable.saves).all Action.isStraight = true := by
      cases result with
      | none => rfl
      | some r => simp only [Option.toList_some, List.flatMap_singleton, Variable.isStraight_saves]
    simp only [body, actions, List.all_append, List.all_cons, Argument.isStraight_loads, hreceiver,
      hresult, Bool.and_true, Bool.true_and]
    cases target.isConstructor <;> rfl
  | box | unbox =>
    simp only [body, actions, List.all_append, List.all_cons, Variable.isStraight_loads,
      Variable.isStraight_saves]
    rfl
  | cast value ty result =>
    simp only [body, actions, List.all_append, Variable.isStraight_loads,
      Variable.isStraight_saves, Bool.and_true, Bool.true_and]
    cases ty.tag? <;> rfl
  | raise value => simp [body]
  | defineLocal v => rfl
  | ret value returnType =>
    cases value with
    | none => rfl
    | some r =>
      obtain ⟨v, coercion⟩ := r
      simp [body]
  | ifBegin | elseIf | elseBegin | whileBegin | tryBegin | catchBegin => cases hi
  | endIf | endWhile | endTry => cases ho

theorem target?_of_mem_plain {q : Pool} {c : Command} {i : Instr Label} (hi : c.indents = false)
    (ho : c.outdents = false) (hmem : i ∈ codeOf q c.body ++ c.exit?.toList) : i.target? = none := by
  obtain hmem | hmem := List.mem_append.mp hmem
  · exact (straight_of_mem_codeOf (isStraight_body hi ho) hmem).1
  · cases c with
    | raise value =>
      rw [List.mem_singleton.mp hmem]
      rfl
    | ret value returnType =>
      cases value <;> rw [List.mem_singleton.mp hmem] <;> rfl
    | _ => cases hmem

theorem runs_plain {q : Pool} {c : Command} {e e' : Emitter} (hi : c.indents = false)
    (ho : c.outdents = false) (h : Runs q e c.actions e') :
    e' = e.append (codeOf q c.body ++ c.exit?.toList) ∧
      ∀ s, .putString s ∈ c.body → s ∈ q.strings := by
  rw [actions_eq] at h
  obtain ⟨e₁, hbody, hexit⟩ := h.append_inv
  obtain ⟨rfl, hstrings⟩ := hbody.eq_append (isStraight_body hi ho)
  refine ⟨?_, hstrings⟩
  rw [← Emitter.append_append]
  cases hx : c.exit? with
  | none =>
    rw [hx] at hexit
    cases hexit
    rfl
  | some i =>
    rw [hx] at hexit
    exact hexit.single_inv.put_inv

end Command

end Bytesmith.Build
