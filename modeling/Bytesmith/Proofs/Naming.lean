import Bytesmith.Proofs.Session

namespace Bytesmith.Build

open Code Outcome

/-- Names that begin with two underscores are those of temporaries. -/
def isTemporary (name : String) : Bool := ['_', '_'].isPrefixOf name.toList

def canonicalName (name : String) : String := if isTemporary name then "__" else name

theorem isTemporary_append (s : String) : isTemporary ("__" ++ s) = true := by
  rw [isTemporary, String.toList_append]
  exact List.isPrefixOf_iff_prefix.mpr (List.prefix_append _ _)

@[simp]
theorem canonicalName_canonicalName (name : String) :
    canonicalName (canonicalName name) = canonicalName name := by
  cases h : isTemporary name with
  | true => simp only [canonicalName, h, if_true, ite_self]
  | false => simp only [canonicalName, h, Bool.false_eq_true, if_false]

theorem canonicalName_temp (stem : String) (n : Nat) : canonicalName s!"__{stem}{n}" = "__" := by
  have happend : s!"__{stem}{n}" = "__" ++ (stem ++ toString n) := String.append_assoc ..
  rw [happend, canonicalName, isTemporary_append, if_pos rfl]

theorem canonicalName_eq_iff {name other : String} (h : isTemporary name = false) :
    canonicalName other = name ↔ other = name := by
  cases hother : isTemporary other with
  | false => rw [canonicalName, hother, if_neg Bool.false_ne_true]
  | true =>
    rw [canonicalName, hother, if_pos rfl]
    constructor
    · rintro rfl
      cases h
    · rintro rfl
      rw [h] at hother
      cases hother

namespace Variable

def canonical : Variable → Variable
  | .slot method index name ty => .slot method index (canonicalName name) ty
  | .of object member => .of object.canonical member
  | .constant value => .constant value
  | .own member => .own member
  | .shared type member => .shared type member

variable (v : Variable)

@[simp]
theorem canonical_canonical : v.canonical.canonical = v.canonical := by
  induction v with
  | slot method index name ty => rw [canonical, canonical, canonicalName_canonicalName]
  | of object member ih => rw [canonical, canonical, ih]
  | constant | own | shared => rfl

theorem canonicalName_name : canonicalName v.canonical.name = canonicalName v.name := by
  cases v with
  | slot method index name ty => exact canonicalName_canonicalName name
  | of | constant | own | shared => rfl

@[simp]
theorem ty_canonical : v.canonical.ty = v.ty := by
  cases v <;> rfl

@[simp]
theorem owner?_canonical : v.canonical.owner? = v.owner? := by
  induction v with
  | of object member ih => exact ih
  | slot | constant | own | shared => rfl

@[simp]
theorem checkLoad_canonical : v.canonical.checkLoad = v.checkLoad := by
  induction v with
  | of object member ih => rw [canonical, checkLoad, checkLoad, ih]
  | slot | constant | own | shared => rfl

@[simp]
theorem checkSave_canonical : v.canonical.checkSave = v.checkSave := by
  cases v with
  | of object member => rw [canonical, checkSave, checkSave, checkLoad_canonical]
  | slot | constant | own | shared => rfl

@[simp]
theorem load_canonical : v.canonical.load = v.load := by
  induction v with
  | of object member ih => rw [canonical, load, load, ih]
  | slot | constant | own | shared => rfl

@[simp]
theorem loadReceiver_canonical : v.canonical.loadReceiver = v.loadReceiver := by
  cases v with
  | of object member => exact load_canonical object
  | slot | constant | own | shared => rfl

@[simp]
theorem save_canonical : v.canonical.save = v.save := by
  cases v <;> rfl

end Variable

def Condition.canonical (c : Condition) : Condition :=
  { c with left := c.left.canonical, right := c.right.canonical }

def Argument.canonical (a : Argument) : Argument := { a with value := a.value.canonical }

theorem loadWidened_canonical (v : Variable) (target : StaticType) :
    loadWidened v.canonical target = loadWidened v target := by
  rw [loadWidened, loadWidened, v.load_canonical, v.ty_canonical]

@[simp]
theorem Condition.check_canonical (c : Condition) : c.canonical.check = c.check := by
  simp only [canonical, check, Variable.checkLoad_canonical]

@[simp]
theorem Condition.branchUnless_canonical (c : Condition) (l : Label) :
    c.canonical.branchUnless l = c.branchUnless l := by
  have hoperand (v : Variable) : c.canonical.loadOperand v.canonical = c.loadOperand v := by
    unfold loadOperand canonical
    cases c.widenTo with
    | none => exact v.load_canonical
    | some target => exact loadWidened_canonical v target
  rw [branchUnless, branchUnless]
  refine congr (congrArg _ (hoperand c.left)) (funext fun _ => ?_)
  exact congrArg (· >>= _) (hoperand c.right)

@[simp]
theorem Argument.load_canonical (a : Argument) : a.canonical.load = a.load :=
  congrArg (· >>= _) a.value.load_canonical

theorem forM_map_eq {μ : Type → Type} [Monad μ] {α : Type} {g : α → α} {f : α → μ PUnit}
    (h : ∀ a, f (g a) = f a) (as : List α) : (as.map g).forM f = as.forM f := by
  induction as with
  | nil => rfl
  | cons a as ih =>
    change (f (g a) >>= fun _ => (as.map g).forM f) = f a >>= fun _ => as.forM f
    rw [h, ih]

namespace Command

def canonical : Command → Command
  | .arithmetic op left right ty result =>
    .arithmetic op left.canonical right.canonical ty result.canonical
  | .assign target source coercion => .assign target.canonical source.canonical coercion
  | .newObject type constructor args result =>
    .newObject type constructor (args.map Argument.canonical) result.canonical
  | .call target receiver args result =>
    .call target (receiver.map Variable.canonical) (args.map Argument.canonical)
      (result.map Variable.canonical)
  | .box value result => .box value.canonical result.canonical
  | .unbox value ty result => .unbox value.canonical ty result.canonical
  | .cast value ty result => .cast value.canonical ty result.canonical
  | .raise value => .raise value.canonical
  | .defineLocal v => .defineLocal v.canonical
  | .ifBegin c elseLabel finalLabel => .ifBegin c.canonical elseLabel finalLabel
  | .elseIf c previousElse elseLabel finalLabel =>
    .elseIf c.canonical previousElse elseLabel finalLabel
  | .elseBegin previousElse finalLabel => .elseBegin previousElse finalLabel
  | .endIf pendingElse finalLabel => .endIf pendingElse finalLabel
  | .whileBegin c startLabel endLabel => .whileBegin c.canonical startLabel endLabel
  | .endWhile startLabel endLabel => .endWhile startLabel endLabel
  | .tryBegin => .tryBegin
  | .catchBegin ty v => .catchBegin ty v.canonical
  | .endTry => .endTry
  | .ret value returnType => .ret (value.map fun r => (r.1.canonical, r.2)) returnType

variable (c : Command)

theorem result?_canonical : c.canonical.result? = c.result?.map Variable.canonical := by
  cases c <;> rfl

theorem labels_canonical : c.canonical.labels = c.labels := by
  cases c <;> rfl

theorem check_canonical : c.canonical.check = c.check := by
  have hargs (args : List Argument) :
      (args.map Argument.canonical).forM (m := Except BuildError) (·.value.checkLoad) =
        args.forM (·.value.checkLoad) :=
    forM_map_eq (fun a => a.value.checkLoad_canonical) args
  cases c with
  | call target receiver args result =>
    cases receiver with
    | none => exact hargs args
    | some r =>
      simp only [canonical, check, Option.map_some, Variable.checkLoad_canonical]
      exact congrArg _ (funext fun _ => hargs args)
  | newObject type constructor args result => exact hargs args
  | ret value returnType =>
    cases value with
    | none => rfl
    | some r => exact r.1.checkLoad_canonical
  | _ => simp only [canonical, check, Variable.checkLoad_canonical, Variable.checkSave_canonical,
      Condition.check_canonical]

theorem emit_canonical : c.canonical.emit = c.emit := by
  have hargs (args : List Argument) :
      (args.map Argument.canonical).forM Argument.load = args.forM Argument.load :=
    forM_map_eq Argument.load_canonical args
  cases c with
  | call target receiver args result =>
    cases receiver <;> cases result <;>
      simp only [canonical, emit, Option.map_none, Option.map_some, hargs, List.length_map,
        Variable.load_canonical, Variable.save_canonical]
  | ret value returnType =>
    cases value with
    | none => rfl
    | some r =>
      simp only [canonical, emit, Option.map_some, Variable.load_canonical]
  | _ => simp only [canonical, emit, loadWidened_canonical, hargs, List.length_map,
      Variable.ty_canonical, Variable.load_canonical, Variable.loadReceiver_canonical,
      Variable.save_canonical, Condition.branchUnless_canonical]

theorem setup_canonical : c.canonical.setup = c.setup := by
  rw [setup, setup, check_canonical, emit_canonical]

theorem setup_eq {c c' : Command} (h : c.canonical = c'.canonical) : c.setup = c'.setup := by
  rw [← c.setup_canonical, h, setup_canonical]

end Command

def Edit.canonical : Edit → Edit
  | .createLocal name ty => .createLocal name ty
  | .assign target source => .assign target.canonical source.canonical
  | .arithmetic op left right => .arithmetic op left.canonical right.canonical
  | .newObject type args => .newObject type (args.map Variable.canonical)
  | .call method receiver args =>
    .call method (receiver.map Variable.canonical) (args.map Variable.canonical)
  | .callBase args => .callBase (args.map Variable.canonical)
  | .box value => .box value.canonical
  | .unbox value ty => .unbox value.canonical ty
  | .cast value ty => .cast value.canonical ty
  | .raise value => .raise value.canonical
  | .ifBegin left comparison right => .ifBegin left.canonical comparison right.canonical
  | .elseIf left comparison right => .elseIf left.canonical comparison right.canonical
  | .elseBegin => .elseBegin
  | .endIf => .endIf
  | .whileBegin left comparison right => .whileBegin left.canonical comparison right.canonical
  | .endWhile => .endWhile
  | .tryBegin => .tryBegin
  | .catchBegin ty => .catchBegin ty
  | .endTry => .endTry
  | .ret value => .ret value.canonical
  | .retVoid => .retVoid

def Lookup.canonical : Lookup → Lookup
  | .fieldOf object name => .fieldOf object.canonical name
  | .propertyOf object name => .propertyOf object.canonical name
  | l => l

/-- The operation with operands in which all temporaries have one name. -/
def Operation.canonical : Operation → Operation
  | .look m l => .look m l.canonical
  | .edit m e => .edit m e.canonical
  | .bump m op target => .bump m op target.canonical
  | .callNamed m receiver name args =>
    .callNamed m receiver.canonical name (args.map Variable.canonical)
  | op => op

end Bytesmith.Build
