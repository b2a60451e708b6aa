import Bytesmith.Proofs.Editing

namespace Bytesmith.Build

open Code Outcome

inductive Edit
  | createLocal (name : String) (ty : StaticType)
  | assign (target source : Variable)
  | arithmetic (op : Arithmetic) (left right : Variable)
  | newObject (type : Nat) (args : List Variable)
  | call (method : Nat) (receiver : Option Variable) (args : List Variable)
  | callBase (args : List Variable)
  | box (value : Variable)
  | unbox (value : Variable) (ty : StaticType)
  | cast (value : Variable) (ty : StaticType)
  | raise (value : Variable)
  | ifBegin (left : Variable) (comparison : Comparison) (right : Variable)
  | elseIf (left : Variable) (comparison : Comparison) (right : Variable)
  | elseBegin
  | endIf
  | whileBegin (left : Variable) (comparison : Comparison) (right : Variable)
  | endWhile
  | tryBegin
  | catchBegin (ty : StaticType)
  | endTry
  | ret (value : Variable)
  | retVoid

namespace Edit

def perform (m : Nat) : Edit → BuildM (Option Variable)
  | .createLocal name ty => some <$> BuildM.createLocal m name ty
  | .assign target source => (fun _ => none) <$> BuildM.assign m target source
  | .arithmetic op left right => some <$> BuildM.arithmetic m op left right
  | .newObject type args => some <$> BuildM.newObject m type args
  | .call method receiver args => BuildM.call m method receiver args
  | .callBase args => (fun _ => none) <$> BuildM.callBase m args
  | .box value => some <$> BuildM.box m value
  | .unbox value ty => some <$> BuildM.unbox m value ty
  | .cast value ty => some <$> BuildM.cast m value ty
  | .raise value => (fun _ => none) <$> BuildM.raise m value
  | .ifBegin left comparison right => (fun _ => none) <$> BuildM.ifBegin m left comparison right
  | .elseIf left comparison right => (fun _ => none) <$> BuildM.elseIf m left comparison right
  | .elseBegin => (fun _ => none) <$> BuildM.elseBegin m
  | .endIf => (fun _ => none) <$> BuildM.endIf m
  | .whileBegin left comparison right =>
    (fun _ => none) <$> BuildM.whileBegin m left comparison right
  | .endWhile => (fun _ => none) <$> BuildM.endWhile m
  | .tryBegin => (fun _ => none) <$> BuildM.tryBegin m
  | .catchBegin ty => some <$> BuildM.catchBegin m ty
  | .endTry => (fun _ => none) <$> BuildM.endTry m
  | .ret value => (fun _ => none) <$> BuildM.ret m value
  | .retVoid => (fun _ => none) <$> BuildM.retVoid m

def operands : Edit → List Variable
  | .assign target source => [target, source]
  | .arithmetic _ left right => [left, right]
  | .newObject _ args | .callBase args => args
  | .call _ receiver args => receiver.toList ++ args
  | .box value | .unbox value _ | .cast value _ | .raise value | .ret value => [value]
  | .ifBegin left _ right | .elseIf left _ right | .whileBegin left _ right => [left, right]
  | _ => []

/-- The command that an operation on a method of a draft writes. -/
inductive Stands (d : Draft) (m : Nat) (t : MethodDef) : Edit → Command → Prop
  | createLocal {name : String} {ty : StaticType} {v : Variable} (hty : ty.isStorable = true)
      (hv : v.ty = ty) (hname : requireName .localVariable name = .ok ())
      (hnew : t.declares name = false) : Stands d m t (.createLocal name ty) (.defineLocal v)
  | assign {target source : Variable} {coercion : Coercion}
      (htarget : d.ensureOwned m target = .ok ()) (hsource : d.ensureOwned m source = .ok ())
      (hcoercion : d.coercion source.ty target.ty = .ok coercion) :
      Stands d m t (.assign target source) (.assign target source coercion)
  | arithmetic {op : Arithmetic} {left right result : Variable} {ty : StaticType}
      (hleft : d.ensureOwned m left = .ok ()) (hright : d.ensureOwned m right = .ok ())
      (hty : operandType op left.ty right.ty = .ok ty) (hresult : result.ty = ty) :
      Stands d m t (.arithmetic op left right) (.arithmetic op left right ty result)
  | newPlain {type : Nat} {def' : TypeDef} {result : Variable}
      (htype : d.types[type]? = some def') (habstract : def'.attrs.isAbstract = false)
      (hresult : result.ty = .class type def'.name) (hnone : def'.constructors = []) :
      Stands d m t (.newObject type []) (.newObject (.class type def'.name) none [] result)
  | newObject {type constructor : Nat} {def' : TypeDef} {args : List Variable}
      {target : CallTarget} {bound : List Argument} {result : Variable}
      (htype : d.types[type]? = some def') (habstract : def'.attrs.isAbstract = false)
      (hfind : d.findConstructor? type (args.map Variable.ty) = some constructor)
      (htarget : d.callTarget constructor = .ok target)
      (hbound : d.bindArguments m target args = .ok bound)
      (hresult : result.ty = .class type def'.name) :
      Stands d m t (.newObject type args)
        (.newObject (.class type def'.name) (some target) bound result)
  | callStatic {method : Nat} {args : List Variable} {target : CallTarget}
      {bound : List Argument} {result : Option Variable}
      (htarget : d.callTarget method = .ok target) (hconstructor : target.isConstructor = false)
      (hstatic : target.isStatic = true) (hbound : d.bindArguments m target args = .ok bound)
      (hresult : result.map Variable.ty =
        if target.returnType.isVoid then none else some target.returnType) :
      Stands d m t (.call method none args) (.call target none bound result)
  /-- On the receiver of the method, unless an object is given. -/
  | callInstance {method : Nat} {receiver : Option Variable} {args : List Variable}
      {target : CallTarget} {object : Variable} {bound : List Argument} {result : Option Variable}
      (htarget : d.callTarget method = .ok target) (hconstructor : target.isConstructor = false)
      (hstatic : target.isStatic = false)
      (hobject : receiver = some object ∨ receiver = none ∧ d.this m = .ok object)
      (howned : d.ensureOwned m object = .ok ())
      (hcoercion : d.coercion object.ty target.owner = .ok .none)
      (hbound : d.bindArguments m target args = .ok bound)
      (hresult : result.map Variable.ty =
        if target.returnType.isVoid then none else some target.returnType) :
      Stands d m t (.call method receiver args) (.call target (some object) bound result)
  | callBase {args : List Variable} {owner : TypeDef} {base constructor : Nat}
      {target : CallTarget} {this : Variable} {bound : List Argument}
      (hconstructor : t.isConstructor = true) (howner : d.types[t.owner]? = some owner)
      (hbase : owner.base = some base)
      (hfind : d.findConstructor? base (args.map Variable.ty) = some constructor)
      (htarget : d.callTarget constructor = .ok target)
      (hbound : d.bindArguments m target args = .ok bound) (hthis : d.this m = .ok this) :
      Stands d m t (.callBase args) (.call target (some this) bound none)
  | box {value result : Variable} (howned : d.ensureOwned m value = .ok ())
      (hvalue : value.ty.isValue = true) (hresult : result.ty = .object) :
      Stands d m t (.box value) (.box value result)
  | unbox {value result : Variable} {ty : StaticType} (howned : d.ensureOwned m value = .ok ())
      (hty : ty.isValue = true) (hvalue : value.ty.isReference = true) (hresult : result.ty = ty) :
      Stands d m t (.unbox value ty) (.unbox value ty result)
  | cast {value result : Variable} {ty : StaticType} (howned : d.ensureOwned m value = .ok ())
      (hty : ty.tag?.isSome) (hvalue : value.ty.isReference = true) (hresult : result.ty = ty) :
      Stands d m t (.cast value ty) (.cast value ty result)
  | raise {value : Variable} (howned : d.ensureOwned m value = .ok ())
      (hvalue : value.ty.isReference = true) (hnull : value.ty ≠ .null) :
      Stands d m t (.raise value) (.raise value)
  | ifBegin {left right : Variable} {comparison : Comparison} {c : Condition} {l f : Label}
      (hleft : d.ensureOwned m left = .ok ()) (hright : d.ensureOwned m right = .ok ())
      (hc : Condition.make left comparison right = .ok c) :
      Stands d m t (.ifBegin left comparison right) (.ifBegin c l f)
  | elseIf {left right : Variable} {comparison : Comparison} {c : Condition} {previous l f : Label}
      (hleft : d.ensureOwned m left = .ok ()) (hright : d.ensureOwned m right = .ok ())
      (hc : Condition.make left comparison right = .ok c) :
      Stands d m t (.elseIf left comparison right) (.elseIf c previous l f)
  | elseBegin {previous f : Label} : Stands d m t .elseBegin (.elseBegin previous f)
  | endIf {pending : Option Label} {f : Label} : Stands d m t .endIf (.endIf pending f)
  | whileBegin {left right : Variable} {comparison : Comparison} {c : Condition} {s e : Label}
      (hleft : d.ensureOwned m left = .ok ()) (hright : d.ensureOwned m right = .ok ())
      (hc : Condition.make left comparison right = .ok c) :
      Stands d m t (.whileBegin left comparison right) (.whileBegin c s e)
  | endWhile {s e : Label} : Stands d m t .endWhile (.endWhile s e)
  | tryBegin : Stands d m t .tryBegin .tryBegin
  | catchBegin {ty : StaticType} {v : Variable} (hty : ty.tag?.isSome) (hv : v.ty = ty) :
      Stands d m t (.catchBegin ty) (.catchBegin ty v)
  | endTry : Stands d m t .endTry .endTry
  | ret {value : Variable} {coercion : Coercion} (howned : d.ensureOwned m value = .ok ())
      (hreturn : t.returnType.isVoid = false)
      (hcoercion : d.coercion value.ty t.returnType = .ok coercion) :
      Stands d m t (.ret value) (.ret (some (value, coercion)) t.returnType)
  | retVoid (hreturn : t.returnType.isVoid = true) : Stands d m t .retVoid (.ret none t.returnType)

end Edit

namespace BuildM

open Draft

variable {d d' : Draft} {m : Nat} {t : MethodDef}

theorem fresh_labels {c : Command} {e : Emitter} (hr : c.result? = none)
    (hl : c.labels = (List.range' e.nextLabel c.labels.length).map Label.mk) : c.Fresh m e := by
  refine ⟨fun v hv => ?_, hl⟩
  rw [hr] at hv
  cases hv

theorem fresh_plain {c : Command} {e : Emitter} (hr : c.result? = none) (hl : c.labels = []) :
    c.Fresh m e := fresh_labels hr (by rw [hl]; rfl)

theorem fresh_slot {c : Command} {e : Emitter} {name : String} {ty : StaticType}
    (hsize : e.localCount < 65536) (hr : c.result? = some (.slot m e.localCount.toUInt16 name ty))
    (hl : c.labels = []) : c.Fresh m e := by
  refine ⟨fun v hv => ⟨hsize, name, ty, ?_⟩, by rw [hl]; rfl⟩
  rw [hr] at hv
  exact (Option.some.inj hv).symm

theorem requireStorable_eq_ok {kind : MemberKind} {name : String} {ty : StaticType} {u : Unit} :
    requireStorable kind name ty = .ok u ↔ ty.isStorable = true := by
  unfold requireStorable
  cases ty.isStorable <;> simp

theorem type_eq_ok {id : Nat} {t : TypeDef} : d.type id = .ok t ↔ d.types[id]? = some t := by
  rw [Draft.type, Draft.find]
  cases d.types[id]? <;> simp

end BuildM

namespace Draft

variable {d : Draft} {m : Nat}

theorem bindArguments_eq_ok {target : CallTarget} {args : List Variable} {bound : List Argument}
    (h : d.bindArguments m target args = .ok bound) :
    bound.length = target.params.length ∧ ∀ (i : Nat) (a : Argument), bound[i]? = some a →
      args[i]? = some a.value ∧ target.params[i]? = some a.paramType ∧
        d.ensureOwned m a.value = .ok () ∧ d.coercion a.value.ty a.paramType = .ok a.coercion := by
  obtain ⟨harity, h⟩ := except_guard_eq_ok.mp h
  obtain ⟨hlength, hall⟩ := except_mapM_eq_ok h
  refine ⟨?_, fun i a ha => ?_⟩
  · rw [hlength, List.length_zip, Decidable.not_not.mp harity, Nat.min_self]
  · have hlt := (List.getElem?_eq_some_iff.mp ha).1
    rw [hlength] at hlt
    have hzip := List.getElem?_eq_getElem hlt
    obtain ⟨b, hb, hbind⟩ := hall i _ hzip
    rw [ha] at hb
    cases hb
    obtain ⟨_, howned, hbind⟩ := except_bind_eq_ok.mp hbind
    obtain ⟨coercion, hcoercion, hbind⟩ := except_bind_eq_ok.mp hbind
    cases hbind
    obtain ⟨hvalue, hparam⟩ := List.getElem?_zip_eq_some.mp hzip
    exact ⟨hvalue, hparam, howned, hcoercion⟩

theorem mem_of_bindArguments {target : CallTarget} {args : List Variable} {bound : List Argument}
    (h : d.bindArguments m target args = .ok bound) {a : Argument} (ha : a ∈ bound) :
    a.value ∈ args ∧ d.ensureOwned m a.value = .ok () := by
  obtain ⟨i, hi⟩ := List.getElem?_of_mem ha
  obtain ⟨hvalue, -, howned, -⟩ := (bindArguments_eq_ok h).2 i a hi
  exact ⟨List.mem_of_getElem? hvalue, howned⟩

end Draft

end Bytesmith.Build
