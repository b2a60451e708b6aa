import Bytesmith.Proofs.Closure
import Bytesmith.Proofs.FailStop

namespace Bytesmith.Build

open Code Outcome

def BuildError.isEmitterFault : BuildError → Bool
  | .unmarkedLabel _ _ => true
  | .invalidOperation (.markedTwice _ _) => true
  | .invalidOperation (.openRegions _ _) => true
  | .invalidOperation .catchOutside => true
  | .invalidOperation .noRegion => true
  | .invalidOperation .noCatch => true
  | .invalidOperation (.finishedEmitter _) => true
  | _ => false

def Clean {α : Type} (x : Except BuildError α) : Prop :=
  ∀ e, x = .error e → e.isEmitterFault = false

namespace Clean

variable {α β γ : Type} {x y : Except BuildError α} {f : α → Except BuildError β}

theorem ok (a : α) : Clean (.ok a) := fun _ h => nomatch h

theorem error {e : BuildError} (h : e.isEmitterFault = false) :
    Clean (.error e : Except BuildError α) := by
  intro e' he
  cases he
  exact h

theorem bind (hx : Clean x) (hf : ∀ a, Clean (f a)) : Clean (x >>= f) := by
  cases x with
  | ok a => exact hf a
  | error e => exact .error (hx e rfl)

theorem ite {c : Prop} [Decidable c] (hx : Clean x) (hy : Clean y) :
    Clean (if c then x else y) := by
  split
  · exact hx
  · exact hy

theorem guard {c : Prop} [Decidable c] {e : BuildError} {g : γ → Except BuildError α}
    (he : e.isEmitterFault = false) (hy : Clean y) :
    Clean (if c then throw e >>= g else y) := ite (.error he) hy

theorem forM {f : α → Except BuildError Unit} (hf : ∀ a, Clean (f a)) (as : List α) :
    Clean (as.forM f) := by
  induction as with
  | nil => exact .ok ()
  | cons a as ih => exact (hf a).bind fun _ => ih

theorem mapM (hf : ∀ a, Clean (f a)) (as : List α) : Clean (as.mapM f) := by
  induction as with
  | nil => exact .ok []
  | cons a as ih =>
    rw [List.mapM_cons]
    exact (hf a).bind fun _ => ih.bind fun _ => .ok _

end Clean

theorem clean_requireName (kind : MemberKind) (name : String) : Clean (requireName kind name) :=
  .ite (.error rfl) (.ok _)

theorem clean_requireStorable (kind : MemberKind) (name : String) (ty : StaticType) :
    Clean (requireStorable kind name ty) := .ite (.ok _) (.error rfl)

theorem clean_operandType (op : Arithmetic) (left right : StaticType) :
    Clean (operandType op left right) := by
  refine .ite (.ok _) ?_
  split
  · exact .ok _
  · exact .error rfl

theorem Condition.clean_make (left : Variable) (comparison : Comparison) (right : Variable) :
    Clean (make left comparison right) := by
  refine .bind ?_ fun _ => .ok _
  rw [comparedType]
  split
  · exact .ok _
  · exact .ite (.ok _) (.error rfl)

theorem Member.clean_checkLoad (x : Member) : Clean x.checkLoad := by
  unfold checkLoad
  split
  · exact .error rfl
  · exact .ok _

theorem Member.clean_checkSave (x : Member) : Clean x.checkSave := by
  unfold checkSave
  split
  · exact .error rfl
  · exact .error rfl
  · exact .ok _

theorem Variable.clean_checkLoad (v : Variable) : Clean v.checkLoad := by
  induction v with
  | slot | constant => exact .ok _
  | own x | shared _ x => exact x.clean_checkLoad
  | of object x ih => exact x.clean_checkLoad.bind fun _ => ih

theorem Variable.clean_checkSave (v : Variable) : Clean v.checkSave := by
  cases v with
  | slot => exact .ok _
  | constant value => exact .error rfl
  | own x | shared _ x => exact x.clean_checkSave
  | of object x => exact x.clean_checkSave.bind fun _ => object.clean_checkLoad

theorem Condition.clean_check (c : Condition) : Clean c.check :=
  c.left.clean_checkLoad.bind fun _ => c.right.clean_checkLoad

theorem Command.clean_check (c : Command) : Clean c.check := by
  have hargs (args : List Argument) : Clean (args.forM (·.value.checkLoad)) :=
    .forM (fun a => a.value.clean_checkLoad) args
  unfold check
  split
  · exact (Variable.clean_checkLoad _).bind fun _ => Variable.clean_checkLoad _
  · exact (Variable.clean_checkSave _).bind fun _ => Variable.clean_checkLoad _
  · exact hargs _
  · split
    · exact (Variable.clean_checkLoad _).bind fun _ => hargs _
    · exact hargs _
  all_goals
    first
      | exact Variable.clean_checkLoad _
      | exact Condition.clean_check _
      | exact .ok _

namespace Draft

variable (d : Draft) (m : Nat)

theorem clean_find {α : Type} (kind : MemberKind) (table : Array α) (id : Nat) :
    Clean (find kind table id) := by
  unfold find
  split
  · exact .ok _
  · exact .error rfl

theorem clean_ensureOpen : Clean d.ensureOpen := .ite (.error rfl) (.ok _)

theorem clean_classType (id : Nat) : Clean (d.classType id) :=
  (clean_find _ _ _).bind fun _ => .ok _

theorem clean_coercion (source target : StaticType) : Clean (d.coercion source target) := by
  unfold coercion Coercion.select
  split
  · exact .ok _
  · exact .error rfl

theorem clean_callTarget (id : Nat) : Clean (d.callTarget id) :=
  (clean_find _ _ _).bind fun _ => (d.clean_classType _).bind fun _ => .ok _

theorem clean_ensureOwned (v : Variable) : Clean (d.ensureOwned m v) := by
  unfold ensureOwned
  split
  · exact .ite ((clean_find _ _ _).bind fun _ => .error rfl) (.ok _)
  · exact .ok _

theorem clean_this : Clean (d.this m) :=
  (clean_find _ _ _).bind fun _ => .guard rfl ((d.clean_classType _).bind fun _ => .ok _)

theorem clean_param (index : Nat) : Clean (d.param m index) := by
  refine (clean_find _ _ _).bind fun t => ?_
  split
  · exact .ok _
  · exact .error rfl

theorem clean_paramNamed (name : String) : Clean (d.paramNamed m name) := by
  refine (clean_find _ _ _).bind fun t => ?_
  split
  · exact d.clean_param m _
  · exact .error rfl

theorem clean_field (name : String) : Clean (d.field m name) := by
  refine (clean_find _ _ _).bind fun t => ?_
  split
  · exact .error rfl
  · refine (clean_find _ _ _).bind fun f => .ite ?_ (.guard rfl (.ok _))
    exact (clean_find _ _ _).bind fun _ => .ok _

theorem clean_fieldOf (object : Variable) (name : String) : Clean (d.fieldOf m object name) := by
  refine (clean_find _ _ _).bind fun t => (d.clean_ensureOwned m object).bind fun _ => ?_
  split
  · exact .error rfl
  · split
    · exact .error rfl
    · exact (clean_find _ _ _).bind fun f => .guard rfl (.ok _)

theorem clean_property (name : String) : Clean (d.property m name) := by
  refine (clean_find _ _ _).bind fun t => .guard rfl ?_
  split
  · exact .error rfl
  · exact (clean_find _ _ _).bind fun _ => .ok _

theorem clean_propertyOf (object : Variable) (name : String) :
    Clean (d.propertyOf m object name) := by
  refine (d.clean_ensureOwned m object).bind fun _ => ?_
  split
  · exact .error rfl
  · split
    · exact .error rfl
    · exact (clean_find _ _ _).bind fun _ => .ok _

theorem clean_bindArguments (target : CallTarget) (args : List Variable) :
    Clean (d.bindArguments m target args) :=
  .guard rfl (.mapM (fun _ => (d.clean_ensureOwned m _).bind fun _ =>
    (d.clean_coercion _ _).bind fun _ => .ok _) _)

theorem clean_receiverOf (target : CallTarget) (receiver : Option Variable) :
    Clean (d.receiverOf m target receiver) := by
  have hobject (object : Variable) : Clean (do
      d.ensureOwned m object
      let coercion ← d.coercion object.ty target.owner
      if coercion ≠ .none then throw (.typeMismatch target.owner object.ty)
      return some object : Except BuildError (Option Variable)) :=
    (d.clean_ensureOwned m object).bind fun _ => (d.clean_coercion _ _).bind fun _ =>
      .guard rfl (.ok _)
  refine .ite (.guard rfl (.ok _)) ?_
  cases receiver with
  | some object => exact hobject object
  | none => exact (d.clean_this m).bind hobject

theorem clean_conditionOf (left : Variable) (comparison : Comparison) (right : Variable) :
    Clean (d.conditionOf m left comparison right) :=
  (d.clean_ensureOwned m left).bind fun _ => (d.clean_ensureOwned m right).bind fun _ =>
    Condition.clean_make _ _ _

theorem clean_constructorOf (type : Nat) (entry : TypeDef) (args : List Variable) :
    Clean (d.constructorOf m type entry args) := by
  refine .ite (.ok _) ?_
  dsimp only
  split
  · exact .error rfl
  · exact (d.clean_callTarget _).bind fun _ => (d.clean_bindArguments m _ _).bind fun _ => .ok _

theorem clean_methodNamed (receiver : Variable) (name : String) (args : List Variable) :
    Clean (d.methodNamed receiver name args) := by
  unfold methodNamed
  split
  · exact .error rfl
  · dsimp only
    split
    · exact .ok _
    · exact .error rfl

end Draft

theorem Lookup.clean_find (d : Draft) (m : Nat) (l : Lookup) : Clean (l.find d m) := by
  cases l with
  | this => exact d.clean_this m
  | param index => exact d.clean_param m index
  | paramNamed name => exact d.clean_paramNamed m name
  | field name => exact d.clean_field m name
  | fieldOf object name => exact d.clean_fieldOf m object name
  | property name => exact d.clean_property m name
  | propertyOf object name => exact d.clean_propertyOf m object name

theorem MethodDef.clean_ensureOpen (t : MethodDef) : Clean t.ensureOpen := by
  unfold ensureOpen
  split
  · exact .ite (.error rfl) (.ok _)
  · exact .error rfl
  · exact .error rfl

theorem MethodDef.clean_toFunction (t : MethodDef) : Clean t.toFunction := by
  unfold toFunction
  split
  · exact .error rfl
  · exact .ok _

theorem MethodDef.clean_nextLocal {t : MethodDef} (h : t.emitter.isFinished = false) (m : Nat)
    (name : String) (ty : StaticType) : Clean (t.nextLocal m name ty) := by
  rw [nextLocal, if_neg (by simp [h])]
  exact .ite (.error rfl) (.ok _)

theorem Edit.clean_resolve {t : MethodDef} (h : t.emitter.isFinished = false) (d : Draft) (m : Nat)
    (e : Edit) : Clean (e.resolve d m t) := by
  have htemp (stem : String) (ty : StaticType) : Clean (d.nextTemp m t stem ty) :=
    t.clean_nextLocal h m _ ty
  have howned := d.clean_ensureOwned m
  have hcondition := d.clean_conditionOf m
  cases e with
  | createLocal name ty =>
    refine (clean_requireName _ _).bind fun _ => (clean_requireStorable _ _ _).bind fun _ => ?_
    exact .guard rfl ((t.clean_nextLocal h m name ty).bind fun _ => .ok _)
  | assign target source =>
    refine (howned _).bind fun _ => (howned _).bind fun _ => ?_
    exact (d.clean_coercion _ _).bind fun _ => .ok _
  | arithmetic op left right =>
    refine (howned _).bind fun _ => (howned _).bind fun _ => ?_
    exact (clean_operandType _ _ _).bind fun _ => (htemp _ _).bind fun _ => .ok _
  | newObject type args =>
    refine (Draft.clean_find _ _ _).bind fun entry => .guard rfl ?_
    exact (d.clean_constructorOf m type entry args).bind fun _ => (htemp _ _).bind fun _ => .ok _
  | call method receiver args =>
    refine (d.clean_callTarget _).bind fun target => .guard rfl ?_
    refine (d.clean_receiverOf m target receiver).bind fun _ => ?_
    refine (d.clean_bindArguments m target args).bind fun _ => ?_
    exact .ite (.ok _) ((htemp _ _).bind fun _ => .ok _)
  | callBase args =>
    refine .guard rfl ((Draft.clean_find _ _ _).bind fun owner => ?_)
    split
    · exact .error rfl
    · dsimp only
      split
      · exact .error rfl
      · refine (d.clean_callTarget _).bind fun _ => (d.clean_bindArguments m _ _).bind fun _ => ?_
        exact (d.clean_this m).bind fun _ => .ok _
  | box value => exact (howned _).bind fun _ => .guard rfl ((htemp _ _).bind fun _ => .ok _)
  | unbox value ty | cast value ty =>
    exact (howned _).bind fun _ => .guard rfl (.guard rfl ((htemp _ _).bind fun _ => .ok _))
  | raise value => exact (howned _).bind fun _ => .guard rfl (.ok _)
  | ifBegin left comparison right | whileBegin left comparison right =>
    exact (hcondition _ _ _).bind fun _ => .ok _
  | elseIf left comparison right =>
    rw [resolve]
    split
    · exact (hcondition _ _ _).bind fun _ => .ok _
    · exact .error rfl
  | elseBegin | endIf | endWhile | endTry =>
    rw [resolve]
    split
    · exact .ok _
    · exact .error rfl
  | tryBegin => exact .ok _
  | catchBegin ty =>
    rw [resolve]
    split
    · exact .guard rfl ((htemp _ _).bind fun _ => .ok _)
    · exact .error rfl
  | ret value =>
    exact (howned _).bind fun _ => .guard rfl ((d.clean_coercion _ _).bind fun _ => .ok _)
  | retVoid => exact .guard rfl (.ok _)

namespace Draft

variable (d : Draft)

theorem clean_ensureNewTypeName (name : String) : Clean (d.ensureNewTypeName name) :=
  .ite (.error rfl) (.ok _)

theorem clean_checkBase (name : String) (attrs : TypeAttributes) (base : Nat) :
    Clean (d.checkBase name attrs base) :=
  (clean_find _ _ _).bind fun _ => .guard rfl (.ite (.error rfl) (.ok _))

theorem clean_checkInterface (id : Nat) : Clean (d.checkInterface id) :=
  (clean_find _ _ _).bind fun _ => .ite (.error rfl) (.ok _)

theorem clean_openType (type : Nat) : Clean (d.openType type) :=
  (clean_find _ _ _).bind fun _ => d.clean_ensureOpen.bind fun _ => .guard rfl (.ok _)

theorem clean_ensureUnique (t : TypeDef) (name : String) (isMethod : Bool) :
    Clean (d.ensureUnique t name isMethod) := .ite (.error rfl) (.ok _)

theorem clean_ensureNewSignature (t : TypeDef) (members : List Nat) (name : String)
    (params : List Parameter) : Clean (d.ensureNewSignature t members name params) :=
  .ite (.error rfl) (.ok _)

theorem clean_checkParamsAfter (before : NameTree) (params : List Parameter) :
    Clean (checkParamsAfter before params) := by
  induction params generalizing before with
  | nil => exact .ok _
  | cons p params ih =>
    refine (clean_requireName _ _).bind fun _ => (clean_requireStorable _ _ _).bind fun _ => ?_
    exact .guard rfl (ih _)

theorem clean_methodAttributes (t : TypeDef) (name : String) (attrs : MethodAttributes) :
    Clean (methodAttributes t name attrs) :=
  .ite (.guard rfl (.ok _)) (.guard rfl (.guard rfl (.ok _)))

theorem clean_accessor (type : Nat) (t : TypeDef) (property : String) (m : Nat) :
    Clean (d.accessor type t property m) :=
  (clean_find _ _ _).bind fun _ => .guard rfl (.ok _)

theorem clean_checkGetter (property : String) (ty : StaticType) (getter : MethodDef) :
    Clean (checkGetter property ty getter) := .guard rfl (.ite (.error rfl) (.ok _))

theorem clean_checkSetter (property : String) (ty : StaticType) (setter : MethodDef) :
    Clean (checkSetter property ty setter) := by
  have hreturn : Clean (do
      if !setter.returnType.isVoid then throw (.typeMismatch .void setter.returnType) :
        Except BuildError Unit) := .ite (.error rfl) (.ok _)
  unfold checkSetter
  dsimp only
  split
  · exact .guard rfl hreturn
  · exact .bind (.error rfl) fun _ => hreturn

theorem clean_setter (d : Draft) (type : Nat) (t : TypeDef) (name : String)
    (ty : StaticType) (setter : Option Nat) : Build.Clean (do
      if let some m := setter then Draft.checkSetter name ty (← d.accessor type t name m) :
        Except BuildError Unit) := by
  cases setter with
  | none => exact .ok _
  | some m => exact (d.clean_accessor _ _ _ _).bind fun _ => Draft.clean_checkSetter _ _ _

end Draft

def BuildM.Clean {α : Type} (x : BuildM α) : Prop :=
  ∀ d issued, Course Anything d issued → ∀ e d', x d = .error e d' → e.isEmitterFault = false

namespace BuildM

variable {α β : Type} {x : BuildM α} {f : α → BuildM β}

namespace Clean

theorem pure (a : α) : Clean (Pure.pure a) := fun _ _ _ _ _ h => nomatch h

theorem throw {e : BuildError} (h : e.isEmitterFault = false) : Clean (throw e : BuildM α) := by
  intro d issued _ e' d' he
  cases he
  exact h

theorem ofExcept {y : Except BuildError α} (h : Build.Clean y) : Clean (ofExcept y) := by
  cases y with
  | ok a => exact pure a
  | error e => exact throw (h e rfl)

theorem reading {g : Draft → Except BuildError α} (h : ∀ d, Build.Clean (g d)) :
    Clean (reading g) := fun d issued hc => ofExcept (h d) d issued hc

theorem get_bind {f : Draft → BuildM β} (h : ∀ d, Clean (f d)) :
    Clean (get >>= f) := fun d issued hc => h d d issued hc

theorem bind (hx : Clean x) (hg : Leads (Goes Anything) x) (hf : ∀ a, Clean (f a)) :
    Clean (x >>= f) := by
  intro d issued hc e d' he
  obtain he | ⟨a, s, ha, he⟩ := bind_eq_error.mp he
  · exact hx d issued hc e d' he
  · exact hf a s issued ((hg.of_ok ha).course issued hc) e d' he

theorem map (hx : Clean x) (g : α → β) : Clean (g <$> x) :=
  fun d issued hc e d' he => hx d issued hc e d' (map_eq_error.mp he)

theorem guard {γ : Type} {c : Prop} [Decidable c] {e : BuildError} {g : γ → BuildM α}
    (he : e.isEmitterFault = false) (hx : Clean x) :
    Clean (if c then MonadExcept.throw e >>= g else x) := by
  split
  · exact throw he
  · exact hx

theorem forM {f : α → BuildM PUnit} (hf : ∀ a, Clean (f a))
    (hg : ∀ a, Leads (Goes Anything) (f a)) (as : List α) : Clean (as.forM f) := by
  induction as with
  | nil => exact pure _
  | cons a as ih => exact (hf a).bind (hg a) fun _ => ih

theorem mapM (hf : ∀ a, Clean (f a)) (hg : ∀ a, Leads (Goes Anything) (f a)) (as : List α) :
    Clean (as.mapM f) := by
  induction as with
  | nil => exact pure _
  | cons a as ih =>
    rw [List.mapM_cons]
    exact (hf a).bind (hg a) fun _ => ih.bind (.mapM hg as) fun _ => pure _

theorem check {y : Except BuildError α} (h : Build.Clean y)
    (hf : ∀ a d, ∃ b d', f a d = .ok b d') : Clean (BuildM.ofExcept y >>= f) := by
  intro d issued hc e d' he
  cases y with
  | ok a =>
    obtain ⟨b, s, hb⟩ := hf a d
    rw [show (BuildM.ofExcept (.ok a) >>= f) d = f a d from rfl, hb] at he
    cases he
  | error err =>
    cases he
    exact h e rfl

end Clean

theorem clean_defineType (name : String) (attrs : TypeAttributes) (base : Option Nat)
    (interfaces : List Nat) : Clean (defineType name attrs base interfaces) := by
  refine .get_bind fun d => .check ?_ fun _ _ => ⟨_, _, rfl⟩
  refine d.clean_ensureOpen.bind fun _ => (clean_requireName _ _).bind fun _ => ?_
  refine (d.clean_ensureNewTypeName _).bind fun _ => ?_
  have hinterfaces := Build.Clean.forM d.clean_checkInterface interfaces
  cases base with
  | none => exact hinterfaces
  | some b => exact (d.clean_checkBase _ _ _).bind fun _ => hinterfaces

theorem clean_defineEnum (name : String) : Clean (defineEnum name) := by
  refine .get_bind fun d => .check ?_ fun _ _ => ⟨_, _, rfl⟩
  refine d.clean_ensureOpen.bind fun _ => (clean_requireName _ _).bind fun _ => ?_
  exact d.clean_ensureNewTypeName _

theorem clean_defineEnumMember (enum : Nat) (name : String) (value : Int32) :
    Clean (defineEnumMember enum name value) := by
  refine .get_bind fun d => .bind (.ofExcept (Draft.clean_find _ _ _)) (.of_state (final_ofExcept _))
    fun e => .check ?_ fun _ _ => ⟨_, _, rfl⟩
  refine d.clean_ensureOpen.bind fun _ => (clean_requireName _ _).bind fun _ => ?_
  exact .ite (.error rfl) (.ok _)

theorem clean_defineField (type : Nat) (name : String) (ty : StaticType) (attrs : FieldAttributes) :
    Clean (defineField type name ty attrs) := by
  refine .get_bind fun d => .check ?_ fun _ _ => ⟨_, _, rfl⟩
  refine (d.clean_openType _).bind fun t => (clean_requireName _ _).bind fun _ => ?_
  exact (clean_requireStorable _ _ _).bind fun _ => .guard rfl (d.clean_ensureUnique _ _ _)

theorem clean_defineMethod (type : Nat) (name : String) (attrs : MethodAttributes)
    (returnType : StaticType) (params : List Parameter) :
    Clean (defineMethod type name attrs returnType params) := by
  refine .get_bind fun d => .check ?_ fun _ _ => ⟨_, _, rfl⟩
  refine (d.clean_openType _).bind fun t => (clean_requireName _ _).bind fun _ => ?_
  refine .guard rfl (.guard rfl ((Draft.clean_checkParamsAfter _ _).bind fun _ => ?_))
  refine (Draft.clean_methodAttributes _ _ _).bind fun _ => ?_
  refine (d.clean_ensureUnique _ _ _).bind fun _ => ?_
  exact (d.clean_ensureNewSignature _ _ _ _).bind fun _ => .ok _

theorem clean_defineConstructor (type : Nat) (attrs : MethodAttributes) (params : List Parameter) :
    Clean (defineConstructor type attrs params) := by
  refine .get_bind fun d => .check ?_ fun _ _ => ⟨_, _, rfl⟩
  refine (d.clean_openType _).bind fun t => .guard rfl (.guard rfl ?_)
  exact (Draft.clean_checkParamsAfter _ _).bind fun _ => d.clean_ensureNewSignature _ _ _ _

theorem clean_defineProperty (type : Nat) (name : String) (ty : StaticType)
    (getter setter : Option Nat) : Clean (defineProperty type name ty getter setter) := by
  refine .get_bind fun d => .check ?_ fun _ _ => ⟨_, _, rfl⟩
  refine (d.clean_openType _).bind fun t => (clean_requireName _ _).bind fun _ => ?_
  refine (clean_requireStorable _ _ _).bind fun _ => (d.clean_ensureUnique _ _ _).bind fun _ => ?_
  have hsetter := d.clean_setter type t name ty setter
  refine .guard rfl ?_
  cases getter with
  | none => exact hsetter
  | some m =>
    refine (d.clean_accessor _ _ _ _).bind fun _ => ?_
    exact (Draft.clean_checkGetter _ _ _).bind fun _ => hsetter

theorem clean_setEntryPoint (m : Nat) : Clean (setEntryPoint m) := by
  refine .get_bind fun d => .check ?_ fun _ _ => ⟨_, _, rfl⟩
  refine d.clean_ensureOpen.bind fun _ => (Draft.clean_find _ _ _).bind fun _ => ?_
  exact .ite (.error rfl) (.ok _)

theorem Clean.recording {m : Nat} {op : MethodDef → BuildM α}
    (h : ∀ d issued t, Course Anything d issued → d.methods[m]? = some t → t.ensureOpen = .ok () →
      ∀ e d', op t d = .error e d' → e.isEmitterFault = false) : Clean (recording m op) := by
  intro d issued hc e d' he
  obtain hread | ⟨t, s, hread, he⟩ := bind_eq_error.mp he
  · exact Clean.reading (fun d => Draft.clean_find _ d.methods m) d issued hc e d' hread
  obtain ⟨hfound, rfl⟩ := reading_eq_ok.mp hread
  obtain hcheck | ⟨u, s, hcheck, he⟩ := bind_eq_error.mp he
  · exact Clean.ofExcept t.clean_ensureOpen d issued hc e d' hcheck
  obtain ⟨hopen, rfl⟩ := ofExcept_eq_ok.mp hcheck
  cases hop : op t d with
  | ok a s =>
    simp only [hop] at he
    cases he
  | error err s =>
    simp only [hop] at he
    cases he
    exact h d issued t hc (Draft.method_eq_ok.mp hfound) hopen e s hop

end BuildM

theorem Edit.clean_perform (m : Nat) (edit : Edit) : BuildM.Clean (edit.perform m) := by
  obtain ⟨α, g, op, hperform, -⟩ := edit.exists_agrees m
  rw [hperform]
  refine (BuildM.Clean.recording fun d issued t hc hfound hopen e s hop => ?_).map g
  have hfail : edit.perform m d = .error e (s.modifyMethod m ({ · with state := .aborted })) := by
    rw [hperform]
    refine map_eq_error.mpr ?_
    rw [BuildM.recording_eq hfound hopen, hop]
  have hhistory := (hc.settled hfound (.refl _)).history (MethodDef.state_of_ensureOpen hopen).1
  obtain ⟨err, n, hresolve, -, hn⟩ | ⟨c, blocks, n, -, -, ⟨err, hcheck, hn⟩ | ⟨-, o, -, hn⟩⟩ :=
    edit.perform_cases hhistory hfound hopen
  · rw [hfail] at hn
    obtain ⟨rfl, -⟩ := EStateM.Result.error.inj hn
    exact edit.clean_resolve hhistory.balanced.sane.isOpen d m e hresolve
  · rw [hfail] at hn
    obtain ⟨rfl, -⟩ := EStateM.Result.error.inj hn
    exact c.clean_check e hcheck
  · rw [hfail] at hn
    cases hn

namespace BuildM

theorem clean_bump (m : Nat) (op : Arithmetic) (target : Variable) : Clean (bump m op target) := by
  intro d issued hc e d' he
  have hadd := (Edit.arithmetic op target (.constant (.i32 1))).clean_perform m
  obtain he | ⟨next, s, hnext, he⟩ := bind_eq_error.mp he
  · exact hadd d issued hc e d' (map_eq_error.mpr he)
  have hperform : (Edit.arithmetic op target (.constant (.i32 1))).perform m d = .ok (some next) s :=
    map_eq_ok.mpr ⟨next, hnext, rfl⟩
  have hcourse := (hc.perform_ok (fun _ _ => trivial) hperform).course
  obtain he | ⟨u, s', hassign, he⟩ := bind_eq_error.mp he
  · exact (Edit.assign target next).clean_perform m s _ hcourse e d' (map_eq_error.mpr he)
  · cases he

theorem clean_callNamed (m : Nat) (receiver : Variable) (name : String) (args : List Variable) :
    Clean (callNamed m receiver name args) := by
  intro d issued hc e d' he
  obtain he | ⟨method, hcall⟩ := callNamed_eq_error he
  · refine Clean.recording (fun d issued t hc hfound hopen => ?_) d issued hc e d' he
    exact Clean.reading (fun d => d.clean_methodNamed receiver name args) d issued hc
  · exact (Edit.call method (some receiver) args).clean_perform m d issued hc e d' hcall

theorem clean_finalize (m : Nat) : Clean (finalize m) := by
  intro d issued hc e d' he
  by_cases h : ∃ t, d.methods[m]? = some t ∧ t.state = .open ∧ t.blocks = []
  · obtain ⟨t, hfound, hstate, hblocks⟩ := h
    have hf := ((hc.settled hfound (.refl _)).history hstate).finalize_eq hblocks
    rw [finalize_of_open hfound hstate hblocks hf] at he
    cases he
  obtain hread | ⟨t, s, hread, he⟩ := bind_eq_error.mp he
  · exact Clean.reading (fun d => Draft.clean_find _ d.methods m) d issued hc e d' hread
  obtain ⟨hfound, rfl⟩ := reading_eq_ok.mp hread
  cases hstate : t.state with
  | finished body =>
    simp only [hstate] at he
    cases he
  | aborted =>
    simp only [hstate] at he
    cases he
    rfl
  | «open» =>
    cases hblocks : t.blocks with
    | cons b blocks =>
      simp only [hstate, hblocks] at he
      cases he
      rfl
    | nil => exact absurd ⟨t, Draft.method_eq_ok.mp hfound, hstate, hblocks⟩ h

theorem clean_createTypeBelow (bound id : Nat) : Clean (createTypeBelow bound id) := by
  induction bound generalizing id with
  | zero => exact .throw rfl
  | succ bound ih =>
    refine .bind (.reading fun d => Draft.clean_find _ _ _) (.of_state (final_reading _)) fun t => ?_
    cases t.created with
    | some c => exact .pure c
    | none =>
      have hdependencies := Clean.forM (fun i => (ih i).map fun _ => PUnit.unit)
        (fun i => (goes_createTypeBelow bound i).map _) (t.base.toList ++ t.interfaces)
      refine .guard rfl (hdependencies.bind (.forM (fun i => (goes_createTypeBelow bound i).map _) _)
        fun _ => ?_)
      refine (Clean.forM clean_finalize goes_finalize _).bind (.forM goes_finalize _) fun _ => ?_
      exact fun d issued hc e d' he => nomatch he

theorem clean_createType (id : Nat) : Clean (createType id) :=
  .get_bind fun _ => clean_createTypeBelow _ id

theorem clean_assemble : Clean assemble := by
  refine .get_bind fun d => .guard rfl (.guard rfl (.bind ?_ (fun d => .declare (.enums _)) fun _ => ?_))
  · exact fun d issued hc e d' he => nomatch he
  refine .bind (.mapM clean_createType goes_createType _) (.mapM goes_createType _) fun _ => ?_
  refine .get_bind fun d => .bind (.ofExcept (.mapM MethodDef.clean_toFunction _))
    (.of_state (final_ofExcept _)) fun _ => .pure _

theorem exists_synthesize {d : Draft} {m : Nat} {t : MethodDef} {issued : List (Nat × Variable)}
    (hc : Course Anything d issued) (hfound : d.methods[m]? = some t) (hstate : t.state = .open)
    (hnew : t.commands = #[]) {id : Nat} {f : FieldDef} {code : List (Instr Label)}
    (hcode : Accessor id f t code) : ∃ d', synthesize m code d = .ok () d' := by
  obtain ⟨-, hf⟩ :=
    ((hc.settled hfound (.refl _)).history hstate).closed_accessor hnew hcode
  have hwrite := writing_emitting hfound (code.forM EmitM.emit >>= fun _ => EmitM.finish)
  rw [hf] at hwrite
  exact ⟨_, bind_of_ok hwrite⟩

theorem clean_generateProperty (type : Nat) (name : String) (ty : StaticType) :
    Clean (generateProperty type name ty) := by
  intro d issued hc e d' he
  obtain he | ⟨field, d₁, hfield, he⟩ := bind_eq_error.mp he
  · exact clean_defineField _ _ _ _ d issued hc e d' he
  have hc₁ := ((goes_defineField _ _ _ _).of_ok hfield).course issued hc
  obtain he | ⟨getter, d₂, hgetter, he⟩ := bind_eq_error.mp he
  · exact clean_defineMethod _ _ _ _ _ d₁ issued hc₁ e d' he
  have hc₂ := ((goes_defineMethod _ _ _ _ _).of_ok hgetter).course issued hc₁
  obtain he | ⟨setter, d₃, hsetter, he⟩ := bind_eq_error.mp he
  · exact clean_defineMethod _ _ _ _ _ d₂ issued hc₂ e d' he
  have hc₃ := ((goes_defineMethod _ _ _ _ _).of_ok hsetter).course issued hc₂
  obtain ⟨f, attrs₁, attrs₂, hbacking, howner, hattrs, hne, hfound₁, hfound₂, hgets, hsets⟩ :=
    accessors_of_define hfield hgetter hsetter
  obtain ⟨d₄, hget⟩ := exists_synthesize hc₃ hfound₁ rfl rfl hgets
  rw [bind_of_ok hget] at he
  obtain ⟨body₁, e₁, he₁, rfl⟩ := synthesize_eq_ok hfound₁ hget
  rw [← Draft.found_edited_ne hne] at hfound₂
  have hc₄ := hc₃.synthesize hfound₁ ⟨rfl, rfl⟩ ⟨hbacking, howner, hattrs⟩ hgets he₁
  obtain ⟨d₅, hset⟩ := exists_synthesize hc₄ hfound₂ rfl rfl hsets
  rw [bind_of_ok hset] at he
  obtain ⟨body₂, e₂, he₂, rfl⟩ := synthesize_eq_ok hfound₂ hset
  have hc₅ := hc₄.synthesize hfound₂ ⟨rfl, rfl⟩ ⟨hbacking, howner, hattrs⟩ hsets he₂
  obtain he | ⟨property, d₆, hproperty, he⟩ := bind_eq_error.mp he
  · exact clean_defineProperty _ _ _ _ _ _ issued hc₅ e d' he
  · cases he

theorem clean_defineAutoProperty (type : Nat) (name : String) (ty : StaticType) :
    Clean (defineAutoProperty type name ty) := by
  intro d issued hc e d' he
  rw [defineAutoProperty, get_bind] at he
  obtain he | ⟨t, s, hcheck, he⟩ := bind_eq_error.mp he
  · refine Clean.ofExcept ?_ d issued hc e d' he
    refine (d.clean_openType _).bind fun t => (clean_requireName _ _).bind fun _ => ?_
    refine (clean_requireStorable _ _ _).bind fun _ => ?_
    exact (d.clean_ensureUnique _ _ _).bind fun _ => .ok t
  · obtain ⟨-, rfl⟩ := ofExcept_eq_ok.mp hcheck
    cases hg : generateProperty type name ty d with
    | ok id s' =>
      simp only [hg] at he
      cases he
    | error err s' =>
      simp only [hg] at he
      cases he
      exact clean_generateProperty type name ty d issued hc e s' hg

theorem clean_defineDefaultConstructor (type : Nat) (attrs : MethodAttributes) :
    Clean (defineDefaultConstructor type attrs) := by
  refine .get_bind fun d => .bind (.ofExcept ?_) (.of_state (final_ofExcept _)) fun chains => ?_
  · refine (d.clean_openType _).bind fun t => ?_
    split
    · exact .ok _
    · exact (Draft.clean_find _ _ _).bind fun _ => .guard rfl (.ok _)
  refine (clean_defineConstructor _ _ _).bind (goes_defineConstructor _ _ _) fun id => ?_
  cases chains with
  | false => exact .pure _
  | true =>
    refine .bind ?_ (goes_callBase id) fun _ => .pure _
    exact fun d issued hc e d' he =>
      (Edit.callBase []).clean_perform id d issued hc e d' (map_eq_error.mpr he)

end BuildM

open BuildM in
theorem Operation.clean_perform (op : Operation) : BuildM.Clean op.perform := by
  cases op with
  | defineType => exact (clean_defineType _ _ _ _).map _
  | defineEnum => exact (clean_defineEnum _).map _
  | defineEnumMember => exact (clean_defineEnumMember _ _ _).map _
  | defineField => exact (clean_defineField _ _ _ _).map _
  | defineMethod => exact (clean_defineMethod _ _ _ _ _).map _
  | defineConstructor => exact (clean_defineConstructor _ _ _).map _
  | defineDefaultConstructor => exact (clean_defineDefaultConstructor _ _).map _
  | defineProperty => exact (clean_defineProperty _ _ _ _ _).map _
  | defineAutoProperty => exact (clean_defineAutoProperty _ _ _).map _
  | setEntryPoint => exact (clean_setEntryPoint _).map _
  | look m l => exact (Clean.reading fun d => l.clean_find d m).map _
  | edit m e => exact (e.clean_perform m).map _
  | bump => exact (clean_bump _ _ _).map _
  | callNamed => exact (clean_callNamed _ _ _ _).map _
  | finalize => exact (clean_finalize _).map _
  | createType => exact (clean_createType _).map _

theorem ProjectM.clean_create {p p' : Project} {issued : List (Nat × Variable)}
    (hc : Course Anything p.draft issued) {e : BuildError} (h : create p = .error e p') :
    e.isEmitterFault = false := by
  obtain ⟨-, rfl | hassemble⟩ := create_eq_error h
  · rfl
  · exact BuildM.clean_assemble p.draft issued hc e _ hassemble

end Bytesmith.Build
