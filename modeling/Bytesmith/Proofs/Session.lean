import Bytesmith.Proofs.Composites

namespace Bytesmith.Build

open Code Outcome

inductive Operation
  | defineType (name : String) (attrs : TypeAttributes) (base : Option Nat) (interfaces : List Nat)
  | defineEnum (name : String)
  | defineEnumMember (enum : Nat) (name : String) (value : Int32)
  | defineField (type : Nat) (name : String) (ty : StaticType) (attrs : FieldAttributes)
  | defineMethod (type : Nat) (name : String) (attrs : MethodAttributes) (returnType : StaticType)
      (params : List Parameter)
  | defineConstructor (type : Nat) (attrs : MethodAttributes) (params : List Parameter)
  | defineDefaultConstructor (type : Nat) (attrs : MethodAttributes)
  | defineProperty (type : Nat) (name : String) (ty : StaticType) (getter setter : Option Nat)
  | defineAutoProperty (type : Nat) (name : String) (ty : StaticType)
  | setEntryPoint (m : Nat)
  | look (m : Nat) (l : Lookup)
  | edit (m : Nat) (e : Edit)
  | bump (m : Nat) (op : Arithmetic) (target : Variable)
  | callNamed (m : Nat) (receiver : Variable) (name : String) (args : List Variable)
  | finalize (m : Nat)
  | createType (id : Nat)

namespace Operation

def perform : Operation → BuildM (List (Nat × Variable))
  | .defineType name attrs base interfaces =>
    (fun _ => []) <$> BuildM.defineType name attrs base interfaces
  | .defineEnum name => (fun _ => []) <$> BuildM.defineEnum name
  | .defineEnumMember enum name value =>
    (fun _ => []) <$> BuildM.defineEnumMember enum name value
  | .defineField type name ty attrs => (fun _ => []) <$> BuildM.defineField type name ty attrs
  | .defineMethod type name attrs returnType params =>
    (fun _ => []) <$> BuildM.defineMethod type name attrs returnType params
  | .defineConstructor type attrs params =>
    (fun _ => []) <$> BuildM.defineConstructor type attrs params
  | .defineDefaultConstructor type attrs =>
    (fun _ => []) <$> BuildM.defineDefaultConstructor type attrs
  | .defineProperty type name ty getter setter =>
    (fun _ => []) <$> BuildM.defineProperty type name ty getter setter
  | .defineAutoProperty type name ty => (fun _ => []) <$> BuildM.defineAutoProperty type name ty
  | .setEntryPoint m => (fun _ => []) <$> BuildM.setEntryPoint m
  | .look m l => (fun v => [(m, v)]) <$> BuildM.reading (l.find · m)
  | .edit m e => (fun r => r.toList.map (m, ·)) <$> e.perform m
  | .bump m op target => (fun v => [(m, v)]) <$> BuildM.bump m op target
  | .callNamed m receiver name args =>
    (fun r => r.toList.map (m, ·)) <$> BuildM.callNamed m receiver name args
  | .finalize m => (fun _ => []) <$> BuildM.finalize m
  | .createType id => (fun _ => []) <$> BuildM.createType id

def operands : Operation → List (Nat × Variable)
  | .look m l => l.operands.map (m, ·)
  | .edit m e => e.operands.map (m, ·)
  | .bump m _ target => [(m, target)]
  | .callNamed m receiver _ args => (receiver :: args).map (m, ·)
  | _ => []

end Operation

/-- The variables that a method may use: constants, and what was given out for it. -/
def Own (issued : List (Nat × Variable)) (m : Nat) (v : Variable) : Prop :=
  (∃ value, v = .constant value) ∨ (m, v) ∈ issued

/-- A module that is built by operations, whether they succeed or fail, and the variables that
they gave. The operands of each operation are those allowed at the time. -/
inductive Session (Allowed : List (Nat × Variable) → Nat → Variable → Prop) :
    Project → List (Nat × Variable) → Prop
  | start (name : String) (options : Options) (disk : Disk) :
      Session Allowed ⟨.empty name options, disk⟩ []
  | done {p : Project} {issued given : List (Nat × Variable)} {d : Draft}
      (h : Session Allowed p issued) (op : Operation)
      (ho : ∀ o ∈ op.operands, Allowed issued o.1 o.2) (hop : op.perform p.draft = .ok given d) :
      Session Allowed { p with draft := d } (given ++ issued)
  | failed {p : Project} {issued : List (Nat × Variable)} {d : Draft} {e : BuildError}
      (h : Session Allowed p issued) (op : Operation)
      (ho : ∀ o ∈ op.operands, Allowed issued o.1 o.2) (hop : op.perform p.draft = .error e d) :
      Session Allowed { p with draft := d } issued
  | created {p p' : Project} {issued : List (Nat × Variable)} {m : Module}
      (h : Session Allowed p issued) (hc : ProjectM.create p = .ok m p') :
      Session Allowed p' issued
  | uncreated {p p' : Project} {issued : List (Nat × Variable)} {e : BuildError}
      (h : Session Allowed p issued) (hc : ProjectM.create p = .error e p') :
      Session Allowed p' issued

instance : LawfulBEq (Nat × Variable) := inferInstance

instance (issued : List (Nat × Variable)) (m : Nat) (v : Variable) : Decidable (Own issued m v) :=
  decidable_of_iff ((match v with
    | .constant _ => true
    | _ => false) = true ∨ (m, v) ∈ issued) <| by
    cases v <;> simp [Own]

def carryOut? (Allowed : List (Nat × Variable) → Nat → Variable → Prop)
    [∀ issued m v, Decidable (Allowed issued m v)] :
    List Operation → Project → List (Nat × Variable) → Option (Project × List (Nat × Variable))
  | [], p, issued => some (p, issued)
  | op :: ops, p, issued =>
    if ∀ o ∈ op.operands, Allowed issued o.1 o.2 then
      match op.perform p.draft with
      | .ok given d => carryOut? Allowed ops { p with draft := d } (given ++ issued)
      | .error _ _ => none
    else none

variable {issued' : List (Nat × Variable)} {d' : Draft}

theorem Session.of_carryOut? {Allowed : List (Nat × Variable) → Nat → Variable → Prop}
    [∀ issued m v, Decidable (Allowed issued m v)] {ops : List Operation} {p p' : Project}
    {issued : List (Nat × Variable)} (h : Session Allowed p issued)
    (hops : carryOut? Allowed ops p issued = some (p', issued')) : Session Allowed p' issued' := by
  induction ops generalizing p issued with
  | nil =>
    cases hops
    exact h
  | cons op ops ih =>
    unfold carryOut? at hops
    split at hops
    · rename_i ho
      split at hops
      · rename_i given d hop
        exact ih (h.done op ho hop) hops
      · cases hops
    · cases hops

def Project.creates (p : Project) (check : Module → Project → Bool) : Bool :=
  match ProjectM.create p with
  | .ok m p' => check m p'
  | .error _ _ => false

theorem Project.exists_of_creates {p : Project} {check : Module → Project → Bool}
    (h : p.creates check = true) : ∃ m p', ProjectM.create p = .ok m p' ∧ check m p' = true := by
  unfold creates at h
  split at h
  · rename_i m p' hcreate
    exact ⟨m, p', hcreate, h⟩
  · cases h

/-- The operations are allowed and succeed, and have led to the project. -/
def Builds (Allowed : List (Nat × Variable) → Nat → Variable → Prop)
    [∀ issued m v, Decidable (Allowed issued m v)] (name : String) (ops : List Operation)
    (p : Project) (issued : List (Nat × Variable)) : Prop :=
  carryOut? Allowed ops ⟨.empty name {}, .empty⟩ [] = some (p, issued)

theorem Builds.session {Allowed : List (Nat × Variable) → Nat → Variable → Prop}
    [∀ issued m v, Decidable (Allowed issued m v)] {name : String} {ops : List Operation}
    {p : Project} {issued : List (Nat × Variable)} (h : Builds Allowed name ops p issued) :
    Session Allowed p issued :=
  (Session.start _ _ _).of_carryOut? h

section

variable (Allowed : List (Nat × Variable) → Nat → Variable → Prop)
  [∀ issued m v, Decidable (Allowed issued m v)] (name : String) (ops : List Operation)

theorem Builds.exists_of_any (check : Project → List (Nat × Variable) → Bool)
    (h : (carryOut? Allowed ops ⟨.empty name {}, .empty⟩ []).any (fun r => check r.1 r.2) = true) :
    ∃ p issued, Builds Allowed name ops p issued ∧ check p issued = true := by
  obtain ⟨⟨p, issued⟩, hp, hcheck⟩ := (Option.any_eq_true ..).mp h
  exact ⟨p, issued, hp, hcheck⟩

theorem Builds.exists_created (check : Project → Module → Project → Bool)
    (h : (carryOut? Allowed ops ⟨.empty name {}, .empty⟩ []).any (fun r => r.1.creates (check r.1)) =
      true) :
    ∃ p issued m p', Builds Allowed name ops p issued ∧ ProjectM.create p = .ok m p' ∧
      check p m p' = true := by
  obtain ⟨p, issued, hp, hcreates⟩ := exists_of_any _ name ops (fun p _ => p.creates (check p)) h
  obtain ⟨m, p', hcreate, hchecked⟩ := Project.exists_of_creates hcreates
  exact ⟨p, issued, m, p', hp, hcreate, hchecked⟩

end

/-- Whatever course led to the first draft leads on to the second, which has grown but is not
created. -/
structure Goes (Allowed : List (Nat × Variable) → Nat → Variable → Prop) (d d' : Draft) : Prop where
  course : ∀ issued, Course Allowed d issued → Course Allowed d' issued
  created : d'.created = d.created
  grows : d.Grows d'

variable {Allowed : List (Nat × Variable) → Nat → Variable → Prop}

instance : Std.Refl (Goes Allowed) := ⟨fun d => ⟨fun _ h => h, rfl, .refl d⟩⟩

theorem Goes.trans {d d'' : Draft} (h : Goes Allowed d d') (h' : Goes Allowed d' d'') :
    Goes Allowed d d'' :=
  ⟨fun issued hc => h'.course issued (h.course issued hc), h'.created.trans h.created,
    h.grows.trans h'.grows⟩

instance : Trans (Goes Allowed) (Goes Allowed) (Goes Allowed) := ⟨Goes.trans⟩

theorem Goes.declare {d : Draft} (h : Declares d d') : Goes Allowed d d' :=
  ⟨fun _ hc => .declare hc h, h.created_eq, h.grows⟩

namespace BuildM

open Draft

variable {d d' : Draft}

variable {id type m : Nat} {t : TypeDef} {name property : String} {attrs attrs' : MethodAttributes}
  {u : Unit} {ty returnType : StaticType} {params : List Parameter}

theorem lt_size_of_type (h : d.type id = .ok t) : id < d.types.size :=
  (Array.getElem?_eq_some_iff.mp (type_eq_ok.mp h)).1

theorem lt_size_of_checkBases {attrs : TypeAttributes} {base : Option Nat} {interfaces : List Nat}
    (h : (do
      if let some b := base then d.checkBase name attrs b
      interfaces.forM d.checkInterface : Except BuildError Unit) = .ok u) :
    ∀ b ∈ interfaces ++ base.toList, b < d.types.size := by
  have hinterfaces (h : interfaces.forM d.checkInterface = .ok u) :
      ∀ i ∈ interfaces, i < d.types.size := by
    intro i hi
    obtain ⟨t, ht, -⟩ := except_bind_eq_ok.mp (except_forM_eq_ok h i hi)
    exact lt_size_of_type ht
  cases base with
  | none =>
    rw [Option.toList_none, List.append_nil]
    exact hinterfaces h
  | some b =>
    obtain ⟨_, hbase, h⟩ := except_bind_eq_ok.mp h
    obtain ⟨t, ht, -⟩ := except_bind_eq_ok.mp hbase
    intro i hi
    obtain hi | hi := List.mem_append.mp hi
    · exact hinterfaces h i hi
    · rw [Option.mem_toList.mp hi |> Option.some.inj |>.symm]
      exact lt_size_of_type ht

theorem goes_defineType (name : String) (attrs : TypeAttributes) (base : Option Nat)
    (interfaces : List Nat) : Leads (Goes Allowed) (defineType name attrs base interfaces) := by
  intro d
  rw [defineType, get_bind]
  refine related_check fun _ hcheck => .declare (.type _ ⟨rfl, rfl, rfl, rfl⟩ rfl ?_)
  obtain ⟨_, -, hcheck⟩ := except_bind_eq_ok.mp hcheck
  obtain ⟨_, -, hcheck⟩ := except_bind_eq_ok.mp hcheck
  obtain ⟨_, -, hcheck⟩ := except_bind_eq_ok.mp hcheck
  exact lt_size_of_checkBases hcheck

theorem goes_defineEnum (name : String) : Leads (Goes Allowed) (defineEnum name) := by
  intro d
  rw [defineEnum, get_bind]
  exact related_check fun _ _ => .declare (.enums _)

theorem goes_defineEnumMember (enum : Nat) (name : String) (value : Int32) :
    Leads (Goes Allowed) (defineEnumMember enum name value) := by
  intro d
  rw [defineEnumMember, get_bind]
  exact related_check fun _ _ => related_check fun _ _ => .declare (.enums _)

theorem goes_setEntryPoint (m : Nat) : Leads (Goes Allowed) (setEntryPoint m) := by
  intro d
  rw [setEntryPoint, get_bind]
  exact related_check fun _ _ => .declare (.entryPoint m)

theorem takesMembers_of_openType (h : d.openType type = .ok t) : d.TakesMembers type := by
  obtain ⟨ht, -, hcreated⟩ := openType_eq_ok.mp h
  exact ⟨t, ht, hcreated⟩

theorem goes_defineField (type : Nat) (name : String) (ty : StaticType) (attrs : FieldAttributes) :
    Leads (Goes Allowed) (defineField type name ty attrs) := by
  intro d
  rw [defineField, get_bind]
  refine related_check fun _ hcheck => ?_
  obtain ⟨t, htype, hcheck⟩ := except_bind_eq_ok.mp hcheck
  obtain ⟨_, -, hcheck⟩ := except_bind_eq_ok.mp hcheck
  obtain ⟨_, hstorable, -⟩ := except_bind_eq_ok.mp hcheck
  exact .declare (.field ⟨type, name, ty, attrs⟩ (takesMembers_of_openType htype)
    (requireStorable_eq_ok.mp hstorable))

theorem defineField_eq_ok {attrs : FieldAttributes}
    (h : defineField type name ty attrs d = .ok id d') :
    d'.fields[id]? = some ⟨type, name, ty, attrs⟩ := by
  rw [defineField, get_bind] at h
  obtain ⟨_, -, h⟩ := ofExcept_bind_eq_ok.mp h
  cases h
  exact Array.getElem?_push_size

theorem requireName_eq_ok {kind : MemberKind} : requireName kind name = .ok u ↔
    Text.isBlankText name = false := by
  unfold requireName
  cases Text.isBlankText name <;> simp

theorem contains_insert {s x : String} {names : NameTree} :
    (names.insert s).contains x = false ↔ x ≠ s ∧ names.contains x = false := by
  induction names with
  | empty =>
    have hsame (hle : ¬ x < s) (hge : ¬ s < x) : x = s :=
      String.le_antisymm (String.not_lt.mp hge) (String.not_lt.mp hle)
    have hirrefl := String.lt_irrefl s
    simp only [NameTree.insert, NameTree.contains]
    grind
  | node smaller name larger ihs ihl =>
    rw [NameTree.insert]
    by_cases hs : s < name
    · rw [if_pos hs, NameTree.contains, NameTree.contains]
      grind
    · rw [if_neg hs, NameTree.contains, NameTree.contains]
      grind

theorem checkParams_eq_ok : checkParams params = .ok u ↔
    (params.map (·.name)).Nodup ∧ ∀ p ∈ params,
      Text.isBlankText p.name = false ∧ p.ty.isStorable = true ∧ p.name ≠ "this" := by
  have hafter (before : NameTree) : checkParamsAfter before params = .ok u ↔
      (params.map (·.name)).Nodup ∧ ∀ p ∈ params, (Text.isBlankText p.name = false ∧
        p.ty.isStorable = true ∧ p.name ≠ "this") ∧ before.contains p.name = false := by
    induction params generalizing before with
    | nil => simp [checkParamsAfter]
    | cons p params ih =>
      rw [checkParamsAfter, except_bind_eq_ok]
      simp only [requireName_eq_ok, except_bind_eq_ok, requireStorable_eq_ok, except_guard_eq_ok,
        ih, exists_const, contains_insert, List.map_cons, List.nodup_cons, List.forall_mem_cons,
        Bool.not_eq_true, Bool.or_eq_false_iff, beq_eq_false_iff_ne, List.mem_map, not_exists,
        not_and]
      grind
  rw [checkParams, hafter]
  simp [NameTree.contains]

theorem isStorable_of_checkParams (h : checkParams params = .ok u) :
    ∀ p ∈ params, p.ty.isStorable = true := fun p hp => ((checkParams_eq_ok.mp h).2 p hp).2.1

theorem checkMethod_eq_ok
    (h : (do
      let t ← d.openType type
      requireName .method name
      if name == constructorName then throw (.invalidArgument .constructorName)
      if returnType = .null then throw (.invalidArgument (.nullReturn name))
      checkParams params
      let attrs ← methodAttributes t name attrs
      d.ensureUnique t name true
      d.ensureNewSignature t t.methods name params
      return attrs : Except BuildError MethodAttributes) = .ok attrs') :
    returnType ≠ .null ∧ checkParams params = .ok () ∧ ∃ t, d.openType type = .ok t ∧
      methodAttributes t name attrs = .ok attrs' ∧ d.ensureUnique t name true = .ok () ∧
        d.ensureNewSignature t t.methods name params = .ok () := by
  obtain ⟨t, htype, h⟩ := except_bind_eq_ok.mp h
  obtain ⟨_, -, h⟩ := except_bind_eq_ok.mp h
  obtain ⟨-, h⟩ := except_guard_eq_ok.mp h
  obtain ⟨hreturn, h⟩ := except_guard_eq_ok.mp h
  obtain ⟨_, hparams, h⟩ := except_bind_eq_ok.mp h
  obtain ⟨attrs'', hattrs, h⟩ := except_bind_eq_ok.mp h
  obtain ⟨_, hunique, h⟩ := except_bind_eq_ok.mp h
  obtain ⟨_, hnew, h⟩ := except_bind_eq_ok.mp h
  cases h
  exact ⟨hreturn, hparams, t, htype, hattrs, hunique, hnew⟩

theorem methodAttributes_isAbstract (h : methodAttributes t name attrs = .ok attrs')
    (habstract : attrs'.isAbstract = true) : attrs'.isStatic = false := by
  unfold methodAttributes at h
  split at h
  · obtain ⟨hstatic, h⟩ := except_guard_eq_ok.mp h
    cases h
    exact Bool.eq_false_iff.mpr hstatic
  · obtain ⟨-, h⟩ := except_guard_eq_ok.mp h
    obtain ⟨hstatic, h⟩ := except_guard_eq_ok.mp h
    cases h
    rw [habstract, Bool.true_and] at hstatic
    exact Bool.eq_false_iff.mpr hstatic

theorem goes_defineMethod (type : Nat) (name : String) (attrs : MethodAttributes)
    (returnType : StaticType) (params : List Parameter) :
    Leads (Goes Allowed) (defineMethod type name attrs returnType params) := by
  intro d
  rw [defineMethod, get_bind]
  refine related_check fun attrs hcheck => ?_
  obtain ⟨hreturn, hparams, t, htype, hattrs, -⟩ := checkMethod_eq_ok hcheck
  exact .declare (.method type name attrs returnType params (takesMembers_of_openType htype) hreturn
    (isStorable_of_checkParams hparams) (methodAttributes_isAbstract hattrs))

theorem methodAttributes_isStatic (h : methodAttributes t name attrs = .ok attrs') :
    attrs'.isStatic = attrs.isStatic := by
  unfold methodAttributes at h
  split at h
  · obtain ⟨-, h⟩ := except_guard_eq_ok.mp h
    cases h
    rfl
  · obtain ⟨-, h⟩ := except_guard_eq_ok.mp h
    obtain ⟨-, h⟩ := except_guard_eq_ok.mp h
    cases h
    rfl

theorem defineMethod_eq_ok (h : defineMethod type name attrs returnType params d = .ok id d') :
    id = d.methods.size ∧ d'.fields = d.fields ∧ ∃ attrs', attrs'.isStatic = attrs.isStatic ∧
      d'.methods = d.methods.push (.start type name attrs' returnType params false) := by
  rw [defineMethod, get_bind] at h
  obtain ⟨attrs', hcheck, h⟩ := ofExcept_bind_eq_ok.mp h
  cases h
  obtain ⟨-, -, t, -, hattrs, -⟩ := checkMethod_eq_ok hcheck
  exact ⟨rfl, rfl, attrs', methodAttributes_isStatic hattrs, rfl⟩

theorem goes_defineConstructor (type : Nat) (attrs : MethodAttributes) (params : List Parameter) :
    Leads (Goes Allowed) (defineConstructor type attrs params) := by
  intro d
  rw [defineConstructor, get_bind]
  refine related_check fun _ hcheck => ?_
  obtain ⟨t, htype, hcheck⟩ := except_bind_eq_ok.mp hcheck
  obtain ⟨-, hcheck⟩ := except_guard_eq_ok.mp hcheck
  obtain ⟨hattrs, hcheck⟩ := except_guard_eq_ok.mp hcheck
  obtain ⟨_, hparams, -⟩ := except_bind_eq_ok.mp hcheck
  rw [Bool.or_eq_true, not_or, Bool.not_eq_true] at hattrs
  exact .declare (.constructor type attrs params (takesMembers_of_openType htype)
    (isStorable_of_checkParams hparams) hattrs.1)

theorem accessor_eq_ok {target : MethodDef} (h : d.accessor type t property m = .ok target) :
    d.methods[m]? = some target ∧ target.owner = type ∧ target.attrs.isStatic = false ∧
      target.isConstructor = false := by
  obtain ⟨target', hfound, h⟩ := except_bind_eq_ok.mp h
  obtain ⟨hfit, h⟩ := except_guard_eq_ok.mp h
  cases h
  simp only [Bool.or_eq_true, not_or, Bool.not_eq_true, decide_eq_false_iff_not] at hfit
  exact ⟨method_eq_ok.mp hfound, Decidable.not_not.mp hfit.1.1, hfit.2, hfit.1.2⟩

theorem checkGetter_eq_ok {getter : MethodDef} (h : checkGetter property ty getter = .ok u) :
    getter.params = [] ∧ getter.returnType = ty := by
  obtain ⟨hparams, h⟩ := except_guard_eq_ok.mp h
  refine ⟨by simpa using hparams, ?_⟩
  by_cases hr : getter.returnType = ty
  · exact hr
  · rw [if_pos hr] at h
    cases h

theorem checkSetter_eq_ok {setter : MethodDef} (h : checkSetter property ty setter = .ok u) :
    setter.returnType.isVoid = true ∧ ∃ value, setter.params = [value] ∧ value.ty = ty := by
  unfold checkSetter at h
  match hparams : setter.params with
  | [value] =>
    simp only [hparams] at h
    obtain ⟨hty, h⟩ := except_guard_eq_ok.mp h
    refine ⟨?_, value, rfl, Decidable.not_not.mp hty⟩
    cases hr : setter.returnType.isVoid with
    | true => rfl
    | false =>
      rw [hr] at h
      cases h
  | [] | _ :: _ :: _ =>
    simp only [hparams] at h
    cases h

theorem checkAccessors_eq_ok {getter setter : Option Nat} (h : (do
      if let some m := getter then checkGetter name ty (← d.accessor type t name m)
      if let some m := setter then checkSetter name ty (← d.accessor type t name m) :
        Except BuildError Unit) = .ok u) :
    (∀ g, getter = some g → ∃ e, d.methods[g]? = some e ∧ e.owner = type ∧
      e.attrs.isStatic = false ∧ e.isConstructor = false ∧ e.params = [] ∧ e.returnType = ty) ∧
    ∀ s, setter = some s → ∃ e, d.methods[s]? = some e ∧ e.owner = type ∧
      e.attrs.isStatic = false ∧ e.isConstructor = false ∧ e.returnType.isVoid = true ∧
        ∃ value, e.params = [value] ∧ value.ty = ty := by
  have hset (h : (match setter with
      | some m => d.accessor type t name m >>= fun s => checkSetter name ty s
      | _ => pure ()) = Except.ok u) (s : Nat) (hs : setter = some s) :
      ∃ e, d.methods[s]? = some e ∧ e.owner = type ∧ e.attrs.isStatic = false ∧
        e.isConstructor = false ∧ e.returnType.isVoid = true ∧
          ∃ value, e.params = [value] ∧ value.ty = ty := by
    subst hs
    obtain ⟨e, he, h⟩ := except_bind_eq_ok.mp h
    obtain ⟨hfound, howner, hstatic, hkind⟩ := accessor_eq_ok he
    exact ⟨e, hfound, howner, hstatic, hkind, checkSetter_eq_ok h⟩
  cases getter with
  | none =>
    refine ⟨fun g hg => ?_, hset h⟩
    cases hg
  | some g =>
    obtain ⟨e, he, h⟩ := except_bind_eq_ok.mp h
    obtain ⟨_, hget, h⟩ := except_bind_eq_ok.mp h
    refine ⟨fun g' hg => ?_, hset h⟩
    cases hg
    obtain ⟨hfound, howner, hstatic, hkind⟩ := accessor_eq_ok he
    exact ⟨e, hfound, howner, hstatic, hkind, checkGetter_eq_ok hget⟩

theorem goes_defineProperty (type : Nat) (name : String) (ty : StaticType)
    (getter setter : Option Nat) :
    Leads (Goes Allowed) (defineProperty type name ty getter setter) := by
  intro d
  rw [defineProperty, get_bind]
  refine related_check fun _ hcheck => ?_
  obtain ⟨t, htype, hcheck⟩ := except_bind_eq_ok.mp hcheck
  obtain ⟨_, -, hcheck⟩ := except_bind_eq_ok.mp hcheck
  obtain ⟨_, hstorable, hcheck⟩ := except_bind_eq_ok.mp hcheck
  obtain ⟨_, -, hcheck⟩ := except_bind_eq_ok.mp hcheck
  obtain ⟨-, hcheck⟩ := except_guard_eq_ok.mp hcheck
  obtain ⟨hget, hset⟩ := checkAccessors_eq_ok hcheck
  refine .declare (.property ⟨type, name, ty, getter, setter, none⟩
    (takesMembers_of_openType htype) (requireStorable_eq_ok.mp hstorable) (fun g hg => ?_)
      fun s hs => ?_)
  · obtain ⟨e, he, howner, hstatic, -, hfits⟩ := hget g hg
    exact ⟨e, he, howner, hstatic, hfits⟩
  · obtain ⟨e, he, howner, hstatic, -, hfits⟩ := hset s hs
    exact ⟨e, he, howner, hstatic, hfits⟩

theorem synthesize_eq_ok {t : MethodDef} {code : List (Instr Label)}
    (hfound : d.methods[m]? = some t) (h : synthesize m code d = .ok u d') :
    ∃ body e, (code.forM EmitM.emit >>= fun _ => EmitM.finish) t.emitter = .ok body e ∧
      d' = d.edited m { t with isSynthesized := true, emitter := e, state := .finished body }
        d.constants d.nameCount := by
  have hm := lt_size_of_found hfound
  obtain ⟨body, s, hw, h⟩ := bind_eq_ok.mp h
  rw [← edited_self hfound] at hw
  obtain ⟨o, hop, rfl⟩ := writing_edited_eq_ok hm hw
  obtain ⟨e, he, rfl⟩ := emitting_eq_ok hop
  refine ⟨body, e, he, ?_⟩
  have hd := modifyMethod_edited (t := { t with emitter := e }) (k := d.constants)
    (n := d.nameCount) hm ({ · with isSynthesized := true, state := .finished body })
  cases h
  exact hd

theorem accessors_of_define {field getter setter : Nat} {d₁ d₂ d₃ : Draft}
    (hfield : defineField type s!"<{name}>k__BackingField" ty {} d = .ok field d₁)
    (hgetter : defineMethod type s!"get_{name}" { isPublic := true } ty [] d₁ = .ok getter d₂)
    (hsetter : defineMethod type s!"set_{name}" { isPublic := true } .void [⟨"value", ty⟩] d₂ = .ok
      setter d₃) :
    ∃ f attrs₁ attrs₂, d₃.fields[field]? = some f ∧ f.owner = type ∧ f.attrs = {} ∧
      setter ≠ getter ∧
      d₃.methods[getter]? = some (.start type s!"get_{name}" attrs₁ ty [] false) ∧
      d₃.methods[setter]? = some (.start type s!"set_{name}" attrs₂ .void [⟨"value", ty⟩] false) ∧
      Accessor field f (.start type s!"get_{name}" attrs₁ ty [] false)
        [.loadLocal 0, .loadField field.toUInt32, .ret] ∧
      Accessor field f (.start type s!"set_{name}" attrs₂ .void [⟨"value", ty⟩] false)
        [.loadLocal 0, .loadLocal 1, .storeField field.toUInt32, .retVoid] := by
  obtain ⟨rfl, hfields₂, attrs₁, hstatic₁, hmethods₂⟩ := defineMethod_eq_ok hgetter
  obtain ⟨rfl, hfields₃, attrs₂, hstatic₂, hmethods₃⟩ := defineMethod_eq_ok hsetter
  have hbacking := defineField_eq_ok hfield
  rw [← hfields₂, ← hfields₃] at hbacking
  refine ⟨_, attrs₁, attrs₂, hbacking, rfl, rfl, ?_, ?_, ?_, .getter hstatic₁ rfl rfl,
    .setter hstatic₂ rfl rfl rfl⟩
  · rw [hmethods₂, Array.size_push]
    omega
  · rw [hmethods₃, hmethods₂, Array.getElem?_push, Array.size_push, if_neg (by omega),
      Array.getElem?_push_size]
  · rw [hmethods₃, Array.getElem?_push_size]

theorem goes_of_generateProperty (h : generateProperty type name ty d = .ok id d') :
    Goes Allowed d d' := by
  obtain ⟨field, d₁, hfield, h⟩ := bind_eq_ok.mp h
  obtain ⟨getter, d₂, hgetter, h⟩ := bind_eq_ok.mp h
  obtain ⟨setter, d₃, hsetter, h⟩ := bind_eq_ok.mp h
  obtain ⟨_, d₄, hget, h⟩ := bind_eq_ok.mp h
  obtain ⟨_, d₅, hset, h⟩ := bind_eq_ok.mp h
  obtain ⟨property, d₆, hproperty, h⟩ := bind_eq_ok.mp h
  cases h
  obtain ⟨f, attrs₁, attrs₂, hbacking, howner, hattrs, hne, hfound₁, hfound₂, hgets, hsets⟩ :=
    accessors_of_define hfield hgetter hsetter
  obtain ⟨body₁, e₁, he₁, rfl⟩ := synthesize_eq_ok hfound₁ hget
  rw [← found_edited_ne hne] at hfound₂
  obtain ⟨body₂, e₂, he₂, rfl⟩ := synthesize_eq_ok hfound₂ hset
  have h₁ : Goes Allowed d d₁ := (goes_defineField _ _ _ _).of_ok hfield
  have h₂ : Goes Allowed d d₂ := h₁.trans ((goes_defineMethod _ _ _ _ _).of_ok hgetter)
  have h₃ : Goes Allowed d d₃ := h₂.trans ((goes_defineMethod _ _ _ _ _).of_ok hsetter)
  have h₆ : Goes Allowed _ d₆ := (goes_defineProperty _ _ _ _ _).of_ok hproperty
  have hgrows : d₃.Grows d₆ := by
    refine Draft.Grows.trans ?_ h₆.grows
    refine Draft.Grows.trans (.ended hfound₁ ?_ ?_ ?_) (.ended hfound₂ ?_ ?_ ?_)
    all_goals rfl
  refine ⟨fun issued hc => ?_, h₆.created.trans h₃.created,
    (h₃.grows.trans hgrows).trans (Declares.backing id field).grows⟩
  have hc₄ := (h₃.course issued hc).synthesize hfound₁ ⟨rfl, rfl⟩ ⟨hbacking, howner, hattrs⟩
    hgets he₁
  have hc₅ := hc₄.synthesize hfound₂ ⟨rfl, rfl⟩ ⟨hbacking, howner, hattrs⟩ hsets he₂
  exact (h₆.course issued hc₅).declare (.backing id field)

theorem goes_defineAutoProperty (type : Nat) (name : String) (ty : StaticType) :
    Leads (Goes Allowed) (defineAutoProperty type name ty) := by
  intro d
  obtain ⟨e, he⟩ | ⟨id, d', hg, hd⟩ := defineAutoProperty_cases type name ty d
  · rw [he]
    exact Std.Refl.refl d
  · rw [hd]
    exact goes_of_generateProperty hg

theorem goes_callBase (m : Nat) : Leads (Goes Allowed) (callBase m []) := by
  intro d
  cases hb : callBase m [] d with
  | ok u d' =>
    have hperform : (Edit.callBase []).perform m d = .ok none d' := map_eq_ok.mpr ⟨u, hb, rfl⟩
    obtain ⟨t, t', c, hedited, hstands, hr, -⟩ := Edit.perform_done hperform
    refine ⟨fun issued hc => ?_, hedited.created_eq, hedited.draft_grows⟩
    have hcourse := hc.edit (.callBase []) (fun o ho => nomatch ho) hstands hedited
    rw [← hr] at hcourse
    exact hcourse
  | error e d' =>
    have hfails := (Edit.callBase []).fails_perform (m := m) d e d' (map_eq_error.mpr hb)
    exact ⟨fun issued hc => hc.abort hfails, hfails.created_eq, hfails.grows⟩

theorem goes_defineDefaultConstructor (type : Nat) (attrs : MethodAttributes) :
    Leads (Goes Allowed) (defineDefaultConstructor type attrs) := by
  refine .get_bind fun d => Leads.bind (.of_state (final_ofExcept _)) fun chains => ?_
  refine (goes_defineConstructor type attrs []).bind fun id => ?_
  cases chains with
  | true => exact (goes_callBase id).bind fun _ => .pure _
  | false => exact .pure _

theorem finalize_of_open {t : MethodDef} {body : Body} {e : Emitter}
    (hfound : d.methods[m]? = some t) (hopen : t.state = .open) (hblocks : t.blocks = [])
    (hf : t.finalize t.emitter = .ok body e) :
    finalize m d = .ok () (d.edited m { t with emitter := e, state := .finished body }
      d.constants d.nameCount) := by
  have hwrite := writing_emitting hfound t.finalize
  rw [hf] at hwrite
  refine (bind_of_ok (reading_eq_ok.mpr ⟨method_eq_ok.mpr hfound, rfl⟩)).trans ?_
  conv => lhs; simp only [hopen, hblocks]
  refine (bind_of_ok hwrite).trans ?_
  exact congrArg (EStateM.Result.ok ()) (modifyMethod_edited (lt_size_of_found hfound) _)

theorem leads_finalize (m : Nat) : Leads (Touches m) (finalize m) := by
  refine (leads_reading _).bind fun t => ?_
  cases t.state with
  | finished body => exact .pure _
  | aborted => exact .throw _
  | «open» =>
    cases t.blocks with
    | cons b blocks => exact .of_state fun _ => rfl
    | nil =>
      refine (leads_writing (CodeM.leads_emitting _)).bind fun body => ?_
      exact leads_modifyMethod fun _ => rfl

theorem finalize_of_error {t : MethodDef} {err : BuildError} {e : Emitter}
    (hfound : d.methods[m]? = some t) (hopen : t.state = .open) (hblocks : t.blocks = [])
    (hf : t.finalize t.emitter = .error err e) :
    finalize m d = .error err (d.edited m { t with emitter := e } d.constants d.nameCount) := by
  have hwrite := writing_emitting hfound t.finalize
  rw [hf] at hwrite
  refine (bind_of_ok (reading_eq_ok.mpr ⟨method_eq_ok.mpr hfound, rfl⟩)).trans ?_
  conv => lhs; simp only [hopen, hblocks]
  exact bind_of_error hwrite

theorem final_finalize_of_not (h : ¬ ∃ t, d.methods[m]? = some t ∧ t.state = .open ∧ t.blocks = []) :
    final (finalize m d) = d := by
  cases hfound : d.methods[m]? with
  | none =>
    have hread : reading (·.method m) d = .error (.unknownMember .method (handleText m)) d := by
      simp only [reading, get_bind, Draft.method, Draft.find, hfound]
      rfl
    rw [finalize, bind_of_error hread]
    rfl
  | some t =>
    rw [finalize, bind_of_ok (reading_eq_ok.mpr ⟨method_eq_ok.mpr hfound, rfl⟩)]
    cases hstate : t.state with
    | «open» =>
      cases hblocks : t.blocks with
      | nil => exact absurd ⟨t, hfound, hstate, hblocks⟩ h
      | cons b blocks => rfl
    | aborted | finished => rfl

theorem grows_finalize (m : Nat) : Leads Draft.Grows (finalize m) := by
  intro d
  by_cases h : ∃ t, d.methods[m]? = some t ∧ t.state = .open ∧ t.blocks = []
  · obtain ⟨t, hfound, hstate, hblocks⟩ := h
    cases hf : t.finalize t.emitter with
    | ok body e =>
      rw [finalize_of_open hfound hstate hblocks hf]
      exact .ended hfound hstate rfl rfl
    | error err e =>
      rw [finalize_of_error hfound hstate hblocks hf]
      exact .ended hfound hstate rfl rfl
  · rw [final_finalize_of_not h]
    exact .refl d

theorem goes_finalize (m : Nat) : Leads (Goes Allowed) (finalize m) := by
  refine fun d => ⟨fun issued hc => ?_, (leads_finalize m d).created_eq, grows_finalize m d⟩
  by_cases h : ∃ t, d.methods[m]? = some t ∧ t.state = .open ∧ t.blocks = []
  · obtain ⟨t, hfound, hstate, hblocks⟩ := h
    have hf := ((hc.settled hfound (.refl _)).history hstate).finalize_eq hblocks
    rw [finalize_of_open hfound hstate hblocks hf]
    exact hc.finish hfound hstate hblocks hf
  · rw [final_finalize_of_not h]
    exact hc

def Retypes (d d' : Draft) : Prop :=
  ∀ (i : Nat) (t : TypeDef), d.types[i]? = some t → ∃ c, d'.types[i]? = some { t with created := c }

instance : Std.Refl Retypes := ⟨fun _ _ t ht => ⟨t.created, ht⟩⟩

instance : Trans Retypes Retypes Retypes where
  trans h h' i t ht := by
    obtain ⟨c, hc⟩ := h i t ht
    obtain ⟨c', hc'⟩ := h' i _ hc
    exact ⟨c', hc'⟩

theorem retypes_finalize (m : Nat) : Leads Retypes (finalize m) := by
  refine (leads_finalize m).mono fun d d' h => ?_
  rw [h.rest]
  exact fun i t ht => ⟨t.created, ht⟩

theorem retypes_modifyType (id : Nat) (c : ClassEntry) :
    Retypes d (d.modifyType id ({ · with created := some c })) := by
  intro i t ht
  rw [modifyType, Array.getElem?_modify, ht]
  by_cases hi : id = i
  · rw [if_pos hi]
    exact ⟨some c, rfl⟩
  · rw [if_neg hi]
    exact ⟨t.created, rfl⟩

theorem retypes_createTypeBelow (bound id : Nat) : Leads Retypes (createTypeBelow bound id) :=
  leads_createTypeBelow retypes_finalize (fun _ => retypes_modifyType) bound id

theorem leads_createTypeBelow_of_class {R : Draft → Draft → Prop} [Std.Refl R] [Trans R R R]
    (hfinalize : ∀ m, Leads R (finalize m))
    (hclass : ∀ (d : Draft) (id : Nat) (t : TypeDef), d.types[id]? = some t →
      R d (d.modifyType id ({ · with created := some (d.toClass t) }))) (bound id : Nat) :
    Leads R (createTypeBelow bound id) := by
  induction bound generalizing id with
  | zero => exact .throw _
  | succ bound ih =>
    intro d
    refine related_bind (by rw [final_reading]; exact Std.Refl.refl d) fun t d₀ hread => ?_
    obtain ⟨hfound, rfl⟩ := reading_eq_ok.mp hread
    cases t.created with
    | some c => exact Std.Refl.refl d
    | none =>
      dsimp only
      split
      · exact Std.Refl.refl d
      · have hbases : Leads R ((t.base.toList ++ t.interfaces).forM fun i =>
          discard (createTypeBelow bound i)) := .forM (fun i => (ih i).map _) _
        have hbodies : Leads R ((t.constructors ++ t.methods).forM finalize) := .forM hfinalize _
        refine related_bind (hbases d) fun _ d₁ h₁ => related_bind (hbodies d₁) fun _ d₂ h₂ => ?_
        obtain ⟨c₁, ht₁⟩ := Leads.of_ok (.forM (fun i => (retypes_createTypeBelow _ i).map _) _) h₁
          id t (type_eq_ok.mp hfound)
        obtain ⟨c₂, ht₂⟩ := Leads.of_ok (.forM retypes_finalize _) h₂ id _ ht₁
        have hput := hclass d₂ id _ ht₂
        exact hput

theorem goes_createTypeBelow (bound id : Nat) : Leads (Goes Allowed) (createTypeBelow bound id) :=
  leads_createTypeBelow_of_class goes_finalize (fun _ id t ht => .declare (.classOf id t ht)) bound id

theorem goes_createType (id : Nat) : Leads (Goes Allowed) (createType id) :=
  .get_bind fun _ => goes_createTypeBelow _ id

end BuildM

/-- What is allowed stays allowed, and the number one and what was given out are. -/
class Fair (Allowed : List (Nat × Variable) → Nat → Variable → Prop) : Prop where
  one : ∀ issued m, Allowed issued m (.constant (.i32 1))
  given : ∀ issued m v, (m, v) ∈ issued → Allowed issued m v
  mono : ∀ issued issued' m v, (∀ x ∈ issued, x ∈ issued') → Allowed issued m v →
    Allowed issued' m v

instance : Fair fun _ _ _ => True := ⟨fun _ _ => trivial, fun _ _ _ _ => trivial,
  fun _ _ _ _ _ h => h⟩

instance : Fair Own where
  one _ _ := .inl ⟨.i32 1, rfl⟩
  given _ _ _ h := .inr h
  mono _ _ _ _ hsub h := h.imp id (hsub _)

/-- A course goes on after that of a draft, which grows but is not created. -/
structure Continues (Allowed : List (Nat × Variable) → Nat → Variable → Prop) (d d' : Draft)
    (issued issued' : List (Nat × Variable)) : Prop where
  course : Course Allowed d' issued'
  created : d'.created = d.created
  grows : d.Grows d'
  kept : ∀ x ∈ issued, x ∈ issued'

def Variable.isSlot : Variable → Bool
  | .slot _ _ _ _ => true
  | _ => false

/-- An operation that ended goes on with a course, in which everything it gave has been given, and
besides at most slots, of an operation that failed in the midst. -/
def Follows (Allowed : List (Nat × Variable) → Nat → Variable → Prop) (d : Draft)
    (issued : List (Nat × Variable))
    (r : EStateM.Result BuildError Draft (List (Nat × Variable))) : Prop :=
  ∃ issued', Continues Allowed d (final r) issued issued' ∧
    (∀ given d', r = .ok given d' → ∀ x ∈ given, x ∈ issued') ∧
    ∀ x ∈ issued', x ∈ issued ∨ x.2.isSlot = true ∨ ∃ given d', r = .ok given d' ∧ x ∈ given

variable {d : Draft} {issued : List (Nat × Variable)}

theorem Continues.trans {d'' : Draft} {issued issued'' : List (Nat × Variable)}
    (h : Continues Allowed d d' issued issued') (h' : Continues Allowed d' d'' issued' issued'') :
    Continues Allowed d d'' issued issued'' :=
  ⟨h'.course, h'.created.trans h.created, h.grows.trans h'.grows, fun x hx => h'.kept x (h.kept x hx)⟩

theorem Follows.of_goes {α : Type} {x : BuildM α} (h : Course Allowed d issued)
    (hx : Leads (Goes Allowed) x) :
    Follows Allowed d issued (((fun _ => []) <$> x : BuildM (List (Nat × Variable))) d) := by
  have hgoes := hx.map (fun _ => ([] : List (Nat × Variable))) d
  refine ⟨issued, ⟨hgoes.course issued h, hgoes.created, hgoes.grows, fun _ hx => hx⟩, ?_,
    fun _ hx => .inl hx⟩
  intro given d' hr v hv
  obtain ⟨a, -, rfl⟩ := map_eq_ok.mp hr
  cases hv

theorem Follows.of_cases {α : Type} {x : BuildM α} {g : α → List (Nat × Variable)}
    (hok : ∀ a d', x d = .ok a d' → ∃ issued', Continues Allowed d d' issued issued' ∧
      (∀ v ∈ g a, v ∈ issued') ∧ ∀ v ∈ issued', v ∈ issued ∨ v ∈ g a)
    (herror : ∀ e d', x d = .error e d' → ∃ issued', Continues Allowed d d' issued issued' ∧
      ∀ v ∈ issued', v ∈ issued ∨ v.2.isSlot = true) :
    Follows Allowed d issued ((g <$> x) d) := by
  cases hx : x d with
  | ok a d' =>
    obtain ⟨issued', hc, hgiven, hnew⟩ := hok a d' hx
    rw [map_eq_ok.mpr ⟨a, hx, rfl⟩]
    refine ⟨issued', hc, fun given s hr => ?_, fun v hv => ?_⟩
    · cases hr
      exact hgiven
    · exact (hnew v hv).imp_right fun hv => .inr ⟨g a, d', rfl, hv⟩
  | error e d' =>
    obtain ⟨issued', hc, hnew⟩ := herror e d' hx
    rw [map_eq_error.mpr hx]
    exact ⟨issued', hc, fun given s hr => (nomatch hr), fun v hv => (hnew v hv).imp_right .inl⟩

namespace Course

variable {d' : Draft} {m : Nat}

theorem perform_ok {e : Edit} {r : Option Variable} (h : Course Allowed d issued)
    (ho : ∀ o ∈ e.operands, Allowed issued m o) (he : e.perform m d = .ok r d') :
    Continues Allowed d d' issued (r.toList.map (m, ·) ++ issued) := by
  obtain ⟨t, t', c, hedited, hstands, rfl, -⟩ := Edit.perform_done he
  exact ⟨h.edit e ho hstands hedited, hedited.created_eq, hedited.draft_grows,
    fun _ => List.mem_append_right _⟩

theorem isSlot_of_perform {e : Edit} {v : Variable} (he : e.perform m d = .ok (some v) d') :
    v.isSlot = true := by
  obtain ⟨t, t', c, hedited, -, hr, -⟩ := Edit.perform_done he
  obtain ⟨-, name, ty, rfl⟩ := (hedited.takes _ (.refl _)).fresh.slot v hr.symm
  rfl

theorem perform_error {e : Edit} {err : BuildError} (h : Course Allowed d issued)
    (he : e.perform m d = .error err d') : Continues Allowed d d' issued issued := by
  have hfails := e.fails_perform d err d' he
  exact ⟨h.abort hfails, hfails.created_eq, hfails.grows, fun _ hx => hx⟩

theorem follows_bump [Fair Allowed] {op : Arithmetic} {target : Variable}
    (h : Course Allowed d issued) (ho : Allowed issued m target) :
    Follows Allowed d issued ((Operation.bump m op target).perform d) := by
  have hadd : ∀ o ∈ (Edit.arithmetic op target (.constant (.i32 1))).operands,
      Allowed issued m o := by
    intro o hmem
    obtain rfl | hmem := List.mem_cons.mp hmem
    · exact ho
    · rw [List.mem_singleton.mp hmem]
      exact Fair.one issued m
  have hassign (next : Variable) : ∀ o ∈ (Edit.assign target next).operands,
      Allowed ((m, next) :: issued) m o := by
    intro o hmem
    obtain rfl | hmem := List.mem_cons.mp hmem
    · exact Fair.mono issued _ m o (fun _ => .tail _) ho
    · rw [List.mem_singleton.mp hmem]
      exact Fair.given _ m next (.head _)
  refine .of_cases (fun v d' hb => ?_) fun e d' hb => ?_
  · obtain ⟨next, s, hnext, hb⟩ := bind_eq_ok.mp hb
    obtain ⟨u, s', hassigned, hb⟩ := bind_eq_ok.mp hb
    cases hb
    have hc := h.perform_ok hadd (map_eq_ok.mpr ⟨_, hnext, rfl⟩)
    have hc' := hc.course.perform_ok (hassign v) (map_eq_ok.mpr ⟨_, hassigned, rfl⟩)
    refine ⟨_, hc.trans hc', fun x hx => ?_, fun x hx => (List.mem_cons.mp hx).symm.imp_right ?_⟩
    · rw [List.mem_singleton.mp hx]
      exact .head _
    · exact List.mem_singleton.mpr
  · obtain hb | ⟨next, s, hnext, hb⟩ := bind_eq_error.mp hb
    · exact ⟨issued, h.perform_error (e := .arithmetic op target (.constant (.i32 1)))
        (map_eq_error.mpr hb), fun _ hx => .inl hx⟩
    · have hperform : (Edit.arithmetic op target (.constant (.i32 1))).perform m d =
          .ok (some next) s := map_eq_ok.mpr ⟨_, hnext, rfl⟩
      have hc := h.perform_ok hadd hperform
      obtain hb | ⟨u, s', -, hb⟩ := bind_eq_error.mp hb
      · refine ⟨_, hc.trans (hc.course.perform_error (e := .assign target next) (map_eq_error.mpr hb)),
          fun x hx => (List.mem_cons.mp hx).symm.imp_right ?_⟩
        rintro rfl
        exact isSlot_of_perform hperform
      · cases hb

theorem follows_callNamed {receiver : Variable} {name : String} {args : List Variable}
    (h : Course Allowed d issued) (ho : ∀ o ∈ receiver :: args, Allowed issued m o) :
    Follows Allowed d issued ((Operation.callNamed m receiver name args).perform d) := by
  refine .of_cases (fun r d' hb => ?_) fun e d' hb => ?_
  · obtain ⟨method, -, hcall⟩ := BuildM.callNamed_eq_ok hb
    exact ⟨_, h.perform_ok (e := .call method (some receiver) args) ho hcall,
      fun _ => List.mem_append_left _, fun _ hx => (List.mem_append.mp hx).symm⟩
  · obtain hb | ⟨method, hcall⟩ := BuildM.callNamed_eq_error hb
    · have hfails := BuildM.fails_recording d e d' hb
      exact ⟨issued, ⟨h.abort hfails, hfails.created_eq, hfails.grows, fun _ hx => hx⟩,
        fun _ hx => .inl hx⟩
    · exact ⟨issued, h.perform_error hcall, fun _ hx => .inl hx⟩

theorem follows [Fair Allowed] (h : Course Allowed d issued) (op : Operation)
    (ho : ∀ o ∈ op.operands, Allowed issued o.1 o.2) :
    Follows Allowed d issued (op.perform d) := by
  cases op with
  | defineType name attrs base interfaces => exact .of_goes h (BuildM.goes_defineType _ _ _ _)
  | defineEnum name => exact .of_goes h (BuildM.goes_defineEnum _)
  | defineEnumMember enum name value => exact .of_goes h (BuildM.goes_defineEnumMember _ _ _)
  | defineField type name ty attrs => exact .of_goes h (BuildM.goes_defineField _ _ _ _)
  | defineMethod type name attrs returnType params =>
    exact .of_goes h (BuildM.goes_defineMethod _ _ _ _ _)
  | defineConstructor type attrs params =>
    exact .of_goes h (BuildM.goes_defineConstructor _ _ _)
  | defineDefaultConstructor type attrs =>
    exact .of_goes h (BuildM.goes_defineDefaultConstructor _ _)
  | defineProperty type name ty getter setter =>
    exact .of_goes h (BuildM.goes_defineProperty _ _ _ _ _)
  | defineAutoProperty type name ty => exact .of_goes h (BuildM.goes_defineAutoProperty _ _ _)
  | setEntryPoint m => exact .of_goes h (BuildM.goes_setEntryPoint _)
  | look m l =>
    have hoperands : ∀ o ∈ l.operands, Allowed issued m o := fun o hmem =>
      ho (m, o) (List.mem_map_of_mem hmem)
    refine .of_cases (fun v d' hb => ?_) fun e d' hb => ?_
    · obtain ⟨hl, rfl⟩ := BuildM.reading_eq_ok.mp hb
      refine ⟨_, ⟨h.look l hoperands hl, rfl, .refl d, fun _ => .tail _⟩,
        fun x hx => ?_, fun x hx => (List.mem_cons.mp hx).symm.imp_right List.mem_singleton.mpr⟩
      rw [List.mem_singleton.mp hx]
      exact .head _
    · obtain rfl := BuildM.ofExcept_eq_error hb
      exact ⟨issued, ⟨h, rfl, .refl d, fun _ hx => hx⟩, fun _ hx => .inl hx⟩
  | edit m e =>
    have hoperands : ∀ o ∈ e.operands, Allowed issued m o := fun o hmem =>
      ho (m, o) (List.mem_map_of_mem hmem)
    refine .of_cases (fun r d' hb => ?_) fun err d' hb => ?_
    · exact ⟨_, h.perform_ok hoperands hb, fun _ => List.mem_append_left _,
        fun _ hx => (List.mem_append.mp hx).symm⟩
    · exact ⟨issued, h.perform_error hb, fun _ hx => .inl hx⟩
  | bump m op target => exact h.follows_bump (ho (m, target) (.head _))
  | callNamed m receiver name args =>
    exact h.follows_callNamed fun o hmem => ho (m, o) (List.mem_map_of_mem hmem)
  | finalize m => exact .of_goes h (BuildM.goes_finalize _)
  | createType id => exact .of_goes h (BuildM.goes_createType _)

end Course

theorem BuildM.goes_assemble : Leads (Goes Allowed) BuildM.assemble :=
  leads_assemble (fun _ => .declare (.enums _)) goes_createType

end Bytesmith.Build
