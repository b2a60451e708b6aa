import Bytesmith.Build.Create
import Bytesmith.Proofs.Resolution

namespace Bytesmith.Build

open Code Outcome

/-- A variable that can be asked for without changing anything. -/
inductive Lookup
  | this
  | param (index : Nat)
  | paramNamed (name : String)
  | field (name : String)
  | fieldOf (object : Variable) (name : String)
  | property (name : String)
  | propertyOf (object : Variable) (name : String)

namespace Lookup

def find (d : Draft) (m : Nat) : Lookup → Except BuildError Variable
  | .this => d.this m
  | .param index => d.param m index
  | .paramNamed name => d.paramNamed m name
  | .field name => d.field m name
  | .fieldOf object name => d.fieldOf m object name
  | .property name => d.property m name
  | .propertyOf object name => d.propertyOf m object name

def operands : Lookup → List Variable
  | .fieldOf object _ | .propertyOf object _ => [object]
  | _ => []

/-- What is found: a slot of the method, or a member of its type or of that of an object. -/
inductive Finds (d : Draft) (m : Nat) : Lookup → Variable → Prop
  | this {t : MethodDef} {ty : StaticType} (ht : d.methods[m]? = some t)
      (hstatic : t.attrs.isStatic = false) (hthis : d.this m = .ok (.slot m 0 "this" ty)) :
      Finds d m .this (.slot m 0 "this" ty)
  | param {l : Lookup} {v : Variable} (index : Nat) (hparam : d.param m index = .ok v) :
      Finds d m l v
  | shared {name owner : String} {t : MethodDef} {id : Nat} {f : FieldDef}
      (ht : d.methods[m]? = some t) (hf : d.fields[id]? = some f) :
      Finds d m (.field name) (.shared owner (Draft.fieldMember t id f))
  | field {name : String} {t : MethodDef} {id : Nat} {f : FieldDef} (ht : d.methods[m]? = some t)
      (hstatic : t.attrs.isStatic = false) (hfind : d.findField? t.owner name = some id)
      (hf : d.fields[id]? = some f) : Finds d m (.field name) (.own (Draft.fieldMember t id f))
  | fieldOf {object : Variable} {name : String} {t : MethodDef} {id : Nat} {f : FieldDef}
      (ht : d.methods[m]? = some t) (howned : d.ensureOwned m object = .ok ())
      (hf : d.fields[id]? = some f) :
      Finds d m (.fieldOf object name) (.of object (Draft.fieldMember t id f))
  | property {name : String} {t : MethodDef} {id : Nat} {p : PropertyDef}
      (ht : d.methods[m]? = some t) (hstatic : t.attrs.isStatic = false)
      (hfind : d.findProperty? t.owner name = some id) (hp : d.properties[id]? = some p) :
      Finds d m (.property name) (.own (Draft.propertyMember id p))
  | propertyOf {object : Variable} {name : String} {type id : Nat} {p : PropertyDef}
      (howned : d.ensureOwned m object = .ok ()) (hty : object.ty.classId? = some type)
      (hfind : d.findProperty? type name = some id) (hp : d.properties[id]? = some p) :
      Finds d m (.propertyOf object name) (.of object (Draft.propertyMember id p))

theorem finds {d : Draft} {m : Nat} {l : Lookup} {v : Variable} (hl : l.find d m = .ok v) :
    l.Finds d m v := by
  cases l with
  | this =>
    have hthis := hl
    obtain ⟨t, ht, hl⟩ := except_bind_eq_ok.mp hl
    obtain ⟨hstatic, hl⟩ := except_guard_eq_ok.mp hl
    obtain ⟨ty, -, hl⟩ := except_bind_eq_ok.mp hl
    cases hl
    exact .this (Draft.method_eq_ok.mp ht) (Bool.eq_false_iff.mpr hstatic) hthis
  | param index => exact .param index hl
  | paramNamed name =>
    obtain ⟨t, -, hl⟩ := except_bind_eq_ok.mp hl
    split at hl
    · exact .param _ hl
    · cases hl
  | field name =>
    obtain ⟨t, ht, hl⟩ := except_bind_eq_ok.mp hl
    rw [Draft.method_eq_ok] at ht
    split at hl
    · cases hl
    · rename_i id hfind
      obtain ⟨f, hf, hl⟩ := except_bind_eq_ok.mp hl
      rw [Draft.fieldDef, Draft.find_eq_ok] at hf
      split at hl
      · obtain ⟨owner, -, hl⟩ := except_bind_eq_ok.mp hl
        cases hl
        exact .shared ht hf
      · obtain ⟨hstatic, hl⟩ := except_guard_eq_ok.mp hl
        cases hl
        exact .field ht (Bool.eq_false_iff.mpr hstatic) hfind hf
  | fieldOf object name =>
    obtain ⟨t, ht, hl⟩ := except_bind_eq_ok.mp hl
    obtain ⟨_, howned, hl⟩ := except_bind_eq_ok.mp hl
    split at hl
    · cases hl
    · split at hl
      · cases hl
      · obtain ⟨f, hf, hl⟩ := except_bind_eq_ok.mp hl
        obtain ⟨-, hl⟩ := except_guard_eq_ok.mp hl
        cases hl
        exact .fieldOf (Draft.method_eq_ok.mp ht) howned (Draft.find_eq_ok.mp hf)
  | property name =>
    obtain ⟨t, ht, hl⟩ := except_bind_eq_ok.mp hl
    obtain ⟨hstatic, hl⟩ := except_guard_eq_ok.mp hl
    split at hl
    · cases hl
    · rename_i id hfind
      obtain ⟨p, hp, hl⟩ := except_bind_eq_ok.mp hl
      cases hl
      exact .property (Draft.method_eq_ok.mp ht) (Bool.eq_false_iff.mpr hstatic) hfind
        (Draft.find_eq_ok.mp hp)
  | propertyOf object name =>
    obtain ⟨_, howned, hl⟩ := except_bind_eq_ok.mp hl
    split at hl
    · cases hl
    · rename_i type hty
      split at hl
      · cases hl
      · rename_i id hfind
        obtain ⟨p, hp, hl⟩ := except_bind_eq_ok.mp hl
        cases hl
        exact .propertyOf howned hty hfind (Draft.find_eq_ok.mp hp)

end Lookup

inductive Accessor (id : Nat) (f : FieldDef) : MethodDef → List (Instr Label) → Prop
  | getter {t : MethodDef} (hstatic : t.attrs.isStatic = false) (hparams : t.params = [])
      (hreturn : t.returnType = f.ty) :
      Accessor id f t [.loadLocal 0, .loadField id.toUInt32, .ret]
  | setter {t : MethodDef} {value : Parameter} (hstatic : t.attrs.isStatic = false)
      (hreturn : t.returnType = .void) (hparams : t.params = [value]) (hvalue : value.ty = f.ty) :
      Accessor id f t [.loadLocal 0, .loadLocal 1, .storeField id.toUInt32, .retVoid]

def Draft.addMethod (d : Draft) (t : MethodDef) : Draft := { d with methods := d.methods.push t }

def Draft.TakesMembers (d : Draft) (type : Nat) : Prop :=
  ∃ t, d.types[type]? = some t ∧ t.created = none

/-- A declaration: a change to a draft that touches no body that is there. -/
inductive Declares (d : Draft) : Draft → Prop
  | type (entry : TypeDef) (hfresh : entry.fields = [] ∧ entry.properties = [] ∧
      entry.methods = [] ∧ entry.constructors = []) (hcreated : entry.created = none)
      (hbases : ∀ b ∈ entry.interfaces ++ entry.base.toList, b < d.types.size) :
      Declares d { d with types := d.types.push entry }
  | enums (enums : Array EnumDef) : Declares d { d with enums := enums }
  | field (entry : FieldDef) (htype : d.TakesMembers entry.owner)
      (hty : entry.ty.isStorable = true) :
      Declares d ({ d with fields := d.fields.push entry }.modifyType entry.owner
        fun t => { t with fields := t.fields ++ [d.fields.size] })
  | method (type : Nat) (name : String) (attrs : MethodAttributes) (returnType : StaticType)
      (params : List Parameter) (htype : d.TakesMembers type) (hreturn : returnType ≠ .null)
      (hparams : ∀ p ∈ params, p.ty.isStorable = true)
      (hattrs : attrs.isAbstract = true → attrs.isStatic = false) :
      Declares d ((d.addMethod (.start type name attrs returnType params false)).modifyType type
        fun t => { t with methods := t.methods ++ [d.methods.size] })
  | constructor (type : Nat) (attrs : MethodAttributes) (params : List Parameter)
      (htype : d.TakesMembers type) (hparams : ∀ p ∈ params, p.ty.isStorable = true)
      (hstatic : attrs.isStatic = false) :
      Declares d ((d.addMethod (.start type constructorName attrs .void params true)).modifyType
        type fun t => { t with constructors := t.constructors ++ [d.methods.size] })
  | property (entry : PropertyDef) (htype : d.TakesMembers entry.owner)
      (hty : entry.ty.isStorable = true)
      (hgetter : ∀ g, entry.getter = some g → ∃ t, d.methods[g]? = some t ∧
        t.owner = entry.owner ∧ t.attrs.isStatic = false ∧ t.params = [] ∧ t.returnType = entry.ty)
      (hsetter : ∀ s, entry.setter = some s → ∃ t, d.methods[s]? = some t ∧
        t.owner = entry.owner ∧ t.attrs.isStatic = false ∧ t.returnType.isVoid = true ∧
          ∃ value, t.params = [value] ∧ value.ty = entry.ty) :
      Declares d ({ d with properties := d.properties.push entry }.modifyType entry.owner
        fun t => { t with properties := t.properties ++ [d.properties.size] })
  | backing (id field : Nat) : Declares d
      { d with properties := d.properties.modify id ({ · with backing := some field }) }
  | entryPoint (m : Nat) : Declares d { d with entryPoint := some m }
  | classOf (id : Nat) (t : TypeDef) (hfound : d.types[id]? = some t) :
      Declares d (d.modifyType id ({ · with created := some (d.toClass t) }))

/-- How a draft comes to be, with the variables that its methods have given out, the latest first.
Operands are those that are allowed when the operation is carried out. -/
inductive Course (Allowed : List (Nat × Variable) → Nat → Variable → Prop) :
    Draft → List (Nat × Variable) → Prop
  | start (name : String) (options : Options) : Course Allowed (.empty name options) []
  | declare {d d' : Draft} {issued : List (Nat × Variable)} (h : Course Allowed d issued)
      (hd : Declares d d') : Course Allowed d' issued
  | look {d : Draft} {issued : List (Nat × Variable)} {m : Nat} {v : Variable}
      (h : Course Allowed d issued) (l : Lookup) (ho : ∀ o ∈ l.operands, Allowed issued m o)
      (hl : l.find d m = .ok v) : Course Allowed d ((m, v) :: issued)
  | edit {d d' : Draft} {issued : List (Nat × Variable)} {m : Nat} {t t' : MethodDef}
      {c : Command} (h : Course Allowed d issued) (e : Edit)
      (ho : ∀ o ∈ e.operands, Allowed issued m o) (hs : e.Stands d m t c)
      (he : Edited m c t t' d d') : Course Allowed d' (c.result?.toList.map (m, ·) ++ issued)
  | abort {d d' : Draft} {issued : List (Nat × Variable)} {m : Nat} (h : Course Allowed d issued)
      (ha : BuildM.Aborts m d d') : Course Allowed d' issued
  | finish {d : Draft} {issued : List (Nat × Variable)} {m : Nat} {t : MethodDef} {body : Body}
      {e : Emitter} (h : Course Allowed d issued) (hfound : d.methods[m]? = some t)
      (hopen : t.state = .open) (hblocks : t.blocks = [])
      (hf : t.finalize t.emitter = .ok body e) :
      Course Allowed (d.edited m { t with emitter := e, state := .finished body } d.constants
        d.nameCount) issued
  /-- An accessor is generated for a field that has no attributes. -/
  | synthesize {d : Draft} {issued : List (Nat × Variable)} {m id : Nat} {t : MethodDef}
      {f : FieldDef} {code : List (Instr Label)} {body : Body} {e : Emitter}
      (h : Course Allowed d issued) (hfound : d.methods[m]? = some t)
      (hnew : t.state = .open ∧ t.commands = #[])
      (hfield : d.fields[id]? = some f ∧ f.owner = t.owner ∧ f.attrs = {})
      (hcode : Accessor id f t code)
      (hf : (code.forM EmitM.emit >>= fun _ => EmitM.finish) t.emitter = .ok body e) :
      Course Allowed (d.edited m
        { t with isSynthesized := true, emitter := e, state := .finished body } d.constants
        d.nameCount) issued
  | create {d : Draft} {issued : List (Nat × Variable)} (h : Course Allowed d issued)
      (module : Module) : Course Allowed { d with created := some module } issued

/-- A body that is being written: it has taken one command after the other. -/
inductive History (q : Pool) (m : Nat) : MethodDef → Prop
  | start (owner : Nat) (name : String) (attrs : MethodAttributes) (returnType : StaticType)
      (params : List Parameter) (isConstructor : Bool) :
      History q m (.start owner name attrs returnType params isConstructor)
  | take {t t' : MethodDef} {c : Command} (h : History q m t) (ht : Takes q m c t t') :
      History q m t'

inductive Settled (fields : Array FieldDef) (q : Pool) (m : Nat) : MethodDef → Prop
  | writing {t : MethodDef} (h : History q m t) : Settled fields q m t
  | aborted {t : MethodDef} (h : t.state = .aborted) : Settled fields q m t
  | finished {t : MethodDef} {body : Body} {e : Emitter} (h : History q m t)
      (hblocks : t.blocks = []) (hf : t.finalize t.emitter = .ok body e) :
      Settled fields q m { t with emitter := e, state := .finished body }
  | synthesized {id : Nat} {t : MethodDef} {f : FieldDef} {code : List (Instr Label)} {body : Body}
      {e : Emitter} (h : History q m t) (hnew : t.commands = #[])
      (hfield : fields[id]? = some f ∧ f.attrs = {}) (hcode : Accessor id f t code)
      (hf : (code.forM EmitM.emit >>= fun _ => EmitM.finish) t.emitter = .ok body e) :
      Settled fields q m { t with isSynthesized := true, emitter := e, state := .finished body }

variable {fields : Array FieldDef} {q : Pool} {m : Nat} {t t' : MethodDef} {d d' : Draft}

theorem MethodDef.state_of_ensureOpen (h : t.ensureOpen = .ok ()) :
    t.state = .open ∧ t.attrs.isAbstract = false := by
  unfold ensureOpen at h
  cases hs : t.state with
  | «open» =>
    simp only [hs] at h
    cases ha : t.attrs.isAbstract with
    | false => exact ⟨rfl, rfl⟩
    | true =>
      rw [ha] at h
      cases h
  | aborted | finished =>
    simp only [hs] at h
    cases h

theorem Settled.history (h : Settled fields q m t) (hopen : t.state = .open) : History q m t := by
  cases h with
  | writing h => exact h
  | aborted h =>
    rw [h] at hopen
    cases hopen
  | finished | synthesized => cases hopen

theorem Settled.mono {fields' : Array FieldDef} (h : Settled fields q m t)
    (hfields : ∀ (id : Nat) f, fields[id]? = some f → fields'[id]? = some f) :
    Settled fields' q m t := by
  cases h with
  | writing h => exact .writing h
  | aborted h => exact .aborted h
  | finished h hblocks hf => exact .finished h hblocks hf
  | synthesized h hnew hfield hcode hf =>
    exact .synthesized h hnew ⟨hfields _ _ hfield.1, hfield.2⟩ hcode hf

theorem Declares.found_field (h : Declares d d') (id : Nat) (f : FieldDef)
    (hf : d.fields[id]? = some f) : d'.fields[id]? = some f := by
  cases h with
  | field => exact getElem?_push_of_some hf
  | _ => exact hf

theorem Declares.found (h : Declares d d') {i : Nat} (ht : d'.methods[i]? = some t) :
    d.methods[i]? = some t ∨ i = d.methods.size ∧
      ∃ owner name attrs returnType params isConstructor,
        t = .start owner name attrs returnType params isConstructor := by
  cases h with
  | method | constructor =>
    obtain hold | ⟨hi, rfl⟩ := getElem?_push_cases ht
    · exact .inl hold
    · exact .inr ⟨hi, _, _, _, _, _, _, rfl⟩
  | _ => exact .inl ht

theorem Declares.constants_eq (h : Declares d d') : d'.constants = d.constants := by
  cases h <;> rfl

theorem Declares.created_eq (h : Declares d d') : d'.created = d.created := by
  cases h <;> rfl

theorem Draft.edited_cases {k : Pool} {n i : Nat} (h : (d.edited m t k n).methods[i]? = some t') :
    i = m ∧ t' = t ∨ i ≠ m ∧ d.methods[i]? = some t' := by
  rw [edited, Array.getElem?_setIfInBounds] at h
  by_cases hi : m = i
  · rw [if_pos hi] at h
    split at h
    · exact .inl ⟨hi.symm, (Option.some.inj h).symm⟩
    · cases h
  · rw [if_neg hi] at h
    exact .inr ⟨Ne.symm hi, h⟩

theorem Course.settled {Allowed : List (Nat × Variable) → Nat → Variable → Prop}
    {issued : List (Nat × Variable)} (h : Course Allowed d issued) {i : Nat}
    (ht : d.methods[i]? = some t) (hq : q.Extends d.constants) : Settled d.fields q i t := by
  induction h generalizing i t with
  | start name options => cases ht
  | declare h hd ih =>
    rw [hd.constants_eq] at hq
    obtain hold | ⟨-, owner, name, attrs, returnType, params, isConstructor, rfl⟩ := hd.found ht
    · exact (ih hold hq).mono hd.found_field
    · exact .writing (.start owner name attrs returnType params isConstructor)
  | look _ _ _ _ ih | create _ _ ih => exact ih ht hq
  | edit h e ho hs he ih =>
    obtain ⟨n, heq⟩ := he.eq
    have hfields := congrArg Draft.fields heq
    rw [heq] at ht
    rw [hfields]
    obtain ⟨rfl, rfl⟩ | ⟨-, hold⟩ := Draft.edited_cases ht
    · have htakes := he.takes q hq
      have hopen := (MethodDef.state_of_ensureOpen htakes.isOpen).1
      exact .writing (.take ((ih he.found (hq.trans he.grows)).history hopen) htakes)
    · exact ih hold (hq.trans he.grows)
  | @abort d d' issued m h ha ih =>
    obtain rfl | ⟨htouches, -, -, -, t', hfound, haborted, -⟩ := ha
    · exact ih ht hq
    · by_cases hi : i = m
      · subst hi
        rw [hfound] at ht
        cases ht
        exact .aborted haborted
      · rw [htouches.others i hi] at ht
        rw [htouches.rest]
        exact ih ht (hq.trans htouches.grows)
  | finish h hfound hopen hblocks hf ih =>
    obtain ⟨rfl, rfl⟩ | ⟨-, hold⟩ := Draft.edited_cases ht
    · exact .finished ((ih hfound hq).history hopen) hblocks hf
    · exact ih hold hq
  | synthesize h hfound hnew hfield hcode hf ih =>
    obtain ⟨rfl, rfl⟩ | ⟨-, hold⟩ := Draft.edited_cases ht
    · exact .synthesized ((ih hfound hq).history hnew.1) hnew.2 ⟨hfield.1, hfield.2.2⟩ hcode hf
    · exact ih hold hq

end Bytesmith.Build
