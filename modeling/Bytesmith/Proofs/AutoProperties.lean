import Bytesmith.Proofs.Closure
import Bytesmith.Proofs.Consistency

namespace Bytesmith.Build

open Code Outcome

section

variable {α β : Type} {table : Array α} {part : α → β} {ids : List Nat}

theorem gather_append (as : List α) (h : ∀ i ∈ ids, ∃ a, table[i]? = some a) :
    gather (table ++ as.toArray) part (ids ++ List.range' table.size as.length) =
      gather table part ids ++ as.map part := by
  induction as generalizing table ids with
  | nil => simp
  | cons a as ih =>
    have hids : ∀ i ∈ ids ++ [table.size], ∃ b, (table.push a)[i]? = some b := by
      intro i hi
      obtain hi | hi := List.mem_append.mp hi
      · obtain ⟨b, hb⟩ := h i hi
        exact ⟨b, getElem?_push_of_some hb⟩
      · rw [List.mem_singleton.mp hi]
        exact ⟨a, Array.getElem?_push_size⟩
    have hrest := ih hids
    rw [gather_push h, List.append_assoc, List.singleton_append, Array.size_push] at hrest
    have htable : table ++ (a :: as).toArray = table.push a ++ as.toArray := by
      rw [← Array.toList_inj]
      simp
    rw [htable, List.length_cons, List.range'_succ, hrest, List.append_assoc,
      List.singleton_append, List.map_cons]

end

namespace Draft

def extend (d : Draft) (type : Nat) (fields : List FieldDef) (methods : List MethodDef)
    (properties : List PropertyDef) : Draft :=
  { d with
    fields := d.fields ++ fields.toArray
    methods := d.methods ++ methods.toArray
    properties := d.properties ++ properties.toArray }.modifyType type fun t => t.extend
      (List.range' d.fields.size fields.length) (List.range' d.methods.size methods.length)
      (List.range' d.properties.size properties.length)

variable {d : Draft} {type : Nat} {t : TypeDef} {fields fields' : List FieldDef}
  {methods methods' : List MethodDef} {properties properties' : List PropertyDef}

theorem extend_extend : (d.extend type fields methods properties).extend type fields' methods'
    properties' = d.extend type (fields ++ fields') (methods ++ methods')
      (properties ++ properties') := by
  simp only [extend, modifyType, modify_modify, TypeDef.extend, List.append_assoc,
    Array.append_assoc, Array.size_append, List.size_toArray, List.length_append,
    List.append_toArray, List.range'_append_1]

theorem openType_extend (h : d.openType type = .ok t) :
    (d.extend type fields methods properties).openType type = .ok (t.extend
      (List.range' d.fields.size fields.length) (List.range' d.methods.size methods.length)
      (List.range' d.properties.size properties.length)) := by
  obtain ⟨hfound, hd, ht⟩ := openType_eq_ok.mp h
  refine openType_eq_ok.mpr ⟨?_, hd, ht⟩
  rw [extend, modifyType, Array.getElem?_modify, if_pos rfl, hfound]
  rfl

theorem mem_ownNames_extend (hl : d.Lists type t) {name : String} :
    name ∈ (d.extend type fields methods properties).ownNames (t.extend
        (List.range' d.fields.size fields.length) (List.range' d.methods.size methods.length)
        (List.range' d.properties.size properties.length)) ↔
      name ∈ d.ownNames t ∨ name ∈ fields.map (·.name) ∨ name ∈ properties.map (·.name) := by
  have hnames : (d.extend type fields methods properties).ownNames (t.extend
      (List.range' d.fields.size fields.length) (List.range' d.methods.size methods.length)
      (List.range' d.properties.size properties.length)) =
      gather d.fields (·.name) t.fields ++ fields.map (·.name) ++
        (gather d.properties (·.name) t.properties ++ properties.map (·.name)) := by
    rw [← gather_append fields hl.exists_field, ← gather_append properties hl.exists_property]
    rfl
  rw [hnames, ownNames]
  simp only [List.mem_append]
  tauto

theorem signatures_extend (hl : d.Lists type t) :
    (d.extend type fields methods properties).signatures
        (t.methods ++ List.range' d.methods.size methods.length) =
      d.signatures t.methods ++ methods.map fun e => (e.name, e.paramTypes) := by
  rw [signatures, signatures, ← gather_append methods hl.exists_method]
  rfl

end Draft

theorem ne_null_of_isStorable {ty : StaticType} (h : ty.isStorable = true) : ty ≠ .null := by
  rintro rfl
  cases h

theorem checkParams_value {ty : StaticType} (h : ty.isStorable = true) :
    Draft.checkParams [⟨"value", ty⟩] = .ok () := by
  have hname : requireName .parameter "value" = .ok () := by decide +kernel
  have hty : requireStorable .parameter "value" ty = .ok () := BuildM.requireStorable_eq_ok.mpr h
  simp only [Draft.checkParams, Draft.checkParamsAfter, hname, hty]
  rfl

namespace BuildM

open Draft

variable {d d' : Draft} {type id : Nat} {t : TypeDef} {name : String} {ty : StaticType}

theorem set_pure_eq_ok {α : Type} {a b : α} {s : Draft} :
    (set s >>= fun _ => pure a : BuildM α) d = .ok b d' ↔ b = a ∧ d' = s := by
  rw [set_bind]
  constructor
  · intro h
    cases h
    exact ⟨rfl, rfl⟩
  · rintro ⟨rfl, rfl⟩
    rfl

theorem defineField_eq_ok_iff (hopen : d.openType type = .ok t) {attrs : FieldAttributes} :
    defineField type name ty attrs d = .ok id d' ↔
      (Text.isBlankText name = false ∧ ty.isStorable = true ∧ t.attrs.isInterface = false ∧
        name ∉ d.ownNames t ∧ ∀ s ∈ d.signatures t.methods, s.1 ≠ name) ∧
      id = d.fields.size ∧ d' = d.extend type [⟨type, name, ty, attrs⟩] [] [] := by
  have hextend : ({ d with fields := d.fields.push ⟨type, name, ty, attrs⟩ }.modifyType type
      fun t => { t with fields := t.fields ++ [d.fields.size] }) =
        d.extend type [⟨type, name, ty, attrs⟩] [] [] := by
    simp [extend, modifyType, TypeDef.extend]
  rw [defineField, get_bind, ofExcept_bind_eq_ok]
  simp only [hopen, except_bind_eq_ok, except_guard_eq_ok, requireName_eq_ok,
    BuildM.requireStorable_eq_ok, ensureUnique_eq_ok, hextend, set_pure_eq_ok, Except.ok.injEq,
    exists_eq_left', exists_const, forall_const, Bool.not_eq_true]

theorem methodAttributes_of_class (ht : t.attrs.isInterface = false) {attrs : MethodAttributes} :
    methodAttributes t name { isPublic := true } = .ok attrs ↔ attrs = { isPublic := true } := by
  simp only [methodAttributes, ht]
  constructor
  · intro h
    cases h
    rfl
  · rintro rfl
    rfl

theorem defineMethod_eq_ok_iff (hopen : d.openType type = .ok t)
    (ht : t.attrs.isInterface = false) {params : List Parameter} :
    defineMethod type name { isPublic := true } ty params d = .ok id d' ↔
      (Text.isBlankText name = false ∧ name ≠ constructorName ∧ ty ≠ .null ∧
        checkParams params = .ok () ∧ name ∉ d.ownNames t ∧
        (name, params.map (·.ty)) ∉ d.signatures t.methods) ∧
      id = d.methods.size ∧
      d' = d.extend type [] [.start type name { isPublic := true } ty params false] [] := by
  have hextend (attrs : MethodAttributes) :
      ({ d with methods := d.methods.push (.start type name attrs ty params false) }.modifyType type
        fun t => { t with methods := t.methods ++ [d.methods.size] }) =
          d.extend type [] [.start type name attrs ty params false] [] := by
    simp [extend, modifyType, TypeDef.extend]
  rw [defineMethod, get_bind, ofExcept_bind_eq_ok]
  simp only [hopen, except_bind_eq_ok, except_guard_eq_ok, requireName_eq_ok,
    methodAttributes_of_class ht, ensureUnique_eq_ok, ensureNewSignature_eq_ok, hextend,
    set_pure_eq_ok, Except.ok.injEq, exists_eq_left', exists_const, beq_iff_eq]
  constructor
  · rintro ⟨attrs, ⟨hname, hne, hnull, _, hparams, _, rfl, ⟨hown, -⟩, hnew, hattrs⟩, hid, hd'⟩
    cases hattrs
    exact ⟨⟨hname, hne, hnull, hparams, hown, hnew⟩, hid, hd'⟩
  · rintro ⟨⟨hname, hne, hnull, hparams, hown, hnew⟩, hid, hd'⟩
    exact ⟨_, ⟨hname, hne, hnull, (), hparams, _, rfl, ⟨hown, fun h => absurd h (by decide)⟩, hnew,
      rfl⟩, hid, hd'⟩

theorem accessor_of_found {m : Nat} {e : MethodDef} (hfound : d.methods[m]? = some e)
    (howner : e.owner = type) (hkind : e.isConstructor = false)
    (hstatic : e.attrs.isStatic = false) : d.accessor type t name m = .ok e := by
  refine except_bind_eq_ok.mpr ⟨e, method_eq_ok.mpr hfound, except_guard_eq_ok.mpr ⟨?_, rfl⟩⟩
  simp [howner, hkind, hstatic]

theorem defineProperty_eq_ok_iff (hopen : d.openType type = .ok t) {getter setter : Nat}
    {g s : MethodDef} {value : Parameter} (hg : d.accessor type t name getter = .ok g)
    (hs : d.accessor type t name setter = .ok s) (hget : g.params = [])
    (hreturn : g.returnType = ty) (hset : s.params = [value]) (hvalue : value.ty = ty)
    (hvoid : s.returnType = .void) :
    defineProperty type name ty (some getter) (some setter) d = .ok id d' ↔
      (Text.isBlankText name = false ∧ ty.isStorable = true ∧ name ∉ d.ownNames t ∧
        ∀ s ∈ d.signatures t.methods, s.1 ≠ name) ∧
      id = d.properties.size ∧
      d' = d.extend type [] [] [⟨type, name, ty, some getter, some setter, none⟩] := by
  have hextend (e : PropertyDef) : ({ d with properties := d.properties.push e }.modifyType type
      fun t => { t with properties := t.properties ++ [d.properties.size] }) =
        d.extend type [] [] [e] := by
    simp [extend, modifyType, TypeDef.extend]
  have hgetter : checkGetter name ty g = .ok () := by
    simp [checkGetter, hget, hreturn]
    rfl
  have hsetter : checkSetter name ty s = .ok () := by
    simp [checkSetter, hset, hvalue, hvoid]
    rfl
  rw [defineProperty, get_bind, ofExcept_bind_eq_ok]
  simp only [hopen, except_bind_eq_ok, except_guard_eq_ok, requireName_eq_ok,
    BuildM.requireStorable_eq_ok, ensureUnique_eq_ok, hextend, set_pure_eq_ok, Except.ok.injEq,
    exists_eq_left', exists_const, forall_const, Bool.not_eq_true, hg, hs]
  constructor
  · rintro ⟨_, ⟨hname, hty, ⟨hown, hmethods⟩, -⟩, hid, hd'⟩
    exact ⟨⟨hname, hty, hown, hmethods⟩, hid, hd'⟩
  · rintro ⟨⟨hname, hty, hown, hmethods⟩, hid, hd'⟩
    exact ⟨(), ⟨hname, hty, ⟨hown, hmethods⟩, rfl, (), hgetter, hsetter⟩, hid, hd'⟩

end BuildM

def MethodDef.generate (t : MethodDef) (code : List (Instr Label)) : MethodDef :=
  { t with
    isSynthesized := true
    emitter := { t.emitter.append code with isFinished := true }
    state := .finished (t.emitter.append code).body }

def MethodDef.backedGetter (type field : Nat) (name : String) (ty : StaticType) : MethodDef :=
  (MethodDef.start type s!"get_{name}" { isPublic := true } ty [] false).generate
    [.loadLocal 0, .loadField field.toUInt32, .ret]

def MethodDef.backedSetter (type field : Nat) (name : String) (ty : StaticType) : MethodDef :=
  (MethodDef.start type s!"set_{name}" { isPublic := true } .void [⟨"value", ty⟩] false).generate
    [.loadLocal 0, .loadLocal 1, .storeField field.toUInt32, .retVoid]

namespace Draft

variable {d : Draft} {type : Nat} {fields : List FieldDef} {methods : List MethodDef}
  {properties : List PropertyDef}

theorem edited_extend (k : Nat) (e : MethodDef) :
    (d.extend type fields methods properties).edited (d.methods.size + k) e d.constants
      d.nameCount = d.extend type fields (methods.set k e) properties := by
  have hset : (d.methods ++ methods.toArray).setIfInBounds (d.methods.size + k) e =
      d.methods ++ (methods.set k e).toArray := by
    rw [← Array.toList_inj]
    simp
  simp only [extend, edited, modifyType, List.length_set, hset]

theorem found_extend {k : Nat} {e : MethodDef} (h : methods[k]? = some e) :
    (d.extend type fields methods properties).methods[d.methods.size + k]? = some e := by
  rw [extend, modifyType, Array.getElem?_append_right (Nat.le_add_right ..),
    Nat.add_sub_cancel_left, List.getElem?_toArray, h]

end Draft

namespace BuildM

open Draft

theorem synthesize_of_start {d : Draft} {m id owner : Nat} {f : FieldDef} {name : String}
    {attrs : MethodAttributes} {returnType : StaticType} {params : List Parameter}
    {code : List (Instr Label)}
    (hfound : d.methods[m]? = some (.start owner name attrs returnType params false))
    (hcode : Accessor id f (.start owner name attrs returnType params false) code) :
    synthesize m code d = .ok () (d.edited m
      ((MethodDef.start owner name attrs returnType params false).generate code) d.constants
      d.nameCount) := by
  have hstart : History d.constants m (.start owner name attrs returnType params false) :=
    .start owner name attrs returnType params false
  obtain ⟨-, hf⟩ := hstart.closed_accessor rfl hcode
  have hwrite := writing_emitting hfound (code.forM EmitM.emit >>= fun _ => EmitM.finish)
  rw [hf] at hwrite
  refine (bind_of_ok hwrite).trans ?_
  exact congrArg (EStateM.Result.ok ()) (modifyMethod_edited (lt_size_of_found hfound) _)

end BuildM

section

variable (name : String)

theorem toList_getter : (s!"get_{name}").toList = ['g', 'e', 't', '_'] ++ name.toList := by
  simp [toString]

theorem toList_setter : (s!"set_{name}").toList = ['s', 'e', 't', '_'] ++ name.toList := by
  simp [toString]

theorem toList_backing :
    (s!"<{name}>k__BackingField").toList = '<' :: (name.toList ++ ">k__BackingField".toList) := by
  simp [toString]

theorem getter_ne_backing : s!"get_{name}" ≠ s!"<{name}>k__BackingField" := by
  intro h
  have hlist := congrArg String.toList h
  rw [toList_getter, toList_backing] at hlist
  cases hlist

theorem setter_ne_backing : s!"set_{name}" ≠ s!"<{name}>k__BackingField" := by
  intro h
  have hlist := congrArg String.toList h
  rw [toList_setter, toList_backing] at hlist
  cases hlist

theorem getter_ne_constructorName : s!"get_{name}" ≠ constructorName := by
  intro h
  have hlist := congrArg String.toList h
  rw [toList_getter] at hlist
  cases hlist

theorem setter_ne_constructorName : s!"set_{name}" ≠ constructorName := by
  intro h
  have hlist := congrArg String.toList h
  rw [toList_setter] at hlist
  cases hlist

theorem getter_named : Text.isBlankText s!"get_{name}" = false := by
  rw [Text.isBlankText, toList_getter]
  rfl

theorem setter_named : Text.isBlankText s!"set_{name}" = false := by
  rw [Text.isBlankText, toList_setter]
  rfl

theorem backing_named : Text.isBlankText s!"<{name}>k__BackingField" = false := by
  rw [Text.isBlankText, toList_backing]
  rfl

theorem generated_ne_name : s!"<{name}>k__BackingField" ≠ name ∧ s!"get_{name}" ≠ name ∧
    s!"set_{name}" ≠ name := by
  have hlonger {generated : String} (h : name.toList.length < generated.toList.length) :
      generated ≠ name := by
    rintro rfl
    exact Nat.lt_irrefl _ h
  refine ⟨hlonger ?_, hlonger ?_, hlonger ?_⟩
  · rw [toList_backing, List.length_cons, List.length_append]
    omega
  · rw [toList_getter, List.length_append, List.length_cons]
    omega
  · rw [toList_setter, List.length_append, List.length_cons]
    omega

end

namespace Draft

/-- The type takes members and is no interface, something of the type of the property can be stored,
and the names of the property and of what is generated for it are free. -/
@[mk_iff]
structure Admits (d : Draft) (t : TypeDef) (name : String) (ty : StaticType) : Prop where
  isOpen : d.created = none ∧ t.created = none
  isClass : t.attrs.isInterface = false
  named : Text.isBlankText name = false
  storable : ty.isStorable = true
  names : ∀ n ∈ [name, s!"<{name}>k__BackingField", s!"get_{name}", s!"set_{name}"],
    n ∉ d.ownNames t
  methods : ∀ s ∈ d.signatures t.methods, s.1 ≠ name ∧ s.1 ≠ s!"<{name}>k__BackingField" ∧
    s ≠ (s!"get_{name}", []) ∧ s ≠ (s!"set_{name}", [ty])

instance (d : Draft) (t : TypeDef) (name : String) (ty : StaticType) :
    Decidable (d.Admits t name ty) :=
  decidable_of_iff _ (admits_iff d t name ty).symm

/-- The draft with a private field, two accessors and the property that has them. -/
def withProperty (d : Draft) (type : Nat) (name : String) (ty : StaticType) : Draft :=
  d.extend type [⟨type, s!"<{name}>k__BackingField", ty, {}⟩]
    [.backedGetter type d.fields.size name ty, .backedSetter type d.fields.size name ty]
    [⟨type, name, ty, some d.methods.size, some (d.methods.size + 1), some d.fields.size⟩]

end Draft

namespace BuildM

open Draft

variable {d d' : Draft} {type id : Nat} {t : TypeDef} {name : String} {ty : StaticType}

variable {fields : List FieldDef} {methods : List MethodDef} {properties : List PropertyDef}
  {f : FieldDef} {params : List Parameter}

theorem size_extend : (d.extend type fields methods properties).methods.size =
      d.methods.size + methods.length := by
  simp [extend, modifyType]

theorem defineMethod_extend_iff (hl : d.Lists type t) (hopen : d.openType type = .ok t)
    (ht : t.attrs.isInterface = false) :
    defineMethod type name { isPublic := true } ty params (d.extend type [f] methods []) =
        .ok id d' ↔
      (Text.isBlankText name = false ∧ name ≠ constructorName ∧ ty ≠ .null ∧
        checkParams params = .ok () ∧ (name ∉ d.ownNames t ∧ name ≠ f.name) ∧
        (name, params.map (·.ty)) ∉ d.signatures t.methods ∧
        (name, params.map (·.ty)) ∉ methods.map fun e => (e.name, e.paramTypes)) ∧
      id = d.methods.size + methods.length ∧ d' = d.extend type [f]
        (methods ++ [.start type name { isPublic := true } ty params false]) [] := by
  rw [defineMethod_eq_ok_iff (openType_extend hopen) ht, extend_extend, size_extend,
    mem_ownNames_extend hl, TypeDef.extend, signatures_extend hl]
  simp only [List.mem_append, not_or, List.map_cons, List.map_nil, List.mem_singleton,
    List.not_mem_nil, not_false_eq_true, and_true, List.append_nil]

theorem defineProperty_extend_iff (hl : d.Lists type t) (hopen : d.openType type = .ok t)
    {field : Nat} :
    defineProperty type name ty (some d.methods.size) (some (d.methods.size + 1)) (d.extend type [f]
        [.backedGetter type field name ty, .backedSetter type field name ty] []) = .ok id d' ↔
      (Text.isBlankText name = false ∧ ty.isStorable = true ∧
        (name ∉ d.ownNames t ∧ name ≠ f.name) ∧ ∀ s ∈ d.signatures t.methods, s.1 ≠ name) ∧
      id = d.properties.size ∧ d' = d.extend type [f]
        [.backedGetter type field name ty, .backedSetter type field name ty]
        [⟨type, name, ty, some d.methods.size, some (d.methods.size + 1), none⟩] := by
  let accessors : List MethodDef :=
    [.backedGetter type field name ty, .backedSetter type field name ty]
  have hgetter : (d.extend type [f] accessors []).methods[d.methods.size]? =
      some (.backedGetter type field name ty) := found_extend (k := 0) rfl
  have hsetter : (d.extend type [f] accessors []).methods[d.methods.size + 1]? =
      some (.backedSetter type field name ty) := found_extend (k := 1) rfl
  have hreturn : (MethodDef.backedGetter type field name ty).returnType = ty := rfl
  have hsize : (d.extend type [f] accessors []).properties.size = d.properties.size := by
    simp [extend, modifyType]
  have hsignatures : accessors.map (fun e => (e.name, e.paramTypes)) =
      [(s!"get_{name}", []), (s!"set_{name}", [ty])] := rfl
  obtain ⟨-, hget, hset⟩ := generated_ne_name name
  refine (defineProperty_eq_ok_iff (openType_extend hopen) (accessor_of_found hgetter rfl rfl rfl)
    (accessor_of_found hsetter rfl rfl rfl) rfl hreturn rfl rfl rfl).trans ?_
  rw [extend_extend, hsize, mem_ownNames_extend hl, TypeDef.extend, signatures_extend hl,
    hsignatures]
  simp only [List.mem_append, not_or, List.map_cons, List.map_nil, List.not_mem_nil,
    not_false_eq_true, and_true, List.append_nil, List.nil_append, List.mem_cons, or_false, or_imp,
    forall_and, forall_eq, hget, hset, ne_eq]
  rfl

theorem synthesize_extend {k field : Nat} {attrs : MethodAttributes} {code : List (Instr Label)}
    (hk : methods[k]? = some (.start type name attrs ty params false))
    (hcode : Accessor field f (.start type name attrs ty params false) code) :
    synthesize (d.methods.size + k) code (d.extend type fields methods properties) = .ok ()
      (d.extend type fields
        (methods.set k ((MethodDef.start type name attrs ty params false).generate code))
        properties) := by
  rw [synthesize_of_start (found_extend hk) hcode]
  exact congrArg (EStateM.Result.ok ()) (edited_extend k _)

theorem synthesize_accessors {α : Type} (hf : f.ty = ty) (field : Nat) (x : BuildM α) :
    (synthesize d.methods.size [.loadLocal 0, .loadField field.toUInt32, .ret] >>= fun _ =>
      synthesize (d.methods.size + 1)
        [.loadLocal 0, .loadLocal 1, .storeField field.toUInt32, .retVoid] >>= fun _ => x)
      (d.extend type [f] [.start type s!"get_{name}" { isPublic := true } ty [] false,
        .start type s!"set_{name}" { isPublic := true } .void [⟨"value", ty⟩] false] []) =
      x (d.extend type [f]
        [.backedGetter type field name ty, .backedSetter type field name ty] []) := by
  have hget : Accessor field f (.start type s!"get_{name}" { isPublic := true } ty [] false) _ :=
    .getter rfl rfl hf.symm
  have hset : Accessor field f
      (.start type s!"set_{name}" { isPublic := true } .void [⟨"value", ty⟩] false) _ :=
    .setter rfl rfl rfl hf.symm
  refine (bind_of_ok (synthesize_extend (k := 0) rfl hget)).trans ?_
  exact bind_of_ok (synthesize_extend (k := 1) rfl hset)

theorem backing_extend {p : PropertyDef} (field : Nat) :
    { d.extend type fields methods [p] with
      properties := (d.extend type fields methods [p]).properties.modify d.properties.size
        ({ · with backing := some field }) } =
      d.extend type fields methods [{ p with backing := some field }] := by
  have hmodify : (d.properties ++ [p].toArray).modify d.properties.size
      ({ · with backing := some field }) =
        d.properties ++ [{ p with backing := some field }].toArray := by
    rw [← Array.toList_inj]
    simp [List.modify_eq_take_cons_drop]
  simp only [extend, modifyType, hmodify, List.length_singleton]

theorem generateProperty_eq_ok_iff (hl : d.Lists type t) (hopen : d.openType type = .ok t) :
    generateProperty type name ty d = .ok id d' ↔
      d.Admits t name ty ∧ id = d.properties.size ∧ d' = d.withProperty type name ty := by
  constructor
  · intro h
    obtain ⟨field, d₁, hfield, h⟩ := bind_eq_ok.mp h
    obtain ⟨⟨-, hty, hclass, hbacking, hbackings⟩, rfl, rfl⟩ :=
      (defineField_eq_ok_iff hopen).mp hfield
    obtain ⟨getter, d₂, hgetter, h⟩ := bind_eq_ok.mp h
    obtain ⟨⟨-, -, -, -, ⟨hget, -⟩, hnewGetter, -⟩, rfl, rfl⟩ :=
      (defineMethod_extend_iff hl hopen hclass).mp hgetter
    obtain ⟨setter, d₃, hsetter, h⟩ := bind_eq_ok.mp h
    obtain ⟨⟨-, -, -, -, ⟨hset, -⟩, hnewSetter, -⟩, rfl, rfl⟩ :=
      (defineMethod_extend_iff hl hopen hclass).mp hsetter
    obtain ⟨property, d₆, hproperty, h⟩ :=
      bind_eq_ok.mp ((synthesize_accessors rfl d.fields.size _).symm.trans h)
    obtain ⟨⟨hname, -, ⟨hown, -⟩, hmethods⟩, rfl, rfl⟩ :=
      (defineProperty_extend_iff hl hopen).mp hproperty
    obtain ⟨-, hd, ht⟩ := openType_eq_ok.mp hopen
    refine ⟨⟨⟨hd, ht⟩, hclass, hname, hty, ?_, ?_⟩, ?_, ?_⟩
    · simp only [List.forall_mem_cons, List.not_mem_nil, false_imp_iff, implies_true, and_true]
      exact ⟨hown, hbacking, hget, hset⟩
    · intro s hs
      refine ⟨hmethods s hs, hbackings s hs, ?_, ?_⟩
      · rintro rfl
        exact hnewGetter hs
      · rintro rfl
        exact hnewSetter hs
    · cases h
      rfl
    · cases h
      exact backing_extend d.fields.size
  · rintro ⟨h, rfl, rfl⟩
    have hfree := h.names
    simp only [List.forall_mem_cons, List.not_mem_nil, false_imp_iff, implies_true, and_true]
      at hfree
    obtain ⟨hown, hbacking, hget, hset⟩ := hfree
    have hdistinct : (s!"set_{name}", [ty]) ∉ [(s!"get_{name}", ([] : List StaticType))] := by
      intro hmem
      cases congrArg Prod.snd (List.mem_singleton.mp hmem)
    -- each definition in turn succeeds, since the members before it have other names
    refine (bind_of_ok ((defineField_eq_ok_iff hopen).mpr ⟨⟨backing_named name, h.storable,
      h.isClass, hbacking, fun s hs => (h.methods s hs).2.1⟩, rfl, rfl⟩)).trans ?_
    refine (bind_of_ok ((defineMethod_extend_iff hl hopen h.isClass).mpr ⟨⟨getter_named name,
      getter_ne_constructorName name, ne_null_of_isStorable h.storable, rfl,
      ⟨hget, getter_ne_backing name⟩, fun hs => (h.methods _ hs).2.2.1 rfl, List.not_mem_nil⟩, rfl,
      rfl⟩)).trans ?_
    refine (bind_of_ok ((defineMethod_extend_iff hl hopen h.isClass).mpr ⟨⟨setter_named name,
      setter_ne_constructorName name, by decide, checkParams_value h.storable,
      ⟨hset, setter_ne_backing name⟩, fun hs => (h.methods _ hs).2.2.2 rfl, ?_⟩, rfl,
      rfl⟩)).trans ?_
    · exact hdistinct
    refine (synthesize_accessors rfl d.fields.size _).trans ?_
    refine (bind_of_ok ((defineProperty_extend_iff hl hopen).mpr ⟨⟨h.named, h.storable,
      ⟨hown, (generated_ne_name name).1.symm⟩, fun s hs => (h.methods s hs).1⟩, rfl, rfl⟩)).trans ?_
    exact congrArg (EStateM.Result.ok _) (backing_extend d.fields.size)

theorem defineAutoProperty_eq_ok_iff (hl : d.Listed) :
    defineAutoProperty type name ty d = .ok id d' ↔
      (∃ t ∈ d.types[type]?, d.Admits t name ty) ∧ id = d.properties.size ∧
        d' = d.withProperty type name ty := by
  constructor
  · intro h
    obtain ⟨e, he⟩ | ⟨id', d₁, hg, hd⟩ := defineAutoProperty_cases type name ty d
    · cases h.symm.trans he
    cases h.symm.trans hd
    obtain ⟨t, hopen⟩ : ∃ t, d.openType type = .ok t := by
      rw [defineAutoProperty, get_bind] at hd
      obtain ⟨t, hcheck, -⟩ := ofExcept_bind_eq_ok.mp hd
      obtain ⟨t', hopen, -⟩ := except_bind_eq_ok.mp hcheck
      exact ⟨t', hopen⟩
    have hfound := (openType_eq_ok.mp hopen).1
    obtain ⟨hadmits, hid, hd'⟩ := (generateProperty_eq_ok_iff (hl type t hfound) hopen).mp hg
    exact ⟨⟨t, hfound, hadmits⟩, hid, hd'⟩
  · rintro ⟨⟨t, hfound, h⟩, rfl, rfl⟩
    have hopen := openType_eq_ok.mpr ⟨hfound, h.isOpen⟩
    have hg := (generateProperty_eq_ok_iff (hl type t hfound) hopen).mpr ⟨h, rfl, rfl⟩
    have hunique : d.ensureUnique t name false = .ok () := ensureUnique_eq_ok.mpr
      ⟨h.names name (.head _), fun _ s hs => (h.methods s hs).1⟩
    rw [defineAutoProperty, get_bind]
    refine ofExcept_bind_eq_ok.mpr ⟨t, ?_, ?_⟩
    · refine except_bind_eq_ok.mpr ⟨t, hopen, ?_⟩
      refine except_bind_eq_ok.mpr ⟨(), requireName_eq_ok.mpr h.named, ?_⟩
      refine except_bind_eq_ok.mpr ⟨(), BuildM.requireStorable_eq_ok.mpr h.storable, ?_⟩
      exact except_bind_eq_ok.mpr ⟨(), hunique, rfl⟩
    · simp only [hg]

end BuildM

open BuildM in
/-- A property with generated accessors is refused, which leaves the draft as it was, or is added
with all that belongs to it and nothing else. It is refused only if a name that it needs is taken or
if the type takes no such property at all. -/
theorem Session.autoProperty_all_or_nothing {p : Project} {issued : List (Nat × Variable)}
    (h : Session Anything p issued) (type : Nat) (name : String) (ty : StaticType) :
    (∃ e, defineAutoProperty type name ty p.draft = .error e p.draft ∧
      ∀ t ∈ p.draft.types[type]?, ¬ p.draft.Admits t name ty) ∨
    ∃ t ∈ p.draft.types[type]?, p.draft.Admits t name ty ∧
      defineAutoProperty type name ty p.draft =
        .ok p.draft.properties.size (p.draft.withProperty type name ty) := by
  obtain ⟨issued', hc, -⟩ := h.course
  obtain ⟨e, he⟩ | ⟨id, d, -, hd⟩ := defineAutoProperty_cases type name ty p.draft
  · refine .inl ⟨e, he, fun t hfound ht => ?_⟩
    cases he.symm.trans ((defineAutoProperty_eq_ok_iff hc.listed).mpr ⟨⟨t, hfound, ht⟩, rfl, rfl⟩)
  · obtain ⟨⟨t, hfound, ht⟩, rfl, rfl⟩ := (defineAutoProperty_eq_ok_iff hc.listed).mp hd
    exact .inr ⟨t, hfound, ht, hd⟩

/-- A box whose own setter of a width is in the way of one that is generated for an integer. -/
def ownSetter : List Request := [
  .perform (.defineType "Box" {} none []),
  .perform (.defineMethod 0 "set_Width" {} .void [⟨"width", .int⟩]),
  .perform (.defineAutoProperty 0 "Height" .int)]

theorem Session.autoProperty_all_or_nothing_ownSetter : ∃ p issued,
    (Request.makeAll ownSetter (⟨.empty "Boxes" {}, .empty⟩, [])).1 = p ∧
    Session Anything p issued ∧ p.draft.fields.size = 1 ∧ p.draft.methods.size = 3 ∧
    p.draft.properties.size = 1 ∧
    (∃ e, BuildM.defineAutoProperty 0 "Width" .int p.draft = .error e p.draft) ∧
    BuildM.defineAutoProperty 0 "Width" .string p.draft =
      .ok p.draft.properties.size (p.draft.withProperty 0 "Width" .string) := by
  obtain ⟨issued, h⟩ := Session.of_makeAll ownSetter "Boxes" {}
  refine ⟨_, issued, rfl, h, ?_, ?_, ?_, ?_, ?_⟩
  · decide +kernel
  · decide +kernel
  · decide +kernel
  · obtain ⟨e, he, -⟩ | ⟨t, hfound, ht, -⟩ := h.autoProperty_all_or_nothing 0 "Width" .int
    · exact ⟨e, he⟩
    · exfalso
      revert t
      decide +kernel
  · obtain ⟨e, he, hnone⟩ | ⟨t, hfound, ht, hadded⟩ :=
      h.autoProperty_all_or_nothing 0 "Width" .string
    · exfalso
      revert hnone
      decide +kernel
    · exact hadded

end Bytesmith.Build
