import Bytesmith.Proofs.Tables
import Bytesmith.Proofs.TypedCommands
import Bytesmith.Proofs.Upkeep

namespace Bytesmith.Build

open Code Bytesmith.Outcome Machine

namespace Draft

structure Accessed (d : Draft) (p : PropertyDef) : Prop where
  storable : p.ty.isStorable = true
  getter : ∀ g, p.getter = some g → ∃ t, d.methods[g]? = some t ∧ t.owner = p.owner ∧
    t.attrs.isStatic = false ∧ t.params = [] ∧ t.returnType = p.ty
  setter : ∀ s, p.setter = some s → ∃ t, d.methods[s]? = some t ∧ t.owner = p.owner ∧
    t.attrs.isStatic = false ∧ t.returnType.isVoid = true ∧
      ∃ value, t.params = [value] ∧ value.ty = p.ty

structure Wired (d : Draft) : Prop where
  properties : ∀ (i : Nat) (p : PropertyDef), d.properties[i]? = some p → d.Accessed p
  instances : ∀ (i : Nat) (t : MethodDef), d.methods[i]? = some t →
    t.isConstructor = true ∨ t.attrs.isAbstract = true → t.attrs.isStatic = false

variable {d d' : Draft}

theorem Accessed.retain {p p' : PropertyDef} (h : d.Accessed p) (hr : d.Retains d')
    (hp : p'.heading = p.heading) : d'.Accessed p' := by
  obtain ⟨howner, -, hty, hgetter, hsetter⟩ := PropertyDef.eq_of_heading hp
  refine ⟨hty ▸ h.storable, fun g hg => ?_, fun s hs => ?_⟩
  · obtain ⟨t, ht, ht₁, ht₂, ht₃, ht₄⟩ := h.getter g (hgetter ▸ hg)
    obtain ⟨t', ht', hdecl⟩ := hr.methods g t ht
    obtain ⟨h₁, h₂, h₃, h₄, -⟩ := MethodDef.eq_of_declaration hdecl
    exact ⟨t', ht', by rw [h₁, ht₁, howner], by rw [h₂, ht₂], by rw [h₄, ht₃], by rw [h₃, ht₄, hty]⟩
  · obtain ⟨t, ht, ht₁, ht₂, ht₃, value, ht₄, hvalue⟩ := h.setter s (hsetter ▸ hs)
    obtain ⟨t', ht', hdecl⟩ := hr.methods s t ht
    obtain ⟨h₁, h₂, h₃, h₄, -⟩ := MethodDef.eq_of_declaration hdecl
    exact ⟨t', ht', by rw [h₁, ht₁, howner], by rw [h₂, ht₂], by rw [h₃, ht₃], value,
      by rw [h₄, ht₄], by rw [hvalue, hty]⟩

theorem Wired.extend (hw : d.Wired) (hr : d.Retains d')
    (hp : ∀ (i : Nat) (p' : PropertyDef), d'.properties[i]? = some p' →
      (∃ p, d.properties[i]? = some p ∧ p'.heading = p.heading) ∨ d'.Accessed p')
    (hm : ∀ (i : Nat) (t' : MethodDef), d'.methods[i]? = some t' →
      (∃ t, d.methods[i]? = some t ∧ t'.declaration = t.declaration) ∨
        (t'.isConstructor = true ∨ t'.attrs.isAbstract = true → t'.attrs.isStatic = false)) :
    d'.Wired := by
  refine ⟨fun i p' hp' => ?_, fun i t' ht' hkind => ?_⟩
  · obtain ⟨p, hold, hheading⟩ | hnew := hp i p' hp'
    · exact (hw.properties i p hold).retain hr hheading
    · exact hnew
  · obtain ⟨t, hold, hdecl⟩ | hnew := hm i t' ht'
    · obtain ⟨-, hattrs, -, -, hconstructor⟩ := MethodDef.eq_of_declaration hdecl
      rw [hattrs]
      exact hw.instances i t hold (by rwa [hattrs, hconstructor] at hkind)
    · exact hnew hkind

end Draft

variable {d d' : Draft}

theorem Declares.wired (h : Declares d d') (hw : d.Wired) : d'.Wired := by
  have hr := h.retains
  have hproperties (i : Nat) (p : PropertyDef) (hp : d.properties[i]? = some p) :
      (∃ p₀, d.properties[i]? = some p₀ ∧ p.heading = p₀.heading) ∨ d'.Accessed p :=
    .inl ⟨p, hp, rfl⟩
  have hmethods (i : Nat) (t : MethodDef) (ht : d.methods[i]? = some t) :
      (∃ t₀, d.methods[i]? = some t₀ ∧ t.declaration = t₀.declaration) ∨
        (t.isConstructor = true ∨ t.attrs.isAbstract = true → t.attrs.isStatic = false) :=
    .inl ⟨t, ht, rfl⟩
  have hadded {t₀ : MethodDef}
      (h₀ : t₀.isConstructor = true ∨ t₀.attrs.isAbstract = true → t₀.attrs.isStatic = false)
      (i : Nat) (t : MethodDef) (ht : (d.methods.push t₀)[i]? = some t) :
      (∃ t₁, d.methods[i]? = some t₁ ∧ t.declaration = t₁.declaration) ∨
        (t.isConstructor = true ∨ t.attrs.isAbstract = true → t.attrs.isStatic = false) := by
    obtain ht | ⟨-, rfl⟩ := getElem?_push_cases ht
    · exact hmethods i t ht
    · exact .inr h₀
  cases h with
  | method type name attrs returnType params htype hreturn hparams hattrs =>
    exact hw.extend hr hproperties (hadded fun hkind => hkind.elim (fun hc => nomatch hc) hattrs)
  | constructor type attrs params htype hparams hstatic =>
    exact hw.extend hr hproperties (hadded fun _ => hstatic)
  | property entry htype hty hgetter hsetter =>
    refine hw.extend hr (fun i p hp => ?_) hmethods
    obtain hp | ⟨-, rfl⟩ := getElem?_push_cases hp
    · exact hproperties i p hp
    · exact .inr ⟨hty, hgetter, hsetter⟩
  | backing id field =>
    refine hw.extend hr (fun i p hp => ?_) hmethods
    replace hp : (d.properties.modify id _)[i]? = some p := hp
    rw [Array.getElem?_modify] at hp
    split at hp
    · obtain ⟨p₀, hp₀, rfl⟩ := Option.map_eq_some_iff.mp hp
      exact .inl ⟨p₀, hp₀, rfl⟩
    · exact hproperties i p hp
  | _ => exact hw.extend hr hproperties hmethods

variable {issued : List (Nat × Variable)} {R : Rules} {slots : Nat → List StaticType}

theorem Course.wired {Allowed : List (Nat × Variable) → Nat → Variable → Prop}
    (h : Course Allowed d issued) : d.Wired := by
  refine h.of_declares (fun name options => ⟨fun i p hp => ?_, fun i t ht => ?_⟩)
    (fun d d' hd => hd.wired) fun d d' hsame hw => ?_
  · cases hp
  · cases ht
  · refine hw.extend hsame.retains (fun i p hp => ?_) fun i t ht => ?_
    · rw [hsame.properties] at hp
      exact .inl ⟨p, hp, rfl⟩
    · have hi := hsame.methods i
      rw [ht] at hi
      obtain ⟨t₀, ht₀, hdecl⟩ := Option.map_eq_some_iff.mp hi.symm
      exact .inl ⟨t₀, ht₀, hdecl.symm⟩

namespace Draft

def receiverType (d : Draft) (t : MethodDef) : StaticType :=
  .class t.owner ((d.types[t.owner]?.map (·.name)).getD "")

/-- The types of what a method takes: its receiver, unless it is static, and its parameters. -/
def takes (d : Draft) (t : MethodDef) : List StaticType :=
  (if t.attrs.isStatic then [] else [d.receiverType t]) ++ t.paramTypes

def slotTypes (d : Draft) (t : MethodDef) : List StaticType :=
  d.takes t ++ t.results.map Variable.ty

def slotsOf (d : Draft) (i : Nat) : List StaticType := (d.methods[i]?.map d.slotTypes).getD []

theorem slotsOf_eq {d : Draft} {i : Nat} {t : MethodDef} (ht : d.methods[i]? = some t) :
    d.slotsOf i = d.slotTypes t := by
  rw [slotsOf, ht]
  rfl

def declared (d : Draft) (m : Module) : Declared where
  module := m
  fields id := d.fields[id.toNat]?.map (·.ty)
  signature id := d.methods[id.toNat]?.map fun t => ⟨d.takes t, t.returnType⟩

theorem length_takes (d : Draft) (t : MethodDef) : (d.takes t).length = t.paramCount := by
  rw [takes, List.length_append, MethodDef.paramTypes, List.length_map, MethodDef.paramCount,
    MethodDef.slotCount, Nat.add_comm]
  split <;> rfl

variable {t : MethodDef}

theorem takes_of_isStatic (h : t.attrs.isStatic = true) : d.takes t = t.paramTypes := by
  rw [takes, if_pos h, List.nil_append]

theorem takes_of_instance (h : t.attrs.isStatic = false) :
    d.takes t = d.receiverType t :: t.paramTypes := by
  rw [takes, if_neg (Bool.eq_false_iff.mp h), List.singleton_append]

theorem receiverType_of_classType {ty : StaticType} (h : d.classType t.owner = .ok ty) :
    ty = d.receiverType t := by
  obtain ⟨entry, hentry, h⟩ := except_bind_eq_ok.mp h
  cases h
  rw [receiverType, BuildM.type_eq_ok.mp hentry]
  rfl

end Draft

structure Draft.TypedBy (d : Draft) (R : Rules) (slots : Nat → List StaticType) : Prop where
  fields : ∀ (i : Nat) (f : FieldDef), d.fields[i]? = some f → R.HasField i.toUInt32 f.ty
  methods : ∀ (i : Nat) (t : MethodDef), d.methods[i]? = some t →
    R.signature i.toUInt32 = some ⟨d.takes t, t.returnType⟩ ∧ t.params.length < 65535
  classes : d.types.size ≤ R.classes
  strings : d.constants.strings.length ≤ R.strings
  bodies : ∀ (i : Nat) (t : MethodDef), d.methods[i]? = some t → d.slotTypes t <+: slots i
  subtypes : ∀ sub sup name name', d.isSubtype sub sup = true →
    R.Accepts (.class sub name) (.class sup name')

theorem getElem?_of_prefix {α : Type} {as bs : List α} {i : Nat} {a : α} (h : as <+: bs)
    (ha : as[i]? = some a) : bs[i]? = some a := by
  obtain ⟨rest, rfl⟩ := h
  rw [List.getElem?_append_left (List.getElem?_eq_some_iff.mp ha).1, ha]

theorem Draft.Retains.takes_eq (hr : d.Retains d') {t t' : MethodDef} {type : TypeDef}
    (hdecl : t'.declaration = t.declaration) (htype : d.types[t.owner]? = some type) :
    d'.takes t' = d.takes t := by
  obtain ⟨howner, hattrs, -, hparams, -⟩ := MethodDef.eq_of_declaration hdecl
  obtain ⟨type', htype', hheading⟩ := hr.types _ type htype
  have hname := (TypeDef.eq_of_heading hheading).1
  rw [takes, takes, receiverType, receiverType, MethodDef.paramTypes, MethodDef.paramTypes, howner,
    hattrs, hparams, htype, htype', Option.map_some, Option.map_some, hname]

namespace Draft.TypedBy

variable {R : Rules} {slots : Nat → List StaticType} {m : Nat} {t : MethodDef}

theorem shrink (h : d'.TypedBy R slots) (hr : d.Retains d') (hg : d.Grows d')
    (howners : ∀ (m : Nat) (t : MethodDef), d.methods[m]? = some t →
      ∃ type, d.types[t.owner]? = some type) : d.TypedBy R slots := by
  refine ⟨fun i f hf => h.fields i f (hr.fields i f hf), fun i t ht => ?_,
    Nat.le_trans hg.size_types_le h.classes,
    Nat.le_trans hg.constants.isPrefix.length_le h.strings, fun i t ht => ?_,
    fun sub sup name name' hsub => h.subtypes sub sup name name' (hr.isSubtype hsub)⟩
  · obtain ⟨t', ht', hdecl⟩ := hr.methods i t ht
    obtain ⟨type, htype⟩ := howners i t ht
    obtain ⟨-, -, hreturn, hparams, -⟩ := MethodDef.eq_of_declaration hdecl
    have hmethod := h.methods i t' ht'
    rwa [hr.takes_eq hdecl htype, hreturn, hparams] at hmethod
  · obtain ⟨t', ht', hgrows⟩ := hg.methods i t ht
    obtain ⟨type, htype⟩ := howners i t ht
    refine List.IsPrefix.trans ?_ (h.bodies i t' ht')
    rw [slotTypes, slotTypes, hr.takes_eq hgrows.declaration htype]
    exact (List.prefix_append_right_inj _).mpr ((hgrows.commands.filterMap _).map _)

theorem coercion_fits (h : d.TypedBy R slots) {source target : StaticType} {c : Coercion}
    (hc : d.coercion source target = .ok c) : c.Fits R source target :=
  Coercion.fits_of_select h.subtypes hc

theorem slot_of_takes (h : d.TypedBy R slots) (ht : d.methods[m]? = some t) {j : Nat}
    {ty : StaticType} (hj : (d.takes t)[j]? = some ty) : (slots m)[j]? = some ty :=
  getElem?_of_prefix ((List.prefix_append _ _).trans (h.bodies m t ht)) hj

theorem receiver (h : d.TypedBy R slots) (ht : d.methods[m]? = some t)
    (hstatic : t.attrs.isStatic = false) : (slots m)[0]? = some (d.receiverType t) :=
  h.slot_of_takes ht (by rw [takes_of_instance hstatic]; rfl)

theorem slotOf_result (h : d.TypedBy R slots) {q : Pool} (hh : History q m t)
    (ht : d.methods[m]? = some t) {v : Variable} (hv : v ∈ t.results) :
    v.SlotOf (slots m) v.ty := by
  obtain ⟨k, hk⟩ := List.getElem?_of_mem hv
  obtain ⟨hsmall, name, ty, rfl⟩ := hh.results.2 k v hk
  have hindex : (t.paramCount + k).toUInt16.toNat = t.paramCount + k :=
    UInt16.toNat_ofNat_of_lt' hsmall
  rw [Variable.SlotOf, hindex]
  refine getElem?_of_prefix (h.bodies m t ht) ?_
  rw [slotTypes, List.getElem?_append_right (by rw [length_takes]; omega), length_takes,
    Nat.add_sub_cancel_left, List.getElem?_map, hk]
  rfl

theorem param_fits (h : d.TypedBy R slots) {index : Nat} {v : Variable}
    (hv : d.param m index = .ok v) : v.Fits R (slots m) := by
  obtain ⟨t, ht, hv⟩ := except_bind_eq_ok.mp hv
  rw [method_eq_ok] at ht
  cases hp : t.params[index]? with
  | none =>
    simp only [hp] at hv
    cases hv
  | some p =>
    simp only [hp] at hv
    cases hv
    have hindex := (List.getElem?_eq_some_iff.mp hp).1
    have hcount := (h.methods m t ht).2
    have hwrap : index.toUInt16.toNat = index :=
      UInt16.toNat_ofNat_of_lt' (Nat.lt_trans (Nat.lt_trans hindex hcount) (by decide))
    have htype : t.paramTypes[index]? = some p.ty := by
      rw [MethodDef.paramTypes, List.getElem?_map, hp]
      rfl
    refine h.slot_of_takes ht ?_
    cases hstatic : t.attrs.isStatic with
    | true =>
      rw [takes_of_isStatic hstatic, if_pos rfl, UInt16.zero_add, hwrap]
      exact htype
    | false =>
      have hnext : (1 + index.toUInt16 : UInt16).toNat = index + 1 := by
        rw [UInt16.toNat_add, hwrap, UInt16.toNat_one]
        omega
      rw [takes_of_instance hstatic, if_neg Bool.false_ne_true, hnext, List.getElem?_cons_succ]
      exact htype

theorem fieldMember_fits (h : d.TypedBy R slots) {id : Nat} {f : FieldDef}
    (hf : d.fieldDef id = .ok f) (holder : StaticType) : (fieldMember t id f).Fits R holder :=
  h.fields id f (find_eq_ok.mp hf)

theorem propertyMember_fits (h : d.TypedBy R slots) (hw : d.Wired) {id type : Nat}
    {p : PropertyDef} (hp : d.properties[id]? = some p) (hsub : d.isSubtype type p.owner = true)
    (name : String) : (propertyMember id p).Fits R (.class type name) := by
  obtain ⟨hstorable, hgetter, hsetter⟩ := hw.properties id p hp
  refine ⟨fun g hg => ?_, fun s hs => ?_⟩
  · obtain ⟨t, ht, howner, hstatic, hparams, hreturn⟩ := hgetter g hg
    have hsig := (h.methods g t ht).1
    rw [takes_of_instance hstatic, MethodDef.paramTypes, hparams, hreturn] at hsig
    refine ⟨d.receiverType t, h.subtypes _ _ _ _ (howner ▸ hsub), ?_, hsig⟩
    change p.ty.isVoid = false
    cases hty : p.ty <;> first | rfl | (rw [hty] at hstorable; cases hstorable)
  · obtain ⟨t, ht, howner, hstatic, hvoid, value, hparams, hvalue⟩ := hsetter s hs
    have hsig := (h.methods s t ht).1
    rw [takes_of_instance hstatic, MethodDef.paramTypes, hparams, List.map_singleton, hvalue] at hsig
    exact ⟨d.receiverType t, t.returnType, h.subtypes _ _ _ _ (howner ▸ hsub), hvoid, hsig⟩

end Draft.TypedBy

section

variable {R : Rules} {slots : Nat → List StaticType} {m : Nat} {t : MethodDef}

theorem Draft.TypedBy.this_fits (h : d.TypedBy R slots) (ht : d.methods[m]? = some t)
    {v : Variable} (hv : d.this m = .ok v) :
    v.Fits R (slots m) ∧ v.ty = d.receiverType t ∧ t.attrs.isStatic = false := by
  obtain ⟨t', ht', hv⟩ := except_bind_eq_ok.mp hv
  rw [method_eq_ok, ht] at ht'
  cases ht'
  obtain ⟨hstatic, hv⟩ := except_guard_eq_ok.mp hv
  obtain ⟨ty, hty, hv⟩ := except_bind_eq_ok.mp hv
  cases hv
  obtain rfl := receiverType_of_classType hty
  rw [Bool.not_eq_true] at hstatic
  exact ⟨h.receiver ht hstatic, rfl, hstatic⟩

theorem Lookup.fits {l : Lookup} {v : Variable} (hl : l.find d m = .ok v)
    (hd : d.TypedBy R slots) (hw : d.Wired) (hlisted : d.Listed)
    (ho : ∀ o ∈ l.operands, o.Fits R (slots m)) : v.Fits R (slots m) := by
  have hclass {ty : StaticType} {type : Nat} (hty : ty.classId? = some type) :
      ∃ name, ty = .class type name := by
    cases ty <;> cases hty
    exact ⟨_, rfl⟩
  cases finds hl with
  | this ht hstatic hthis => exact (hd.this_fits ht hthis).1
  | param index hparam => exact hd.param_fits hparam
  | shared ht hf => exact ⟨_, _, rfl, hd.fields _ _ hf⟩
  | field ht hstatic hfind hf =>
    exact ⟨_, hd.receiver ht hstatic, hd.fieldMember_fits (Draft.find_eq_ok.mpr hf) _⟩
  | fieldOf ht howned hf =>
    exact ⟨ho _ (.head _), hd.fieldMember_fits (Draft.find_eq_ok.mpr hf) _⟩
  | property ht hstatic hfind hp =>
    obtain ⟨p', hp', hsub⟩ := hlisted.findProperty? hfind
    cases hp.symm.trans hp'
    exact ⟨_, hd.receiver ht hstatic, hd.propertyMember_fits hw hp hsub _⟩
  | propertyOf howned hty hfind hp =>
    obtain ⟨className, hclassName⟩ := hclass hty
    obtain ⟨p', hp', hsub⟩ := hlisted.findProperty? hfind
    cases hp.symm.trans hp'
    refine ⟨ho _ (.head _), ?_⟩
    rw [hclassName]
    exact hd.propertyMember_fits hw hp hsub className

variable {i : Nat}

theorem Draft.TypedBy.target (h : d.TypedBy R slots) {target : CallTarget}
    (htarget : d.callTarget i = .ok target) :
    target.params.length < 65535 ∧ R.signature target.method.toUInt32 =
      some ⟨(if target.isStatic then [] else [target.owner]) ++ target.params,
        target.returnType⟩ := by
  obtain ⟨t, ht, htarget⟩ := except_bind_eq_ok.mp htarget
  obtain ⟨owner, howner, htarget⟩ := except_bind_eq_ok.mp htarget
  cases htarget
  obtain rfl := receiverType_of_classType howner
  obtain ⟨hsig, hparams⟩ := h.methods i t (method_eq_ok.mp ht)
  refine ⟨?_, hsig⟩
  rw [MethodDef.paramTypes, List.length_map]
  exact hparams

variable {target : CallTarget}

theorem Draft.TypedBy.arguments (h : d.TypedBy R slots)
    {args : List Variable} {bound : List Argument}
    (hbound : d.bindArguments m target args = .ok bound) (ho : ∀ a ∈ args, a.Fits R (slots m)) :
    (∀ a ∈ bound, a.Fits R (slots m)) ∧ bound.map Argument.paramType = target.params := by
  obtain ⟨hlength, hall⟩ := bindArguments_eq_ok hbound
  refine ⟨fun a ha => ?_, List.ext_getElem? fun i => ?_⟩
  · obtain ⟨i, hi⟩ := List.getElem?_of_mem ha
    obtain ⟨hvalue, -, -, hcoercion⟩ := hall i a hi
    exact ⟨ho a.value (List.mem_of_getElem? hvalue), h.coercion_fits hcoercion⟩
  · rw [List.getElem?_map]
    cases hi : bound[i]? with
    | none =>
      rw [List.getElem?_eq_none_iff, hlength] at hi
      rw [Option.map_none, List.getElem?_eq_none hi]
    | some a => rw [Option.map_some, (hall i a hi).2.1]

theorem Draft.TypedBy.fits_target (h : d.TypedBy R slots)
    {args : List Variable} {bound : List Argument} {receivers : List StaticType}
    (htarget : d.callTarget i = .ok target) (hbound : d.bindArguments m target args = .ok bound)
    (ho : ∀ a ∈ args, a.Fits R (slots m)) (hreceivers : List.Forall₂ R.Accepts receivers
      (if target.isStatic then [] else [target.owner])) : target.Fits R receivers bound := by
  obtain ⟨hcount, hsig⟩ := h.target htarget
  obtain ⟨-, hparams⟩ := h.arguments hbound ho
  refine ⟨?_, _, hreceivers, by rw [hparams, hsig]⟩
  rw [← List.length_map (f := Argument.paramType), hparams]
  exact Nat.lt_succ_of_lt hcount

theorem Draft.TypedBy.constructor (h : d.TypedBy R slots) (hw : d.Wired) (hlisted : d.Listed)
    {type : Nat} {args : List StaticType}
    (hfind : d.findConstructor? type args = some i) (htarget : d.callTarget i = .ok target)
    {sub : Nat} (hsub : d.isSubtype sub type = true) (name : String) :
    target.isConstructor = true ∧ target.isStatic = false ∧
      R.Accepts (.class sub name) target.owner := by
  obtain ⟨entry, hentry, hfind⟩ := Option.bind_eq_some_iff.mp hfind
  have hmem : i ∈ entry.constructors := by
    rw [resolveOverload?] at hfind
    split at hfind
    · rename_i hexact
      cases hfind
      exact List.mem_of_find?_eq_some hexact
    · exact List.mem_of_find?_eq_some hfind
  obtain ⟨t, ht, howner, hconstructor⟩ := (hlisted type entry hentry).constructors i hmem
  obtain ⟨t', ht', htarget⟩ := except_bind_eq_ok.mp htarget
  obtain ⟨owner, hclass, htarget⟩ := except_bind_eq_ok.mp htarget
  cases htarget
  rw [method_eq_ok, ht] at ht'
  cases ht'
  obtain rfl := receiverType_of_classType hclass
  exact ⟨hconstructor, hw.instances i t ht (.inl hconstructor),
    h.subtypes sub t.owner name _ (howner ▸ hsub)⟩

theorem Draft.Listed.isSubtype_base (hlisted : d.Listed) {base : Nat} {entry : TypeDef}
    (hentry : d.types[i]? = some entry) (hbase : entry.base = some base) :
    d.isSubtype i base = true := by
  have hi := (Array.getElem?_eq_some_iff.mp hentry).1
  have hlt := (hlisted i entry hentry).bases base (by simp [hbase])
  obtain ⟨n, hn⟩ : ∃ n, d.types.size = n + 2 := ⟨d.types.size - 2, by omega⟩
  refine List.contains_iff_mem.mpr ?_
  rw [lineage, hn, lineageFrom, hentry]
  refine List.mem_cons_of_mem _ (List.mem_flatMap.mpr ⟨base, by simp [hbase], ?_⟩)
  rw [lineageFrom, Array.getElem?_eq_getElem (Nat.lt_trans hlt hi)]
  exact .head _

theorem CallTarget.result_fits {result : Option Variable}
    {slots : List StaticType} :
    target.isConstructor = false →
    result.map Variable.ty = (if target.returnType.isVoid then none else some target.returnType) →
    (∀ v, result = some v → v.SlotOf slots v.ty) →
    match result with
    | none => target.isConstructor = true ∨ target.returnType.isVoid = true
    | some r => target.isConstructor = false ∧ target.returnType.isVoid = false ∧
      r.SlotOf slots target.returnType := by
  intro hconstructor hty hslot
  cases hvoid : target.returnType.isVoid with
  | true =>
    rw [hvoid, if_pos rfl, Option.map_eq_none_iff] at hty
    subst hty
    exact .inr rfl
  | false =>
    rw [hvoid, if_neg Bool.false_ne_true] at hty
    obtain ⟨v, rfl, hv⟩ := Option.map_eq_some_iff.mp hty
    exact ⟨hconstructor, rfl, hv ▸ hslot v rfl⟩

theorem Edit.Stands.fits {e : Edit} {c : Command} (h : e.Stands d m t c)
    (ht : d.methods[m]? = some t) (hd : d.TypedBy R slots) (hw : d.Wired) (hlisted : d.Listed)
    (ho : ∀ o ∈ e.operands, o.Fits R (slots m))
    (hr : ∀ v, c.result? = some v → v.SlotOf (slots m) v.ty) :
    c.Fits R (slots m) t.returnType := by
  have hcondition {left right : Variable} {comparison : Comparison} {c : Condition}
      (hc : Condition.make left comparison right = .ok c)
      (ho : ∀ o ∈ [left, right], o.Fits R (slots m)) :
      c.left.Fits R (slots m) ∧ c.right.Fits R (slots m) := by
    obtain ⟨widenTo, -, hc⟩ := except_bind_eq_ok.mp hc
    cases hc
    exact ⟨ho left (by simp), ho right (by simp)⟩
  have hclass {type : Nat} {name : String} {entry : TypeDef} (htype : d.types[type]? = some entry)
      (id : Nat) (hid : (StaticType.class type name).classId? = some id) : id < R.classes := by
    cases hid
    exact Nat.lt_of_lt_of_le (Array.getElem?_eq_some_iff.mp htype).1 hd.classes
  cases h with
  | createLocal hty hv => exact trivial
  | assign htarget hsource hcoercion =>
    exact ⟨ho _ (by simp [operands]), ho _ (by simp [operands]), hd.coercion_fits hcoercion⟩
  | arithmetic hleft hright hty hv =>
    exact ⟨ho _ (by simp [operands]), ho _ (by simp [operands]), hv ▸ hr _ rfl⟩
  | newPlain htype habstract hv =>
    exact ⟨hclass htype, fun a ha => absurd ha List.not_mem_nil, fun target ht => (by cases ht),
      hv ▸ hr _ rfl⟩
  | newObject htype habstract hfind htarget hbound hv =>
    refine ⟨hclass htype, (hd.arguments hbound ho).1, fun target ht => ?_, hv ▸ hr _ rfl⟩
    cases ht
    obtain ⟨-, hstatic, haccepts⟩ := hd.constructor hw hlisted hfind htarget
      (Draft.isSubtype_refl htype) _
    refine hd.fits_target htarget hbound ho ?_
    rw [hstatic, if_neg Bool.false_ne_true]
    exact .cons haccepts .nil
  | @callStatic method args target bound result htarget hconstructor hstatic hbound hty =>
    refine ⟨fun r hr => (by cases hr), (hd.arguments hbound ho).1,
      hd.fits_target htarget hbound ho ?_, ?_,
      CallTarget.result_fits hconstructor hty fun v hv => hr v hv⟩
    · rw [hstatic, if_pos rfl]
      exact .nil
    · rw [CallTarget.mode, hconstructor, hstatic]
      rfl
  | @callInstance method receiver args target object bound result htarget hconstructor hstatic
      hobject howned hcoercion hbound hty =>
    have hargs (a : Variable) (ha : a ∈ args) : a.Fits R (slots m) :=
      ho a (List.mem_append_right _ ha)
    refine ⟨fun r hr' => ?_, (hd.arguments hbound hargs).1,
      hd.fits_target htarget hbound hargs ?_, ?_,
      CallTarget.result_fits hconstructor hty fun v hv => hr v hv⟩
    · cases hr'
      obtain rfl | ⟨-, hthis⟩ := hobject
      · exact ho object (List.mem_append_left _ (.head _))
      · exact (hd.this_fits ht hthis).1
    · rw [hstatic, if_neg Bool.false_ne_true]
      exact .cons (hd.coercion_fits hcoercion) .nil
    · rw [CallTarget.mode, hconstructor, hstatic]
      rfl
  | @callBase args owner base constructor target this bound _ howner hbase hfind htarget hbound
      hthis =>
    obtain ⟨hfits, hty, -⟩ := hd.this_fits ht hthis
    obtain ⟨hconstructor, hstatic, haccepts⟩ := hd.constructor hw hlisted hfind htarget
      (hlisted.isSubtype_base howner hbase) ((d.types[t.owner]?.map (·.name)).getD "")
    refine ⟨fun r hr' => ?_, (hd.arguments hbound ho).1, hd.fits_target htarget hbound ho ?_, ?_,
      .inl hconstructor⟩
    · cases hr'
      exact hfits
    · rw [hstatic, if_neg Bool.false_ne_true]
      refine .cons ?_ .nil
      rw [hty]
      exact haccepts
    · rw [CallTarget.mode, hconstructor]
      rfl
  | box howned hvalue hv => exact ⟨ho _ (by simp [operands]), hv ▸ hr _ rfl⟩
  | unbox howned hty hvalue hv => exact ⟨ho _ (by simp [operands]), hty, hv ▸ hr _ rfl⟩
  | cast howned hty hvalue hv =>
    exact ⟨ho _ (by simp [operands]), R.reference _ hvalue, hv ▸ hr _ rfl⟩
  | raise howned hvalue hnull => exact ⟨ho _ (by simp [operands]), R.reference _ hvalue⟩
  | ifBegin _ _ hc | elseIf _ _ hc | whileBegin _ _ hc => exact hcondition hc ho
  | catchBegin hty hv => exact hv ▸ hr _ rfl
  | ret howned hreturn hcoercion =>
    exact ⟨ho _ (by simp [operands]), hd.coercion_fits hcoercion⟩
  | _ => exact trivial

end

/-- The variables that a method may use: constants, whose types are those of their values, and what
was given out for it. -/
def Proper (issued : List (Nat × Variable)) (m : Nat) (v : Variable) : Prop :=
  (∃ value : Literal, v = .constant value ∧ value.isProper = true) ∨ (m, v) ∈ issued

instance (issued : List (Nat × Variable)) (m : Nat) (v : Variable) :
    Decidable (Proper issued m v) :=
  decidable_of_iff ((match v with
    | .constant value => value.isProper
    | _ => false) = true ∨ (m, v) ∈ issued) <| by
    cases v <;> simp [Proper]

instance : Fair Proper where
  one _ _ := .inl ⟨.i32 1, rfl, rfl⟩
  given _ _ _ h := .inr h
  mono _ _ _ _ hsub h := h.imp id (hsub _)

def Admits (R : Rules) (Allowed : List (Nat × Variable) → Nat → Variable → Prop) : Prop :=
  ∀ issued m v, Allowed issued m v →
    (∃ value : Literal, v = .constant value ∧ value.Fits R) ∨ (m, v) ∈ issued

theorem admits_proper (R : Rules) : Admits R Proper := by
  rintro issued m v (⟨value, rfl, hvalue⟩ | hmem)
  · refine .inl ⟨value, rfl, ?_⟩
    cases value with
    | enum ty member value =>
      cases ty with
      | enum id name => exact R.member id name
      | _ => cases hvalue
    | _ => exact trivial
  · exact .inr hmem

variable {Allowed : List (Nat × Variable) → Nat → Variable → Prop}

theorem Admits.fits {slots : List StaticType} {m : Nat} {v : Variable} (ha : Admits R Allowed)
    (h : Allowed issued m v) (hissued : ∀ v, (m, v) ∈ issued → v.Fits R slots) :
    v.Fits R slots := by
  obtain ⟨value, rfl, hvalue⟩ | hmem := ha issued m v h
  · exact hvalue
  · exact hissued v hmem

def MethodDef.Typed (R : Rules) (slots : List StaticType) (t : MethodDef) (body : Body) : Prop :=
  ∃ (e : Emitter) (level : Nat → List StaticType), e.Closed ∧ body = e.body ∧
    t.Graded (Grading.types R slots t.returnType) e level

theorem Course.typed_upkeep (h : Course Allowed d issued) (ha : Admits R Allowed) :
    Upkeep (fun d _ m v => d.TypedBy R slots → v.Fits R (slots m))
      (fun d _ m t c => d.TypedBy R slots → c.Fits R (slots m) t.returnType) d issued := by
  have hshrink {d d' : Draft} {issued issued' : List (Nat × Variable)}
      (hon : Course.Onto Allowed d issued d' issued') (hd : d'.TypedBy R slots) :
      d.TypedBy R slots := hd.shrink hon.retains hon.grows hon.course.owner
  refine h.upkeep (fun hon hv hd => hv (hshrink hon hd)) (fun hon ht ht' hc hd => ?_)
    (fun l h ih ho hl hd => ?_) fun {d d' issued m t t' c} e h ih ho hs he => ?_
  · rw [(MethodDef.eq_of_declaration (hon.grows.method ht ht').declaration).2.2.1]
    exact hc (hshrink hon hd)
  · exact Lookup.fits hl hd h.wired h.listed fun o hmem =>
      ha.fits (ho o hmem) fun v hv => ih.given _ v hv hd
  · have htakes := he.takes _ (.refl _)
    have hresult (hd : d'.TypedBy R slots) (v : Variable) (hv : c.result? = some v) :
        v.SlotOf (slots m) v.ty := by
      refine hd.slotOf_result (History.take (h.history_of_edited he) htakes) he.found_after ?_
      rw [MethodDef.results, htakes.commands_eq, Array.toList_push, List.filterMap_append]
      exact List.mem_append_right _ (by simp [hv])
    refine ⟨fun v hv hd => ?_, fun hd => ?_⟩
    · have hslot := hresult hd v hv
      cases v with
      | slot method index name ty => exact hslot
      | _ => cases hslot
    · have hd₀ := hd.shrink he.redeclares.retains he.draft_grows h.owner
      rw [(MethodDef.eq_of_declaration htakes.declaration_eq).2.2.1]
      exact hs.fits he.found hd₀ h.wired h.listed
        (fun o hmem => ha.fits (ho o hmem) fun v hv => ih.given _ v hv hd₀) (hresult hd)

theorem Course.typed (h : Course Allowed d issued) (ha : Admits R Allowed)
    (hd : d.TypedBy R slots) {m : Nat} {t : MethodDef} {body : Body} (ht : d.methods[m]? = some t)
    (hstate : t.state = .finished body) (hconcrete : t.attrs.isAbstract = false) :
    t.Typed R (slots m) body := by
  obtain ⟨t₀, code, _, h₀, hcode, rfl, rfl⟩ := (h.settled ht (.refl _)).ended hstate
  obtain ⟨hblocks, rfl, -⟩ | ⟨hnew, -, id, f, hfield, hcode⟩ := hcode
  · have hfits (c : Emitted) (hmem : c ∈ t₀.commands) : c.command.Fits R (slots m) t₀.returnType :=
      (h.typed_upkeep ha).used m _ ht c hmem hd
    obtain ⟨level, hl⟩ := h₀.graded_complete
      (fun c hmem => Command.graded_of_fits (hfits c hmem) hd.strings) MethodDef.types_implied
    exact ⟨t₀.complete, level, h₀.closed_complete hblocks hconcrete, rfl, hl.code, hl.commands⟩
  · have hstatic : t₀.attrs.isStatic = false := by
      cases hcode <;> assumption
    obtain ⟨rest, hslots⟩ := hd.bodies m _ ht
    have hsplit : slots m = d.receiverType t₀ :: t₀.paramTypes ++
        (t₀.results.map Variable.ty ++ rest) := by
      rw [← List.append_assoc, ← Draft.takes_of_instance hstatic]
      exact hslots.symm
    obtain ⟨level, hl⟩ := h₀.graded_accessor hnew hcode
      (hcode.typesAll (hd.fields id f hfield.1) hsplit)
    exact ⟨_, level, (h₀.closed_accessor hnew hcode).1, rfl, hl.code, hl.commands⟩

end Bytesmith.Build
