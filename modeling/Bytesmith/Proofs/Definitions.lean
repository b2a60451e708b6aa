import Bytesmith.Proofs.Tables

namespace Bytesmith.Build

open Code Outcome BuildM

theorem map_modify {α β : Type} {as : Array α} {i : Nat} {f : α → α} {part : α → β}
    (h : ∀ a, part (f a) = part a) : (as.modify i f).map part = as.map part := by
  have hpart : part ∘ f = part := funext h
  apply Array.ext_getElem?
  intro j
  rw [Array.getElem?_map, Array.getElem?_modify, Array.getElem?_map]
  by_cases hj : i = j
  · rw [if_pos hj, Option.map_map, hpart]
  · rw [if_neg hj]

def TypeDef.bare (t : TypeDef) : TypeDef := { t with created := none }

def EnumDef.bare (e : EnumDef) : EnumDef := { e with created := none }

def MethodDef.bare (t : MethodDef) : MethodDef :=
  .start t.owner t.name t.attrs t.returnType t.params t.isConstructor

theorem TypeDef.heading_bare (t : TypeDef) : t.bare.heading = t.heading := rfl

theorem MethodDef.declaration_bare (t : MethodDef) : t.bare.declaration = t.declaration := rfl

theorem MethodDef.bare_eq_iff {t t' : MethodDef} :
    t'.bare = t.bare ↔ t'.declaration = t.declaration := by
  constructor
  · intro h
    rw [← declaration_bare t', h, declaration_bare]
  · intro h
    simp only [declaration, Prod.mk.injEq] at h
    obtain ⟨howner, hname, hattrs, hreturn, hparams, hkind⟩ := h
    rw [bare, bare, howner, hname, hattrs, hreturn, hparams, hkind]

namespace Draft

def bare (d : Draft) : Draft :=
  { d with
    types := d.types.map TypeDef.bare
    enums := d.enums.map EnumDef.bare
    methods := d.methods.map MethodDef.bare
    constants := .empty
    nameCount := 0
    created := none }

def SameDefinitions (d d' : Draft) : Prop := d'.bare = d.bare

instance : Std.Refl SameDefinitions := ⟨fun _ => rfl⟩

instance : Trans SameDefinitions SameDefinitions SameDefinitions := ⟨fun h h' => Eq.trans h' h⟩

variable {d d' : Draft}

namespace SameDefinitions

theorem type (h : d.SameDefinitions d') {i : Nat} {t : TypeDef} (ht : d.types[i]? = some t) :
    ∃ t', d'.types[i]? = some t' ∧ t'.bare = t.bare := by
  have htypes : d'.bare.types[i]? = d.bare.types[i]? := by rw [h]
  rw [bare, bare, Array.getElem?_map, Array.getElem?_map, ht] at htypes
  exact Option.map_eq_some_iff.mp htypes

theorem method (h : d.SameDefinitions d') {i : Nat} {t : MethodDef} (ht : d.methods[i]? = some t) :
    ∃ t', d'.methods[i]? = some t' ∧ t'.declaration = t.declaration := by
  have hmethods : d'.bare.methods[i]? = d.bare.methods[i]? := by rw [h]
  rw [bare, bare, Array.getElem?_map, Array.getElem?_map, ht] at hmethods
  obtain ⟨t', ht', heq⟩ := Option.map_eq_some_iff.mp hmethods
  exact ⟨t', ht', MethodDef.bare_eq_iff.mp heq⟩

theorem fields (h : d.SameDefinitions d') : d'.fields = d.fields := by
  have hfields : d'.bare.fields = d.bare.fields := by rw [h]
  exact hfields

theorem properties (h : d.SameDefinitions d') : d'.properties = d.properties := by
  have hproperties : d'.bare.properties = d.bare.properties := by rw [h]
  exact hproperties

theorem symm (h : d.SameDefinitions d') : d'.SameDefinitions d := Eq.symm h

theorem retains (h : d.SameDefinitions d') : d.Retains d' := by
  refine ⟨fun i t ht => ?_, fun i f hf => ?_, fun i p hp => ⟨p, ?_, rfl⟩, fun i t ht => h.method ht⟩
  · obtain ⟨t', ht', heq⟩ := h.type ht
    exact ⟨t', ht', by rw [← t'.heading_bare, heq, t.heading_bare]⟩
  · rw [h.fields, hf]
  · rw [h.properties, hp]

end SameDefinitions

theorem Touches.sameDefinitions {m : Nat} (h : Touches m d d') : d.SameDefinitions d' := by
  have hmethods : d'.methods.map MethodDef.bare = d.methods.map MethodDef.bare := by
    refine Array.ext_getElem? fun i => ?_
    rw [Array.getElem?_map, Array.getElem?_map]
    have hi := h.redeclares.methods i
    cases ht' : d'.methods[i]? with
    | none =>
      rw [ht', Option.map_none] at hi
      rw [Option.map_eq_none_iff.mp hi.symm]
    | some t' =>
      rw [ht', Option.map_some] at hi
      obtain ⟨t, ht, hdecl⟩ := Option.map_eq_some_iff.mp hi.symm
      rw [ht, Option.map_some, Option.map_some, MethodDef.bare_eq_iff.mpr hdecl.symm]
  rw [SameDefinitions, h.rest, bare, bare]
  exact congrArg (fun methods => { d.bare with methods := methods }) hmethods

theorem sameDefinitions_modifyType (d : Draft) (id : Nat) (c : ClassEntry) :
    d.SameDefinitions (d.modifyType id ({ · with created := some c })) := by
  have htypes : (d.types.modify id ({ · with created := some c })).map TypeDef.bare =
      d.types.map TypeDef.bare := map_modify fun _ => rfl
  exact congrArg (fun types => { d.bare with types := types }) htypes

end Draft

namespace BuildM

open Draft

theorem sameDefinitions_finalize (m : Nat) : Leads SameDefinitions (finalize m) :=
  (leads_finalize m).mono fun _ _ h => h.sameDefinitions

theorem sameDefinitions_createType (id : Nat) : Leads SameDefinitions (createType id) :=
  leads_createType sameDefinitions_finalize sameDefinitions_modifyType id

theorem sameDefinitions_createEnums : Leads SameDefinitions createEnums := by
  intro d
  have henums : (d.enums.map fun e => { e with created := some e.table }).map EnumDef.bare =
      d.enums.map EnumDef.bare := by
    rw [Array.map_map]
    rfl
  exact congrArg (fun enums => { d.bare with enums := enums }) henums

theorem sameDefinitions_assemble : Leads SameDefinitions assemble :=
  leads_assemble sameDefinitions_createEnums sameDefinitions_createType

end BuildM

theorem Operation.sameDefinitions_perform {op : Operation} (h : op.defines = false) :
    Leads Draft.SameDefinitions op.perform := by
  cases op with
  | look m l => exact Leads.map (.of_state (final_reading _)) _
  | edit m e => exact ((touches_edit m e).mono fun _ _ h => h.sameDefinitions).map _
  | bump m op target =>
    exact ((touches_bump m op target).mono fun _ _ h => h.sameDefinitions).map _
  | callNamed m receiver name args =>
    exact ((touches_callNamed m _ name args).mono fun _ _ h => h.sameDefinitions).map _
  | finalize m => exact (sameDefinitions_finalize m).map _
  | createType id => exact (sameDefinitions_createType id).map _
  | _ => cases h

theorem ProjectM.sameDefinitions_create (p : Project) :
    p.draft.SameDefinitions (final (create p)).draft :=
  leads_create sameDefinitions_assemble (fun _ _ => rfl) p

/-- The relation holds when nothing is defined, and every single definition leads to it. -/
structure Draft.Absorbs (R : Draft → Draft → Prop) : Prop where
  same : ∀ d d' : Draft, d.SameDefinitions d' → R d d'
  backing : ∀ (d : Draft) (id field : Nat),
    R d { d with properties := d.properties.modify id ({ · with backing := some field }) }
  defineType : ∀ name attrs base interfaces, Leads R (defineType name attrs base interfaces)
  defineEnum : ∀ name, Leads R (defineEnum name)
  defineEnumMember : ∀ enum name value, Leads R (defineEnumMember enum name value)
  defineField : ∀ type name ty attrs, Leads R (defineField type name ty attrs)
  defineMethod : ∀ type name attrs returnType params,
    Leads R (defineMethod type name attrs returnType params)
  defineConstructor : ∀ type attrs params, Leads R (defineConstructor type attrs params)
  defineProperty : ∀ type name ty getter setter, Leads R (defineProperty type name ty getter setter)
  setEntryPoint : ∀ m, Leads R (setEntryPoint m)

theorem Draft.Absorbs.perform {R : Draft → Draft → Prop} [Std.Refl R] [Trans R R R]
    (h : Draft.Absorbs R) (op : Operation) : Leads R op.perform := by
  have hedit (m : Nat) (e : Edit) : Leads R (e.perform m) :=
    (touches_edit m e).mono fun d d' ht => h.same d d' ht.sameDefinitions
  have hsynthesize (m : Nat) (code : List (Instr Label)) : Leads R (synthesize m code) :=
    (touches_synthesize m code).mono fun d d' ht => h.same d d' ht.sameDefinitions
  cases op with
  | defineType => exact (h.defineType _ _ _ _).map _
  | defineEnum => exact (h.defineEnum _).map _
  | defineEnumMember => exact (h.defineEnumMember _ _ _).map _
  | defineField => exact (h.defineField _ _ _ _).map _
  | defineMethod => exact (h.defineMethod _ _ _ _ _).map _
  | defineConstructor => exact (h.defineConstructor _ _ _).map _
  | defineDefaultConstructor type attrs =>
    exact (leads_defineDefaultConstructor (h.defineConstructor type attrs []) hedit).map _
  | defineProperty => exact (h.defineProperty _ _ _ _ _).map _
  | defineAutoProperty type name ty =>
    refine (leads_defineAutoProperty fun d id d' hg => ?_).map _
    exact (leads_generateProperty h.defineField h.defineMethod hsynthesize h.defineProperty
      h.backing type name ty).of_ok hg
  | setEntryPoint => exact (h.setEntryPoint _).map _
  | _ => exact (Operation.sameDefinitions_perform rfl).mono h.same

end Bytesmith.Build
