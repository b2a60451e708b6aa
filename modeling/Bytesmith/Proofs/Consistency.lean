import Bytesmith.Proofs.Definitions
import Bytesmith.Proofs.Enums
import Bytesmith.Proofs.FailStop
import Bytesmith.Proofs.Rosters

namespace Bytesmith.Build

open Code Outcome

/-- A part of each entry that has one of the indices. -/
def gather {α β : Type} (table : Array α) (part : α → β) (ids : List Nat) : List β :=
  ids.filterMap fun i => table[i]?.map part

section

variable {α β : Type} {table table' : Array α} {part : α → β} {ids : List Nat}

theorem mem_gather {b : β} :
    b ∈ gather table part ids ↔ ∃ i ∈ ids, ∃ a, table[i]? = some a ∧ part a = b := by
  simp [gather, List.mem_filterMap]

theorem gather_congr (h : ∀ i ∈ ids, ∃ a, table[i]? = some a ∧
    ∃ a', table'[i]? = some a' ∧ part a' = part a) :
    gather table' part ids = gather table part ids := by
  refine List.filterMap_congr fun i hi => ?_
  obtain ⟨a, ha, a', ha', heq⟩ := h i hi
  rw [ha, ha', Option.map_some, Option.map_some, heq]

theorem gather_push {a : α} (h : ∀ i ∈ ids, ∃ a, table[i]? = some a) :
    gather (table.push a) part (ids ++ [table.size]) = gather table part ids ++ [part a] := by
  have hold : gather (table.push a) part ids = gather table part ids := by
    refine gather_congr fun i hi => ?_
    obtain ⟨b, hb⟩ := h i hi
    exact ⟨b, hb, b, getElem?_push_of_some hb, rfl⟩
  rw [gather, List.filterMap_append, ← gather, hold]
  simp

end

namespace Draft

/-- The names of types and enums, which share one space of names. -/
def typeNames (d : Draft) : List String :=
  d.types.toList.map (·.name) ++ d.enums.toList.map (·.name)

/-- The names of fields and properties, which are those of no other member. -/
def ownNames (d : Draft) (t : TypeDef) : List String :=
  gather d.fields (·.name) t.fields ++ gather d.properties (·.name) t.properties

def signatures (d : Draft) (methods : List Nat) : List (String × List StaticType) :=
  gather d.methods (fun e => (e.name, e.paramTypes)) methods

/-- The type is built on types before it that can be built on. -/
structure Grounded (d : Draft) (i : Nat) (t : TypeDef) : Prop where
  base : ∀ b, t.base = some b → b < i ∧
    ∃ s, d.types[b]? = some s ∧ s.attrs.isInterface = false ∧ s.attrs.isSealed = false
  interfaces : ∀ b ∈ t.interfaces, b < i ∧ ∃ s, d.types[b]? = some s ∧ s.attrs.isInterface = true

/-- Fields and properties of the type own their names, and methods and constructors have signatures
of their own. -/
structure Distinct (d : Draft) (t : TypeDef) : Prop where
  names : (d.ownNames t).Nodup
  methodNames : ∀ s ∈ d.signatures t.methods, s.1 ∉ d.ownNames t
  methods : (d.signatures t.methods).Nodup
  constructors : ((d.signatures t.constructors).map Prod.snd).Nodup
  constructorNames : ∀ s ∈ d.signatures t.constructors, s.1 = constructorName

/-- The accessors of the property are instance methods of its type that fit its own type. -/
structure Fitted (d : Draft) (p : PropertyDef) : Prop where
  getter : ∀ g, p.getter = some g → ∃ e, d.methods[g]? = some e ∧ e.owner = p.owner ∧
    e.attrs.isStatic = false ∧ e.isConstructor = false ∧ e.paramTypes = [] ∧ e.returnType = p.ty
  setter : ∀ s, p.setter = some s → ∃ e, d.methods[s]? = some e ∧ e.owner = p.owner ∧
    e.attrs.isStatic = false ∧ e.isConstructor = false ∧ e.paramTypes = [p.ty] ∧
      e.returnType.isVoid = true

structure Consistent (d : Draft) : Prop where
  names : d.typeNames.Nodup
  listed : d.Listed
  grounded : ∀ (i : Nat) (t : TypeDef), d.types[i]? = some t → d.Grounded i t
  distinct : ∀ (i : Nat) (t : TypeDef), d.types[i]? = some t → d.Distinct t
  fitted : ∀ (i : Nat) (p : PropertyDef), d.properties[i]? = some p → d.Fitted p

variable {d d' : Draft} {i : Nat} {t t' : TypeDef}

theorem Grounded.retain (h : d.Grounded i t) (hr : d.Retains d') (ht : t'.heading = t.heading) :
    d'.Grounded i t' := by
  obtain ⟨-, -, hbase, hinterfaces⟩ := TypeDef.eq_of_heading ht
  constructor
  · intro b hb
    rw [hbase] at hb
    obtain ⟨hlt, s, hs, hkind, hsealed⟩ := h.base b hb
    obtain ⟨s', hs', heading⟩ := hr.types b s hs
    rw [← (TypeDef.eq_of_heading heading).2.1] at hkind hsealed
    exact ⟨hlt, s', hs', hkind, hsealed⟩
  · intro b hb
    rw [hinterfaces] at hb
    obtain ⟨hlt, s, hs, hkind⟩ := h.interfaces b hb
    obtain ⟨s', hs', heading⟩ := hr.types b s hs
    rw [← (TypeDef.eq_of_heading heading).2.1] at hkind
    exact ⟨hlt, s', hs', hkind⟩

theorem signatures_retain {methods : List Nat} (h : ∀ m ∈ methods, ∃ e, d.methods[m]? = some e)
    (hr : d.Retains d') : d'.signatures methods = d.signatures methods := by
  refine gather_congr fun m hm => ?_
  obtain ⟨e, he⟩ := h m hm
  obtain ⟨e', he', hdecl⟩ := hr.methods m e he
  have hname : e'.name = e.name := congrArg (·.2.1) hdecl
  have hparams : e'.params = e.params := (MethodDef.eq_of_declaration hdecl).2.2.2.1
  exact ⟨e, he, e', he', by rw [hname, MethodDef.paramTypes, hparams, MethodDef.paramTypes]⟩

namespace Lists

variable (h : d.Lists i t)
include h

theorem exists_field : ∀ f ∈ t.fields, ∃ e, d.fields[f]? = some e := by
  intro f hf
  obtain ⟨e, he, -⟩ := h.fields f hf
  exact ⟨e, he⟩

theorem exists_property : ∀ p ∈ t.properties, ∃ e, d.properties[p]? = some e := by
  intro p hp
  obtain ⟨e, he, -⟩ := h.properties p hp
  exact ⟨e, he⟩

theorem exists_method : ∀ m ∈ t.methods, ∃ e, d.methods[m]? = some e := by
  intro m hm
  obtain ⟨e, he, -⟩ := h.methods m hm
  exact ⟨e, he⟩

theorem exists_constructor : ∀ c ∈ t.constructors, ∃ e, d.methods[c]? = some e := by
  intro c hc
  obtain ⟨e, he, -⟩ := h.constructors c hc
  exact ⟨e, he⟩

theorem fieldNames_retain (hr : d.Retains d') :
    gather d'.fields (·.name) t.fields = gather d.fields (·.name) t.fields := by
  refine gather_congr fun f hf => ?_
  obtain ⟨e, he⟩ := h.exists_field f hf
  exact ⟨e, he, e, hr.fields f e he, rfl⟩

theorem propertyNames_retain (hr : d.Retains d') :
    gather d'.properties (·.name) t.properties = gather d.properties (·.name) t.properties := by
  refine gather_congr fun p hp => ?_
  obtain ⟨e, he⟩ := h.exists_property p hp
  obtain ⟨e', he', heading⟩ := hr.properties p e he
  exact ⟨e, he, e', he', (PropertyDef.eq_of_heading heading).2.1⟩

theorem ownNames_retain (hr : d.Retains d') : d'.ownNames t = d.ownNames t := by
  rw [ownNames, h.fieldNames_retain hr, h.propertyNames_retain hr, ownNames]

theorem distinct_retain (hdistinct : d.Distinct t) (hr : d.Retains d') : d'.Distinct t := by
  obtain ⟨hnames, hmethodNames, hmethods, hconstructors, hconstructorNames⟩ := hdistinct
  rw [← signatures_retain h.exists_constructor hr] at hconstructors hconstructorNames
  rw [← signatures_retain h.exists_method hr] at hmethodNames hmethods
  rw [← h.ownNames_retain hr] at hnames hmethodNames
  exact ⟨hnames, hmethodNames, hmethods, hconstructors, hconstructorNames⟩

end Lists

theorem Distinct.of_bare (h : d.Distinct t) (heq : t'.bare = t.bare) : d.Distinct t' := by
  have hbare : d.Distinct t.bare := ⟨h.names, h.methodNames, h.methods, h.constructors,
    h.constructorNames⟩
  rw [← heq] at hbare
  exact ⟨hbare.names, hbare.methodNames, hbare.methods, hbare.constructors, hbare.constructorNames⟩

theorem Lists.of_bare (h : d.Lists i t) (heq : t'.bare = t.bare) : d.Lists i t' := by
  have hbare : d.Lists i t.bare := ⟨h.bases, h.fields, h.properties, h.methods, h.constructors⟩
  rw [← heq] at hbare
  exact ⟨hbare.bases, hbare.fields, hbare.properties, hbare.methods, hbare.constructors⟩

theorem Fitted.retain {p p' : PropertyDef} (h : d.Fitted p) (hr : d.Retains d')
    (hp : p'.heading = p.heading) : d'.Fitted p' := by
  obtain ⟨howner, -, hty, hgetter, hsetter⟩ := PropertyDef.eq_of_heading hp
  have hsame {m : Nat} {e : MethodDef} (he : d.methods[m]? = some e) :
      ∃ e', d'.methods[m]? = some e' ∧ e'.owner = e.owner ∧ e'.attrs = e.attrs ∧
        e'.returnType = e.returnType ∧ e'.paramTypes = e.paramTypes ∧
          e'.isConstructor = e.isConstructor := by
    obtain ⟨e', he', hdecl⟩ := hr.methods m e he
    obtain ⟨howner, hattrs, hreturn, hparams, hkind⟩ := MethodDef.eq_of_declaration hdecl
    exact ⟨e', he', howner, hattrs, hreturn, by rw [MethodDef.paramTypes, hparams]; rfl, hkind⟩
  constructor
  · intro g hg
    rw [hgetter] at hg
    obtain ⟨e, he, hrest⟩ := h.getter g hg
    obtain ⟨e', he', howner', hattrs, hreturn, hparams, hkind⟩ := hsame he
    rw [howner, hty]
    exact ⟨e', he', by rwa [howner', hattrs, hreturn, hparams, hkind]⟩
  · intro s hs
    rw [hsetter] at hs
    obtain ⟨e, he, hrest⟩ := h.setter s hs
    obtain ⟨e', he', howner', hattrs, hreturn, hparams, hkind⟩ := hsame he
    rw [howner, hty]
    exact ⟨e', he', by rwa [howner', hattrs, hreturn, hparams, hkind]⟩

namespace Consistent

theorem of_same (h : d.Consistent) (hr : d.Retains d')
    (htypes : ∀ (i : Nat) (t' : TypeDef), d'.types[i]? = some t' →
      ∃ t, d.types[i]? = some t ∧ t'.bare = t.bare)
    (hproperties : ∀ (i : Nat) (p' : PropertyDef), d'.properties[i]? = some p' →
      ∃ p, d.properties[i]? = some p ∧ p'.heading = p.heading)
    (hnames : d'.typeNames = d.typeNames) : d'.Consistent := by
  refine ⟨hnames ▸ h.names, fun i t' ht' => ?_, fun i t' ht' => ?_, fun i t' ht' => ?_,
    fun i p' hp' => ?_⟩
  · obtain ⟨t, ht, heq⟩ := htypes i t' ht'
    exact ((h.listed i t ht).retain hr).of_bare heq
  · obtain ⟨t, ht, heq⟩ := htypes i t' ht'
    exact (h.grounded i t ht).retain hr (by rw [← t'.heading_bare, heq, t.heading_bare])
  · obtain ⟨t, ht, heq⟩ := htypes i t' ht'
    exact ((h.listed i t ht).distinct_retain (h.distinct i t ht) hr).of_bare heq
  · obtain ⟨p, hp, heading⟩ := hproperties i p' hp'
    exact (h.fitted i p hp).retain hr heading

end Consistent

theorem SameDefinitions.typeNames_eq (h : d.SameDefinitions d') : d'.typeNames = d.typeNames := by
  have hbare (d : Draft) : d.bare.typeNames = d.typeNames := by
    simp only [typeNames, bare, Array.toList_map, List.map_map]
    rfl
  rw [← hbare, h, hbare]

theorem SameDefinitions.consistent (h : d.SameDefinitions d') (hc : d.Consistent) :
    d'.Consistent := by
  refine hc.of_same h.retains (fun i t' ht' => ?_) (fun i p' hp' => ?_) h.typeNames_eq
  · obtain ⟨t, ht, heq⟩ := h.symm.type ht'
    exact ⟨t, ht, heq.symm⟩
  · rw [h.properties] at hp'
    exact ⟨p', hp', rfl⟩

variable {name : String} {u : Unit}

theorem ensureNewTypeName_eq_ok (h : d.ensureNewTypeName name = .ok u) : name ∉ d.typeNames := by
  unfold ensureNewTypeName at h
  split at h
  · cases h
  · rename_i hnew
    intro hmem
    apply hnew
    simp only [typeNames, List.mem_append, List.mem_map, Array.mem_toList_iff] at hmem
    simp only [Bool.or_eq_true, Array.any_eq_true', beq_iff_eq]
    exact hmem

theorem checkBase_eq_ok {attrs : TypeAttributes} {b : Nat} (h : d.checkBase name attrs b = .ok u) :
    ∃ s, d.types[b]? = some s ∧ s.attrs.isInterface = false ∧ s.attrs.isSealed = false := by
  obtain ⟨s, hs, h⟩ := except_bind_eq_ok.mp h
  obtain ⟨husable, -⟩ := except_guard_eq_ok.mp h
  exact ⟨s, BuildM.type_eq_ok.mp hs, by simpa using husable⟩

theorem checkInterface_eq_ok {b : Nat} (h : d.checkInterface b = .ok u) :
    ∃ s, d.types[b]? = some s ∧ s.attrs.isInterface = true := by
  obtain ⟨s, hs, h⟩ := except_bind_eq_ok.mp h
  refine ⟨s, BuildM.type_eq_ok.mp hs, ?_⟩
  cases hkind : s.attrs.isInterface with
  | true => rfl
  | false =>
    rw [hkind] at h
    cases h

theorem grounded_of_checkBases {attrs : TypeAttributes} {entry : TypeDef}
    (h : (do
      if let some b := entry.base then d.checkBase name attrs b
      entry.interfaces.forM d.checkInterface : Except BuildError Unit) = .ok u) :
    d.Grounded d.types.size entry := by
  have hinterfaces (h : entry.interfaces.forM d.checkInterface = .ok u) (b : Nat)
      (hb : b ∈ entry.interfaces) :
      b < d.types.size ∧ ∃ s, d.types[b]? = some s ∧ s.attrs.isInterface = true := by
    obtain ⟨s, hs, hkind⟩ := checkInterface_eq_ok (except_forM_eq_ok h b hb)
    exact ⟨(Array.getElem?_eq_some_iff.mp hs).1, s, hs, hkind⟩
  cases hbase : entry.base with
  | none =>
    rw [hbase] at h
    refine ⟨fun b hb => ?_, hinterfaces h⟩
    rw [hbase] at hb
    cases hb
  | some b =>
    rw [hbase] at h
    obtain ⟨_, hcheck, h⟩ := except_bind_eq_ok.mp h
    refine ⟨fun b' hb' => ?_, hinterfaces h⟩
    obtain rfl : b = b' := Option.some.inj (hbase.symm.trans hb')
    obtain ⟨s, hs, hkind⟩ := checkBase_eq_ok hcheck
    exact ⟨(Array.getElem?_eq_some_iff.mp hs).1, s, hs, hkind⟩

theorem ensureUnique_eq_ok {isMethod : Bool} : d.ensureUnique t name isMethod = .ok u ↔
    name ∉ d.ownNames t ∧ (isMethod = false → ∀ s ∈ d.signatures t.methods, s.1 ≠ name) := by
  have hnames : name ∈ d.ownNames t ↔
      (d.declaredField? name t).isSome = true ∨ (d.declaredProperty? name t).isSome = true := by
    simp [ownNames, declaredField?, declaredProperty?, mem_gather, Option.any_eq_true]
  have hmethod : d.hasMethod t name = true ↔ ∃ s ∈ d.signatures t.methods, s.1 = name := by
    simp [hasMethod, signatures, mem_gather, Option.any_eq_true]
  have hmethods : (∀ s ∈ d.signatures t.methods, s.1 ≠ name) ↔ ¬ d.hasMethod t name = true := by
    simp only [hmethod, not_exists, not_and, ne_eq]
  rw [hnames, hmethods, ensureUnique]
  cases (d.declaredField? name t).isSome <;> cases (d.declaredProperty? name t).isSome <;>
    cases isMethod <;> cases d.hasMethod t name <;> simp

theorem ensureNewSignature_eq_ok {members : List Nat} {params : List Parameter} :
    d.ensureNewSignature t members name params = .ok u ↔
      (name, params.map (·.ty)) ∉ d.signatures members := by
  have hany : (members.any fun m => d.methods[m]?.any fun e =>
      e.name == name && e.paramTypes == params.map (·.ty)) = true ↔
        (name, params.map (·.ty)) ∈ d.signatures members := by
    simp [signatures, mem_gather, Option.any_eq_true]
  rw [ensureNewSignature, ← hany]
  split <;> simp [*]

namespace Consistent

variable (h : d.Consistent)
include h

theorem push_type {entry : TypeDef} (hd : Declares d { d with types := d.types.push entry })
    (hfresh : entry.fields = [] ∧ entry.properties = [] ∧ entry.methods = [] ∧
      entry.constructors = [])
    (hname : entry.name ∉ d.typeNames) (hgrounded : d.Grounded d.types.size entry) :
    ({ d with types := d.types.push entry } : Draft).Consistent := by
  have hr := hd.retains
  refine ⟨?_, hd.listed h.listed, fun i t ht => ?_, fun i t ht => ?_, fun i p hp => ?_⟩
  · have hnames : ({ d with types := d.types.push entry } : Draft).typeNames =
        d.types.toList.map (·.name) ++ entry.name :: d.enums.toList.map (·.name) := by
      simp [typeNames]
    rw [hnames, List.nodup_middle, ← typeNames]
    exact List.nodup_cons.mpr ⟨hname, h.names⟩
  · obtain ht | ⟨rfl, rfl⟩ := getElem?_push_cases ht
    · exact (h.grounded i t ht).retain hr rfl
    · exact hgrounded.retain hr rfl
  · obtain ht | ⟨-, rfl⟩ := getElem?_push_cases ht
    · exact (h.listed i t ht).distinct_retain (h.distinct i t ht) hr
    · obtain ⟨hfields, hproperties, hmethods, hconstructors⟩ := hfresh
      constructor <;> simp [ownNames, signatures, gather, *]
  · exact (h.fitted i p hp).retain hr rfl

theorem push_enum {entry : EnumDef} (hname : entry.name ∉ d.typeNames) :
    ({ d with enums := d.enums.push entry } : Draft).Consistent := by
  have hd : Declares d { d with enums := d.enums.push entry } := .enums _
  have hr := hd.retains
  refine ⟨?_, hd.listed h.listed, fun i t ht => (h.grounded i t ht).retain hr rfl,
    fun i t ht => (h.listed i t ht).distinct_retain (h.distinct i t ht) hr,
    fun i p hp => (h.fitted i p hp).retain hr rfl⟩
  have hnames : ({ d with enums := d.enums.push entry } : Draft).typeNames =
      d.typeNames ++ [entry.name] := by
    simp [typeNames]
  rw [hnames, ← List.concat_eq_append]
  exact h.names.concat hname

theorem add_member {type : Nat} {f : TypeDef → TypeDef} (hfound : d.types[type]? = some t)
    (hd : Declares d d') (htypes : d'.types = d.types.modify type f)
    (hheading : ∀ t, (f t).heading = t.heading) (henums : d'.enums = d.enums)
    (hproperties : ∀ (i : Nat) (p : PropertyDef), d'.properties[i]? = some p →
      d.properties[i]? = some p ∨ d'.Fitted p)
    (hdistinct : d.Distinct t → d.Lists type t → d'.Distinct (f t)) : d'.Consistent := by
  have hr := hd.retains
  have hcases {i : Nat} {t : TypeDef} (ht : d'.types[i]? = some t) :
      ∃ t₀, d.types[i]? = some t₀ ∧ (i = type ∧ t = f t₀ ∨ i ≠ type ∧ t = t₀) := by
    rw [htypes] at ht
    exact modifyType_cases (d := d) ht
  refine ⟨?_, hd.listed h.listed, fun i t ht => ?_, fun i t ht => ?_, fun i p hp => ?_⟩
  · have hnames : d'.types.map (·.name) = d.types.map (·.name) := by
      rw [htypes]
      exact map_modify fun t => (TypeDef.eq_of_heading (hheading t)).1
    rw [typeNames, ← Array.toList_map, hnames, henums, Array.toList_map]
    exact h.names
  · obtain ⟨t₀, ht₀, ⟨rfl, rfl⟩ | ⟨-, rfl⟩⟩ := hcases ht
    · exact (h.grounded i t₀ ht₀).retain hr (hheading t₀)
    · exact (h.grounded i t ht₀).retain hr rfl
  · obtain ⟨t₀, ht₀, ⟨rfl, rfl⟩ | ⟨-, rfl⟩⟩ := hcases ht
    · obtain rfl : t = t₀ := Option.some.inj (hfound.symm.trans ht₀)
      exact hdistinct (h.distinct i t ht₀) (h.listed i t ht₀)
    · exact (h.listed i t ht₀).distinct_retain (h.distinct i t ht₀) hr
  · obtain hp | hp := hproperties i p hp
    · exact (h.fitted i p hp).retain hr rfl
    · exact hp

end Consistent

namespace Distinct

variable (h : d.Distinct t) (hl : d.Lists i t)
include h hl

theorem add_field {e : FieldDef} (hr : d.Retains d') (hfields : d'.fields = d.fields.push e)
    (hname : e.name ∉ d.ownNames t) (hmethods : ∀ s ∈ d.signatures t.methods, s.1 ≠ e.name) :
    d'.Distinct { t with fields := t.fields ++ [d.fields.size] } := by
  have hown : d'.ownNames { t with fields := t.fields ++ [d.fields.size] } =
      gather d.fields (·.name) t.fields ++ e.name :: gather d.properties (·.name) t.properties := by
    rw [ownNames, hl.propertyNames_retain hr, hfields, gather_push hl.exists_field,
      List.append_assoc, List.singleton_append]
  have hsame := hl.distinct_retain h hr
  refine ⟨?_, fun s hs hmem => ?_, hsame.methods, hsame.constructors, hsame.constructorNames⟩
  · rw [hown, List.nodup_middle]
    exact List.nodup_cons.mpr ⟨hname, h.names⟩
  · rw [signatures_retain hl.exists_method hr] at hs
    rw [hown, List.mem_append, List.mem_cons, or_left_comm, ← List.mem_append] at hmem
    exact hmem.elim (hmethods s hs) (h.methodNames s hs)

theorem add_property {e : PropertyDef} (hr : d.Retains d')
    (hproperties : d'.properties = d.properties.push e) (hname : e.name ∉ d.ownNames t)
    (hmethods : ∀ s ∈ d.signatures t.methods, s.1 ≠ e.name) :
    d'.Distinct { t with properties := t.properties ++ [d.properties.size] } := by
  have hown : d'.ownNames { t with properties := t.properties ++ [d.properties.size] } =
      d.ownNames t ++ [e.name] := by
    rw [ownNames, hl.fieldNames_retain hr, hproperties, gather_push hl.exists_property,
      ← List.append_assoc, ownNames]
  have hsame := hl.distinct_retain h hr
  refine ⟨?_, fun s hs hmem => ?_, hsame.methods, hsame.constructors, hsame.constructorNames⟩
  · rw [hown, ← List.concat_eq_append]
    exact h.names.concat hname
  · rw [signatures_retain hl.exists_method hr] at hs
    rw [hown, List.mem_append, List.mem_singleton] at hmem
    exact hmem.elim (h.methodNames s hs) (hmethods s hs)

theorem add_method {e : MethodDef} (hr : d.Retains d') (hmethods : d'.methods = d.methods.push e)
    (hname : e.name ∉ d.ownNames t) (hnew : (e.name, e.paramTypes) ∉ d.signatures t.methods) :
    d'.Distinct { t with methods := t.methods ++ [d.methods.size] } := by
  have hsignatures : d'.signatures (t.methods ++ [d.methods.size]) =
      d.signatures t.methods ++ [(e.name, e.paramTypes)] := by
    rw [signatures, hmethods, gather_push hl.exists_method, signatures]
  have hsame := hl.distinct_retain h hr
  refine ⟨hsame.names, ?_, ?_, hsame.constructors, hsame.constructorNames⟩
  · intro s hs
    change s.1 ∉ d'.ownNames t
    rw [hl.ownNames_retain hr]
    rw [hsignatures, List.mem_append, List.mem_singleton] at hs
    obtain hs | rfl := hs
    · exact h.methodNames s hs
    · exact hname
  · rw [hsignatures, ← List.concat_eq_append]
    exact h.methods.concat hnew

theorem add_constructor {e : MethodDef} (hr : d.Retains d')
    (hmethods : d'.methods = d.methods.push e) (hname : e.name = constructorName)
    (hnew : (e.name, e.paramTypes) ∉ d.signatures t.constructors) :
    d'.Distinct { t with constructors := t.constructors ++ [d.methods.size] } := by
  have hsignatures : d'.signatures (t.constructors ++ [d.methods.size]) =
      d.signatures t.constructors ++ [(e.name, e.paramTypes)] := by
    rw [signatures, hmethods, gather_push hl.exists_constructor, signatures]
  have hsame := hl.distinct_retain h hr
  refine ⟨hsame.names, hsame.methodNames, hsame.methods, ?_, fun s hs => ?_⟩
  · rw [hsignatures, List.map_append, List.map_singleton, ← List.concat_eq_append]
    refine h.constructors.concat fun hmem => hnew ?_
    -- constructors have one name, so those with the same parameters have the same signature
    obtain ⟨s, hs, heq⟩ := List.mem_map.mp hmem
    have hs' : s = (e.name, e.paramTypes) :=
      Prod.ext ((h.constructorNames s hs).trans hname.symm) heq
    rwa [← hs']
  · rw [hsignatures, List.mem_append, List.mem_singleton] at hs
    obtain hs | rfl := hs
    · exact h.constructorNames s hs
    · exact hname

end Distinct

abbrev KeepsConsistent : Draft → Draft → Prop := Preserves Consistent

end Draft

namespace BuildM

open Draft

variable {d : Draft}

theorem consistent_defineType (name : String) (attrs : TypeAttributes) (base : Option Nat)
    (interfaces : List Nat) : Leads KeepsConsistent (defineType name attrs base interfaces) := by
  intro d
  rw [defineType, get_bind]
  refine related_check fun _ hcheck hc => ?_
  obtain ⟨_, -, hcheck⟩ := except_bind_eq_ok.mp hcheck
  obtain ⟨_, -, hcheck⟩ := except_bind_eq_ok.mp hcheck
  obtain ⟨_, hname, hcheck⟩ := except_bind_eq_ok.mp hcheck
  have hgrounded : d.Grounded d.types.size ⟨name, attrs, base, interfaces, [], [], [], [], none⟩ :=
    grounded_of_checkBases hcheck
  exact hc.push_type (.type _ ⟨rfl, rfl, rfl, rfl⟩ rfl (lt_size_of_checkBases hcheck))
    ⟨rfl, rfl, rfl, rfl⟩ (ensureNewTypeName_eq_ok hname) hgrounded

theorem consistent_defineEnum (name : String) : Leads KeepsConsistent (defineEnum name) := by
  intro d
  rw [defineEnum, get_bind]
  refine related_check fun _ hcheck hc => ?_
  obtain ⟨_, -, hcheck⟩ := except_bind_eq_ok.mp hcheck
  obtain ⟨_, -, hcheck⟩ := except_bind_eq_ok.mp hcheck
  have hname : name ∉ d.typeNames := ensureNewTypeName_eq_ok hcheck
  exact hc.push_enum hname

theorem consistent_defineEnumMember (enum : Nat) (name : String) (value : Int32) :
    Leads KeepsConsistent (defineEnumMember enum name value) := by
  intro d
  rw [defineEnumMember, get_bind]
  refine related_check fun e _ => related_check fun _ _ hc => ?_
  have hd := Declares.enums (d := d) (d.enums.modify enum fun e =>
    { e with members := e.members ++ [(name, value)] })
  refine hc.of_same hd.retains (fun i t ht => ⟨t, ht, rfl⟩) (fun i p hp => ⟨p, hp, rfl⟩) ?_
  have hnames : (d.enums.modify enum fun e =>
      { e with members := e.members ++ [(name, value)] }).map (·.name) = d.enums.map (·.name) :=
    map_modify fun _ => rfl
  have hlists := congrArg Array.toList hnames
  rw [Array.toList_map, Array.toList_map] at hlists
  exact congrArg (d.types.toList.map (·.name) ++ ·) hlists

theorem consistent_setEntryPoint (m : Nat) : Leads KeepsConsistent (setEntryPoint m) := by
  intro d
  rw [setEntryPoint, get_bind]
  refine related_check fun _ _ hc => ?_
  have hd : Declares d { d with entryPoint := some m } := .entryPoint m
  exact hc.of_same hd.retains (fun i t ht => ⟨t, ht, rfl⟩) (fun i p hp => ⟨p, hp, rfl⟩) rfl

theorem consistent_defineField (type : Nat) (name : String) (ty : StaticType)
    (attrs : FieldAttributes) : Leads KeepsConsistent (defineField type name ty attrs) := by
  intro d
  rw [defineField, get_bind]
  refine related_check fun _ hcheck hc => ?_
  obtain ⟨t, htype, hcheck⟩ := except_bind_eq_ok.mp hcheck
  obtain ⟨_, -, hcheck⟩ := except_bind_eq_ok.mp hcheck
  obtain ⟨_, hstorable, hcheck⟩ := except_bind_eq_ok.mp hcheck
  obtain ⟨-, hunique⟩ := except_guard_eq_ok.mp hcheck
  obtain ⟨hown, hmethods⟩ := ensureUnique_eq_ok.mp hunique
  have hd := Declares.field ⟨type, name, ty, attrs⟩ (takesMembers_of_openType htype)
    (requireStorable_eq_ok.mp hstorable)
  exact hc.add_member (f := fun t => { t with fields := t.fields ++ [d.fields.size] })
    (openType_eq_ok.mp htype).1 hd rfl (fun _ => rfl) rfl (fun i p hp => .inl hp)
    fun hdistinct hl => hdistinct.add_field hl hd.retains rfl hown (hmethods rfl)

theorem consistent_defineMethod (type : Nat) (name : String) (attrs : MethodAttributes)
    (returnType : StaticType) (params : List Parameter) :
    Leads KeepsConsistent (defineMethod type name attrs returnType params) := by
  intro d
  rw [defineMethod, get_bind]
  refine related_check fun attrs' hcheck hc => ?_
  obtain ⟨hreturn, hparams, t, htype, hattrs, hunique, hnew⟩ := checkMethod_eq_ok hcheck
  have hd := Declares.method type name attrs' returnType params (takesMembers_of_openType htype)
    hreturn (isStorable_of_checkParams hparams) (methodAttributes_isAbstract hattrs)
  exact hc.add_member (f := fun t => { t with methods := t.methods ++ [d.methods.size] })
    (openType_eq_ok.mp htype).1 hd rfl (fun _ => rfl) rfl (fun i p hp => .inl hp)
    fun hdistinct hl => hdistinct.add_method hl hd.retains rfl (ensureUnique_eq_ok.mp hunique).1
      (ensureNewSignature_eq_ok.mp hnew)

theorem consistent_defineConstructor (type : Nat) (attrs : MethodAttributes)
    (params : List Parameter) :
    Leads KeepsConsistent (defineConstructor type attrs params) := by
  intro d
  rw [defineConstructor, get_bind]
  refine related_check fun _ hcheck hc => ?_
  obtain ⟨t, htype, hcheck⟩ := except_bind_eq_ok.mp hcheck
  obtain ⟨-, hcheck⟩ := except_guard_eq_ok.mp hcheck
  obtain ⟨hattrs, hcheck⟩ := except_guard_eq_ok.mp hcheck
  obtain ⟨_, hparams, hnew⟩ := except_bind_eq_ok.mp hcheck
  rw [Bool.or_eq_true, not_or, Bool.not_eq_true] at hattrs
  have hd := Declares.constructor type attrs params (takesMembers_of_openType htype)
    (isStorable_of_checkParams hparams) hattrs.1
  exact hc.add_member (f := fun t => { t with constructors := t.constructors ++ [d.methods.size] })
    (openType_eq_ok.mp htype).1 hd rfl (fun _ => rfl) rfl (fun i p hp => .inl hp)
    fun hdistinct hl =>
      hdistinct.add_constructor hl hd.retains rfl rfl (ensureNewSignature_eq_ok.mp hnew)

theorem fitted_of_check {type : Nat} {t : TypeDef} {name : String} {ty : StaticType}
    {getter setter : Option Nat} {u : Unit}
    (h : (do
      if let some m := getter then checkGetter name ty (← d.accessor type t name m)
      if let some m := setter then checkSetter name ty (← d.accessor type t name m) :
        Except BuildError Unit) = .ok u) :
    d.Fitted ⟨type, name, ty, getter, setter, none⟩ := by
  obtain ⟨hget, hset⟩ := checkAccessors_eq_ok h
  refine ⟨fun g hg => ?_, fun s hs => ?_⟩
  · obtain ⟨e, he, howner, hstatic, hkind, hparams, hreturn⟩ := hget g hg
    exact ⟨e, he, howner, hstatic, hkind, by simp [MethodDef.paramTypes, hparams], hreturn⟩
  · obtain ⟨e, he, howner, hstatic, hkind, hvoid, value, hparams, hvalue⟩ := hset s hs
    exact ⟨e, he, howner, hstatic, hkind, by simp [MethodDef.paramTypes, hparams, hvalue], hvoid⟩

theorem consistent_defineProperty (type : Nat) (name : String) (ty : StaticType)
    (getter setter : Option Nat) :
    Leads KeepsConsistent (defineProperty type name ty getter setter) := by
  intro d
  rw [defineProperty, get_bind]
  refine related_check fun _ hcheck hc => ?_
  obtain ⟨t, htype, hcheck⟩ := except_bind_eq_ok.mp hcheck
  obtain ⟨_, -, hcheck⟩ := except_bind_eq_ok.mp hcheck
  obtain ⟨_, hstorable, hcheck⟩ := except_bind_eq_ok.mp hcheck
  obtain ⟨_, hunique, hcheck⟩ := except_bind_eq_ok.mp hcheck
  obtain ⟨-, hcheck⟩ := except_guard_eq_ok.mp hcheck
  obtain ⟨hown, hmethods⟩ := ensureUnique_eq_ok.mp hunique
  have hfitted : d.Fitted ⟨type, name, ty, getter, setter, none⟩ := fitted_of_check hcheck
  have hd : Declares d _ := .property ⟨type, name, ty, getter, setter, none⟩
    (takesMembers_of_openType htype) (requireStorable_eq_ok.mp hstorable)
    (fun g hg => ?_) (fun s hs => ?_)
  · refine hc.add_member
      (f := fun t => { t with properties := t.properties ++ [d.properties.size] })
      (openType_eq_ok.mp htype).1 hd rfl (fun _ => rfl) rfl (fun i p hp => ?_)
      fun hdistinct hl => hdistinct.add_property hl hd.retains rfl hown (hmethods rfl)
    obtain hp | ⟨-, rfl⟩ := getElem?_push_cases hp
    · exact .inl hp
    · exact .inr (hfitted.retain hd.retains rfl)
  · obtain ⟨e, he, howner, hstatic, -, hparams, hreturn⟩ := hfitted.getter g hg
    exact ⟨e, he, howner, hstatic, List.map_eq_nil_iff.mp hparams, hreturn⟩
  · obtain ⟨e, he, howner, hstatic, -, hparams, hvoid⟩ := hfitted.setter s hs
    exact ⟨e, he, howner, hstatic, hvoid, List.map_eq_singleton_iff.mp hparams⟩

theorem absorbs_keepsConsistent : Absorbs KeepsConsistent where
  same _ _ h := h.consistent
  backing _ id field hc := hc.of_same (Declares.backing id field).retains
    (fun _ t ht => ⟨t, ht, rfl⟩) (fun _ _ hp => heading_of_backing hp) rfl
  defineType := consistent_defineType
  defineEnum := consistent_defineEnum
  defineEnumMember := consistent_defineEnumMember
  defineField := consistent_defineField
  defineMethod := consistent_defineMethod
  defineConstructor := consistent_defineConstructor
  defineProperty := consistent_defineProperty
  setEntryPoint := consistent_setEntryPoint

end BuildM

theorem Operation.consistent_perform (op : Operation) : Leads Draft.KeepsConsistent op.perform :=
  BuildM.absorbs_keepsConsistent.perform op

theorem Draft.consistent_empty (name : String) (options : Options) :
    (Draft.empty name options).Consistent := by
  constructor <;> simp [Draft.empty, Draft.typeNames, Draft.Listed]

theorem ProjectM.consistent_create (p : Project) :
    p.draft.KeepsConsistent (final (create p)).draft :=
  (sameDefinitions_create p).consistent

variable {p : Project} {issued : List (Nat × Variable)}

theorem Session.consistent (h : Session Anything p issued) : p.draft.Consistent :=
  h.of_leads Draft.consistent_empty Operation.consistent_perform ProjectM.consistent_create

/-- Whatever a module has been through, with whatever handles and operands, and whether operations
succeeded or failed, its definitions are consistent, and types list just the members that they
own. -/
theorem Session.definitions_consistent (h : Session Anything p issued) :
    p.draft.Consistent ∧ p.draft.Rostered := by
  obtain ⟨issued', hc, -⟩ := h.course
  exact ⟨h.consistent, hc.rostered⟩

theorem Request.onward_answer {p₀ : Project} (h : Onward p₀ p) (r : Request) :
    Onward p₀ (r.answer p).1 := by
  cases r with
  | perform op =>
    have hanswer : (answer p (.perform op)).1 = { p with draft := final (op.perform p.draft) } := by
      rw [answer]
      cases op.perform p.draft <;> rfl
    rw [hanswer]
    exact h.perform op
  | create =>
    have hanswer : (answer p .create).1 = final (ProjectM.create p) := by
      rw [answer]
      cases ProjectM.create p <;> rfl
    rw [hanswer]
    exact h.create

theorem Request.onward_makeAll {p₀ : Project} (h : Onward p₀ p) (requests : List Request)
    (log : Log) : Onward p₀ (makeAll requests (p, log)).1 := by
  induction requests generalizing p log with
  | nil => exact h
  | cons r rs ih => exact ih (onward_answer h r) _

theorem Session.of_makeAll (requests : List Request) (name : String) (options : Options) :
    ∃ issued, Session Anything
      (Request.makeAll requests (⟨.empty name options, .empty⟩, [])).1 issued :=
  (Session.start name options .empty).onward (Request.onward_makeAll .refl requests [])

theorem Session.exists_makeAll (requests : List Request) (name : String) (m : Nat)
    (P : MethodDef → Prop) [DecidablePred P]
    (h : (Request.makeAll requests (⟨.empty name {}, .empty⟩, [])).1.draft.methods[m]?.any
      (fun t => decide (P t)) = true) :
    ∃ p issued t, (Request.makeAll requests (⟨.empty name {}, .empty⟩, [])).1 = p ∧
      Session Anything p issued ∧ p.draft.methods[m]? = some t ∧ P t := by
  obtain ⟨issued, hsession⟩ := Session.of_makeAll requests name {}
  obtain ⟨t, ht, hp⟩ := (Option.any_eq_true ..).mp h
  exact ⟨_, issued, t, rfl, hsession, ht, of_decide_eq_true hp⟩

/-- Shapes, with names and signatures that are taken already and a base that cannot be one. -/
def contested : List Request := [
  .perform (.defineType "Drawable" { isInterface := true } none []),
  .perform (.defineMethod 0 "draw" {} .void []),
  .perform (.defineType "Shape" { isAbstract := true } none [0]),
  .perform (.defineField 1 "side" .int {}),
  .perform (.defineMethod 1 "side" {} .int []),
  .perform (.defineConstructor 1 {} []),
  .perform (.defineConstructor 1 {} [⟨"side", .int⟩]),
  .perform (.defineConstructor 1 {} [⟨"width", .int⟩]),
  .perform (.defineAutoProperty 1 "Name" .string),
  .perform (.defineAutoProperty 1 "Name" .int),
  .perform (.defineType "Square" { isSealed := true } (some 1) []),
  .perform (.defineEnum "Square"),
  .perform (.defineType "Tile" {} (some 2) [0]),
  .create,
  .perform (.defineType "Tile" {} (some 1) [0])]

theorem Session.definitions_consistent_contested :
    ∃ p issued, (Request.makeAll contested (⟨.empty "Shapes" {}, .empty⟩, [])).1 = p ∧
      Session Anything p issued ∧
      p.draft.typeNames = ["Drawable", "Shape", "Square", "Tile"] ∧ p.draft.fields.size = 2 ∧
      p.draft.methods.size = 5 ∧ p.draft.Consistent ∧ p.draft.Rostered := by
  obtain ⟨issued, h⟩ := Session.of_makeAll contested "Shapes" {}
  refine ⟨_, issued, rfl, h, ?_, ?_, ?_, h.definitions_consistent⟩
  all_goals decide +kernel

end Bytesmith.Build
