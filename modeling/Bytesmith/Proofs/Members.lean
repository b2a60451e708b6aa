import Bytesmith.Proofs.Growth
import Bytesmith.Proofs.Rollback

namespace Bytesmith.Build

open Code Outcome

def TypeDef.heading (t : TypeDef) : String × TypeAttributes × Option Nat × List Nat :=
  (t.name, t.attrs, t.base, t.interfaces)

theorem TypeDef.eq_of_heading {t t' : TypeDef} (h : t'.heading = t.heading) :
    t'.name = t.name ∧ t'.attrs = t.attrs ∧ t'.base = t.base ∧ t'.interfaces = t.interfaces := by
  simpa [heading] using h

def PropertyDef.heading (p : PropertyDef) : Nat × String × StaticType × Option Nat × Option Nat :=
  (p.owner, p.name, p.ty, p.getter, p.setter)

theorem PropertyDef.eq_of_heading {p p' : PropertyDef} (h : p'.heading = p.heading) :
    p'.owner = p.owner ∧ p'.name = p.name ∧ p'.ty = p.ty ∧ p'.getter = p.getter ∧
      p'.setter = p.setter := by
  simpa [heading] using h

namespace Draft

structure Retains (d d' : Draft) : Prop where
  types : ∀ (i : Nat) (t : TypeDef), d.types[i]? = some t →
    ∃ t', d'.types[i]? = some t' ∧ t'.heading = t.heading
  fields : ∀ (i : Nat) (f : FieldDef), d.fields[i]? = some f → d'.fields[i]? = some f
  properties : ∀ (i : Nat) (p : PropertyDef), d.properties[i]? = some p →
    ∃ p', d'.properties[i]? = some p' ∧ p'.heading = p.heading
  methods : ∀ (i : Nat) (t : MethodDef), d.methods[i]? = some t →
    ∃ t', d'.methods[i]? = some t' ∧ t'.declaration = t.declaration

structure Redeclares (d d' : Draft) : Prop where
  types : d'.types = d.types
  fields : d'.fields = d.fields
  properties : d'.properties = d.properties
  methods : ∀ i : Nat,
    d'.methods[i]?.map MethodDef.declaration = d.methods[i]?.map MethodDef.declaration

variable {d d' : Draft}

theorem Redeclares.method (h : d.Redeclares d') {i : Nat} {t : MethodDef}
    (ht : d.methods[i]? = some t) :
    ∃ t', d'.methods[i]? = some t' ∧ t'.declaration = t.declaration := by
  have hi := h.methods i
  rw [ht] at hi
  simpa using hi

theorem Redeclares.retains (h : d.Redeclares d') : d.Retains d' := by
  refine ⟨fun i t ht => ⟨t, ?_, rfl⟩, fun i f hf => ?_, fun i p hp => ⟨p, ?_, rfl⟩,
    fun i t ht => h.method ht⟩
  · rw [h.types, ht]
  · rw [h.fields, hf]
  · rw [h.properties, hp]

theorem redeclares_edited {m n : Nat} {t t' : MethodDef} {k : Pool}
    (hfound : d.methods[m]? = some t) (hdecl : t'.declaration = t.declaration) :
    d.Redeclares (d.edited m t' k n) := by
  refine ⟨rfl, rfl, rfl, fun i => ?_⟩
  by_cases hi : i = m
  · subst hi
    rw [found_edited (lt_size_of_found hfound), hfound, Option.map_some, Option.map_some, hdecl]
  · rw [found_edited_ne hi]

theorem Touches.redeclares {m : Nat} (h : Touches m d d') : d.Redeclares d' := by
  refine ⟨?_, ?_, ?_, fun i => ?_⟩
  · rw [h.rest]
  · rw [h.rest]
  · rw [h.rest]
  · by_cases hi : i = m
    · subst hi
      cases ht : d.methods[i]? with
      | none =>
        have hsize : d'.methods.size ≤ i := by
          rw [h.size]
          simpa using ht
        rw [Array.getElem?_eq_none hsize]
      | some t =>
        obtain ⟨t', ht', hdecl⟩ := h.declared t ht
        rw [ht', Option.map_some, Option.map_some, hdecl]
    · rw [h.others i hi]

end Draft

variable {d d' : Draft}

theorem Edited.redeclares {m : Nat} {c : Command} {t t' : MethodDef} (h : Edited m c t t' d d') :
    d.Redeclares d' := by
  obtain ⟨n, heq⟩ := h.eq
  rw [heq]
  exact Draft.redeclares_edited h.found (h.takes _ (.refl _)).declaration_eq

theorem BuildM.Aborts.redeclares {m : Nat} (h : Aborts m d d') : d.Redeclares d' := by
  obtain rfl | ⟨htouches, -⟩ := h
  · exact ⟨rfl, rfl, rfl, fun _ => rfl⟩
  · exact htouches.redeclares

variable {Allowed : List (Nat × Variable) → Nat → Variable → Prop} {issued : List (Nat × Variable)}

theorem Course.of_declares {P : Draft → Prop} (h : Course Allowed d issued)
    (hstart : ∀ name options, P (.empty name options))
    (hdeclare : ∀ d d', Declares d d' → P d → P d') (hsame : ∀ d d', d.Redeclares d' → P d → P d') :
    P d := by
  induction h with
  | start name options => exact hstart name options
  | declare h hd ih => exact hdeclare _ _ hd ih
  | look h l ho hl ih => exact ih
  | edit h e ho hs he ih => exact hsame _ _ he.redeclares ih
  | abort h ha ih => exact hsame _ _ ha.redeclares ih
  | finish _ hfound _ _ _ ih | synthesize _ hfound _ _ _ _ ih =>
    exact hsame _ _ (Draft.redeclares_edited hfound rfl) ih
  | @create d issued h module ih => exact hsame d _ ⟨rfl, rfl, rfl, fun _ => rfl⟩ ih

theorem Draft.modifyType_cases {id i : Nat} {f : TypeDef → TypeDef} {t : TypeDef}
    (h : (d.modifyType id f).types[i]? = some t) :
    ∃ t₀, d.types[i]? = some t₀ ∧ (i = id ∧ t = f t₀ ∨ i ≠ id ∧ t = t₀) :=
  modify_cases h

theorem Declares.retains (h : Declares d d') : d.Retains d' := by
  have htypes {id : Nat} {f : TypeDef → TypeDef} (hf : ∀ t, (f t).heading = t.heading) (i : Nat)
      (t : TypeDef) (ht : d.types[i]? = some t) :
      ∃ t', (d.types.modify id f)[i]? = some t' ∧ t'.heading = t.heading :=
    exists_modify (·.heading = t.heading) rfl (hf t) ht
  obtain ⟨hsame, hfields, hproperties, hmethods⟩ : d.Retains d :=
    Draft.Redeclares.retains ⟨rfl, rfl, rfl, fun _ => rfl⟩
  cases h with
  | type entry =>
    exact ⟨fun i t ht => ⟨t, getElem?_push_of_some ht, rfl⟩, hfields, hproperties, hmethods⟩
  | enums | entryPoint => exact ⟨hsame, hfields, hproperties, hmethods⟩
  | field entry =>
    exact ⟨htypes fun _ => rfl, fun i f hf => getElem?_push_of_some hf, hproperties, hmethods⟩
  | method | constructor =>
    exact ⟨htypes fun _ => rfl, hfields, hproperties,
      fun i t ht => ⟨t, getElem?_push_of_some ht, rfl⟩⟩
  | property entry =>
    exact ⟨htypes fun _ => rfl, hfields, fun i p hp => ⟨p, getElem?_push_of_some hp, rfl⟩, hmethods⟩
  | backing id field =>
    exact ⟨hsame, hfields, fun _ p => exists_modify (PropertyDef.heading · = p.heading) rfl rfl,
      hmethods⟩
  | classOf => exact ⟨htypes fun _ => rfl, hfields, hproperties, hmethods⟩

namespace Draft

structure Lists (d : Draft) (i : Nat) (t : TypeDef) : Prop where
  bases : ∀ b ∈ t.interfaces ++ t.base.toList, b < i
  fields : ∀ f ∈ t.fields, ∃ e, d.fields[f]? = some e ∧ e.owner = i
  properties : ∀ p ∈ t.properties, ∃ e, d.properties[p]? = some e ∧ e.owner = i
  methods : ∀ m ∈ t.methods, ∃ e, d.methods[m]? = some e ∧ e.owner = i ∧ e.isConstructor = false
  constructors : ∀ c ∈ t.constructors, ∃ e, d.methods[c]? = some e ∧ e.owner = i ∧
    e.isConstructor = true

def Listed (d : Draft) : Prop := ∀ (i : Nat) (t : TypeDef), d.types[i]? = some t → d.Lists i t

theorem Lists.retain {i : Nat} {t : TypeDef} (h : d.Lists i t) (hr : d.Retains d') :
    d'.Lists i t := by
  have hmethod {isConstructor : Bool} {m : Nat} (hm : ∃ e, d.methods[m]? = some e ∧ e.owner = i ∧
      e.isConstructor = isConstructor) : ∃ e, d'.methods[m]? = some e ∧ e.owner = i ∧
        e.isConstructor = isConstructor := by
    obtain ⟨e, he, howner, hkind⟩ := hm
    obtain ⟨e', he', hdecl⟩ := hr.methods m e he
    obtain ⟨howner', -, -, -, hkind'⟩ := MethodDef.eq_of_declaration hdecl
    exact ⟨e', he', howner'.trans howner, hkind'.trans hkind⟩
  refine ⟨h.bases, fun f hf => ?_, fun p hp => ?_, fun m hm => hmethod (h.methods m hm),
    fun c hc => hmethod (h.constructors c hc)⟩
  · obtain ⟨e, he, howner⟩ := h.fields f hf
    exact ⟨e, hr.fields f e he, howner⟩
  · obtain ⟨e, he, howner⟩ := h.properties p hp
    obtain ⟨e', he', hheading⟩ := hr.properties p e he
    exact ⟨e', he', (PropertyDef.eq_of_heading hheading).1.trans howner⟩

end Draft

theorem forall_mem_concat {P : Nat → Prop} {as : List Nat} {a : Nat} (has : ∀ x ∈ as, P x)
    (ha : P a) : ∀ x ∈ as ++ [a], P x := by
  intro x hx
  obtain hx | hx := List.mem_append.mp hx
  · exact has x hx
  · rw [List.mem_singleton.mp hx]
    exact ha

theorem Declares.listed (h : Declares d d') (hl : d.Listed) : d'.Listed := by
  have hr := h.retains
  have hold (i : Nat) (t : TypeDef) (ht : d.types[i]? = some t) : d'.Lists i t :=
    (hl i t ht).retain hr
  have hmodified {id : Nat} {f : TypeDef → TypeDef} (hf : ∀ t, d'.Lists id t → d'.Lists id (f t))
      (i : Nat) (t : TypeDef) (ht : (d.modifyType id f).types[i]? = some t) : d'.Lists i t := by
    obtain ⟨t₀, ht₀, ⟨rfl, rfl⟩ | ⟨-, rfl⟩⟩ := Draft.modifyType_cases ht
    · exact hf t₀ (hold _ t₀ ht₀)
    · exact hold i t ht₀
  cases h with
  | type entry hfresh hcreated hbases =>
    intro i t ht
    obtain ht | ⟨rfl, rfl⟩ := getElem?_push_cases ht
    · exact hold i t ht
    · obtain ⟨hfields, hproperties, hmethods, hconstructors⟩ := hfresh
      refine ⟨hbases, ?_, ?_, ?_, ?_⟩
      · simp [hfields]
      · simp [hproperties]
      · simp [hmethods]
      · simp [hconstructors]
  | enums | backing | entryPoint => exact hold
  | field entry =>
    refine hmodified fun t h₀ =>
      ⟨h₀.bases, forall_mem_concat h₀.fields ?_, h₀.properties, h₀.methods, h₀.constructors⟩
    exact ⟨entry, Array.getElem?_push_size, rfl⟩
  | method =>
    refine hmodified fun t h₀ =>
      ⟨h₀.bases, h₀.fields, h₀.properties, forall_mem_concat h₀.methods ?_, h₀.constructors⟩
    exact ⟨_, Array.getElem?_push_size, rfl, rfl⟩
  | constructor =>
    refine hmodified fun t h₀ =>
      ⟨h₀.bases, h₀.fields, h₀.properties, h₀.methods, forall_mem_concat h₀.constructors ?_⟩
    exact ⟨_, Array.getElem?_push_size, rfl, rfl⟩
  | property entry =>
    refine hmodified fun t h₀ =>
      ⟨h₀.bases, h₀.fields, forall_mem_concat h₀.properties ?_, h₀.methods, h₀.constructors⟩
    exact ⟨entry, Array.getElem?_push_size, rfl⟩
  | classOf =>
    exact hmodified fun t h₀ =>
      ⟨h₀.bases, h₀.fields, h₀.properties, h₀.methods, h₀.constructors⟩

theorem Course.listed (h : Course Allowed d issued) : d.Listed := by
  refine h.of_declares (fun name options i t ht => ?_) (fun d d' hd => hd.listed)
    fun d d' hsame hl i t ht => ?_
  · cases ht
  · rw [hsame.types] at ht
    exact (hl i t ht).retain hsame.retains

theorem Course.owner (h : Course Allowed d issued) :
    ∀ (m : Nat) (t : MethodDef), d.methods[m]? = some t → ∃ type, d.types[t.owner]? = some type := by
  refine h.of_declares (P := fun d => ∀ (m : Nat) (t : MethodDef), d.methods[m]? = some t →
    ∃ type, d.types[t.owner]? = some type) (fun _ _ m t ht => (nomatch ht))
    (fun d d' hd ih m t ht => ?_) fun d d' hsame ih m t ht => ?_
  · have howner : ∃ type, d.types[t.owner]? = some type := by
      have hadd {t₀ : MethodDef} (htype : d.TakesMembers t₀.owner)
          (ht : (d.methods.push t₀)[m]? = some t) : ∃ type, d.types[t.owner]? = some type := by
        obtain ht | ⟨-, rfl⟩ := getElem?_push_cases ht
        · exact ih m t ht
        · obtain ⟨type, htype, -⟩ := htype
          exact ⟨type, htype⟩
      cases hd with
      | method _ _ _ _ _ htype | constructor _ _ _ htype => exact hadd htype ht
      | _ => exact ih m t ht
    obtain ⟨type, htype⟩ := howner
    obtain ⟨type', htype', -⟩ := hd.grows.types _ type htype
    exact ⟨type', htype'⟩
  · obtain ⟨t₀, ht₀, hdecl⟩ : ∃ t₀, d.methods[m]? = some t₀ ∧ t₀.declaration = t.declaration := by
      have hm := hsame.methods m
      rw [ht] at hm
      exact Option.map_eq_some_iff.mp hm.symm
    rw [hsame.types, ← (MethodDef.eq_of_declaration hdecl).1]
    exact ih m t₀ ht₀

namespace Draft

variable {id : Nat} {name : String}

theorem mem_lineageFrom_of_mem_basesFrom {steps x : Nat} (h : x ∈ d.basesFrom steps (some id)) :
    x ∈ d.lineageFrom steps id := by
  induction steps generalizing id with
  | zero => cases h
  | succ steps ih =>
    rw [basesFrom] at h
    rw [lineageFrom]
    cases ht : d.types[id]? with
    | none =>
      rw [ht] at h
      cases h
    | some t =>
      simp only [ht] at h ⊢
      obtain rfl | h := List.mem_cons.mp h
      · exact .head _
      · refine List.mem_cons_of_mem _ (List.mem_flatMap.mpr ?_)
        cases hb : t.base with
        | none =>
          rw [hb] at h
          cases steps <;> cases h
        | some b =>
          rw [hb] at h
          exact ⟨b, by simp, ih h⟩

theorem isSubtype_of_mem_bases {x : Nat} (h : x ∈ d.bases id) : d.isSubtype id x = true :=
  List.contains_iff_mem.mpr (mem_lineageFrom_of_mem_basesFrom h)

theorem isSubtype_refl {i : Nat} {t : TypeDef} (ht : d.types[i]? = some t) :
    d.isSubtype i i = true := by
  refine List.contains_iff_mem.mpr ?_
  obtain ⟨n, hn⟩ := Nat.exists_eq_add_one.mpr
    (Nat.zero_lt_of_lt (Array.getElem?_eq_some_iff.mp ht).1)
  rw [lineage, hn, lineageFrom, ht]
  exact .head _

theorem lineageFrom_subset (hr : d.Retains d') {steps steps' x : Nat} (hle : steps ≤ steps')
    (h : x ∈ d.lineageFrom steps id) : x ∈ d'.lineageFrom steps' id := by
  induction steps generalizing steps' id with
  | zero => cases h
  | succ steps ih =>
    obtain ⟨n, rfl⟩ : ∃ n, steps' = n + 1 := ⟨steps' - 1, by omega⟩
    rw [lineageFrom] at h ⊢
    cases ht : d.types[id]? with
    | none =>
      rw [ht] at h
      cases h
    | some t =>
      obtain ⟨t', ht', hheading⟩ := hr.types id t ht
      obtain ⟨-, -, hbase, hinterfaces⟩ := TypeDef.eq_of_heading hheading
      simp only [ht] at h
      simp only [ht', hbase, hinterfaces]
      obtain rfl | h := List.mem_cons.mp h
      · exact .head _
      · obtain ⟨b, hb, hx⟩ := List.mem_flatMap.mp h
        exact .tail _ (List.mem_flatMap.mpr ⟨b, hb, ih (by omega) hx⟩)

theorem Retains.size_types_le (hr : d.Retains d') : d.types.size ≤ d'.types.size := by
  by_contra hlt
  rw [Nat.not_le] at hlt
  obtain ⟨t', ht', -⟩ := hr.types d'.types.size _ (Array.getElem?_eq_getElem hlt)
  exact absurd (Array.getElem?_eq_some_iff.mp ht').1 (Nat.lt_irrefl _)

theorem Retains.isSubtype (hr : d.Retains d') {sub sup : Nat} (h : d.isSubtype sub sup = true) :
    d'.isSubtype sub sup = true :=
  List.contains_iff_mem.mpr (lineageFrom_subset hr hr.size_types_le (List.contains_iff_mem.mp h))

theorem Listed.findField? (hl : d.Listed) {f : Nat} (h : d.findField? id name = some f) :
    ∃ e, d.fields[f]? = some e ∧ d.isSubtype id e.owner = true := by
  obtain ⟨i, hi, h⟩ := List.exists_of_findSome?_eq_some h
  obtain ⟨t, ht, h⟩ := Option.bind_eq_some_iff.mp h
  obtain ⟨e, he, rfl⟩ := (hl i t ht).fields f (List.mem_of_find?_eq_some h)
  exact ⟨e, he, isSubtype_of_mem_bases hi⟩

theorem Listed.owner_mem_bases (hl : d.Listed) {p : Nat} (h : d.findProperty? id name = some p) :
    ∃ e, d.properties[p]? = some e ∧ e.owner ∈ d.bases id := by
  obtain ⟨i, hi, h⟩ := List.exists_of_findSome?_eq_some h
  obtain ⟨t, ht, h⟩ := Option.bind_eq_some_iff.mp h
  obtain ⟨e, he, rfl⟩ := (hl i t ht).properties p (List.mem_of_find?_eq_some h)
  exact ⟨e, he, hi⟩

theorem Listed.findProperty? (hl : d.Listed) {p : Nat} (h : d.findProperty? id name = some p) :
    ∃ e, d.properties[p]? = some e ∧ d.isSubtype id e.owner = true := by
  obtain ⟨e, he, howner⟩ := hl.owner_mem_bases h
  exact ⟨e, he, isSubtype_of_mem_bases howner⟩

end Draft

end Bytesmith.Build
