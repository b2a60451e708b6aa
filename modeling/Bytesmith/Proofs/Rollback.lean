import Bytesmith.Build.Definition
import Bytesmith.Proofs.Editing

namespace Bytesmith.Build

open Code Outcome

def TypeDef.extend (t : TypeDef) (fields methods properties : List Nat) : TypeDef :=
  { t with
    fields := t.fields ++ fields
    methods := t.methods ++ methods
    properties := t.properties ++ properties }

section

variable {α : Type} {as bs : Array α}

theorem take_of_getElem? (h : ∀ (i : Nat) (a : α), as[i]? = some a → bs[i]? = some a) :
    bs.take as.size = as := by
  have hprefix : as.toList <+: bs.toList := by
    refine List.prefix_iff_getElem?.mpr fun i hi => ?_
    rw [Array.getElem?_toList]
    exact h i _ (Array.getElem?_eq_getElem hi)
  have htake : (bs.take as.size).toList = bs.toList.take as.size := by simp
  rw [← Array.toList_inj, htake]
  exact (List.prefix_iff_eq_take.mp hprefix).symm

theorem modify_modify (i : Nat) (f g : α → α) :
    (as.modify i f).modify i g = as.modify i fun a => g (f a) := by
  refine Array.ext_getElem? fun j => ?_
  simp only [Array.getElem?_modify]
  by_cases hj : i = j
  · simp only [if_pos hj, Option.map_map, Function.comp_def]
  · simp only [if_neg hj]

theorem modify_of_getElem? {i : Nat} {f : α → α} (h : ∀ a, as[i]? = some a → f a = a) :
    as.modify i f = as := by
  refine Array.ext_getElem? fun j => ?_
  rw [Array.getElem?_modify]
  by_cases hj : i = j
  · subst hj
    rw [if_pos rfl]
    cases ha : as[i]? with
    | none => rfl
    | some a => rw [Option.map_some, h a ha]
  · rw [if_neg hj]

end

namespace Draft

variable {type : Nat} {d d' : Draft}

theorem ensureOpen_eq_ok {u : Unit} : d.ensureOpen = .ok u ↔ d.created = none := by
  unfold ensureOpen
  cases d.created <;> simp

theorem openType_eq_ok {t : TypeDef} : d.openType type = .ok t ↔
    d.types[type]? = some t ∧ d.created = none ∧ t.created = none := by
  rw [openType, except_bind_eq_ok]
  simp only [Draft.type, find_eq_ok, except_bind_eq_ok, ensureOpen_eq_ok, except_guard_eq_ok, pure,
    Except.pure, Except.ok.injEq, exists_const]
  constructor
  · rintro ⟨t', ht, hd, hcreated, rfl⟩
    exact ⟨ht, hd, by simpa using hcreated⟩
  · rintro ⟨ht, hd, hcreated⟩
    exact ⟨t, ht, hd, by simp [hcreated], rfl⟩

structure Adds (type : Nat) (d d' : Draft) : Prop where
  rest : d' = { d with
    types := d'.types, methods := d'.methods, fields := d'.fields, properties := d'.properties }
  types : ∃ fields methods properties,
    d'.types = d.types.modify type (·.extend fields methods properties)
  methods : ∀ (i : Nat) (e : MethodDef), d.methods[i]? = some e → d'.methods[i]? = some e
  fields : ∀ (i : Nat) (e : FieldDef), d.fields[i]? = some e → d'.fields[i]? = some e
  properties : ∀ (i : Nat) (e : PropertyDef), d.properties[i]? = some e → d'.properties[i]? = some e

namespace Adds

theorem refl (type : Nat) (d : Draft) : Adds type d d := by
  refine ⟨rfl, ⟨[], [], [], (modify_of_getElem? fun t _ => ?_).symm⟩, fun _ _ h => h,
    fun _ _ h => h, fun _ _ h => h⟩
  simp only [TypeDef.extend, List.append_nil]

instance : Std.Refl (Adds type) := ⟨refl type⟩

instance : Trans (Adds type) (Adds type) (Adds type) where
  trans {a b c} h h' := by
    obtain ⟨f, m, p, htypes⟩ := h.types
    obtain ⟨f', m', p', htypes'⟩ := h'.types
    refine ⟨?_, ⟨f ++ f', m ++ m', p ++ p', ?_⟩,
      fun i e he => h'.methods i e (h.methods i e he),
      fun i e he => h'.fields i e (h.fields i e he),
      fun i e he => h'.properties i e (h.properties i e he)⟩
    · rw [h'.rest, h.rest]
    · rw [htypes', htypes, modify_modify]
      simp only [TypeDef.extend, List.append_assoc]

theorem size_methods (h : Adds type d d') : d.methods.size ≤ d'.methods.size := by
  refine Nat.le_of_not_lt fun hlt => ?_
  have hfound := h.methods _ _ (Array.getElem?_eq_getElem hlt)
  exact Nat.lt_irrefl _ (lt_size_of_found hfound)

theorem modifyMethod (h : Adds type d d') {m : Nat} (hm : d.methods.size ≤ m)
    (f : MethodDef → MethodDef) : Adds type d (d'.modifyMethod m f) := by
  refine ⟨?_, h.types, fun i e he => ?_, h.fields, h.properties⟩
  · rw [Draft.modifyMethod, h.rest]
  · have hi : m ≠ i := by
      have := lt_size_of_found he
      omega
    rw [Draft.modifyMethod, Array.getElem?_modify, if_neg hi]
    exact h.methods i e he

theorem truncate_eq (h : Adds type d d') {t : TypeDef} (ht : d.types[type]? = some t) :
    d'.truncate type (d.countMembers t) = d := by
  obtain ⟨f, m, p, htypes⟩ := h.types
  have hcut : d'.types.modify type (fun s => { s with
      fields := s.fields.take t.fields.length
      methods := s.methods.take t.methods.length
      properties := s.properties.take t.properties.length }) = d.types := by
    rw [htypes, modify_modify]
    refine modify_of_getElem? fun s hs => ?_
    obtain rfl : t = s := Option.some.inj (ht.symm.trans hs)
    simp only [TypeDef.extend, List.take_left']
  calc d'.truncate type (d.countMembers t)
      = { d' with
          types := d.types, methods := d.methods, fields := d.fields
          properties := d.properties } := by
        simp only [truncate, modifyType, countMembers, hcut, take_of_getElem? h.methods,
          take_of_getElem? h.fields, take_of_getElem? h.properties]
    _ = d := by rw [h.rest]

end Adds

def KeepsAdded (type : Nat) (d s s' : Draft) : Prop := Adds type d s → Adds type d s'

instance : Std.Refl (KeepsAdded type d) := ⟨fun _ h => h⟩

instance : Trans (KeepsAdded type d) (KeepsAdded type d) (KeepsAdded type d) :=
  ⟨fun h h' hs => h' (h hs)⟩

end Draft

namespace BuildM

open Draft

variable {type : Nat} {name : String} {d d' : Draft}

theorem adds_defineField (type : Nat) (name : String) (ty : StaticType) (attrs : FieldAttributes) :
    Leads (Adds type) (defineField type name ty attrs) := by
  intro d
  rw [defineField, get_bind]
  refine related_check fun _ _ => ⟨rfl, ⟨[d.fields.size], [], [], ?_⟩, fun _ _ h => h,
    fun i e he => getElem?_push_of_some he, fun _ _ h => h⟩
  simp only [TypeDef.extend, List.append_nil]
  rfl

theorem adds_defineMethod (type : Nat) (name : String) (attrs : MethodAttributes)
    (returnType : StaticType) (params : List Parameter) :
    Leads (Adds type) (defineMethod type name attrs returnType params) := by
  intro d
  rw [defineMethod, get_bind]
  refine related_check fun _ _ => ⟨rfl, ⟨[], [d.methods.size], [], ?_⟩,
    fun i e he => getElem?_push_of_some he, fun _ _ h => h, fun _ _ h => h⟩
  simp only [TypeDef.extend, List.append_nil]
  rfl

theorem adds_defineProperty (type : Nat) (name : String) (ty : StaticType)
    (getter setter : Option Nat) :
    Leads (Adds type) (defineProperty type name ty getter setter) := by
  intro d
  rw [defineProperty, get_bind]
  refine related_check fun _ _ => ⟨rfl, ⟨[], [], [d.properties.size], ?_⟩, fun _ _ h => h,
    fun _ _ h => h, fun i e he => getElem?_push_of_some he⟩
  simp only [TypeDef.extend, List.append_nil]
  rfl

theorem defineMethod_id {attrs : MethodAttributes} {returnType : StaticType}
    {params : List Parameter} {id : Nat}
    (h : defineMethod type name attrs returnType params d = .ok id d') : id = d.methods.size := by
  rw [defineMethod, get_bind] at h
  obtain ⟨_, -, h⟩ := ofExcept_bind_eq_ok.mp h
  cases h
  rfl

theorem adds_synthesize {m : Nat} (hm : d.methods.size ≤ m) (code : List (Instr Label)) :
    Leads (KeepsAdded type d) (synthesize m code) := by
  refine Leads.bind ?_ fun body s hs => hs.modifyMethod hm _
  refine Leads.bind (.of_state (final_reading _)) fun target s hs => ?_
  dsimp only [CodeM.emitting]
  cases (code.forM EmitM.emit >>= fun _ => EmitM.finish) target.emitter with
  | ok _ e | error _ e => exact hs.modifyMethod hm ({ · with emitter := e })

theorem truncate_generateProperty {t : TypeDef} {ty : StaticType} {e : BuildError}
    (ht : d.types[type]? = some t) (h : generateProperty type name ty d = .error e d') :
    d'.truncate type (d.countMembers t) = d := by
  suffices hadds : Adds type d d' from hadds.truncate_eq ht
  obtain h | ⟨field, d₁, hfield, h⟩ := bind_eq_error.mp h
  · exact (adds_defineField _ _ _ _).of_error h
  have h₁ : Adds type d d₁ := (adds_defineField _ _ _ _).of_ok hfield
  obtain h | ⟨getter, d₂, hgetter, h⟩ := bind_eq_error.mp h
  · exact Trans.trans h₁ ((adds_defineMethod _ _ _ _ _).of_error h)
  have h₂ : Adds type d d₂ := Trans.trans h₁ ((adds_defineMethod _ _ _ _ _).of_ok hgetter)
  obtain h | ⟨setter, d₃, hsetter, h⟩ := bind_eq_error.mp h
  · exact Trans.trans h₂ ((adds_defineMethod _ _ _ _ _).of_error h)
  have h₃ : Adds type d d₃ := Trans.trans h₂ ((adds_defineMethod _ _ _ _ _).of_ok hsetter)
  have hget : d.methods.size ≤ getter := defineMethod_id hgetter ▸ h₁.size_methods
  have hset : d.methods.size ≤ setter := defineMethod_id hsetter ▸ h₂.size_methods
  obtain h | ⟨_, d₄, hgets, h⟩ := bind_eq_error.mp h
  · exact (adds_synthesize hget _).of_error h h₃
  have h₄ : Adds type d d₄ := (adds_synthesize hget _).of_ok hgets h₃
  obtain h | ⟨_, d₅, hsets, h⟩ := bind_eq_error.mp h
  · exact (adds_synthesize hset _).of_error h h₄
  have h₅ : Adds type d d₅ := (adds_synthesize hset _).of_ok hsets h₄
  obtain h | ⟨id, d₆, hproperty, h⟩ := bind_eq_error.mp h
  · exact Trans.trans h₅ ((adds_defineProperty _ _ _ _ _).of_error h)
  · cases h

theorem defineAutoProperty_cases (type : Nat) (name : String) (ty : StaticType) (d : Draft) :
    (∃ e, defineAutoProperty type name ty d = .error e d) ∨
      ∃ id d', generateProperty type name ty d = .ok id d' ∧
        defineAutoProperty type name ty d = .ok id d' := by
  rw [defineAutoProperty, get_bind]
  cases hcheck : (do
      let t ← d.openType type
      requireName .property name
      requireStorable .property name ty
      d.ensureUnique t name false
      return t) with
  | error e => exact .inl ⟨e, rfl⟩
  | ok t =>
    obtain ⟨t', ht, hrest⟩ := except_bind_eq_ok.mp hcheck
    obtain ⟨_, -, hrest⟩ := except_bind_eq_ok.mp hrest
    obtain ⟨_, -, hrest⟩ := except_bind_eq_ok.mp hrest
    obtain ⟨_, -, hrest⟩ := except_bind_eq_ok.mp hrest
    cases hrest
    have hfound := (openType_eq_ok.mp ht).1
    cases hg : generateProperty type name ty d with
    | ok id d' =>
      refine .inr ⟨id, d', rfl, (bind_of_ok rfl).trans ?_⟩
      simp only [hg]
    | error e d' =>
      refine .inl ⟨e, (bind_of_ok rfl).trans ?_⟩
      simp only [hg, truncate_generateProperty hfound hg]

end BuildM

end Bytesmith.Build
