import Bytesmith.Proofs.AutoProperties

namespace Bytesmith.Build

open Code Outcome BuildM

namespace Draft

structure Spares (d d' : Draft) : Prop where
  fields : ∀ (i : Nat) (f : FieldDef), d.fields[i]? = some f → d'.fields[i]? = some f
  methods : ∀ (i : Nat) (t : MethodDef) (body : Body), d.methods[i]? = some t →
    t.state = .finished body → d'.methods[i]? = some t
  properties : ∀ (i : Nat) (e : PropertyDef), d'.properties[i]? = some e →
    e.backing.isSome = true → d.properties[i]? = some e

variable {d d' : Draft}

theorem Spares.of_eq (hfields : d'.fields = d.fields) (hmethods : d'.methods = d.methods)
    (hproperties : d'.properties = d.properties) : d.Spares d' := by
  refine ⟨fun i f hf => ?_, fun i t body ht _ => ?_, fun i e he _ => ?_⟩
  · rw [hfields, hf]
  · rw [hmethods, ht]
  · rw [← hproperties, he]

instance : Std.Refl Spares := ⟨fun _ => .of_eq rfl rfl rfl⟩

instance : Trans Spares Spares Spares where
  trans h h' := ⟨fun i f hf => h'.fields i f (h.fields i f hf),
    fun i t body ht hbody => h'.methods i t body (h.methods i t body ht hbody) hbody,
    fun i e he hbacking => h.properties i e (h'.properties i e he hbacking) hbacking⟩

theorem Touches.spares {m : Nat} (h : Touches m d d') (hm : ¬ d.Rests m) : d.Spares d' := by
  refine ⟨fun i f hf => ?_, fun i t body ht hbody => ?_, fun i e he _ => ?_⟩
  · rw [h.sameDefinitions.fields, hf]
  · rw [h.others i ?_, ht]
    rintro rfl
    refine hm fun t' ht' => ?_
    rw [ht] at ht'
    cases ht'
    exact ⟨body, hbody⟩
  · rw [← h.sameDefinitions.properties, he]

end Draft

namespace BuildM

open Draft

theorem spares_of_touches {α : Type} {m : Nat} {x : BuildM α} (hx : Leads (Touches m) x)
    (hrests : ∀ d : Draft, d.Rests m → final (x d) = d) : Leads Spares x := by
  intro d
  by_cases hm : d.Rests m
  · rw [hrests d hm]
    exact Std.Refl.refl d
  · exact (hx d).spares hm

theorem spares_edit (m : Nat) (e : Edit) : Leads Spares (e.perform m) :=
  spares_of_touches (touches_edit m e) fun _ h => h.final_edit e

theorem spares_finalize (m : Nat) : Leads Spares (finalize m) :=
  spares_of_touches (leads_finalize m) fun _ h => h.final_finalize

theorem spares_createType (id : Nat) : Leads Spares (createType id) :=
  leads_createType spares_finalize (fun _ _ _ => .of_eq rfl rfl rfl) id

theorem spares_assemble : Leads Spares assemble :=
  leads_assemble (fun _ => .of_eq rfl rfl rfl) spares_createType

theorem spares_defineField (type : Nat) (name : String) (ty : StaticType)
    (attrs : FieldAttributes) : Leads Spares (defineField type name ty attrs) :=
  leads_checked fun _ _ => ⟨fun _ _ hf => getElem?_push_of_some hf, fun _ _ _ ht _ => ht,
    fun _ _ he _ => he⟩

theorem spares_defineMethod (type : Nat) (name : String) (attrs : MethodAttributes)
    (returnType : StaticType) (params : List Parameter) :
    Leads Spares (defineMethod type name attrs returnType params) :=
  leads_checked fun _ _ => ⟨fun _ _ hf => hf, fun _ _ _ ht _ => getElem?_push_of_some ht,
    fun _ _ he _ => he⟩

theorem spares_defineConstructor (type : Nat) (attrs : MethodAttributes)
    (params : List Parameter) : Leads Spares (defineConstructor type attrs params) :=
  leads_checked fun _ _ => ⟨fun _ _ hf => hf, fun _ _ _ ht _ => getElem?_push_of_some ht,
    fun _ _ he _ => he⟩

theorem spares_defineProperty (type : Nat) (name : String) (ty : StaticType)
    (getter setter : Option Nat) : Leads Spares (defineProperty type name ty getter setter) := by
  refine leads_checked fun d _ => ⟨fun _ _ hf => hf, fun _ _ _ ht _ => ht,
    fun i e he hbacking => ?_⟩
  obtain he | ⟨-, rfl⟩ := getElem?_push_cases he
  · exact he
  · cases hbacking

end BuildM

def Operation.isAutoProperty : Operation → Bool
  | .defineAutoProperty _ _ _ => true
  | _ => false

theorem Operation.spares_perform {op : Operation} (hop : op.isAutoProperty = false) :
    Leads Draft.Spares op.perform := by
  cases op with
  | defineType | defineEnum | setEntryPoint =>
    refine Leads.map (leads_checked fun _ _ => ?_) _
    exact .of_eq rfl rfl rfl
  | defineEnumMember enum name value =>
    refine Leads.map (leads_checked fun _ _ => related_check fun _ _ => ?_) _
    exact .of_eq rfl rfl rfl
  | defineField type name ty attrs => exact (spares_defineField type name ty attrs).map _
  | defineMethod type name attrs returnType params =>
    exact (spares_defineMethod type name attrs returnType params).map _
  | defineConstructor type attrs params =>
    exact (spares_defineConstructor type attrs params).map _
  | defineDefaultConstructor type attrs =>
    exact (leads_defineDefaultConstructor (spares_defineConstructor type attrs [])
      spares_edit).map _
  | defineProperty type name ty getter setter =>
    exact (spares_defineProperty type name ty getter setter).map _
  | defineAutoProperty type name ty => cases hop
  | look m l => exact Leads.map (.of_state (final_reading _)) _
  | edit m e => exact (spares_edit m e).map _
  | bump m op target =>
    refine Leads.map (spares_of_touches (touches_bump m op target) fun d h => ?_) _
    exact h.final_recording_bind _ _
  | callNamed m receiver name args =>
    refine Leads.map (spares_of_touches (touches_callNamed m receiver name args)
      fun d h => ?_) _
    exact h.final_recording_bind _ _
  | finalize m => exact (spares_finalize m).map _
  | createType id => exact (spares_createType id).map _

theorem ProjectM.spares_create (p : Project) : p.draft.Spares (final (create p)).draft :=
  leads_create spares_assemble (fun _ _ => .of_eq rfl rfl rfl) p

namespace Draft

structure Generated (d : Draft) (e : PropertyDef) (field : Nat) : Prop where
  stored : d.fields[field]? = some ⟨e.owner, s!"<{e.name}>k__BackingField", e.ty, {}⟩
  getter : ∃ g, e.getter = some g ∧ d.methods[g]? = some (.backedGetter e.owner field e.name e.ty)
  setter : ∃ s, e.setter = some s ∧ d.methods[s]? = some (.backedSetter e.owner field e.name e.ty)

/-- Each field that is behind a property was generated with it, and for it alone. -/
structure Backed (d : Draft) : Prop where
  generated : ∀ (i : Nat) (e : PropertyDef) (field : Nat), d.properties[i]? = some e →
    e.backing = some field → d.Generated e field
  separate : ∀ (i j : Nat) (e e' : PropertyDef) (field : Nat), d.properties[i]? = some e →
    d.properties[j]? = some e' → e.backing = some field → e'.backing = some field → i = j

variable {d d' : Draft}

theorem Generated.spare {e : PropertyDef} {field : Nat} (h : d.Generated e field)
    (hs : d.Spares d') : d'.Generated e field := by
  obtain ⟨g, hg, hgetter⟩ := h.getter
  obtain ⟨s, hs', hsetter⟩ := h.setter
  exact ⟨hs.fields _ _ h.stored, ⟨g, hg, hs.methods g _ _ hgetter rfl⟩,
    ⟨s, hs', hs.methods s _ _ hsetter rfl⟩⟩

theorem Backed.spare (h : d.Backed) (hs : d.Spares d') : d'.Backed := by
  have hold {i : Nat} {e : PropertyDef} {field : Nat} (he : d'.properties[i]? = some e)
      (hfield : e.backing = some field) : d.properties[i]? = some e :=
    hs.properties i e he (Option.isSome_iff_exists.mpr ⟨field, hfield⟩)
  constructor
  · intro i e field he hfield
    exact (h.generated i e field (hold he hfield) hfield).spare hs
  · intro i j e e' field he he' hfield hfield'
    exact h.separate i j e e' field (hold he hfield) (hold he' hfield') hfield hfield'

theorem getElem?_append_of_some {α : Type} {as : Array α} {a : α} {i : Nat}
    (h : as[i]? = some a) (bs : Array α) : (as ++ bs)[i]? = some a := by
  rw [Array.getElem?_append_left (Array.getElem?_eq_some_iff.mp h).1, h]

variable {type : Nat} {name : String} {ty : StaticType}

theorem properties_withProperty {i : Nat} {e : PropertyDef}
    (h : (d.withProperty type name ty).properties[i]? = some e) :
    d.properties[i]? = some e ∨ i = d.properties.size ∧ e =
      ⟨type, name, ty, some d.methods.size, some (d.methods.size + 1), some d.fields.size⟩ := by
  rw [withProperty, extend, modifyType, Array.getElem?_append] at h
  split at h
  · exact .inl h
  · rename_i hle
    obtain ⟨hlt, rfl⟩ := List.getElem?_eq_some_iff.mp (by simpa using h)
    rw [List.length_singleton] at hlt
    exact .inr ⟨by omega, by simp⟩

theorem Generated.withProperty {e : PropertyDef} {field : Nat} (h : d.Generated e field) :
    (d.withProperty type name ty).Generated e field := by
  obtain ⟨g, hg, hgetter⟩ := h.getter
  obtain ⟨s, hs, hsetter⟩ := h.setter
  exact ⟨getElem?_append_of_some h.stored _, ⟨g, hg, getElem?_append_of_some hgetter _⟩,
    ⟨s, hs, getElem?_append_of_some hsetter _⟩⟩

theorem generated_withProperty : (d.withProperty type name ty).Generated
    ⟨type, name, ty, some d.methods.size, some (d.methods.size + 1), some d.fields.size⟩
      d.fields.size where
  stored := by simp [Draft.withProperty, extend, modifyType]
  getter := ⟨d.methods.size, rfl, found_extend (k := 0) rfl⟩
  setter := ⟨d.methods.size + 1, rfl, found_extend (k := 1) rfl⟩

theorem Backed.withProperty (h : d.Backed) : (d.withProperty type name ty).Backed := by
  have hnew {i : Nat} {e : PropertyDef} (he : d.properties[i]? = some e) :
      e.backing ≠ some d.fields.size := by
    intro hfield
    have hstored := (h.generated i e _ he hfield).stored
    rw [Array.getElem?_eq_none (Nat.le_refl _)] at hstored
    cases hstored
  constructor
  · intro i e field he hfield
    obtain he | ⟨-, rfl⟩ := properties_withProperty he
    · exact (h.generated i e field he hfield).withProperty
    · cases hfield
      exact generated_withProperty
  · intro i j e e' field he he' hfield hfield'
    obtain he | ⟨rfl, rfl⟩ := properties_withProperty he <;>
      obtain he' | ⟨rfl, rfl⟩ := properties_withProperty he'
    · exact h.separate i j e e' field he he' hfield hfield'
    · cases hfield'
      exact absurd hfield (hnew he)
    · cases hfield
      exact absurd hfield' (hnew he')
    · rfl

end Draft

theorem Course.backed_defineAutoProperty {d : Draft} {issued : List (Nat × Variable)}
    (hc : Course Anything d issued) (h : d.Backed) (type : Nat) (name : String)
    (ty : StaticType) : (final (defineAutoProperty type name ty d)).Backed := by
  obtain ⟨e, he⟩ | ⟨id, d', -, hd⟩ := defineAutoProperty_cases type name ty d
  · rw [he]
    exact h
  · obtain ⟨-, -, rfl⟩ := (defineAutoProperty_eq_ok_iff hc.listed).mp hd
    rw [hd]
    exact h.withProperty

theorem Session.backed_perform {p : Project} {issued : List (Nat × Variable)}
    (h : Session Anything p issued) (hp : p.draft.Backed) (op : Operation) :
    (final (op.perform p.draft)).Backed := by
  cases hop : op.isAutoProperty with
  | false => exact hp.spare (Operation.spares_perform hop p.draft)
  | true =>
    obtain ⟨issued', hc, -⟩ := h.course
    cases op with
    | defineAutoProperty type name ty =>
      rw [Operation.perform, final_map]
      exact hc.backed_defineAutoProperty hp type name ty
    | _ => cases hop

theorem Session.backed {p : Project} {issued : List (Nat × Variable)}
    (h : Session Anything p issued) : p.draft.Backed := by
  induction h with
  | start name options disk => constructor <;> simp [Draft.empty]
  | done h op _ hop ih | failed h op _ hop ih =>
    have hbacked := h.backed_perform ih op
    rwa [hop] at hbacked
  | @created p _ _ _ _ hcreate ih | @uncreated p _ _ _ _ hcreate ih =>
    have hspares := ProjectM.spares_create p
    rw [hcreate] at hspares
    exact ih.spare hspares

end Bytesmith.Build
