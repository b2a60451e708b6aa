import Bytesmith.Proofs.Members

namespace Bytesmith.Build

open Code Outcome

namespace TypeDef

/-- Members are listed in the order of their definition. -/
structure Ascending (t : TypeDef) : Prop where
  fields : t.fields.Pairwise (· < ·)
  properties : t.properties.Pairwise (· < ·)
  methods : t.methods.Pairwise (· < ·)
  constructors : t.constructors.Pairwise (· < ·)

structure Within (t t' : TypeDef) : Prop where
  fields : t.fields ⊆ t'.fields
  properties : t.properties ⊆ t'.properties
  methods : t.methods ⊆ t'.methods
  constructors : t.constructors ⊆ t'.constructors

theorem Within.refl (t : TypeDef) : t.Within t :=
  ⟨List.Subset.refl _, List.Subset.refl _, List.Subset.refl _, List.Subset.refl _⟩

def callables (t : TypeDef) (isConstructor : Bool) : List Nat :=
  if isConstructor then t.constructors else t.methods

theorem Within.callables {t t' : TypeDef} (h : t.Within t') (isConstructor : Bool) :
    t.callables isConstructor ⊆ t'.callables isConstructor := by
  cases isConstructor with
  | false => exact h.methods
  | true => exact h.constructors

end TypeDef

theorem pairwise_concat {as : List Nat} {n : Nat} (h : as.Pairwise (· < ·))
    (hn : ∀ a ∈ as, a < n) : (as ++ [n]).Pairwise (· < ·) := by
  rw [List.pairwise_append]
  refine ⟨h, List.pairwise_singleton _ n, fun a ha b hb => ?_⟩
  rw [List.mem_singleton.mp hb]
  exact hn a ha

namespace Draft

structure Rostered (d : Draft) : Prop where
  fields : ∀ (f : Nat) (e : FieldDef), d.fields[f]? = some e →
    ∃ t, d.types[e.owner]? = some t ∧ f ∈ t.fields
  properties : ∀ (p : Nat) (e : PropertyDef), d.properties[p]? = some e →
    ∃ t, d.types[e.owner]? = some t ∧ p ∈ t.properties
  methods : ∀ (m : Nat) (e : MethodDef), d.methods[m]? = some e →
    ∃ t, d.types[e.owner]? = some t ∧ m ∈ t.callables e.isConstructor
  ascending : ∀ (i : Nat) (t : TypeDef), d.types[i]? = some t → t.Ascending

variable {d d' : Draft}

theorem Rostered.step (h : d.Rostered)
    (htypes : ∀ (i : Nat) (t : TypeDef), d.types[i]? = some t →
      ∃ t', d'.types[i]? = some t' ∧ t.Within t')
    (hfields : ∀ (f : Nat) (e : FieldDef), d'.fields[f]? = some e → d.fields[f]? = some e ∨
      ∃ t, d'.types[e.owner]? = some t ∧ f ∈ t.fields)
    (hproperties : ∀ (p : Nat) (e : PropertyDef), d'.properties[p]? = some e →
      (∃ e₀, d.properties[p]? = some e₀ ∧ e.owner = e₀.owner) ∨
        ∃ t, d'.types[e.owner]? = some t ∧ p ∈ t.properties)
    (hmethods : ∀ (m : Nat) (e : MethodDef), d'.methods[m]? = some e →
      (∃ e₀, d.methods[m]? = some e₀ ∧ e.owner = e₀.owner ∧ e.isConstructor = e₀.isConstructor) ∨
        ∃ t, d'.types[e.owner]? = some t ∧ m ∈ t.callables e.isConstructor)
    (hascending : ∀ (i : Nat) (t : TypeDef), d'.types[i]? = some t → t.Ascending) :
    d'.Rostered := by
  refine ⟨fun f e he => ?_, fun p e he => ?_, fun m e he => ?_, hascending⟩
  · obtain he | hnew := hfields f e he
    · obtain ⟨t, ht, hf⟩ := h.fields f e he
      obtain ⟨t', ht', hwithin⟩ := htypes _ t ht
      exact ⟨t', ht', hwithin.fields hf⟩
    · exact hnew
  · obtain ⟨e₀, he₀, howner⟩ | hnew := hproperties p e he
    · obtain ⟨t, ht, hp⟩ := h.properties p e₀ he₀
      obtain ⟨t', ht', hwithin⟩ := htypes _ t ht
      exact ⟨t', howner ▸ ht', hwithin.properties hp⟩
    · exact hnew
  · obtain ⟨e₀, he₀, howner, hkind⟩ | hnew := hmethods m e he
    · obtain ⟨t, ht, hm⟩ := h.methods m e₀ he₀
      obtain ⟨t', ht', hwithin⟩ := htypes _ t ht
      exact ⟨t', howner ▸ ht', hkind ▸ hwithin.callables _ hm⟩
    · exact hnew

variable {i : Nat} {t : TypeDef} {f : TypeDef → TypeDef}

theorem Lists.ascending_field (h : d.Lists i t) (ha : t.Ascending) :
    ({ t with fields := t.fields ++ [d.fields.size] } : TypeDef).Ascending := by
  refine ⟨pairwise_concat ha.fields fun f hf => ?_, ha.properties, ha.methods, ha.constructors⟩
  obtain ⟨e, he, -⟩ := h.fields f hf
  exact (Array.getElem?_eq_some_iff.mp he).1

theorem Lists.ascending_property (h : d.Lists i t) (ha : t.Ascending) :
    ({ t with properties := t.properties ++ [d.properties.size] } : TypeDef).Ascending := by
  refine ⟨ha.fields, pairwise_concat ha.properties fun p hp => ?_, ha.methods, ha.constructors⟩
  obtain ⟨e, he, -⟩ := h.properties p hp
  exact (Array.getElem?_eq_some_iff.mp he).1

theorem Lists.ascending_method (h : d.Lists i t) (ha : t.Ascending) :
    ({ t with methods := t.methods ++ [d.methods.size] } : TypeDef).Ascending := by
  refine ⟨ha.fields, ha.properties, pairwise_concat ha.methods fun m hm => ?_, ha.constructors⟩
  obtain ⟨e, he, -⟩ := h.methods m hm
  exact lt_size_of_found he

theorem Lists.ascending_constructor (h : d.Lists i t) (ha : t.Ascending) :
    ({ t with constructors := t.constructors ++ [d.methods.size] } : TypeDef).Ascending := by
  refine ⟨ha.fields, ha.properties, ha.methods, pairwise_concat ha.constructors fun c hc => ?_⟩
  obtain ⟨e, he, -⟩ := h.constructors c hc
  exact lt_size_of_found he

theorem exists_modifyType {id : Nat} (hf : ∀ t : TypeDef, t.Within (f t))
    (ht : d.types[i]? = some t) : ∃ t', (d.modifyType id f).types[i]? = some t' ∧ t.Within t' :=
  exists_modify t.Within (.refl t) (hf t) ht

theorem heading_of_backing {id field p : Nat} {e : PropertyDef}
    (h : (d.properties.modify id ({ · with backing := some field }))[p]? = some e) :
    ∃ e₀, d.properties[p]? = some e₀ ∧ e.heading = e₀.heading := by
  obtain ⟨e₀, he₀, ⟨-, rfl⟩ | ⟨-, rfl⟩⟩ := modify_cases h
  · exact ⟨e₀, he₀, rfl⟩
  · exact ⟨e, he₀, rfl⟩

theorem modifyType_self {id : Nat} (ht : d.types[id]? = some t) :
    (d.modifyType id f).types[id]? = some (f t) := by
  rw [modifyType, Array.getElem?_modify, if_pos rfl, ht]
  rfl

end Draft

variable {d d' : Draft}

theorem Declares.rostered (h : Declares d d') (hl : d.Listed) (hr : d.Rostered) : d'.Rostered := by
  have hmodified {id : Nat} {f : TypeDef → TypeDef}
      (hf : ∀ i t, d.Lists i t → t.Ascending → (f t).Ascending) (i : Nat) (t : TypeDef)
      (ht : (d.modifyType id f).types[i]? = some t) : t.Ascending := by
    obtain ⟨t₀, ht₀, ⟨-, rfl⟩ | ⟨-, rfl⟩⟩ := Draft.modifyType_cases ht
    · exact hf i t₀ (hl i t₀ ht₀) (hr.ascending i t₀ ht₀)
    · exact hr.ascending i t ht₀
  cases h with
  | type entry hfresh =>
    refine hr.step (fun i t ht => ⟨t, getElem?_push_of_some ht, .refl t⟩) (fun f e he => .inl he)
      (fun p e he => .inl ⟨e, he, rfl⟩) (fun m e he => .inl ⟨e, he, rfl, rfl⟩) fun i t ht => ?_
    obtain ht | ⟨-, rfl⟩ := getElem?_push_cases ht
    · exact hr.ascending i t ht
    · obtain ⟨hfields, hproperties, hmethods, hconstructors⟩ := hfresh
      constructor <;> simp [*]
  | enums | entryPoint => exact ⟨hr.fields, hr.properties, hr.methods, hr.ascending⟩
  | field entry htype =>
    obtain ⟨t, ht, -⟩ := htype
    refine hr.step (fun i t ht => Draft.exists_modifyType (fun t => ?_) ht) (fun f e he => ?_)
      (fun p e he => .inl ⟨e, he, rfl⟩) (fun m e he => .inl ⟨e, he, rfl, rfl⟩)
      (hmodified fun i t hlists => hlists.ascending_field)
    · exact ⟨List.subset_append_left .., .refl _, .refl _, .refl _⟩
    · obtain he | ⟨rfl, rfl⟩ := getElem?_push_cases he
      · exact .inl he
      · exact .inr ⟨_, Draft.modifyType_self ht, List.mem_append_right _ (.head _)⟩
  | method type name attrs returnType params htype =>
    obtain ⟨t, ht, -⟩ := htype
    refine hr.step (fun i t ht => Draft.exists_modifyType (fun t => ?_) ht) (fun f e he => .inl he)
      (fun p e he => .inl ⟨e, he, rfl⟩) (fun m e he => ?_)
      (hmodified fun i t hlists => hlists.ascending_method)
    · exact ⟨.refl _, .refl _, List.subset_append_left .., .refl _⟩
    · obtain he | ⟨rfl, rfl⟩ := getElem?_push_cases he
      · exact .inl ⟨e, he, rfl, rfl⟩
      · exact .inr ⟨_, Draft.modifyType_self ht, List.mem_append_right _ (.head _)⟩
  | constructor type attrs params htype =>
    obtain ⟨t, ht, -⟩ := htype
    refine hr.step (fun i t ht => Draft.exists_modifyType (fun t => ?_) ht) (fun f e he => .inl he)
      (fun p e he => .inl ⟨e, he, rfl⟩) (fun m e he => ?_)
      (hmodified fun i t hlists => hlists.ascending_constructor)
    · exact ⟨.refl _, .refl _, .refl _, List.subset_append_left ..⟩
    · obtain he | ⟨rfl, rfl⟩ := getElem?_push_cases he
      · exact .inl ⟨e, he, rfl, rfl⟩
      · exact .inr ⟨_, Draft.modifyType_self ht, List.mem_append_right _ (.head _)⟩
  | property entry htype =>
    obtain ⟨t, ht, -⟩ := htype
    refine hr.step (fun i t ht => Draft.exists_modifyType (fun t => ?_) ht) (fun f e he => .inl he)
      (fun p e he => ?_) (fun m e he => .inl ⟨e, he, rfl, rfl⟩)
      (hmodified fun i t hlists => hlists.ascending_property)
    · exact ⟨.refl _, List.subset_append_left .., .refl _, .refl _⟩
    · obtain he | ⟨rfl, rfl⟩ := getElem?_push_cases he
      · exact .inl ⟨e, he, rfl⟩
      · exact .inr ⟨_, Draft.modifyType_self ht, List.mem_append_right _ (.head _)⟩
  | backing id field =>
    refine hr.step (fun i t ht => ⟨t, ht, .refl t⟩) (fun f e he => .inl he) (fun p e he => .inl ?_)
      (fun m e he => .inl ⟨e, he, rfl, rfl⟩) hr.ascending
    obtain ⟨e₀, he₀, heading⟩ := Draft.heading_of_backing he
    exact ⟨e₀, he₀, (PropertyDef.eq_of_heading heading).1⟩
  | classOf id t hfound =>
    refine hr.step (fun i t ht => Draft.exists_modifyType (fun t => ⟨.refl _, .refl _, .refl _,
      .refl _⟩) ht) (fun f e he => .inl he) (fun p e he => .inl ⟨e, he, rfl⟩)
      (fun m e he => .inl ⟨e, he, rfl, rfl⟩) (hmodified fun i t hlists h₀ => ?_)
    exact ⟨h₀.fields, h₀.properties, h₀.methods, h₀.constructors⟩

theorem Course.rostered {Allowed : List (Nat × Variable) → Nat → Variable → Prop}
    {issued : List (Nat × Variable)} (h : Course Allowed d issued) : d.Rostered := by
  have hboth : d.Listed ∧ d.Rostered := by
    refine h.of_declares (P := fun d => d.Listed ∧ d.Rostered) (fun name options => ?_)
      (fun d d' hd hboth => ⟨hd.listed hboth.1, hd.rostered hboth.1 hboth.2⟩)
      fun d d' hsame hboth => ⟨fun i t ht => ?_, ?_⟩
    · exact ⟨by simp [Draft.Listed, Draft.empty], by constructor <;> simp [Draft.empty]⟩
    · rw [hsame.types] at ht
      exact (hboth.1 i t ht).retain hsame.retains
    · refine hboth.2.step (fun i t ht => ⟨t, ?_, .refl t⟩) (fun f e he => .inl ?_)
        (fun p e he => .inl ⟨e, ?_, rfl⟩) (fun m e he => .inl ?_) fun i t ht => ?_
      · rw [hsame.types, ht]
      · rwa [hsame.fields] at he
      · rwa [hsame.properties] at he
      · have hm := hsame.methods m
        rw [he, Option.map_some] at hm
        obtain ⟨e₀, he₀, hdecl⟩ := Option.map_eq_some_iff.mp hm.symm
        obtain ⟨howner, -, -, -, hkind⟩ := MethodDef.eq_of_declaration hdecl
        exact ⟨e₀, he₀, howner.symm, hkind.symm⟩
      · rw [hsame.types] at ht
        exact hboth.2.ascending i t ht
  exact hboth.2

end Bytesmith.Build
