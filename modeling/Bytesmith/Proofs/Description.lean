import Bytesmith.Proofs.Consistency

namespace Bytesmith.Build

open Code Outcome

/-- The body that the method has, or that it is finished with if it is open. -/
def MethodDef.Ends (t : MethodDef) (body : Body) : Prop :=
  t.state = .finished body ∨
    t.state = .open ∧ t.blocks = [] ∧ ∃ e, t.finalize t.emitter = .ok body e

namespace Draft

def Finishes (d d' : Draft) : Prop :=
  ∀ (i : Nat) (t : MethodDef), d.methods[i]? = some t → ∃ t', d'.methods[i]? = some t' ∧
    (t' = t ∨ t.state = .open ∧ t.blocks = [] ∧ ∃ body e, t.finalize t.emitter = .ok body e ∧
      t' = { t with emitter := e, state := .finished body })

theorem Finishes.refl (d : Draft) : d.Finishes d := fun _ t ht => ⟨t, ht, .inl rfl⟩

theorem Finishes.of_methods {d d' : Draft} (h : d'.methods = d.methods) : d.Finishes d' :=
  fun _ t ht => ⟨t, by rw [h, ht], .inl rfl⟩

theorem Finishes.trans {d d' d'' : Draft} (h : d.Finishes d') (h' : d'.Finishes d'') :
    d.Finishes d'' := by
  intro i t ht
  obtain ⟨t', ht', rfl | ⟨hopen, hblocks, body, e, hf, rfl⟩⟩ := h i t ht
  · exact h' i t' ht'
  · -- what is finished is left alone
    obtain ⟨t'', ht'', rfl | ⟨hopen', -⟩⟩ := h' i _ ht'
    · exact ⟨_, ht'', .inr ⟨hopen, hblocks, body, e, hf, rfl⟩⟩
    · cases hopen'

/-- A draft that comes about by a course goes on with it, and methods are left alone or finished. -/
def Finishing (d d' : Draft) : Prop :=
  ∀ issued, Course Anything d issued → Course Anything d' issued ∧ d.Finishes d'

instance : Std.Refl Finishing := ⟨fun d _ hc => ⟨hc, .refl d⟩⟩

instance : Trans Finishing Finishing Finishing where
  trans h h' issued hc := by
    obtain ⟨hc', hfinishes⟩ := h issued hc
    obtain ⟨hc'', hfinishes'⟩ := h' issued hc'
    exact ⟨hc'', hfinishes.trans hfinishes'⟩

end Draft

namespace BuildM

open Draft

variable {d : Draft}

theorem finishing_finalize (m : Nat) : Leads Finishing (finalize m) := by
  intro d issued hc
  refine ⟨(goes_finalize m d).course issued hc, ?_⟩
  by_cases h : ∃ t, d.methods[m]? = some t ∧ t.state = .open ∧ t.blocks = []
  · obtain ⟨t, hfound, hstate, hblocks⟩ := h
    have hf := ((hc.settled hfound (.refl _)).history hstate).finalize_eq hblocks
    rw [finalize_of_open hfound hstate hblocks hf]
    intro i t' ht'
    by_cases hi : i = m
    · subst hi
      rw [hfound] at ht'
      cases ht'
      exact ⟨_, found_edited (lt_size_of_found hfound), .inr ⟨hstate, hblocks, _, _, hf, rfl⟩⟩
    · exact ⟨t', (found_edited_ne hi).trans ht', .inl rfl⟩
  · rw [final_finalize_of_not h]
    exact .refl d

theorem finishing_createType (id : Nat) : Leads Finishing (createType id) := by
  refine .get_bind fun _ => leads_createTypeBelow_of_class finishing_finalize (fun d id t ht => ?_) _ id
  exact fun issued hc => ⟨hc.declare (.classOf id t ht), .of_methods rfl⟩

theorem finishing_assemble : Leads Finishing assemble :=
  leads_assemble (fun _ _ hc => ⟨hc.declare (.enums _), .of_methods rfl⟩) finishing_createType

end BuildM

structure FieldDef.DescribedBy (f : FieldDef) (entry : FieldEntry) : Prop where
  name : entry.name = f.name
  owner : entry.owner = f.owner.toUInt32
  kind : entry.kind = f.ty.valueKind
  isStatic : entry.isStatic = f.attrs.isStatic

structure MethodDef.DescribedBy (t : MethodDef) (f : Function) : Prop where
  name : f.name = t.name
  owner : f.owner = some t.owner.toUInt32
  flags : f.flags = t.flags
  isStatic : f.isStatic = t.attrs.isStatic
  isConstructor : f.isConstructor = t.isConstructor
  isAbstract : f.isAbstract = t.attrs.isAbstract
  returnsValue : f.returnsValue = !t.returnType.isVoid
  paramCount : f.paramCount = t.paramCount
  paramKinds : f.paramKinds = t.paramTypes.map (·.valueKind)
  body : ∃ body, t.Ends body ∧ f.localCount = body.localCount ∧ f.code = body.code ∧
    f.handlers = body.handlers

namespace Draft

/-- The class has the heading of the type and lists its members, all of them and in order. -/
structure TypeDescribedBy (d : Draft) (t : TypeDef) (c : ClassEntry) : Prop where
  name : c.name = t.name
  parent : c.parent = t.base.map (·.toUInt32)
  interfaces : c.interfaces = t.interfaces.map (·.toUInt32)
  isInterface : c.isInterface = t.attrs.isInterface
  isAbstract : c.isAbstract = t.attrs.isAbstract
  fields : c.fields = t.fields.map (·.toUInt32)
  methods : List.Forall₂ (fun m entry => ∃ e, d.methods[m]? = some e ∧
    entry = ⟨e.name, m.toUInt32⟩) t.methods c.methods
  constructors : c.constructors = t.constructors.map (·.toUInt32)
  properties : List.Forall₂ (fun p entry => ∃ e, d.properties[p]? = some e ∧
    entry = ⟨e.name, e.getter.map (·.toUInt32), e.setter.map (·.toUInt32)⟩)
      t.properties c.properties

/-- The tables of the module describe what is defined, one entry for each definition. -/
structure DescribedBy (d : Draft) (m : Module) : Prop where
  classes : List.Forall₂ d.TypeDescribedBy d.types.toList m.classes
  fields : List.Forall₂ FieldDef.DescribedBy d.fields.toList m.fields
  functions : List.Forall₂ MethodDef.DescribedBy d.methods.toList m.functions

end Draft

theorem forall₂_of_getElem? {α β : Type} {R : α → β → Prop} {as : Array α} {bs : List β}
    (hlength : bs.length = as.size)
    (h : ∀ (i : Nat) (a : α), as[i]? = some a → ∃ b, bs[i]? = some b ∧ R a b) :
    List.Forall₂ R as.toList bs := by
  refine List.forall₂_iff_get.mpr ⟨by simpa using hlength.symm, fun i hi hi' => ?_⟩
  obtain ⟨b, hb, hR⟩ := h i as[i] (Array.getElem?_eq_getElem (by simpa using hi))
  rw [List.getElem?_eq_getElem hi', Option.some.injEq] at hb
  simpa [hb] using hR

theorem forall₂_filterMap {α β : Type} {table : Array α} {entry : Nat → α → β} {ids : List Nat}
    (h : ∀ i ∈ ids, ∃ a, table[i]? = some a) :
    List.Forall₂ (fun i b => ∃ a, table[i]? = some a ∧ b = entry i a) ids
      (ids.filterMap fun i => table[i]?.map (entry i)) := by
  induction ids with
  | nil => exact .nil
  | cons i ids ih =>
    obtain ⟨a, ha⟩ := h i (.head _)
    rw [List.filterMap_cons, ha]
    exact .cons ⟨a, ha, rfl⟩ (ih fun j hj => h j (.tail i hj))

theorem Draft.toClass_bare (d : Draft) (t : TypeDef) : d.toClass t.bare = d.toClass t := rfl

theorem FieldDef.describedBy_toField (f : FieldDef) : f.DescribedBy f.toField :=
  ⟨rfl, rfl, rfl, rfl⟩

theorem Draft.Lists.describedBy_toClass {d : Draft} {i : Nat} {t : TypeDef} (h : d.Lists i t) :
    d.TypeDescribedBy t (d.toClass t) where
  name := rfl
  parent := rfl
  interfaces := rfl
  isInterface := rfl
  isAbstract := rfl
  fields := rfl
  methods := forall₂_filterMap h.exists_method
  constructors := rfl
  properties := forall₂_filterMap h.exists_property

theorem MethodDef.describedBy_toFunction {t t' : MethodDef} {f : Function}
    (hf : t'.toFunction = .ok f)
    (h : t' = t ∨ t.state = .open ∧ t.blocks = [] ∧ ∃ body e, t.finalize t.emitter = .ok body e ∧
      t' = { t with emitter := e, state := .finished body }) : t.DescribedBy f := by
  obtain ⟨body, hbody, rfl⟩ := toFunction_eq_ok hf
  have hends : t.Ends body := by
    obtain rfl | ⟨hopen, hblocks, body', e, hfinal, rfl⟩ := h
    · exact .inl hbody
    · cases hbody
      exact .inr ⟨hopen, hblocks, e, hfinal⟩
  have hdecl : t'.declaration = t.declaration := by
    obtain rfl | ⟨-, -, body', e, -, rfl⟩ := h <;> rfl
  have hname : t'.name = t.name := congrArg (·.2.1) hdecl
  obtain ⟨howner, hattrs, hreturn, hparams, hkind⟩ := eq_of_declaration hdecl
  have hflags : t'.flags = t.flags := by rw [flags, flags, hattrs, hkind, hreturn]
  obtain ⟨hstatic, hconstructor, habstract, hreturns⟩ := t.bits_flags
  rw [← hflags] at hstatic hconstructor habstract hreturns
  exact ⟨hname, congrArg (some ·.toUInt32) howner, hflags, hstatic, hconstructor, habstract,
    hreturns, paramCount_of_declaration hdecl, by rw [paramTypes, hparams, paramTypes], body, hends,
    rfl, rfl, rfl⟩

variable {p p' : Project} {issued : List (Nat × Variable)} {m : Module}

theorem ProjectM.finishes_of_create (hc : Course Anything p.draft issued)
    (h : create p = .ok m p') : p.draft.Finishes p'.draft := by
  obtain ⟨-, rfl⟩ | ⟨-, d, hassemble, hd⟩ := create_eq_ok h
  · exact .refl _
  · have hfinishes := (BuildM.finishing_assemble.of_ok hassemble issued hc).2
    rw [hd]
    exact hfinishes

theorem Session.describedBy_of_create (h : Session Anything p issued)
    (hcreate : ProjectM.create p = .ok m p') : p.draft.DescribedBy m := by
  obtain ⟨issued', hc, -⟩ := h.course
  have hfrozen := h.frozen_of_create hcreate
  have htables := (h.created hcreate).tabulates hfrozen.created
  have hsame : p.draft.SameDefinitions p'.draft := by
    have hsame := ProjectM.sameDefinitions_create p
    rwa [hcreate] at hsame
  obtain ⟨hcount, hfunctions⟩ := hfrozen.yields.function
  have hsizes : p'.draft.types.size = p.draft.types.size ∧
      p'.draft.methods.size = p.draft.methods.size := by
    have htypes : p'.draft.bare.types.size = p.draft.bare.types.size := by rw [hsame]
    have hmethods : p'.draft.bare.methods.size = p.draft.bare.methods.size := by rw [hsame]
    simpa [Draft.bare] using And.intro htypes hmethods
  refine ⟨forall₂_of_getElem? (htables.count.trans hsizes.1) fun i t ht => ?_, ?_,
    forall₂_of_getElem? (hcount.trans hsizes.2) fun i t ht => ?_⟩
  · obtain ⟨t', ht', hbare⟩ := hsame.type ht
    have hclass : p'.draft.toClass t' = p.draft.toClass t := by
      rw [← (hc.listed i t ht).toClass_eq hsame.retains, ← Draft.toClass_bare, hbare,
        Draft.toClass_bare]
    refine ⟨p.draft.toClass t, ?_, (hc.listed i t ht).describedBy_toClass⟩
    rw [htables.classes i t' ht', hclass]
  · rw [htables.fields, hsame.fields, List.forall₂_map_right_iff]
    exact List.forall₂_same.mpr fun f _ => f.describedBy_toField
  · obtain ⟨t', ht', hends⟩ := ProjectM.finishes_of_create hc hcreate i t ht
    obtain ⟨f, hf, hfunction⟩ := hfunctions i t' ht'
    exact ⟨f, hf, MethodDef.describedBy_toFunction hfunction hends⟩

/-- What each of several lists, with the one that lists it. -/
def listings {α β γ : Type} (lists : α → List β) (handle : Nat → γ) (as : List α) : List (β × γ) :=
  as.zipIdx.flatMap fun x => (lists x.1).map (·, handle x.2)

/-- Those of several that pass a check, each with its owner. -/
def ownings {α β γ : Type} (check : α → Bool) (handle : Nat → β) (owner : α → γ) (as : List α) :
    List (β × γ) :=
  (as.zipIdx.filter (check ·.1)).map fun x => (handle x.2, owner x.1)

section

variable {α β γ : Type} {as : List α} {bs : List β} {R : α → β → Prop}

theorem listings_eq_map {lists : α → List Nat} {lists' : β → List UInt32} {handle : Nat → γ}
    (h : List.Forall₂ R as bs) (heq : ∀ a b, R a b → lists' b = (lists a).map (·.toUInt32)) :
    listings lists' handle bs = (listings lists id as).map (Prod.map (·.toUInt32) handle) := by
  have hfrom (n : Nat) : ((bs.zipIdx n).flatMap fun x => (lists' x.1).map (·, handle x.2)) =
      ((as.zipIdx n).flatMap fun x => (lists x.1).map (·, x.2)).map
        (Prod.map (·.toUInt32) handle) := by
    induction h generalizing n with
    | nil => rfl
    | @cons a b as bs hab _ ih =>
      rw [List.zipIdx_cons, List.zipIdx_cons, List.flatMap_cons, List.flatMap_cons,
        List.map_append, ih, heq a b hab, List.map_map, List.map_map]
      rfl
  exact hfrom 0

theorem ownings_eq_map {check : α → Bool} {check' : β → Bool} {owner : α → Nat} {owner' : β → γ}
    {handle : Nat → γ} (h : List.Forall₂ R as bs)
    (heq : ∀ a b, R a b → check' b = check a ∧ owner' b = handle (owner a)) :
    ownings check' (·.toUInt32) owner' bs =
      (ownings check id owner as).map (Prod.map (·.toUInt32) handle) := by
  have hfrom (n : Nat) : (((bs.zipIdx n).filter (check' ·.1)).map fun x =>
        (x.2.toUInt32, owner' x.1)) =
      (((as.zipIdx n).filter (check ·.1)).map fun x => (x.2, owner x.1)).map
        (Prod.map (·.toUInt32) handle) := by
    induction h generalizing n with
    | nil => rfl
    | @cons a b as bs hab _ ih =>
      obtain ⟨hcheck, howner⟩ := heq a b hab
      rw [List.zipIdx_cons, List.zipIdx_cons, List.filter_cons, List.filter_cons, hcheck]
      split
      · rw [List.map_cons, List.map_cons, List.map_cons, ih, howner]
        rfl
      · exact ih (n + 1)
  exact hfrom 0

theorem mem_ownings {check : α → Bool} {owner : α → Nat} {f i : Nat} :
    (f, i) ∈ ownings check id owner as ↔ ∃ a, as[f]? = some a ∧ check a = true ∧ owner a = i := by
  simp only [ownings, List.mem_map, List.mem_filter, List.mem_zipIdx_iff_getElem?, Prod.exists,
    Prod.mk.injEq, id]
  constructor
  · rintro ⟨a, g, ⟨ha, hcheck⟩, rfl, rfl⟩
    exact ⟨a, ha, hcheck, rfl⟩
  · rintro ⟨a, ha, hcheck, rfl⟩
    exact ⟨a, f, ⟨ha, hcheck⟩, rfl, rfl⟩

theorem mem_listings {lists : α → List Nat} {f i : Nat} :
    (f, i) ∈ listings lists id as ↔ ∃ a, as[i]? = some a ∧ f ∈ lists a := by
  simp only [listings, List.mem_flatMap, List.mem_map, List.mem_zipIdx_iff_getElem?, Prod.exists,
    Prod.mk.injEq, id]
  constructor
  · rintro ⟨a, j, ha, g, hg, rfl, rfl⟩
    exact ⟨a, ha, hg⟩
  · rintro ⟨a, ha, hf⟩
    exact ⟨a, i, ha, f, hf, rfl, rfl⟩

theorem nodup_indices : (as.zipIdx.map Prod.snd).Nodup := by
  rw [List.zipIdx_map_snd]
  exact List.nodup_range'

theorem nodup_ownings {check : α → Bool} {owner : α → Nat} : (ownings check id owner as).Nodup := by
  refine List.Nodup.of_map Prod.fst ?_
  rw [ownings, List.map_map]
  exact nodup_indices.sublist (List.filter_sublist.map Prod.snd)

theorem nodup_listings {lists : α → List Nat} (h : ∀ a ∈ as, (lists a).Nodup) :
    (listings lists id as).Nodup := by
  refine List.nodup_flatMap.mpr ⟨fun x hx => ?_, ?_⟩
  · exact (h x.1 (List.fst_mem_of_mem_zipIdx hx)).map fun _ _ heq => (Prod.mk.inj heq).1
  · refine (List.pairwise_map.mp nodup_indices).imp fun hne => ?_
    intro y hy hy'
    obtain ⟨g, -, rfl⟩ := List.mem_map.mp hy
    obtain ⟨g', -, heq⟩ := List.mem_map.mp hy'
    exact hne (Prod.mk.inj heq).2.symm

end

namespace Draft

variable {d : Draft}

theorem Rostered.perm_fields (h : d.Rostered) (hl : d.Listed) :
    (listings TypeDef.fields id d.types.toList).Perm
      (ownings (fun _ => true) id FieldDef.owner d.fields.toList) := by
  refine (List.perm_ext_iff_of_nodup (nodup_listings fun t ht => ?_) nodup_ownings).mpr ?_
  · obtain ⟨i, hi⟩ := List.getElem?_of_mem ht
    exact (h.ascending i t (by simpa using hi)).fields.imp Nat.ne_of_lt
  · rintro ⟨f, i⟩
    rw [mem_listings, mem_ownings]
    simp only [Array.getElem?_toList, true_and]
    constructor
    · rintro ⟨t, ht, hf⟩
      exact (hl i t ht).fields f hf
    · rintro ⟨e, he, rfl⟩
      exact h.fields f e he

theorem Rostered.perm_callables (h : d.Rostered) (hl : d.Listed) (isConstructor : Bool) :
    (listings (·.callables isConstructor) id d.types.toList).Perm
      (ownings (·.isConstructor == isConstructor) id MethodDef.owner d.methods.toList) := by
  refine (List.perm_ext_iff_of_nodup (nodup_listings fun t ht => ?_) nodup_ownings).mpr ?_
  · obtain ⟨i, hi⟩ := List.getElem?_of_mem ht
    have hascending := h.ascending i t (by simpa using hi)
    cases isConstructor with
    | false => exact hascending.methods.imp Nat.ne_of_lt
    | true => exact hascending.constructors.imp Nat.ne_of_lt
  · rintro ⟨m, i⟩
    rw [mem_listings, mem_ownings]
    simp only [Array.getElem?_toList, beq_iff_eq]
    constructor
    · rintro ⟨t, ht, hm⟩
      cases isConstructor with
      | false =>
        obtain ⟨e, he, howner, hkind⟩ := (hl i t ht).methods m hm
        exact ⟨e, he, hkind, howner⟩
      | true =>
        obtain ⟨e, he, howner, hkind⟩ := (hl i t ht).constructors m hm
        exact ⟨e, he, hkind, howner⟩
    · rintro ⟨e, he, rfl, rfl⟩
      exact h.methods m e he

theorem TypeDescribedBy.functions_eq {t : TypeDef} {c : ClassEntry} (h : d.TypeDescribedBy t c) :
    c.methods.map (·.function) = t.methods.map (·.toUInt32) := by
  have hall := h.methods
  generalize t.methods = methods, c.methods = entries at hall
  induction hall with
  | nil => rfl
  | cons hentry _ ih =>
    obtain ⟨e, -, rfl⟩ := hentry
    rw [List.map_cons, List.map_cons, ih]

end Draft

/-- Every field and every function of the module is listed once: by the class that owns it, and a
function among the methods or among the constructors, whichever it is. -/
structure Listings (m : Module) : Prop where
  fields : (listings ClassEntry.fields (·.toUInt32) m.classes).Perm
    (ownings (fun _ => true) (·.toUInt32) FieldEntry.owner m.fields)
  methods : (listings (·.methods.map (·.function)) (some ·.toUInt32) m.classes).Perm
    (ownings (·.isConstructor == false) (·.toUInt32) Function.owner m.functions)
  constructors : (listings ClassEntry.constructors (some ·.toUInt32) m.classes).Perm
    (ownings (·.isConstructor == true) (·.toUInt32) Function.owner m.functions)

theorem Draft.DescribedBy.listings {d : Draft} (h : d.DescribedBy m) (hl : d.Listed)
    (hr : d.Rostered) : Listings m := by
  have hfunctions (isConstructor : Bool) :
      ownings (·.isConstructor == isConstructor) (·.toUInt32) Function.owner m.functions =
        (ownings (·.isConstructor == isConstructor) id MethodDef.owner d.methods.toList).map
          (Prod.map (·.toUInt32) (some ·.toUInt32)) :=
    ownings_eq_map h.functions fun t f hf => ⟨by rw [hf.isConstructor], hf.owner⟩
  constructor
  · rw [listings_eq_map h.classes fun t c hc => hc.fields,
      ownings_eq_map h.fields fun e f hf => ⟨rfl, hf.owner⟩]
    exact (hr.perm_fields hl).map _
  · rw [listings_eq_map h.classes fun t c hc => hc.functions_eq, hfunctions]
    exact (hr.perm_callables hl false).map _
  · rw [listings_eq_map h.classes fun t c hc => hc.constructors, hfunctions]
    exact (hr.perm_callables hl true).map _

/-- Whatever a module has been through, when its creation is granted, its tables describe its types,
fields and methods as they are defined at that moment, and list every field and every function once. -/
theorem Session.created_describes (h : Session Anything p issued)
    (hcreate : ProjectM.create p = .ok m p') :
    p.draft.DescribedBy m ∧ p'.draft.bare = p.draft.bare ∧ Listings m := by
  have hdescribed := h.describedBy_of_create hcreate
  obtain ⟨issued', hc, -⟩ := h.course
  refine ⟨hdescribed, ?_, hdescribed.listings hc.listed hc.rostered⟩
  have hsame := ProjectM.sameDefinitions_create p
  rwa [hcreate] at hsame

/-- A type that is created early takes no more members, and the module cannot be created before its
other type has some. -/
def belated : List Request := [
  .perform (.defineType "Shape" {} none []),
  .perform (.defineField 0 "side" .int {}),
  .perform (.createType 0),
  .perform (.defineType "Square" {} (some 0) []),
  .create,
  .perform (.createType 1),
  .perform (.defineField 0 "late" .int {}),
  .perform (.defineMethod 1 "area" {} .int [⟨"unit", .double⟩]),
  .perform (.edit 0 (.ret (.constant (.i32 1)))),
  .perform (.defineConstructor 1 {} []),
  .perform (.defineAutoProperty 1 "Name" .string)]

theorem Session.created_describes_belated :
    ∃ p log issued m p', Request.makeAll belated (⟨.empty "Shapes" {}, .empty⟩, []) = (p, log) ∧
      Session Anything p issued ∧ ProjectM.create p = .ok m p' ∧
      log.reverse.map (·.2) =
        [true, true, true, true, false, false, false, true, true, true, true] ∧
      p.draft.DescribedBy m ∧ p'.draft.bare = p.draft.bare ∧ Listings m := by
  obtain ⟨p, log, m, p', hrun, hcreate, hlog⟩ := Request.exists_of_creates
    (fun log _ => decide (log.reverse.map (·.2) =
      [true, true, true, true, false, false, false, true, true, true, true]))
    belated ⟨.empty "Shapes" {}, .empty⟩ (by decide +kernel)
  obtain ⟨issued, h⟩ := Session.of_makeAll belated "Shapes" {}
  rw [hrun] at h
  exact ⟨p, log, issued, m, p', hrun, h, hcreate, of_decide_eq_true hlog,
    h.created_describes hcreate⟩

end Bytesmith.Build
