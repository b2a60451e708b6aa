import Bytesmith.Proofs.Creation
import Bytesmith.Proofs.Members

namespace Bytesmith.Code.Module

def Descends (m : Module) : Prop :=
  ∀ id c, m.class? id = some c → ∀ b ∈ c.interfaces ++ c.parent.toList, b.toNat < id.toNat

variable {m : Module} {a b target : UInt32} {n k : Nat}

theorem reaches_mono (hle : n ≤ k) (h : m.reaches target n a = true) :
    m.reaches target k a = true := by
  induction n generalizing a k with
  | zero =>
    cases k with
    | zero => exact h
    | succ k =>
      rw [reaches, Bool.or_eq_true]
      exact .inl h
  | succ n ih =>
    obtain ⟨k, rfl⟩ : ∃ j, k = j + 1 := ⟨k - 1, by omega⟩
    rw [reaches, Bool.or_eq_true] at h ⊢
    refine h.imp id fun h => ?_
    cases hc : m.class? a with
    | none => simp [hc] at h
    | some c =>
      simp only [hc, List.any_eq_true] at h ⊢
      obtain ⟨x, hx, h⟩ := h
      exact ⟨x, hx, ih (by omega) h⟩

theorem reaches_trans (h : m.reaches b n a = true) (h' : m.reaches target k b = true) :
    m.reaches target (n + k) a = true := by
  induction n generalizing a with
  | zero =>
    rw [reaches, beq_iff_eq] at h
    rw [Nat.zero_add, h]
    exact h'
  | succ n ih =>
    rw [reaches, Bool.or_eq_true, beq_iff_eq] at h
    obtain rfl | h := h
    · exact reaches_mono (by omega) h'
    · cases hc : m.class? a with
      | none => simp [hc] at h
      | some c =>
        simp only [hc, List.any_eq_true] at h
        obtain ⟨x, hx, h⟩ := h
        rw [Nat.add_right_comm, reaches, Bool.or_eq_true, hc]
        exact .inr (List.any_eq_true.mpr ⟨x, hx, ih h⟩)

theorem Descends.isAssignable_of_reaches (hm : m.Descends) (h : m.reaches target n a = true) :
    m.isAssignable a target = true := by
  -- each step leads to a smaller index
  have hshort : m.reaches target a.toNat a = true := by
    induction n generalizing a with
    | zero => exact reaches_mono (Nat.zero_le _) h
    | succ n ih =>
      rw [reaches, Bool.or_eq_true] at h
      obtain h | h := h
      · exact reaches_mono (n := 0) (Nat.zero_le _) h
      · cases hc : m.class? a with
        | none => simp [hc] at h
        | some c =>
          simp only [hc, List.any_eq_true] at h
          obtain ⟨x, hx, h⟩ := h
          have hlt := hm a c hc x hx
          obtain ⟨j, hj⟩ : ∃ j, a.toNat = j + 1 := ⟨a.toNat - 1, by omega⟩
          rw [hj, reaches, Bool.or_eq_true, hc]
          exact .inr (List.any_eq_true.mpr ⟨x, hx, reaches_mono (by omega) (ih h)⟩)
  by_cases ha : a.toNat < m.classes.length
  · exact reaches_mono (Nat.le_of_lt ha) hshort
  · have hnone : m.class? a = none := List.getElem?_eq_none (by omega)
    have hsame : m.reaches target 0 a = true := by
      cases hn : a.toNat with
      | zero =>
        rw [hn] at hshort
        exact hshort
      | succ j =>
        rw [hn, reaches, hnone, Bool.or_false] at hshort
        exact hshort
    exact reaches_mono (Nat.zero_le _) hsame

theorem Descends.isAssignable_trans (hm : m.Descends) (h : m.isAssignable a b = true)
    (h' : m.isAssignable b target = true) : m.isAssignable a target = true :=
  hm.isAssignable_of_reaches (reaches_trans h h')

end Bytesmith.Code.Module

namespace Bytesmith.Build

open Code Outcome

namespace Draft

variable {d d' : Draft} {i : Nat} {t : TypeDef}

theorem Retains.trans {d'' : Draft} (h : d.Retains d') (h' : d'.Retains d'') : d.Retains d'' := by
  refine ⟨fun i t ht => ?_, fun i f hf => h'.fields i f (h.fields i f hf), fun i p hp => ?_,
    fun i t ht => ?_⟩
  · obtain ⟨t₁, ht₁, h₁⟩ := h.types i t ht
    obtain ⟨t₂, ht₂, h₂⟩ := h'.types i t₁ ht₁
    exact ⟨t₂, ht₂, h₂.trans h₁⟩
  · obtain ⟨p₁, hp₁, h₁⟩ := h.properties i p hp
    obtain ⟨p₂, hp₂, h₂⟩ := h'.properties i p₁ hp₁
    exact ⟨p₂, hp₂, h₂.trans h₁⟩
  · obtain ⟨t₁, ht₁, h₁⟩ := h.methods i t ht
    obtain ⟨t₂, ht₂, h₂⟩ := h'.methods i t₁ ht₁
    exact ⟨t₂, ht₂, h₂.trans h₁⟩

instance : Std.Refl Retains := ⟨fun _ => Redeclares.retains ⟨rfl, rfl, rfl, fun _ => rfl⟩⟩

instance : Trans Retains Retains Retains := ⟨Retains.trans⟩

theorem Lists.toClass_eq (h : d.Lists i t) (hr : d.Retains d') : d'.toClass t = d.toClass t := by
  have hmethods : (t.methods.filterMap fun m =>
      d'.methods[m]?.map fun e => (⟨e.name, m.toUInt32⟩ : MethodEntry)) =
      t.methods.filterMap fun m => d.methods[m]?.map fun e => ⟨e.name, m.toUInt32⟩ := by
    refine List.filterMap_congr fun m hm => ?_
    obtain ⟨e, he, -⟩ := h.methods m hm
    obtain ⟨e', he', hdecl⟩ := hr.methods m e he
    have hname : e'.name = e.name := congrArg (·.2.1) hdecl
    rw [he, he', Option.map_some, Option.map_some, hname]
  have hproperties : (t.properties.filterMap fun p => d'.properties[p]?.map fun e =>
      (⟨e.name, e.getter.map (·.toUInt32), e.setter.map (·.toUInt32)⟩ : PropertyEntry)) =
      t.properties.filterMap fun p => d.properties[p]?.map fun e =>
        ⟨e.name, e.getter.map (·.toUInt32), e.setter.map (·.toUInt32)⟩ := by
    refine List.filterMap_congr fun p hp => ?_
    obtain ⟨e, he, -⟩ := h.properties p hp
    obtain ⟨e', he', hheading⟩ := hr.properties p e he
    obtain ⟨-, hname, -, hgetter, hsetter⟩ := PropertyDef.eq_of_heading hheading
    rw [he, he', Option.map_some, Option.map_some, hname, hgetter, hsetter]
  rw [toClass, toClass, hmethods, hproperties]

def Classed (d : Draft) : Prop :=
  ∀ (i : Nat) (t : TypeDef) (c : ClassEntry), d.types[i]? = some t → t.created = some c →
    c = d.toClass t

end Draft

variable {d d' : Draft}

theorem Declares.classed (h : Declares d d') (hl : d.Listed) (hc : d.Classed) : d'.Classed := by
  have hr := h.retains
  have hold (i : Nat) (t : TypeDef) (c : ClassEntry) (ht : d.types[i]? = some t)
      (hcreated : t.created = some c) : c = d'.toClass t := by
    rw [(hl i t ht).toClass_eq hr]
    exact hc i t c ht hcreated
  -- types that take members are not created
  have htaken {owner : Nat} {f : TypeDef → TypeDef} (htype : d.TakesMembers owner)
      (hf : ∀ t, (f t).created = t.created) (i : Nat) (t : TypeDef) (c : ClassEntry)
      (ht : (d.modifyType owner f).types[i]? = some t) (hcreated : t.created = some c) :
      c = d'.toClass t := by
    obtain ⟨t₀, ht₀, ⟨rfl, rfl⟩ | ⟨-, rfl⟩⟩ := Draft.modifyType_cases ht
    · obtain ⟨t', ht', hnone⟩ := htype
      rw [ht₀] at ht'
      cases ht'
      rw [hf, hnone] at hcreated
      cases hcreated
    · exact hold i t c ht₀ hcreated
  cases h with
  | type entry hfresh hnone hbases =>
    intro i t c ht hcreated
    obtain ht | ⟨-, rfl⟩ := getElem?_push_cases ht
    · exact hold i t c ht hcreated
    · rw [hnone] at hcreated
      cases hcreated
  | enums | backing | entryPoint => exact hold
  | field _ htype | method _ _ _ _ _ htype | constructor _ _ _ htype | property _ htype =>
    exact htaken htype fun _ => rfl
  | classOf id t₁ hfound =>
    intro i t c ht hcreated
    obtain ⟨t₀, ht₀, ⟨rfl, rfl⟩ | ⟨-, rfl⟩⟩ := Draft.modifyType_cases ht
    · rw [hfound] at ht₀
      cases ht₀
      cases hcreated
      rfl
    · exact hold i t c ht₀ hcreated

theorem Course.classed {Allowed : List (Nat × Variable) → Nat → Variable → Prop}
    {issued : List (Nat × Variable)} (h : Course Allowed d issued) : d.Classed := by
  have hboth : d.Listed ∧ d.Classed := by
    refine h.of_declares (P := fun d => d.Listed ∧ d.Classed)
      (fun name options => ⟨fun i t ht => ?_, fun i t c ht => ?_⟩)
      (fun d d' hd hboth => ⟨hd.listed hboth.1, hd.classed hboth.1 hboth.2⟩)
      fun d d' hsame hboth => ⟨fun i t ht => ?_, fun i t c ht hcreated => ?_⟩
    · cases ht
    · cases ht
    · rw [hsame.types] at ht
      exact (hboth.1 i t ht).retain hsame.retains
    · rw [hsame.types] at ht
      rw [(hboth.1 i t ht).toClass_eq hsame.retains]
      exact hboth.2 i t c ht hcreated
  exact hboth.2

structure Draft.Tabulates (d : Draft) (m : Module) : Prop where
  count : m.classes.length = d.types.size
  classes : ∀ (i : Nat) (t : TypeDef), d.types[i]? = some t → m.classes[i]? = some (d.toClass t)
  fields : m.fields = d.fields.toList.map FieldDef.toField

namespace BuildM

open Draft

variable {Allowed : List (Nat × Variable) → Nat → Variable → Prop}
  {issued : List (Nat × Variable)}

theorem retains_finalize (m : Nat) : Leads Retains (finalize m) :=
  (leads_finalize m).mono fun _ _ h => h.redeclares.retains

theorem retains_createType (id : Nat) : Leads Retains (createType id) := by
  refine leads_createType retains_finalize (fun d id c => ?_) id
  refine ⟨fun i t ht => ?_, fun _ _ hf => hf, fun _ p hp => ⟨p, hp, rfl⟩, fun _ t ht => ⟨t, ht, rfl⟩⟩
  obtain ⟨c', hc'⟩ := retypes_modifyType id c i t ht
  exact ⟨_, hc', rfl⟩

theorem classes_of_mapM {ids : List Nat} {classes : List ClassEntry}
    (hc : Course Allowed d issued) (h : ids.mapM createType d = .ok classes d') :
    List.Forall₂ (fun id c => ∃ t, d'.types[id]? = some t ∧ c = d'.toClass t) ids classes := by
  induction ids generalizing d classes with
  | nil =>
    cases h
    exact .nil
  | cons id ids ih =>
    rw [List.mapM_cons] at h
    obtain ⟨c, d₁, hid, h⟩ := bind_eq_ok.mp h
    obtain ⟨classes', d₂, hids, h⟩ := bind_eq_ok.mp h
    cases h
    have hc₁ := ((goes_createType id).of_ok hid).course issued hc
    refine .cons ?_ (ih hc₁ hids)
    obtain ⟨t, ht, hcreated⟩ := createType_eq_ok hid
    obtain rfl := hc₁.classed id t c ht hcreated
    -- the types that are created after it leave it alone
    have hretypes : Leads Retypes (ids.mapM createType) :=
      .mapM (fun i => .get_bind fun _ => retypes_createTypeBelow _ i) ids
    have hretains : Leads Retains (ids.mapM createType) := .mapM retains_createType ids
    obtain ⟨c', ht'⟩ := hretypes.of_ok hids id t ht
    exact ⟨_, ht', ((hc₁.listed id t ht).toClass_eq (hretains.of_ok hids)).symm⟩

theorem tabulates_of_assemble {m : Module} (hc : Course Allowed d issued)
    (h : assemble d = .ok m d') : d'.Tabulates m := by
  have hcount := (assemble_eq_ok h).1.classes
  rw [assemble, get_bind] at h
  obtain ⟨-, h⟩ := guard_eq_ok.mp h
  obtain ⟨-, h⟩ := guard_eq_ok.mp h
  obtain ⟨enums, d₁, henums, h⟩ := bind_eq_ok.mp h
  obtain ⟨classes, d₂, hclasses, h⟩ := bind_eq_ok.mp h
  rw [get_bind] at h
  obtain ⟨functions, hfunctions, h⟩ := ofExcept_bind_eq_ok.mp h
  cases h
  have hc₁ : Course Allowed d₁ issued := by
    cases henums
    exact hc.declare (.enums _)
  have hall := classes_of_mapM hc₁ hclasses
  refine ⟨hcount, fun i t ht => ?_, rfl⟩
  have hlength : i < classes.length := hcount ▸ (Array.getElem?_eq_some_iff.mp ht).1
  have hrange : i < (List.range d.types.size).length := hall.length_eq ▸ hlength
  obtain ⟨t', ht', hclass⟩ := hall.get hrange hlength
  rw [List.get_eq_getElem, List.getElem_range, ht] at ht'
  cases ht'
  rw [List.getElem?_eq_getElem hlength]
  exact congrArg some hclass

end BuildM

variable {Allowed : List (Nat × Variable) → Nat → Variable → Prop} [Fair Allowed]

theorem Session.tabulates {p : Project} {issued : List (Nat × Variable)}
    (h : Session Allowed p issued) {m : Module} (hm : p.draft.created = some m) :
    p.draft.Tabulates m := by
  refine (h.of_assemble (P := Draft.Tabulates) (fun hc hd => ?_) hm).2
  obtain ⟨hcount, hclasses, hfields⟩ := BuildM.tabulates_of_assemble hc hd
  exact ⟨hcount, hclasses, hfields⟩

namespace Draft.Tabulates

variable {m : Module}

theorem class?_of_lt (h : d.Tabulates m) {i : Nat} (hlt : i < 2 ^ 32) {t : TypeDef}
    (ht : d.types[i]? = some t) : m.class? i.toUInt32 = some (d.toClass t) := by
  have hi : i.toUInt32.toNat = i := Nat.mod_eq_of_lt hlt
  rw [Module.class?, hi]
  exact h.classes i t ht

theorem class? (h : d.Tabulates m) (hsize : d.types.size ≤ 2 ^ 32) {i : Nat} {t : TypeDef}
    (ht : d.types[i]? = some t) : m.class? i.toUInt32 = some (d.toClass t) :=
  h.class?_of_lt (Nat.lt_of_lt_of_le (Array.getElem?_eq_some_iff.mp ht).1 hsize) ht

theorem field? (h : d.Tabulates m) (hfields : m.fields.length ≤ 2 ^ 32) {i : Nat}
    {f : FieldDef} (hf : d.fields[i]? = some f) :
    i.toUInt32.toNat = i ∧ m.field? i.toUInt32 = some f.toField := by
  have hsize : m.fields.length = d.fields.size := by
    rw [h.fields, List.length_map, Array.length_toList]
  have hword : i.toUInt32.toNat = i :=
    Nat.mod_eq_of_lt (Nat.lt_of_lt_of_le (Array.getElem?_eq_some_iff.mp hf).1 (hsize ▸ hfields))
  refine ⟨hword, ?_⟩
  rw [Module.field?, hword, h.fields, List.getElem?_map, Array.getElem?_toList, hf]
  rfl

theorem type_of_class? (h : d.Tabulates m) {id : UInt32} {c : ClassEntry}
    (hc : m.class? id = some c) : ∃ t, d.types[id.toNat]? = some t ∧ c = d.toClass t := by
  have hlt := (List.getElem?_eq_some_iff.mp hc).1
  rw [h.count] at hlt
  have ht := Array.getElem?_eq_getElem hlt
  refine ⟨_, ht, ?_⟩
  have hclass := h.classes _ _ ht
  rw [show m.classes[id.toNat]? = some c from hc] at hclass
  exact Option.some.inj hclass

theorem descends (h : d.Tabulates m) (hl : d.Listed) : m.Descends := by
  intro id c hc b hb
  obtain ⟨t, ht, rfl⟩ := h.type_of_class? hc
  have hbases := (hl _ t ht).bases
  have hsmall {x : Nat} (hx : x < id.toNat) : x.toUInt32.toNat < id.toNat :=
    Nat.lt_of_le_of_lt (Nat.mod_le ..) hx
  obtain hb | hb := List.mem_append.mp hb
  · obtain ⟨x, hx, rfl⟩ := List.mem_map.mp hb
    exact hsmall (hbases x (List.mem_append_left _ hx))
  · obtain ⟨x, hx, rfl⟩ := Option.map_eq_some_iff.mp (Option.mem_toList.mp hb)
    exact hsmall (hbases x (List.mem_append_right _ (Option.mem_toList.mpr hx)))

theorem reaches_of_mem_lineageFrom (h : d.Tabulates m) (hsize : d.types.size ≤ 2 ^ 32)
    {steps sub sup : Nat} (hsup : sup ∈ d.lineageFrom steps sub) :
    m.reaches sup.toUInt32 steps sub.toUInt32 = true := by
  induction steps generalizing sub with
  | zero => cases hsup
  | succ steps ih =>
    rw [lineageFrom] at hsup
    cases ht : d.types[sub]? with
    | none => simp [ht] at hsup
    | some t =>
      simp only [ht] at hsup
      rw [Module.reaches, Bool.or_eq_true]
      obtain rfl | hsup := List.mem_cons.mp hsup
      · exact .inl (beq_self_eq_true _)
      · obtain ⟨x, hx, hsup⟩ := List.mem_flatMap.mp hsup
        rw [h.class? hsize ht]
        refine .inr (List.any_eq_true.mpr ⟨x.toUInt32, ?_, ih hsup⟩)
        obtain hx | hx := List.mem_append.mp hx
        · exact List.mem_append_left _ (List.mem_map_of_mem hx)
        · refine List.mem_append_right _ (Option.mem_toList.mpr ?_)
          rw [toClass, Option.mem_toList.mp hx, Option.map_some]

theorem isAssignable (h : d.Tabulates m) (hl : d.Listed) (hsize : d.types.size ≤ 2 ^ 32)
    {sub sup : Nat} (hsub : d.isSubtype sub sup = true) :
    m.isAssignable sub.toUInt32 sup.toUInt32 = true :=
  (h.descends hl).isAssignable_of_reaches
    (h.reaches_of_mem_lineageFrom hsize (List.contains_iff_mem.mp hsub))

end Draft.Tabulates

end Bytesmith.Build
