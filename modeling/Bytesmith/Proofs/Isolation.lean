import Bytesmith.Proofs.Instructions
import Bytesmith.Proofs.Lives
import Bytesmith.Proofs.Upkeep

namespace Bytesmith.Build

open Code Outcome

/-- Constants, and all that was given out for some method. -/
def Given (issued : List (Nat × Variable)) (_ : Nat) (v : Variable) : Prop :=
  (∃ value, v = .constant value) ∨ ∃ m, (m, v) ∈ issued

instance : Fair Given where
  one _ _ := .inl ⟨.i32 1, rfl⟩
  given _ m _ h := .inr ⟨m, h⟩
  mono _ _ _ _ hsub h := h.imp_right fun ⟨m, hm⟩ => ⟨m, hsub _ hm⟩

instance (issued : List (Nat × Variable)) (m : Nat) (v : Variable) : Decidable (Given issued m v) :=
  decidable_of_iff ((match v with
    | .constant _ => true
    | _ => false) = true ∨ v ∈ issued.map Prod.snd) <| by
    cases v <;> simp [Given]

namespace Variable

/-- The member of the current receiver that the variable is, or is reached through. -/
def implicit? : Variable → Option Member
  | .own m => some m
  | .of object _ => object.implicit?
  | _ => none

theorem slot?_cases {v : Variable} {s : UInt16} (h : v.slot? = some s) :
    (∃ k, v.owner? = some k) ∨ s = 0 ∧ ∃ member, v.implicit? = some member := by
  induction v with
  | slot method index name ty => exact .inl ⟨method, rfl⟩
  | own m =>
    cases h
    exact .inr ⟨rfl, m, rfl⟩
  | of object m ih => exact ih h
  | _ => cases h

end Variable

def Command.implicit (c : Command) : List Member := c.places.filterMap Variable.implicit?

variable {i : Instr Label} {v : Variable} {c : Command} {s : UInt16} {q : Pool} {t t₀ : MethodDef}
  {d : Draft} {issued : List (Nat × Variable)} {m : Nat} {member : Member}
  {fields : Array FieldDef} {code : List (Instr Label)}

namespace Command

def Slots (c : Command) (s : UInt16) : Prop := ∃ v ∈ c.places, v.slot? = some s

def Stores (c : Command) (k : UInt32) : Prop :=
  ∃ v ∈ c.places, c.written? = some v ∧ ∃ member id writable,
    v.member? = some member ∧ member.access = .field id writable ∧ id.toUInt32 = k

theorem slots_of_put (h : .put i ∈ c.actions) (hs : i.slot? = some s) : c.Slots s := by
  have hplain (i : Instr Label) (hi : i.isPlain = true) (s : UInt16) (hs : i.slot? = some s) :
      c.Slots s := by
    rw [(Instr.eq_none_of_isPlain hi).1] at hs
    cases hs
  refine puts_actions (P := fun i => ∀ s, i.slot? = some s → c.Slots s) hplain (fun v hv => ?_)
    (fun v hv _ => ?_) (fun _ _ _ _ _ _ => nofun) i h s hs
  · exact Variable.puts_loads hplain (fun s hs s' hs' => ⟨v, hv, hs.trans hs'⟩)
      fun _ _ _ _ _ _ _ => nofun
  · refine Variable.puts_saves (fun method s name ty heq s' hs' => ⟨v, hv, ?_⟩)
      (fun _ _ _ _ _ => ⟨fun _ => nofun, fun _ => nofun⟩) fun _ _ _ _ _ => nofun
    rw [heq]
    exact hs'

theorem stores_of_put {k : UInt32} (h : .put i ∈ c.actions) (hk : i.stored? = some k) :
    c.Stores k := by
  have hplain (i : Instr Label) (hi : i.isPlain = true) (k : UInt32) (hk : i.stored? = some k) :
      c.Stores k := by
    rw [(Instr.eq_none_of_isPlain hi).2.1] at hk
    cases hk
  refine puts_actions (P := fun i => ∀ k, i.stored? = some k → c.Stores k) hplain (fun v hv => ?_)
    (fun v hv hw => ?_) (fun _ _ _ _ _ _ => nofun) i h k hk
  · exact Variable.puts_loads hplain (fun _ _ _ => nofun) fun _ _ _ _ _ _ _ => nofun
  · have hstored {member : Member} {id : Nat} {writable : Bool} (hm : v.member? = some member)
        (haccess : member.access = .field id writable) (k : UInt32)
        (hk : some id.toUInt32 = some k) : c.Stores k :=
      ⟨v, hv, hw, member, id, writable, hm, haccess, Option.some.inj hk⟩
    exact Variable.puts_saves (fun _ _ _ _ _ _ => nofun)
      (fun _ _ _ hm haccess => ⟨hstored hm haccess, hstored hm haccess⟩) fun _ _ _ _ _ => nofun

end Command

theorem Accessor.slot_lt {id : Nat} {f : FieldDef} (h : Accessor id f t code) (hi : i ∈ code)
    (hs : i.slot? = some s) : s.toNat < t.slots := by
  cases h with
  | getter hstatic hparams hreturn =>
    simp only [List.mem_cons, List.not_mem_nil, or_false] at hi
    obtain rfl | rfl | rfl := hi <;> cases hs
    exact MethodDef.slots_pos hstatic
  | setter hstatic hreturn hparams hvalue =>
    simp only [List.mem_cons, List.not_mem_nil, or_false] at hi
    obtain rfl | rfl | rfl | rfl := hi <;> cases hs
    · exact MethodDef.slots_pos hstatic
    · simp only [MethodDef.slots, MethodDef.paramCount, MethodDef.slotCount, hstatic, hparams]
      exact Nat.lt_of_lt_of_le (Nat.lt_succ_self 1) (Nat.le_add_right _ _)

theorem Accessor.stored_eq {id : Nat} {f : FieldDef} {k : UInt32} (h : Accessor id f t code)
    (hi : i ∈ code) (hk : i.stored? = some k) : id.toUInt32 = k := by
  cases h with
  | getter =>
    simp only [List.mem_cons, List.not_mem_nil, or_false] at hi
    obtain rfl | rfl | rfl := hi <;> cases hk
  | setter =>
    simp only [List.mem_cons, List.not_mem_nil, or_false] at hi
    obtain rfl | rfl | rfl | rfl := hi <;> cases hk
    rfl

/-- A body has what its commands have written, and code that was added when it ended. A command that
failed may have left a slot. -/
structure Stems (fields : Array FieldDef) (q : Pool) (m : Nat) (t₀ : MethodDef)
    (code : List (Instr Label)) (t : MethodDef) : Prop where
  history : History q m t₀
  declaration : t.declaration = t₀.declaration
  commands : t.commands = t₀.commands
  written : t.emitter.code.toList = t₀.emitter.code.toList ++ code
  added : (∀ i ∈ code, i.isPlain = true) ∨
    ∃ id f, (fields[id]? = some f ∧ f.attrs = {}) ∧ Accessor id f t₀ code
  localCount : t.emitter.localCount = t₀.emitter.localCount ∨
    t.state = .aborted ∧ t.emitter.localCount = t₀.emitter.localCount + 1

namespace Stems

theorem mem_code (h : Stems fields q m t₀ code t) (hi : i ∈ t.emitter.code)
    (hp : i.isPlain = false ∧ i.isString = false) :
    (∃ c ∈ t.commands, .put i ∈ c.command.actions) ∨
      ∃ id f, (fields[id]? = some f ∧ f.attrs = {}) ∧ Accessor id f t₀ code ∧ i ∈ code := by
  rw [← Array.mem_toList_iff, h.written, List.mem_append, Array.mem_toList_iff] at hi
  obtain hi | hi := hi
  · rw [h.commands]
    exact .inl (h.history.exists_command hi hp.1 hp.2)
  · obtain hplain | ⟨id, f, hfield, hcode⟩ := h.added
    · exact absurd (hplain i hi) (Bool.eq_false_iff.mp hp.1)
    · exact .inr ⟨id, f, hfield, hcode, hi⟩

theorem results_eq (h : Stems fields q m t₀ code t) : t.results = t₀.results := by
  rw [MethodDef.results, MethodDef.results, h.commands]

theorem slots_eq (h : Stems fields q m t₀ code t) : t.slots = t₀.emitter.localCount := by
  rw [h.history.results.1, MethodDef.slots, MethodDef.slots, h.results_eq,
    MethodDef.paramCount_of_declaration h.declaration]

theorem slots_le (h : Stems fields q m t₀ code t) : t.slots ≤ t.emitter.localCount := by
  rw [h.slots_eq]
  obtain hsame | ⟨-, hmore⟩ := h.localCount
  · exact Nat.le_of_eq hsame.symm
  · exact Nat.le_of_lt (hmore ▸ Nat.lt_succ_self _)

end Stems

theorem Session.stems {p : Project} (h : Session Anything p issued)
    (ht : p.draft.methods[m]? = some t) :
    ∃ t₀ code, Stems p.draft.fields p.draft.constants m t₀ code t := by
  obtain ⟨_, hcourse, -⟩ := h.course
  have hsettled := hcourse.settled ht (.refl _)
  cases hs : t.state with
  | «open» =>
    exact ⟨t, [], hsettled.history hs, rfl, rfl, (List.append_nil _).symm,
      .inl fun _ hi => absurd hi List.not_mem_nil, .inl rfl⟩
  | finished body =>
    obtain ⟨t₀, code, _, h₀, hcode, rfl, rfl⟩ := hsettled.ended hs
    refine ⟨t₀, code, h₀, rfl, rfl, Emitter.code_append .., ?_, .inl (Emitter.localCount_append ..)⟩
    obtain ⟨-, rfl, -⟩ | ⟨-, -, hcode⟩ := hcode
    · exact .inl fun i => MethodDef.isPlain_of_mem_implied
    · exact .inr hcode
  | aborted =>
    have hnone : ∀ i ∈ ([] : List (Instr Label)), i.isPlain = true :=
      fun _ hi => absurd hi List.not_mem_nil
    cases h.lives _ (.refl _) m t ht with
    | writing h =>
      rw [h.history.isOpen] at hs
      cases hs
    | @refused t₀ h =>
      exact ⟨t₀, [], h.history, rfl, rfl, (List.append_nil _).symm, .inl hnone, .inl rfl⟩
    | @failed _ _ t₀ c _ h =>
      refine ⟨t₀, [], h.history, rfl, rfl, (List.append_nil _).symm, .inl hnone, ?_⟩
      have hcount := c.localCount_prepare t₀.emitter
      cases hr : c.result? with
      | none => exact .inl (by simpa [hr] using hcount)
      | some v => exact .inr ⟨rfl, by simpa [hr] using hcount⟩
    | finished | generated => cases hs

namespace Draft

def ownerOf? (d : Draft) (member : Member) : Option Nat :=
  match member.access with
  | .field id _ => d.fields[id]?.map (·.owner)
  | .property id _ _ => d.properties[id]?.map (·.owner)

def OnReceiver (d : Draft) (m : Nat) (member : Member) : Prop :=
  ∃ t owner, d.methods[m]? = some t ∧ t.attrs.isStatic = false ∧
    d.ownerOf? member = some owner ∧ d.isSubtype t.owner owner = true

def Constructs (d : Draft) (m type : Nat) : Prop :=
  ∃ t, d.methods[m]? = some t ∧ t.isConstructor = true ∧ t.owner = type

structure Lends (d : Draft) (issued : List (Nat × Variable)) (m : Nat) (v : Variable) : Prop where
  owner : ∀ k, v.owner? = some k → k = m
  slot : ∀ k s, v.owner? = some k → v.slot? = some s →
    ∃ t, d.methods[k]? = some t ∧ s.toNat < t.slots
  implicit : ∀ member, v.implicit? = some member → ∃ m', (m', .own member) ∈ issued
  own : ∀ member, v = .own member → d.OnReceiver m member
  field : ∀ member id, v.member? = some member → member.access = .field id true →
    ∃ f, d.fields[id]? = some f ∧ (f.attrs.isReadonly = true → d.Constructs m f.owner)

variable {d d' : Draft} {issued issued' : List (Nat × Variable)} {m : Nat} {v : Variable}

theorem ensureOwned_eq_ok {u : Unit} (h : d.ensureOwned m v = .ok u) (k : Nat)
    (hk : v.owner? = some k) : k = m := by
  rw [ensureOwned, hk] at h
  by_contra hne
  simp only [if_pos hne] at h
  obtain ⟨t, -, h⟩ := except_bind_eq_ok.mp h
  cases h

variable {member : Member}

theorem OnReceiver.retain (h : d.OnReceiver m member) (hr : d.Retains d') :
    d'.OnReceiver m member := by
  obtain ⟨t, owner, ht, hstatic, howner, hsub⟩ := h
  obtain ⟨t', ht', hdecl⟩ := hr.methods m t ht
  obtain ⟨howner', hattrs, -⟩ := MethodDef.eq_of_declaration hdecl
  refine ⟨t', owner, ht', by rw [hattrs, hstatic], ?_, by rw [howner']; exact hr.isSubtype hsub⟩
  rw [ownerOf?] at howner ⊢
  cases hm : member.access with
  | field id writable =>
    simp only [hm] at howner ⊢
    obtain ⟨f, hf, rfl⟩ := Option.map_eq_some_iff.mp howner
    rw [hr.fields id f hf]
    rfl
  | property id getter setter =>
    simp only [hm] at howner ⊢
    obtain ⟨p, hp, rfl⟩ := Option.map_eq_some_iff.mp howner
    obtain ⟨p', hp', hheading⟩ := hr.properties id p hp
    rw [hp', Option.map_some, (PropertyDef.eq_of_heading hheading).1]

theorem Constructs.retain {type : Nat} (h : d.Constructs m type) (hr : d.Retains d') :
    d'.Constructs m type := by
  obtain ⟨t, ht, hkind, howner⟩ := h
  obtain ⟨t', ht', hdecl⟩ := hr.methods m t ht
  obtain ⟨howner', -, -, -, hkind'⟩ := MethodDef.eq_of_declaration hdecl
  exact ⟨t', ht', hkind'.trans hkind, howner'.trans howner⟩

theorem Lends.grow (h : d.Lends issued m v) (hr : d.Retains d') (hg : d.Grows d')
    (hsub : ∀ x ∈ issued, x ∈ issued') : d'.Lends issued' m v := by
  refine ⟨h.owner, fun k s hk hs => ?_, fun member hm => ?_,
    fun member hm => (h.own member hm).retain hr, fun member id hm haccess => ?_⟩
  · obtain ⟨t, ht, hlt⟩ := h.slot k s hk hs
    obtain ⟨t', ht', hgrows⟩ := hg.methods k t ht
    exact ⟨t', ht', Nat.lt_of_lt_of_le hlt hgrows.slots_le⟩
  · obtain ⟨m', hm'⟩ := h.implicit member hm
    exact ⟨m', hsub _ hm'⟩
  · obtain ⟨f, hf, hreadonly⟩ := h.field member id hm haccess
    exact ⟨f, hr.fields id f hf, fun h => (hreadonly h).retain hr⟩

theorem Lends.of_slot {index : UInt16} {name : String} {ty : StaticType} {t : MethodDef}
    (ht : d.methods[m]? = some t) (h : index.toNat < t.slots) :
    d.Lends issued m (.slot m index name ty) := by
  refine ⟨fun k hk => (Option.some.inj hk).symm, fun k s hk hs => ?_, nofun, nofun, nofun⟩
  cases hk
  cases hs
  exact ⟨t, ht, h⟩

theorem Lends.of_object {object : Variable} (h : ∀ k, object.owner? = some k → k = m)
    (hgiven : (∀ value, object ≠ .constant value) → ∃ m', d.Lends issued m' object)
    (hfield : ∀ id, member.access = .field id true → ∃ f, d.fields[id]? = some f ∧
      (f.attrs.isReadonly = true → d.Constructs m f.owner)) :
    d.Lends issued m (.of object member) := by
  refine ⟨h, fun k s hk hs => ?_, fun member' hm => ?_, nofun, fun member' id hm => ?_⟩
  · obtain ⟨m', hobject⟩ := hgiven (by rintro value rfl; cases hk)
    exact hobject.slot k s hk hs
  · obtain ⟨m', hobject⟩ := hgiven (by rintro value rfl; cases hm)
    exact hobject.implicit member' hm
  · cases hm
    exact hfield id

theorem Lends.of_own (hissued : (m, .own member) ∈ issued) (hreceiver : d.OnReceiver m member)
    (hfield : ∀ id, member.access = .field id true → ∃ f, d.fields[id]? = some f ∧
      (f.attrs.isReadonly = true → d.Constructs m f.owner)) : d.Lends issued m (.own member) := by
  refine ⟨fun k hk => ?_, fun k s hk => ?_, fun member' hm => ?_, fun member' hm => ?_,
    fun member' id hm => ?_⟩
  · cases hk
  · cases hk
  · cases hm
    exact ⟨m, hissued⟩
  · cases hm
    exact hreceiver
  · cases hm
    exact hfield id

theorem exists_field_of_fieldMember {id id' : Nat} {f : FieldDef} (ht : d.methods[m]? = some t)
    (hf : d.fields[id]? = some f) (h : (fieldMember t id f).access = .field id' true) :
    ∃ f, d.fields[id']? = some f ∧ (f.attrs.isReadonly = true → d.Constructs m f.owner) := by
  simp only [fieldMember, Access.field.injEq] at h
  obtain ⟨rfl, hwritable⟩ := h
  refine ⟨f, hf, fun hreadonly => ?_⟩
  simp only [hreadonly, Bool.not_true, Bool.false_or, Bool.and_eq_true, beq_iff_eq] at hwritable
  exact ⟨t, ht, hwritable⟩

theorem Lends.of_param {index : Nat} (h : d.param m index = .ok v) : d.Lends issued m v := by
  obtain ⟨t, ht, h⟩ := except_bind_eq_ok.mp h
  cases hp : t.params[index]? with
  | none =>
    simp only [hp] at h
    cases h
  | some p =>
    simp only [hp] at h
    cases h
    have hindex := (List.getElem?_eq_some_iff.mp hp).1
    have hfirst : (if t.attrs.isStatic = true then (0 : UInt16) else 1).toNat =
        if t.attrs.isStatic = true then 0 else 1 := by
      split <;> rfl
    have hwrap : index.toUInt16.toNat ≤ index := Nat.mod_le ..
    refine .of_slot (method_eq_ok.mp ht) ?_
    rw [MethodDef.slots, MethodDef.paramCount, MethodDef.slotCount, UInt16.toNat_add, hfirst]
    refine Nat.lt_of_le_of_lt (Nat.mod_le ..) ?_
    omega

end Draft

open Draft in
theorem Lookup.lends {l : Lookup} (hl : l.find d m = .ok v) (hlisted : d.Listed)
    (ho : ∀ o ∈ l.operands, Given issued m o)
    (hissued : ∀ m v, (m, v) ∈ issued → d.Lends issued m v) : d.Lends ((m, v) :: issued) m v := by
  have hobject {object : Variable} (hmem : object ∈ l.operands)
      (hconstant : ∀ value, object ≠ .constant value) :
      ∃ m', d.Lends ((m, v) :: issued) m' object := by
    obtain ⟨value, rfl⟩ | ⟨m', hm'⟩ := ho object hmem
    · exact absurd rfl (hconstant value)
    · have hretains : d.Retains d := Redeclares.retains ⟨rfl, rfl, rfl, fun _ => rfl⟩
      exact ⟨m', (hissued m' object hm').grow hretains (.refl d) fun _ => .tail _⟩
  cases finds hl with
  | this ht hstatic => exact .of_slot ht (MethodDef.slots_pos hstatic)
  | param index hparam => exact .of_param hparam
  | shared ht hf =>
    refine ⟨fun k hk => ?_, fun k s hk => ?_, fun member hm => ?_, fun member hm => ?_,
      fun member id' hm haccess => ?_⟩
    · cases hk
    · cases hk
    · cases hm
    · cases hm
    · cases hm
      exact exists_field_of_fieldMember ht hf haccess
  | @field name t id f ht hstatic hfind hf =>
    obtain ⟨f', hf', hsub⟩ := hlisted.findField? hfind
    cases hf.symm.trans hf'
    refine .of_own (.head _) ⟨t, f.owner, ht, hstatic, ?_, hsub⟩
      fun id' haccess => exists_field_of_fieldMember ht hf haccess
    simp only [ownerOf?, fieldMember, hf, Option.map_some]
  | fieldOf ht howned hf =>
    exact .of_object (ensureOwned_eq_ok howned) (hobject (.head _))
      fun id' haccess => exists_field_of_fieldMember ht hf haccess
  | @property name t id p ht hstatic hfind hp =>
    obtain ⟨p', hp', hsub⟩ := hlisted.findProperty? hfind
    cases hp.symm.trans hp'
    refine .of_own (.head _) ⟨t, p.owner, ht, hstatic, ?_, hsub⟩ fun id' haccess => ?_
    · simp only [ownerOf?, propertyMember, hp, Option.map_some]
    · cases haccess
  | propertyOf howned hty hfind hp =>
    refine .of_object (ensureOwned_eq_ok howned) (hobject (.head _))
      fun id' haccess => ?_
    cases haccess

theorem Edit.Stands.places {e : Edit} (h : e.Stands d m t c) (hv : v ∈ c.places) :
    v ∈ e.operands ∧ d.ensureOwned m v = .ok () ∨ c.result? = some v ∨ d.this m = .ok v := by
  have hcondition {left right : Variable} {comparison : Comparison} {k : Condition}
      (hk : Condition.make left comparison right = .ok k)
      (hleft : d.ensureOwned m left = .ok ()) (hright : d.ensureOwned m right = .ok ())
      (hv : v ∈ [k.left, k.right]) :
      v ∈ [left, right] ∧ d.ensureOwned m v = .ok () := by
    obtain ⟨widenTo, -, hk⟩ := except_bind_eq_ok.mp hk
    cases hk
    refine ⟨hv, ?_⟩
    obtain rfl | hv := List.mem_cons.mp hv
    · exact hleft
    · rw [List.mem_singleton.mp hv]
      exact hright
  have hargs {target : CallTarget} {args : List Variable} {bound : List Argument}
      (hbound : d.bindArguments m target args = .ok bound)
      (hv : v ∈ bound.map Argument.value) : v ∈ args ∧ d.ensureOwned m v = .ok () := by
    obtain ⟨a, ha, rfl⟩ := List.mem_map.mp hv
    exact Draft.mem_of_bindArguments hbound ha
  cases h with
  | assign htarget hsource hcoercion =>
    obtain rfl | hv := List.mem_cons.mp hv
    · exact .inl ⟨.head _, htarget⟩
    · rw [List.mem_singleton.mp hv]
      exact .inl ⟨by simp [operands], hsource⟩
  | arithmetic hleft hright hty hresult =>
    simp only [Command.places, List.mem_cons, List.not_mem_nil, or_false] at hv
    obtain rfl | rfl | rfl := hv
    · exact .inl ⟨.head _, hleft⟩
    · exact .inl ⟨by simp [operands], hright⟩
    · exact .inr (.inl rfl)
  | newPlain htype habstract hresult =>
    rw [Command.places, List.map_nil, List.nil_append, List.mem_singleton] at hv
    exact .inr (.inl (by rw [hv]; rfl))
  | newObject htype habstract hfind htarget hbound hresult =>
    obtain hv | hv := List.mem_append.mp hv
    · exact .inl (hargs hbound hv)
    · exact .inr (.inl (by rw [List.mem_singleton.mp hv]; rfl))
  | callStatic htarget hconstructor hstatic hbound hresult =>
    obtain hv | hv := List.mem_append.mp hv
    · cases hv
    · obtain hv | hv := List.mem_append.mp hv
      · exact .inl (hargs hbound hv)
      · exact .inr (.inl (Option.mem_toList.mp hv))
  | callInstance htarget hconstructor hstatic hobject howned hcoercion hbound hresult =>
    obtain hv | hv := List.mem_append.mp hv
    · obtain rfl := List.mem_singleton.mp hv
      obtain rfl | ⟨-, hthis⟩ := hobject
      · exact .inl ⟨List.mem_append_left _ (.head _), howned⟩
      · exact .inr (.inr hthis)
    · obtain hv | hv := List.mem_append.mp hv
      · obtain ⟨hmem, howned⟩ := hargs hbound hv
        exact .inl ⟨List.mem_append_right _ hmem, howned⟩
      · exact .inr (.inl (Option.mem_toList.mp hv))
  | callBase hconstructor howner hbase hfind htarget hbound hthis =>
    obtain hv | hv := List.mem_append.mp hv
    · rw [List.mem_singleton.mp hv]
      exact .inr (.inr hthis)
    · obtain hv | hv := List.mem_append.mp hv
      · exact .inl (hargs hbound hv)
      · cases hv
  | box howned | unbox howned | cast howned =>
    obtain rfl | hv := List.mem_cons.mp hv
    · exact .inl ⟨.head _, howned⟩
    · exact .inr (.inl (by rw [List.mem_singleton.mp hv]; rfl))
  | raise howned | ret howned =>
    rw [List.mem_singleton.mp hv]
    exact .inl ⟨.head _, howned⟩
  | ifBegin hleft hright hk | elseIf hleft hright hk | whileBegin hleft hright hk =>
    exact .inl (hcondition hk hleft hright hv)
  | catchBegin hty hv' =>
    rw [List.mem_singleton.mp hv]
    exact .inr (.inl rfl)
  | _ => cases hv

def MethodDef.IsReceiver (t : MethodDef) (m : Nat) (v : Variable) : Prop :=
  t.attrs.isStatic = false ∧ ∃ ty, v = .slot m 0 "this" ty

theorem MethodDef.isReceiver_of_this (ht : d.methods[m]? = some t) (h : d.this m = .ok v) :
    t.IsReceiver m v := by
  obtain ⟨t', ht', h⟩ := except_bind_eq_ok.mp h
  rw [Draft.method_eq_ok, ht] at ht'
  cases ht'
  obtain ⟨hstatic, h⟩ := except_guard_eq_ok.mp h
  obtain ⟨ty, -, h⟩ := except_bind_eq_ok.mp h
  cases h
  exact ⟨by simpa using hstatic, ty, rfl⟩

structure Command.Uses (issued : List (Nat × Variable)) (m : Nat) (t : MethodDef) (c : Command) :
    Prop where
  check : c.check = .ok ()
  result : ∀ v, c.result? = some v → v.isSlot = true
  owner : ∀ v ∈ c.places, ∀ k, v.owner? = some k → k = m
  given : ∀ v ∈ c.places, Given issued m v ∨ t.IsReceiver m v

theorem Command.Uses.mono {issued' : List (Nat × Variable)} {t' : MethodDef} (h : c.Uses issued m t)
    (hsub : ∀ x ∈ issued, x ∈ issued') (hattrs : t'.attrs = t.attrs) : c.Uses issued' m t' := by
  refine ⟨h.check, h.result, h.owner, fun v hv => (h.given v hv).imp ?_ fun hr => ?_⟩
  · exact Fair.mono issued issued' m v hsub
  · exact ⟨by rw [hattrs]; exact hr.1, hr.2⟩

theorem Edit.Stands.uses {t' : MethodDef} {e : Edit} (h : e.Stands d m t c)
    (ht : d.methods[m]? = some t) (htakes : Takes q m c t t')
    (ho : ∀ o ∈ e.operands, Given issued m o) :
    c.Uses (c.result?.toList.map (m, ·) ++ issued) m t' := by
  have hslot (v : Variable) (hv : c.result? = some v) :
      ∃ index name ty, v = .slot m index name ty := by
    obtain ⟨-, name, ty, rfl⟩ := htakes.fresh.slot v hv
    exact ⟨_, name, ty, rfl⟩
  have hattrs := (MethodDef.eq_of_declaration htakes.declaration_eq).2.1
  refine ⟨htakes.check, fun v hv => ?_, fun v hv k hk => ?_, fun v hv => ?_⟩
  · obtain ⟨index, name, ty, rfl⟩ := hslot v hv
    rfl
  · obtain ⟨-, howned⟩ | hv | hthis := h.places hv
    · exact Draft.ensureOwned_eq_ok howned k hk
    · obtain ⟨index, name, ty, rfl⟩ := hslot v hv
      exact (Option.some.inj hk).symm
    · obtain ⟨-, ty, rfl⟩ := MethodDef.isReceiver_of_this ht hthis
      exact (Option.some.inj hk).symm
  · obtain ⟨hmem, -⟩ | hv | hthis := h.places hv
    · exact .inl (Fair.mono issued _ m v (fun _ => List.mem_append_right _) (ho v hmem))
    · refine .inl (.inr ⟨m, List.mem_append_left _ ?_⟩)
      rw [hv]
      exact .head _
    · obtain ⟨hstatic, hreceiver⟩ := MethodDef.isReceiver_of_this ht hthis
      exact .inr ⟨by rw [hattrs]; exact hstatic, hreceiver⟩

def Draft.Lent (d : Draft) (issued : List (Nat × Variable)) : Prop :=
  Upkeep Draft.Lends (fun _ issued m t c => c.Uses issued m t) d issued

theorem Course.lent (h : Course Given d issued) : d.Lent issued := by
  refine h.upkeep (fun hon hv => hv.grow hon.retains hon.grows hon.kept)
    (fun hon ht ht' hc => hc.mono hon.kept
      (MethodDef.eq_of_declaration (hon.grows.method ht ht').declaration).2.1)
    (fun l h ih ho hl => Lookup.lends hl h.listed ho ih.given) fun e h ih ho hs he => ?_
  have htakes := he.takes _ (.refl _)
  refine ⟨fun v hv => ?_, hs.uses he.found htakes ho⟩
  obtain ⟨index, name, ty, rfl, hlt⟩ := htakes.slot_lt (h.history_of_edited he) hv
  exact .of_slot he.found_after hlt

/-- The member was given out for a method whose receiver has it, but not for this one. -/
def Draft.Borrows (d : Draft) (issued : List (Nat × Variable)) (m : Nat) (member : Member) : Prop :=
  (m, .own member) ∉ issued ∧ ∃ m', (m', .own member) ∈ issued ∧ d.OnReceiver m' member

theorem Draft.Lent.implicit (h : d.Lent issued) (hc : c.Uses issued m t)
    (hmember : member ∈ c.implicit) : d.OnReceiver m member ∨ d.Borrows issued m member := by
  obtain ⟨v, hv, hm⟩ := List.mem_filterMap.mp hmember
  have hgiven : ∃ m', (m', .own member) ∈ issued := by
    obtain (⟨value, rfl⟩ | ⟨m', hm'⟩) | ⟨-, ty, rfl⟩ := hc.given v hv
    · cases hm
    · exact (h.given m' v hm').implicit member hm
    · cases hm
  by_cases hown : (m, .own member) ∈ issued
  · exact .inl ((h.given m _ hown).own member rfl)
  · obtain ⟨m', hm'⟩ := hgiven
    exact .inr ⟨hown, m', hm', (h.given m' _ hm').own member rfl⟩

theorem Draft.Lent.slot (h : d.Lent issued) (ht : d.methods[m]? = some t)
    (hc : c.Uses issued m t) (hv : v ∈ c.places) (hs : v.slot? = some s) :
    s.toNat < t.slots ∨ s = 0 ∧ ∃ member ∈ c.implicit, d.Borrows issued m member := by
  obtain ⟨k, hk⟩ | ⟨rfl, member, hm⟩ := Variable.slot?_cases hs
  · left
    obtain rfl := hc.owner v hv k hk
    obtain (⟨value, rfl⟩ | ⟨m', hm'⟩) | ⟨hstatic, ty, rfl⟩ := hc.given v hv
    · cases hk
    · obtain ⟨t', ht', hlt⟩ := (h.given m' v hm').slot k s hk hs
      cases ht.symm.trans ht'
      exact hlt
    · cases hs
      exact MethodDef.slots_pos hstatic
  · have hmember : member ∈ c.implicit := List.mem_filterMap.mpr ⟨v, hv, hm⟩
    obtain ⟨t', owner, ht', hstatic, -⟩ | hborrows := h.implicit hc hmember
    · rw [ht] at ht'
      cases ht'
      exact .inl (MethodDef.slots_pos hstatic)
    · exact .inr ⟨rfl, member, hmember, hborrows⟩

/-- Bodies load and store slots of their own, and reach members through the receiver if it has them,
save for members of a receiver that are borrowed from another method. -/
theorem Session.isolated {p : Project} {issued : List (Nat × Variable)} (h : Session Given p issued)
    {m : Nat} {t : MethodDef} (ht : p.draft.methods[m]? = some t) :
    (∀ i ∈ t.emitter.code, ∀ s, i.slot? = some s → s.toNat < t.emitter.localCount ∨
      s = 0 ∧ ∃ c ∈ t.commands, ∃ member ∈ c.command.implicit, p.draft.Borrows issued m member) ∧
    ∀ c ∈ t.commands, ∀ member ∈ c.command.implicit,
      p.draft.OnReceiver m member ∨ p.draft.Borrows issued m member := by
  obtain ⟨issued', hc, hsub, hnew⟩ := h.follows_course
  have hlent := hc.lent
  have hborrows {member : Member} (hb : p.draft.Borrows issued' m member) :
      p.draft.Borrows issued m member := by
    obtain ⟨hown, m', hm', hreceiver⟩ := hb
    refine ⟨fun hmem => hown (hsub _ hmem), m', ?_, hreceiver⟩
    exact (hnew _ hm').resolve_right nofun
  refine ⟨fun i hi s hs => ?_, fun c hmem member hm => ?_⟩
  · obtain ⟨t₀, code, hstems⟩ := h.anything.stems ht
    have hslots := hstems.slots_le
    obtain ⟨c, hmem, hput⟩ | ⟨id, f, -, hcode, hi⟩ :=
      hstems.mem_code hi (Instr.isPlain_eq_false (by simp [hs]))
    · obtain ⟨v, hv, hslot⟩ := Command.slots_of_put hput hs
      refine (hlent.slot ht (hlent.used m t ht c hmem) hv hslot).imp
        (fun hlt => Nat.lt_of_lt_of_le hlt hslots) ?_
      rintro ⟨rfl, member, hm, hb⟩
      exact ⟨rfl, c, hmem, member, hm, hborrows hb⟩
    · have hlt := hcode.slot_lt hi hs
      rw [← hstems.history.results.1, ← hstems.slots_eq] at hlt
      exact .inl (Nat.lt_of_lt_of_le hlt hslots)
  · exact (hlent.implicit (hlent.used m t ht c hmem) hm).imp_right hborrows

/-- A method that returns a field of its receiver, and a static method that returns it, too. -/
def lentSide : List Operation := [
  .defineType "Square" {} none [],
  .defineField 0 "side" .int {},
  .defineMethod 0 "width" {} .int [],
  .defineMethod 0 "height" { isStatic := true } .int [],
  .look 0 (.field "side"),
  .edit 0 (.ret (.own ⟨"side", .int, .field 0 true⟩)),
  .edit 1 (.ret (.own ⟨"side", .int, .field 0 true⟩))]

/-- The static method has no slot, but loads one for the receiver that it does not have. -/
theorem Session.receiver_of_static_lentSide :
    ∃ p issued t, Builds Given "Shapes" lentSide p issued ∧ p.draft.methods[1]? = some t ∧
      t.state = .open ∧ t.attrs.isStatic = true ∧ .loadLocal 0 ∈ t.emitter.code ∧
      t.emitter.localCount = 0 := by
  obtain ⟨p, issued, h, hcheck⟩ := Builds.exists_of_any Given "Shapes" lentSide
    (fun p _ => p.draft.methods[1]?.any fun (t : MethodDef) => decide (t.state = .open ∧
      t.attrs.isStatic = true ∧ .loadLocal 0 ∈ t.emitter.code ∧ t.emitter.localCount = 0))
    (by decide +kernel)
  obtain ⟨t, ht, hfacts⟩ := (Option.any_eq_true ..).mp hcheck
  exact ⟨p, issued, t, h, ht, of_decide_eq_true hfacts⟩

/-- So it borrows the member that it returns. -/
theorem Session.isolated_lentSide :
    ∃ p issued t, Builds Given "Shapes" lentSide p issued ∧ p.draft.methods[1]? = some t ∧
      .loadLocal 0 ∈ t.emitter.code ∧ t.emitter.localCount = 0 ∧
      ∃ c ∈ t.commands, ∃ member ∈ c.command.implicit, p.draft.Borrows issued 1 member := by
  obtain ⟨p, issued, h, hcheck⟩ := Builds.exists_of_any Given "Shapes" lentSide
    (fun p _ => p.draft.methods[1]?.any fun (t : MethodDef) =>
      decide (.loadLocal 0 ∈ t.emitter.code ∧ t.emitter.localCount = 0)) (by decide +kernel)
  obtain ⟨t, ht, hfacts⟩ := (Option.any_eq_true ..).mp hcheck
  obtain ⟨hcode, hcount⟩ := of_decide_eq_true hfacts
  obtain hlt | ⟨-, hborrows⟩ := (h.session.isolated ht).1 _ hcode 0 rfl
  · rw [hcount] at hlt
    cases hlt
  · exact ⟨p, issued, t, h, ht, hcode, hcount, hborrows⟩

theorem Variable.writable_of_checkSave {id : Nat} {writable : Bool} {u : Unit}
    (h : v.checkSave = .ok u) (hm : v.member? = some member)
    (haccess : member.access = .field id writable) : writable = true := by
  have hmember {member : Member} {u : Unit} (h : member.checkSave = .ok u)
      (haccess : member.access = .field id writable) : writable = true := by
    rw [Member.checkSave, haccess] at h
    cases writable with
    | true => rfl
    | false => cases h
  cases v with
  | own | shared =>
    cases hm
    exact hmember h haccess
  | of object m =>
    cases hm
    obtain ⟨_, h, -⟩ := except_bind_eq_ok.mp h
    exact hmember h haccess
  | _ => cases hm

theorem Command.checkSave_of_check (h : c.check = .ok ()) (hv : c.written? = some v) :
    c.result? = some v ∨ v.checkSave = .ok () := by
  cases c with
  | assign target source coercion =>
    cases hv
    obtain ⟨_, h, -⟩ := except_bind_eq_ok.mp h
    exact .inr h
  | defineLocal v => cases hv
  | _ => exact .inl hv

theorem Variable.isSlot_eq_false (h : v.member? = some member) : v.isSlot = false := by
  cases v <;> first | rfl | cases h

theorem Draft.field_toUInt32 {id : Nat} {f f' : FieldDef} (hsize : d.fields.size ≤ 2 ^ 32)
    (hf : d.fields[id]? = some f) (hf' : d.fields[id.toUInt32.toNat]? = some f') : f = f' := by
  have hid : id.toUInt32.toNat = id :=
    Nat.mod_eq_of_lt (Nat.lt_of_lt_of_le (Array.getElem?_eq_some_iff.mp hf).1 hsize)
  rw [hid, hf] at hf'
  exact Option.some.inj hf'

/-- A readonly field is stored by constructors of the type that declares it, save for a variable that
belongs to no method and is borrowed from such a constructor. -/
theorem Session.readonly_stores {p : Project} {issued : List (Nat × Variable)}
    (h : Session Given p issued) (hsize : p.draft.fields.size ≤ 2 ^ 32) {m : Nat} {t : MethodDef}
    (ht : p.draft.methods[m]? = some t) {i : Instr Label}
    (hi : i ∈ t.emitter.code) {k : UInt32} (hk : i.stored? = some k) {f : FieldDef}
    (hf : p.draft.fields[k.toNat]? = some f) (hreadonly : f.attrs.isReadonly = true) :
    t.isConstructor = true ∧ t.owner = f.owner ∨
      ∃ c ∈ t.commands, ∃ target, c.command.written? = some target ∧ target.owner? = none ∧
        (m, target) ∉ issued ∧ ∃ m', (m', target) ∈ issued ∧ p.draft.Constructs m' f.owner := by
  obtain ⟨issued', hc, hsub, hnew⟩ := h.follows_course
  have hlent := hc.lent
  obtain ⟨t₀, code, hstems⟩ := h.anything.stems ht
  obtain ⟨c, hmem, hput⟩ | ⟨id, f', ⟨hf', hplain⟩, hcode, hi⟩ :=
    hstems.mem_code hi (Instr.isPlain_eq_false (by simp [hk]))
  · obtain ⟨v, hv, hwritten, member, id, writable, hm, hfield, rfl⟩ := Command.stores_of_put hput hk
    have huses := hlent.used m t ht c hmem
    have hslot := Variable.isSlot_eq_false hm
    have hold {m' : Nat} (hm' : (m', v) ∈ issued') : (m', v) ∈ issued :=
      (hnew _ hm').resolve_right (by rw [hslot]; exact nofun)
    have hwritable : writable = true := by
      obtain hresult | hsave := Command.checkSave_of_check huses.check hwritten
      · rw [huses.result v hresult] at hslot
        cases hslot
      · exact Variable.writable_of_checkSave hsave hm hfield
    subst hwritable
    have hconstructs {m' : Nat} (hm' : (m', v) ∈ issued') : p.draft.Constructs m' f.owner := by
      obtain ⟨f', hf', hwritten⟩ := (hlent.given m' v hm').field member id hm hfield
      obtain rfl := Draft.field_toUInt32 hsize hf' hf
      exact hwritten hreadonly
    obtain ⟨m', hm'⟩ : ∃ m', (m', v) ∈ issued' := by
      obtain (⟨value, rfl⟩ | hgiven) | ⟨-, ty, rfl⟩ := huses.given v hv
      · cases hm
      · exact hgiven
      · cases hm
    by_cases hown : (m, v) ∈ issued
    · obtain ⟨t', ht', hconstructor⟩ := hconstructs (hsub _ hown)
      rw [ht] at ht'
      cases ht'
      exact .inl hconstructor
    · refine .inr ⟨c, hmem, v, hwritten, ?_, hown, m', hold hm', hconstructs hm'⟩
      cases howner : v.owner? with
      | none => rfl
      | some j =>
        -- a variable with an owner was given out for the method that owns it
        obtain rfl := huses.owner v hv j howner
        obtain rfl := (hlent.given m' v hm').owner j howner
        exact absurd (hold hm') hown
  · obtain rfl := hcode.stored_eq hi hk
    obtain rfl := Draft.field_toUInt32 hsize hf' hf
    rw [hplain] at hreadonly
    cases hreadonly

/-- A constructor assigns a readonly field, and lends it to a method. -/
def restamping : List Operation := [
  .defineType "Entry" {} none [],
  .defineField 0 "stamp" .int { isReadonly := true },
  .defineConstructor 0 {} [],
  .defineMethod 0 "restamp" {} .void [],
  .look 0 (.field "stamp"),
  .edit 0 (.assign (.own ⟨"stamp", .int, .field 0 true⟩) (.constant (.i32 1))),
  .edit 1 (.assign (.own ⟨"stamp", .int, .field 0 true⟩) (.constant (.i32 2)))]

theorem Session.stores_restamping : ∃ p issued t₀ t₁, ∃ f : FieldDef,
    Builds Given "Entries" restamping p issued ∧ p.draft.fields.size ≤ 2 ^ 32 ∧
      p.draft.fields[0]? = some f ∧ f.attrs.isReadonly = true ∧ p.draft.methods[0]? = some t₀ ∧
      .storeField 0 ∈ t₀.emitter.code ∧ p.draft.methods[1]? = some t₁ ∧ t₁.state = .open ∧
      .storeField 0 ∈ t₁.emitter.code ∧ t₁.isConstructor = false := by
  obtain ⟨p, issued, h, hcheck⟩ := Builds.exists_of_any Given "Entries" restamping
    (fun p _ => decide (p.draft.fields.size ≤ 2 ^ 32) && p.draft.fields[0]?.any fun (f : FieldDef) =>
      p.draft.methods[0]?.any fun (t₀ : MethodDef) => p.draft.methods[1]?.any fun (t₁ : MethodDef) =>
        decide (f.attrs.isReadonly = true ∧ .storeField 0 ∈ t₀.emitter.code ∧ t₁.state = .open ∧
          .storeField 0 ∈ t₁.emitter.code ∧ t₁.isConstructor = false)) (by decide +kernel)
  rw [Bool.and_eq_true, decide_eq_true_eq] at hcheck
  obtain ⟨f, hf, hfacts⟩ := (Option.any_eq_true ..).mp hcheck.2
  obtain ⟨t₀, ht₀, hfacts⟩ := (Option.any_eq_true ..).mp hfacts
  obtain ⟨t₁, ht₁, hfacts⟩ := (Option.any_eq_true ..).mp hfacts
  obtain ⟨hreadonly, hstore₀, hopen, hstore₁, hconstructor⟩ := of_decide_eq_true hfacts
  exact ⟨p, issued, t₀, t₁, f, h, hcheck.1, hf, hreadonly, ht₀, hstore₀, ht₁, hopen, hstore₁,
    hconstructor⟩

theorem Session.readonly_stores_restamping : ∃ p issued t, ∃ f : FieldDef,
    Builds Given "Entries" restamping p issued ∧ p.draft.fields[0]? = some f ∧
      f.attrs.isReadonly = true ∧ p.draft.methods[1]? = some t ∧ .storeField 0 ∈ t.emitter.code ∧
      ∃ c ∈ t.commands, ∃ target, c.command.written? = some target ∧ target.owner? = none ∧
        (1, target) ∉ issued ∧ ∃ m', (m', target) ∈ issued ∧ p.draft.Constructs m' f.owner := by
  obtain ⟨p, issued, -, t, f, h, hsize, hf, hreadonly, -, -, ht, -, hstore, hconstructor⟩ :=
    Session.stores_restamping
  obtain ⟨htrue, -⟩ | hborrowed :=
    h.session.readonly_stores hsize ht hstore (i := .storeField 0) rfl hf hreadonly
  · rw [hconstructor] at htrue
    cases htrue
  · exact ⟨p, issued, t, f, h, hf, hreadonly, ht, hstore, hborrowed⟩

/-- The method is no constructor, but stores the readonly field. -/
theorem Session.readonly_stored_outside_restamping : ∃ p issued t, ∃ f : FieldDef,
    Builds Given "Entries" restamping p issued ∧ p.draft.methods[1]? = some t ∧ t.state = .open ∧
      .storeField 0 ∈ t.emitter.code ∧ p.draft.fields[0]? = some f ∧ f.attrs.isReadonly = true ∧
      t.isConstructor = false := by
  obtain ⟨p, issued, -, t, f, h, -, hf, hreadonly, -, -, ht, hopen, hstore, hconstructor⟩ :=
    Session.stores_restamping
  exact ⟨p, issued, t, f, h, ht, hopen, hstore, hf, hreadonly, hconstructor⟩

end Bytesmith.Build
