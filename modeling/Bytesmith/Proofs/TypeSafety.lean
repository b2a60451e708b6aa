import Bytesmith.Proofs.Dispatch

namespace Bytesmith.Build

open Code Bytesmith.Outcome Machine

namespace Draft

/-- The objects that can be come upon are in the store and of classes that have objects. Their
fields and the static fields hold what conforms to the types of the fields. -/
structure Holds (d : Draft) (m : Module) (s : Store) (roots : List Value) : Prop where
  inside : ∀ ref, Reachable s roots ref → ref < s.heap.size
  made : ∀ ref, Reachable s roots ref → m.Instantiable (s.object ref).classId
  fields : ∀ ref, Reachable s roots ref → ∀ id v f, (id, v) ∈ (s.object ref).fields →
    d.fields[id.toNat]? = some f → Conforms m s f.ty v
  statics : ∀ id v f, (id, v) ∈ s.statics → d.fields[id.toNat]? = some f → Conforms m s f.ty v

def FrameHolds (d : Draft) (m : Module) (s : Store) (id : UInt32) (x : Frame) : Prop :=
  m.function? id = some x.function ∧ ∃ t, d.methods[id.toNat]? = some t ∧
    List.Forall₂ (Conforms m s) (d.slotTypes t) x.locals.toList

/-- What a call of the abstract method comes to, with an object of the class, takes and returns what
the method does. -/
def ImplementedAlike (d : Draft) (m : Module) (t : MethodDef) (id : UInt32) : Prop :=
  m.Instantiable id → m.isAssignable id t.owner.toUInt32 = true →
    ∀ r ∈ m.implementation? id t.name t.params.length, ∃ e ∈ d.methods[r.toNat]?,
      e.paramTypes = t.paramTypes ∧ e.returnType = t.returnType

/-- What calls of abstract methods come to has the types of the methods. -/
def ImplementsAlike (d : Draft) (m : Module) : Prop :=
  ∀ t ∈ d.methods, t.attrs.isAbstract = true →
    ∀ c < m.classes.length, d.ImplementedAlike m t c.toUInt32

instance (d : Draft) (m : Module) (t : MethodDef) (id : UInt32) :
    Decidable (d.ImplementedAlike m t id) :=
  -- The quantifier is over an option: the search may settle on running through all indices.
  letI : Decidable (∀ r ∈ m.implementation? id t.name t.params.length, ∃ e ∈ d.methods[r.toNat]?,
      e.paramTypes = t.paramTypes ∧ e.returnType = t.returnType) := Option.decidableForallMem _
  inferInstanceAs (Decidable (m.Instantiable id → m.isAssignable id t.owner.toUInt32 = true → _))

instance (d : Draft) (m : Module) : Decidable (d.ImplementsAlike m) := by
  unfold ImplementsAlike
  infer_instance

variable {d : Draft} {m : Module} {s : Store} {roots : List Value}

theorem Holds.sound (h : d.Holds m s roots) :
    World.Sound m (d.declared m).fields ⟨s, Reachable s roots⟩ := by
  have hkept {id : UInt32} {v : Value} (hv : ∀ ref, v.ref? = some ref → Reachable s roots ref)
      (hconforms : ∀ f, d.fields[id.toNat]? = some f → Conforms m s f.ty v) :
      Kept m ⟨s, Reachable s roots⟩ ((d.declared m).fields id) v := by
    refine ⟨fun ty hty => ?_, hv⟩
    obtain ⟨f, hf, rfl⟩ := Option.map_eq_some_iff.mp hty
    exact hconforms f hf
  exact ⟨h.inside, h.made,
    fun ref href id v hv => hkept (fun _ => .field href hv) fun f => h.fields ref href id v f hv,
    fun id v hv => hkept (fun _ => .static hv) fun f => h.statics id v f hv⟩

theorem holds_of_sound {W : World} (h : W.Sound m (d.declared m).fields)
    (hroots : ∀ v ∈ roots, ∀ ref, v.ref? = some ref → W.live ref) : d.Holds m W.store roots := by
  have hlive (ref : Nat) (href : Reachable W.store roots ref) : W.live ref := by
    induction href with
    | root hv href => exact hroots _ hv _ href
    | static hv href => exact (h.statics _ _ hv).live _ href
    | field _ hv href ih => exact (h.fields _ ih _ _ hv).live _ href
  have hfield {id : UInt32} {f : FieldDef} (hf : d.fields[id.toNat]? = some f) :
      (d.declared m).fields id = some f.ty := congrArg (Option.map FieldDef.ty) hf
  exact ⟨fun ref href => h.inside ref (hlive ref href), fun ref href => h.made ref (hlive ref href),
    fun ref href id v f hv hf => (h.fields ref (hlive ref href) id v hv).conforms _ (hfield hf),
    fun id v f hv hf => (h.statics id v hv).conforms _ (hfield hf)⟩

end Draft

namespace Draft

structure Compiled (d : Draft) (m : Module) : Prop where
  frozen : d.Frozen m
  tables : d.Tabulates m
  listed : d.Listed
  wired : d.Wired
  functions : m.functions.length ≤ 2 ^ 32
  classes : m.classes.length ≤ 2 ^ 32
  fields : m.fields.length ≤ 2 ^ 32

namespace Compiled

variable {d : Draft} {m : Module}

theorem size_types (h : d.Compiled m) : d.types.size ≤ 2 ^ 32 := h.tables.count ▸ h.classes

theorem size_methods (h : d.Compiled m) : d.methods.size ≤ 2 ^ 32 :=
  h.frozen.yields.function.1 ▸ h.functions

theorem accepts (h : d.Compiled m) {sub sup : Nat} (name name' : String)
    (hsub : d.isSubtype sub sup = true) :
    (d.declared m).Accepts (.class sub name) (.class sup name') := by
  intro s v hv
  cases hv with
  | null => exact .null _
  | «class» _ _ ref hassignable =>
    exact .class sup name' ref ((h.tables.descends h.listed).isAssignable_trans hassignable
      (h.tables.isAssignable h.listed h.size_types hsub))

theorem dispatch (h : d.Compiled m) (halike : d.ImplementsAlike m) {i : Nat} {t : MethodDef}
    (ht : d.methods[i]? = some t) (habstract : t.attrs.isAbstract = true) {s : Store} {ref : Nat}
    {resolved : UInt32} (hreceiver : Conforms m s (d.receiverType t) (.object ref))
    (hmade : m.Instantiable (s.object ref).classId)
    (hresolved : m.implementation? (s.object ref).classId t.name t.params.length = some resolved) :
    ∃ owner, (d.declared m).signature resolved = some ⟨owner :: t.paramTypes, t.returnType⟩ ∧
      Conforms m s owner (.object ref) := by
  have hassignable : m.isAssignable (s.object ref).classId t.owner.toUInt32 = true := by
    cases hreceiver
    assumption
  obtain ⟨e, he, hparams, hreturn⟩ : ∃ e, d.methods[resolved.toNat]? = some e ∧
      e.paramTypes = t.paramTypes ∧ e.returnType = t.returnType := by
    have hclass : (s.object ref).classId.toNat.toUInt32 = (s.object ref).classId := by simp
    obtain ⟨c, hc, -⟩ := id hmade
    have halike' := halike t (Array.mem_of_getElem? ht) habstract (s.object ref).classId.toNat
      (List.getElem?_eq_some_iff.mp hc).1
    rw [hclass] at halike'
    exact halike' hmade hassignable resolved hresolved
  rw [h.tables.implementation?_eq h.listed h.frozen.yields h.functions] at hresolved
  obtain ⟨r, hr, rfl⟩ := Option.map_eq_some_iff.mp hresolved
  obtain ⟨e', he', hsub, hstatic⟩ := h.listed.isSubtype_implementation hr
  have hindex : r.toUInt32.toNat = r := Nat.mod_eq_of_lt
    (Nat.lt_of_lt_of_le (Array.getElem?_eq_some_iff.mp he').1 h.size_methods)
  rw [hindex, he'] at he
  cases he
  refine ⟨d.receiverType e, ?_, .class _ _ ref ?_⟩
  · rw [declared, ← hparams, ← hreturn]
    dsimp only
    rw [hindex, he', Option.map_some, takes_of_instance hstatic]
  · have hclass := h.tables.isAssignable h.listed h.size_types hsub
    simpa using hclass

theorem sound (h : d.Compiled m) (halike : d.ImplementsAlike m) : (d.declared m).Sound := by
  refine ⟨fun id info ty hinfo hty => ?_, fun id f sig hf hsig => ?_,
    fun id f owner params returns hf habstract hsig s ref resolved hreceiver hmade hresolved => ?_⟩
  · obtain ⟨f, hf, rfl⟩ := Option.map_eq_some_iff.mp hty
    replace hinfo : m.fields[id.toNat]? = some info := hinfo
    rw [h.tables.fields, List.getElem?_map, Array.getElem?_toList, hf] at hinfo
    cases hinfo
    rfl
  · obtain ⟨t, ht, hfunction⟩ := h.frozen.yields.method (function_eq_ok.mpr hf)
    obtain ⟨t', ht', rfl⟩ := Option.map_eq_some_iff.mp hsig
    cases ht.symm.trans ht'
    exact (MethodDef.flags_of_toFunction hfunction).2
  · obtain ⟨t, ht, hfunction⟩ := h.frozen.yields.method (function_eq_ok.mpr hf)
    obtain ⟨t', ht', htakes⟩ := Option.map_eq_some_iff.mp hsig
    cases ht.symm.trans ht'
    rw [(MethodDef.flags_of_toFunction hfunction).1] at habstract
    rw [takes_of_instance (h.wired.instances _ t ht (.inr habstract))] at htakes
    cases htakes
    rw [(MethodDef.arity_of_toFunction hfunction).1, MethodDef.paramTypes, List.length_map]
      at hresolved
    exact h.dispatch halike ht habstract hreceiver hmade hresolved

theorem typedBy (h : d.Compiled m) (hparams : ∀ t ∈ d.methods, t.params.length < 65535) :
    d.TypedBy (d.declared m).rules d.slotsOf := by
  refine h.frozen.typedBy h.size_methods hparams (fun _ => rfl) (fun i f hf => ?_) (Nat.le_refl _)
    (Nat.le_refl _) fun sub sup name name' => h.accepts name name'
  obtain ⟨hindex, -⟩ := h.tables.field? h.fields hf
  change d.fields[i.toUInt32.toNat]?.map _ = _
  rw [hindex, hf]
  rfl

theorem grounds (h : d.Compiled m) (hparams : ∀ t ∈ d.methods, t.params.length < 65535)
    (hsizes : ∀ f ∈ m.functions, f.code.size < 2 ^ 31) {issued : List (Nat × Variable)}
    (hc : Course Proper d issued) {id : UInt32} {f : Function} {t : MethodDef}
    (hf : m.function? id = some f) (hconcrete : f.isAbstract = false)
    (ht : d.methods[id.toNat]? = some t) :
    f.localCount = (d.slotTypes t).length ∧ ∃ (e : Emitter) (level : Nat → List StaticType),
      e.Grounds (Grading.types (d.declared m).rules (d.slotTypes t) t.returnType) f level := by
  obtain ⟨t', ht', hfunction⟩ := h.frozen.yields.method (function_eq_ok.mpr hf)
  cases ht.symm.trans ht'
  obtain ⟨hlocals, e, level, hgrounds, -⟩ := hc.grounds (admits_proper _) (h.typedBy hparams) ht
    hfunction hconcrete (hsizes f (List.mem_of_getElem? hf))
  exact ⟨hlocals, e, level, hgrounds⟩

theorem typechecks (h : d.Compiled m) (halike : d.ImplementsAlike m)
    (hparams : ∀ t ∈ d.methods, t.params.length < 65535)
    (hsizes : ∀ f ∈ m.functions, f.code.size < 2 ^ 31) {issued : List (Nat × Variable)}
    (hc : Course Proper d issued) : Typechecks (d.declared m) fun id => d.slotsOf id.toNat := by
  refine ⟨h.sound halike, fun id f sig hf hconcrete hsig => ?_⟩
  obtain ⟨t, ht, rfl⟩ := Option.map_eq_some_iff.mp hsig
  obtain ⟨hlocals, hgrounds⟩ := h.grounds hparams hsizes hc hf hconcrete ht
  rw [slotsOf_eq ht]
  exact ⟨List.prefix_append _ _, hlocals, hgrounds⟩

end Compiled

end Draft

theorem Session.compiled {Allowed : List (Nat × Variable) → Nat → Variable → Prop} [Fair Allowed]
    {p p' : Project} {issued : List (Nat × Variable)} (h : Session Allowed p issued) {m : Module}
    (hcreate : ProjectM.create p = .ok m p') (hfunctions : m.functions.length ≤ 2 ^ 32)
    (hclasses : m.classes.length ≤ 2 ^ 32) (hfields : m.fields.length ≤ 2 ^ 32) :
    p'.draft.Compiled m := by
  have hfrozen := h.frozen_of_create hcreate
  obtain ⟨issued', hc, -⟩ := (h.created hcreate).course
  exact ⟨hfrozen, (h.created hcreate).tabulates hfrozen.created, hc.listed, hc.wired, hfunctions,
    hclasses, hfields⟩

/-- Where a run has come to, what can be come upon, the slots of frames and what is returned
conform to their types. -/
structure Draft.KeepsTypes (d : Draft) (m : Module) (returns : StaticType) (ids : List UInt32)
    (o : Machine.Outcome) : Prop where
  store : d.Holds m o.store o.values
  frames : ∀ k, o = .running k → List.Forall₂ (d.FrameHolds m k.store) ids (frames k)
  result : ∀ v s, o = .returned v s → Conforms m s returns v

section

variable {d : Draft} {m : Module} {W : World} {last : StaticType} {ids : List UInt32}

theorem Draft.frameHolds {id : UInt32} {returns : StaticType} {σ σ' : List StaticType} {x : Frame}
    (hy : d.Yields m)
    (hcode : Occupies (d.declared m) (d.slotsOf id.toNat) returns id σ' x)
    (hframe : x.Typed m W (d.slotsOf id.toNat) σ) :
    d.FrameHolds m W.store id x := by
  have hfunction : m.function? id = some x.function := hcode.function
  obtain ⟨t, ht, -⟩ := hy.method (function_eq_ok.mpr hfunction)
  refine ⟨hfunction, t, ht, ?_⟩
  rw [← Draft.slotsOf_eq ht]
  refine List.forall₂_iff_get.mpr ⟨hframe.count.symm, fun j hj hj' => ?_⟩
  refine (hframe.locals j _ _ (List.getElem?_eq_getElem hj) ?_).conforms
  rw [← Array.getElem?_toList]
  exact List.getElem?_eq_getElem hj'

theorem Waits.frameHolds {returns : StaticType} {callers : List Caller} (hy : d.Yields m)
    (h : Waits (d.declared m) (fun id => d.slotsOf id.toNat) W last returns callers ids) :
    List.Forall₂ (d.FrameHolds m W.store) ids (callers.map (·.frame)) := by
  induction h with
  | nil => exact .nil
  | cons hcode hframe hresume _ ih => exact .cons (Draft.frameHolds hy hcode hframe) ih

theorem Reaches.keepsTypes {o : Machine.Outcome} (hy : d.Yields m)
    (h : Reaches (d.declared m) (fun id => d.slotsOf id.toNat) W last o ids) :
    d.KeepsTypes m last ids o := by
  refine ⟨?_, ?_, ?_⟩
  · rw [h.store]
    exact Draft.holds_of_sound h.sound h.live
  · rintro k rfl
    obtain ⟨hcode, hframe, rest⟩ := h.atHand
    exact .cons (Draft.frameHolds hy hcode hframe) (rest.frameHolds hy)
  · rintro v s rfl
    rw [show s = W.store from h.store]
    exact Suits.conforms h.atHand

end

/-- All along a run of a created module, slots, fields and static fields hold what conforms to
their types, if they did so when it started. -/
theorem Session.keepsTypes_of_create {p p' : Project} {issued : List (Nat × Variable)}
    (h : Session Proper p issued) {m : Module} (hcreate : ProjectM.create p = .ok m p')
    (hparams : ∀ t ∈ p'.draft.methods, t.params.length < 65535)
    (hsizes : ∀ f ∈ m.functions, f.code.size < 2 ^ 31) (hfunctions : m.functions.length ≤ 2 ^ 32)
    (hclasses : m.classes.length ≤ 2 ^ 32) (hfields : m.fields.length ≤ 2 ^ 32)
    (halike : p'.draft.ImplementsAlike m) {id : UInt32} {t : MethodDef}
    (ht : p'.draft.methods[id.toNat]? = some t) {store : Store} {args : List Value}
    (hargs : List.Forall₂ (Conforms m store) (p'.draft.takes t) args)
    (hstore : p'.draft.Holds m store args) (limit n : Nat) :
    p'.draft.KeepsTypes m t.returnType
      (functionsAt m limit n (enter m limit store [] id args) [id])
      (run m limit n (enter m limit store [] id args)) := by
  have hcompiled := h.compiled hcreate hfunctions hclasses hfields
  obtain ⟨issued', hc, -⟩ := (h.created hcreate).course
  have hchecks := hcompiled.typechecks halike hparams hsizes hc
  have hsig : (p'.draft.declared m).signature id = some ⟨p'.draft.takes t, t.returnType⟩ :=
    Option.map_eq_some_iff.mpr ⟨t, ht, rfl⟩
  have hsuits : List.Forall₂ (Suits m ⟨store, Reachable store args⟩) (p'.draft.takes t) args := by
    refine List.forall₂_iff_get.mpr ⟨hargs.length_eq, fun j hj hj' => ⟨hargs.get hj hj', ?_⟩⟩
    exact fun ref href => .root (List.get_mem args _) href
  have hstart : Reaches (p'.draft.declared m) (fun id => p'.draft.slotsOf id.toNat)
      ⟨store, Reachable store args⟩ t.returnType (enter m limit store [] id args) [id] :=
    hchecks.reaches_enter hstore.sound hsig hsuits .nil
  obtain ⟨W, -, hreaches⟩ := hchecks.reaches_run n hstart
  exact hreaches.keepsTypes hcompiled.frozen.yields

def drawing : List Operation := [
  .defineType "Shape" { isInterface := true } none [],
  .defineMethod 0 "scale" { isAbstract := true } .int [⟨"n", .int⟩],
  .defineType "Square" {} none [0],
  .defineField 1 "side" .int {},
  .defineMethod 1 "scale" {} .int [⟨"n", .int⟩],
  .look 1 (.param 0),
  .look 1 (.field "side"),
  .edit 1 (.arithmetic .mul (.own ⟨"side", .int, .field 0 true⟩) (.slot 1 1 "n" .int)),
  .edit 1 (.assign (.own ⟨"side", .int, .field 0 true⟩) (.slot 1 2 "__mul1" .int)),
  .edit 1 (.ret (.slot 1 2 "__mul1" .int)),
  .defineMethod 1 "grow" { isStatic := true } .int [⟨"shape", .class 0 "Shape"⟩],
  .look 2 (.param 0),
  .edit 2 (.call 0 (some (.slot 2 0 "shape" (.class 0 "Shape"))) [.constant (.i32 5)]),
  .edit 2 (.ret (.slot 2 1 "__call2" .int))]

def drawn : Store := ⟨#[⟨1, [(0, .i32 3)]⟩], []⟩

theorem Session.keepsTypes_drawing :
    ∃ p issued m p' t, Builds Proper "Drawing" drawing p issued ∧ ProjectM.create p = .ok m p' ∧
      p'.draft.ImplementsAlike m ∧ p'.draft.methods[2]? = some t ∧
      List.Forall₂ (Conforms m drawn) (p'.draft.takes t) [.object 0] ∧
      p'.draft.Holds m drawn [.object 0] ∧
      run m 64 40 (enter m 64 drawn [] 2 [.object 0]) =
        .returned (.i32 15) ⟨#[⟨1, [(0, .i32 15)]⟩], []⟩ ∧
      ∀ limit n, p'.draft.KeepsTypes m t.returnType
        (functionsAt m limit n (enter m limit drawn [] 2 [.object 0]) [2])
        (run m limit n (enter m limit drawn [] 2 [.object 0])) := by
  obtain ⟨p, issued, m, p', h, hcreate, hchecked⟩ := Builds.exists_created Proper "Drawing" drawing
    (fun _ m p' => decide ((∀ t ∈ p'.draft.methods, t.params.length < 65535) ∧
          (∀ f ∈ m.functions, f.code.size < 2 ^ 31) ∧ m.functions.length ≤ 2 ^ 32 ∧
          m.classes.length ≤ 2 ^ 32 ∧ m.fields.length ≤ 2 ^ 32 ∧ p'.draft.ImplementsAlike m) &&
        decide (p'.draft.methods[2]?.map p'.draft.takes = some [.class 0 "Shape"] ∧
          p'.draft.fields.map (·.ty) = #[.int] ∧ m.isAssignable 1 0 = true ∧ m.Instantiable 1 ∧
          run m 64 40 (enter m 64 drawn [] 2 [.object 0]) =
            .returned (.i32 15) ⟨#[⟨1, [(0, .i32 15)]⟩], []⟩)) (by decide +kernel)
  simp only [Bool.and_eq_true, decide_eq_true_eq] at hchecked
  obtain ⟨⟨hparams, hsizes, hfunctions, hclasses, hfields, halike⟩, htakes, htypes, hassignable,
    hmade, hrun⟩ := hchecked
  obtain ⟨t, ht, htakes⟩ := Option.map_eq_some_iff.mp htakes
  have hargs : List.Forall₂ (Conforms m drawn) (p'.draft.takes t) [.object 0] := by
    rw [htakes]
    exact .cons (.class 0 "Shape" 0 hassignable) .nil
  have hzero {ref : Nat} (href : Reachable drawn [.object 0] ref) : ref = 0 := by
    induction href with
    | root hv hto =>
      cases List.mem_singleton.mp hv
      cases hto
      rfl
    | static hv => cases hv
    | field _ hv hto ih =>
      subst ih
      cases List.mem_singleton.mp hv
      cases hto
  have hstore : p'.draft.Holds m drawn [.object 0] := by
    refine ⟨fun ref href => ?_, fun ref href => ?_, fun ref href id v f hv hf => ?_,
      fun id v f hv => (nomatch hv)⟩
    · cases hzero href
      decide
    · cases hzero href
      exact hmade
    · cases hzero href
      cases List.mem_singleton.mp hv
      have hty := congrArg (·[0]?) htypes
      rw [Array.getElem?_map, show p'.draft.fields[0]? = some f from hf] at hty
      rw [show f.ty = .int from Option.some.inj hty]
      exact .int 3
  exact ⟨p, issued, m, p', t, h, hcreate, halike, ht, hargs, hstore, hrun,
    h.session.keepsTypes_of_create hcreate hparams hsizes hfunctions hclasses hfields halike
      (show p'.draft.methods[(2 : UInt32).toNat]? = some t from ht) hargs hstore⟩

end Bytesmith.Build
