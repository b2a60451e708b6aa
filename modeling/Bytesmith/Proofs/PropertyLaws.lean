import Bytesmith.Proofs.Accessors
import Bytesmith.Proofs.Backing

namespace Bytesmith.Machine

open Code Bytesmith.Outcome Relation

theorem lookup_assign (fields : List (UInt32 × Value)) (id id' : UInt32) (v : Value) :
    (fields.map fun f => if f.1 = id then (id, v) else f).lookup id' =
      if id' = id then (fields.lookup id).map fun _ => v else fields.lookup id' := by
  induction fields with
  | nil => simp
  | cons f fields ih =>
    obtain ⟨key, w⟩ := f
    have hskip {x : UInt32} (hx : x ≠ key) : (x == key) = false := beq_eq_false_iff_ne.mpr hx
    by_cases hkey : id' = key
    · subst hkey
      by_cases hid : id' = id
      · subst hid
        simp
      · simp [hid]
    · by_cases hid : key = id
      · subst hid
        simp [List.lookup_cons, hskip hkey, hkey, ih]
      · simp [List.lookup_cons, hskip hkey, hskip (Ne.symm hid), hid, ih]

theorem Object.field?_setField (o : Object) (id id' : UInt32) (v : Value) :
    (o.setField id v).field? id' =
      if id' = id then (o.field? id).map fun _ => v else o.field? id' :=
  lookup_assign o.fields id id' v

structure Store.DiffersAt (ref : Nat) (id : UInt32) (s s' : Store) : Prop where
  statics : s'.statics = s.statics
  size : s'.heap.size = s.heap.size
  classes : ∀ r, (s'.object r).classId = (s.object r).classId
  fields : ∀ r f, (r, f) ≠ (ref, id) → (s'.object r).field? f = (s.object r).field? f

theorem Store.object_of_le {s : Store} {ref : Nat} (h : s.heap.size ≤ ref) :
    s.object ref = ⟨Wire.noIndex, []⟩ := by
  rw [object, Array.getD_eq_getD_getElem?, Array.getElem?_eq_none h]
  rfl

theorem Store.differsAt_setField (s : Store) (ref : Nat) (id : UInt32) (v : Value) :
    DiffersAt ref id s (s.setField ref id v) := by
  have hsize : (s.setField ref id v).heap.size = s.heap.size := Array.size_modify ..
  have hobject (r : Nat) (hr : s.heap.size ≤ r) : (s.setField ref id v).object r = s.object r := by
    rw [object_of_le hr, object_of_le (hsize ▸ hr)]
  refine ⟨rfl, hsize, fun r => ?_, fun r f hne => ?_⟩
  · by_cases hr : r < s.heap.size
    · rw [object_setField hr]
      split <;> rfl
    · rw [hobject r (Nat.le_of_not_lt hr)]
  · by_cases hr : r < s.heap.size
    · rw [object_setField hr]
      split
      · rename_i href
        rw [Object.field?_setField, if_neg]
        rintro rfl
        exact hne (by rw [href])
      · rfl
    · rw [hobject r (Nat.le_of_not_lt hr)]

theorem Store.field?_setField_self {s : Store} {ref : Nat} {id : UInt32} {w : Value}
    (h : (s.object ref).field? id = some w) (v : Value) :
    ((s.setField ref id v).object ref).field? id = some v := by
  have href : ref < s.heap.size := by
    by_contra hle
    rw [object_of_le (Nat.le_of_not_lt hle)] at h
    cases h
  rw [object_setField href, if_pos rfl, Object.field?_setField, if_pos rfl, h, Option.map_some]

structure RunsCode (g : Function) (count : Nat) (code : List (Instr Build.Label)) : Prop where
  isConcrete : g.isAbstract = false
  paramCount : g.paramCount = count
  code : ∃ distance, g.code = (Build.Emitter.assemble distance 0 code).toArray

variable {m : Module} {limit : Nat} {s s' : Store} {g : Function} {id field : UInt32} {ref : Nat}
  {v w : Value}

section

variable {n : Nat} {code : List (Instr Build.Label)} {distance : Nat → Build.Label → Int32}
  {i : Instr Build.Label} {f f' : Frame}

theorem run_next (hcode : f.function.code = (Build.Emitter.assemble distance 0 code).toArray)
    (hi : Build.instrAt code f.position = some i)
    (hexec : exec m s { f with position := f.position + i.size }
      (i.mapTarget (distance (f.position + i.size))) = .ok (.next f' s')) :
    run m limit (n + 1) (.running ⟨s, f, []⟩) = run m limit n (.running ⟨s', f', []⟩) := by
  rw [run, step_of_fetch (k := ⟨s, f, []⟩) (Build.Emitter.fetch_assemble hcode hi), hexec]
  rfl

theorem run_ret (hcode : f.function.code = (Build.Emitter.assemble distance 0 code).toArray)
    (hi : Build.instrAt code f.position = some i)
    (hexec : exec m s { f with position := f.position + i.size }
      (i.mapTarget (distance (f.position + i.size))) = .ok (.ret v)) :
    run m limit (n + 1) (.running ⟨s, f, []⟩) = .returned v s := by
  have hstep : step m limit ⟨s, f, []⟩ = .returned v s := by
    rw [step_of_fetch (k := ⟨s, f, []⟩) (Build.Emitter.fetch_assemble hcode hi), hexec]
    rfl
  rw [run, hstep]
  cases n <;> rfl

end

theorem enter_eq (hlimit : 0 < limit) (hg : m.function? id = some g)
    (hbody : g.isAbstract = false) (args : List Value) :
    enter m limit s [] id args = .running ⟨s, .enter g args, []⟩ := by
  have hdepth : ¬ limit ≤ ([] : List Caller).length := Nat.not_le_of_lt hlimit
  rw [enter, if_neg hdepth, function_eq_ok.mpr hg]
  dsimp only
  rw [if_neg (Bool.not_eq_true _ ▸ hbody)]

theorem run_getter (hlimit : 0 < limit) (hg : m.function? id = some g)
    (h : RunsCode g 1 [.loadLocal 0, .loadField field, .ret])
    (hfield : (s.object ref).field? field = some w) (n : Nat) :
    run m limit (n + 3) (enter m limit s [] id [.object ref]) = .returned w s := by
  obtain ⟨distance, hcode⟩ := h.code
  let locals := (Frame.enter g [.object ref]).locals
  have hload : loadField m s field (.object ref) = .ok w := by
    simp only [loadField, fieldReceiver, bind, Except.bind, hfield]
  have hexec : exec m s ⟨g, 8, [.object ref], locals⟩ (.loadField field) =
      loadField m s field (.object ref) >>= fun w => .ok (.next ⟨g, 8, [w], locals⟩ s) := rfl
  rw [hload] at hexec
  calc run m limit (n + 3) (enter m limit s [] id [.object ref])
      = run m limit (n + 3) (.running ⟨s, ⟨g, 0, [], locals⟩, []⟩) := by
        rw [enter_eq hlimit hg h.isConcrete]
        rfl
    _ = run m limit (n + 2) (.running ⟨s, ⟨g, 3, [.object ref], locals⟩, []⟩) :=
        run_next (i := .loadLocal 0) hcode rfl rfl
    _ = run m limit (n + 1) (.running ⟨s, ⟨g, 8, [w], locals⟩, []⟩) :=
        run_next (i := .loadField field) hcode rfl hexec
    _ = .returned w s := run_ret (i := .ret) hcode rfl rfl

theorem run_setter (hlimit : 0 < limit) (hg : m.function? id = some g)
    (h : RunsCode g 2 [.loadLocal 0, .loadLocal 1, .storeField field, .retVoid])
    (hfield : (s.object ref).field? field = some w) (n : Nat) :
    run m limit (n + 4) (enter m limit s [] id [.object ref, v]) =
      .returned .null (s.setField ref field v) := by
  obtain ⟨distance, hcode⟩ := h.code
  let locals := (Frame.enter g [.object ref, v]).locals
  have hstore : storeField m s field (.object ref) v = .ok (s.setField ref field v) := by
    simp only [storeField, fieldReceiver, bind, Except.bind, hfield]
  have hexec : exec m s ⟨g, 11, [v, .object ref], locals⟩ (.storeField field) =
      storeField m s field (.object ref) v >>= fun s' => .ok (.next ⟨g, 11, [], locals⟩ s') := rfl
  rw [hstore] at hexec
  calc run m limit (n + 4) (enter m limit s [] id [.object ref, v])
      = run m limit (n + 4) (.running ⟨s, ⟨g, 0, [], locals⟩, []⟩) := by
        rw [enter_eq hlimit hg h.isConcrete]
        rfl
    _ = run m limit (n + 3) (.running ⟨s, ⟨g, 3, [.object ref], locals⟩, []⟩) :=
        run_next (i := .loadLocal 0) hcode rfl rfl
    _ = run m limit (n + 2) (.running ⟨s, ⟨g, 6, [v, .object ref], locals⟩, []⟩) :=
        run_next (i := .loadLocal 1) hcode rfl rfl
    _ = run m limit (n + 1) (.running ⟨s.setField ref field v, ⟨g, 11, [], locals⟩, []⟩) :=
        run_next (i := .storeField field) hcode rfl hexec
    _ = .returned .null (s.setField ref field v) := run_ret (i := .retVoid) hcode rfl rfl

structure Exposes (m : Module) (c : UInt32) (name : String) (field : UInt32) (kind : ValueKind) :
    Prop where
  stored : field ∈ m.instanceFields c
  kind : ∃ info, m.field? field = some info ∧ info.kind = kind
  getter : ∃ id g, (m.findProperty? c name).bind (·.getter) = some id ∧ m.function? id = some g ∧
    RunsCode g 1 [.loadLocal 0, .loadField field, .ret]
  setter : ∃ id g, (m.findProperty? c name).bind (·.setter) = some id ∧ m.function? id = some g ∧
    RunsCode g 2 [.loadLocal 0, .loadLocal 1, .storeField field, .retVoid]

/-- The host has the field of the object as a variable: it can read it, which changes nothing, and
can assign it any value, which is then read there and changes nothing else. -/
structure Host.HasVariable (h : Host) (s : Store) (ref : Nat) (name : String) (field : UInt32) :
    Prop where
  read : ∃ w, (s.object ref).field? field = some w ∧ h.getProperty (.object ref) name s = .ok w s
  assign : ∀ v, ∃ s', h.setProperty (.object ref) name v s = .ok () s' ∧
    h.getProperty (.object ref) name s' = .ok v s' ∧ Store.DiffersAt ref field s s'

namespace Exposes

variable {name : String} {kind : ValueKind} {depth fuel : Nat}

theorem getProperty_eq (h : Exposes m (s.object ref).classId name field kind) (hfuel : 3 ≤ fuel)
    (hfield : (s.object ref).field? field = some w) :
    (Host.start m depth fuel).getProperty (.object ref) name s = .ok w s := by
  obtain ⟨id, g, hid, hg, hcode⟩ := h.getter
  obtain ⟨n, rfl⟩ := Nat.exists_eq_add_of_le' hfuel
  have hfound : HostM.ofOption .readableProperty name
      ((m.findProperty? (s.object ref).classId name).bind (·.getter)) s = .ok id s := by
    rw [hid]
    rfl
  have hlimit : 0 < max depth 1 := by omega
  have harity : ¬ [Value.object ref].length ≠ g.paramCount := not_not.mpr hcode.paramCount.symm
  refine (bind_of_ok hfound).trans ?_
  rw [Host.start, Host.invoke_eq hg, if_neg harity, run_getter hlimit hg hcode hfield]
  rfl

theorem setProperty_eq (h : Exposes m (s.object ref).classId name field kind) (hfuel : 4 ≤ fuel)
    (hfield : (s.object ref).field? field = some w) (v : Value) :
    (Host.start m depth fuel).setProperty (.object ref) name v s =
      .ok () (s.setField ref field v) := by
  obtain ⟨id, g, hid, hg, hcode⟩ := h.setter
  obtain ⟨n, rfl⟩ := Nat.exists_eq_add_of_le' hfuel
  have hfound : HostM.ofOption .writableProperty name
      ((m.findProperty? (s.object ref).classId name).bind (·.setter)) s = .ok id s := by
    rw [hid]
    rfl
  have hlimit : 0 < max depth 1 := by omega
  have harity : ¬ [Value.object ref, v].length ≠ g.paramCount :=
    not_not.mpr hcode.paramCount.symm
  refine (bind_of_ok hfound).trans (map_eq_ok.mpr ⟨.null, ?_, rfl⟩)
  rw [Host.start, Host.invoke_eq hg, if_neg harity, run_setter hlimit hg hcode hfield]
  rfl

theorem field?_of_newObject {c : UInt32} {o : Object} (h : Exposes m c name field kind)
    (ho : newObject m c = .ok o) : o.field? field = some (.default kind) := by
  obtain ⟨rfl, hshaped⟩ := shaped_of_newObject ho
  have hkey := Object.isSome_field?_iff.mpr ((hshaped.keys field).mpr h.stored)
  obtain ⟨w, hw⟩ := Option.isSome_iff_exists.mp hkey
  obtain ⟨info, hinfo, rfl⟩ := h.kind
  have hdefault := (newObject_eq_ok ho).2.2 field w (mem_of_lookup hw)
  rw [hw, hdefault, hinfo]
  rfl

theorem exists_field? (h : Exposes m (s.object ref).classId name field kind)
    (hs : ReflTransGen (Moves m) .empty s) (href : ref < s.heap.size) :
    ∃ w, (s.object ref).field? field = some w := by
  have ho : s.heap[ref]? = some (s.object ref) := by
    rw [Store.object, Array.getD_eq_getD_getElem?, Array.getElem?_eq_getElem href]
    rfl
  have hshaped := (keeps_of_moves hs).new ref _ (Nat.zero_le _) ho
  have hkey := Object.isSome_field?_iff.mpr ((hshaped.keys field).mpr h.stored)
  exact Option.isSome_iff_exists.mp hkey

theorem getProperty_allocate {c : UInt32} {o : Object} (h : Exposes m c name field kind)
    (hfuel : 3 ≤ fuel) (ho : newObject m c = .ok o) (s : Store) :
    (Host.start m depth fuel).getProperty (.object s.heap.size) name (s.allocate o).2 =
      .ok (.default kind) (s.allocate o).2 := by
  have hobject : (s.allocate o).2.object s.heap.size = o := by
    rw [Store.object, Array.getD_eq_getD_getElem?, s.getElem?_allocate o]
    rfl
  have hclass : ((s.allocate o).2.object s.heap.size).classId = c := by
    rw [hobject, (shaped_of_newObject ho).1]
  refine getProperty_eq (hclass ▸ h) hfuel ?_
  rw [hobject, h.field?_of_newObject ho]

theorem hasVariable (h : Exposes m (s.object ref).classId name field kind) (hfuel : 4 ≤ fuel)
    (hfield : (s.object ref).field? field = some w) :
    (Host.start m depth fuel).HasVariable s ref name field := by
  refine ⟨⟨w, hfield, h.getProperty_eq (by omega) hfield⟩, fun v => ?_⟩
  have hdiffers := s.differsAt_setField ref field v
  refine ⟨s.setField ref field v, h.setProperty_eq hfuel hfield v, ?_, hdiffers⟩
  rw [← hdiffers.classes] at h
  exact h.getProperty_eq (by omega) (Store.field?_setField_self hfield v)

theorem getProperty_of_differsAt (h : Exposes m (s.object ref).classId name field kind)
    (hfuel : 3 ≤ fuel) (hfield : (s.object ref).field? field = some w) {ref' : Nat}
    {field' : UInt32} (hdiffers : Store.DiffersAt ref' field' s s')
    (hne : (ref, field) ≠ (ref', field')) :
    (Host.start m depth fuel).getProperty (.object ref) name s' = .ok w s' := by
  rw [← hdiffers.classes] at h
  rw [← hdiffers.fields ref field hne] at hfield
  exact h.getProperty_eq hfuel hfield

end Exposes

end Bytesmith.Machine

namespace Bytesmith.Build

open Code Machine Bytesmith.Outcome Relation

namespace Draft

variable {d : Draft} {m : Module}

theorem Yields.exists_runsCode (h : d.Yields m) (hfunctions : m.functions.length ≤ 2 ^ 32) {k : Nat}
    {t : MethodDef} {code : List (Instr Label)} (ht : d.methods[k]? = some (t.generate code))
    (hcode : t.emitter.code = #[]) (hbody : t.attrs.isAbstract = false) :
    ∃ g, m.function? k.toUInt32 = some g ∧ RunsCode g t.paramCount code := by
  obtain ⟨g, hg, hfunction⟩ := h.function? hfunctions ht
  obtain ⟨habstract, -⟩ := MethodDef.flags_of_toFunction hfunction
  obtain ⟨body, hstate, rfl⟩ := MethodDef.toFunction_eq_ok hfunction
  cases hstate
  refine ⟨_, hg, habstract.trans hbody, rfl, (t.emitter.append code).distance, ?_⟩
  rw [Emitter.body, Emitter.code_append, hcode]
  rfl

/-- The property that a type has under the name, by itself or from a base, has a field behind it. -/
structure FindsBacked (d : Draft) (type : Nat) (name : String) (i : Nat) (e : PropertyDef)
    (field : Nat) : Prop where
  found : d.findProperty? type name = some i
  entry : d.properties[i]? = some e
  backing : e.backing = some field

theorem exists_findsBacked {type i field : Nat} {name : String} :
    (∃ e, d.FindsBacked type name i e field) ↔ d.findProperty? type name = some i ∧
      d.properties[i]?.bind PropertyDef.backing = some field := by
  constructor
  · rintro ⟨e, hfound, hentry, hbacking⟩
    exact ⟨hfound, by rw [hentry, Option.bind_some, hbacking]⟩
  · rintro ⟨hfound, hbacking⟩
    obtain ⟨e, hentry, hbacking⟩ := Option.bind_eq_some_iff.mp hbacking
    exact ⟨e, hfound, hentry, hbacking⟩

namespace FindsBacked

variable {c : UInt32} {name : String} {i : Nat} {e : PropertyDef} {field : Nat}

theorem findProperty?_eq (h : d.FindsBacked c.toNat name i e field) (htables : d.Tabulates m)
    (hl : d.Listed) : m.findProperty? c name = d.entry? i := by
  rw [htables.findProperty?_eq hl, h.found, Option.bind_some]

theorem exposes (h : d.FindsBacked c.toNat name i e field) (hb : d.Backed) (hl : d.Listed)
    (hr : d.Rostered) (htables : d.Tabulates m) (hyields : d.Yields m)
    (hfunctions : m.functions.length ≤ 2 ^ 32) (hfields : m.fields.length ≤ 2 ^ 32) :
    Exposes m c name field.toUInt32 e.ty.valueKind := by
  have hgenerated := hb.generated i e field h.entry h.backing
  obtain ⟨-, hinfo⟩ := htables.field? hfields hgenerated.stored
  have hentry : m.findProperty? c name =
      some ⟨e.name, e.getter.map (·.toUInt32), e.setter.map (·.toUInt32)⟩ := by
    rw [h.findProperty?_eq htables hl, entry?, h.entry, Option.map_some]
  refine ⟨?_, ⟨_, hinfo, rfl⟩, ?_, ?_⟩
  · obtain ⟨t, ht, hmem⟩ := hr.fields field _ hgenerated.stored
    obtain ⟨e', he', howner⟩ := hl.owner_mem_bases h.found
    rw [h.entry] at he'
    cases he'
    refine List.mem_filter.mpr ⟨List.mem_flatMap.mpr ⟨d.toClass t, ?_, ?_⟩, ?_⟩
    · exact List.mem_reverse.mpr (htables.mem_chain hl howner ht)
    · exact List.mem_map_of_mem hmem
    · rw [hinfo]
      rfl
  · obtain ⟨k, hk, ht⟩ := hgenerated.getter
    obtain ⟨g, hg, hruns⟩ := hyields.exists_runsCode hfunctions ht rfl rfl
    exact ⟨k.toUInt32, g, by rw [hentry, Option.bind_some, hk, Option.map_some], hg, hruns⟩
  · obtain ⟨k, hk, ht⟩ := hgenerated.setter
    obtain ⟨g, hg, hruns⟩ := hyields.exists_runsCode hfunctions ht rfl rfl
    exact ⟨k.toUInt32, g, by rw [hentry, Option.bind_some, hk, Option.map_some], hg, hruns⟩

theorem index_eq {type type' i' : Nat} {name' : String} {e' : PropertyDef} {field' : Nat}
    (h : d.FindsBacked type name i e field) (h' : d.FindsBacked type' name' i' e' field')
    (hb : d.Backed) (htables : d.Tabulates m)
    (hfields : m.fields.length ≤ 2 ^ 32) (heq : field.toUInt32 = field'.toUInt32) : i = i' := by
  have hword := (htables.field? hfields (hb.generated i e field h.entry h.backing).stored).1
  have hword' := (htables.field? hfields (hb.generated i' e' field' h'.entry h'.backing).stored).1
  rw [← hword, heq, hword'] at h
  exact hb.separate i i' e e' field' h.entry h'.entry h.backing h'.backing

end FindsBacked

/-- Properties with fields behind them are variables of the objects of a store, with the defaults of
their types at first, and to assign one leaves the others what they are. -/
structure HeldBy (d : Draft) (h : Host) (s : Store) : Prop where
  found : ∀ (c : UInt32) (name : String) (i : Nat) (e : PropertyDef) (field : Nat),
    d.FindsBacked c.toNat name i e field → h.module.findProperty? c name = d.entry? i
  fresh : ∀ (c : UInt32) (name : String) (i : Nat) (e : PropertyDef) (field : Nat) (o : Object),
    d.FindsBacked c.toNat name i e field → newObject h.module c = .ok o →
      h.getProperty (.object s.heap.size) name (s.allocate o).2 =
        .ok (.default e.ty.valueKind) (s.allocate o).2
  held : ∀ (ref : Nat) (name : String) (i : Nat) (e : PropertyDef) (field : Nat),
    ref < s.heap.size → d.FindsBacked (s.object ref).classId.toNat name i e field →
      h.HasVariable s ref name field.toUInt32
  others : ∀ (ref ref' : Nat) (name name' : String) (i i' : Nat) (e e' : PropertyDef)
    (field field' : Nat), ref < s.heap.size → ref' < s.heap.size →
      d.FindsBacked (s.object ref).classId.toNat name i e field →
      d.FindsBacked (s.object ref').classId.toNat name' i' e' field' → (ref, i) ≠ (ref', i') →
        ∀ v s', h.setProperty (.object ref') name' v s = .ok () s' →
          ∃ w, h.getProperty (.object ref) name s = .ok w s ∧
            h.getProperty (.object ref) name s' = .ok w s'

end Draft

variable {p p' : Project} {issued : List (Nat × Variable)} {m : Module}

/-- Whatever a module has been through, once it is created its properties with generated accessors
are variables of its objects, whatever these have been through, as long as the numbers of functions
and fields fit their words. -/
theorem Session.autoProperties_heldBy (h : Session Anything p issued)
    (hcreate : ProjectM.create p = .ok m p') (hfunctions : m.functions.length ≤ 2 ^ 32)
    (hfields : m.fields.length ≤ 2 ^ 32) (limit : Nat) {fuel : Nat} (hfuel : 4 ≤ fuel) {s : Store}
    (hs : ReflTransGen (Moves m) .empty s) : p'.draft.HeldBy (Host.start m limit fuel) s := by
  have hfrozen := h.frozen_of_create hcreate
  have h' := h.created hcreate
  obtain ⟨issued', hc, -⟩ := h'.course
  have htables := h'.tabulates hfrozen.created
  have hexposes {c : UInt32} {name : String} {i : Nat} {e : PropertyDef} {field : Nat}
      (hfind : p'.draft.FindsBacked c.toNat name i e field) :
      Exposes m c name field.toUInt32 e.ty.valueKind :=
    hfind.exposes h'.backed hc.listed hc.rostered htables hfrozen.yields hfunctions hfields
  constructor
  · intro c name i e field hfind
    exact hfind.findProperty?_eq htables hc.listed
  · intro c name i e field o hfind ho
    exact (hexposes hfind).getProperty_allocate (by omega) ho s
  · intro ref name i e field href hfind
    obtain ⟨w, hw⟩ := (hexposes hfind).exists_field? hs href
    exact (hexposes hfind).hasVariable hfuel hw
  · intro ref ref' name name' i i' e e' field field' href href' hfind hfind' hne v s' hset
    obtain ⟨w, hw⟩ := (hexposes hfind).exists_field? hs href
    obtain ⟨w', hw'⟩ := (hexposes hfind').exists_field? hs href'
    rw [(hexposes hfind').setProperty_eq hfuel hw' v] at hset
    cases hset
    refine ⟨w, (hexposes hfind).getProperty_eq (by omega) hw, ?_⟩
    refine (hexposes hfind).getProperty_of_differsAt (by omega) hw (s.differsAt_setField ..) ?_
    intro heq
    obtain ⟨rfl, hfield⟩ := Prod.mk.inj heq
    rw [hfind.index_eq hfind' h'.backed htables hfields hfield] at hne
    exact hne rfl

/-- Shapes have a name and a number; squares have a number besides that they call their name. -/
def nameplates : List Operation := [
  .defineType "Shape" {} none [],
  .defineAutoProperty 0 "Name" .string,
  .defineAutoProperty 0 "Number" .int,
  .defineType "Square" {} (some 0) [],
  .defineAutoProperty 1 "Name" .int]

def nameless : Store := ⟨#[⟨1, [(0, .null), (1, .i32 0), (2, .i32 0)]⟩], []⟩

/-- A module in which there are squares, with a property of each type. The one that they hide is
found from shapes. -/
abbrev Named (d : Draft) (m : Module) : Prop :=
  m.functions.length ≤ 2 ^ 32 ∧ m.fields.length ≤ 2 ^ 32 ∧
  final ((HostCall.newObject "Square" []).perform ⟨m, 64, 100⟩ .empty) = nameless ∧
  (d.findProperty? 1 "Name" = some 2 ∧ d.properties[2]?.bind PropertyDef.backing = some 2) ∧
  (d.findProperty? 1 "Number" = some 1 ∧ d.properties[1]?.bind PropertyDef.backing = some 1) ∧
  d.findProperty? 0 "Name" = some 0 ∧ d.properties[0]?.bind PropertyDef.backing = some 0

/-- Both numbers of a square are variables, each by its name, and are apart. -/
theorem Session.autoProperties_heldBy_nameplates : ∃ p issued m p',
    Builds Anything "Shapes" nameplates p issued ∧ ProjectM.create p = .ok m p' ∧
    Named p'.draft m ∧ ReflTransGen (Moves m) .empty nameless ∧
    p'.draft.HeldBy (Host.start m 64 100) nameless ∧
    (Host.start m 64 100).HasVariable nameless 0 "Name" 2 ∧
    (Host.start m 64 100).HasVariable nameless 0 "Number" 1 := by
  obtain ⟨p, issued, m, p', h, hcreate, hchecked⟩ := Builds.exists_created Anything "Shapes"
    nameplates (fun _ m p' => decide (Named p'.draft m)) (by decide +kernel)
  have hnamed : Named p'.draft m := of_decide_eq_true hchecked
  obtain ⟨hfunctions, hfields, hmade, hname, hnumber, -⟩ := id hnamed
  have hmove := Moves.call ⟨m, 64, 100⟩ rfl (.newObject "Square" []) .empty
  rw [hmade] at hmove
  have hheld : p'.draft.HeldBy (Host.start m 64 100) nameless :=
    h.session.autoProperties_heldBy hcreate hfunctions hfields 64 (by decide) (.single hmove)
  obtain ⟨e, he⟩ := Draft.exists_findsBacked.mpr hname
  obtain ⟨e', he'⟩ := Draft.exists_findsBacked.mpr hnumber
  exact ⟨p, issued, m, p', h, hcreate, hnamed, .single hmove, hheld,
    hheld.held 0 "Name" 2 e 2 (by decide) he, hheld.held 0 "Number" 1 e' 1 (by decide) he'⟩

end Bytesmith.Build
