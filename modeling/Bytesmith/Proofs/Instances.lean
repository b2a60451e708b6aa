import Mathlib.Logic.Relation
import Bytesmith.Proofs.Boundaries
import Bytesmith.Proofs.Preservation

namespace Bytesmith.Machine

open Code Bytesmith.Outcome Relation

theorem nodup_eraseDups {α : Type} [DecidableEq α] (l : List α) : l.eraseDups.Nodup := by
  induction hn : l.length using Nat.strongRecOn generalizing l with
  | ind n ih =>
    cases l with
    | nil => exact List.nodup_nil
    | cons a l =>
      rw [List.eraseDups_cons, List.nodup_cons]
      have hshorter : (l.filter fun b => !b == a).length < n := by
        have hle := List.length_filter_le (fun b => !b == a) l
        rw [List.length_cons] at hn
        omega
      refine ⟨fun hmem => ?_, ih _ hshorter _ rfl⟩
      have hne := (List.mem_filter.mp (List.mem_eraseDups.mp hmem)).2
      simp at hne

namespace Object

def keys (o : Object) : List UInt32 := o.fields.map Prod.fst

/-- The object has the fields of the instances of its class, each once. -/
structure Shaped (m : Module) (o : Object) : Prop where
  nodup : o.keys.Nodup
  keys : ∀ id, id ∈ o.keys ↔ id ∈ m.instanceFields o.classId

theorem isSome_field?_iff {o : Object} {id : UInt32} :
    (o.field? id).isSome = true ↔ id ∈ o.keys := by
  rw [field?, List.lookup_isSome_iff, keys, List.mem_map]
  simp only [beq_iff_eq]
  exact exists_congr fun _ => and_congr_right fun _ => eq_comm

@[simp]
theorem keys_setField (o : Object) (id : UInt32) (v : Value) : (o.setField id v).keys = o.keys := by
  rw [keys, setField, List.map_map, keys]
  refine List.map_congr_left fun f _ => ?_
  rw [Function.comp_apply]
  split
  · rename_i hid
    exact hid.symm
  · rfl

end Object

variable {m : Module} {limit : Nat} {s s' s'' : Store} {f f' : Frame} {i : Instr Int32}

theorem shaped_of_newObject {id : UInt32} {o : Object} (h : newObject m id = .ok o) :
    o.classId = id ∧ o.Shaped m := by
  unfold newObject at h
  split at h
  · cases h
  · split at h
    · cases h
    · cases h
      have hkeys : Object.keys ⟨id, (m.instanceFields id).eraseDups.map fun f =>
          (f, ((m.field? f).map fun info => Value.default info.kind).getD .null)⟩ =
            (m.instanceFields id).eraseDups := by
        rw [Object.keys, List.map_map]
        exact List.map_id _
      refine ⟨rfl, ?_, fun field => ?_⟩
      · rw [hkeys]
        exact nodup_eraseDups _
      · rw [hkeys]
        exact List.mem_eraseDups

namespace Store

/-- Objects stay there with their classes and fields, and those that are new are instances. -/
structure Keeps (m : Module) (s s' : Store) : Prop where
  old : ∀ (ref : Nat) (o : Object), s.heap[ref]? = some o →
    ∃ o' : Object, s'.heap[ref]? = some o' ∧ o'.classId = o.classId ∧ o'.keys = o.keys
  new : ∀ (ref : Nat) (o : Object), s.heap.size ≤ ref → s'.heap[ref]? = some o → o.Shaped m

namespace Keeps

theorem of_heap_eq (h : s'.heap = s.heap) : s.Keeps m s' where
  old ref o ho := ⟨o, h ▸ ho, rfl, rfl⟩
  new ref o hsize ho := by
    rw [h, Array.getElem?_eq_none hsize] at ho
    cases ho

theorem trans (h : s.Keeps m s') (h' : s'.Keeps m s'') : s.Keeps m s'' where
  old ref o ho := by
    obtain ⟨o', ho', hclass, hkeys⟩ := h.old ref o ho
    obtain ⟨o'', ho'', hclass', hkeys'⟩ := h'.old ref o' ho'
    exact ⟨o'', ho'', hclass'.trans hclass, hkeys'.trans hkeys⟩
  new ref o hsize ho := by
    cases ho' : s'.heap[ref]? with
    | none => exact h'.new ref o (Array.getElem?_eq_none_iff.mp ho') ho
    | some o' =>
      -- made on the first way and kept on the second
      obtain ⟨hnodup, hmem⟩ := h.new ref o' hsize ho'
      obtain ⟨o'', ho'', hclass, hkeys⟩ := h'.old ref o' ho'
      rw [ho] at ho''
      cases ho''
      refine ⟨hkeys ▸ hnodup, fun id => ?_⟩
      rw [hkeys, hclass]
      exact hmem id

instance : Std.Refl (Keeps m) := ⟨fun _ => of_heap_eq rfl⟩

instance : Trans (Keeps m) (Keeps m) (Keeps m) := ⟨trans⟩

theorem allocate {id : UInt32} {o : Object} (h : newObject m id = .ok o) (s : Store) :
    s.Keeps m (s.allocate o).2 where
  old ref o' ho' := by
    refine ⟨o', ?_, rfl, rfl⟩
    rw [Store.allocate, Array.getElem?_push,
      if_neg (Nat.ne_of_lt (Array.getElem?_eq_some_iff.mp ho').1)]
    exact ho'
  new ref o' hsize ho' := by
    rw [Store.allocate, Array.getElem?_push] at ho'
    by_cases href : ref = s.heap.size
    · rw [if_pos href] at ho'
      cases ho'
      exact (shaped_of_newObject h).2
    · rw [if_neg href, Array.getElem?_eq_none hsize] at ho'
      cases ho'

theorem setField (s : Store) (ref : Nat) (id : UInt32) (v : Value) :
    s.Keeps m (s.setField ref id v) where
  old ref' o ho := by
    rw [Store.setField, Array.getElem?_modify, ho]
    split
    · exact ⟨_, rfl, rfl, o.keys_setField id v⟩
    · exact ⟨o, rfl, rfl, rfl⟩
  new ref' o hsize ho := by
    rw [Store.setField, Array.getElem?_modify, Array.getElem?_eq_none hsize] at ho
    split at ho <;> cases ho

end Keeps

end Store

theorem keeps_exec (h : exec m s f i = .ok (.next f' s')) : s.Keeps m s' := by
  obtain ⟨-, -, hstores⟩ := fits_exec h
  cases hstores with
  | same | static => exact .of_heap_eq rfl
  | new ho => exact .allocate ho s
  | field id ref v => exact .setField s ref id v

theorem store_enter (callers : List Caller) (id : UInt32) (args : List Value) :
    (enter m limit s callers id args).store = s := by
  unfold enter
  split
  · rfl
  · split
    · rfl
    · split <;> rfl

theorem store_finishFrame (v : Value) (callers : List Caller) :
    (finishFrame s v callers).store = s := by
  cases callers <;> rfl

theorem store_unwind (v : Value) (f : Frame) (offset : Nat) (callers : List Caller) :
    (unwind m s v f offset callers).store = s := by
  induction callers generalizing f offset with
  | nil =>
    unfold unwind
    split <;> rfl
  | cons c callers ih =>
    unfold unwind
    split
    · rfl
    · exact ih c.frame c.callOffset

theorem keeps_step (m : Module) (limit : Nat) (k : Configuration) :
    k.store.Keeps m (step m limit k).store := by
  by_cases hend : k.frame.isAtEnd = true
  · rw [step, if_pos hend, store_finishFrame]
    exact .of_heap_eq rfl
  · cases hfetch : k.frame.fetch with
    | error e =>
      rw [step, if_neg hend, Frame.effect_eq, hfetch]
      exact .of_heap_eq rfl
    | ok fetched =>
      obtain ⟨i, f⟩ := fetched
      rw [step_of_fetch hfetch]
      cases hexec : exec m k.store f i with
      | error e => exact .of_heap_eq rfl
      | ok effect =>
        cases effect with
        | next f' s => exact keeps_exec hexec
        | call id args caller resume => exact .of_heap_eq (by rw [respond, store_enter])
        | ret v => exact .of_heap_eq (by rw [respond, store_finishFrame])
        | raise v => exact .of_heap_eq (by rw [respond, store_unwind])

theorem keeps_run (m : Module) (limit n : Nat) (o : Machine.Outcome) :
    o.store.Keeps m (run m limit n o).store := by
  induction n generalizing o with
  | zero =>
    rw [run_zero]
    exact .of_heap_eq rfl
  | succ n ih =>
    cases o with
    | running k => exact (keeps_step m limit k).trans (ih (step m limit k))
    | returned | uncaught | faulted => exact .of_heap_eq rfl

inductive HostCall
  | invoke (id : UInt32) (args : List Value)
  | invokeStatic (className name : String) (args : List Value)
  | newObject (className : String) (args : List Value)
  | callMethod (receiver : Value) (name : String) (args : List Value)
  | getProperty (receiver : Value) (name : String)
  | setProperty (receiver : Value) (name : String) (v : Value)
  | getField (receiver : Value) (name : String)
  | runEntryPoint (args : List Value)

/-- Assigning a property gives no value, which is null here. -/
def HostCall.perform (h : Host) : HostCall → HostM Value
  | .invoke id args => h.invoke id args
  | .invokeStatic className name args => h.invokeStatic className name args
  | .newObject className args => h.newObject className args
  | .callMethod receiver name args => h.callMethod receiver name args
  | .getProperty receiver name => h.getProperty receiver name
  | .setProperty receiver name v => do
    h.setProperty receiver name v
    return .null
  | .getField receiver name => h.getField receiver name
  | .runEntryPoint args => h.runEntryPoint args

namespace Host

open HostM

variable {h : Host}

variable {α β : Type} {what : Sought} {name : String}

theorem exists_of_ofExcept_bind {x : Except Fault α} {f : α → HostM β} {b : β}
    (hok : (ofExcept x >>= f) s = .ok b s') : ∃ a, x = .ok a ∧ f a s = .ok b s' := by
  cases x with
  | ok a => exact ⟨a, rfl, hok⟩
  | error e => cases hok

theorem exists_of_ofOption_bind {x : Option α} {f : α → HostM β} {b : β}
    (hok : (ofOption what name x >>= f) s = .ok b s') : ∃ a, x = some a ∧ f a s = .ok b s' := by
  cases x with
  | some a => exact ⟨a, rfl, hok⟩
  | none => cases hok

theorem keeps_ofExcept_bind {x : Except Fault α} {f : α → HostM β}
    (hf : ∀ a, x = .ok a → Leads (Store.Keeps m) (f a)) :
    Leads (Store.Keeps m) (ofExcept x >>= f) := by
  cases x with
  | ok a => exact hf a rfl
  | error e => exact .of_state fun _ => rfl

theorem keeps_ofOption {x : Option α} : Leads (Store.Keeps m) (ofOption what name x) := by
  cases x with
  | some a => exact .pure a
  | none => exact .throw _

theorem keeps_ofOption_bind {x : Option α} {f : α → HostM β}
    (hf : ∀ a, x = some a → Leads (Store.Keeps m) (f a)) :
    Leads (Store.Keeps m) (ofOption what name x >>= f) := by
  cases x with
  | some a => exact hf a rfl
  | none => exact .of_state fun _ => rfl

theorem final_result (o : Machine.Outcome) : final (o.result m) = o.store := by
  cases o <;> rfl

theorem keeps_invoke (h : Host) (id : UInt32) (args : List Value) :
    Leads (Store.Keeps h.module) (h.invoke id args) := by
  intro s
  obtain ⟨m, limit, fuel⟩ := h
  cases hg : m.function? id with
  | none =>
    have hfail : ofExcept (function m id) s =
        .error (.fault (.unknown .function (toString id))) s := by
      rw [function, hg]
      rfl
    rw [invoke, bind_of_error hfail]
    exact .of_heap_eq rfl
  | some g =>
    rw [invoke_eq hg]
    split
    · exact .of_heap_eq rfl
    · have hrun := keeps_run m limit fuel (enter m limit s [] id args)
      rw [store_enter] at hrun
      rw [final_result]
      exact hrun

def construct (h : Host) (className : String) (id : UInt32) (ref : Nat) (args : List Value) :
    HostM Unit :=
  let constructors := ((h.module.class? id).map (·.constructors)).getD []
  match constructors.find? fun f => (h.module.function? f).any (·.arity == args.length) with
  | some f => discard <| h.invoke f (.object ref :: args)
  | none =>
    if !(constructors.isEmpty && args.isEmpty) then
      fail (.unknown .constructor s!"{className}({args.length} argument(s))")
    else pure ()

theorem newObject_eq (h : Host) (className : String) (args : List Value) :
    h.newObject className args = (h.classId className >>= fun id =>
      ofExcept (Machine.newObject h.module id) >>= fun o s =>
        (h.construct className id s.heap.size args >>= fun _ => pure (.object s.heap.size))
          (s.allocate o).2) := by
  unfold newObject construct
  refine congrArg _ (funext fun id => congrArg _ (funext fun o => funext fun s => ?_))
  rw [get_bind]
  dsimp only
  rw [set_bind]
  cases (((h.module.class? id).map (·.constructors)).getD []).find? fun f =>
      (h.module.function? f).any (·.arity == args.length) with
  | some f => rfl
  | none =>
    dsimp only
    split <;> rfl

theorem keeps_construct (h : Host) (className : String) (id : UInt32) (ref : Nat)
    (args : List Value) : Leads (Store.Keeps h.module) (h.construct className id ref args) := by
  unfold construct
  dsimp only
  split
  · exact (h.keeps_invoke _ _).map _
  · split
    · exact .throw _
    · exact .pure _

theorem keeps_newObject (h : Host) (className : String) (args : List Value) :
    Leads (Store.Keeps h.module) (h.newObject className args) := by
  rw [newObject_eq]
  refine keeps_ofOption_bind fun id _ => keeps_ofExcept_bind fun o ho s => ?_
  exact (Store.Keeps.allocate ho s).trans (((h.keeps_construct className id s.heap.size args).bind
    fun _ => .pure _) (s.allocate o).2)

theorem keeps_perform (h : Host) (call : HostCall) :
    Leads (Store.Keeps h.module) (call.perform h) := by
  cases call with
  | invoke id args => exact h.keeps_invoke id args
  | invokeStatic className name args =>
    exact keeps_ofOption_bind fun _ _ => keeps_ofOption_bind fun f _ => h.keeps_invoke f args
  | newObject className args => exact h.keeps_newObject className args
  | callMethod | getProperty =>
    exact .get_bind fun s => keeps_ofExcept_bind fun _ _ => keeps_ofOption_bind fun f _ =>
      h.keeps_invoke f _
  | setProperty receiver name v =>
    exact Leads.bind (.get_bind fun s => keeps_ofExcept_bind fun _ _ =>
      keeps_ofOption_bind fun f _ => (h.keeps_invoke f _).map _) fun _ => .pure _
  | getField receiver name =>
    refine .get_bind fun s => keeps_ofExcept_bind fun _ _ => keeps_ofOption_bind fun f _ => ?_
    cases receiver with
    | object ref => exact keeps_ofOption
    | _ => exact .throw _
  | runEntryPoint args =>
    rw [HostCall.perform, runEntryPoint]
    split
    · exact h.keeps_invoke _ args
    · exact .throw _

end Host

/-- What leads from a store to the next: an instruction that is carried out, an object that is
made, a call of the host from its start to its end. -/
inductive Moves (m : Module) : Store → Store → Prop
  | step (limit : Nat) (k : Configuration) : Moves m k.store (step m limit k).store
  | allocate {id : UInt32} {o : Object} (h : newObject m id = .ok o) (s : Store) :
      Moves m s (s.allocate o).2
  | call (h : Host) (hm : h.module = m) (call : HostCall) (s : Store) :
      Moves m s (final (call.perform h s))

theorem Moves.keeps (h : Moves m s s') : s.Keeps m s' := by
  cases h with
  | step limit k => exact keeps_step m limit k
  | allocate h s => exact .allocate h s
  | call h hm call s =>
    subst hm
    exact h.keeps_perform call s

theorem keeps_of_moves (h : ReflTransGen (Moves m) s s') : s.Keeps m s' := by
  induction h with
  | refl => exact .of_heap_eq rfl
  | tail _ hmove ih => exact ih.trans hmove.keeps

namespace Store

def HasField (s : Store) (id : UInt32) (v : Value) : Prop :=
  ∃ ref, v = .object ref ∧ id ∈ (s.object ref).keys

variable {id : UInt32} {v : Value}

theorem field?_of_not_hasField {ref : Nat} (h : ¬ s.HasField id (.object ref)) :
    (s.object ref).field? id = none := by
  rw [← Option.not_isSome_iff_eq_none, Object.isSome_field?_iff]
  exact fun hmem => h ⟨ref, rfl, hmem⟩

theorem loadField_of_not_hasField (h : ¬ s.HasField id v) : ∃ e, loadField m s id v = .error e := by
  cases v with
  | object ref =>
    refine ⟨.unknown .field (fieldName m id), ?_⟩
    simp only [loadField, fieldReceiver, bind, Except.bind, field?_of_not_hasField h]
  | _ => exact ⟨_, rfl⟩

theorem storeField_of_not_hasField (h : ¬ s.HasField id v) (w : Value) :
    ∃ e, storeField m s id v w = .error e := by
  cases v with
  | object ref =>
    refine ⟨.unknown .field (fieldName m id), ?_⟩
    simp only [storeField, fieldReceiver, bind, Except.bind, field?_of_not_hasField h]
  | _ => exact ⟨_, rfl⟩

theorem loadField_of_hasField (h : s.HasField id v) : ∃ w, loadField m s id v = .ok w := by
  obtain ⟨ref, rfl, hmem⟩ := h
  obtain ⟨w, hw⟩ := Option.isSome_iff_exists.mp (Object.isSome_field?_iff.mpr hmem)
  refine ⟨w, ?_⟩
  simp only [loadField, fieldReceiver, bind, Except.bind, hw]

theorem storeField_of_hasField (h : s.HasField id v) (w : Value) :
    ∃ ref, v = .object ref ∧ storeField m s id v w = .ok (s.setField ref id w) := by
  obtain ⟨ref, rfl, hmem⟩ := h
  obtain ⟨old, hold⟩ := Option.isSome_iff_exists.mp (Object.isSome_field?_iff.mpr hmem)
  refine ⟨ref, rfl, ?_⟩
  simp only [storeField, fieldReceiver, bind, Except.bind, hold]

end Store

/-- In this store a field can be read and assigned just where an object has it; elsewhere that is a
fault, and nothing changes. -/
structure Store.GuardsFields (m : Module) (s : Store) : Prop where
  load : ∀ (limit : Nat) (k : Configuration) (id : UInt32) (f : Frame) (v : Value)
    (rest : List Value), k.store = s → k.frame.fetch = .ok (.loadField id, f) →
      k.frame.stack = v :: rest →
        (s.HasField id v →
          ∃ w, step m limit k = .running ⟨s, { f with stack := w :: rest }, k.callers⟩) ∧
        (¬ s.HasField id v → ∃ e, step m limit k = .faulted e s)
  store : ∀ (limit : Nat) (k : Configuration) (id : UInt32) (f : Frame) (v w : Value)
    (rest : List Value), k.store = s → k.frame.fetch = .ok (.storeField id, f) →
      k.frame.stack = w :: v :: rest →
        (s.HasField id v → ∃ ref, v = .object ref ∧
          step m limit k = .running ⟨s.setField ref id w, { f with stack := rest }, k.callers⟩) ∧
        (¬ s.HasField id v → ∃ e, step m limit k = .faulted e s)

theorem Store.guardsFields (m : Module) (s : Store) : s.GuardsFields m := by
  constructor
  · rintro limit k id f v rest rfl hfetch hstack
    have hs : f.stack = v :: rest := (Frame.stack_fetch hfetch).trans hstack
    have hexec : exec m k.store f (.loadField id) = loadField m k.store id v >>= fun w =>
        .ok (.next { f with stack := w :: rest } k.store) := by
      rw [exec, Frame.pop, hs]
      rfl
    rw [step_of_fetch hfetch, hexec]
    constructor
    · intro hfield
      obtain ⟨w, hw⟩ := loadField_of_hasField (m := m) hfield
      refine ⟨w, ?_⟩
      rw [hw]
      rfl
    · intro hfield
      obtain ⟨e, he⟩ := loadField_of_not_hasField (m := m) hfield
      refine ⟨e, ?_⟩
      rw [he]
      rfl
  · rintro limit k id f v w rest rfl hfetch hstack
    have hs : f.stack = w :: v :: rest := (Frame.stack_fetch hfetch).trans hstack
    have hexec : exec m k.store f (.storeField id) = storeField m k.store id v w >>= fun s =>
        .ok (.next { f with stack := rest } s) := by
      rw [exec, Frame.pop2, Frame.pop, hs]
      rfl
    rw [step_of_fetch hfetch, hexec]
    constructor
    · intro hfield
      obtain ⟨ref, rfl, hstored⟩ := storeField_of_hasField (m := m) hfield w
      refine ⟨ref, rfl, ?_⟩
      rw [hstored]
      rfl
    · intro hfield
      obtain ⟨e, he⟩ := storeField_of_not_hasField (m := m) hfield w
      refine ⟨e, ?_⟩
      rw [he]
      rfl

/-- In this store objects are made as instances of the class that was asked for, with the next
reference. -/
structure Store.Allocates (m : Module) (s : Store) : Prop where
  instr : ∀ (limit : Nat) (k k' : Configuration) (id : UInt32) (f : Frame), k.store = s →
    k.frame.fetch = .ok (.new id, f) → step m limit k = .running k' →
      k'.frame = f.push (.object s.heap.size) ∧
        ∃ o : Object, k'.store.heap[s.heap.size]? = some o ∧ o.classId = id ∧ o.Shaped m
  host : ∀ (h : Host) (className : String) (args : List Value) (v : Value) (s' : Store),
    h.module = m → h.newObject className args s = .ok v s' →
      v = .object s.heap.size ∧ ∃ (id : UInt32) (o : Object), m.findClass? className = some id ∧
        s'.heap[s.heap.size]? = some o ∧ o.classId = id ∧ o.Shaped m

theorem Store.getElem?_allocate (s : Store) (o : Object) :
    (s.allocate o).2.heap[s.heap.size]? = some o := Array.getElem?_push_size

theorem Store.allocates (m : Module) (s : Store) : s.Allocates m := by
  constructor
  · rintro limit k k' id f rfl hfetch hstep
    rw [step_of_fetch hfetch] at hstep
    cases hexec : exec m k.store f (.new id) with
    | error e =>
      rw [hexec] at hstep
      cases hstep
    | ok effect =>
      obtain ⟨o, ho, h⟩ := except_bind_eq_ok.mp hexec
      cases h
      rw [hexec] at hstep
      cases hstep
      exact ⟨rfl, o, k.store.getElem?_allocate o, shaped_of_newObject ho⟩
  · rintro h className args v s' rfl hok
    rw [h.newObject_eq] at hok
    obtain ⟨id, hid, hok⟩ := Host.exists_of_ofOption_bind hok
    obtain ⟨o, ho, hok⟩ := Host.exists_of_ofExcept_bind hok
    obtain ⟨_, s₁, hconstruct, hok⟩ := bind_eq_ok.mp hok
    cases hok
    obtain ⟨hclass, hshaped⟩ := shaped_of_newObject ho
    -- the constructor may assign fields of the object, but keeps what it is
    have hkeeps := (h.keeps_construct className id s.heap.size args).of_ok hconstruct
    obtain ⟨o', ho', hclass', hkeys⟩ := hkeeps.old _ o (s.getElem?_allocate o)
    refine ⟨rfl, id, o', hid, ho', hclass'.trans hclass, hkeys ▸ hshaped.nodup, fun field => ?_⟩
    rw [hkeys, hclass']
    exact hshaped.keys field

/-- Whatever has happened between two moments of a machine on any module, objects are of the same
class with the same fields as before, and those made in between are instances of their classes. -/
theorem instances_keep_shape (h : ReflTransGen (Moves m) s s') :
    s.Keeps m s' ∧ s'.Allocates m ∧ s'.GuardsFields m :=
  ⟨keeps_of_moves h, s'.allocates m, s'.guardsFields m⟩

/-- Points by tables that nothing has checked: the class lists one coordinate twice and a static
field between the two. The constructor assigns a coordinate, and then a field that points lack. -/
def points : Module := { Module.empty "Points" .library with
  functions := [⟨"new", some 0, 0, 1, [], 1,
    ([.loadLocal 0, .constI32 5, .storeField 0, .loadLocal 0, .constI32 6, .storeField 1,
      .retVoid] : List (Instr Int32)).flatMap Instr.encode |>.toArray, []⟩]
  classes := [⟨"Point", none, [], false, false, [0, 1, 2, 0], [], [0], []⟩]
  fields := [⟨"x", 0, .i32, false⟩, ⟨"count", 0, .i32, true⟩, ⟨"y", 0, .f64, false⟩] }

/-- The point is left with the coordinate that was assigned before the fault. -/
theorem instances_keep_shape_points : ∃ s : Store,
    final ((HostCall.newObject "Point" []).perform ⟨points, 256, 100⟩ .empty) = s ∧
      s = ⟨#[⟨0, [(0, .i32 5), (2, .f64 .zero)]⟩], []⟩ ∧ ReflTransGen (Moves points) .empty s ∧
      Store.empty.Keeps points s ∧ s.Allocates points ∧ s.GuardsFields points := by
  have hcall : final ((HostCall.newObject "Point" []).perform ⟨points, 256, 100⟩ .empty) =
      ⟨#[⟨0, [(0, .i32 5), (2, .f64 .zero)]⟩], []⟩ := by
    decide +kernel
  have hmove := Moves.call ⟨points, 256, 100⟩ rfl (.newObject "Point" []) .empty
  rw [hcall] at hmove
  exact ⟨_, hcall, rfl, .single hmove, instances_keep_shape (.single hmove)⟩

end Bytesmith.Machine
