import Bytesmith.Build.StaticType
import Bytesmith.Proofs.Frames

namespace Bytesmith.Code

def Module.Instantiable (m : Module) (id : UInt32) : Prop :=
  ∃ c, m.class? id = some c ∧ c.isAbstract = false ∧ c.isInterface = false

instance (m : Module) (id : UInt32) : Decidable (m.Instantiable id) :=
  inferInstanceAs (Decidable (∃ c ∈ m.class? id, c.isAbstract = false ∧ c.isInterface = false))

theorem Module.isAssignable_refl (m : Module) (id : UInt32) : m.isAssignable id id = true := by
  rw [isAssignable]
  cases m.classes.length <;> simp [reaches]

end Bytesmith.Code

namespace Bytesmith.Machine

open Code Bytesmith.Outcome
open Build (StaticType)

/-- Null conforms to every type, and other values to the types that are listed with them. -/
inductive Conforms (m : Module) (s : Store) : StaticType → Value → Prop
  | null (ty : StaticType) : Conforms m s ty .null
  | bool (b : Bool) : Conforms m s .bool (.bool b)
  | int (n : Int32) : Conforms m s .int (.i32 n)
  | enum (id : Nat) (name : String) (n : Int32) : Conforms m s (.enum id name) (.i32 n)
  | long (n : Int64) : Conforms m s .long (.i64 n)
  | double (x : Double) : Conforms m s .double (.f64 x)
  | string (t : String) : Conforms m s .string (.string t)
  | text (t : String) : Conforms m s .object (.string t)
  | object (ref : Nat) : Conforms m s .object (.object ref)
  | boxed (v : Value) : Conforms m s .object (.boxed v)
  | class (id : Nat) (name : String) (ref : Nat)
      (h : m.isAssignable (s.object ref).classId id.toUInt32 = true) :
      Conforms m s (.class id name) (.object ref)

namespace Conforms

variable {m : Module} {s : Store} {v : Value}

theorem default (ty : StaticType) : Conforms m s ty (.default ty.valueKind) := by
  cases ty <;> constructor

theorem of_isReference {ty : StaticType} (h : Conforms m s ty v) (hty : ty.isReference = true) :
    Conforms m s .object v := by
  cases h with
  | null => exact .null _
  | string t | text t => exact .text t
  | object ref | «class» _ _ ref => exact .object ref
  | boxed v => exact .boxed v
  | _ => cases hty

theorem of_kind {ty : StaticType} (hv : v.kind? = some ty.valueKind) (hty : ty.isValue = true) :
    Conforms m s ty v := by
  cases ty with
  | bool =>
    cases v <;> cases hv
    exact .bool _
  | int =>
    cases v <;> cases hv
    exact .int _
  | enum id name =>
    cases v <;> cases hv
    exact .enum id name _
  | long =>
    cases v <;> cases hv
    exact .long _
  | double =>
    cases v <;> cases hv
    exact .double _
  | _ => cases hty

theorem of_isInstance {ty : StaticType} {tag : TypeTag} (h : Conforms m s .object v)
    (hty : ty.tag? = some tag) (hv : isInstance m s v tag = true) : Conforms m s ty v := by
  cases ty with
  | object => exact h
  | string =>
    cases hty
    cases v with
    | string t => exact .string t
    | _ => cases hv
  | «class» id name =>
    cases hty
    cases v with
    | object ref => exact .class id name ref hv
    | _ => cases hv
  | _ => cases hty

end Conforms

def Value.ref? : Value → Option Nat
  | .object ref => some ref
  | .boxed v => v.ref?
  | _ => none

/-- The objects that can be come upon from some values and the static fields. -/
inductive Reachable (s : Store) (roots : List Value) : Nat → Prop
  | root {v : Value} {ref : Nat} (hv : v ∈ roots) (href : v.ref? = some ref) : Reachable s roots ref
  | static {id : UInt32} {v : Value} {ref : Nat} (hv : (id, v) ∈ s.statics)
      (href : v.ref? = some ref) : Reachable s roots ref
  | field {ref : Nat} {id : UInt32} {v : Value} {ref' : Nat} (h : Reachable s roots ref)
      (hv : (id, v) ∈ (s.object ref).fields) (href : v.ref? = some ref') :
      Reachable s roots ref'

structure World where
  store : Store
  live : Nat → Prop

structure World.Grows (W W' : World) : Prop where
  size : W.store.heap.size ≤ W'.store.heap.size
  classes : ∀ ref < W.store.heap.size,
    (W'.store.object ref).classId = (W.store.object ref).classId
  live : ∀ ref, W.live ref → W'.live ref

/-- The value conforms to the type, and refers to nothing that is not in use. -/
structure Suits (m : Module) (W : World) (ty : StaticType) (v : Value) : Prop where
  conforms : Conforms m W.store ty v
  live : ∀ ref, v.ref? = some ref → W.live ref

structure Kept (m : Module) (W : World) (ty? : Option StaticType) (v : Value) : Prop where
  conforms : ∀ ty, ty? = some ty → Conforms m W.store ty v
  live : ∀ ref, v.ref? = some ref → W.live ref

structure World.Sound (m : Module) (types : UInt32 → Option StaticType) (W : World) : Prop where
  inside : ∀ ref, W.live ref → ref < W.store.heap.size
  made : ∀ ref, W.live ref → m.Instantiable (W.store.object ref).classId
  fields : ∀ ref, W.live ref → ∀ id v, (id, v) ∈ (W.store.object ref).fields → Kept m W (types id) v
  statics : ∀ id v, (id, v) ∈ W.store.statics → Kept m W (types id) v

variable {m : Module} {types : UInt32 → Option StaticType} {W W' : World} {ty : StaticType}
  {v : Value}

namespace World.Grows

theorem refl (W : World) : W.Grows W := ⟨Nat.le_refl _, fun _ _ => rfl, fun _ h => h⟩

theorem trans {W'' : World} (h : W.Grows W') (h' : W'.Grows W'') : W.Grows W'' := by
  refine ⟨Nat.le_trans h.size h'.size, fun ref href => ?_, fun ref hl => h'.live ref (h.live ref hl)⟩
  rw [h'.classes ref (Nat.lt_of_lt_of_le href h.size), h.classes ref href]

theorem conforms (hg : W.Grows W') (hv : ∀ ref, v.ref? = some ref → ref < W.store.heap.size)
    (h : Conforms m W.store ty v) : Conforms m W'.store ty v := by
  cases h with
  | «class» id name ref h =>
    refine .class id name ref ?_
    rw [hg.classes ref (hv ref rfl)]
    exact h
  | null => exact .null _
  | bool b => exact .bool b
  | int n => exact .int n
  | enum id name n => exact .enum id name n
  | long n => exact .long n
  | double x => exact .double x
  | string t => exact .string t
  | text t => exact .text t
  | object ref => exact .object ref
  | boxed v => exact .boxed v

end World.Grows

theorem Suits.null (ty : StaticType) : Suits m W ty .null := ⟨.null ty, nofun⟩

theorem Suits.default (ty : StaticType) : Suits m W ty (.default ty.valueKind) := by
  refine ⟨.default ty, ?_⟩
  cases ty <;> exact nofun

theorem Suits.grow (h : Suits m W ty v) (hs : W.Sound m types) (hg : W.Grows W') :
    Suits m W' ty v :=
  ⟨hg.conforms (fun ref href => hs.inside ref (h.live ref href)) h.conforms,
    fun ref href => hg.live ref (h.live ref href)⟩

variable {ty? : Option StaticType} {id : UInt32} {a : Value}

theorem Kept.grow (h : Kept m W ty? v) (hs : W.Sound m types) (hg : W.Grows W') : Kept m W' ty? v :=
  ⟨fun ty hty => hg.conforms (fun ref href => hs.inside ref (h.live ref href)) (h.conforms ty hty),
    fun ref href => hg.live ref (h.live ref href)⟩

theorem Suits.kept (h : Suits m W ty v) (hty : ty? = some ty) : Kept m W ty? v := by
  refine ⟨fun ty' hty' => ?_, h.live⟩
  rw [hty] at hty'
  cases hty'
  exact h.conforms

namespace Store

variable {s : Store} {ref : Nat}

theorem object_allocate (o : Object) :
    (s.allocate o).2.object ref = if ref = s.heap.size then o else s.object ref := by
  rw [object, object, allocate, Array.getD_eq_getD_getElem?, Array.getElem?_push]
  split
  · rfl
  · rw [Array.getD_eq_getD_getElem?]

theorem object_setField {target : Nat} (href : ref < s.heap.size) (id : UInt32) (v : Value) :
    (s.setField target id v).object ref =
      if target = ref then (s.object ref).setField id v else s.object ref := by
  rw [object, object, setField, Array.getD_eq_getD_getElem?, Array.getD_eq_getD_getElem?,
    Array.getElem?_modify, Array.getElem?_eq_getElem href]
  split <;> rfl

end Store

namespace World.Sound

theorem allocate (hs : W.Sound m types) {o : Object} (hmade : m.Instantiable o.classId)
    (hfields : ∀ id v, (id, v) ∈ o.fields → Kept m W (types id) v) :
    W.Grows ⟨(W.store.allocate o).2, fun ref => W.live ref ∨ ref = W.store.heap.size⟩ ∧
      World.Sound m types
        ⟨(W.store.allocate o).2, fun ref => W.live ref ∨ ref = W.store.heap.size⟩ := by
  have hsize : (W.store.allocate o).2.heap.size = W.store.heap.size + 1 := Array.size_push ..
  have hg : W.Grows ⟨(W.store.allocate o).2, fun ref => W.live ref ∨ ref = W.store.heap.size⟩ := by
    refine ⟨?_, fun ref href => ?_, fun ref hl => .inl hl⟩
    · exact hsize ▸ Nat.le_succ _
    · exact congrArg Object.classId (by rw [Store.object_allocate, if_neg (Nat.ne_of_lt href)])
  have hobject {ref : Nat} (hl : W.live ref) :
      (W.store.allocate o).2.object ref = W.store.object ref := by
    rw [Store.object_allocate, if_neg (Nat.ne_of_lt (hs.inside ref hl))]
  have hnew : (W.store.allocate o).2.object W.store.heap.size = o := by
    rw [Store.object_allocate, if_pos rfl]
  refine ⟨hg, ?_, ?_, ?_, fun id v hv => (hs.statics id v hv).grow hs hg⟩
  · rintro ref (hl | rfl)
    · exact hsize ▸ Nat.lt_succ_of_lt (hs.inside ref hl)
    · exact hsize ▸ Nat.lt_succ_self _
  · rintro ref (hl | rfl)
    · exact (hobject hl).symm ▸ hs.made ref hl
    · exact hnew.symm ▸ hmade
  · rintro ref (hl | rfl) id v hv
    · exact (hs.fields ref hl id v (hobject hl ▸ hv)).grow hs hg
    · exact (hfields id v (hnew ▸ hv)).grow hs hg

theorem setField (hs : W.Sound m types) (ref : Nat) (hv : Kept m W (types id) v) :
    W.Grows ⟨W.store.setField ref id v, W.live⟩ ∧
      World.Sound m types ⟨W.store.setField ref id v, W.live⟩ := by
  have hsize : (W.store.setField ref id v).heap.size = W.store.heap.size := Array.size_modify ..
  have hclass {r : Nat} (hr : r < W.store.heap.size) :
      ((W.store.setField ref id v).object r).classId = (W.store.object r).classId := by
    rw [Store.object_setField hr]
    split <;> rfl
  have hg : W.Grows ⟨W.store.setField ref id v, W.live⟩ :=
    ⟨Nat.le_of_eq hsize.symm, fun r hr => hclass hr, fun _ hl => hl⟩
  refine ⟨hg, fun r hl => hsize ▸ hs.inside r hl, fun r hl => ?_, fun r hl id' v' hv' => ?_,
    fun id' v' hv' => (hs.statics id' v' hv').grow hs hg⟩
  · change m.Instantiable ((W.store.setField ref id v).object r).classId
    rw [hclass (hs.inside r hl)]
    exact hs.made r hl
  · change (id', v') ∈ ((W.store.setField ref id v).object r).fields at hv'
    rw [Store.object_setField (hs.inside r hl)] at hv'
    split at hv'
    · -- an entry is the new one or one that was there
      obtain ⟨⟨id₀, v₀⟩, hmem, heq⟩ := List.mem_map.mp hv'
      split at heq
      · cases heq
        exact hv.grow hs hg
      · cases heq
        exact (hs.fields r hl id' v' hmem).grow hs hg
    · exact (hs.fields r hl id' v' hv').grow hs hg

theorem setStatic (hs : W.Sound m types) (hv : Kept m W (types id) v) :
    W.Grows ⟨W.store.setStatic id v, W.live⟩ ∧
      World.Sound m types ⟨W.store.setStatic id v, W.live⟩ := by
  have hg : W.Grows ⟨W.store.setStatic id v, W.live⟩ :=
    ⟨Nat.le_refl _, fun _ _ => rfl, fun _ hl => hl⟩
  refine ⟨hg, hs.inside, hs.made, fun r hl id' v' hv' => (hs.fields r hl id' v' hv').grow hs hg,
    fun id' v' hv' => ?_⟩
  obtain hv' | hv' := List.mem_cons.mp hv'
  · cases hv'
    exact hv.grow hs hg
  · exact (hs.statics id' v' (List.mem_filter.mp hv').1).grow hs hg

end World.Sound

theorem newObject_eq_ok {o : Object} (h : newObject m id = .ok o) :
    o.classId = id ∧ m.Instantiable id ∧ ∀ f v, (f, v) ∈ o.fields →
      v = ((m.field? f).map fun info => Value.default info.kind).getD .null := by
  unfold newObject at h
  split at h
  · cases h
  · rename_i c hc
    split at h
    · cases h
    · rename_i hkind
      cases h
      rw [Bool.or_eq_true, not_or, Bool.not_eq_true, Bool.not_eq_true] at hkind
      refine ⟨rfl, ⟨c, hc, hkind⟩, fun f v hv => ?_⟩
      obtain ⟨f', -, heq⟩ := List.mem_map.mp hv
      cases heq
      rfl

theorem mem_of_lookup {fields : List (UInt32 × Value)} (h : fields.lookup id = some v) :
    (id, v) ∈ fields := by
  obtain ⟨before, after, rfl, -⟩ := List.lookup_eq_some_iff.mp h
  exact List.mem_append_right _ (.head _)

theorem loadField_eq_ok {s : Store} {receiver : Value} (h : loadField m s id receiver = .ok v) :
    ∃ ref, receiver = .object ref ∧ (id, v) ∈ (s.object ref).fields := by
  obtain ⟨ref, href, hvalue⟩ := except_bind_eq_ok.mp h
  cases receiver with
  | object ref' =>
    cases href
    split at hvalue
    · rename_i hfield
      cases hvalue
      exact ⟨ref, rfl, mem_of_lookup hfield⟩
    · cases hvalue
  | _ => cases href

theorem loadStatic_eq_ok {s : Store} (h : loadStatic m s id = .ok v) :
    (id, v) ∈ s.statics ∨ ∃ info, m.field? id = some info ∧ v = .default info.kind := by
  unfold loadStatic at h
  split at h
  · rename_i info hinfo
    cases h
    cases hlookup : s.statics.lookup id with
    | none => exact .inr ⟨info, hinfo, rfl⟩
    | some v => exact .inl (mem_of_lookup hlookup)
  · cases h

theorem arith_suits {kind : Numeric} {op : Arithmetic} {b : Value} (h : arith kind op a b = .ok v) :
    Suits m W (.ofNumeric kind) v := by
  cases kind with
  | i32 =>
    obtain ⟨x, -, h⟩ := except_bind_eq_ok.mp h
    obtain ⟨y, -, h⟩ := except_bind_eq_ok.mp h
    obtain ⟨z, -, h⟩ := except_bind_eq_ok.mp h
    cases h
    exact ⟨.int z, nofun⟩
  | i64 =>
    obtain ⟨x, -, h⟩ := except_bind_eq_ok.mp h
    obtain ⟨y, -, h⟩ := except_bind_eq_ok.mp h
    obtain ⟨z, -, h⟩ := except_bind_eq_ok.mp h
    cases h
    exact ⟨.long z, nofun⟩
  | f64 =>
    obtain ⟨x, -, h⟩ := except_bind_eq_ok.mp h
    obtain ⟨y, -, h⟩ := except_bind_eq_ok.mp h
    cases h
    exact ⟨.double _, nofun⟩

def widened : Widening → StaticType
  | .i32ToI64 => .long
  | .i32ToF64 | .i64ToF64 => .double

theorem widen_suits {w : Widening} (h : widen w a = .ok v) : Suits m W (widened w) v := by
  cases w with
  | i32ToI64 =>
    obtain ⟨x, -, h⟩ := except_bind_eq_ok.mp h
    cases h
    exact ⟨.long _, nofun⟩
  | i32ToF64 | i64ToF64 =>
    obtain ⟨x, -, h⟩ := except_bind_eq_ok.mp h
    cases h
    exact ⟨.double _, nofun⟩

theorem concat_suits {b : Value} (h : concat a b = .ok v) : Suits m W .string v := by
  obtain ⟨x, -, h⟩ := except_bind_eq_ok.mp h
  obtain ⟨y, -, h⟩ := except_bind_eq_ok.mp h
  cases h
  exact ⟨.string _, nofun⟩

theorem unbox_suits (h : unbox m W.store ty.valueKind a = .ok v) (hty : ty.isValue = true)
    (ha : ∀ ref, a.ref? = some ref → W.live ref) : Suits m W ty v := by
  cases a with
  | boxed inner =>
    unfold unbox at h
    dsimp only at h
    split at h
    · rename_i hkind
      cases h
      exact ⟨.of_kind hkind hty, ha⟩
    · cases h
  | _ => cases h

theorem cast_suits {tag : TypeTag} (h : cast m W.store tag a = .ok v) (hty : ty.tag? = some tag)
    (ha : Suits m W .object a) : Suits m W ty v := by
  unfold cast at h
  split at h
  · rename_i hinstance
    cases h
    rw [Bool.or_eq_true, decide_eq_true_eq] at hinstance
    obtain rfl | hinstance := hinstance
    · exact .null ty
    · exact ⟨ha.conforms.of_isInstance hty hinstance, ha.live⟩
  · cases h

end Bytesmith.Machine
