import Bytesmith.Build.Command
import Bytesmith.Proofs.Outcome

namespace Bytesmith.Code.Pool

def Extends (q p : Pool) : Prop := ∃ added : List String, q = added.foldl insert p

theorem Extends.refl (p : Pool) : p.Extends p := ⟨[], rfl⟩

theorem Extends.trans {p q r : Pool} (h : r.Extends q) (h' : q.Extends p) : r.Extends p := by
  obtain ⟨later, rfl⟩ := h
  obtain ⟨added, rfl⟩ := h'
  exact ⟨added ++ later, List.foldl_append.symm⟩

theorem extends_add (p : Pool) (s : String) : (p.add s).2.Extends p := ⟨[s], rfl⟩

theorem isPrefix_insert (p : Pool) (s : String) : p.strings <+: (p.insert s).strings := by
  unfold insert add
  cases p.strings.idxOf? s with
  | some i => exact List.prefix_refl _
  | none => exact List.prefix_append _ _

theorem Extends.isPrefix {p q : Pool} (h : q.Extends p) : p.strings <+: q.strings := by
  obtain ⟨added, rfl⟩ := h
  induction added generalizing p with
  | nil => exact List.prefix_refl _
  | cons s added ih => exact (p.isPrefix_insert s).trans ih

def indexOf (p : Pool) (s : String) : UInt32 := ((p.strings.idxOf? s).getD 0).toUInt32

theorem idxOf?_prefix {a b : List String} (h : a <+: b) {s : String} {i : Nat}
    (hi : a.idxOf? s = some i) : b.idxOf? s = some i := by
  obtain ⟨c, rfl⟩ := h
  rw [List.idxOf?, List.findIdx?_append, ← List.idxOf?, hi, Option.some_or]

theorem mem_of_idxOf? {a : List String} {s : String} {i : Nat} (h : a.idxOf? s = some i) :
    s ∈ a := by
  rw [← List.isSome_idxOf?, h]
  rfl

theorem indexOf_of_idxOf? {p : Pool} {s : String} {i : Nat} (h : p.strings.idxOf? s = some i) :
    p.indexOf s = i.toUInt32 := by
  rw [indexOf, h, Option.getD_some]

theorem add_spec (p : Pool) (s : String) {q : Pool} (hq : q.Extends (p.add s).2) :
    q.Extends p ∧ s ∈ q.strings ∧ (p.add s).1 = q.indexOf s := by
  refine ⟨hq.trans (p.extends_add s), ?_⟩
  unfold add at hq ⊢
  cases h : p.strings.idxOf? s with
  | some i =>
    simp only [h] at hq ⊢
    have hi := idxOf?_prefix hq.isPrefix h
    exact ⟨mem_of_idxOf? hi, (indexOf_of_idxOf? hi).symm⟩
  | none =>
    simp only [h] at hq ⊢
    have hadded : (p.strings ++ [s]).idxOf? s = some p.strings.length := by
      rw [List.idxOf?, List.findIdx?_append, ← List.idxOf?, h]
      simp
    have hi := idxOf?_prefix hq.isPrefix hadded
    exact ⟨mem_of_idxOf? hi, (indexOf_of_idxOf? hi).symm⟩

end Bytesmith.Code.Pool

namespace Bytesmith.Build

open Code Outcome

namespace Emitter

def mark (e : Emitter) (l : Label) : Emitter := { e with marks := (l, e.offset) :: e.marks }

def leave (e : Emitter) (l : Label) : Emitter := if e.canFallThrough then e.push (.jump l) else e

def openRegion (e : Emitter) : Emitter :=
  { e with
    nextLabel := e.nextLabel + 1
    regions := ⟨e.offset, none, ⟨e.nextLabel⟩, 0⟩ :: e.regions }

def openCatch (e : Emitter) (region : Region) (outer : List Region) (tag : TypeTag) : Emitter :=
  let tryEnd := region.tryEnd.getD e.offset
  let left := e.leave region.endLabel
  { left with
    handlers := left.handlers ++
      [⟨region.tryStart.toUInt32, tryEnd.toUInt32, left.offset.toUInt32, tag⟩]
    regions := { region with tryEnd := some tryEnd, catches := region.catches + 1 } :: outer }

def closeRegion (e : Emitter) (region : Region) (outer : List Region) : Emitter :=
  ({ e with regions := outer }.leave region.endLabel).mark region.endLabel

theorem leave_eq (e : Emitter) (l : Label) :
    e.canFallThrough = true ∧ e.leave l = e.push (.jump l) ∨
      e.canFallThrough = false ∧ e.leave l = e := by
  unfold leave
  cases h : e.canFallThrough <;> simp

@[simp]
theorem marks_leave (e : Emitter) (l : Label) : (e.leave l).marks = e.marks := by
  obtain ⟨-, h⟩ | ⟨-, h⟩ := e.leave_eq l <;> rw [h] <;> rfl

@[simp]
theorem handlers_leave (e : Emitter) (l : Label) : (e.leave l).handlers = e.handlers := by
  obtain ⟨-, h⟩ | ⟨-, h⟩ := e.leave_eq l <;> rw [h] <;> rfl

@[simp]
theorem regions_leave (e : Emitter) (l : Label) : (e.leave l).regions = e.regions := by
  obtain ⟨-, h⟩ | ⟨-, h⟩ := e.leave_eq l <;> rw [h] <;> rfl

@[simp]
theorem localCount_leave (e : Emitter) (l : Label) : (e.leave l).localCount = e.localCount := by
  obtain ⟨-, h⟩ | ⟨-, h⟩ := e.leave_eq l <;> rw [h] <;> rfl

theorem isMarked_leave (e : Emitter) (l l' : Label) : (e.leave l).isMarked l' = e.isMarked l' := by
  rw [isMarked, position?, marks_leave]
  rfl

end Emitter

inductive Action
  | put (i : Instr Label)
  /-- Pushes a string by its index among the constants. -/
  | putString (s : String)
  | mark (l : Label)
  | leave (l : Label)
  | openRegion
  | openCatch (tag : TypeTag)
  | closeRegion

inductive Action.Acts (q : Pool) : Action → Emitter → Emitter → Prop
  | put (i : Instr Label) (e : Emitter) : Acts q (.put i) e (e.push i)
  | putString {s : String} (h : s ∈ q.strings) (e : Emitter) :
      Acts q (.putString s) e (e.push (.constStr (q.indexOf s)))
  | mark {l : Label} {e : Emitter} (h : e.isMarked l = false) : Acts q (.mark l) e (e.mark l)
  | leave (l : Label) (e : Emitter) : Acts q (.leave l) e (e.leave l)
  | openRegion (e : Emitter) : Acts q .openRegion e e.openRegion
  | openCatch {e : Emitter} {region : Region} {outer : List Region}
      (h : e.regions = region :: outer) (tag : TypeTag) :
      Acts q (.openCatch tag) e (e.openCatch region outer tag)
  | closeRegion {e : Emitter} {region : Region} {outer : List Region}
      (h : e.regions = region :: outer) (hcatches : region.catches ≠ 0)
      (hmark : e.isMarked region.endLabel = false) :
      Acts q .closeRegion e (e.closeRegion region outer)

theorem Action.Acts.put_inv {q : Pool} {i : Instr Label} {e e' : Emitter}
    (h : Acts q (.put i) e e') : e' = e.push i := by
  cases h
  rfl

inductive Runs (q : Pool) : Emitter → List Action → Emitter → Prop
  | nil (e : Emitter) : Runs q e [] e
  | cons {e e' e'' : Emitter} {a : Action} {actions : List Action} (h : a.Acts q e e')
      (rest : Runs q e' actions e'') : Runs q e (a :: actions) e''

namespace Runs

variable {q : Pool} {e e' e'' : Emitter} {a b : List Action}

theorem single {action : Action} (h : action.Acts q e e') : Runs q e [action] e' := .cons h (.nil e')

theorem single_inv {action : Action} (h : Runs q e [action] e') : action.Acts q e e' := by
  cases h with
  | cons hact rest =>
    cases rest
    exact hact

theorem put_inv {i : Instr Label} (h : Runs q e (.put i :: a) e') : Runs q (e.push i) a e' := by
  cases h with
  | cons hact rest =>
    cases hact
    exact rest

theorem leave_inv {l : Label} (h : Runs q e (.leave l :: a) e') : Runs q (e.leave l) a e' := by
  cases h with
  | cons hact rest =>
    cases hact
    exact rest

theorem mark_inv {l : Label} (h : Runs q e (.mark l :: a) e') :
    e.isMarked l = false ∧ Runs q (e.mark l) a e' := by
  cases h with
  | cons hact rest =>
    cases hact with
    | mark hm => exact ⟨hm, rest⟩

theorem append (h : Runs q e a e') (h' : Runs q e' b e'') : Runs q e (a ++ b) e'' := by
  induction h with
  | nil e => exact h'
  | cons hact _ ih => exact .cons hact (ih h')

theorem append_inv (h : Runs q e (a ++ b) e'') : ∃ e', Runs q e a e' ∧ Runs q e' b e'' := by
  induction a generalizing e with
  | nil => exact ⟨e, .nil e, h⟩
  | cons action a ih =>
    cases h with
    | cons hact rest =>
      obtain ⟨e', ha, hb⟩ := ih rest
      exact ⟨e', .cons hact ha, hb⟩

end Runs

namespace EmitM

variable {α : Type} {e e' : Emitter}

theorem ensureOpen_of_open (he : e.isFinished = false) : ensureOpen e = .ok () e := by
  rw [ensureOpen, get_bind, he]
  rfl

theorem ensureOpen_of_finished (he : e.isFinished = true) :
    ensureOpen e = .error (.invalidOperation (.finishedEmitter e.name)) e := by
  rw [ensureOpen, get_bind, if_pos he]
  rfl

theorem ensureOpen_bind_eq_ok {f : Unit → EmitM α} {a : α} :
    (ensureOpen >>= f) e = .ok a e' ↔ e.isFinished = false ∧ f () e = .ok a e' := by
  cases h : e.isFinished with
  | true =>
    rw [bind_of_error (ensureOpen_of_finished h)]
    simp
  | false =>
    rw [bind_of_ok (ensureOpen_of_open h)]
    simp

theorem finish_eq_ok {body : Body} (h : finish e = .ok body e') :
    e' = { e with isFinished := true } ∧ body = ⟨e'.bytes.toArray, e.localCount, e.handlers⟩ := by
  obtain ⟨-, h⟩ := ensureOpen_bind_eq_ok.mp h
  rw [get_bind] at h
  obtain ⟨-, h⟩ := guard_eq_ok.mp h
  split at h
  · cases h
  · cases h
    exact ⟨rfl, rfl⟩

/-- Whenever the computation succeeds it has carried out the actions. -/
def Emits (x : EmitM α) (actions : List Action) : Prop :=
  ∀ q e a e', x e = .ok a e' → Runs q e actions e'

theorem emits_emit (i : Instr Label) : Emits (emit i) [.put i] := by
  intro q e a e' h
  obtain ⟨-, h⟩ := ensureOpen_bind_eq_ok.mp h
  cases h
  exact .single (.put i e)

theorem emits_emitBox (kind : ValueKind) : Emits (emitBox kind) [.put (.box kind.toByte)] := by
  intro q e a e' h
  obtain ⟨-, h⟩ := ensureOpen_bind_eq_ok.mp h
  by_cases hk : kind = .reference
  · rw [if_pos hk] at h
    cases h
  · rw [if_neg hk] at h
    cases h
    exact .single (.put _ e)

theorem emits_emitUnbox (kind : ValueKind) : Emits (emitUnbox kind) [.put (.unbox kind.toByte)] := by
  intro q e a e' h
  obtain ⟨-, h⟩ := ensureOpen_bind_eq_ok.mp h
  by_cases hk : kind = .reference
  · rw [if_pos hk] at h
    cases h
  · rw [if_neg hk] at h
    cases h
    exact .single (.put _ e)

theorem markLabel_eq_ok {l : Label} {u : Unit} (h : markLabel l e = .ok u e') :
    e.isMarked l = false ∧ e' = e.mark l := by
  obtain ⟨-, h⟩ := ensureOpen_bind_eq_ok.mp h
  rw [get_bind] at h
  cases hm : e.isMarked l with
  | true =>
    rw [if_pos hm] at h
    cases h
  | false =>
    rw [if_neg (by simp [hm])] at h
    cases h
    exact ⟨rfl, rfl⟩

theorem emits_markLabel (l : Label) : Emits (markLabel l) [.mark l] := by
  intro q e u e' h
  obtain ⟨hm, rfl⟩ := markLabel_eq_ok h
  exact .single (.mark hm)

theorem leaveTo_eq_ok {l : Label} {u : Unit} (h : leaveTo l e = .ok u e') : e' = e.leave l := by
  rw [leaveTo, get_bind] at h
  rw [Emitter.leave]
  cases hc : e.canFallThrough with
  | true =>
    rw [if_pos hc] at h
    obtain ⟨-, h⟩ := ensureOpen_bind_eq_ok.mp h
    cases h
    rfl
  | false =>
    rw [if_neg (by simp [hc])] at h
    cases h
    rfl

theorem emits_leaveTo (l : Label) : Emits (leaveTo l) [.leave l] := by
  intro q e u e' h
  rw [leaveTo_eq_ok h]
  exact .single (.leave l e)

theorem emits_beginTry : Emits beginTry [.openRegion] := by
  intro q e l e' h
  obtain ⟨-, h⟩ := ensureOpen_bind_eq_ok.mp h
  cases h
  exact .single (.openRegion e)

theorem emits_beginCatch (tag : TypeTag) : Emits (beginCatch tag) [.openCatch tag] := by
  intro q e u e' h
  obtain ⟨-, h⟩ := ensureOpen_bind_eq_ok.mp h
  rw [get_bind] at h
  cases hr : e.regions with
  | nil =>
    simp only [hr] at h
    cases h
  | cons region outer =>
    simp only [hr] at h
    obtain ⟨u, t, hleave, h⟩ := bind_eq_ok.mp h
    obtain rfl := leaveTo_eq_ok hleave
    cases h
    exact .single (.openCatch hr tag)

theorem emits_endTry : Emits endTry [.closeRegion] := by
  intro q e u e' h
  obtain ⟨-, h⟩ := ensureOpen_bind_eq_ok.mp h
  rw [get_bind] at h
  cases hr : e.regions with
  | nil =>
    simp only [hr] at h
    cases h
  | cons region outer =>
    simp only [hr] at h
    by_cases hc : region.catches = 0
    · rw [if_pos hc] at h
      cases h
    · rw [if_neg hc, set_bind] at h
      obtain ⟨u, t, hleave, h⟩ := bind_eq_ok.mp h
      obtain rfl := leaveTo_eq_ok hleave
      obtain ⟨hm, rfl⟩ := markLabel_eq_ok h
      refine .single (.closeRegion hr hc ?_)
      rwa [Emitter.isMarked_leave] at hm

end EmitM

namespace CodeM

variable {α : Type}

def Grows (o o' : Output) : Prop := o'.constants.Extends o.constants

instance : Std.Refl Grows := ⟨fun o => .refl o.constants⟩

instance : Trans Grows Grows Grows := ⟨fun h h' => h'.trans h⟩

/-- The computation only adds constants, and whenever it succeeds it has carried out the actions,
with every pool the constants may still grow into. -/
def Writes (x : CodeM α) (actions : List Action) : Prop :=
  Leads Grows x ∧ ∀ o a o', x o = .ok a o' →
    ∀ q : Pool, q.Extends o'.constants → Runs q o.emitter actions o'.emitter

theorem Writes.pure (a : α) : Writes (pure a) [] := by
  refine ⟨.pure a, fun o b o' h q _ => ?_⟩
  cases h
  exact .nil _

theorem Writes.throw (e : BuildError) (actions : List Action) :
    Writes (throw e : CodeM α) actions := by
  refine ⟨.throw e, fun o a o' h => ?_⟩
  cases h

theorem Writes.bind {β : Type} {x : CodeM α} {f : α → CodeM β} {a b : List Action}
    (hx : Writes x a) (hf : ∀ r, Writes (f r) b) : Writes (x >>= f) (a ++ b) := by
  refine ⟨hx.1.bind fun r => (hf r).1, fun o r o'' h q hq => ?_⟩
  obtain ⟨v, o', hv, hr⟩ := bind_eq_ok.mp h
  have hgrow := (hf v).1.of_ok hr
  exact (hx.2 o v o' hv q (hq.trans hgrow)).append ((hf v).2 o' r o'' hr q hq)

theorem Writes.map {β : Type} {x : CodeM α} {actions : List Action} (h : Writes x actions)
    (g : α → β) : Writes (g <$> x) actions := by
  rw [map_eq_pure_bind, ← List.append_nil actions]
  exact h.bind fun _ => .pure _

theorem leads_emitting (x : EmitM α) : Leads Grows (emitting x) := by
  intro o
  unfold emitting
  cases x o.emitter with
  | ok | error => exact Pool.Extends.refl o.constants

theorem writes_emitting {x : EmitM α} {actions : List Action} (h : EmitM.Emits x actions) :
    Writes (emitting x) actions := by
  refine ⟨leads_emitting x, fun o a o' hx q _ => ?_⟩
  unfold emitting at hx
  cases hr : x o.emitter with
  | ok v e =>
    simp only [hr] at hx
    cases hx
    exact h q _ _ _ hr
  | error err e =>
    simp only [hr] at hx
    cases hx

theorem writes_emit (i : Instr Label) : Writes (emit i) [.put i] :=
  writes_emitting (EmitM.emits_emit i)

theorem emitString_eq (s : String) (o : Output) :
    emitString s o =
      emit (.constStr (o.constants.add s).1) { o with constants := (o.constants.add s).2 } := rfl

theorem writes_emitString (s : String) : Writes (emitString s) [.putString s] := by
  constructor
  · intro o
    rw [emitString_eq]
    exact Pool.Extends.trans ((writes_emit _).1 _) (Pool.extends_add o.constants s)
  · intro o u o' h q hq
    rw [emitString_eq] at h
    have hgrow := (writes_emit _).1.of_ok h
    obtain ⟨-, hmem, hindex⟩ := Pool.add_spec o.constants s (hq.trans hgrow)
    have he := ((writes_emit _).2 _ _ _ h q hq).single_inv.put_inv
    rw [hindex] at he
    rw [he]
    exact .single (.putString hmem o.emitter)

theorem writes_forM {β : Type} {f : β → CodeM Unit} {g : β → List Action}
    (h : ∀ b, Writes (f b) (g b)) (bs : List β) : Writes (bs.forM f) (bs.flatMap g) := by
  induction bs with
  | nil => exact .pure _
  | cons b bs ih => exact (h b).bind fun _ => ih

end CodeM

open CodeM

def Literal.loads : Literal → List Action
  | .null => [.put .constNull]
  | .bool b => [.put (.constBool b)]
  | .i32 n => [.put (.constI32 n)]
  | .i64 n => [.put (.constI64 n)]
  | .f64 x => [.put (.constF64 x)]
  | .string s => [.putString s]
  | .enum _ _ value => [.put (.constI32 value)]

theorem Literal.writes_load (l : Literal) : Writes l.load l.loads := by
  cases l with
  | string s => exact writes_emitString s
  | _ => exact writes_emit _

namespace Member

def loads (m : Member) (isStatic : Bool) : List Action :=
  match m.access with
  | .field id _ => [.put (if isStatic then .loadStatic id.toUInt32 else .loadField id.toUInt32)]
  | .property _ getter _ => getter.toList.map fun g => .put (.call .method g.toUInt32 0)

def saves (m : Member) (isStatic : Bool) : List Action :=
  match m.access with
  | .field id _ => [.put (if isStatic then .storeStatic id.toUInt32 else .storeField id.toUInt32)]
  | .property _ _ setter => setter.toList.map fun s => .put (.call .method s.toUInt32 1)

theorem writes_load (m : Member) (isStatic : Bool) : Writes (m.load isStatic) (m.loads isStatic) := by
  obtain ⟨name, ty, access⟩ := m
  cases access with
  | field id writable => exact writes_emit _
  | property id getter setter =>
    cases getter with
    | none => exact .throw _ _
    | some method => exact writes_emit _

theorem writes_save (m : Member) (isStatic : Bool) : Writes (m.save isStatic) (m.saves isStatic) := by
  obtain ⟨name, ty, access⟩ := m
  cases access with
  | field id writable => exact writes_emit _
  | property id getter setter =>
    cases setter with
    | none => exact .throw _ _
    | some method => exact writes_emit _

end Member

namespace Variable

def loads : Variable → List Action
  | .slot _ index _ _ => [.put (.loadLocal index)]
  | .constant value => value.loads
  | .own m => .put (.loadLocal 0) :: m.loads false
  | .of object m => object.loads ++ m.loads false
  | .shared _ m => m.loads true

def receives : Variable → List Action
  | .own _ => [.put (.loadLocal 0)]
  | .of object _ => object.loads
  | _ => []

def saves : Variable → List Action
  | .slot _ index _ _ => [.put (.storeLocal index)]
  | .constant _ => []
  | .own m | .of _ m => m.saves false
  | .shared _ m => m.saves true

theorem writes_load (v : Variable) : Writes v.load v.loads := by
  induction v with
  | slot method index name ty => exact writes_emit _
  | constant value => exact value.writes_load
  | own m => exact (writes_emit _).bind fun _ => m.writes_load false
  | of object m ih => exact ih.bind fun _ => m.writes_load false
  | shared type m => exact m.writes_load true

theorem writes_loadReceiver (v : Variable) : Writes v.loadReceiver v.receives := by
  cases v with
  | own m => exact writes_emit _
  | of object m => exact object.writes_load
  | _ => exact .pure _

theorem writes_save (v : Variable) : Writes v.save v.saves := by
  cases v with
  | slot method index name ty => exact writes_emit _
  | constant value => exact .throw _ _
  | own m | of _ m => exact m.writes_save false
  | shared type m => exact m.writes_save true

theorem writes_saveAny (result : Option Variable) :
    Writes (match result with | some r => r.save | _ => pure ()) (result.toList.flatMap saves) := by
  cases result with
  | none => exact .pure _
  | some r =>
    rw [Option.toList_some, List.flatMap_singleton]
    exact r.writes_save

end Variable

def Coercion.converts : Coercion → List Action
  | .none => []
  | .widen w => [.put (.widen w)]
  | .box kind => [.put (.box kind.toByte)]
  | .unbox kind => [.put (.unbox kind.toByte)]
  | .cast tag => [.put (.cast tag)]

theorem Coercion.writes_emit (c : Coercion) : Writes (CodeM.emitting c.emit) c.converts := by
  cases c with
  | none => exact .pure _
  | widen | cast => exact CodeM.writes_emit _
  | box kind => exact writes_emitting (EmitM.emits_emitBox kind)
  | unbox kind => exact writes_emitting (EmitM.emits_emitUnbox kind)

def Variable.widens (v : Variable) (target : StaticType) : List Action :=
  v.loads ++ (v.ty.widening? target).toList.map fun w => .put (.widen w)

theorem writes_loadWidened (v : Variable) (target : StaticType) :
    Writes (loadWidened v target) (v.widens target) := by
  refine v.writes_load.bind fun _ => ?_
  cases v.ty.widening? target with
  | none => exact .pure _
  | some w => exact CodeM.writes_emit _

namespace Condition

def operand (c : Condition) (v : Variable) : List Action :=
  match c.widenTo with
  | some target => v.widens target
  | none => v.loads

def branches (c : Condition) (l : Label) : List Action :=
  c.operand c.left ++ (c.operand c.right ++ [.put (.branch c.comparison.failureTest l)])

theorem writes_loadOperand (c : Condition) (v : Variable) :
    Writes (c.loadOperand v) (c.operand v) := by
  obtain ⟨left, comparison, right, widenTo⟩ := c
  cases widenTo with
  | none => exact v.writes_load
  | some target => exact writes_loadWidened v target

theorem writes_branchUnless (c : Condition) (l : Label) :
    Writes (c.branchUnless l) (c.branches l) :=
  (c.writes_loadOperand c.left).bind fun _ =>
    (c.writes_loadOperand c.right).bind fun _ => CodeM.writes_emit _

end Condition

namespace Argument

def loads (a : Argument) : List Action := a.value.loads ++ a.coercion.converts

theorem writes_load (a : Argument) : Writes a.load a.loads :=
  a.value.writes_load.bind fun _ => a.coercion.writes_emit

end Argument

namespace Command

def actions : Command → List Action
  | .arithmetic op left right ty result =>
    left.widens ty ++ (right.widens ty ++ ((ty.arithmetic? op).toList.map .put ++ result.saves))
  | .assign target source coercion =>
    target.receives ++ (source.loads ++ (coercion.converts ++ target.saves))
  | .newObject type constructor args result =>
    (type.classId?.toList.map fun id => .put (.new id.toUInt32)) ++
      ((constructor.toList.flatMap fun target => args.flatMap Argument.loads ++
        [.put (.call .constructor target.method.toUInt32 args.length.toUInt16)]) ++ result.saves)
  | .call target receiver args result =>
    receiver.toList.flatMap Variable.loads ++ (args.flatMap Argument.loads ++
      (.put (.call target.mode target.method.toUInt32 args.length.toUInt16) ::
        ((if target.isConstructor then [.put .pop] else []) ++
          result.toList.flatMap Variable.saves)))
  | .box value result => value.loads ++ (.put (.box value.ty.valueKind.toByte) :: result.saves)
  | .unbox value ty result => value.loads ++ (.put (.unbox ty.valueKind.toByte) :: result.saves)
  | .cast value ty result =>
    value.loads ++ ((ty.tag?.toList.map fun tag => .put (.cast tag)) ++ result.saves)
  | .raise value => value.loads ++ [.put .raise]
  | .defineLocal _ => []
  | .ifBegin c elseLabel _ => c.branches elseLabel
  | .elseIf c previousElse elseLabel finalLabel =>
    .leave finalLabel :: .mark previousElse :: c.branches elseLabel
  | .elseBegin previousElse finalLabel => [.leave finalLabel, .mark previousElse]
  | .endIf pendingElse finalLabel => pendingElse.toList.map .mark ++ [.mark finalLabel]
  | .whileBegin c startLabel endLabel => .mark startLabel :: c.branches endLabel
  | .endWhile startLabel endLabel => [.put (.jump startLabel), .mark endLabel]
  | .tryBegin => [.openRegion]
  | .catchBegin ty v => (ty.tag?.toList.map .openCatch) ++ v.saves
  | .endTry => [.closeRegion]
  | .ret (some (value, coercion)) _ => value.loads ++ (coercion.converts ++ [.put .ret])
  | .ret none _ => [.put .retVoid]

theorem writes_pop (target : CallTarget) {x : CodeM Unit} {actions : List Action}
    (h : Writes x actions) :
    Writes (if target.isConstructor = true then CodeM.emit .pop >>= fun _ => x else x)
      ((if target.isConstructor then [.put .pop] else []) ++ actions) := by
  cases target.isConstructor with
  | true => exact (CodeM.writes_emit _).bind fun _ => h
  | false => exact h

theorem writes_emit (c : Command) : Writes c.emit c.actions := by
  cases c with
  | arithmetic op left right ty result =>
    cases h : (ty.arithmetic? op : Option (Instr Label)) with
    | none =>
      simp only [emit, h]
      exact .throw _ _
    | some instr =>
      simp only [emit, actions, h]
      exact (writes_loadWidened left ty).bind fun _ => (writes_loadWidened right ty).bind fun _ =>
        (CodeM.writes_emit _).bind fun _ => result.writes_save
  | assign target source coercion =>
    exact target.writes_loadReceiver.bind fun _ => source.writes_load.bind fun _ =>
      coercion.writes_emit.bind fun _ => target.writes_save
  | newObject type constructor args result =>
    cases h : type.classId? with
    | none =>
      simp only [emit, h]
      exact .throw _ _
    | some id =>
      simp only [emit, actions, h]
      refine (CodeM.writes_emit _).bind fun _ => ?_
      cases constructor with
      | none => exact result.writes_save
      | some target =>
        simp only [Option.toList_some, List.flatMap_singleton, List.append_assoc]
        exact (writes_forM Argument.writes_load args).bind fun _ =>
          (CodeM.writes_emit _).bind fun _ => result.writes_save
  | call target receiver args result =>
    have hcall := (writes_forM Argument.writes_load args).bind fun _ =>
      (CodeM.writes_emit (.call target.mode target.method.toUInt32 args.length.toUInt16)).bind
        fun _ => writes_pop target (Variable.writes_saveAny result)
    simp only [emit, actions]
    cases receiver with
    | none => exact hcall
    | some r =>
      rw [Option.toList_some, List.flatMap_singleton]
      exact r.writes_load.bind fun _ => hcall
  | box value result =>
    exact value.writes_load.bind fun _ =>
      (writes_emitting (EmitM.emits_emitBox _)).bind fun _ => result.writes_save
  | unbox value ty result =>
    exact value.writes_load.bind fun _ =>
      (writes_emitting (EmitM.emits_emitUnbox _)).bind fun _ => result.writes_save
  | cast value ty result =>
    cases h : ty.tag? with
    | none =>
      simp only [emit, tagFor, h]
      exact .throw _ _
    | some tag =>
      simp only [emit, actions, tagFor, h]
      exact value.writes_load.bind fun _ => (CodeM.writes_emit _).bind fun _ => result.writes_save
  | raise value => exact value.writes_load.bind fun _ => CodeM.writes_emit _
  | defineLocal v => exact .pure _
  | ifBegin c elseLabel finalLabel => exact c.writes_branchUnless elseLabel
  | elseIf c previousElse elseLabel finalLabel =>
    exact (writes_emitting (EmitM.emits_leaveTo _)).bind fun _ =>
      (writes_emitting (EmitM.emits_markLabel _)).bind fun _ => c.writes_branchUnless elseLabel
  | elseBegin previousElse finalLabel =>
    exact (writes_emitting (EmitM.emits_leaveTo _)).bind fun _ =>
      writes_emitting (EmitM.emits_markLabel _)
  | endIf pendingElse finalLabel =>
    cases pendingElse with
    | none => exact writes_emitting (EmitM.emits_markLabel _)
    | some l =>
      exact (writes_emitting (EmitM.emits_markLabel _)).bind fun _ =>
        writes_emitting (EmitM.emits_markLabel _)
  | whileBegin c startLabel endLabel =>
    exact (writes_emitting (EmitM.emits_markLabel _)).bind fun _ => c.writes_branchUnless endLabel
  | endWhile startLabel endLabel =>
    exact (CodeM.writes_emit _).bind fun _ => writes_emitting (EmitM.emits_markLabel _)
  | tryBegin => exact (writes_emitting EmitM.emits_beginTry).map _
  | catchBegin ty v =>
    cases h : ty.tag? with
    | none =>
      simp only [emit, tagFor, h]
      exact .throw _ _
    | some tag =>
      simp only [emit, actions, tagFor, h]
      exact (writes_emitting (EmitM.emits_beginCatch _)).bind fun _ => v.writes_save
  | endTry => exact writes_emitting EmitM.emits_endTry
  | ret value returnType =>
    cases value with
    | none => exact CodeM.writes_emit _
    | some r =>
      obtain ⟨v, coercion⟩ := r
      exact v.writes_load.bind fun _ => coercion.writes_emit.bind fun _ => CodeM.writes_emit _

theorem writes_setup (c : Command) : Writes c.setup c.actions := by
  refine Writes.bind (a := []) ?_ fun _ => c.writes_emit
  cases c.check with
  | ok u => exact .pure u
  | error e => exact .throw e _

def Emittable : Command → Prop
  | .arithmetic op _ _ ty _ => ((ty.arithmetic? op : Option (Instr Label))).isSome
  | .newObject type _ _ _ => type.classId?.isSome
  | .cast _ ty _ | .catchBegin ty _ => ty.tag?.isSome
  | _ => True

theorem emittable_of_emit {c : Command} {o o' : Output} {u : Unit} (h : c.emit o = .ok u o') :
    c.Emittable := by
  cases c with
  | arithmetic op left right ty result =>
    cases hi : (ty.arithmetic? op : Option (Instr Label)) with
    | none =>
      simp only [emit, hi] at h
      cases h
    | some i => exact congrArg Option.isSome hi
  | newObject type constructor args result =>
    cases hi : type.classId? with
    | none =>
      simp only [emit, hi] at h
      cases h
    | some i => exact congrArg Option.isSome hi
  | cast _ ty | catchBegin ty =>
    cases hi : ty.tag? with
    | none =>
      simp only [emit, tagFor, hi] at h
      cases h
    | some tag => exact congrArg Option.isSome hi
  | _ => exact trivial

theorem check_of_setup {c : Command} {o o' : Output} {u : Unit} (h : c.setup o = .ok u o') :
    c.check = .ok () ∧ c.Emittable := by
  obtain ⟨v, t, hc, he⟩ := bind_eq_ok.mp h
  refine ⟨?_, emittable_of_emit he⟩
  cases hcheck : c.check with
  | ok u => rfl
  | error e =>
    rw [hcheck] at hc
    cases hc

end Command

end Bytesmith.Build
