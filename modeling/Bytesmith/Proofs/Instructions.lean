import Bytesmith.Proofs.Balance

namespace Bytesmith.Code.Instr

variable {τ : Type}

def slot? : Instr τ → Option UInt16
  | .loadLocal s | .storeLocal s => some s
  | _ => none

def stored? : Instr τ → Option UInt32
  | .storeField k | .storeStatic k => some k
  | _ => none

def invoked? : Instr τ → Option (UInt32 × UInt16)
  | .call .method id argc => some (id, argc)
  | _ => none

theorem invoked?_mapTarget {σ : Type} (f : τ → σ) (i : Instr τ) :
    (i.mapTarget f).invoked? = i.invoked? := by
  cases i with
  | call mode => cases mode <;> rfl
  | _ => rfl

/-- Whether the instruction has no slot, stores no field, calls no method and pushes no string. -/
def isPlain : Instr τ → Bool
  | .loadLocal _ | .storeLocal _ | .storeField _ | .storeStatic _ | .call .method .. => false
  | i => !i.isString

theorem eq_none_of_isPlain {i : Instr τ} (h : i.isPlain = true) :
    i.slot? = none ∧ i.stored? = none ∧ i.invoked? = none ∧ i.isString = false := by
  cases i with
  | call mode => cases mode <;> first | exact ⟨rfl, rfl, rfl, rfl⟩ | cases h
  | _ => first | exact ⟨rfl, rfl, rfl, rfl⟩ | cases h

theorem isPlain_eq_false {i : Instr τ}
    (h : (i.slot?.isSome || i.stored?.isSome || i.invoked?.isSome) = true) :
    i.isPlain = false ∧ i.isString = false := by
  cases i with
  | call mode => cases mode <;> first | exact ⟨rfl, rfl⟩ | cases h
  | _ => first | exact ⟨rfl, rfl⟩ | cases h

end Bytesmith.Code.Instr

namespace Bytesmith.Build

open Code Outcome

namespace Member

def getter? (m : Member) : Option Nat :=
  match m.access with
  | .property _ getter _ => getter
  | .field _ _ => none

def setter? (m : Member) : Option Nat :=
  match m.access with
  | .property _ _ setter => setter
  | .field _ _ => none

end Member

namespace Variable

def slot? : Variable → Option UInt16
  | .slot _ index _ _ => some index
  | .own _ => some 0
  | .of object _ => object.slot?
  | _ => none

def member? : Variable → Option Member
  | .own m | .of _ m | .shared _ m => some m
  | _ => none

def path : Variable → List Variable
  | .of object m => .of object m :: object.path
  | v => [v]

end Variable

namespace Command

def places : Command → List Variable
  | .arithmetic _ left right _ result => [left, right, result]
  | .assign target source _ => [target, source]
  | .newObject _ _ args result => args.map Argument.value ++ [result]
  | .call _ receiver args result =>
    receiver.toList ++ (args.map Argument.value ++ result.toList)
  | .box value result | .unbox value _ result | .cast value _ result => [value, result]
  | .raise value => [value]
  | .ifBegin c _ _ | .elseIf c _ _ _ | .whileBegin c _ _ => [c.left, c.right]
  | .catchBegin _ v => [v]
  | .ret (some (value, _)) _ => [value]
  | _ => []

def written? : Command → Option Variable
  | .assign target _ _ => some target
  | .defineLocal _ => none
  | c => c.result?

end Command

def Puts (P : Instr Label → Prop) (actions : List Action) : Prop := ∀ i, .put i ∈ actions → P i

variable {P : Instr Label → Prop}

@[simp]
theorem puts_nil : Puts P [] := fun _ hi => absurd hi List.not_mem_nil

@[simp]
theorem puts_cons {a : Action} {actions : List Action} :
    Puts P (a :: actions) ↔ (∀ i, .put i = a → P i) ∧ Puts P actions := by
  simp [Puts, or_imp, forall_and]

@[simp]
theorem puts_append {a b : List Action} : Puts P (a ++ b) ↔ Puts P a ∧ Puts P b := by
  simp [Puts, or_imp, forall_and]

@[simp]
theorem puts_map {α : Type} {f : α → Action} {l : List α} :
    Puts P (l.map f) ↔ ∀ x ∈ l, ∀ i, .put i = f x → P i := by
  simp only [Puts, List.mem_map]
  exact ⟨fun h x hx i hi => h i ⟨x, hx, hi.symm⟩, fun h i ⟨x, hx, hi⟩ => h x hx i hi.symm⟩

@[simp]
theorem puts_flatMap {α : Type} {f : α → List Action} {l : List α} :
    Puts P (l.flatMap f) ↔ ∀ x ∈ l, Puts P (f x) := by
  simp only [Puts, List.mem_flatMap]
  exact ⟨fun h x hx i hi => h i ⟨x, hx, hi⟩, fun h i ⟨x, hx, hi⟩ => h x hx i hi⟩

section

variable (hplain : ∀ i : Instr Label, i.isPlain = true → P i)

include hplain

theorem Literal.puts_loads (l : Literal) : Puts P l.loads := by
  cases l <;> simp [loads, hplain, Instr.isPlain, Instr.isString]

theorem Coercion.puts_converts (c : Coercion) : Puts P c.converts := by
  cases c <;> simp [converts, hplain, Instr.isPlain, Instr.isString]

theorem Member.puts_loads {m : Member}
    (hget : ∀ g, m.getter? = some g → P (.call .method g.toUInt32 0)) (isStatic : Bool) :
    Puts P (m.loads isStatic) := by
  obtain ⟨name, ty, access⟩ := m
  cases access with
  | field id writable => cases isStatic <;> simp [loads, hplain, Instr.isPlain, Instr.isString]
  | property id getter setter => simpa [loads, getter?] using hget

theorem Variable.puts_loads {v : Variable} (hslot : ∀ s, v.slot? = some s → P (.loadLocal s))
    (hget : ∀ w ∈ v.path, ∀ m, w.member? = some m → ∀ g, m.getter? = some g →
      P (.call .method g.toUInt32 0)) : Puts P v.loads := by
  induction v with
  | slot method index name ty => simpa [loads] using hslot index rfl
  | constant value => exact value.puts_loads hplain
  | own m =>
    have hm := m.puts_loads hplain (hget _ (.head _) m rfl) false
    simpa [loads] using ⟨hslot 0 rfl, hm⟩
  | of object m ih =>
    have hm := m.puts_loads hplain (hget _ (.head _) m rfl) false
    exact puts_append.mpr ⟨ih hslot fun w hw => hget w (.tail _ hw), hm⟩
  | shared type m => exact m.puts_loads hplain (hget _ (.head _) m rfl) true

theorem Variable.puts_widens {v : Variable} (hv : Puts P v.loads) (ty : StaticType) :
    Puts P (v.widens ty) := by
  simp [widens, hv, hplain, Instr.isPlain, Instr.isString]

theorem Condition.puts_branches {c : Condition} (hleft : Puts P c.left.loads)
    (hright : Puts P c.right.loads) (l : Label) : Puts P (c.branches l) := by
  have hoperand {v : Variable} (hv : Puts P v.loads) : Puts P (c.operand v) := by
    rw [operand]
    split
    · exact Variable.puts_widens hplain hv _
    · exact hv
  simp [branches, hoperand hleft, hoperand hright, hplain, Instr.isPlain, Instr.isString]

theorem Argument.puts_loads {args : List Argument}
    (hargs : ∀ a ∈ args, Puts P a.value.loads) : Puts P (args.flatMap loads) :=
  puts_flatMap.mpr fun a ha => puts_append.mpr ⟨hargs a ha, a.coercion.puts_converts hplain⟩

end

theorem Variable.puts_saves {v : Variable}
    (hslot : ∀ method s name ty, v = .slot method s name ty → P (.storeLocal s))
    (hfield : ∀ m id writable, v.member? = some m → m.access = .field id writable →
      P (.storeField id.toUInt32) ∧ P (.storeStatic id.toUInt32))
    (hset : ∀ m, v.member? = some m → ∀ s, m.setter? = some s → P (.call .method s.toUInt32 1)) :
    Puts P v.saves := by
  have hmember {m : Member} (hm : v.member? = some m) (isStatic : Bool) :
      Puts P (m.saves isStatic) := by
    have hfield := fun id writable => hfield m id writable hm
    have hset := hset m hm
    obtain ⟨name, ty, access⟩ := m
    cases access with
    | field id writable =>
      obtain ⟨hinstance, hstatic⟩ := hfield id writable rfl
      cases isStatic <;> simpa [Member.saves]
    | property id getter setter => simpa [Member.saves, Member.setter?] using hset
  cases v with
  | slot method index name ty => simpa [saves] using hslot method index name ty rfl
  | constant value => exact puts_nil
  | own m | of _ m => exact hmember rfl false
  | shared type m => exact hmember rfl true

/-- The property is true of all that a command puts, if it is true of what loads the places of the
command and saves the one that is written, and of a call. -/
theorem Command.puts_actions {c : Command} (hplain : ∀ i : Instr Label, i.isPlain = true → P i)
    (hload : ∀ v ∈ c.places, Puts P v.loads)
    (hsave : ∀ v ∈ c.places, c.written? = some v → Puts P v.saves)
    (hcall : ∀ target receiver args result, c = .call target receiver args result →
      P (.call target.mode target.method.toUInt32 args.length.toUInt16)) : Puts P c.actions := by
  have hargs (args : List Argument) (h : ∀ a ∈ args, a.value ∈ c.places) :
      Puts P (args.flatMap Argument.loads) :=
    Argument.puts_loads hplain fun a ha => hload _ (h a ha)
  have hbranches {k : Condition} (hleft : k.left ∈ c.places) (hright : k.right ∈ c.places)
      (l : Label) : Puts P (k.branches l) :=
    Condition.puts_branches hplain (hload _ hleft) (hload _ hright) l
  cases c with
  | arithmetic op left right ty result =>
    have hop : Puts P ((ty.arithmetic? op).toList.map .put) := by
      rw [StaticType.arithmetic?.eq_def]
      split
      · simp [hplain, Instr.isPlain, Instr.isString]
      · cases ty.numeric? <;> simp [hplain, Instr.isPlain, Instr.isString]
    have hleft := Variable.puts_widens hplain (hload left (by simp [places])) ty
    have hright := Variable.puts_widens hplain (hload right (by simp [places])) ty
    simp_all [actions, places, written?, result?]
  | assign target source coercion =>
    have hreceives : Puts P target.receives := by
      have htarget := hload target (by simp [places])
      cases target <;> simp_all [Variable.receives, Variable.loads]
    have hconverts := coercion.puts_converts hplain
    simp_all [actions, places, written?]
  | newObject type constructor args result =>
    have hargs := hargs args fun a ha => by simpa [places] using .inl ⟨a, ha, rfl⟩
    simp_all [actions, places, written?, result?, Instr.isPlain, Instr.isString]
  | call target receiver args result =>
    have hargs := hargs args fun a ha => by simpa [places] using .inr (.inl ⟨a, ha, rfl⟩)
    have hpop : Puts P (if target.isConstructor then [.put .pop] else []) := by
      split <;> simp [hplain, Instr.isPlain, Instr.isString]
    simp_all [actions, places, written?, result?]
  | box | unbox | cast | raise | catchBegin =>
    simp_all [actions, places, written?, result?, Instr.isPlain, Instr.isString]
  | ret value returnType =>
    cases value with
    | none => simp [actions, hplain, Instr.isPlain, Instr.isString]
    | some r =>
      have hconverts := r.2.puts_converts hplain
      simp_all [actions, places, Instr.isPlain, Instr.isString]
  | ifBegin k elseLabel finalLabel => exact hbranches (by simp [places]) (by simp [places]) _
  | elseIf k previousElse elseLabel finalLabel =>
    simp [actions, hbranches (k := k) (by simp [places]) (by simp [places])]
  | whileBegin k startLabel endLabel =>
    simp [actions, hbranches (k := k) (by simp [places]) (by simp [places])]
  | _ => simp [actions, hplain, Instr.isPlain, Instr.isString]

variable {i : Instr Label} {q : Pool} {e e' : Emitter} {m : Nat} {t : MethodDef}

theorem Emitter.mem_code_leave {l : Label} (hi : i ∈ (e.leave l).code) (hp : i.isPlain = false) :
    i ∈ e.code := by
  obtain ⟨-, h⟩ | ⟨-, h⟩ := e.leave_eq l
  · rw [h] at hi
    obtain hi | rfl := Array.mem_push.mp hi
    · exact hi
    · cases hp
  · rwa [h] at hi

theorem Action.Acts.mem_code {a : Action} (h : a.Acts q e e') (hi : i ∈ e'.code)
    (hp : i.isPlain = false) (hs : i.isString = false) : i ∈ e.code ∨ a = .put i := by
  cases h with
  | put j e =>
    obtain hi | rfl := Array.mem_push.mp hi
    · exact .inl hi
    · exact .inr rfl
  | putString hs e =>
    obtain hi | rfl := Array.mem_push.mp hi
    · exact .inl hi
    · cases hs
  | mark | openRegion => exact .inl hi
  | leave | openCatch => exact .inl (Emitter.mem_code_leave hi hp)
  | @closeRegion e region outer hr hc hm =>
    have hleft : i ∈ ({ e with regions := outer }.leave region.endLabel).code := hi
    have hcode := Emitter.mem_code_leave hleft hp
    exact .inl hcode

theorem Runs.mem_code {actions : List Action} (h : Runs q e actions e') (hi : i ∈ e'.code)
    (hp : i.isPlain = false) (hs : i.isString = false) : i ∈ e.code ∨ .put i ∈ actions := by
  induction h with
  | nil e => exact .inl hi
  | cons hact _ ih =>
    obtain hi | hi := ih hi
    · refine (hact.mem_code hi hp hs).imp_right ?_
      rintro rfl
      exact .head _
    · exact .inr (.tail _ hi)

theorem History.exists_command (h : History q m t) (hi : i ∈ t.emitter.code)
    (hp : i.isPlain = false) (hs : i.isString = false) :
    ∃ c ∈ t.commands, .put i ∈ c.command.actions := by
  induction h with
  | start => exact absurd hi (Array.not_mem_empty i)
  | take h ht ih =>
    rw [ht.eq]
    obtain hi | hi := ht.runs.mem_code hi hp hs
    · obtain ⟨c, hc, hput⟩ := ih hi
      exact ⟨c, Array.mem_push_of_mem _ hc, hput⟩
    · exact ⟨_, Array.mem_push_self, hi⟩

theorem MethodDef.isPlain_of_mem_implied (h : i ∈ t.implied) : i.isPlain = true := by
  obtain rfl | rfl | rfl := eq_of_mem_implied h
  · rfl
  · cases t.returnType.valueKind <;> rfl
  · rfl

end Bytesmith.Build
