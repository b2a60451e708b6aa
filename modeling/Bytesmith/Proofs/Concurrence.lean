import Bytesmith.Proofs.Definitions
import Bytesmith.Proofs.Naming

namespace Bytesmith.Outcome

variable {ε α β γ δ : Type} {R : α → β → Prop} {T : γ → δ → Prop}
  {x : Except ε α} {y : Except ε β}

/-- Both checks succeed, with related values, or both fail. -/
inductive Concur (R : α → β → Prop) : Except ε α → Except ε β → Prop
  | ok {a : α} {b : β} (h : R a b) : Concur R (.ok a) (.ok b)
  | error (e e' : ε) : Concur R (.error e) (.error e')

namespace Concur

theorem elim (h : Concur R x y) :
    (∃ a b, x = .ok a ∧ y = .ok b ∧ R a b) ∨ ∃ e e', x = .error e ∧ y = .error e' := by
  cases h with
  | ok hr => exact .inl ⟨_, _, rfl, rfl, hr⟩
  | error e e' => exact .inr ⟨e, e', rfl, rfl⟩

theorem bind {f : α → Except ε γ} {g : β → Except ε δ}
    (hx : Concur R x y) (hf : ∀ a b, R a b → Concur T (f a) (g b)) :
    Concur T (x >>= f) (y >>= g) := by
  cases hx with
  | ok h => exact hf _ _ h
  | error e e' => exact .error e e'

theorem guard {κ κ' : Type} {c c' : Prop} [Decidable c] [Decidable c'] {e e' : ε}
    {k : κ → Except ε α} {k' : κ' → Except ε β} (hc : c ↔ c')
    (h : Concur R x y) :
    Concur R (if c then throw e >>= k else x) (if c' then throw e' >>= k' else y) := by
  by_cases hcond : c
  · rw [if_pos hcond, if_pos (hc.mp hcond)]
    exact .error e e'
  · rw [if_neg hcond, if_neg (fun h' => hcond (hc.mpr h'))]
    exact h

theorem of_eq {R : α → α → Prop} {y : Except ε α} (h : x = y) (hR : ∀ a, R a a) : Concur R x y := by
  cases h
  cases x with
  | ok a => exact .ok (hR a)
  | error e => exact .error e e

theorem of_map {f : α → β} (h : y = x.map f) : Concur (fun a b => b = f a) x y := by
  cases h
  cases x with
  | ok a => exact .ok rfl
  | error e => exact .error e e

theorem mapM {ι : Type} {f f' : ι → Except ε α} {g : ι → ι} {k : α → γ}
    (h : ∀ i, Concur (fun a b => k a = k b) (f i) (f' (g i))) (is : List ι) :
    Concur (fun as bs => as.map k = bs.map k) (is.mapM f) ((is.map g).mapM f') := by
  induction is with
  | nil => exact .ok rfl
  | cons i is ih =>
    rw [List.map_cons, List.mapM_cons, List.mapM_cons]
    refine (h i).bind fun a b hab => ih.bind fun as bs habs => .ok ?_
    rw [List.map_cons, List.map_cons, hab, habs]

theorem join {f : α → γ} {y z : Except ε α} (hx : Concur (fun a b => f a = f b) x z)
    (hy : Concur (fun a b => f a = f b) y z) : Concur (fun a b => f a = f b) x y := by
  cases hx with
  | ok h =>
    cases hy with
    | ok h' => exact .ok (h.trans h'.symm)
  | error e e' =>
    cases hy with
    | error e'' => exact .error e e''

end Concur

end Bytesmith.Outcome

namespace Bytesmith.Build

open Code Outcome

namespace Draft

variable (d : Draft)

theorem getElem?_types_bare (i : Nat) : d.bare.types[i]? = d.types[i]?.map TypeDef.bare :=
  Array.getElem?_map ..

theorem getElem?_methods_bare (i : Nat) :
    d.bare.methods[i]? = d.methods[i]?.map MethodDef.bare := Array.getElem?_map ..

theorem size_types_bare : d.bare.types.size = d.types.size := Array.size_map ..

theorem find_map {α β : Type} {kind : MemberKind} {table : Array α} {table' : Array β} {id : Nat}
    {f : α → β} (h : table'[id]? = table[id]?.map f) :
    find kind table' id = (find kind table id).map f := by
  rw [find, find, h]
  cases table[id]? with
  | none | some => rfl

theorem type_bare (id : Nat) : d.bare.type id = (d.type id).map TypeDef.bare :=
  find_map (d.getElem?_types_bare id)

theorem method_bare (m : Nat) : d.bare.method m = (d.method m).map MethodDef.bare :=
  find_map (d.getElem?_methods_bare m)

theorem lineageFrom_bare (steps id : Nat) :
    d.bare.lineageFrom steps id = d.lineageFrom steps id := by
  induction steps generalizing id with
  | zero => rfl
  | succ steps ih =>
    rw [lineageFrom, lineageFrom, getElem?_types_bare]
    cases d.types[id]? with
    | none => rfl
    | some t =>
      exact congrArg (fun f => id :: (t.interfaces ++ t.base.toList).flatMap f) (funext ih)

theorem basesFrom_bare (steps : Nat) (id : Option Nat) :
    d.bare.basesFrom steps id = d.basesFrom steps id := by
  induction steps generalizing id with
  | zero => cases id <;> rfl
  | succ steps ih =>
    cases id with
    | none => rfl
    | some id =>
      rw [basesFrom, basesFrom, getElem?_types_bare]
      cases d.types[id]? with
      | none => rfl
      | some t => exact congrArg (id :: ·) (ih t.base)

theorem lineage_bare (id : Nat) : d.bare.lineage id = d.lineage id := by
  rw [lineage, lineage, lineageFrom_bare, size_types_bare]

theorem isSubtype_bare : d.bare.isSubtype = d.isSubtype := by
  funext sub sup
  rw [isSubtype, isSubtype, lineage_bare]

theorem coercion_bare (source target : StaticType) :
    d.bare.coercion source target = d.coercion source target := by
  rw [coercion, coercion, isSubtype_bare]

theorem findSome?_bare {β : Type} (ids : List Nat) {f g : TypeDef → Option β}
    (h : ∀ t, f t.bare = g t) :
    (ids.findSome? fun t => d.bare.types[t]?.bind f) =
      ids.findSome? fun t => d.types[t]?.bind g := by
  have hfun : (fun t : Nat => d.bare.types[t]?.bind f) = fun t => d.types[t]?.bind g := by
    funext t
    rw [getElem?_types_bare, Option.bind_map]
    exact congrArg (d.types[t]?.bind ·) (funext h)
  rw [hfun]

theorem findField?_bare (id : Nat) (name : String) :
    d.bare.findField? id name = d.findField? id name := by
  rw [findField?, findField?, bases, bases, basesFrom_bare, size_types_bare]
  exact d.findSome?_bare _ fun _ => rfl

theorem findProperty?_bare (id : Nat) (name : String) :
    d.bare.findProperty? id name = d.findProperty? id name := by
  rw [findProperty?, findProperty?, bases, bases, basesFrom_bare, size_types_bare]
  exact d.findSome?_bare _ fun _ => rfl

theorem resolveOverload?_bare (candidates : List Nat) (args : List StaticType) :
    d.bare.resolveOverload? candidates args = d.resolveOverload? candidates args := by
  have hparams : d.bare.paramTypes = d.paramTypes := by
    funext m
    rw [paramTypes, paramTypes, getElem?_methods_bare, Option.map_map]
    rfl
  have haccepts : d.bare.accepts = d.accepts := by
    funext params args
    rw [accepts, accepts, isSubtype_bare]
  rw [resolveOverload?, resolveOverload?, hparams, haccepts]

theorem findMethod?_bare (id : Nat) (name : String) (args : List StaticType) :
    d.bare.findMethod? id name args = d.findMethod? id name args := by
  rw [findMethod?, findMethod?, lineage_bare]
  refine d.findSome?_bare _ fun t => ?_
  rw [declaredOverload?, declaredOverload?, resolveOverload?_bare]
  have hnamed (m : Nat) :
      d.bare.methods[m]?.any (·.name == name) = d.methods[m]?.any (·.name == name) := by
    rw [getElem?_methods_bare, Option.any_map]
    rfl
  simp only [hnamed]
  rfl

theorem findConstructor?_bare (id : Nat) (args : List StaticType) :
    d.bare.findConstructor? id args = d.findConstructor? id args := by
  rw [findConstructor?, findConstructor?, getElem?_types_bare, Option.bind_map]
  exact congrArg (d.types[id]?.bind ·) (funext fun t => d.resolveOverload?_bare t.constructors args)

theorem classType_bare (id : Nat) : d.bare.classType id = d.classType id := by
  rw [classType, classType, type_bare]
  cases d.type id <;> rfl

theorem method_bind_bare {α : Type} {m : Nat} {f g : MethodDef → Except BuildError α}
    (h : ∀ t, f t.bare = g t) : d.bare.method m >>= f = d.method m >>= g := by
  rw [method_bare]
  cases d.method m with
  | error e => rfl
  | ok t => exact h t

theorem callTarget_bare (m : Nat) : d.bare.callTarget m = d.callTarget m := by
  refine d.method_bind_bare fun t => ?_
  rw [classType_bare]
  rfl

theorem this_bare (m : Nat) : d.bare.this m = d.this m := by
  refine d.method_bind_bare fun t => ?_
  rw [classType_bare]
  rfl

theorem param_bare (m index : Nat) : d.bare.param m index = d.param m index :=
  d.method_bind_bare fun _ => rfl

theorem paramNamed_bare (m : Nat) (name : String) :
    d.bare.paramNamed m name = d.paramNamed m name := by
  refine d.method_bind_bare fun t => ?_
  simp only [param_bare]
  rfl

theorem field_bare (m : Nat) (name : String) : d.bare.field m name = d.field m name := by
  refine d.method_bind_bare fun t => ?_
  rw [findField?_bare]
  dsimp only [MethodDef.bare, MethodDef.start]
  cases d.findField? t.owner name with
  | none => rfl
  | some id =>
    refine congrArg (d.fieldDef id >>= ·) (funext fun f => ?_)
    by_cases hs : f.attrs.isStatic = true
    · simp only [hs, if_true, type_bare]
      cases d.type f.owner <;> rfl
    · simp only [hs]
      rfl

theorem property_bare (m : Nat) (name : String) : d.bare.property m name = d.property m name := by
  refine d.method_bind_bare fun t => ?_
  rw [findProperty?_bare]
  rfl

end Draft

theorem map_ty_canonical (args : List Variable) :
    (args.map Variable.canonical).map Variable.ty = args.map Variable.ty := by
  rw [List.map_map]
  exact List.map_congr_left fun v _ => v.ty_canonical

namespace Draft

variable (d : Draft) (m : Nat)

theorem ensureOwned_concur {v w : Variable} (h : v.canonical = w.canonical) :
    Concur (fun _ _ => True) (d.ensureOwned m v) (d.bare.ensureOwned m w) := by
  rw [ensureOwned, ensureOwned, ← v.owner?_canonical, h, w.owner?_canonical]
  cases w.owner? with
  | none => exact .ok trivial
  | some owner =>
    by_cases h : owner = m
    · simp only [h, ne_eq, not_true, if_false]
      exact .ok trivial
    · simp only [h, ne_eq, not_false_iff, if_true]
      exact (Concur.of_map (d.method_bare m)).bind fun _ _ _ => .error _ _

theorem fieldOf_concur (object : Variable) (name : String) :
    Concur (fun v w => v.canonical = w.canonical) (d.fieldOf m object name)
      (d.bare.fieldOf m object.canonical name) := by
  refine (Concur.of_map (d.method_bare m)).bind fun t t' ht => ?_
  cases ht
  refine (d.ensureOwned_concur m object.canonical_canonical.symm).bind fun _ _ _ => ?_
  rw [object.ty_canonical]
  cases object.ty.classId? with
  | none => exact .error _ _
  | some type =>
    dsimp only
    rw [findField?_bare]
    cases d.findField? type name with
    | none => exact .error _ _
    | some id =>
      refine (Concur.of_eq (x := d.fieldDef id) rfl fun _ => rfl).bind fun f f' hf => ?_
      cases hf
      refine .guard .rfl (.ok ?_)
      rw [Variable.canonical, Variable.canonical, Variable.canonical_canonical]
      rfl

theorem propertyOf_concur (object : Variable) (name : String) :
    Concur (fun v w => v.canonical = w.canonical) (d.propertyOf m object name)
      (d.bare.propertyOf m object.canonical name) := by
  refine (d.ensureOwned_concur m object.canonical_canonical.symm).bind fun _ _ _ => ?_
  rw [object.ty_canonical]
  cases object.ty.classId? with
  | none => exact .error _ _
  | some type =>
    dsimp only
    rw [findProperty?_bare]
    cases d.findProperty? type name with
    | none => exact .error _ _
    | some id =>
      refine (Concur.of_eq (x := d.propertyDef id) rfl fun _ => rfl).bind fun p p' hp => .ok ?_
      cases hp
      rw [Variable.canonical, Variable.canonical, Variable.canonical_canonical]

theorem bindArguments_concur (target : CallTarget) (args : List Variable) :
    Concur (fun as bs => as.map Argument.canonical = bs.map Argument.canonical)
      (d.bindArguments m target args)
      (d.bare.bindArguments m target (args.map Variable.canonical)) := by
  refine .guard (by rw [List.length_map]) ?_
  have hzip : (args.map Variable.canonical).zip target.params =
      (args.zip target.params).map fun p => (p.1.canonical, p.2) := by
    rw [List.zip_map_left]
    rfl
  rw [hzip]
  refine Concur.mapM (fun p => ?_) _
  refine (d.ensureOwned_concur m p.1.canonical_canonical.symm).bind fun _ _ _ => ?_
  refine (Concur.of_eq ?_ fun _ => rfl).bind fun coercion _ h => .ok ?_
  · rw [coercion_bare, p.1.ty_canonical]
  · cases h
    simp only [Argument.canonical, Variable.canonical_canonical]

theorem receiverOf_concur (target : CallTarget) (receiver : Option Variable) :
    Concur (fun a b => a.map Variable.canonical = b.map Variable.canonical)
      (d.receiverOf m target receiver)
      (d.bare.receiverOf m target (receiver.map Variable.canonical)) := by
  unfold receiverOf
  by_cases hs : target.isStatic = true
  · rw [if_pos hs, if_pos hs]
    exact .guard (by rw [Option.isSome_map]) (.ok rfl)
  · rw [if_neg hs, if_neg hs]
    have hobject {v w : Variable} (h : v.canonical = w.canonical) :
        Concur (fun a b => a.map Variable.canonical = b.map Variable.canonical)
          (do
            d.ensureOwned m v
            let coercion ← d.coercion v.ty target.owner
            if coercion ≠ .none then throw (.typeMismatch target.owner v.ty)
            return some v)
          (do
            d.bare.ensureOwned m w
            let coercion ← d.bare.coercion w.ty target.owner
            if coercion ≠ .none then throw (.typeMismatch target.owner w.ty)
            return some w) := by
      refine (d.ensureOwned_concur m h).bind fun _ _ _ => ?_
      refine (Concur.of_eq ?_ fun _ => rfl).bind fun coercion _ hc => ?_
      · rw [coercion_bare, ← v.ty_canonical, h, w.ty_canonical]
      · cases hc
        exact .guard .rfl (.ok (congrArg some h))
    cases receiver with
    | some v => exact hobject v.canonical_canonical.symm
    | none =>
      exact (Concur.of_eq (d.this_bare m).symm fun _ => rfl).bind fun v w hvw =>
        hobject (congrArg Variable.canonical hvw)

theorem conditionOf_concur (left : Variable) (comparison : Comparison) (right : Variable) :
    Concur (fun a b => a.canonical = b.canonical) (d.conditionOf m left comparison right)
      (d.bare.conditionOf m left.canonical comparison right.canonical) := by
  refine (d.ensureOwned_concur m left.canonical_canonical.symm).bind fun _ _ _ =>
    (d.ensureOwned_concur m right.canonical_canonical.symm).bind fun _ _ _ => ?_
  rw [Condition.make, Condition.make, left.ty_canonical, right.ty_canonical]
  refine (Concur.of_eq rfl fun _ => rfl).bind fun widenTo _ h => .ok ?_
  cases h
  simp only [Condition.canonical, Variable.canonical_canonical]

theorem constructorOf_concur (type : Nat) (entry : TypeDef) (args : List Variable) :
    Concur (fun a b => a.1 = b.1 ∧ a.2.map Argument.canonical = b.2.map Argument.canonical)
      (d.constructorOf m type entry args)
      (d.bare.constructorOf m type entry.bare (args.map Variable.canonical)) := by
  unfold constructorOf
  dsimp only
  rw [List.isEmpty_map, map_ty_canonical, findConstructor?_bare]
  by_cases hempty : (entry.constructors.isEmpty && args.isEmpty) = true
  · rw [if_pos hempty, if_pos (by exact hempty)]
    exact .ok ⟨rfl, rfl⟩
  · rw [if_neg hempty, if_neg (by exact hempty)]
    cases d.findConstructor? type (args.map Variable.ty) with
    | none => exact .error _ _
    | some c =>
      refine (Concur.of_eq (d.callTarget_bare c).symm fun _ => rfl).bind fun target _ h => ?_
      cases h
      exact (d.bindArguments_concur m target args).bind fun _ _ h => .ok ⟨rfl, h⟩

theorem methodNamed_concur (receiver : Variable) (name : String) (args : List Variable) :
    Concur Eq (d.methodNamed receiver name args)
      (d.bare.methodNamed receiver.canonical name (args.map Variable.canonical)) := by
  unfold methodNamed
  rw [receiver.ty_canonical]
  cases receiver.ty.classId? with
  | none => exact .error _ _
  | some type =>
    dsimp only
    rw [map_ty_canonical, findMethod?_bare]
    cases d.findMethod? type name (args.map Variable.ty) with
    | none => exact .error _ _
    | some found => exact .ok rfl

end Draft

theorem Lookup.find_concur (d : Draft) (m : Nat) (l : Lookup) :
    Concur (fun v w => v.canonical = w.canonical) (l.find d m) (l.canonical.find d.bare m) := by
  cases l with
  | this => exact .of_eq (d.this_bare m).symm fun _ => rfl
  | param index => exact .of_eq (d.param_bare m index).symm fun _ => rfl
  | paramNamed name => exact .of_eq (d.paramNamed_bare m name).symm fun _ => rfl
  | field name => exact .of_eq (d.field_bare m name).symm fun _ => rfl
  | fieldOf object name => exact d.fieldOf_concur m object name
  | property name => exact .of_eq (d.property_bare m name).symm fun _ => rfl
  | propertyOf object name => exact d.propertyOf_concur m object name

/-- An operation finds the same in both methods: what they were declared with, the blocks that are
open, and which slot and labels are next. -/
structure MethodDef.Poised (t t' : MethodDef) : Prop where
  declaration : t.declaration = t'.declaration
  blocks : t.blocks = t'.blocks
  isFinished : t.emitter.isFinished = t'.emitter.isFinished
  localCount : t.emitter.localCount = t'.emitter.localCount
  nextLabel : t.emitter.nextLabel = t'.emitter.nextLabel

namespace MethodDef.Poised

variable {t t' : MethodDef}

theorem refl (t : MethodDef) : t.Poised t := ⟨rfl, rfl, rfl, rfl, rfl⟩

theorem owner (h : t.Poised t') : t.owner = t'.owner := congrArg (·.1) h.declaration

theorem returnType (h : t.Poised t') : t.returnType = t'.returnType :=
  congrArg (·.2.2.2.1) h.declaration

theorem isConstructor (h : t.Poised t') : t.isConstructor = t'.isConstructor :=
  congrArg (·.2.2.2.2.2) h.declaration

theorem nextLabel_eq (h : t.Poised t') (k : Nat) : t.nextLabel k = t'.nextLabel k := by
  rw [MethodDef.nextLabel, MethodDef.nextLabel, h.nextLabel]

theorem nextLocal (h : t.Poised t') (m : Nat) {name name' : String} (ty : StaticType)
    (hname : canonicalName name = canonicalName name') :
    Concur (fun v w => v.canonical = w.canonical) (t.nextLocal m name ty)
      (t'.nextLocal m name' ty) := by
  rw [MethodDef.nextLocal, MethodDef.nextLocal, h.isFinished, h.localCount]
  split
  · exact .error _ _
  · split
    · exact .error _ _
    · exact .ok (by rw [Variable.canonical, Variable.canonical, hname])

theorem nextTemp (h : t.Poised t') (d : Draft) (m : Nat) (stem : String) (ty : StaticType) :
    Concur (fun v w => v.canonical = w.canonical) (d.nextTemp m t stem ty)
      (d.bare.nextTemp m t' stem ty) :=
  h.nextLocal m ty ((canonicalName_temp ..).trans (canonicalName_temp ..).symm)

end MethodDef.Poised

namespace Edit

/-- The command and the blocks, where all temporaries have one name. -/
def outline (r : Command × List Block) : Command × List Block := (r.1.canonical, r.2)

variable (d : Draft) (m : Nat) {t t' : MethodDef}

/-- The operation comes down to the same command in a draft in which the same is defined. -/
def Concurs (t t' : MethodDef) (e : Edit) : Prop :=
  Concur (fun r r' => outline r = outline r') (e.resolve d m t) (e.canonical.resolve d.bare m t')

theorem owned_concur {α : Type} {R : α → α → Prop} (v : Variable) {x y : Except BuildError α}
    (hxy : Concur R x y) : Concur R (d.ensureOwned m v >>= fun _ => x)
      (d.bare.ensureOwned m v.canonical >>= fun _ => y) :=
  (d.ensureOwned_concur m v.canonical_canonical.symm).bind fun _ _ _ => hxy

theorem condition_concur (left : Variable) (comparison : Comparison) (right : Variable)
    {f : Condition → Command} {blocks : List Block}
    (hf : ∀ c c', c.canonical = c'.canonical → (f c).canonical = (f c').canonical) :
    Concur (fun r r' => outline r = outline r')
      (d.conditionOf m left comparison right >>= fun c => .ok (f c, blocks))
      (d.bare.conditionOf m left.canonical comparison right.canonical >>= fun c =>
        .ok (f c, blocks)) :=
  (d.conditionOf_concur m left comparison right).bind fun c c' hc =>
    .ok (by rw [outline, outline, hf c c' hc])

variable (h : t.Poised t')

include h

theorem temp_concur {c c' : Variable → Command} (stem : String) (ty : StaticType)
    {blocks : List Block}
    (hc : ∀ v w, v.canonical = w.canonical → (c v).canonical = (c' w).canonical) :
    Concur (fun r r' => outline r = outline r')
      (d.nextTemp m t stem ty >>= fun v => .ok (c v, blocks))
      (d.bare.nextTemp m t' stem ty >>= fun v => .ok (c' v, blocks)) :=
  (h.nextTemp d m stem ty).bind fun v w hvw => .ok (by rw [outline, outline, hc v w hvw])

theorem concurs_createLocal {name : String} (hname : t.declares name = t'.declares name)
    (ty : StaticType) : (createLocal name ty).Concurs d m t t' := by
  refine (Concur.of_eq rfl fun _ => rfl).bind fun _ _ _ =>
    (Concur.of_eq rfl fun _ => rfl).bind fun _ _ _ => ?_
  refine .guard (by rw [hname]) ((h.nextLocal m ty rfl).bind fun v w hvw => .ok ?_)
  rw [outline, outline, Command.canonical, Command.canonical, hvw, h.blocks]

theorem concurs_assign (target source : Variable) : (assign target source).Concurs d m t t' := by
  refine owned_concur d m target (owned_concur d m source ?_)
  refine (Concur.of_eq ?_ fun _ => rfl).bind fun coercion _ hc => .ok ?_
  · rw [Draft.coercion_bare, target.ty_canonical, source.ty_canonical]
  · cases hc
    simp only [outline, Command.canonical, Variable.canonical_canonical, h.blocks]

theorem concurs_arithmetic (op : Arithmetic) (left right : Variable) :
    (arithmetic op left right).Concurs d m t t' := by
  refine owned_concur d m left (owned_concur d m right ?_)
  refine (Concur.of_eq ?_ fun _ => rfl).bind fun ty _ hty => ?_
  · rw [left.ty_canonical, right.ty_canonical]
  · cases hty
    rw [h.blocks]
    refine temp_concur d m h op.stem ty fun v w hvw => ?_
    simp only [Command.canonical, Variable.canonical_canonical, hvw]

theorem concurs_newObject (type : Nat) (args : List Variable) :
    (newObject type args).Concurs d m t t' := by
  refine (Concur.of_map (d.type_bare type)).bind fun entry _ hentry => ?_
  cases hentry
  refine .guard .rfl ((d.constructorOf_concur m type entry args).bind fun a b hab => ?_)
  rw [h.blocks]
  refine temp_concur d m h "new" _ fun v w hvw => ?_
  simp only [Command.canonical, hab.1, hab.2, hvw]
  rfl

theorem concurs_call (method : Nat) (receiver : Option Variable) (args : List Variable) :
    (call method receiver args).Concurs d m t t' := by
  refine (Concur.of_eq (d.callTarget_bare method).symm fun _ => rfl).bind fun target _ ht => ?_
  cases ht
  refine .guard .rfl ((d.receiverOf_concur m target receiver).bind fun a b hab => ?_)
  refine (d.bindArguments_concur m target args).bind fun as bs habs => ?_
  rw [h.blocks]
  by_cases hvoid : target.returnType.isVoid = true
  · rw [if_pos hvoid, if_pos hvoid]
    exact .ok (by simp only [outline, Command.canonical, hab, habs])
  · rw [if_neg hvoid, if_neg hvoid]
    refine temp_concur d m h "call" _ fun v w hvw => ?_
    simp only [Command.canonical, hab, habs, Option.map_some, hvw]

theorem concurs_callBase (args : List Variable) : (callBase args).Concurs d m t t' := by
  refine .guard (by rw [h.isConstructor]) ?_
  rw [h.owner]
  refine (Concur.of_map (d.type_bare _)).bind fun entry _ hentry => ?_
  cases hentry
  dsimp only [TypeDef.bare]
  cases entry.base with
  | none => exact .error _ _
  | some base =>
    dsimp only
    rw [map_ty_canonical, Draft.findConstructor?_bare]
    cases d.findConstructor? base (args.map Variable.ty) with
    | none => exact .error _ _
    | some c =>
      refine (Concur.of_eq (d.callTarget_bare c).symm fun _ => rfl).bind fun callee _ hc => ?_
      cases hc
      refine (d.bindArguments_concur m callee args).bind fun as bs habs => ?_
      refine (Concur.of_eq (d.this_bare m).symm fun _ => rfl).bind fun this _ hthis => .ok ?_
      cases hthis
      simp only [outline, Command.canonical, habs, h.blocks]

theorem concurs_ret (value : Variable) : (ret value).Concurs d m t t' := by
  refine owned_concur d m value ?_
  rw [h.returnType]
  refine .guard .rfl ((Concur.of_eq ?_ fun _ => rfl).bind fun coercion _ hc => .ok ?_)
  · rw [Draft.coercion_bare, value.ty_canonical]
  · cases hc
    simp only [outline, Command.canonical, Variable.canonical_canonical, Option.map_some, h.blocks]

theorem concurs_elseIf (left : Variable) (comparison : Comparison) (right : Variable) :
    (elseIf left comparison right).Concurs d m t t' := by
  rw [Concurs, canonical, resolve, resolve, h.nextLabel_eq, h.blocks]
  cases t'.blocks with
  | nil => exact .error _ _
  | cons b outer =>
    cases b with
    | conditional elseLabel finalLabel =>
      cases elseLabel with
      | none => exact .error _ _
      | some l =>
        exact condition_concur d m left comparison right fun c c' hc => by
          simp only [Command.canonical, hc]
    | loop | guarded => exact .error _ _

theorem concurs_catchBegin (ty : StaticType) : (catchBegin ty).Concurs d m t t' := by
  rw [Concurs, canonical, resolve, resolve, h.blocks]
  cases t'.blocks with
  | nil => exact .error _ _
  | cons b outer =>
    cases b with
    | guarded hasCatch =>
      refine .guard .rfl (temp_concur d m h "ex" ty fun v w hvw => ?_)
      simp only [Command.canonical, hvw]
    | conditional | loop => exact .error _ _

theorem resolve_concur (e : Edit)
    (hname : ∀ name ty, e = .createLocal name ty → t.declares name = t'.declares name) :
    e.Concurs d m t t' := by
  cases e with
  | createLocal name ty => exact concurs_createLocal d m h (hname name ty rfl) ty
  | assign target source => exact concurs_assign d m h target source
  | arithmetic op left right => exact concurs_arithmetic d m h op left right
  | newObject type args => exact concurs_newObject d m h type args
  | call method receiver args => exact concurs_call d m h method receiver args
  | callBase args => exact concurs_callBase d m h args
  | box value =>
    refine owned_concur d m value (.guard (by rw [value.ty_canonical]) ?_)
    rw [h.blocks]
    refine temp_concur d m h "box" _ fun v w hvw => ?_
    simp only [Command.canonical, Variable.canonical_canonical, hvw]
  | unbox value ty | cast value ty =>
    refine owned_concur d m value (.guard .rfl (.guard (by rw [value.ty_canonical]) ?_))
    rw [h.blocks]
    refine temp_concur d m h _ _ fun v w hvw => ?_
    simp only [Command.canonical, Variable.canonical_canonical, hvw]
  | raise value =>
    refine owned_concur d m value (.guard (by rw [value.ty_canonical]) (.ok ?_))
    simp only [outline, Command.canonical, Variable.canonical_canonical, h.blocks]
  | ifBegin left comparison right | whileBegin left comparison right =>
    rw [Concurs, canonical, resolve, resolve, h.nextLabel_eq, h.nextLabel_eq, h.blocks]
    exact condition_concur d m left comparison right fun c c' hc => by
      simp only [Command.canonical, hc]
  | tryBegin => exact .ok (by simp only [outline, h.blocks])
  | ret value => exact concurs_ret d m h value
  | retVoid =>
    refine .guard (by rw [h.returnType]) (.ok ?_)
    rw [h.returnType, h.blocks]
  | elseIf left comparison right => exact concurs_elseIf d m h left comparison right
  | catchBegin ty => exact concurs_catchBegin d m h ty
  | elseBegin | endIf | endWhile | endTry =>
    rw [Concurs, canonical, resolve, resolve, h.blocks]
    exact .of_eq rfl fun _ => rfl

end Edit

variable {d₁ d₂ : Draft} (hd : d₁.bare = d₂.bare) (m : Nat)
include hd

theorem Lookup.concur {l₁ l₂ : Lookup} (h : l₁.canonical = l₂.canonical) :
    Concur (fun v w => v.canonical = w.canonical) (l₁.find d₁ m) (l₂.find d₂ m) := by
  refine (l₁.find_concur d₁ m).join ?_
  rw [hd, h]
  exact l₂.find_concur d₂ m

theorem Draft.concur_methodNamed {receiver₁ receiver₂ : Variable} {args₁ args₂ : List Variable}
    (hreceiver : receiver₁.canonical = receiver₂.canonical)
    (hargs : args₁.map Variable.canonical = args₂.map Variable.canonical) (name : String) :
    Concur Eq (d₁.methodNamed receiver₁ name args₁) (d₂.methodNamed receiver₂ name args₂) := by
  refine (d₁.methodNamed_concur receiver₁ name args₁).join (f := id) ?_
  rw [hd, hreceiver, hargs]
  exact d₂.methodNamed_concur receiver₂ name args₂

theorem Edit.concur {e₁ e₂ : Edit} (he : e₁.canonical = e₂.canonical) {t₁ t₂ : MethodDef}
    (h : t₁.Poised t₂)
    (hname : ∀ name ty, e₁ = .createLocal name ty → t₁.declares name = t₂.declares name) :
    Concur (fun r r' => outline r = outline r') (e₁.resolve d₁ m t₁) (e₂.resolve d₂ m t₂) := by
  refine (e₁.resolve_concur d₁ m h hname).join ?_
  rw [hd, he]
  exact e₂.resolve_concur d₂ m (.refl t₂) fun _ _ _ => rfl

end Bytesmith.Build
