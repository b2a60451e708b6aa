import Bytesmith.Proofs.Edits

namespace Bytesmith.Build

open Code Outcome

def MethodDef.nextLabel (t : MethodDef) (k : Nat) : Label := ⟨t.emitter.nextLabel + k⟩

abbrev MethodDef.recording (t : MethodDef) (c : Command) (e : Emitter) (blocks : List Block) :
    MethodDef :=
  { t with emitter := e, commands := t.commands.push ⟨c, t.emitter.offset, e.offset⟩, blocks }

def temporaryStems : List String :=
  Arithmetic.all.map Arithmetic.stem ++ ["new", "call", "box", "unbox", "cast", "ex"]

theorem stem_mem_temporaryStems (op : Arithmetic) : op.stem ∈ temporaryStems := by
  cases op <;> decide

namespace Command

def local? : Command → Option Variable
  | .defineLocal v => some v
  | _ => none

/-- How a command names the slot it makes, where so many temporaries have been named, and how many
have been named then. -/
inductive Names (t : MethodDef) (n : Nat) : Command → Nat → Prop
  | nothing {c : Command} (hr : c.result? = none) : Names t n c n
  | declared {v : Variable} (hnew : t.declares v.name = false) : Names t n (.defineLocal v) n
  | temporary {c : Command} {v : Variable} {stem : String} (hr : c.result? = some v)
      (hl : c.local? = none) (hstem : stem ∈ temporaryStems)
      (hname : v.name = s!"__{stem}{n + 1}") : Names t n c (n + 1)

theorem Names.le {t : MethodDef} {n n' : Nat} {c : Command} (h : c.Names t n n') : n ≤ n' := by
  cases h with
  | nothing | declared => exact Nat.le_refl n
  | temporary => exact Nat.le_succ n

end Command

namespace Draft

variable (d : Draft) (m : Nat) (t : MethodDef)

def nextTemp (stem : String) (ty : StaticType) : Except BuildError Variable :=
  t.nextLocal m s!"__{stem}{d.nameCount + 1}" ty

def receiverOf (target : CallTarget) (receiver : Option Variable) :
    Except BuildError (Option Variable) := do
  if target.isStatic then
    if receiver.isSome then throw (.invalidArgument (.receiverOfStatic target.name))
    return none
  let object ← match receiver with
    | some v => pure v
    | none => d.this m
  d.ensureOwned m object
  let coercion ← d.coercion object.ty target.owner
  if coercion ≠ .none then throw (.typeMismatch target.owner object.ty)
  return some object

def conditionOf (left : Variable) (comparison : Comparison) (right : Variable) :
    Except BuildError Condition := do
  d.ensureOwned m left
  d.ensureOwned m right
  Condition.make left comparison right

def constructorOf (type : Nat) (entry : TypeDef) (args : List Variable) :
    Except BuildError (Option CallTarget × List Argument) := do
  if entry.constructors.isEmpty && args.isEmpty then return (none, [])
  let types := args.map Variable.ty
  match d.findConstructor? type types with
  | none =>
    throw (.unknownMember .constructor
      s!"{(StaticType.class type entry.name).text}({MethodDef.typeList types})")
  | some c =>
    let target ← d.callTarget c
    return (some target, ← d.bindArguments m target args)

def methodNamed (receiver : Variable) (name : String) (args : List Variable) :
    Except BuildError Nat :=
  match receiver.ty.classId? with
  | none => .error (.invalidArgument (.noMethods receiver.ty))
  | some type =>
    let types := args.map Variable.ty
    match d.findMethod? type name types with
    | some found => .ok found
    | none => .error (.unknownMember .method
        s!"{receiver.ty.text}.{name}({MethodDef.typeList types})")

end Draft

namespace Edit

/-- The command that an operation on an open body is about to write, and the blocks that are open
after it. -/
def resolve (d : Draft) (m : Nat) (t : MethodDef) : Edit → Except BuildError (Command × List Block)
  | .createLocal name ty => do
    requireName .localVariable name
    requireStorable .localVariable name ty
    if t.declares name then throw (.duplicateMember t.signature name)
    let v ← t.nextLocal m name ty
    return (.defineLocal v, t.blocks)
  | .assign target source => do
    d.ensureOwned m target
    d.ensureOwned m source
    let coercion ← d.coercion source.ty target.ty
    return (.assign target source coercion, t.blocks)
  | .arithmetic op left right => do
    d.ensureOwned m left
    d.ensureOwned m right
    let ty ← operandType op left.ty right.ty
    let result ← d.nextTemp m t op.stem ty
    return (.arithmetic op left right ty result, t.blocks)
  | .newObject type args => do
    let entry ← d.type type
    if entry.attrs.isAbstract then throw (.invalidOperation (.abstractInstance entry.name))
    let (constructor, bound) ← d.constructorOf m type entry args
    let result ← d.nextTemp m t "new" (.class type entry.name)
    return (.newObject (.class type entry.name) constructor bound result, t.blocks)
  | .call method receiver args => do
    let target ← d.callTarget method
    if target.isConstructor then throw (.invalidArgument (.constructorCall target.owner))
    let object ← d.receiverOf m target receiver
    let bound ← d.bindArguments m target args
    if target.returnType.isVoid then return (.call target object bound none, t.blocks)
    let result ← d.nextTemp m t "call" target.returnType
    return (.call target object bound (some result), t.blocks)
  | .callBase args => do
    if !t.isConstructor then throw (.invalidOperation (.notConstructor t.signature))
    let owner ← d.type t.owner
    match owner.base with
    | none => throw (.invalidOperation (.noBase owner.name))
    | some base =>
      let types := args.map Variable.ty
      match d.findConstructor? base types with
      | none => throw (.unknownMember .constructor s!"base({MethodDef.typeList types})")
      | some c =>
        let callee ← d.callTarget c
        let bound ← d.bindArguments m callee args
        let this ← d.this m
        return (.call callee (some this) bound none, t.blocks)
  | .box value => do
    d.ensureOwned m value
    if !value.ty.isValue then throw (.invalidArgument (.boxSource value.ty))
    let result ← d.nextTemp m t "box" .object
    return (.box value result, t.blocks)
  | .unbox value ty => do
    d.ensureOwned m value
    if !ty.isValue then throw (.invalidArgument (.unboxTarget ty))
    if !value.ty.isReference then throw (.invalidArgument (.unboxSource value.ty))
    let result ← d.nextTemp m t "unbox" ty
    return (.unbox value ty result, t.blocks)
  | .cast value ty => do
    d.ensureOwned m value
    if ty.tag?.isNone then throw (.invalidArgument (.castTarget ty))
    if !value.ty.isReference then throw (.invalidArgument (.castSource value.ty))
    let result ← d.nextTemp m t "cast" ty
    return (.cast value ty result, t.blocks)
  | .raise value => do
    d.ensureOwned m value
    if !value.ty.isReference || value.ty = .null then
      throw (.invalidArgument (.notThrowable value.ty))
    return (.raise value, t.blocks)
  | .ifBegin left comparison right => do
    let c ← d.conditionOf m left comparison right
    return (.ifBegin c (t.nextLabel 0) (t.nextLabel 1),
      .conditional (some (t.nextLabel 0)) (t.nextLabel 1) :: t.blocks)
  | .elseIf left comparison right =>
    match t.blocks with
    | .conditional (some previousElse) finalLabel :: outer => do
      let c ← d.conditionOf m left comparison right
      return (.elseIf c previousElse (t.nextLabel 0) finalLabel,
        .conditional (some (t.nextLabel 0)) finalLabel :: outer)
    | blocks => throw (BuildM.unbalanced .elseIf blocks)
  | .elseBegin =>
    match t.blocks with
    | .conditional (some previousElse) finalLabel :: outer =>
      return (.elseBegin previousElse finalLabel, .conditional none finalLabel :: outer)
    | blocks => throw (BuildM.unbalanced .else blocks)
  | .endIf =>
    match t.blocks with
    | .conditional pendingElse finalLabel :: outer => return (.endIf pendingElse finalLabel, outer)
    | blocks => throw (BuildM.unbalanced .endIf blocks)
  | .whileBegin left comparison right => do
    let c ← d.conditionOf m left comparison right
    return (.whileBegin c (t.nextLabel 0) (t.nextLabel 1),
      .loop (t.nextLabel 0) (t.nextLabel 1) :: t.blocks)
  | .endWhile =>
    match t.blocks with
    | .loop startLabel endLabel :: outer => return (.endWhile startLabel endLabel, outer)
    | blocks => throw (BuildM.unbalanced .endWhile blocks)
  | .tryBegin => return (.tryBegin, .guarded false :: t.blocks)
  | .catchBegin ty =>
    match t.blocks with
    | .guarded _ :: outer => do
      if ty.tag?.isNone then throw (.invalidArgument (.notCatchableValues ty))
      let v ← d.nextTemp m t "ex" ty
      return (.catchBegin ty v, .guarded true :: outer)
    | blocks => throw (BuildM.unbalanced .catch blocks)
  | .endTry =>
    match t.blocks with
    | .guarded true :: outer => return (.endTry, outer)
    | blocks => throw (BuildM.unbalanced .endTry blocks)
  | .ret value => do
    d.ensureOwned m value
    if t.returnType.isVoid then throw (.typeMismatch t.returnType value.ty)
    let coercion ← d.coercion value.ty t.returnType
    return (.ret (some (value, coercion)) t.returnType, t.blocks)
  | .retVoid => do
    if !t.returnType.isVoid then throw (.typeMismatch t.returnType .void)
    return (.ret none t.returnType, t.blocks)

end Edit

namespace BuildM

open Draft

variable {α β : Type} {d : Draft} {m : Nat} {t : MethodDef}

variable {ty : StaticType} {c : Command} {r : Except BuildError (Command × List Block)}
  {blocks : List Block}

theorem nextLocal_eq_ok {name : String} {v : Variable} (h : t.nextLocal m name ty = .ok v) :
    t.emitter.localCount < 65536 ∧ v = .slot m t.emitter.localCount.toUInt16 name ty := by
  rw [MethodDef.nextLocal] at h
  split at h
  · cases h
  · split at h <;> cases h
    exact ⟨by omega, rfl⟩

theorem bind_eq_ofExcept {x : BuildM α} {f : α → BuildM β} {r : Except BuildError α}
    {g : α → Except BuildError β} (hx : x d = ofExcept r d)
    (hf : ∀ a, r = .ok a → f a d = ofExcept (g a) d) : (x >>= f) d = ofExcept (r >>= g) d := by
  cases r with
  | ok a => exact (bind_of_ok hx).trans (hf a rfl)
  | error e => exact bind_of_error hx

theorem guard_eq_ofExcept {c : Prop} [Decidable c] {e : BuildError} {k : α → BuildM β}
    {k' : α → Except BuildError β} {y : BuildM β} {r : Except BuildError β}
    (hy : y d = ofExcept r d) :
    (if c then throw e >>= k else y) d = ofExcept (if c then throw e >>= k' else r) d := by
  by_cases hc : c
  · rw [if_pos hc, if_pos hc]
    rfl
  · rw [if_neg hc, if_neg hc]
    exact hy

theorem callReceiver_eq (target : CallTarget) (receiver : Option Variable) :
    callReceiver m target receiver d = ofExcept (d.receiverOf m target receiver) d := by
  unfold callReceiver receiverOf
  by_cases hs : target.isStatic = true
  · rw [if_pos hs, if_pos hs]
    exact guard_eq_ofExcept rfl
  · rw [if_neg hs, if_neg hs]
    have hobject (object : Variable) : (do
        ensureOwned m object
        let coercion ← reading (·.coercion object.ty target.owner)
        if coercion ≠ .none then throw (.typeMismatch target.owner object.ty)
        return some object : BuildM (Option Variable)) d = ofExcept (do
        d.ensureOwned m object
        let coercion ← d.coercion object.ty target.owner
        if coercion ≠ .none then throw (.typeMismatch target.owner object.ty)
        return some object) d :=
      bind_eq_ofExcept rfl fun _ _ => bind_eq_ofExcept rfl fun _ _ => guard_eq_ofExcept rfl
    cases receiver with
    | some v => exact hobject v
    | none => exact bind_eq_ofExcept rfl fun object _ => hobject object

theorem condition_eq (left : Variable) (comparison : Comparison) (right : Variable) :
    condition m left comparison right d = ofExcept (d.conditionOf m left comparison right) d :=
  bind_eq_ofExcept rfl fun _ _ => bind_eq_ofExcept rfl fun _ _ => rfl

def written (d : Draft) (m : Nat) (t : MethodDef) (c : Command) (blocks : List Block) (n : Nat) :
    EStateM.Result BuildError Draft (Option Variable) :=
  match c.setup ⟨c.prepare t.emitter, d.constants⟩ with
  | .ok _ o => .ok c.result? (d.edited m (t.recording c o.emitter blocks) o.constants n)
  | .error e o => .error e (d.edited m { t with emitter := o.emitter } o.constants n)

/-- The computation fails with the error and leaves the method alone, or it writes the command. A
temporary that was named before it failed stays counted. -/
def Agrees (d : Draft) (m : Nat) (t : MethodDef) (g : α → Option Variable) (x : BuildM α) :
    Except BuildError (Command × List Block) → Prop
  | .error e => ∃ n, d.nameCount ≤ n ∧ x d = .error e (d.edited m t d.constants n)
  | .ok (c, blocks) =>
    ∃ n, c.Names t d.nameCount n ∧ (g <$> x) d = written d m t c blocks n

variable {g : α → Option Variable}

theorem Agrees.of_eq {x y : BuildM α} (h : Agrees d m t g y r) (hx : x d = y d) :
    Agrees d m t g x r := by
  cases r with
  | error e =>
    obtain ⟨n, hle, hn⟩ := h
    exact ⟨n, hle, hx.trans hn⟩
  | ok p =>
    obtain ⟨n, hnames, hn⟩ := h
    have hmap : (g <$> x) d = (g <$> y) d := by
      change EStateM.map g x d = EStateM.map g y d
      rw [EStateM.map, EStateM.map, hx]
    exact ⟨n, hnames, hmap.trans hn⟩

theorem agrees_throw (hfound : d.methods[m]? = some t) (e : BuildError) :
    Agrees d m t g (throw e) (.error e) :=
  ⟨d.nameCount, Nat.le_refl _, by rw [edited_self hfound]; rfl⟩

theorem agrees_bind {x : BuildM β} {f : β → BuildM α} {r : Except BuildError β}
    {g' : β → Except BuildError (Command × List Block)} (hfound : d.methods[m]? = some t)
    (hx : x d = ofExcept r d) (hf : ∀ b, r = .ok b → Agrees d m t g (f b) (g' b)) :
    Agrees d m t g (x >>= f) (r >>= g') := by
  cases r with
  | error e => exact (agrees_throw hfound e).of_eq (bind_of_error hx)
  | ok b => exact (hf b rfl).of_eq (bind_of_ok hx)

theorem agrees_check {r : Except BuildError β} {f : β → BuildM α}
    {g' : β → Except BuildError (Command × List Block)} (hfound : d.methods[m]? = some t)
    (hf : ∀ b, r = .ok b → Agrees d m t g (f b) (g' b)) :
    Agrees d m t g (ofExcept r >>= f) (r >>= g') := agrees_bind hfound rfl hf

theorem agrees_read {r : Draft → Except BuildError β} {f : β → BuildM α}
    {g' : β → Except BuildError (Command × List Block)} (hfound : d.methods[m]? = some t)
    (hf : ∀ b, r d = .ok b → Agrees d m t g (f b) (g' b)) :
    Agrees d m t g (reading r >>= f) (r d >>= g') := agrees_bind hfound rfl hf

theorem agrees_guard {c : Prop} [Decidable c] {e : BuildError} {k : β → BuildM α}
    {k' : β → Except BuildError (Command × List Block)} {y : BuildM α}
    (hfound : d.methods[m]? = some t) (hy : ¬ c → Agrees d m t g y r) :
    Agrees d m t g (if c then throw e >>= k else y) (if c then throw e >>= k' else r) := by
  by_cases hc : c
  · rw [if_pos hc, if_pos hc]
    exact agrees_throw hfound e
  · rw [if_neg hc, if_neg hc]
    exact hy hc

theorem agrees_push {x : BuildM α} {k : Unit → BuildM α} {a : α} {n : Nat}
    (hfound : d.methods[m]? = some t) (hnames : c.Names t d.nameCount n) (ha : g a = c.result?)
    (hk : ∀ (t' : MethodDef) (q : Pool), t'.blocks = t.blocks → k () (d.edited m t' q n) = .ok a
      (d.edited m { t' with blocks := blocks } q n))
    (hx : x d = (push m c >>= k) (d.edited m { t with emitter := c.prepare t.emitter } d.constants
      n)) : Agrees d m t g x (.ok (c, blocks)) := by
  have hpush := push_eq c (t := { t with emitter := c.prepare t.emitter }) (k := d.constants)
    (n := n) (lt_size_of_found hfound)
  refine ⟨n, hnames, ?_⟩
  rw [written]
  cases hsetup : c.setup ⟨c.prepare t.emitter, d.constants⟩ with
  | ok u o =>
    simp only [hsetup] at hpush
    exact map_eq_ok.mpr ⟨a, hx.trans ((bind_of_ok hpush).trans (hk _ _ rfl)), ha⟩
  | error e o =>
    simp only [hsetup] at hpush
    exact map_eq_error.mpr (hx.trans (bind_of_error hpush))

theorem pure_of_blocks {n : Nat} (a : α) (t' : MethodDef) (q : Pool) (h : t'.blocks = t.blocks) :
    (pure a : BuildM α) (d.edited m t' q n) =
      .ok a (d.edited m { t' with blocks := t.blocks } q n) := by
  rw [← h]
  rfl

theorem agrees_local {name : String} (hfound : d.methods[m]? = some t)
    (hnew : t.declares name = false) :
    Agrees d m t some
      (declare m name ty >>= fun v => push m (.defineLocal v) >>= fun _ => pure v)
      (t.nextLocal m name ty >>= fun v => .ok (.defineLocal v, t.blocks)) := by
  have hdeclare := declare_eq (t := t) (k := d.constants) (n := d.nameCount)
    (lt_size_of_found hfound) name ty
  rw [edited_self hfound] at hdeclare
  cases hv : t.nextLocal m name ty with
  | error e =>
    simp only [hv] at hdeclare
    refine ⟨d.nameCount, Nat.le_refl _, (bind_of_error hdeclare).trans ?_⟩
    rw [edited_self hfound]
  | ok v =>
    simp only [hv] at hdeclare
    obtain ⟨-, rfl⟩ := nextLocal_eq_ok hv
    refine agrees_push (k := fun _ => pure _) (n := d.nameCount) hfound (.declared hnew) rfl
      (pure_of_blocks _) ((bind_of_ok hdeclare).trans ?_)
    rfl

theorem agrees_temp {stem : String} {f : Variable → BuildM α} {c : Variable → Command}
    (hfound : d.methods[m]? = some t) (hstem : stem ∈ temporaryStems)
    (hr : ∀ v, (c v).result? = some v) (hl : ∀ v, (c v).labels = [])
    (hlocal : ∀ v, (c v).local? = none)
    (hf : ∀ v x, (c v).Names t d.nameCount (d.nameCount + 1) →
      x d = f v (d.edited m { t with emitter := (c v).prepare t.emitter } d.constants
        (d.nameCount + 1)) → Agrees d m t g x (.ok (c v, blocks))) :
    Agrees d m t g (temp m stem ty >>= f)
      (d.nextTemp m t stem ty >>= fun v => .ok (c v, blocks)) := by
  have hm := lt_size_of_found hfound
  have htemp : temp m stem ty d =
      declare m s!"__{stem}{d.nameCount + 1}" ty (d.edited m t d.constants (d.nameCount + 1)) := by
    conv => lhs; rw [← edited_self hfound]
    exact temp_eq stem ty
  rw [declare_eq hm] at htemp
  rw [nextTemp]
  cases hv : t.nextLocal m s!"__{stem}{d.nameCount + 1}" ty with
  | error e =>
    simp only [hv] at htemp
    exact ⟨_, Nat.le_succ _, bind_of_error htemp⟩
  | ok v =>
    simp only [hv] at htemp
    have hname : v.name = s!"__{stem}{d.nameCount + 1}" := by
      rw [(nextLocal_eq_ok hv).2]
      rfl
    have hprepare : (c v).prepare t.emitter =
        { t.emitter with locals := t.emitter.locals.push v.name } := by
      simp only [Command.prepare, hl, hr]
      rfl
    refine hf v _ (.temporary (hr v) (hlocal v) hstem hname) ((bind_of_ok htemp).trans ?_)
    rw [hprepare, hname]

theorem agrees_temp_push {stem : String} {c : Variable → Command} (hfound : d.methods[m]? = some t)
    (hstem : stem ∈ temporaryStems) (hr : ∀ v, (c v).result? = some v)
    (hl : ∀ v, (c v).labels = []) (hlocal : ∀ v, (c v).local? = none) :
    Agrees d m t some (temp m stem ty >>= fun v => push m (c v) >>= fun _ => pure v)
      (d.nextTemp m t stem ty >>= fun v => .ok (c v, t.blocks)) :=
  agrees_temp hfound hstem hr hl hlocal fun v _ hnames hx =>
    agrees_push hfound hnames (hr v).symm (pure_of_blocks v) hx

theorem agrees_plain {x : BuildM α} {k : Unit → BuildM α} {a : α} (hfound : d.methods[m]? = some t)
    (hr : c.result? = none) (hl : c.labels = []) (ha : g a = none)
    (hk : ∀ (t' : MethodDef) (q : Pool), t'.blocks = t.blocks → k () (d.edited m t' q d.nameCount)
      = .ok a (d.edited m { t' with blocks := blocks } q d.nameCount))
    (hx : x d = (push m c >>= k) d) : Agrees d m t g x (.ok (c, blocks)) := by
  have hprepare : c.prepare t.emitter = t.emitter := by
    simp only [Command.prepare, hl, hr]
    rfl
  refine agrees_push hfound (.nothing hr) (ha.trans hr.symm) hk ?_
  rw [hx, hprepare, edited_self hfound]

theorem agrees_pushed (hfound : d.methods[m]? = some t) (hr : c.result? = none)
    (hl : c.labels = []) :
    Agrees d m t (fun _ => none) (push m c) (.ok (c, t.blocks)) :=
  agrees_plain hfound hr hl rfl (pure_of_blocks ()) (by rw [bind_pure_unit])

theorem agrees_blocks (hfound : d.methods[m]? = some t) (hr : c.result? = none)
    (hl : c.labels = []) :
    Agrees d m t (fun _ => none) (push m c >>= fun _ => setBlocks m blocks) (.ok (c, blocks)) :=
  agrees_plain hfound hr hl rfl (fun _ _ _ => setBlocks_eq (lt_size_of_found hfound) blocks) rfl

theorem agrees_labels {c : Label → Label → Command} {b : Label → Label → Block}
    (hfound : d.methods[m]? = some t) (hr : ∀ l l', (c l l').result? = none)
    (hl : ∀ l l', (c l l').labels = [l, l']) :
    Agrees d m t (fun _ => none) (do
      let l ← defineLabel m
      let l' ← defineLabel m
      push m (c l l')
      setBlocks m (b l l' :: t.blocks))
      (.ok (c (t.nextLabel 0) (t.nextLabel 1), b (t.nextLabel 0) (t.nextLabel 1) :: t.blocks)) := by
  have hm := lt_size_of_found hfound
  refine agrees_push (n := d.nameCount) (a := ()) (k := fun _ => setBlocks m _) hfound
    (.nothing (hr _ _)) (hr _ _).symm (fun _ _ _ => setBlocks_eq hm _) ?_
  have hprepare : (c (t.nextLabel 0) (t.nextLabel 1)).prepare t.emitter =
      { t.emitter with nextLabel := t.emitter.nextLabel + 1 + 1 } := by
    simp only [Command.prepare, hl, hr]
    rfl
  rw [hprepare]
  conv => lhs; rw [← edited_self hfound]
  exact (bind_of_ok (defineLabel_eq hm)).trans (bind_of_ok (defineLabel_eq hm))

end BuildM

namespace Edit

open Draft BuildM

variable {d : Draft} {m : Nat} {t : MethodDef}

theorem exists_agrees (m : Nat) (e : Edit) :
    ∃ (α : Type) (g : α → Option Variable) (op : MethodDef → BuildM α),
      e.perform m = g <$> recording m op ∧ ∀ d t, d.methods[m]? = some t →
        Agrees d m t g (op t) (e.resolve d m t) := by
  cases e <;> first
    | refine ⟨_, _, _, rfl, fun d t hfound => ?_⟩
    | refine ⟨_, _, _, (id_map _).symm, fun d t hfound => ?_⟩
  case createLocal name ty =>
    exact agrees_check hfound fun _ _ => agrees_check hfound fun _ _ => agrees_guard hfound
      fun hnew => agrees_local hfound (Bool.eq_false_iff.mpr hnew)
  case assign target source =>
    exact agrees_read hfound fun _ _ => agrees_read hfound fun _ _ => agrees_read hfound fun _ _ =>
      agrees_pushed hfound rfl rfl
  case arithmetic op left right =>
    exact agrees_read hfound fun _ _ => agrees_read hfound fun _ _ => agrees_check hfound fun _ _ =>
      agrees_temp_push hfound (stem_mem_temporaryStems op) (fun _ => rfl) (fun _ => rfl)
        fun _ => rfl
  case newObject type args =>
    refine agrees_read hfound fun entry _ => agrees_guard hfound fun _ => ?_
    have hnew (constructor : Option CallTarget) (bound : List Argument) :
        Agrees d m t some (temp m "new" (.class type entry.name) >>= fun v =>
            push m (.newObject (.class type entry.name) constructor bound v) >>= fun _ => pure v)
          (d.nextTemp m t "new" (.class type entry.name) >>= fun v =>
            .ok (.newObject (.class type entry.name) constructor bound v, t.blocks)) :=
      agrees_temp_push hfound (by decide) (fun _ => rfl) (fun _ => rfl) fun _ => rfl
    unfold constructorOf
    by_cases hempty : (entry.constructors.isEmpty && args.isEmpty) = true
    · rw [if_pos hempty, if_pos hempty]
      exact hnew none []
    · rw [if_neg hempty, if_neg hempty]
      refine Agrees.of_eq ?_ get_bind
      dsimp only
      cases d.findConstructor? type (args.map Variable.ty) with
      | none => exact (agrees_throw hfound _).of_eq rfl
      | some c =>
        simp only [bind_assoc, pure_bind]
        exact agrees_read hfound fun target _ => agrees_read hfound fun bound _ =>
          hnew (some target) bound
  case call method receiver args =>
    refine agrees_read hfound fun target _ => agrees_guard hfound fun _ =>
      agrees_bind hfound (callReceiver_eq target receiver) fun object _ =>
        agrees_read hfound fun bound _ => ?_
    by_cases hvoid : target.returnType.isVoid = true
    · simp only [hvoid, if_true]
      exact agrees_plain hfound rfl rfl rfl (pure_of_blocks none) rfl
    · simp only [hvoid, bind_map_left]
      exact agrees_temp hfound (by decide) (fun _ => rfl) (fun _ => rfl) (fun _ => rfl)
        fun v _ hnames hx => agrees_push hfound hnames rfl (pure_of_blocks (some v)) hx
  case callBase args =>
    refine agrees_guard hfound fun _ => agrees_read hfound fun owner _ => ?_
    cases owner.base with
    | none => exact agrees_throw hfound _
    | some base =>
      refine Agrees.of_eq ?_ get_bind
      dsimp only
      cases d.findConstructor? base (args.map Variable.ty) with
      | none => exact agrees_throw hfound _
      | some c =>
        exact agrees_read hfound fun _ _ => agrees_read hfound fun _ _ =>
          agrees_read hfound fun _ _ => agrees_pushed hfound rfl rfl
  case box value =>
    exact agrees_read hfound fun _ _ => agrees_guard hfound fun _ =>
      agrees_temp_push hfound (by decide) (fun _ => rfl) (fun _ => rfl) fun _ => rfl
  case unbox | cast =>
    exact agrees_read hfound fun _ _ => agrees_guard hfound fun _ => agrees_guard hfound fun _ =>
      agrees_temp_push hfound (by decide) (fun _ => rfl) (fun _ => rfl) fun _ => rfl
  case raise value =>
    exact agrees_read hfound fun _ _ => agrees_guard hfound fun _ => agrees_pushed hfound rfl rfl
  case ifBegin left comparison right | whileBegin left comparison right =>
    exact agrees_bind hfound (condition_eq left comparison right) fun c _ =>
      agrees_labels hfound (fun _ _ => rfl) fun _ _ => rfl
  case elseIf left comparison right =>
    unfold resolve
    match t.blocks with
    | .conditional (some previous) f :: outer =>
      refine agrees_bind hfound (condition_eq left comparison right) fun c _ => ?_
      refine agrees_push (n := d.nameCount) (a := ()) (k := fun _ => setBlocks m _) hfound
        (.nothing rfl) rfl (fun _ _ _ => setBlocks_eq (lt_size_of_found hfound) _) ?_
      conv => lhs; rw [← edited_self hfound]
      exact bind_of_ok (defineLabel_eq (lt_size_of_found hfound))
    | [] | .conditional none _ :: _ | .loop _ _ :: _ | .guarded _ :: _ =>
      exact agrees_throw hfound _
  case elseBegin =>
    unfold resolve
    match t.blocks with
    | .conditional (some previous) f :: outer => exact agrees_blocks hfound rfl rfl
    | [] | .conditional none _ :: _ | .loop _ _ :: _ | .guarded _ :: _ =>
      exact agrees_throw hfound _
  case endIf =>
    unfold resolve
    match t.blocks with
    | .conditional pending f :: outer => exact agrees_blocks hfound rfl rfl
    | [] | .loop _ _ :: _ | .guarded _ :: _ => exact agrees_throw hfound _
  case endWhile =>
    unfold resolve
    match t.blocks with
    | .loop l l' :: outer => exact agrees_blocks hfound rfl rfl
    | [] | .conditional _ _ :: _ | .guarded _ :: _ => exact agrees_throw hfound _
  case tryBegin => exact agrees_blocks hfound rfl rfl
  case catchBegin ty =>
    unfold resolve
    match t.blocks with
    | .guarded hasCatch :: outer =>
      exact agrees_guard hfound fun _ => agrees_temp hfound (by decide) (fun _ => rfl)
        (fun _ => rfl) (fun _ => rfl) fun v _ hnames hx => agrees_push hfound hnames rfl
          (fun _ _ _ => bind_of_ok (setBlocks_eq (lt_size_of_found hfound) _)) hx
    | [] | .conditional _ _ :: _ | .loop _ _ :: _ => exact agrees_throw hfound _
  case endTry =>
    unfold resolve
    match t.blocks with
    | .guarded true :: outer => exact agrees_blocks hfound rfl rfl
    | [] | .conditional _ _ :: _ | .loop _ _ :: _ | .guarded false :: _ =>
      exact agrees_throw hfound _
  case ret value =>
    exact agrees_read hfound fun _ _ => agrees_guard hfound fun _ => agrees_read hfound fun _ _ =>
      agrees_pushed hfound rfl rfl
  case retVoid =>
    exact agrees_guard hfound fun _ => agrees_pushed hfound rfl rfl

theorem perform_of_resolve_error {e : Edit} {err : BuildError} (hfound : d.methods[m]? = some t)
    (hopen : t.ensureOpen = .ok ()) (h : e.resolve d m t = .error err) :
    ∃ n, d.nameCount ≤ n ∧ e.perform m d =
      .error err (d.edited m { t with state := .aborted } d.constants n) := by
  obtain ⟨α, g, op, hperform, hagrees⟩ := e.exists_agrees m
  replace hagrees := hagrees d t hfound
  rw [h] at hagrees
  obtain ⟨n, hle, hop⟩ := hagrees
  refine ⟨n, hle, ?_⟩
  rw [hperform, map_eq_error, recording_eq hfound hopen, hop]
  exact congrArg (EStateM.Result.error err) (modifyMethod_edited (lt_size_of_found hfound) _)

variable {c : Command}

theorem perform_of_resolve_ok {e : Edit} {blocks : List Block} (hfound : d.methods[m]? = some t)
    (hopen : t.ensureOpen = .ok ()) (h : e.resolve d m t = .ok (c, blocks)) :
    ∃ n, c.Names t d.nameCount n ∧
      e.perform m d = match c.setup ⟨c.prepare t.emitter, d.constants⟩ with
      | .ok _ o => .ok c.result? (d.edited m (t.recording c o.emitter blocks) o.constants n)
      | .error err o => .error err
          (d.edited m { t with emitter := o.emitter, state := .aborted } o.constants n) := by
  obtain ⟨α, g, op, hperform, hagrees⟩ := e.exists_agrees m
  replace hagrees := hagrees d t hfound
  rw [h] at hagrees
  obtain ⟨n, hnames, hop⟩ := hagrees
  refine ⟨n, hnames, ?_⟩
  rw [written] at hop
  rw [hperform]
  cases hsetup : c.setup ⟨c.prepare t.emitter, d.constants⟩ with
  | ok u o =>
    simp only [hsetup] at hop
    obtain ⟨a, ha, hr⟩ := map_eq_ok.mp hop
    refine map_eq_ok.mpr ⟨a, ?_, hr⟩
    rw [recording_eq hfound hopen, ha]
  | error err o =>
    simp only [hsetup] at hop
    rw [map_eq_error] at hop ⊢
    rw [recording_eq hfound hopen, hop]
    exact congrArg (EStateM.Result.error err) (modifyMethod_edited (lt_size_of_found hfound) _)

theorem nextLocal_bind_eq_ok {name : String} {ty : StaticType} {f : Variable → Command}
    {blocks blocks' : List Block}
    (h : (t.nextLocal m name ty >>= fun v => pure (f v, blocks)) = .ok (c, blocks'))
    (hr : ∀ v, (f v).result? = some v) (hl : ∀ v, (f v).labels = []) :
    ∃ v, c = f v ∧ blocks' = blocks ∧ v.ty = ty ∧ c.Fresh m t.emitter := by
  obtain ⟨v, hv, h⟩ := except_bind_eq_ok.mp h
  cases h
  obtain ⟨hsize, rfl⟩ := nextLocal_eq_ok hv
  exact ⟨_, rfl, rfl, rfl, fresh_slot hsize (hr _) (hl _)⟩

theorem receiverOf_eq_ok {target : CallTarget} {receiver r : Option Variable}
    (h : d.receiverOf m target receiver = .ok r) :
    target.isStatic = true ∧ receiver = none ∧ r = none ∨
      target.isStatic = false ∧ ∃ object, r = some object ∧
        (receiver = some object ∨ receiver = none ∧ d.this m = .ok object) ∧
        d.ensureOwned m object = .ok () ∧ d.coercion object.ty target.owner = .ok .none := by
  have hobject (object : Variable) (ho : (do
      d.ensureOwned m object
      let coercion ← d.coercion object.ty target.owner
      if coercion ≠ .none then throw (.typeMismatch target.owner object.ty)
      return some object : Except BuildError (Option Variable)) = .ok r) :
      r = some object ∧ d.ensureOwned m object = .ok () ∧
        d.coercion object.ty target.owner = .ok .none := by
    obtain ⟨_, howned, ho⟩ := except_bind_eq_ok.mp ho
    obtain ⟨coercion, hcoercion, ho⟩ := except_bind_eq_ok.mp ho
    obtain ⟨hnone, ho⟩ := except_guard_eq_ok.mp ho
    cases ho
    exact ⟨rfl, howned, by rw [hcoercion, Decidable.not_not.mp hnone]⟩
  unfold receiverOf at h
  by_cases hs : target.isStatic = true
  · rw [if_pos hs] at h
    obtain ⟨hr, h⟩ := except_guard_eq_ok.mp h
    cases h
    exact .inl ⟨hs, by simpa using hr, rfl⟩
  · rw [if_neg hs] at h
    rw [Bool.not_eq_true] at hs
    cases receiver with
    | some v =>
      obtain ⟨hr, howned, hcoercion⟩ := hobject v h
      exact .inr ⟨hs, v, hr, .inl rfl, howned, hcoercion⟩
    | none =>
      obtain ⟨this, hthis, h⟩ := except_bind_eq_ok.mp h
      obtain ⟨hr, howned, hcoercion⟩ := hobject this h
      exact .inr ⟨hs, this, hr, .inr ⟨rfl, hthis⟩, howned, hcoercion⟩

theorem conditionOf_eq_ok {left right : Variable} {comparison : Comparison} {c : Condition}
    (h : d.conditionOf m left comparison right = .ok c) :
    d.ensureOwned m left = .ok () ∧ d.ensureOwned m right = .ok () ∧
      Condition.make left comparison right = .ok c := by
  obtain ⟨_, hleft, h⟩ := except_bind_eq_ok.mp h
  obtain ⟨_, hright, h⟩ := except_bind_eq_ok.mp h
  exact ⟨hleft, hright, h⟩

theorem constructorOf_eq_ok {type : Nat} {entry : TypeDef} {args : List Variable}
    {constructor : Option CallTarget} {bound : List Argument}
    (h : d.constructorOf m type entry args = .ok (constructor, bound)) :
    entry.constructors = [] ∧ args = [] ∧ constructor = none ∧ bound = [] ∨
      ∃ k target, d.findConstructor? type (args.map Variable.ty) = some k ∧
        d.callTarget k = .ok target ∧ d.bindArguments m target args = .ok bound ∧
        constructor = some target := by
  unfold constructorOf at h
  split at h
  · rename_i hempty
    rw [Bool.and_eq_true, List.isEmpty_iff, List.isEmpty_iff] at hempty
    cases h
    exact .inl ⟨hempty.1, hempty.2, rfl, rfl⟩
  · dsimp only at h
    cases hfind : d.findConstructor? type (args.map Variable.ty) with
    | none =>
      simp only [hfind] at h
      cases h
    | some k =>
      simp only [hfind] at h
      obtain ⟨target, htarget, h⟩ := except_bind_eq_ok.mp h
      obtain ⟨bound', hbound, h⟩ := except_bind_eq_ok.mp h
      cases h
      exact .inr ⟨k, target, rfl, htarget, hbound, rfl⟩

/-- What an operation comes to in an open body: the command for which it stands, with a slot and
labels that are new to the body, and the blocks that are open after it. -/
structure Becomes (d : Draft) (m : Nat) (t : MethodDef) (e : Edit) (c : Command)
    (blocks : List Block) : Prop where
  stands : e.Stands d m t c
  fresh : c.Fresh m t.emitter
  nests : c.Nests t.blocks blocks

theorem becomes_newObject {type : Nat} {args : List Variable}
    (h : (Edit.newObject type args).resolve d m t = .ok (c, blocks)) :
    Becomes d m t (.newObject type args) c blocks := by
  obtain ⟨entry, htype, h⟩ := except_bind_eq_ok.mp h
  rw [type_eq_ok] at htype
  obtain ⟨habstract, h⟩ := except_guard_eq_ok.mp h
  rw [Bool.not_eq_true] at habstract
  obtain ⟨⟨constructor, bound⟩, hconstructor, h⟩ := except_bind_eq_ok.mp h
  obtain ⟨v, rfl, rfl, hvty, hfresh⟩ := nextLocal_bind_eq_ok h (fun _ => rfl) fun _ => rfl
  refine ⟨?_, hfresh, .plain rfl rfl _⟩
  obtain ⟨hnone, rfl, rfl, rfl⟩ | ⟨k, target, hfind, htarget, hbound, rfl⟩ :=
    constructorOf_eq_ok hconstructor
  · exact .newPlain htype habstract hvty hnone
  · exact .newObject htype habstract hfind htarget hbound hvty

theorem becomes_call {method : Nat} {receiver : Option Variable} {args : List Variable}
    (h : (Edit.call method receiver args).resolve d m t = .ok (c, blocks)) :
    Becomes d m t (.call method receiver args) c blocks := by
  obtain ⟨target, htarget, h⟩ := except_bind_eq_ok.mp h
  obtain ⟨hconstructor, h⟩ := except_guard_eq_ok.mp h
  rw [Bool.not_eq_true] at hconstructor
  obtain ⟨object, hobject, h⟩ := except_bind_eq_ok.mp h
  obtain ⟨bound, hbound, h⟩ := except_bind_eq_ok.mp h
  have hcall : ∃ result, c = .call target object bound result ∧ blocks = t.blocks ∧
      c.Fresh m t.emitter ∧ result.map Variable.ty =
        if target.returnType.isVoid then none else some target.returnType := by
    split at h
    · rename_i hvoid
      cases h
      exact ⟨none, rfl, rfl, fresh_plain rfl rfl, by rw [if_pos hvoid]; rfl⟩
    · rename_i hvoid
      obtain ⟨v, rfl, rfl, hvty, hfresh⟩ := nextLocal_bind_eq_ok h (fun _ => rfl) fun _ => rfl
      exact ⟨some v, rfl, rfl, hfresh, by rw [if_neg hvoid, Option.map_some, hvty]⟩
  obtain ⟨result, rfl, rfl, hfresh, hresult⟩ := hcall
  refine ⟨?_, hfresh, .plain rfl rfl _⟩
  obtain ⟨hstatic, rfl, rfl⟩ | ⟨hstatic, object, rfl, hgiven, howned, hcoercion⟩ :=
    receiverOf_eq_ok hobject
  · exact .callStatic htarget hconstructor hstatic hbound hresult
  · exact .callInstance htarget hconstructor hstatic hgiven howned hcoercion hbound hresult

theorem becomes_callBase {args : List Variable}
    (h : (Edit.callBase args).resolve d m t = .ok (c, blocks)) :
    Becomes d m t (.callBase args) c blocks := by
  obtain ⟨hconstructor, h⟩ := except_guard_eq_ok.mp h
  obtain ⟨owner, howner, h⟩ := except_bind_eq_ok.mp h
  cases hbase : owner.base with
  | none =>
    simp only [hbase] at h
    cases h
  | some base =>
    simp only [hbase] at h
    cases hfind : d.findConstructor? base (args.map Variable.ty) with
    | none =>
      simp only [hfind] at h
      cases h
    | some k =>
      simp only [hfind] at h
      obtain ⟨target, htarget, h⟩ := except_bind_eq_ok.mp h
      obtain ⟨bound, hbound, h⟩ := except_bind_eq_ok.mp h
      obtain ⟨this, hthis, h⟩ := except_bind_eq_ok.mp h
      cases h
      exact ⟨.callBase (by simpa using hconstructor) (type_eq_ok.mp howner) hbase hfind htarget
        hbound hthis, fresh_plain rfl rfl, .plain rfl rfl _⟩

theorem becomes_elseIf {left right : Variable} {comparison : Comparison}
    (h : (Edit.elseIf left comparison right).resolve d m t = .ok (c, blocks)) :
    Becomes d m t (.elseIf left comparison right) c blocks := by
  rw [resolve] at h
  split at h
  · rename_i hblocks
    obtain ⟨k, hk, h⟩ := except_bind_eq_ok.mp h
    cases h
    obtain ⟨hleft, hright, hmake⟩ := conditionOf_eq_ok hk
    exact ⟨.elseIf hleft hright hmake, fresh_labels rfl rfl, hblocks ▸ .elseIf k _ _ _ _⟩
  · cases h

theorem becomes_catchBegin {ty : StaticType}
    (h : (Edit.catchBegin ty).resolve d m t = .ok (c, blocks)) :
    Becomes d m t (.catchBegin ty) c blocks := by
  rw [resolve] at h
  split at h
  · rename_i hblocks
    obtain ⟨hty, h⟩ := except_guard_eq_ok.mp h
    obtain ⟨v, rfl, rfl, hvty, hfresh⟩ := nextLocal_bind_eq_ok h (fun _ => rfl) fun _ => rfl
    rw [Bool.not_eq_true, Option.isNone_eq_false_iff] at hty
    exact ⟨.catchBegin hty hvty, hfresh, hblocks ▸ .catchBegin _ _ _ _⟩
  · cases h

theorem becomes_marker {e : Edit}
    (he : e = .elseBegin ∨ e = .endIf ∨ e = .endWhile ∨ e = .endTry)
    (h : e.resolve d m t = .ok (c, blocks)) : Becomes d m t e c blocks := by
  obtain rfl | rfl | rfl | rfl := he
  all_goals
    rw [resolve] at h
    split at h
    · rename_i hblocks
      cases h
      refine ⟨by constructor, fresh_plain rfl rfl, ?_⟩
      rw [hblocks]
      constructor
    · cases h

theorem resolve_eq_ok {e : Edit} (h : e.resolve d m t = .ok (c, blocks)) :
    Becomes d m t e c blocks := by
  cases e with
  | createLocal name ty =>
    obtain ⟨_, hname, h⟩ := except_bind_eq_ok.mp h
    obtain ⟨_, hty, h⟩ := except_bind_eq_ok.mp h
    obtain ⟨hnew, h⟩ := except_guard_eq_ok.mp h
    obtain ⟨v, rfl, rfl, hvty, hfresh⟩ := nextLocal_bind_eq_ok h (fun _ => rfl) fun _ => rfl
    exact ⟨.createLocal (requireStorable_eq_ok.mp hty) hvty hname (Bool.eq_false_iff.mpr hnew),
      hfresh, .plain rfl rfl _⟩
  | assign target source =>
    obtain ⟨_, htarget, h⟩ := except_bind_eq_ok.mp h
    obtain ⟨_, hsource, h⟩ := except_bind_eq_ok.mp h
    obtain ⟨coercion, hcoercion, h⟩ := except_bind_eq_ok.mp h
    cases h
    exact ⟨.assign htarget hsource hcoercion, fresh_plain rfl rfl, .plain rfl rfl _⟩
  | arithmetic op left right =>
    obtain ⟨_, hleft, h⟩ := except_bind_eq_ok.mp h
    obtain ⟨_, hright, h⟩ := except_bind_eq_ok.mp h
    obtain ⟨ty, hty, h⟩ := except_bind_eq_ok.mp h
    obtain ⟨v, rfl, rfl, hvty, hfresh⟩ := nextLocal_bind_eq_ok h (fun _ => rfl) fun _ => rfl
    exact ⟨.arithmetic hleft hright hty hvty, hfresh, .plain rfl rfl _⟩
  | newObject type args => exact becomes_newObject h
  | call method receiver args => exact becomes_call h
  | callBase args => exact becomes_callBase h
  | box value =>
    obtain ⟨_, howned, h⟩ := except_bind_eq_ok.mp h
    obtain ⟨hvalue, h⟩ := except_guard_eq_ok.mp h
    obtain ⟨v, rfl, rfl, hvty, hfresh⟩ := nextLocal_bind_eq_ok h (fun _ => rfl) fun _ => rfl
    exact ⟨.box howned (by simpa using hvalue) hvty, hfresh, .plain rfl rfl _⟩
  | unbox value ty =>
    obtain ⟨_, howned, h⟩ := except_bind_eq_ok.mp h
    obtain ⟨hty, h⟩ := except_guard_eq_ok.mp h
    obtain ⟨hvalue, h⟩ := except_guard_eq_ok.mp h
    obtain ⟨v, rfl, rfl, hvty, hfresh⟩ := nextLocal_bind_eq_ok h (fun _ => rfl) fun _ => rfl
    exact ⟨.unbox howned (by simpa using hty) (by simpa using hvalue) hvty, hfresh,
      .plain rfl rfl _⟩
  | cast value ty =>
    obtain ⟨_, howned, h⟩ := except_bind_eq_ok.mp h
    obtain ⟨hty, h⟩ := except_guard_eq_ok.mp h
    obtain ⟨hvalue, h⟩ := except_guard_eq_ok.mp h
    obtain ⟨v, rfl, rfl, hvty, hfresh⟩ := nextLocal_bind_eq_ok h (fun _ => rfl) fun _ => rfl
    rw [Bool.not_eq_true, Option.isNone_eq_false_iff] at hty
    exact ⟨.cast howned hty (by simpa using hvalue) hvty, hfresh, .plain rfl rfl _⟩
  | raise value =>
    obtain ⟨_, howned, h⟩ := except_bind_eq_ok.mp h
    obtain ⟨hvalue, h⟩ := except_guard_eq_ok.mp h
    cases h
    simp only [Bool.or_eq_true, Bool.not_eq_true', decide_eq_true_eq, not_or,
      Bool.not_eq_false] at hvalue
    exact ⟨.raise howned hvalue.1 hvalue.2, fresh_plain rfl rfl, .plain rfl rfl _⟩
  | ifBegin left comparison right =>
    obtain ⟨k, hk, h⟩ := except_bind_eq_ok.mp h
    cases h
    obtain ⟨hleft, hright, hmake⟩ := conditionOf_eq_ok hk
    exact ⟨.ifBegin hleft hright hmake, fresh_labels rfl rfl, .ifBegin k _ _ _⟩
  | elseIf left comparison right => exact becomes_elseIf h
  | whileBegin left comparison right =>
    obtain ⟨k, hk, h⟩ := except_bind_eq_ok.mp h
    cases h
    obtain ⟨hleft, hright, hmake⟩ := conditionOf_eq_ok hk
    exact ⟨.whileBegin hleft hright hmake, fresh_labels rfl rfl, .whileBegin k _ _ _⟩
  | tryBegin =>
    cases h
    exact ⟨.tryBegin, fresh_plain rfl rfl, .tryBegin _⟩
  | catchBegin ty => exact becomes_catchBegin h
  | elseBegin | endIf | endWhile | endTry => exact becomes_marker (by simp) h
  | ret value =>
    obtain ⟨_, howned, h⟩ := except_bind_eq_ok.mp h
    obtain ⟨hvoid, h⟩ := except_guard_eq_ok.mp h
    obtain ⟨coercion, hcoercion, h⟩ := except_bind_eq_ok.mp h
    cases h
    exact ⟨.ret howned (by simpa using hvoid) hcoercion, fresh_plain rfl rfl, .plain rfl rfl _⟩
  | retVoid =>
    obtain ⟨hvoid, h⟩ := except_guard_eq_ok.mp h
    cases h
    exact ⟨.retVoid (by simpa using hvoid), fresh_plain rfl rfl, .plain rfl rfl _⟩

def Done (d : Draft) (m : Nat) (edit : Edit) (r : Option Variable) (d' : Draft) : Prop :=
  ∃ t t' c, Edited m c t t' d d' ∧ edit.Stands d m t c ∧ r = c.result? ∧
    ∃ blocks, edit.resolve d m t = .ok (c, blocks)

variable {d' : Draft}

theorem perform_done {edit : Edit} {r : Option Variable} (h : edit.perform m d = .ok r d') :
    edit.Done d m r d' := by
  obtain ⟨α, g, op, hperform, -⟩ := edit.exists_agrees m
  obtain ⟨t, hfound, hopen⟩ : ∃ t, d.methods[m]? = some t ∧ t.ensureOpen = .ok () := by
    rw [hperform] at h
    obtain ⟨a, ha, -⟩ := map_eq_ok.mp h
    obtain ⟨t, hfound, hopen, -⟩ := recording_eq_ok ha
    exact ⟨t, hfound, hopen⟩
  cases hresolve : edit.resolve d m t with
  | error err =>
    obtain ⟨n, -, hn⟩ := perform_of_resolve_error hfound hopen hresolve
    rw [h] at hn
    cases hn
  | ok p =>
    obtain ⟨c, blocks⟩ := p
    obtain ⟨hstands, hfresh, hnests⟩ := resolve_eq_ok hresolve
    obtain ⟨n, -, hn⟩ := perform_of_resolve_ok hfound hopen hresolve
    rw [h] at hn
    cases hsetup : c.setup ⟨c.prepare t.emitter, d.constants⟩ with
    | error err o =>
      simp only [hsetup] at hn
      cases hn
    | ok u o =>
      simp only [hsetup] at hn
      cases hn
      obtain ⟨hcheck, hemittable⟩ := Command.check_of_setup hsetup
      have hwrites := c.writes_setup
      refine ⟨t, _, c, ⟨hfound, ⟨n, rfl⟩, hwrites.1.of_ok hsetup, fun q hq => ?_⟩, hstands, rfl,
        blocks, hresolve⟩
      exact ⟨hopen, hcheck, hemittable, hfresh, hnests, hwrites.2 _ _ _ hsetup q hq, rfl⟩

theorem fails_perform (edit : Edit) : Fails m (edit.perform m) := by
  intro d err d' h
  obtain ⟨α, g, op, hperform, -⟩ := edit.exists_agrees m
  have haborts {t t' : MethodDef} {k : Pool} {n : Nat} (hfound : d.methods[m]? = some t)
      (hopen : t.ensureOpen = .ok ()) (hdecl : t'.declaration = t.declaration)
      (hstate : t'.state = .aborted) (hcommands : t'.commands = t.commands)
      (hk : k.Extends d.constants) : Aborts m d (d.edited m t' k n) :=
    .inr ⟨.edited hfound hdecl hk, t, hfound, hopen, t',
      found_edited (lt_size_of_found hfound), hstate, hcommands⟩
  have hrecording := h
  rw [hperform, map_eq_error] at hrecording
  obtain rfl | ⟨t, hfound, hopen, -⟩ := recording_eq_error hrecording
  · exact .inl rfl
  cases hresolve : edit.resolve d m t with
  | error err' =>
    obtain ⟨n, -, hn⟩ := perform_of_resolve_error hfound hopen hresolve
    rw [h] at hn
    cases hn
    exact haborts hfound hopen rfl rfl rfl (.refl _)
  | ok p =>
    obtain ⟨c, blocks⟩ := p
    obtain ⟨n, -, hn⟩ := perform_of_resolve_ok hfound hopen hresolve
    rw [h] at hn
    have hgrows := c.writes_setup.1 ⟨c.prepare t.emitter, d.constants⟩
    cases hsetup : c.setup ⟨c.prepare t.emitter, d.constants⟩ with
    | ok u o =>
      simp only [hsetup] at hn
      cases hn
    | error err' o =>
      rw [hsetup] at hgrows
      simp only [hsetup] at hn
      cases hn
      exact haborts hfound hopen rfl rfl rfl hgrows

end Edit

namespace BuildM

variable {receiver : Variable} {name : String} {args : List Variable}

theorem callNamed_eq (m : Nat) (receiver : Variable) (name : String) (args : List Variable) :
    callNamed m receiver name args =
      (recording m (fun _ => reading (·.methodNamed receiver name args)) >>= fun method =>
        call m method (some receiver) args) := by
  refine congrArg (recording m · >>= fun method => call m method (some receiver) args) ?_
  funext t d
  rw [reading, get_bind, Draft.methodNamed]
  cases receiver.ty.classId? with
  | none => rfl
  | some type =>
    dsimp only
    rw [get_bind]
    cases d.findMethod? type name (args.map Variable.ty) <;> rfl

theorem callNamed_eq_ok {r : Option Variable} (h : callNamed m receiver name args d = .ok r d') :
    ∃ method, d.methodNamed receiver name args = .ok method ∧
      (Edit.call method (some receiver) args).perform m d = .ok r d' := by
  rw [callNamed_eq] at h
  obtain ⟨method, s, hfind, hcall⟩ := bind_eq_ok.mp h
  obtain ⟨t, -, -, hread⟩ := recording_eq_ok hfind
  obtain ⟨hmethod, rfl⟩ := reading_eq_ok.mp hread
  exact ⟨method, hmethod, hcall⟩

theorem callNamed_eq_error {e : BuildError} (h : callNamed m receiver name args d = .error e d') :
    recording m (fun _ => reading (·.methodNamed receiver name args)) d = .error e d' ∨
      ∃ method, (Edit.call method (some receiver) args).perform m d = .error e d' := by
  rw [callNamed_eq] at h
  obtain h | ⟨method, s, hfind, hcall⟩ := bind_eq_error.mp h
  · exact .inl h
  · obtain ⟨t, -, -, hread⟩ := recording_eq_ok hfind
    obtain ⟨-, rfl⟩ := reading_eq_ok.mp hread
    exact .inr ⟨method, hcall⟩

end BuildM

end Bytesmith.Build
