import Bytesmith.Build.Body
import Bytesmith.Proofs.Emission

namespace Bytesmith.Build

open Code Outcome

section

variable {α : Type} {as : Array α} {a b : α} {i : Nat}

theorem getElem?_push_of_some (h : as[i]? = some a) : (as.push b)[i]? = some a := by
  rw [Array.getElem?_push, if_neg (Nat.ne_of_lt (Array.getElem?_eq_some_iff.mp h).1), h]

theorem getElem?_push_cases (h : (as.push a)[i]? = some b) :
    as[i]? = some b ∨ i = as.size ∧ b = a := by
  rw [Array.getElem?_push] at h
  by_cases hi : i = as.size
  · rw [if_pos hi] at h
    exact .inr ⟨hi, (Option.some.inj h).symm⟩
  · rw [if_neg hi] at h
    exact .inl h

variable {f : α → α} {k : Nat}

theorem exists_modify (P : α → Prop) (ha : P a) (hf : P (f a)) (h : as[i]? = some a) :
    ∃ a', (as.modify k f)[i]? = some a' ∧ P a' := by
  rw [Array.getElem?_modify, h]
  by_cases hk : k = i
  · rw [if_pos hk]
    exact ⟨f a, rfl, hf⟩
  · rw [if_neg hk]
    exact ⟨a, rfl, ha⟩

theorem modify_cases (h : (as.modify k f)[i]? = some b) :
    ∃ a, as[i]? = some a ∧ (i = k ∧ b = f a ∨ i ≠ k ∧ b = a) := by
  rw [Array.getElem?_modify] at h
  by_cases hk : k = i
  · rw [if_pos hk] at h
    obtain ⟨a, ha, rfl⟩ := Option.map_eq_some_iff.mp h
    exact ⟨a, ha, .inl ⟨hk.symm, rfl⟩⟩
  · rw [if_neg hk] at h
    exact ⟨b, h, .inr ⟨Ne.symm hk, rfl⟩⟩

end

def MethodDef.declaration (t : MethodDef) :
    Nat × String × MethodAttributes × StaticType × List Parameter × Bool :=
  (t.owner, t.name, t.attrs, t.returnType, t.params, t.isConstructor)

def MethodDef.nextLocal (t : MethodDef) (m : Nat) (name : String) (ty : StaticType) :
    Except BuildError Variable :=
  if t.emitter.isFinished then .error (.invalidOperation (.finishedEmitter t.emitter.name))
  else if 65536 ≤ t.emitter.localCount then
    .error (.invalidOperation (.tooManyLocals t.emitter.name))
  else .ok (.slot m t.emitter.localCount.toUInt16 name ty)

namespace Draft

def edited (d : Draft) (m : Nat) (t : MethodDef) (constants : Pool) (nameCount : Nat) : Draft :=
  { d with
    methods := d.methods.setIfInBounds m t
    constants := constants
    nameCount := nameCount }

variable {d d' : Draft} {m : Nat} {t t' : MethodDef} {k : Pool} {n : Nat}

theorem lt_size_of_found (h : d.methods[m]? = some t) : m < d.methods.size :=
  (Array.getElem?_eq_some_iff.mp h).1

theorem edited_self (h : d.methods[m]? = some t) : d.edited m t d.constants d.nameCount = d := by
  have hset : d.methods.setIfInBounds m t = d.methods := by
    refine Array.ext_getElem? fun i => ?_
    rw [Array.getElem?_setIfInBounds]
    by_cases hi : m = i
    · rw [if_pos hi, if_pos (lt_size_of_found h), ← hi, h]
    · rw [if_neg hi]
  rw [edited, hset]

theorem found_edited (hm : m < d.methods.size) : (d.edited m t k n).methods[m]? = some t := by
  rw [edited, Array.getElem?_setIfInBounds_self, if_pos hm]

theorem found_edited_ne {i : Nat} (h : i ≠ m) : (d.edited m t k n).methods[i]? = d.methods[i]? := by
  rw [edited, Array.getElem?_setIfInBounds_ne h.symm]

theorem method_edited (hm : m < d.methods.size) : (d.edited m t k n).method m = .ok t := by
  rw [method, find, found_edited hm]

theorem find_eq_ok {α : Type} {kind : MemberKind} {table : Array α} {id : Nat} {a : α} :
    find kind table id = .ok a ↔ table[id]? = some a := by
  rw [find]
  cases table[id]? <;> simp

theorem method_eq_ok : d.method m = .ok t ↔ d.methods[m]? = some t := find_eq_ok

theorem modifyMethod_edited (hm : m < d.methods.size) (f : MethodDef → MethodDef) :
    (d.edited m t k n).modifyMethod m f = d.edited m (f t) k n := by
  have hset : (d.methods.setIfInBounds m t).modify m f = d.methods.setIfInBounds m (f t) := by
    refine Array.ext_getElem? fun i => ?_
    rw [Array.getElem?_modify, Array.getElem?_setIfInBounds, Array.getElem?_setIfInBounds]
    by_cases hi : m = i
    · simp [hi, hi ▸ hm]
    · simp [hi]
  rw [modifyMethod, edited, hset, edited]

theorem modifyMethod_of_found (h : d.methods[m]? = some t) (f : MethodDef → MethodDef) :
    d.modifyMethod m f = d.edited m (f t) d.constants d.nameCount := by
  conv => lhs; rw [← edited_self h]
  exact modifyMethod_edited (lt_size_of_found h) f

structure Touches (m : Nat) (d d' : Draft) : Prop where
  rest : d' = { d with
    methods := d'.methods, constants := d'.constants, nameCount := d'.nameCount }
  size : d'.methods.size = d.methods.size
  others : ∀ i, i ≠ m → d'.methods[i]? = d.methods[i]?
  declared : ∀ t, d.methods[m]? = some t →
    ∃ t', d'.methods[m]? = some t' ∧ t'.declaration = t.declaration
  grows : d'.constants.Extends d.constants

instance : Std.Refl (Touches m) :=
  ⟨fun _ => ⟨rfl, rfl, fun _ _ => rfl, fun t h => ⟨t, h, rfl⟩, .refl _⟩⟩

instance : Trans (Touches m) (Touches m) (Touches m) where
  trans {a b c} h h' := by
    refine ⟨?_, h'.size.trans h.size, fun i hi => (h'.others i hi).trans (h.others i hi), ?_,
      h'.grows.trans h.grows⟩
    · rw [h'.rest, h.rest]
    · intro t ht
      obtain ⟨t', ht', hh⟩ := h.declared t ht
      obtain ⟨t'', ht'', hh'⟩ := h'.declared t' ht'
      exact ⟨t'', ht'', hh'.trans hh⟩

theorem Touches.created_eq (h : Touches m d d') : d'.created = d.created := by
  rw [h.rest]

theorem Touches.modifyMethod (d : Draft) (m : Nat) {f : MethodDef → MethodDef}
    (hf : ∀ t, (f t).declaration = t.declaration) : Touches m d (d.modifyMethod m f) := by
  refine ⟨rfl, Array.size_modify .., fun i hi => ?_, fun t ht => ⟨f t, ?_, hf t⟩, .refl _⟩
  · rw [Draft.modifyMethod, Array.getElem?_modify, if_neg hi.symm]
  · rw [Draft.modifyMethod, Array.getElem?_modify, if_pos rfl, ht]
    rfl

theorem Touches.edited (hfound : d.methods[m]? = some t) (hdecl : t'.declaration = t.declaration)
    (hk : k.Extends d.constants) : Touches m d (d.edited m t' k n) := by
  refine ⟨rfl, Array.size_setIfInBounds, fun i hi => found_edited_ne hi, fun s hs => ?_, hk⟩
  rw [hfound] at hs
  cases hs
  exact ⟨t', found_edited (lt_size_of_found hfound), hdecl⟩

end Draft

namespace BuildM

open Draft

variable {α β : Type} {d d' : Draft} {m : Nat} {t t' : MethodDef} {k : Pool} {n : Nat}
  {x : Except BuildError α} {a : α} {b : β}

theorem ofExcept_eq_ok : ofExcept x d = .ok a d' ↔ x = .ok a ∧ d = d' := by
  cases x with
  | ok b =>
    constructor
    · intro h
      cases h
      exact ⟨rfl, rfl⟩
    · rintro ⟨h, rfl⟩
      cases h
      rfl
  | error e =>
    constructor
    · intro h
      cases h
    · rintro ⟨h, -⟩
      cases h

theorem ofExcept_eq_error {e : BuildError} (h : ofExcept x d = .error e d') : d = d' := by
  cases x <;> cases h
  rfl

theorem reading_eq_ok {f : Draft → Except BuildError α} :
    reading f d = .ok a d' ↔ f d = .ok a ∧ d = d' := ofExcept_eq_ok

theorem ofExcept_bind_eq_ok {f : α → BuildM β} :
    (ofExcept x >>= f) d = .ok b d' ↔ ∃ a, x = .ok a ∧ f a d = .ok b d' := by
  rw [bind_eq_ok]
  constructor
  · rintro ⟨a, s, hread, h⟩
    obtain ⟨hx, rfl⟩ := ofExcept_eq_ok.mp hread
    exact ⟨a, hx, h⟩
  · rintro ⟨a, hx, h⟩
    exact ⟨a, d, ofExcept_eq_ok.mpr ⟨hx, rfl⟩, h⟩

theorem reading_bind_eq_ok {f : Draft → Except BuildError α} {g : α → BuildM β} :
    (reading f >>= g) d = .ok b d' ↔ ∃ a, f d = .ok a ∧ g a d = .ok b d' :=
  ofExcept_bind_eq_ok

theorem final_ofExcept (x : Except BuildError α) (d : Draft) : final (ofExcept x d) = d := by
  cases x <;> rfl

theorem final_reading (f : Draft → Except BuildError α) (d : Draft) : final (reading f d) = d :=
  final_ofExcept (f d) d

theorem related_check {R : Draft → Draft → Prop} [Std.Refl R] {f : α → BuildM β}
    (h : ∀ a, x = .ok a → R d (final (f a d))) :
    R d (final ((ofExcept x >>= f) d)) := by
  cases x with
  | ok a => exact h a rfl
  | error e => exact Std.Refl.refl d

theorem leads_checked {R : Draft → Draft → Prop} [Std.Refl R] {x : Draft → Except BuildError α}
    {f : Draft → α → BuildM β}
    (h : ∀ d a, R d (final (f d a d))) : Leads R (get >>= fun d => ofExcept (x d) >>= f d) :=
  fun d => related_check fun a _ => h d a

theorem leads_reading (f : Draft → Except BuildError α) : Leads (Touches m) (reading f) :=
  .of_state (final_reading f)

theorem touches_store (o : Output) (hk : o.constants.Extends d.constants) :
    Touches m d
      { d.modifyMethod m ({ · with emitter := o.emitter }) with constants := o.constants } := by
  have h := Touches.modifyMethod d m (f := ({ · with emitter := o.emitter })) fun _ => rfl
  exact ⟨rfl, h.size, h.others, h.declared, hk⟩

theorem leads_writing {op : CodeM α} (hop : Leads CodeM.Grows op) :
    Leads (Touches m) (writing m op) := by
  refine (leads_reading _).bind fun target d => ?_
  have hgrow := hop ⟨target.emitter, d.constants⟩
  dsimp only
  cases h : op ⟨target.emitter, d.constants⟩ with
  | ok _ o | error _ o =>
    rw [h] at hgrow
    exact touches_store o hgrow

theorem leads_modifyMethod {f : MethodDef → MethodDef} (hf : ∀ t, (f t).declaration = t.declaration) :
    Leads (Touches m) (modify (·.modifyMethod m f) : BuildM Unit) :=
  fun d => Touches.modifyMethod d m hf

theorem recording_eq {op : MethodDef → BuildM α} (hfound : d.methods[m]? = some t)
    (hopen : t.ensureOpen = .ok ()) :
    recording m op d = match op t d with
      | .ok a d' => .ok a d'
      | .error e d' => .error e (d'.modifyMethod m ({ · with state := .aborted })) := by
  refine (bind_of_ok (reading_eq_ok.mpr ⟨method_eq_ok.mpr hfound, rfl⟩)).trans ?_
  exact bind_of_ok (ofExcept_eq_ok.mpr ⟨hopen, rfl⟩)

theorem recording_eq_ok {op : MethodDef → BuildM α} {a : α} (h : recording m op d = .ok a d') :
    ∃ t, d.methods[m]? = some t ∧ t.ensureOpen = .ok () ∧ op t d = .ok a d' := by
  obtain ⟨t, hfound, h⟩ := reading_bind_eq_ok.mp h
  obtain ⟨u, hopen, h⟩ := ofExcept_bind_eq_ok.mp h
  refine ⟨t, method_eq_ok.mp hfound, hopen, ?_⟩
  cases hop : op t d with
  | ok b s =>
    simp only [hop] at h
    exact h
  | error e s =>
    simp only [hop] at h
    cases h

theorem recording_eq_error {op : MethodDef → BuildM α} {e : BuildError}
    (h : recording m op d = .error e d') :
    d' = d ∨ ∃ t, d.methods[m]? = some t ∧ t.ensureOpen = .ok () ∧
      ∃ s, op t d = .error e s ∧ d' = s.modifyMethod m ({ · with state := .aborted }) := by
  obtain hread | ⟨t, s, hread, h⟩ := bind_eq_error.mp h
  · exact .inl (ofExcept_eq_error hread).symm
  obtain ⟨hfound, rfl⟩ := reading_eq_ok.mp hread
  obtain hcheck | ⟨u, s, hcheck, h⟩ := bind_eq_error.mp h
  · exact .inl (ofExcept_eq_error hcheck).symm
  obtain ⟨hopen, rfl⟩ := ofExcept_eq_ok.mp hcheck
  refine .inr ⟨t, method_eq_ok.mp hfound, hopen, ?_⟩
  cases hrun : op t d with
  | ok b s =>
    simp only [hrun] at h
    cases h
  | error err s =>
    simp only [hrun] at h
    cases h
    exact ⟨s, rfl, rfl⟩

/-- What is left of a draft when an operation on a method fails: all of it if the body was not
open, and else the body is aborted, with the commands that it has. -/
def Aborts (m : Nat) (d d' : Draft) : Prop :=
  d' = d ∨ Touches m d d' ∧ ∃ t, d.methods[m]? = some t ∧ t.ensureOpen = .ok () ∧
    ∃ t', d'.methods[m]? = some t' ∧ t'.state = .aborted ∧ t'.commands = t.commands

theorem Aborts.created_eq (h : Aborts m d d') : d'.created = d.created := by
  obtain rfl | ⟨htouches, -⟩ := h
  · rfl
  · exact htouches.created_eq

def Fails (m : Nat) (x : BuildM α) : Prop := ∀ d e d', x d = .error e d' → Aborts m d d'

theorem fails_recording {f : Draft → Except BuildError α} :
    Fails m (recording m fun _ => reading f) := by
  intro d e d' h
  obtain rfl | ⟨t, hfound, hopen, s, hread, rfl⟩ := recording_eq_error h
  · exact .inl rfl
  · obtain rfl : d = s := ofExcept_eq_error hread
    rw [modifyMethod_of_found hfound]
    exact .inr ⟨.edited hfound rfl (.refl _), t, hfound, hopen, _,
      found_edited (lt_size_of_found hfound), rfl, rfl⟩

theorem store_edited (hm : m < d.methods.size) (o : Output) :
    { (d.edited m t k n).modifyMethod m ({ · with emitter := o.emitter }) with
      constants := o.constants } = d.edited m { t with emitter := o.emitter } o.constants n := by
  rw [modifyMethod_edited hm]
  rfl

theorem writing_edited (hm : m < d.methods.size) (op : CodeM α) :
    writing m op (d.edited m t k n) = match op ⟨t.emitter, k⟩ with
      | .ok a o => .ok a (d.edited m { t with emitter := o.emitter } o.constants n)
      | .error e o => .error e (d.edited m { t with emitter := o.emitter } o.constants n) := by
  refine (bind_of_ok (reading_eq_ok.mpr ⟨method_edited hm, rfl⟩)).trans ?_
  dsimp only
  simp only [store_edited hm]
  rfl

theorem writing_edited_eq_ok {op : CodeM α} (hm : m < d.methods.size)
    (h : writing m op (d.edited m t k n) = .ok a d') :
    ∃ o, op ⟨t.emitter, k⟩ = .ok a o ∧
      d' = d.edited m { t with emitter := o.emitter } o.constants n := by
  rw [writing_edited hm] at h
  cases hop : op ⟨t.emitter, k⟩ with
  | ok b o =>
    simp only [hop] at h
    cases h
    exact ⟨o, rfl, rfl⟩
  | error e o =>
    simp only [hop] at h
    cases h

theorem emitting_eq_ok {op : EmitM α} {o o' : Output}
    (h : CodeM.emitting op o = .ok a o') :
    ∃ e, op o.emitter = .ok a e ∧ o' = { o with emitter := e } := by
  unfold CodeM.emitting at h
  cases hop : op o.emitter with
  | ok b e =>
    simp only [hop] at h
    cases h
    exact ⟨e, rfl, rfl⟩
  | error err e =>
    simp only [hop] at h
    cases h

theorem writing_emitting (hfound : d.methods[m]? = some t) (op : EmitM α) :
    writing m (CodeM.emitting op) d = match op t.emitter with
      | .ok a e => .ok a (d.edited m { t with emitter := e } d.constants d.nameCount)
      | .error err e => .error err (d.edited m { t with emitter := e } d.constants d.nameCount) := by
  conv => lhs; rw [← edited_self hfound]
  rw [writing_edited (lt_size_of_found hfound), CodeM.emitting]
  cases op t.emitter <;> rfl

theorem push_eq (c : Command) (hm : m < d.methods.size) :
    push m c (d.edited m t k n) = match c.setup ⟨t.emitter, k⟩ with
      | .ok _ o => .ok () (d.edited m { t with
          emitter := o.emitter
          commands := t.commands.push ⟨c, t.emitter.offset, o.emitter.offset⟩ } o.constants n)
      | .error e o => .error e (d.edited m { t with emitter := o.emitter } o.constants n) := by
  have hwrite := writing_edited (t := t) (k := k) (n := n) hm (do
    let codeStart := (← get).emitter.offset
    c.setup
    return (codeStart, (← get).emitter.offset))
  rw [get_bind] at hwrite
  cases hsetup : c.setup ⟨t.emitter, k⟩ with
  | ok u o =>
    rw [bind_of_ok hsetup] at hwrite
    refine (bind_of_ok hwrite).trans ?_
    exact congrArg (EStateM.Result.ok ()) (modifyMethod_edited hm _)
  | error e o =>
    rw [bind_of_error hsetup] at hwrite
    exact bind_of_error hwrite

theorem setBlocks_eq (hm : m < d.methods.size) (blocks : List Block) :
    setBlocks m blocks (d.edited m t k n) = .ok () (d.edited m { t with blocks := blocks } k n) :=
  congrArg (EStateM.Result.ok ()) (modifyMethod_edited hm _)

theorem defineLabel_eq (hm : m < d.methods.size) :
    defineLabel m (d.edited m t k n) = .ok ⟨t.emitter.nextLabel⟩ (d.edited m
      { t with emitter := { t.emitter with nextLabel := t.emitter.nextLabel + 1 } } k n) :=
  writing_edited hm _

theorem declare_eq (hm : m < d.methods.size) (name : String) (ty : StaticType) :
    declare m name ty (d.edited m t k n) = match t.nextLocal m name ty with
      | .ok v => .ok v (d.edited m
          { t with emitter := { t.emitter with locals := t.emitter.locals.push name } } k n)
      | .error e => .error e (d.edited m t k n) := by
  have hwrite := writing_edited (t := t) (k := k) (n := n) hm
    (CodeM.emitting (EmitM.declareLocal name))
  rw [MethodDef.nextLocal]
  by_cases hopen : t.emitter.isFinished = true
  · have hlocal : EmitM.declareLocal name t.emitter =
        .error (.invalidOperation (.finishedEmitter t.emitter.name)) t.emitter := by
      refine bind_of_error ?_
      rw [EmitM.ensureOpen, get_bind, if_pos hopen]
      rfl
    simp only [CodeM.emitting, hlocal] at hwrite
    rw [if_pos hopen]
    exact bind_of_error hwrite
  have hensured : EmitM.ensureOpen t.emitter = .ok () t.emitter := by
    rw [EmitM.ensureOpen, get_bind, if_neg hopen]
    rfl
  by_cases hsize : 65536 ≤ t.emitter.localCount
  · have hlocal : EmitM.declareLocal name t.emitter =
        .error (.invalidOperation (.tooManyLocals t.emitter.name)) t.emitter := by
      rw [EmitM.declareLocal, bind_of_ok hensured, get_bind, if_pos hsize]
      rfl
    simp only [CodeM.emitting, hlocal] at hwrite
    rw [if_neg hopen, if_pos hsize]
    exact bind_of_error hwrite
  · have hlocal : EmitM.declareLocal name t.emitter = .ok t.emitter.localCount.toUInt16
        { t.emitter with locals := t.emitter.locals.push name } := by
      rw [EmitM.declareLocal, bind_of_ok hensured, get_bind, if_neg hsize]
      rfl
    simp only [CodeM.emitting, hlocal] at hwrite
    rw [if_neg hopen, if_neg hsize]
    exact bind_of_ok hwrite

theorem temp_eq (stem : String) (ty : StaticType) :
    temp m stem ty (d.edited m t k n) =
      declare m s!"__{stem}{n + 1}" ty (d.edited m t k (n + 1)) := rfl

end BuildM

namespace Command

def labels : Command → List Label
  | .ifBegin _ elseLabel finalLabel => [elseLabel, finalLabel]
  | .elseIf _ _ elseLabel _ => [elseLabel]
  | .whileBegin _ startLabel endLabel => [startLabel, endLabel]
  | _ => []

def prepare (c : Command) (e : Emitter) : Emitter :=
  { e with
    nextLabel := e.nextLabel + c.labels.length
    locals := match c.result? with
      | some v => e.locals.push v.name
      | none => e.locals }

structure Fresh (m : Nat) (e : Emitter) (c : Command) : Prop where
  slot : ∀ v, c.result? = some v → e.localCount < 65536 ∧
    ∃ name ty, v = .slot m e.localCount.toUInt16 name ty
  labels : c.labels = (List.range' e.nextLabel c.labels.length).map Label.mk

theorem Fresh.runs_catchBegin {m : Nat} {q : Pool} {e₀ e e' : Emitter} {ty : StaticType}
    {v : Variable} (hf : (catchBegin ty v).Fresh m e₀) (he : (catchBegin ty v).Emittable)
    (hr : Runs q e (catchBegin ty v).actions e') :
    ∃ tag name ty' region outer, ty.tag? = some tag ∧
      v = .slot m e₀.localCount.toUInt16 name ty' ∧ e.regions = region :: outer ∧
      e' = (e.openCatch region outer tag).push (.storeLocal e₀.localCount.toUInt16) := by
  obtain ⟨tag, htag⟩ := Option.isSome_iff_exists.mp he
  obtain ⟨-, name, ty', rfl⟩ := hf.slot v rfl
  simp only [actions, htag] at hr
  cases hr with
  | cons hopen hr =>
    cases hopen with
    | openCatch hregions =>
      exact ⟨tag, name, ty', _, _, htag, rfl, hregions, hr.single_inv.put_inv⟩

inductive Nests : Command → List Block → List Block → Prop
  | plain {c : Command} (hi : c.indents = false) (ho : c.outdents = false) (blocks : List Block) :
      Nests c blocks blocks
  | ifBegin (c : Condition) (l f : Label) (blocks : List Block) :
      Nests (.ifBegin c l f) blocks (.conditional (some l) f :: blocks)
  | elseIf (c : Condition) (previous l f : Label) (outer : List Block) :
      Nests (.elseIf c previous l f) (.conditional (some previous) f :: outer)
        (.conditional (some l) f :: outer)
  | elseBegin (previous f : Label) (outer : List Block) :
      Nests (.elseBegin previous f) (.conditional (some previous) f :: outer)
        (.conditional none f :: outer)
  | endIf (pending : Option Label) (f : Label) (outer : List Block) :
      Nests (.endIf pending f) (.conditional pending f :: outer) outer
  | whileBegin (c : Condition) (s e : Label) (blocks : List Block) :
      Nests (.whileBegin c s e) blocks (.loop s e :: blocks)
  | endWhile (s e : Label) (outer : List Block) : Nests (.endWhile s e) (.loop s e :: outer) outer
  | tryBegin (blocks : List Block) : Nests .tryBegin blocks (.guarded false :: blocks)
  | catchBegin (ty : StaticType) (v : Variable) (hasCatch : Bool) (outer : List Block) :
      Nests (.catchBegin ty v) (.guarded hasCatch :: outer) (.guarded true :: outer)
  | endTry (outer : List Block) : Nests .endTry (.guarded true :: outer) outer

end Command

structure Takes (q : Pool) (m : Nat) (c : Command) (t t' : MethodDef) : Prop where
  isOpen : t.ensureOpen = .ok ()
  check : c.check = .ok ()
  emittable : c.Emittable
  fresh : c.Fresh m t.emitter
  nests : c.Nests t.blocks t'.blocks
  runs : Runs q (c.prepare t.emitter) c.actions t'.emitter
  eq : t' = { t with
    emitter := t'.emitter
    commands := t.commands.push ⟨c, t.emitter.offset, t'.emitter.offset⟩
    blocks := t'.blocks }

structure Edited (m : Nat) (c : Command) (t t' : MethodDef) (d d' : Draft) : Prop where
  found : d.methods[m]? = some t
  eq : ∃ n, d' = d.edited m t' d'.constants n
  grows : d'.constants.Extends d.constants
  takes : ∀ q : Pool, q.Extends d'.constants → Takes q m c t t'

theorem Edited.created_eq {m : Nat} {c : Command} {t t' : MethodDef} {d d' : Draft}
    (h : Edited m c t t' d d') : d'.created = d.created := by
  obtain ⟨n, heq⟩ := h.eq
  rw [heq]
  rfl

end Bytesmith.Build
