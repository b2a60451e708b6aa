import Bytesmith.Proofs.Balance

namespace Bytesmith.Build

open Code Outcome Emitter

namespace Emitter

variable (e : Emitter)

@[simp]
theorem nextLabel_leave (l : Label) : (e.leave l).nextLabel = e.nextLabel := by
  obtain ⟨-, h⟩ | ⟨-, h⟩ := e.leave_eq l <;> rw [h]
  rfl

@[simp]
theorem nextLabel_append (code : List (Instr Label)) : (e.append code).nextLabel = e.nextLabel := by
  induction code generalizing e with
  | nil => rfl
  | cons i code ih =>
    rw [append_cons, ih]
    rfl

theorem isFinished_leave (l : Label) : (e.leave l).isFinished = e.isFinished := by
  obtain ⟨-, h⟩ | ⟨-, h⟩ := e.leave_eq l <;> rw [h]
  rfl

end Emitter

structure Awaits (labels : List Label) (e : Emitter) : Prop where
  distinct : labels.Nodup
  unmarked : ∀ l ∈ labels, e.isMarked l = false
  defined : ∀ l ∈ labels, l.id < e.nextLabel
  marked : ∀ l, e.isMarked l = true → l.id < e.nextLabel

namespace Awaits

variable {labels labels' : List Label} {e e' : Emitter} {l : Label}

theorem perm (h : Awaits labels e) (hp : labels.Perm labels') : Awaits labels' e :=
  ⟨hp.nodup_iff.mp h.distinct, fun l hl => h.unmarked l (hp.mem_iff.mpr hl),
    fun l hl => h.defined l (hp.mem_iff.mpr hl), h.marked⟩

theorem of_marks (h : Awaits labels e) (hm : e'.marks = e.marks) (hn : e'.nextLabel = e.nextLabel) :
    Awaits labels e' := by
  have hmarked (l : Label) : e'.isMarked l = e.isMarked l := by
    rw [isMarked, position?, hm]
    rfl
  refine ⟨h.distinct, fun l hl => ?_, fun l hl => ?_, fun l hl => ?_⟩
  · rw [hmarked]
    exact h.unmarked l hl
  · rw [hn]
    exact h.defined l hl
  · rw [hmarked] at hl
    rw [hn]
    exact h.marked l hl

theorem mark (h : Awaits (l :: labels) e) : Awaits labels (e.mark l) := by
  obtain ⟨hnew, hdistinct⟩ := List.nodup_cons.mp h.distinct
  refine ⟨hdistinct, fun l' hl' => ?_, fun l' hl' => h.defined l' (.tail _ hl'),
    fun l' hl' => ?_⟩
  · have hne : l' ≠ l := fun heq => hnew (heq ▸ hl')
    rw [isMarked_mark, h.unmarked l' (.tail _ hl'), beq_false_of_ne hne]
    rfl
  · rw [isMarked_mark, Bool.or_eq_true, beq_iff_eq] at hl'
    obtain rfl | hl' := hl'
    · exact h.defined l' (.head _)
    · exact h.marked l' hl'

theorem define {k : Nat} (h : Awaits labels e) (hm : e'.marks = e.marks)
    (hn : e'.nextLabel = e.nextLabel + k) :
    Awaits ((List.range' e.nextLabel k).map Label.mk ++ labels) e' := by
  have hmarked (l : Label) : e'.isMarked l = e.isMarked l := by
    rw [isMarked, position?, hm]
    rfl
  have hnew (l : Label) (hl : l ∈ (List.range' e.nextLabel k).map Label.mk) :
      e.nextLabel ≤ l.id ∧ l.id < e.nextLabel + k := by
    obtain ⟨i, hi, rfl⟩ := List.mem_map.mp hl
    exact List.mem_range'_1.mp hi
  refine ⟨List.nodup_append.mpr ⟨?_, h.distinct, fun l hl l' hl' heq => ?_⟩, fun l hl => ?_,
    fun l hl => ?_, fun l hl => ?_⟩
  · exact (List.nodup_range' ..).map fun _ _ h => Label.mk.inj h
  · have := h.defined l' hl'
    have := (hnew l hl).1
    rw [heq] at this
    omega
  · rw [hmarked]
    obtain hl | hl := List.mem_append.mp hl
    · rw [← Bool.not_eq_true]
      intro hmark
      have := h.marked l hmark
      have := (hnew l hl).1
      omega
    · exact h.unmarked l hl
  · rw [hn]
    obtain hl | hl := List.mem_append.mp hl
    · exact (hnew l hl).2
    · have := h.defined l hl
      omega
  · rw [hmarked] at hl
    have := h.marked l hl
    omega

end Awaits

def Block.caught? : Block → Option Bool
  | .guarded hasCatch => some hasCatch
  | _ => none

/-- The labels that open blocks and regions have still to mark. -/
def awaited (blocks : List Block) (regions : List Region) : List Label :=
  blocks.flatMap Block.pending ++ regions.map Region.endLabel

structure Tidy (blocks : List Block) (e : Emitter) : Prop where
  awaits : Awaits (awaited blocks e.regions) e
  caught : blocks.filterMap Block.caught? = e.regions.map (·.catches != 0)

namespace Tidy

variable {q : Pool} {m : Nat} {c : Command} {blocks blocks' : List Block} {e e' : Emitter}

theorem of_marks (h : Tidy blocks e) (hm : e'.marks = e.marks)
    (hn : e'.nextLabel = e.nextLabel) (hr : e'.regions = e.regions) : Tidy blocks e' := by
  refine ⟨?_, ?_⟩
  · rw [hr]
    exact h.awaits.of_marks hm hn
  · rw [hr]
    exact h.caught

theorem plain (h : Tidy blocks e) (hi : c.indents = false) (ho : c.outdents = false)
    (hr : Runs q (c.prepare e) c.actions e') : Tidy blocks e' := by
  obtain ⟨rfl, -⟩ := Command.runs_plain hi ho hr
  have hl : c.labels = [] := by cases c <;> first | rfl | cases hi
  refine h.of_marks ?_ ?_ ?_
  · rw [marks_append]
    rfl
  · rw [nextLabel_append, Command.prepare, hl]
    rfl
  · rw [regions_append]
    rfl

theorem branches {k : Condition} {l : Label} (h : Tidy blocks e) (hr : Runs q e (k.branches l) e') :
    Tidy blocks e' := by
  obtain ⟨rfl, -⟩ := Condition.runs_branches hr
  refine h.of_marks ?_ ?_ ?_
  · exact marks_append e _
  · exact nextLabel_append e _
  · exact regions_append e _

theorem prepare (h : Tidy blocks e) (hf : c.Fresh m e) :
    Awaits (c.labels ++ awaited blocks e.regions) (c.prepare e) := by
  rw [hf.labels]
  exact h.awaits.define rfl rfl

theorem exists_region {hasCatch : Bool} (h : Tidy (.guarded hasCatch :: blocks) e) :
    ∃ region outer, e.regions = region :: outer ∧ hasCatch = (region.catches != 0) := by
  have hcaught := h.caught
  cases hr : e.regions with
  | nil =>
    rw [hr] at hcaught
    cases hcaught
  | cons region outer =>
    rw [hr] at hcaught
    exact ⟨region, outer, rfl, (List.cons.inj hcaught).1⟩

theorem mark_leave {l : Label} (hw : Awaits (l :: awaited blocks e.regions) e)
    (hcaught : blocks.filterMap Block.caught? = e.regions.map (·.catches != 0)) (f : Label) :
    Tidy blocks ((leave e f).mark l) := by
  have hregions := regions_leave e f
  refine ⟨?_, ?_⟩
  · change Awaits (awaited blocks (leave e f).regions) _
    rw [hregions]
    exact (hw.of_marks (marks_leave e f) (nextLabel_leave e f)).mark
  · change _ = (leave e f).regions.map _
    rw [hregions]
    exact hcaught

theorem takes (h : Tidy blocks e) (hn : c.Nests blocks blocks') (he : c.Emittable)
    (hf : c.Fresh m e) (hr : Runs q (c.prepare e) c.actions e') : Tidy blocks' e' := by
  have hw := h.prepare hf
  have hcaught := h.caught
  cases hn with
  | plain hi ho => exact h.plain hi ho hr
  | ifBegin k l f =>
    have hopened : Tidy (.conditional (some l) f :: blocks) ((Command.ifBegin k l f).prepare e) :=
      ⟨hw.perm ((List.reverse_perm [f, l]).append_right _), hcaught⟩
    exact hopened.branches hr
  | elseIf k previous l f outer =>
    obtain ⟨-, hr⟩ := hr.leave_inv.mark_inv
    have hmarked : Tidy (.conditional (some l) f :: outer)
        ((leave ((Command.elseIf k previous l f).prepare e) f).mark previous) := by
      refine mark_leave ?_ ?_ f
      · exact hw.perm ((List.reverse_perm [previous, f, l]).append_right _)
      · exact hcaught
    exact hmarked.branches hr
  | elseBegin previous f outer =>
    cases hr.leave_inv.mark_inv.2
    refine mark_leave ?_ ?_ f
    · exact hw.perm ((List.reverse_perm [previous, f]).append_right _)
    · exact hcaught
  | endIf pending f =>
    cases pending with
    | none =>
      cases hr.single_inv
      exact ⟨hw.mark, hcaught⟩
    | some l =>
      cases hr.mark_inv.2.mark_inv.2
      exact ⟨(hw.perm ((List.reverse_perm [l, f]).append_right _)).mark.mark, hcaught⟩
  | whileBegin k l l' =>
    obtain ⟨-, hr⟩ := hr.mark_inv
    have hopened : Tidy (.loop l l' :: blocks) (((Command.whileBegin k l l').prepare e).mark l) :=
      ⟨hw.mark, hcaught⟩
    exact hopened.branches hr
  | endWhile l l' =>
    cases hr.put_inv.mark_inv.2
    have hpush : Awaits (l' :: awaited blocks' e.regions)
        (((Command.endWhile l l').prepare e).push (.jump l)) := hw.of_marks rfl rfl
    exact ⟨hpush.mark, hcaught⟩
  | tryBegin =>
    cases hr.single_inv
    have hopened : Awaits ([⟨e.nextLabel⟩] ++ awaited blocks e.regions)
        (openRegion (Command.tryBegin.prepare e)) := hw.define (k := 1) rfl rfl
    have hperm : (Label.mk e.nextLabel :: awaited blocks e.regions).Perm
        (blocks.flatMap Block.pending ++ Label.mk e.nextLabel :: e.regions.map Region.endLabel) :=
      List.perm_middle.symm
    exact ⟨hopened.perm hperm, congrArg (false :: ·) hcaught⟩
  | catchBegin ty v hasCatch outer =>
    obtain ⟨tag, name, ty', region, rest, -, rfl, hregions, rfl⟩ := hf.runs_catchBegin he hr
    have hsame : e.regions = region :: rest := hregions
    rw [hsame] at hw hcaught
    refine ⟨?_, ?_⟩
    · exact hw.of_marks (marks_leave _ _) (nextLabel_leave _ _)
    · exact congrArg (true :: ·) (List.cons.inj hcaught).2
  | endTry =>
    cases hr.single_inv with
    | closeRegion hregions hcatches hmark =>
      rename_i region rest
      have hsame : e.regions = region :: rest := hregions
      rw [hsame] at hw hcaught
      have hperm : (awaited (.guarded true :: blocks') (region :: rest)).Perm
          (region.endLabel :: awaited blocks' rest) := List.perm_middle
      exact mark_leave (e := { Command.endTry.prepare e with regions := rest })
        ((hw.perm hperm).of_marks rfl rfl) (List.cons.inj hcaught).2 region.endLabel

end Tidy

theorem History.tidy {q : Pool} {m : Nat} {t : MethodDef} (h : History q m t) :
    Tidy t.blocks t.emitter := by
  induction h with
  | start owner name attrs returnType params isConstructor =>
    refine ⟨⟨List.nodup_nil, ?_, ?_, ?_⟩, rfl⟩
    all_goals
      intros
      contradiction
  | take h ht ih => exact ih.takes ht.nests ht.emittable ht.fresh ht.runs

namespace CodeM

variable {α β : Type}

def Succeeds (x : CodeM α) : Prop :=
  ∀ o, o.emitter.isFinished = false → ∃ a o', x o = .ok a o' ∧ o'.emitter.isFinished = false

theorem Succeeds.pure (a : α) : Succeeds (pure a) := fun o ho => ⟨a, o, rfl, ho⟩

theorem Succeeds.bind {x : CodeM α} {f : α → CodeM β} (hx : Succeeds x)
    (hf : ∀ a, Succeeds (f a)) : Succeeds (x >>= f) := by
  intro o ho
  obtain ⟨a, o', ha, ho'⟩ := hx o ho
  obtain ⟨b, o'', hb, ho''⟩ := hf a o' ho'
  exact ⟨b, o'', (bind_of_ok ha).trans hb, ho''⟩

theorem succeeds_emit (i : Instr Label) : Succeeds (emit i) := by
  intro o ho
  refine ⟨(), { o with emitter := o.emitter.push i }, ?_, ho⟩
  rw [emit, emitting, EmitM.emit_of_open ho]

theorem succeeds_emitString (s : String) : Succeeds (emitString s) := by
  intro o ho
  rw [emitString_eq]
  exact succeeds_emit _ _ ho

theorem succeeds_forM {f : β → CodeM Unit} {bs : List β} (h : ∀ b ∈ bs, Succeeds (f b)) :
    Succeeds (bs.forM f) := by
  induction bs with
  | nil => exact .pure _
  | cons b bs ih =>
    exact (h b (.head _)).bind fun _ => ih fun b hb => h b (.tail _ hb)

def Ends (x : CodeM α) (o : Output) : Prop := ∃ a o', x o = .ok a o'

theorem Ends.of_ok {x : CodeM α} {o o' : Output} {a : α} (h : x o = .ok a o') : Ends x o :=
  ⟨a, o', h⟩

theorem Ends.bind {x : CodeM α} {f : α → CodeM β} {o o' : Output} {a : α} (hx : x o = .ok a o')
    (hf : Ends (f a) o') : Ends (x >>= f) o := by
  obtain ⟨b, o'', hb⟩ := hf
  exact ⟨b, o'', (bind_of_ok hx).trans hb⟩

theorem Succeeds.ends {x : CodeM α} (h : Succeeds x) {o : Output}
    (ho : o.emitter.isFinished = false) : Ends x o := by
  obtain ⟨a, o', ha, -⟩ := h o ho
  exact ⟨a, o', ha⟩

theorem emitting_of_ok {x : EmitM α} {o : Output} {a : α} {e : Emitter}
    (h : x o.emitter = .ok a e) : emitting x o = .ok a { o with emitter := e } := by
  rw [emitting, h]

end CodeM

open CodeM

theorem Literal.succeeds_load (l : Literal) : Succeeds l.load := by
  cases l with
  | string s => exact succeeds_emitString s
  | _ => exact succeeds_emit _

namespace Member

theorem succeeds_load {m : Member} {isStatic : Bool} (h : m.checkLoad = .ok ()) :
    Succeeds (m.load isStatic) := by
  obtain ⟨name, ty, access⟩ := m
  match access with
  | .field _ _ | .property _ (some _) _ => exact succeeds_emit _
  | .property id none setter => cases h

theorem succeeds_save {m : Member} {isStatic : Bool} (h : m.checkSave = .ok ()) :
    Succeeds (m.save isStatic) := by
  obtain ⟨name, ty, access⟩ := m
  match access with
  | .field _ _ | .property _ _ (some _) => exact succeeds_emit _
  | .property id getter none => cases h

end Member

namespace Variable

theorem succeeds_load {v : Variable} (h : v.checkLoad = .ok ()) : Succeeds v.load := by
  induction v with
  | slot method index name ty => exact succeeds_emit _
  | constant value => exact value.succeeds_load
  | own m => exact (succeeds_emit _).bind fun _ => Member.succeeds_load h
  | of object m ih =>
    obtain ⟨_, hm, hobject⟩ := except_bind_eq_ok.mp h
    exact (ih hobject).bind fun _ => Member.succeeds_load hm
  | shared type m => exact Member.succeeds_load h

theorem succeeds_loadReceiver {v : Variable} (h : v.checkSave = .ok ()) :
    Succeeds v.loadReceiver := by
  cases v with
  | own m => exact succeeds_emit _
  | of object m =>
    obtain ⟨_, -, hobject⟩ := except_bind_eq_ok.mp h
    exact succeeds_load hobject
  | _ => exact .pure _

theorem succeeds_save {v : Variable} (h : v.checkSave = .ok ()) : Succeeds v.save := by
  cases v with
  | slot method index name ty => exact succeeds_emit _
  | constant value => cases h
  | own | shared => exact Member.succeeds_save h
  | of object m =>
    obtain ⟨_, hm, -⟩ := except_bind_eq_ok.mp h
    exact Member.succeeds_save hm

theorem succeeds_saveAny {result : Option Variable}
    (h : ∀ v, result = some v → v.checkSave = .ok ()) :
    Succeeds (match result with | some r => r.save | _ => pure ()) := by
  cases result with
  | none => exact .pure _
  | some r => exact succeeds_save (h r rfl)

end Variable

theorem succeeds_emitBox {kind : ValueKind} (h : kind ≠ .reference) :
    Succeeds (CodeM.emitting (EmitM.emitBox kind)) := by
  intro o ho
  refine ⟨(), { o with emitter := o.emitter.push (.box kind.toByte) }, ?_, ho⟩
  have hbox : EmitM.emitBox kind o.emitter = .ok () (o.emitter.push (.box kind.toByte)) := by
    refine EmitM.ensureOpen_bind_eq_ok.mpr ⟨ho, ?_⟩
    rw [if_neg h]
    rfl
  rw [emitting, hbox]

theorem succeeds_emitUnbox {kind : ValueKind} (h : kind ≠ .reference) :
    Succeeds (CodeM.emitting (EmitM.emitUnbox kind)) := by
  intro o ho
  refine ⟨(), { o with emitter := o.emitter.push (.unbox kind.toByte) }, ?_, ho⟩
  have hunbox : EmitM.emitUnbox kind o.emitter = .ok () (o.emitter.push (.unbox kind.toByte)) := by
    refine EmitM.ensureOpen_bind_eq_ok.mpr ⟨ho, ?_⟩
    rw [if_neg h]
    rfl
  rw [emitting, hunbox]

theorem StaticType.valueKind_ne_reference {ty : StaticType} (h : ty.isValue = true) :
    ty.valueKind ≠ .reference := by
  cases ty <;> simp_all [isValue, valueKind]

namespace Coercion

def BoxesValues : Coercion → Prop
  | .box kind | .unbox kind => kind ≠ .reference
  | _ => True

theorem succeeds_emit {c : Coercion} (h : c.BoxesValues) : Succeeds (CodeM.emitting c.emit) := by
  cases c with
  | none => exact .pure _
  | widen | cast => exact CodeM.succeeds_emit _
  | box kind => exact succeeds_emitBox h
  | unbox kind => exact succeeds_emitUnbox h

theorem select?_eq_some {isSubtype : Nat → Nat → Bool} {source target : StaticType}
    {c : Coercion} (h : select isSubtype source target = .ok c) :
    select? isSubtype source target = some c := by
  unfold select at h
  split at h
  · rename_i hc
    cases h
    exact hc
  · cases h

theorem boxesValues_of_select {isSubtype : Nat → Nat → Bool} {source target : StaticType}
    {c : Coercion} (h : select isSubtype source target = .ok c) : c.BoxesValues := by
  have hselect := select?_eq_some h
  unfold select? at hselect
  split at hselect
  · cases hselect
  split at hselect
  · cases hselect
    exact trivial
  split at hselect
  · obtain ⟨w, -, rfl⟩ := Option.map_eq_some_iff.mp hselect
    exact trivial
  · rename_i hsource htarget
    split at hselect <;> cases hselect
    exact StaticType.valueKind_ne_reference hsource
  · rename_i hsource htarget
    split at hselect <;> cases hselect
    exact StaticType.valueKind_ne_reference htarget
  · unfold ofReferences? at hselect
    split at hselect
    · cases hselect
      exact trivial
    · cases hselect
      exact trivial
    · split at hselect <;> cases hselect <;> exact trivial
    · obtain ⟨tag, -, rfl⟩ := Option.map_eq_some_iff.mp hselect
      exact trivial
    · cases hselect

end Coercion

theorem succeeds_loadWidened {v : Variable} (h : v.checkLoad = .ok ()) (target : StaticType) :
    Succeeds (loadWidened v target) := by
  refine (Variable.succeeds_load h).bind fun _ => ?_
  cases v.ty.widening? target with
  | none => exact .pure _
  | some w => exact CodeM.succeeds_emit _

theorem Condition.succeeds_branchUnless {c : Condition} (h : c.check = .ok ()) (l : Label) :
    Succeeds (c.branchUnless l) := by
  obtain ⟨_, hleft, hright⟩ := except_bind_eq_ok.mp h
  have hoperand {v : Variable} (hv : v.checkLoad = .ok ()) : Succeeds (c.loadOperand v) := by
    unfold loadOperand
    cases c.widenTo with
    | none => exact Variable.succeeds_load hv
    | some target => exact succeeds_loadWidened hv target
  exact (hoperand hleft).bind fun _ => (hoperand hright).bind fun _ => CodeM.succeeds_emit _

theorem Argument.succeeds_load {a : Argument} (h : a.value.checkLoad = .ok ())
    (hc : a.coercion.BoxesValues) : Succeeds a.load :=
  (Variable.succeeds_load h).bind fun _ => Coercion.succeeds_emit hc

theorem isSome_arithmetic?_of_operandType {op : Arithmetic} {left right ty : StaticType}
    (h : operandType op left right = .ok ty) :
    (ty.arithmetic? op : Option (Instr Label)).isSome = true := by
  unfold operandType at h
  split at h
  · rename_i hadd
    cases h
    rw [hadd.1]
    rfl
  · split at h
    · rename_i hcommon
      cases h
      obtain ⟨a, -, hcommon⟩ := Option.bind_eq_some_iff.mp hcommon
      obtain ⟨b, -, hcommon⟩ := Option.bind_eq_some_iff.mp hcommon
      cases hcommon
      cases a.max b <;> rfl
    · cases h

namespace Command

def BoxesValues : Command → Prop
  | .assign _ _ coercion => coercion.BoxesValues
  | .newObject _ _ args _ | .call _ _ args _ => ∀ a ∈ args, a.coercion.BoxesValues
  | .box value _ => value.ty.isValue = true
  | .unbox _ ty _ => ty.isValue = true
  | .ret (some (_, coercion)) _ => coercion.BoxesValues
  | _ => True

theorem boxesValues_of_bind {d : Draft} {m : Nat} {target : CallTarget} {args : List Variable}
    {bound : List Argument} (h : d.bindArguments m target args = .ok bound) :
    ∀ a ∈ bound, a.coercion.BoxesValues := by
  intro a ha
  obtain ⟨i, hi⟩ := List.getElem?_of_mem ha
  obtain ⟨-, -, -, hcoercion⟩ := (Draft.bindArguments_eq_ok h).2 i a hi
  exact Coercion.boxesValues_of_select hcoercion

theorem emittable_of_stands {d : Draft} {m : Nat} {t : MethodDef} {edit : Edit} {c : Command}
    (h : edit.Stands d m t c) : c.Emittable ∧ c.BoxesValues := by
  cases h with
  | assign _ _ hcoercion | ret _ _ hcoercion =>
    exact ⟨trivial, Coercion.boxesValues_of_select hcoercion⟩
  | arithmetic _ _ hty => exact ⟨isSome_arithmetic?_of_operandType hty, trivial⟩
  | newPlain => exact ⟨rfl, fun a ha => nomatch ha⟩
  | newObject _ _ _ _ hbound => exact ⟨rfl, boxesValues_of_bind hbound⟩
  | callStatic _ _ _ hbound | callInstance _ _ _ _ _ _ hbound | callBase _ _ _ _ _ hbound =>
    exact ⟨trivial, boxesValues_of_bind hbound⟩
  | box _ hvalue => exact ⟨trivial, hvalue⟩
  | unbox _ hty => exact ⟨trivial, hty⟩
  | cast _ hty | catchBegin hty => exact ⟨hty, trivial⟩
  | _ => exact ⟨trivial, trivial⟩

variable {m : Nat} {c : Command} {e : Emitter}

theorem Fresh.checkSave (h : c.Fresh m e) {v : Variable} (hv : c.result? = some v) :
    v.checkSave = .ok () := by
  obtain ⟨-, name, ty, rfl⟩ := h.slot v hv
  rfl

theorem succeeds_pop (target : CallTarget) {x : CodeM Unit} (h : Succeeds x) :
    Succeeds (if target.isConstructor = true then CodeM.emit .pop >>= fun _ => x else x) := by
  cases target.isConstructor with
  | true => exact (succeeds_emit _).bind fun _ => h
  | false => exact h

theorem succeeds_plain (hi : c.indents = false) (ho : c.outdents = false) (hcheck : c.check = .ok ())
    (he : c.Emittable) (hb : c.BoxesValues) (hf : c.Fresh m e) : Succeeds c.emit := by
  have hargs {args : List Argument} (hload : args.forM (·.value.checkLoad) = Except.ok ())
      (hboxes : ∀ a ∈ args, a.coercion.BoxesValues) : Succeeds (args.forM Argument.load) :=
    succeeds_forM fun a ha => Argument.succeeds_load (except_forM_eq_ok hload a ha) (hboxes a ha)
  cases c with
  | arithmetic op left right ty result =>
    obtain ⟨i, hi⟩ := Option.isSome_iff_exists.mp he
    obtain ⟨_, hleft, hright⟩ := except_bind_eq_ok.mp hcheck
    simp only [emit, hi]
    exact (succeeds_loadWidened hleft ty).bind fun _ => (succeeds_loadWidened hright ty).bind fun _ =>
      (succeeds_emit _).bind fun _ => Variable.succeeds_save (hf.checkSave rfl)
  | assign target source coercion =>
    obtain ⟨_, htarget, hsource⟩ := except_bind_eq_ok.mp hcheck
    exact (Variable.succeeds_loadReceiver htarget).bind fun _ =>
      (Variable.succeeds_load hsource).bind fun _ => (Coercion.succeeds_emit hb).bind fun _ =>
        Variable.succeeds_save htarget
  | newObject type constructor args result =>
    obtain ⟨id, hid⟩ := Option.isSome_iff_exists.mp he
    have hsave := Variable.succeeds_save (hf.checkSave (v := result) rfl)
    simp only [emit, hid]
    refine (succeeds_emit _).bind fun _ => ?_
    cases constructor with
    | none => exact hsave
    | some target =>
      exact (hargs hcheck hb).bind fun _ => (succeeds_emit _).bind fun _ => hsave
  | call target receiver args result =>
    have hpop := succeeds_pop target (Variable.succeeds_saveAny fun v hv => hf.checkSave hv)
    simp only [emit]
    cases receiver with
    | none => exact (hargs hcheck hb).bind fun _ => (succeeds_emit _).bind fun _ => hpop
    | some r =>
      obtain ⟨_, hr, hload⟩ := except_bind_eq_ok.mp hcheck
      exact (Variable.succeeds_load hr).bind fun _ => (hargs hload hb).bind fun _ =>
        (succeeds_emit _).bind fun _ => hpop
  | box value result =>
    exact (Variable.succeeds_load hcheck).bind fun _ =>
      (succeeds_emitBox (StaticType.valueKind_ne_reference hb)).bind fun _ =>
        Variable.succeeds_save (hf.checkSave rfl)
  | unbox value ty result =>
    exact (Variable.succeeds_load hcheck).bind fun _ =>
      (succeeds_emitUnbox (StaticType.valueKind_ne_reference hb)).bind fun _ =>
        Variable.succeeds_save (hf.checkSave rfl)
  | cast value ty result =>
    obtain ⟨tag, htag⟩ := Option.isSome_iff_exists.mp he
    simp only [emit, tagFor, htag]
    exact (Variable.succeeds_load hcheck).bind fun _ => (succeeds_emit _).bind fun _ =>
      Variable.succeeds_save (hf.checkSave rfl)
  | raise value => exact (Variable.succeeds_load hcheck).bind fun _ => succeeds_emit _
  | defineLocal v => exact .pure _
  | ret value returnType =>
    cases value with
    | none => exact succeeds_emit _
    | some r =>
      obtain ⟨v, coercion⟩ := r
      exact (Variable.succeeds_load hcheck).bind fun _ => (Coercion.succeeds_emit hb).bind fun _ =>
        succeeds_emit _
  | ifBegin | elseIf | elseBegin | whileBegin | tryBegin | catchBegin => cases hi
  | endIf | endWhile | endTry => cases ho

theorem leaveTo_of_open {l : Label} (h : e.isFinished = false) :
    EmitM.leaveTo l e = .ok () (e.leave l) := by
  rw [EmitM.leaveTo, get_bind, leave]
  cases e.canFallThrough with
  | true => exact EmitM.emit_of_open h _
  | false => rfl

theorem markLabel_of_open {l : Label} (h : e.isFinished = false) (hl : e.isMarked l = false) :
    EmitM.markLabel l e = .ok () (e.mark l) := by
  refine EmitM.ensureOpen_bind_eq_ok.mpr ⟨h, ?_⟩
  rw [get_bind, if_neg (by simp [hl])]
  rfl

theorem beginTry_of_open (h : e.isFinished = false) :
    EmitM.beginTry e = .ok ⟨e.nextLabel⟩ e.openRegion :=
  EmitM.ensureOpen_bind_eq_ok.mpr ⟨h, rfl⟩

theorem beginCatch_of_open {region : Region} {outer : List Region} (h : e.isFinished = false)
    (hr : e.regions = region :: outer) (tag : TypeTag) :
    EmitM.beginCatch tag e = .ok () (e.openCatch region outer tag) := by
  refine EmitM.ensureOpen_bind_eq_ok.mpr ⟨h, ?_⟩
  rw [get_bind, hr]
  exact bind_of_ok (leaveTo_of_open h)

theorem endTry_of_open {region : Region} {outer : List Region} (h : e.isFinished = false)
    (hr : e.regions = region :: outer) (hc : region.catches ≠ 0)
    (hl : e.isMarked region.endLabel = false) :
    EmitM.endTry e = .ok () (e.closeRegion region outer) := by
  refine EmitM.ensureOpen_bind_eq_ok.mpr ⟨h, ?_⟩
  rw [get_bind, hr]
  dsimp only
  rw [if_neg hc, set_bind]
  have hleave : EmitM.leaveTo region.endLabel { e with regions := outer } =
      .ok () ({ e with regions := outer }.leave region.endLabel) := leaveTo_of_open h
  refine (bind_of_ok hleave).trans (markLabel_of_open ?_ ?_)
  · exact (isFinished_leave _ _).trans h
  · exact (isMarked_leave _ _ _).trans hl

theorem exists_setup {blocks blocks' : List Block} {k : Pool} (h : Tidy blocks e)
    (hopen : e.isFinished = false) (hn : c.Nests blocks blocks') (hcheck : c.check = .ok ())
    (he : c.Emittable) (hb : c.BoxesValues) (hf : c.Fresh m e) :
    ∃ o, c.setup ⟨c.prepare e, k⟩ = .ok () o := by
  suffices hemit : Ends c.emit ⟨c.prepare e, k⟩ by
    obtain ⟨a, o, hemit⟩ := hemit
    refine ⟨o, ?_⟩
    rw [setup, hcheck]
    exact hemit
  have hw := h.prepare hf
  cases hn with
  | plain hi ho => exact (succeeds_plain hi ho hcheck he hb hf).ends hopen
  | ifBegin cond l f => exact (Condition.succeeds_branchUnless hcheck l).ends hopen
  | elseIf cond previous l f outer =>
    refine .bind (emitting_of_ok (leaveTo_of_open hopen))
      (.bind (emitting_of_ok (markLabel_of_open ?_ ?_))
        ((Condition.succeeds_branchUnless hcheck l).ends ?_))
    · exact (isFinished_leave _ f).trans hopen
    · rw [isMarked_leave]
      exact hw.unmarked previous (by simp [labels, awaited, Block.pending])
    · exact (isFinished_leave _ f).trans hopen
  | elseBegin previous f outer =>
    refine .bind (emitting_of_ok (leaveTo_of_open hopen))
      (.of_ok (emitting_of_ok (markLabel_of_open ?_ ?_)))
    · exact (isFinished_leave _ f).trans hopen
    · rw [isMarked_leave]
      exact hw.unmarked previous (by simp [labels, awaited, Block.pending])
  | endIf pending f =>
    cases pending with
    | none =>
      exact .of_ok (emitting_of_ok (markLabel_of_open hopen (hw.unmarked f (.head _))))
    | some l =>
      have hpair := hw.perm ((List.reverse_perm [l, f]).append_right _)
      exact .bind (emitting_of_ok (markLabel_of_open hopen (hpair.unmarked l (.head _))))
        (.of_ok (emitting_of_ok (markLabel_of_open hopen (hpair.mark.unmarked f (.head _)))))
  | whileBegin cond l l' =>
    exact .bind (emitting_of_ok (markLabel_of_open hopen (hw.unmarked l (.head _))))
      ((Condition.succeeds_branchUnless hcheck l').ends hopen)
  | endWhile l l' =>
    exact .bind (emitting_of_ok (EmitM.emit_of_open hopen _))
      (.of_ok (emitting_of_ok (markLabel_of_open hopen (hw.unmarked l' (.head _)))))
  | tryBegin => exact ⟨(), _, map_eq_ok.mpr ⟨_, emitting_of_ok (beginTry_of_open hopen), rfl⟩⟩
  | catchBegin ty v hasCatch outer =>
    obtain ⟨tag, htag⟩ := Option.isSome_iff_exists.mp he
    obtain ⟨region, rest, hregions, -⟩ := h.exists_region
    simp only [emit, tagFor, htag]
    have hcatch := beginCatch_of_open (e := (Command.catchBegin ty v).prepare e) hopen hregions tag
    refine .bind rfl (.bind (emitting_of_ok hcatch)
      ((Variable.succeeds_save (hf.checkSave rfl)).ends ?_))
    exact (isFinished_leave _ _).trans hopen
  | endTry =>
    obtain ⟨region, rest, hregions, hcatches⟩ := h.exists_region
    refine .of_ok (emitting_of_ok (endTry_of_open hopen hregions ?_ ?_))
    · simpa using hcatches.symm
    · refine hw.unmarked region.endLabel ?_
      simp [awaited, hregions]

end Command

end Bytesmith.Build
