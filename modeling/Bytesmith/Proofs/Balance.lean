import Bytesmith.Proofs.Course
import Bytesmith.Proofs.Straight

namespace Bytesmith.Build

open Code Outcome Emitter

namespace Emitter

variable (e : Emitter) (l l' : Label) (i : Instr Label)

@[simp]
theorem code_push : (e.push i).code.toList = e.code.toList ++ [i] := Array.toList_push ..

@[simp]
theorem isMarked_append (code : List (Instr Label)) : (e.append code).isMarked l = e.isMarked l := by
  rw [isMarked, position?, marks_append]
  rfl

theorem isMarked_mark : (e.mark l).isMarked l' = (l' == l || e.isMarked l') := by
  rw [isMarked, position?, mark, List.lookup_cons]
  cases h : l' == l <;> rfl

theorem isMarked_mark_self : (e.mark l).isMarked l = true := by
  rw [isMarked_mark, beq_self_eq_true, Bool.true_or]

theorem isMarked_mark_of {l'} (h : e.isMarked l' = true) : (e.mark l).isMarked l' = true := by
  rw [isMarked_mark, h, Bool.or_true]

theorem mem_targets_push {l : Label} (h : l ∈ (e.push i).targets) :
    l ∈ e.targets ∨ i.target? = some l := by
  rw [targets, code_push, List.filterMap_append, List.mem_append] at h
  obtain h | h := h
  · exact .inl h
  · obtain ⟨j, hj, hl⟩ := List.mem_filterMap.mp h
    rw [List.mem_singleton.mp hj] at hl
    exact .inr hl

theorem boundary_offset : IsBoundary e.code.toList e.offset := by
  rw [e.offset_eq]
  exact isBoundary_totalSize _

theorem offset_le_leave : e.offset ≤ (e.leave l).offset := by
  obtain ⟨-, h⟩ | ⟨-, h⟩ := e.leave_eq l
  · rw [h]
    exact Nat.le_add_right ..
  · exact Nat.le_of_eq (congrArg offset h).symm

end Emitter

/-- A handler of code: the code it protects comes first, then the clause, which is not empty. -/
def HandlerIn (code : List (Instr Label)) (h : Handler) : Prop :=
  ∃ tryStart tryEnd start : Nat,
    h.tryStart = tryStart.toUInt32 ∧ h.tryEnd = tryEnd.toUInt32 ∧
    h.handlerStart = start.toUInt32 ∧ tryStart ≤ tryEnd ∧ tryEnd ≤ start ∧
    start < totalSize code ∧ IsBoundary code tryStart ∧ IsBoundary code tryEnd ∧
    IsBoundary code start

theorem HandlerIn.append {code : List (Instr Label)} {h : Handler} (hin : HandlerIn code h)
    (more : List (Instr Label)) : HandlerIn (code ++ more) h := by
  obtain ⟨a, b, c, ha, hb, hc, hab, hbc, hlt, h₁, h₂, h₃⟩ := hin
  refine ⟨a, b, c, ha, hb, hc, hab, hbc, ?_, h₁.append _, h₂.append _, h₃.append _⟩
  rw [totalSize_append]
  omega

/-- What an emitter has kept fits its code, except that some labels are still to be marked. -/
structure Sane (pending : List Label) (e : Emitter) : Prop where
  isOpen : e.isFinished = false
  targets : ∀ l ∈ e.targets, e.isMarked l = true ∨ l ∈ pending ∨ ∃ r ∈ e.regions, r.endLabel = l
  marks : ∀ l p, (l, p) ∈ e.marks → IsBoundary e.code.toList p
  handlers : ∀ h ∈ e.handlers, HandlerIn e.code.toList h
  regions : ∀ r ∈ e.regions, IsBoundary e.code.toList r.tryStart ∧
    ∀ p, r.tryEnd = some p → r.tryStart ≤ p ∧ IsBoundary e.code.toList p

namespace Sane

variable {pending : List Label} {e : Emitter}

theorem mono {pending' : List Label} (h : Sane pending e) (hp : ∀ l ∈ pending, l ∈ pending') :
    Sane pending' e := by
  refine ⟨h.isOpen, fun l hl => ?_, h.marks, h.handlers, h.regions⟩
  obtain hm | hm | hm := h.targets l hl
  · exact .inl hm
  · exact .inr (.inl (hp l hm))
  · exact .inr (.inr hm)

theorem push (h : Sane pending e) {i : Instr Label}
    (hi : ∀ l, i.target? = some l →
      e.isMarked l = true ∨ l ∈ pending ∨ ∃ r ∈ e.regions, r.endLabel = l) :
    Sane pending (e.push i) := by
  refine ⟨h.isOpen, fun l hl => ?_, fun l p hp => ?_, fun k hk => ?_, fun r hr => ?_⟩
  · obtain hl | hl := e.mem_targets_push i hl
    · exact h.targets l hl
    · exact hi l hl
  · rw [code_push]
    exact (h.marks l p hp).append _
  · rw [code_push]
    exact (h.handlers k hk).append _
  · rw [code_push]
    obtain ⟨hs, he⟩ := h.regions r hr
    exact ⟨hs.append _, fun p hp => ⟨(he p hp).1, (he p hp).2.append _⟩⟩

theorem append (h : Sane pending e) {code : List (Instr Label)}
    (hcode : ∀ i ∈ code, i.target? = none) : Sane pending (e.append code) := by
  induction code generalizing e with
  | nil => exact h
  | cons i code ih =>
    refine ih (h.push fun l hl => ?_) fun j hj => hcode j (.tail i hj)
    rw [hcode i (.head _)] at hl
    cases hl

theorem leave (h : Sane pending e) {l : Label}
    (hl : l ∈ pending ∨ ∃ r ∈ e.regions, r.endLabel = l) : Sane pending (e.leave l) := by
  obtain ⟨-, he⟩ | ⟨-, he⟩ := e.leave_eq l
  · rw [he]
    refine h.push fun l' hl' => ?_
    cases hl'
    exact .inr hl
  · rw [he]
    exact h

theorem mark {l : Label} (h : Sane (l :: pending) e) : Sane pending (e.mark l) := by
  refine ⟨h.isOpen, fun l' hl' => ?_, fun l' p hp => ?_, h.handlers, h.regions⟩
  · obtain hm | hm | hm := h.targets l' hl'
    · exact .inl (e.isMarked_mark_of l hm)
    · obtain rfl | hm := List.mem_cons.mp hm
      · exact .inl (e.isMarked_mark_self l')
      · exact .inr (.inl hm)
    · exact .inr (.inr hm)
  · obtain hp | hp := List.mem_cons.mp hp
    · cases hp
      exact e.boundary_offset
    · exact h.marks l' p hp

theorem prepare (h : Sane pending e) (c : Command) : Sane pending (c.prepare e) := by
  cases h
  constructor <;> assumption

theorem openRegion (h : Sane pending e) : Sane pending e.openRegion := by
  refine ⟨h.isOpen, fun l hl => ?_, h.marks, h.handlers, fun r hr => ?_⟩
  · obtain hm | hm | ⟨r, hr, hm⟩ := h.targets l hl
    · exact .inl hm
    · exact .inr (.inl hm)
    · exact .inr (.inr ⟨r, .tail _ hr, hm⟩)
  · obtain rfl | hr := List.mem_cons.mp hr
    · exact ⟨e.boundary_offset, fun p hp => by cases hp⟩
    · exact h.regions r hr

/-- A clause begins behind the code it protects; the instruction after it makes it not empty. -/
theorem openCatch (h : Sane pending e) {region : Region} {outer : List Region}
    (hr : e.regions = region :: outer) (tag : TypeTag) {i : Instr Label} (hi : i.target? = none) :
    Sane pending ((e.openCatch region outer tag).push i) := by
  have hregion : region ∈ e.regions := by rw [hr]; exact .head _
  obtain ⟨hstart, hend⟩ := h.regions region hregion
  have hleft := h.leave (.inr ⟨region, hregion, rfl⟩)
  have hpushed : Sane pending ((e.leave region.endLabel).push i) :=
    hleft.push fun l hl => by rw [hi] at hl; cases hl
  -- the protected code ends where the first clause begins
  have htry : region.tryStart ≤ region.tryEnd.getD e.offset ∧
      IsBoundary e.code.toList (region.tryEnd.getD e.offset) := by
    cases htry : region.tryEnd with
    | some p => exact hend p htry
    | none =>
      refine ⟨?_, e.boundary_offset⟩
      rw [Option.getD_none, e.offset_eq]
      exact hstart.le
  have hcode : ∃ more, (e.leave region.endLabel).code.toList = e.code.toList ++ more := by
    obtain ⟨-, he⟩ | ⟨-, he⟩ := e.leave_eq region.endLabel
    · exact ⟨_, by rw [he, code_push]⟩
    · exact ⟨[], by rw [he, List.append_nil]⟩
  obtain ⟨more, hcode⟩ := hcode
  refine ⟨hpushed.isOpen, fun l hl => ?_, hpushed.marks, fun k hk => ?_, fun r hr' => ?_⟩
  · obtain hm | hm | ⟨r, hr', hm⟩ := hpushed.targets l hl
    · exact .inl hm
    · exact .inr (.inl hm)
    · rw [show ((e.leave region.endLabel).push i).regions = region :: outer by
        rw [← hr]; exact e.regions_leave region.endLabel] at hr'
      obtain rfl | hr' := List.mem_cons.mp hr'
      · exact .inr (.inr ⟨_, .head _, hm⟩)
      · exact .inr (.inr ⟨r, .tail _ hr', hm⟩)
  · obtain hk | hk := List.mem_append.mp hk
    · exact hpushed.handlers k hk
    · rw [List.mem_singleton.mp hk]
      have hle := e.offset_le_leave region.endLabel
      refine ⟨region.tryStart, region.tryEnd.getD e.offset, (e.leave region.endLabel).offset,
        rfl, rfl, rfl, htry.1, ?_, ?_, ?_, ?_, ?_⟩
      · have := htry.2.le
        rw [← e.offset_eq] at this
        omega
      · have hpos := i.size_pos
        have hsize : totalSize ((e.leave region.endLabel).code.toList ++ [i]) =
            (e.leave region.endLabel).offset + i.size := by
          rw [totalSize_append, ← (e.leave region.endLabel).offset_eq, totalSize, totalSize]
          rfl
        change _ < totalSize ((e.leave region.endLabel).push i).code.toList
        rw [code_push, hsize]
        omega
      · change IsBoundary ((e.leave region.endLabel).push i).code.toList _
        rw [code_push, hcode]
        exact (hstart.append _).append _
      · change IsBoundary ((e.leave region.endLabel).push i).code.toList _
        rw [code_push, hcode]
        exact (htry.2.append _).append _
      · change IsBoundary ((e.leave region.endLabel).push i).code.toList _
        rw [code_push]
        exact (e.leave region.endLabel).boundary_offset.append _
  · obtain rfl | hr' := List.mem_cons.mp hr'
    · change IsBoundary ((e.leave region.endLabel).push i).code.toList _ ∧ _
      rw [code_push, hcode]
      refine ⟨(hstart.append _).append _, fun p hp => ?_⟩
      cases hp
      refine ⟨htry.1, ?_⟩
      change IsBoundary ((e.leave region.endLabel).push i).code.toList _
      rw [code_push, hcode]
      exact (htry.2.append _).append _
    · refine hpushed.regions r ?_
      change r ∈ (e.leave region.endLabel).regions
      rw [e.regions_leave, hr]
      exact .tail _ hr'

theorem closeRegion (h : Sane pending e) {region : Region} {outer : List Region}
    (hr : e.regions = region :: outer) : Sane pending (e.closeRegion region outer) := by
  have hclosed : Sane (region.endLabel :: pending) { e with regions := outer } := by
    refine ⟨h.isOpen, fun l hl => ?_, h.marks, h.handlers, fun r hr' => h.regions r ?_⟩
    · obtain hm | hm | ⟨r, hr', hm⟩ := h.targets l hl
      · exact .inl hm
      · exact .inr (.inl (.tail _ hm))
      · rw [hr] at hr'
        obtain rfl | hr' := List.mem_cons.mp hr'
        · exact .inr (.inl (hm ▸ (.head _)))
        · exact .inr (.inr ⟨r, hr', hm⟩)
    · rw [hr]
      exact .tail _ hr'
  exact (hclosed.leave (.inl (.head _))).mark

end Sane

namespace Block

def pending : Block → List Label
  | .conditional elseLabel finalLabel => finalLabel :: elseLabel.toList
  | .loop _ endLabel => [endLabel]
  | .guarded _ => []

def isGuarded : Block → Bool
  | .guarded _ => true
  | _ => false

end Block

structure Balanced (blocks : List Block) (e : Emitter) : Prop where
  sane : Sane (blocks.flatMap Block.pending) e
  starts : ∀ l l', .loop l l' ∈ blocks → e.isMarked l = true
  regions : e.regions.length = (blocks.filter Block.isGuarded).length

namespace Balanced

variable {q : Pool} {blocks outer : List Block} {e e' : Emitter}

theorem prepare (h : Balanced blocks e) (c : Command) : Balanced blocks (c.prepare e) :=
  ⟨h.sane.prepare c, h.starts, h.regions⟩

theorem append (h : Balanced blocks e) {code : List (Instr Label)}
    (hcode : ∀ i ∈ code, i.target? = none) : Balanced blocks (e.append code) := by
  refine ⟨h.sane.append hcode, fun l l' hl => ?_, ?_⟩
  · rw [isMarked_append]
    exact h.starts l l' hl
  · rw [regions_append]
    exact h.regions

theorem plain {c : Command} (h : Balanced blocks e) (hi : c.indents = false)
    (ho : c.outdents = false) (hr : Runs q e c.actions e') : Balanced blocks e' := by
  obtain ⟨rfl, -⟩ := Command.runs_plain hi ho hr
  exact h.append fun i => Command.target?_of_mem_plain hi ho

theorem branches {c : Condition} {l : Label} (h : Balanced blocks e)
    (hl : l ∈ blocks.flatMap Block.pending) (hr : Runs q e (c.branches l) e') :
    Balanced blocks e' := by
  obtain ⟨rfl, -⟩ := Condition.runs_branches hr
  have happ : Balanced blocks (e.append (c.code q)) :=
    h.append fun i hi => (Condition.straight_of_mem_code hi).1
  refine ⟨happ.sane.push fun l' hl' => ?_, happ.starts, happ.regions⟩
  cases hl'
  exact .inr (.inl hl)

theorem openBlock {b : Block} (h : Balanced blocks e) (hb : b.isGuarded = false)
    (hs : ∀ l l', b = .loop l l' → e.isMarked l = true) : Balanced (b :: blocks) e := by
  refine ⟨h.sane.mono fun l hl => List.mem_append_right _ hl, fun l l' hl => ?_, ?_⟩
  · obtain hl | hl := List.mem_cons.mp hl
    · exact hs l l' hl.symm
    · exact h.starts l l' hl
  · rw [h.regions, List.filter_cons_of_neg (by rw [hb]; exact Bool.false_ne_true)]

theorem leave {l : Label} (h : Balanced blocks e) (hl : l ∈ blocks.flatMap Block.pending) :
    Balanced blocks (e.leave l) := by
  refine ⟨h.sane.leave (.inl hl), fun l₁ l₂ hb => ?_, ?_⟩
  · rw [isMarked_leave]
    exact h.starts l₁ l₂ hb
  · rw [regions_leave]
    exact h.regions

theorem markElse {l f : Label} (next : Option Label)
    (h : Balanced (.conditional (some l) f :: outer) e) :
    Balanced (.conditional next f :: outer) (e.mark l) := by
  refine ⟨Sane.mark (h.sane.mono fun l' hl' => ?_), fun l₁ l₂ hl => ?_, h.regions⟩
  · rw [List.flatMap_cons, List.mem_append] at hl'
    rw [List.flatMap_cons, List.mem_cons, List.mem_append]
    obtain hl' | hl' := hl'
    · obtain rfl | hl' := List.mem_cons.mp hl'
      · exact .inr (.inl (.head _))
      · exact .inl (List.mem_singleton.mp hl')
    · exact .inr (.inr hl')
  · obtain hl | hl := List.mem_cons.mp hl
    · cases hl
    · exact e.isMarked_mark_of l (h.starts l₁ l₂ (.tail _ hl))

theorem close {b : Block} {l : Label} (h : Balanced (b :: outer) e)
    (hp : ∀ l' ∈ b.pending, l' = l) (hb : b.isGuarded = false) : Balanced outer (e.mark l) := by
  refine ⟨Sane.mark (h.sane.mono fun l' hl' => ?_), fun l₁ l₂ hl => ?_, ?_⟩
  · rw [List.flatMap_cons, List.mem_append] at hl'
    rw [List.mem_cons]
    exact hl'.imp (hp l') id
  · exact e.isMarked_mark_of l (h.starts l₁ l₂ (.tail b hl))
  · have hregions := h.regions
    rw [List.filter_cons_of_neg (by rw [hb]; exact Bool.false_ne_true)] at hregions
    exact hregions

theorem takes {m : Nat} {c : Command} {blocks' : List Block} {e₀ : Emitter}
    (h : Balanced blocks e) (hn : c.Nests blocks blocks') (he : c.Emittable) (hf : c.Fresh m e₀)
    (hr : Runs q e c.actions e') : Balanced blocks' e' := by
  cases hn with
  | plain hi ho => exact h.plain hi ho hr
  | ifBegin c l f =>
    refine (h.openBlock rfl fun _ _ hb => ?_).branches ?_ hr
    · cases hb
    · exact List.mem_append_left _ (.tail f (.head _))
  | elseIf c previous l f outer =>
    obtain ⟨-, hr⟩ := hr.leave_inv.mark_inv
    have hleft := h.leave (l := f) (List.mem_append_left _ (.head _))
    exact (hleft.markElse (some l)).branches (List.mem_append_left _ (.tail f (.head _))) hr
  | elseBegin previous f outer =>
    cases hr.leave_inv.mark_inv.2
    exact (h.leave (l := f) (List.mem_append_left _ (.head _))).markElse none
  | endIf pending f =>
    cases pending with
    | none =>
      cases hr.single_inv
      exact h.close (fun l' hl' => List.mem_singleton.mp hl') rfl
    | some l =>
      cases hr.mark_inv.2.mark_inv.2
      exact (h.markElse none).close (fun l' hl' => List.mem_singleton.mp hl') rfl
  | whileBegin c l l' =>
    obtain ⟨-, hr⟩ := hr.mark_inv
    have hmarked : Balanced blocks (e.mark l) := by
      refine ⟨Sane.mark (h.sane.mono fun _ => .tail l), fun l₁ l₂ hl => ?_, h.regions⟩
      exact e.isMarked_mark_of l (h.starts l₁ l₂ hl)
    refine (hmarked.openBlock (b := .loop l l') rfl fun _ _ hb => ?_).branches
      (List.mem_append_left _ (.head _)) hr
    cases hb
    exact e.isMarked_mark_self l
  | endWhile l l' =>
    cases hr.put_inv.mark_inv.2
    have hpush : Balanced (.loop l l' :: blocks') (e.push (.jump l)) := by
      refine ⟨h.sane.push fun l₁ hl₁ => ?_, h.starts, h.regions⟩
      cases hl₁
      exact .inl (h.starts l l' (.head _))
    exact hpush.close (fun l₁ hl₁ => List.mem_singleton.mp hl₁) rfl
  | tryBegin =>
    cases hr.single_inv
    refine ⟨h.sane.openRegion, fun l l' hl => ?_, congrArg (· + 1) h.regions⟩
    obtain hl | hl := List.mem_cons.mp hl
    · cases hl
    · exact h.starts l l' hl
  | catchBegin ty v hasCatch outer =>
    obtain ⟨tag, name, ty', region, rest, -, rfl, hregions, rfl⟩ := hf.runs_catchBegin he hr
    refine ⟨h.sane.openCatch hregions tag rfl, fun l l' hl => ?_, ?_⟩
    · obtain hl | hl := List.mem_cons.mp hl
      · cases hl
      · have hm := h.starts l l' (.tail _ hl)
        rw [← isMarked_leave] at hm
        exact hm
    · have hlength := h.regions
      rw [hregions] at hlength
      exact hlength
  | endTry =>
    cases hr.single_inv with
    | closeRegion hregions hcatches hmark =>
      rename_i region outer
      refine ⟨h.sane.closeRegion hregions, fun l l' hl => ?_, ?_⟩
      · refine isMarked_mark_of _ _ ?_
        rw [isMarked_leave]
        exact h.starts l l' (.tail _ hl)
      · have hlength := h.regions
        rw [hregions] at hlength
        change (Emitter.leave _ _).regions.length = _
        rw [regions_leave]
        exact Nat.succ.inj hlength

end Balanced

variable {q : Pool} {m : Nat} {t : MethodDef}

theorem History.balanced (h : History q m t) : Balanced t.blocks t.emitter := by
  induction h with
  | start owner name attrs returnType params isConstructor =>
    refine ⟨⟨rfl, ?_, ?_, ?_, ?_⟩, ?_, rfl⟩
    all_goals
      intros
      contradiction
  | take h ht ih => exact (ih.prepare _).takes ht.nests ht.emittable ht.fresh ht.runs

theorem History.isOpen (h : History q m t) : t.state = .open := by
  induction h with
  | start => rfl
  | take h ht ih =>
    rw [ht.eq]
    exact ih

namespace EmitM

variable {e : Emitter}

theorem emit_of_open (h : e.isFinished = false) (i : Instr Label) :
    emit i e = .ok () (e.push i) := ensureOpen_bind_eq_ok.mpr ⟨h, rfl⟩

theorem forM_emit (h : e.isFinished = false) (code : List (Instr Label)) :
    code.forM emit e = .ok () (e.append code) := by
  induction code generalizing e with
  | nil => rfl
  | cons i code ih =>
    exact (bind_of_ok (emit_of_open h i)).trans (ih (e := e.push i) h)

end EmitM

def Emitter.body (e : Emitter) : Body :=
  ⟨(assemble e.distance 0 e.code.toList).toArray, e.localCount, e.handlers⟩

theorem Sane.unmarkedLabels_eq_nil {e : Emitter} (h : Sane [] e) (hr : e.regions = []) :
    e.unmarkedLabels = [] := by
  have hfilter : e.targets.filter (!e.isMarked ·) = [] := by
    rw [List.filter_eq_nil_iff]
    intro l hl
    obtain hm | hm | ⟨r, hm, -⟩ := h.targets l hl
    · simp [hm]
    · cases hm
    · rw [hr] at hm
      cases hm
  rw [unmarkedLabels, hfilter, List.mergeSort_nil]
  rfl

theorem Sane.finish {e : Emitter} (h : Sane [] e) (hr : e.regions = []) :
    EmitM.finish e = .ok e.body { e with isFinished := true } := by
  refine EmitM.ensureOpen_bind_eq_ok.mpr ⟨h.isOpen, ?_⟩
  rw [get_bind]
  refine guard_eq_ok.mpr ⟨by simp [hr], ?_⟩
  rw [h.unmarkedLabels_eq_nil hr]
  rfl

namespace MethodDef

def implied (t : MethodDef) : List (Instr Label) :=
  if !t.attrs.isAbstract && t.emitter.canFallThrough then
    if t.returnType.isVoid then [.retVoid] else [.default t.returnType.valueKind, .ret]
  else []

def complete (t : MethodDef) : Emitter := t.emitter.append t.implied

theorem eq_of_mem_implied {i : Instr Label} (h : i ∈ t.implied) :
    i = .retVoid ∨ i = .default t.returnType.valueKind ∨ i = .ret := by
  rw [implied] at h
  split at h
  · split at h
    · exact .inl (List.mem_singleton.mp h)
    · exact .inr (List.mem_pair.mp h)
  · cases h

theorem target?_of_mem_implied {i : Instr Label} (h : i ∈ t.implied) : i.target? = none := by
  obtain rfl | rfl | rfl := eq_of_mem_implied h
  · rfl
  · cases t.returnType.valueKind <;> rfl
  · rfl

theorem finalize_eq (h : t.emitter.isFinished = false) :
    t.finalize t.emitter = EmitM.finish t.complete := by
  rw [finalize, get_bind, complete, implied]
  cases hc : !t.attrs.isAbstract && t.emitter.canFallThrough with
  | false => rfl
  | true =>
    cases hv : t.returnType.isVoid with
    | true => exact bind_of_ok (EmitM.emit_of_open h _)
    | false =>
      refine (bind_of_ok (EmitM.emit_of_open h _)).trans ?_
      exact bind_of_ok (EmitM.emit_of_open (e := t.emitter.push _) h _)

end MethodDef

theorem History.finalize_eq (h : History q m t) (hblocks : t.blocks = []) :
    t.finalize t.emitter = .ok t.complete.body { t.complete with isFinished := true } := by
  have hb := h.balanced
  rw [hblocks] at hb
  have hcomplete : Balanced [] t.complete := hb.append fun i => MethodDef.target?_of_mem_implied
  rw [MethodDef.finalize_eq hb.sane.isOpen]
  exact hcomplete.sane.finish (List.length_eq_zero_iff.mp hcomplete.regions)

end Bytesmith.Build
