import Bytesmith.Proofs.Closure

namespace Bytesmith.Build

open Code Outcome

/-- What can be known of the stack, and how instructions change it. -/
structure Grading (α : Type) where
  step : Instr Label → α → α → Prop
  empty : α
  caught : TypeTag → α
  jump : ∀ l, step (.jump l) empty empty

variable {α : Type} {g : Grading α}

inductive Grading.Passes (g : Grading α) : List (Instr Label) → α → α → Prop
  | nil (a : α) : g.Passes [] a a
  | cons {i : Instr Label} {code : List (Instr Label)} {a b c : α} (hi : g.step i a b)
      (rest : g.Passes code b c) : g.Passes (i :: code) a c

namespace Grading.Passes

variable {code code' : List (Instr Label)} {a b c : α}

theorem single {i : Instr Label} (hi : g.step i a b) : g.Passes [i] a b := .cons hi (.nil b)

theorem append (h : g.Passes code a b) (h' : g.Passes code' b c) : g.Passes (code ++ code') a c := by
  induction h with
  | nil a => exact h'
  | cons hi _ ih => exact .cons hi (ih h')

end Grading.Passes

namespace Emitter

structure Graded (g : Grading α) (e : Emitter) (level : Nat → α) : Prop where
  start : level 0 = g.empty
  instr : ∀ p i, instrAt e.code.toList p = some i → ∃ a, g.step i (level p) a ∧
    (i.opcode.isTerminator = false → level (p + i.size) = a) ∧ (i.target?.isSome → a = g.empty)
  marks : ∀ l p, (l, p) ∈ e.marks → p ≤ e.offset ∧ level p = g.empty
  handlers : ∀ k ∈ e.handlers, ∃ start, start < e.offset ∧ k.handlerStart = start.toUInt32 ∧
    level start = g.caught k.catchType

namespace Graded

variable {e : Emitter} {level : Nat → α}

theorem push (h : e.Graded g level) {i : Instr Label} {a b : α} (hi : g.step i (level e.offset) a)
    (hb : i.opcode.isTerminator = false → b = a) (ht : i.target?.isSome → a = g.empty) :
    (e.push i).Graded g (Function.update level (e.offset + i.size) b) := by
  have hpos := i.size_pos
  have hold {p : Nat} (hp : p ≤ e.offset) :
      Function.update level (e.offset + i.size) b p = level p :=
    Function.update_of_ne (by omega) ..
  refine ⟨?_, fun p j hj => ?_, fun l p hp => ?_, fun k hk => ?_⟩
  · rw [hold (Nat.zero_le _)]
    exact h.start
  · rw [code_push] at hj
    obtain hj | ⟨rfl, rfl⟩ := instrAt_concat.mp hj
    · have hnext := instrAt_next_le hj
      rw [← e.offset_eq] at hnext
      rw [hold (by omega), hold hnext]
      exact h.instr p j hj
    · rw [← e.offset_eq, hold (Nat.le_refl _), Function.update_self]
      exact ⟨a, hi, hb, ht⟩
  · obtain ⟨hle, hempty⟩ := h.marks l p hp
    rw [hold hle]
    exact ⟨Nat.le_trans hle (Nat.le_add_right ..), hempty⟩
  · obtain ⟨start, hlt, hstart, hcaught⟩ := h.handlers k hk
    refine ⟨start, Nat.lt_of_lt_of_le hlt (Nat.le_add_right ..), hstart, ?_⟩
    rw [hold (Nat.le_of_lt hlt)]
    exact hcaught

theorem mark (h : e.Graded g level) (hempty : level e.offset = g.empty) (l : Label) :
    (e.mark l).Graded g level := by
  refine ⟨h.start, h.instr, fun l' p hp => ?_, h.handlers⟩
  obtain hp | hp := List.mem_cons.mp hp
  · cases hp
    exact ⟨Nat.le_refl _, hempty⟩
  · exact h.marks l' p hp

theorem prepare (h : e.Graded g level) (c : Command) : (c.prepare e).Graded g level :=
  ⟨h.start, h.instr, h.marks, h.handlers⟩

theorem regions (h : e.Graded g level) (regions : List Region) :
    Graded g { e with regions := regions } level :=
  ⟨h.start, h.instr, h.marks, h.handlers⟩

theorem jump (h : e.Graded g level) (hempty : level e.offset = g.empty) (l : Label) :
    ∃ level', (e.push (.jump l)).Graded g level' ∧
      level' (e.push (.jump l)).offset = g.empty ∧ ∀ p ≤ e.offset, level' p = level p := by
  have hpos := (Instr.jump l).size_pos
  have hjump : g.step (.jump l) (level e.offset) g.empty := by
    rw [hempty]
    exact g.jump l
  exact ⟨_, h.push (b := g.empty) hjump nofun fun _ => rfl, Function.update_self ..,
    fun p hp => Function.update_of_ne (by omega) ..⟩

theorem leave (h : e.Graded g level) (hempty : level e.offset = g.empty) (l : Label) :
    ∃ level', (e.leave l).Graded g level' ∧ level' (e.leave l).offset = g.empty ∧
      ∀ p ≤ e.offset, level' p = level p := by
  obtain ⟨-, he⟩ | ⟨-, he⟩ := e.leave_eq l
  · rw [he]
    exact h.jump hempty l
  · rw [he]
    exact ⟨level, h, hempty, fun _ _ => rfl⟩

theorem not_canFallThrough_leave (h : e.Graded g level) (l : Label) :
    (e.leave l).canFallThrough = false := by
  obtain ⟨-, he⟩ | ⟨hfall, he⟩ := e.leave_eq l
  · have hmark : (e.push (.jump l)).marks.any (·.2 == (e.push (.jump l)).offset) = false := by
      refine List.any_eq_false.mpr fun ⟨l', p⟩ hp => ?_
      have hle := (h.marks l' p hp).1
      have hpos := (Instr.jump l).size_pos
      rw [beq_iff_eq]
      change p ≠ e.offset + (Instr.jump l).size
      omega
    rw [he, canFallThrough, ← Array.getLast?_toList, code_push, List.getLast?_concat]
    simp only [hmark, Bool.or_false, Bool.not_eq_false']
    rfl
  · rw [he]
    exact hfall

theorem reset (h : e.Graded g level) (hfall : e.canFallThrough = false) (a : α) :
    e.Graded g (Function.update level e.offset a) := by
  rw [canFallThrough, ← Array.getLast?_toList] at hfall
  cases hlast : e.code.toList.getLast? with
  | none =>
    rw [hlast] at hfall
    cases hfall
  | some last =>
    simp only [hlast, Bool.or_eq_false_iff, Bool.not_eq_false'] at hfall
    have hsize : 0 < e.offset := by
      obtain ⟨before, hcode⟩ := List.getLast?_eq_some_iff.mp hlast
      have hpos := last.size_pos
      rw [e.offset_eq, hcode, totalSize_append, totalSize]
      omega
    have hold {p : Nat} (hp : p ≠ e.offset) : Function.update level e.offset a p = level p :=
      Function.update_of_ne hp ..
    refine ⟨?_, fun p i hi => ?_, fun l p hp => ?_, fun k hk => ?_⟩
    · rw [hold (by omega)]
      exact h.start
    · obtain ⟨b, hstep, hnext, htarget⟩ := h.instr p i hi
      have hle := instrAt_next_le hi
      have hpos := i.size_pos
      rw [← e.offset_eq] at hle
      rw [hold (by omega)]
      refine ⟨b, hstep, fun hthrough => ?_, htarget⟩
      by_cases hp : p + i.size = e.offset
      · -- the last instruction does not let control through
        obtain ⟨before, after, hcode, rfl⟩ := instrAt_eq_some_iff.mp hi
        rw [e.offset_eq, hcode, totalSize_append, totalSize] at hp
        have hafter : after = [] := by
          cases after with
          | nil => rfl
          | cons j after =>
            have hj := j.size_pos
            rw [totalSize] at hp
            omega
        rw [hcode, hafter, List.getLast?_concat] at hlast
        cases hlast
        rw [hfall.1] at hthrough
        cases hthrough
      · rw [hold hp]
        exact hnext hthrough
    · have hne := List.any_eq_false.mp hfall.2 (l, p) hp
      rw [beq_iff_eq] at hne
      rw [hold hne]
      exact h.marks l p hp
    · obtain ⟨start, hlt, hstart, hcaught⟩ := h.handlers k hk
      rw [← hold (by omega : start ≠ e.offset)] at hcaught
      exact ⟨start, hlt, hstart, hcaught⟩

theorem append (h : e.Graded g level) {code : List (Instr Label)} {a : α}
    (hcode : ∀ i ∈ code, i.target? = none) (hp : g.Passes code (level e.offset) a) :
    ∃ level', (e.append code).Graded g level' ∧ level' (e.append code).offset = a ∧
      ∀ p ≤ e.offset, level' p = level p := by
  generalize hb : level e.offset = b at hp
  induction hp generalizing e level with
  | nil a => exact ⟨level, h, hb, fun _ _ => rfl⟩
  | @cons i code a b c hi _ ih =>
    subst hb
    have hpos := i.size_pos
    have hpush := h.push (b := b) hi (fun _ => rfl) fun ht => by
      rw [hcode i (.head _)] at ht
      cases ht
    obtain ⟨level', h', hend, hagree⟩ := ih hpush
      (fun j hj => hcode j (.tail i hj)) (Function.update_self ..)
    refine ⟨level', h', hend, fun p hp => ?_⟩
    rw [hagree p (Nat.le_trans hp (Nat.le_add_right ..))]
    exact Function.update_of_ne (by omega) ..

theorem openCatch (h : e.Graded g level) (hempty : level e.offset = g.empty) {region : Region}
    {outer : List Region} {tag : TypeTag} {slot : UInt16}
    (hstore : g.step (.storeLocal slot) (g.caught tag) g.empty) :
    ∃ level', ((e.openCatch region outer tag).push (.storeLocal slot)).Graded g level' ∧
      level' ((e.openCatch region outer tag).push (.storeLocal slot)).offset = g.empty ∧
      (∀ p < e.offset, level' p = level p) ∧
      (level' e.offset = g.empty ∨ ∃ k ∈ (e.openCatch region outer tag).handlers,
        k.handlerStart = e.offset.toUInt32) := by
  obtain ⟨level₁, h₁, -, hagree₁⟩ := h.leave hempty region.endLabel
  have hle := e.offset_le_leave region.endLabel
  have h₂ := h₁.reset (h.not_canFallThrough_leave region.endLabel) (g.caught tag)
  have hcaught : Function.update level₁ (e.leave region.endLabel).offset (g.caught tag)
      (e.leave region.endLabel).offset = g.caught tag := Function.update_self ..
  have hpos := (Instr.storeLocal slot : Instr Label).size_pos
  have h₃ := h₂.push (i := .storeLocal slot) (b := g.empty) (by rw [hcaught]; exact hstore)
    (fun _ => rfl) nofun
  refine ⟨_, ⟨h₃.start, h₃.instr, h₃.marks, fun k hk => ?_⟩, Function.update_self ..,
    fun p hp => ?_, ?_⟩
  · obtain hk | hk := List.mem_append.mp hk
    · exact h₃.handlers k hk
    · rw [List.mem_singleton.mp hk]
      refine ⟨(e.leave region.endLabel).offset, Nat.lt_add_of_pos_right hpos, rfl, ?_⟩
      rw [Function.update_of_ne (by omega)]
      exact hcaught
  · rw [Function.update_of_ne (by omega), Function.update_of_ne (by omega)]
    exact hagree₁ p (Nat.le_of_lt hp)
  · by_cases hsame : (e.leave region.endLabel).offset = e.offset
    · refine .inr ⟨_, List.mem_append_right _ (.head _), ?_⟩
      exact congrArg Nat.toUInt32 hsame
    · refine .inl ?_
      rw [Function.update_of_ne (by omega), Function.update_of_ne (Ne.symm hsame),
        hagree₁ _ (Nat.le_refl _)]
      exact hempty

end Graded

end Emitter

def Command.Graded (g : Grading α) (q : Pool) : Command → Prop
  | .ifBegin c _ _ | .elseIf c _ _ _ | .whileBegin c _ _ =>
    (∀ s, .putString s ∈ c.operand c.left ++ c.operand c.right → s ∈ q.strings) →
      ∃ a, g.Passes (c.code q) g.empty a ∧ ∀ l, g.step (.branch c.comparison.failureTest l) a g.empty
  | .catchBegin ty v => ∀ tag method slot name ty', ty.tag? = some tag →
    v = .slot method slot name ty' → g.step (.storeLocal slot) (g.caught tag) g.empty
  | c => c.indents = false → c.outdents = false →
    (∀ s, .putString s ∈ c.body → s ∈ q.strings) →
      g.Passes (codeOf q c.body ++ c.exit?.toList) g.empty g.empty

namespace Emitter.Graded

variable {q : Pool} {e e' : Emitter} {level : Nat → α} {c : Command}

theorem branches (h : e.Graded g level) (hempty : level e.offset = g.empty) {c : Condition}
    {l : Label} (hc : (∀ s, .putString s ∈ c.operand c.left ++ c.operand c.right → s ∈ q.strings) →
      ∃ a, g.Passes (c.code q) g.empty a ∧ ∀ l, g.step (.branch c.comparison.failureTest l) a g.empty)
    (hr : Runs q e (c.branches l) e') :
    ∃ level', e'.Graded g level' ∧ level' e'.offset = g.empty ∧
      ∀ p ≤ e.offset, level' p = level p := by
  obtain ⟨rfl, hs⟩ := Condition.runs_branches hr
  obtain ⟨a, hpasses, hbranch⟩ := hc hs
  rw [← hempty] at hpasses
  obtain ⟨level₁, h₁, hend, hagree⟩ :=
    h.append (fun i hi => (Condition.straight_of_mem_code hi).1) hpasses
  have hpos := (Instr.branch c.comparison.failureTest l).size_pos
  have hle : e.offset ≤ (e.append (c.code q)).offset := by
    rw [offset_append]
    exact Nat.le_add_right ..
  refine ⟨_, h₁.push (i := .branch c.comparison.failureTest l) (b := g.empty)
    (by rw [hend]; exact hbranch l) (fun _ => rfl) (fun _ => rfl), Function.update_self ..,
    fun p hp => ?_⟩
  rw [Function.update_of_ne (by omega)]
  exact hagree p hp

/-- A command takes an empty stack to an empty stack, except that a catch clause may start with the
thrown value. -/
theorem takes {m : Nat} {blocks blocks' : List Block} {e₀ : Emitter} (h : e.Graded g level)
    (hempty : level e.offset = g.empty) (hc : c.Graded g q) (hn : c.Nests blocks blocks')
    (he : c.Emittable) (hf : c.Fresh m e₀) (hr : Runs q e c.actions e') :
    ∃ level', e'.Graded g level' ∧ level' e'.offset = g.empty ∧
      (∀ p < e.offset, level' p = level p) ∧
      (level' e.offset = g.empty ∨ ∃ k ∈ e'.handlers, k.handlerStart = e.offset.toUInt32) := by
  have hrest (h : ∃ level', e'.Graded g level' ∧ level' e'.offset = g.empty ∧
      ∀ p ≤ e.offset, level' p = level p) :
      ∃ level', e'.Graded g level' ∧ level' e'.offset = g.empty ∧
        (∀ p < e.offset, level' p = level p) ∧
        (level' e.offset = g.empty ∨ ∃ k ∈ e'.handlers, k.handlerStart = e.offset.toUInt32) := by
    obtain ⟨level', h', hend, hagree⟩ := h
    refine ⟨level', h', hend, fun p hp => hagree p (Nat.le_of_lt hp), .inl ?_⟩
    rw [hagree e.offset (Nat.le_refl _), hempty]
  cases hn with
  | plain hi ho =>
    obtain ⟨rfl, hs⟩ := Command.runs_plain hi ho hr
    have hpasses : g.Passes (codeOf q c.body ++ c.exit?.toList) g.empty g.empty := by
      cases c with
      | ifBegin | elseIf | elseBegin | whileBegin | tryBegin | catchBegin => cases hi
      | endIf | endWhile | endTry => cases ho
      | _ => exact hc hi ho hs
    rw [← hempty] at hpasses
    obtain ⟨level', h', hend, hagree⟩ :=
      h.append (fun i => Command.target?_of_mem_plain hi ho) hpasses
    exact hrest ⟨level', h', hend.trans hempty, hagree⟩
  | ifBegin c l f => exact hrest (h.branches hempty hc hr)
  | elseIf c previous l f outer =>
    obtain ⟨-, hr⟩ := hr.leave_inv.mark_inv
    obtain ⟨level₁, h₁, hempty₁, hagree₁⟩ := h.leave hempty f
    obtain ⟨level₂, h₂, hempty₂, hagree₂⟩ :=
      (h₁.mark hempty₁ previous).branches hempty₁ hc hr
    have hle := e.offset_le_leave f
    exact hrest ⟨level₂, h₂, hempty₂,
      fun p hp => (hagree₂ p (Nat.le_trans hp hle)).trans (hagree₁ p hp)⟩
  | elseBegin previous f outer =>
    cases hr.leave_inv.mark_inv.2
    obtain ⟨level₁, h₁, hempty₁, hagree₁⟩ := h.leave hempty f
    exact hrest ⟨level₁, h₁.mark hempty₁ previous, hempty₁, hagree₁⟩
  | endIf pending f =>
    cases pending with
    | none =>
      cases hr.single_inv
      exact hrest ⟨level, h.mark hempty f, hempty, fun _ _ => rfl⟩
    | some l =>
      cases hr.mark_inv.2.mark_inv.2
      exact hrest ⟨level, (h.mark hempty l).mark hempty f, hempty, fun _ _ => rfl⟩
  | whileBegin c l l' =>
    obtain ⟨-, hr⟩ := hr.mark_inv
    exact hrest ((h.mark hempty l).branches hempty hc hr)
  | endWhile l l' =>
    cases hr.put_inv.mark_inv.2
    obtain ⟨level₁, h₁, hempty₁, hagree₁⟩ := h.jump hempty l
    exact hrest ⟨level₁, h₁.mark hempty₁ l', hempty₁, hagree₁⟩
  | tryBegin =>
    cases hr.single_inv
    exact hrest ⟨level, ⟨h.start, h.instr, h.marks, h.handlers⟩, hempty, fun _ _ => rfl⟩
  | catchBegin ty v hasCatch outer =>
    obtain ⟨tag, name, ty', region, rest, htag, rfl, -, rfl⟩ := hf.runs_catchBegin he hr
    exact h.openCatch hempty (hc tag _ _ _ _ htag rfl)
  | endTry =>
    cases hr.single_inv with
    | closeRegion hregions hcatches hmark =>
      rename_i region outer
      obtain ⟨level₁, h₁, hempty₁, hagree₁⟩ := (h.regions outer).leave hempty region.endLabel
      exact hrest ⟨level₁, h₁.mark hempty₁ region.endLabel, hempty₁, hagree₁⟩

end Emitter.Graded

/-- Nothing is on the stack at the offset, which else is where a catch clause starts. -/
def Emitter.Rests (g : Grading α) (e : Emitter) (level : Nat → α) (p : Nat) : Prop :=
  p ≤ e.offset ∧ (level p = g.empty ∨ ∃ k ∈ e.handlers, k.handlerStart = p.toUInt32)

structure MethodDef.Graded (g : Grading α) (t : MethodDef) (e : Emitter) (level : Nat → α) :
    Prop where
  code : e.Graded g level
  commands : ∀ c ∈ t.commands, e.Rests g level c.codeStart ∧ e.Rests g level c.codeEnd

theorem MethodDef.Graded.append {t : MethodDef} {e : Emitter} {level : Nat → α}
    (h : t.Graded g e level) (hempty : level e.offset = g.empty) {code : List (Instr Label)}
    (hcode : ∀ i ∈ code, i.target? = none) (hp : g.Passes code g.empty g.empty) :
    ∃ level', t.Graded g (e.append code) level' := by
  rw [← hempty] at hp
  obtain ⟨level', h', -, hagree⟩ := h.code.append hcode hp
  have hrest {p : Nat} (hp : e.Rests g level p) : (e.append code).Rests g level' p := by
    refine ⟨?_, ?_⟩
    · rw [Emitter.offset_append]
      exact Nat.le_trans hp.1 (Nat.le_add_right ..)
    · rw [hagree p hp.1, Emitter.handlers_append]
      exact hp.2
  exact ⟨level', h', fun c hc => (h.commands c hc).imp hrest hrest⟩

theorem Action.Acts.grows {q : Pool} {e e' : Emitter} {a : Action} (h : a.Acts q e e') :
    e.offset ≤ e'.offset ∧ e.handlers ⊆ e'.handlers := by
  cases h with
  | put | putString => exact ⟨Nat.le_add_right .., List.Subset.refl _⟩
  | mark | openRegion => exact ⟨Nat.le_refl _, List.Subset.refl _⟩
  | leave l => exact ⟨e.offset_le_leave l, by rw [e.handlers_leave]; exact List.Subset.refl _⟩
  | @openCatch _ region outer =>
    refine ⟨e.offset_le_leave region.endLabel, fun k hk => List.mem_append_left _ ?_⟩
    rw [e.handlers_leave]
    exact hk
  | @closeRegion _ region outer =>
    have hle := Emitter.offset_le_leave { e with regions := outer } region.endLabel
    refine ⟨hle, fun k hk => ?_⟩
    change k ∈ (Emitter.leave _ _).handlers
    rw [Emitter.handlers_leave]
    exact hk

theorem Runs.grows {q : Pool} {e e' : Emitter} {actions : List Action}
    (h : Runs q e actions e') : e.offset ≤ e'.offset ∧ e.handlers ⊆ e'.handlers := by
  induction h with
  | nil e => exact ⟨Nat.le_refl _, List.Subset.refl _⟩
  | cons hact _ ih =>
    exact ⟨Nat.le_trans hact.grows.1 ih.1, List.Subset.trans hact.grows.2 ih.2⟩

variable {q : Pool} {m : Nat} {t : MethodDef}

theorem History.graded (h : History q m t) (hc : ∀ c ∈ t.commands,
      c.command.check = .ok () → c.command.Emittable → c.command.Graded g q) :
    ∃ level, t.Graded g t.emitter level ∧ level t.emitter.offset = g.empty := by
  induction h with
  | start =>
    refine ⟨fun _ => g.empty, ⟨⟨rfl, ?_, ?_, ?_⟩, fun c hc => absurd hc (Array.not_mem_empty c)⟩, rfl⟩
    all_goals
      intros
      contradiction
  | @take t t' c h ht ih =>
    have hcommands : t'.commands = t.commands.push ⟨c, t.emitter.offset, t'.emitter.offset⟩ := by
      rw [ht.eq]
    rw [hcommands] at hc
    obtain ⟨level, hl, hempty⟩ := ih fun c' hc' => hc c' (Array.mem_push_of_mem _ hc')
    obtain ⟨level', hl', hend, hagree, hstart⟩ := (hl.code.prepare c).takes hempty
      (hc _ Array.mem_push_self ht.check ht.emittable) ht.nests ht.emittable ht.fresh ht.runs
    obtain ⟨hle, hhandlers⟩ := ht.runs.grows
    have hold {p : Nat} (hp : t.emitter.Rests g level p) : t'.emitter.Rests g level' p := by
      refine ⟨Nat.le_trans hp.1 hle, ?_⟩
      obtain hlt | rfl := Nat.lt_or_eq_of_le hp.1
      · rw [hagree p hlt]
        exact hp.2.imp_right fun ⟨k, hk, hkp⟩ => ⟨k, hhandlers hk, hkp⟩
      · exact hstart
    refine ⟨level', ⟨hl', fun c' hc' => ?_⟩, hend⟩
    rw [hcommands] at hc'
    obtain hc' | rfl := Array.mem_push.mp hc'
    · exact (hl.commands c' hc').imp hold hold
    · exact ⟨⟨hle, hstart⟩, Nat.le_refl _, .inl hend⟩

theorem History.graded_complete (h : History q m t) (hc : ∀ c ∈ t.commands,
      c.command.check = .ok () → c.command.Emittable → c.command.Graded g q)
    (hp : g.Passes t.implied g.empty g.empty) : ∃ level, t.Graded g t.complete level := by
  obtain ⟨level, hl, hempty⟩ := h.graded hc
  exact hl.append hempty (fun i => MethodDef.target?_of_mem_implied) hp

theorem History.graded_accessor (h : History q m t) (hnew : t.commands = #[]) {id : Nat}
    {f : FieldDef} {code : List (Instr Label)} (hcode : Accessor id f t code)
    (hp : g.Passes code g.empty g.empty) : ∃ level, t.Graded g (t.emitter.append code) level := by
  obtain ⟨level, hl, hempty⟩ := h.graded (g := g) fun c hc => by
    rw [hnew] at hc
    exact absurd hc (Array.not_mem_empty c)
  refine hl.append hempty ?_ hp
  cases hcode <;> simp [Instr.target?]

namespace Emitter

structure Grounds (g : Grading α) (f : Function) (e : Emitter) (level : Nat → α) : Prop where
  closed : e.Closed
  size : e.offset < 2 ^ 31
  code : f.code = e.body.code
  handlers : f.handlers = e.body.handlers
  graded : e.Graded g level

/-- There is an instruction of the code at the position, and this is known of the stack there. -/
structure Stage (e : Emitter) (level : Nat → α) (p : Nat) (a : α) : Prop where
  inside : ∃ i, instrAt e.code.toList p = some i
  grade : level p = a

namespace Grounds

variable {e : Emitter} {level : Nat → α} {f : Function} {x x₁ x' : Machine.Frame} {a : α}

theorem stage_start (h : e.Grounds g f level) : e.Stage level 0 g.empty :=
  ⟨h.closed.exists_first, h.graded.start⟩

theorem stage_handler (h : e.Grounds g f level) {k : Handler} (hk : k ∈ f.handlers) :
    e.Stage level k.handlerStart.toNat (g.caught k.catchType) := by
  rw [h.handlers] at hk
  refine ⟨(h.closed.handler h.size hk).2.2.2.2, ?_⟩
  obtain ⟨start, hlt, hstart, hcaught⟩ := h.graded.handlers k hk
  have hsize := h.size
  rw [hstart, ← hcaught]
  exact congrArg level (Nat.mod_eq_of_lt (by omega))

/-- What a frame in the code fetches goes from the grade at its position to the grade of the place
it leads to. -/
theorem fetched (h : e.Grounds g f level) (hx : x.function = f) (hs : e.Stage level x.position a)
    {i : Instr Int32} (hfetch : x.fetch = .ok (i, x₁)) :
    ∃ i₀ b, instrAt e.code.toList x.position = some i₀ ∧
      i = i₀.mapTarget (e.distance (x.position + i₀.size)) ∧
      x₁ = { x with position := x.position + i₀.size } ∧ g.step i₀ a b ∧
      ∀ x', Machine.Arrives i x₁ x' → e.Stage level x'.position b := by
  obtain ⟨⟨i₀, hi₀⟩, rfl⟩ := hs
  rw [fetch_assemble (hx ▸ h.code) hi₀] at hfetch
  cases hfetch
  obtain ⟨b, hstep, hnext, htarget⟩ := h.graded.instr x.position i₀ hi₀
  refine ⟨i₀, b, hi₀, rfl, rfl, hstep, ?_⟩
  rintro x' (⟨hp, hop⟩ | ⟨d, hd, hp⟩)
  · rw [Instr.opcode_mapTarget] at hop
    rw [hp]
    exact ⟨h.closed.exists_next hi₀ hop, hnext hop⟩
  · rw [Instr.target?_mapTarget] at hd
    obtain ⟨l, hl, rfl⟩ := Option.map_eq_some_iff.mp hd
    obtain ⟨p', j, hmark, hj, hdistance⟩ := h.closed.exists_target h.size hi₀ hl
    rw [hdistance, Int.toNat_natCast] at hp
    rw [hp, htarget (Option.isSome_of_eq_some hl)]
    exact ⟨⟨j, hj⟩, (h.graded.marks l p' hmark).2⟩

end Grounds

end Emitter

end Bytesmith.Build
