import Bytesmith.Proofs.Boundaries
import Bytesmith.Proofs.Labels

namespace Bytesmith.Code.Instr

variable {τ σ : Type} {i : Instr τ}

theorem target?_of_ofOpcode? {op : Opcode} (h : ofOpcode? op = some i) : i.target? = none := by
  cases op <;> cases h <;> rfl

end Bytesmith.Code.Instr

namespace Bytesmith.Build

open Code Outcome

inductive Event
  /-- Emits a jump or a branch to the label, which starts at the offset. -/
  | jumped (offset : Nat) (l : Label)
  | marked (offset : Nat) (l : Label)
deriving DecidableEq

def Pending (events : List Event) (l : Label) : Prop :=
  (∃ offset, .jumped offset l ∈ events) ∧ ∀ offset, .marked offset l ∉ events

namespace Emitter

def leaving (e : Emitter) (l : Label) : List Event :=
  if e.canFallThrough then [.jumped e.offset l] else []

def marking (e : Emitter) (l : Label) : List Event :=
  if e.isMarked l then [] else [.marked e.offset l]

end Emitter

/-- What a call does about labels while the emitter is not finished. A clause is left by a jump to
the end of its region, which is marked when the region ends. -/
def EmitterCall.events (call : EmitterCall) (e : Emitter) : List Event :=
  match call with
  | .emit i => i.target?.toList.map (.jumped e.offset)
  | .emitBranch (.branch _) l => [.jumped e.offset l]
  | .markLabel l => e.marking l
  | .beginCatch _ =>
    match e.regions with
    | [] => []
    | region :: _ => e.leaving region.endLabel
  | .endTry =>
    match e.regions with
    | [] => []
    | region :: _ =>
      if region.catches = 0 then []
      else e.leaving region.endLabel ++ (e.leave region.endLabel).marking region.endLabel
  | _ => []

def emitEvents : List EmitterCall → Emitter → List Event
  | [], _ => []
  | call :: calls, e =>
    (if e.isFinished then [] else call.events e) ++ emitEvents calls (final (call.perform e))

namespace Emitter

/-- Changes to an emitter, one after the other, with the jumps and marks among them. -/
inductive Develops : Emitter → List Event → Emitter → Prop
  | quiet {e e' : Emitter} (hname : e'.name = e.name) (hcode : e'.code = e.code)
      (hmarks : e'.marks = e.marks) (hfinished : e.isFinished = true → e'.isFinished = true) :
      Develops e [] e'
  | push (e : Emitter) (i : Instr Label) :
      Develops e (i.target?.toList.map (.jumped e.offset)) (e.push i)
  | mark {e : Emitter} {l : Label} (h : e.isMarked l = false) :
      Develops e [.marked e.offset l] (e.mark l)
  | trans {e e' e'' : Emitter} {a b : List Event} (h : Develops e a e') (h' : Develops e' b e'') :
      Develops e (a ++ b) e''

namespace Develops

variable {e e' : Emitter} {events : List Event}

theorem refl (e : Emitter) : Develops e [] e := .quiet rfl rfl rfl id

theorem plain (e : Emitter) {i : Instr Label} (hi : i.target? = none) :
    Develops e [] (e.push i) := by
  have h := push e i
  rwa [hi] at h

theorem leave (e : Emitter) (l : Label) : Develops e (e.leaving l) (e.leave l) := by
  unfold leaving Emitter.leave
  split
  · exact push e (.jump l)
  · exact refl e

theorem name_eq (h : Develops e events e') : e'.name = e.name := by
  induction h with
  | quiet hname _ _ _ => exact hname
  | push | mark => rfl
  | trans _ _ ih ih' => exact ih'.trans ih

theorem isFinished (h : Develops e events e') (he : e.isFinished = true) :
    e'.isFinished = true := by
  induction h with
  | quiet _ _ _ hfinished => exact hfinished he
  | push | mark => exact he
  | trans _ _ ih ih' => exact ih' (ih he)

theorem code_prefix (h : Develops e events e') : e.code.toList <+: e'.code.toList := by
  induction h with
  | quiet _ hcode _ _ => exact hcode ▸ List.prefix_refl _
  | push e i =>
    rw [code_push]
    exact List.prefix_append ..
  | mark _ => exact List.prefix_refl _
  | trans _ _ ih ih' => exact ih.trans ih'

end Develops

end Emitter

theorem Emitter.marking_leave (e : Emitter) (regions : List Region) (l : Label) :
    ({ e with regions := regions }.leave l).marking l = (e.leave l).marking l := by
  have hfall : { e with regions := regions }.canFallThrough = e.canFallThrough := rfl
  rw [leave, leave, hfall]
  split <;> rfl

namespace EmitM

open Emitter

variable {α : Type} {e : Emitter}

theorem develops_ensureOpen_bind {x : Unit → EmitM α} {events : List Event}
    (h : e.isFinished = false → Develops e events (final (x () e))) :
    Develops e (if e.isFinished then [] else events) (final ((ensureOpen >>= x) e)) := by
  cases he : e.isFinished with
  | true =>
    rw [bind_of_error (ensureOpen_of_finished he), if_pos rfl]
    exact .refl e
  | false =>
    rw [bind_of_ok (ensureOpen_of_open he), if_neg Bool.false_ne_true]
    exact h he

theorem develops_markLabel (l : Label) (e : Emitter) :
    Develops e (if e.isFinished then [] else e.marking l) (final (markLabel l e)) := by
  refine develops_ensureOpen_bind fun _ => ?_
  rw [get_bind, marking]
  by_cases hl : e.isMarked l = true
  · rw [if_pos hl, if_pos hl]
    exact .refl e
  · rw [if_neg hl, if_neg hl]
    exact .mark (Bool.eq_false_iff.mpr hl)

theorem develops_beginCatch (tag : TypeTag) (e : Emitter) :
    Develops e (if e.isFinished then [] else (EmitterCall.beginCatch tag).events e)
      (final (beginCatch tag e)) := by
  refine develops_ensureOpen_bind fun he => ?_
  rw [get_bind, EmitterCall.events]
  cases hregions : e.regions with
  | nil => exact .refl e
  | cons region outer =>
    dsimp only
    rw [bind_of_ok (Command.leaveTo_of_open he)]
    have hopens : Develops (e.leave region.endLabel) [] (e.openCatch region outer tag) :=
      .quiet rfl rfl rfl id
    have h := (Develops.leave e region.endLabel).trans hopens
    rwa [List.append_nil] at h

theorem develops_endTry (e : Emitter) :
    Develops e (if e.isFinished then [] else EmitterCall.endTry.events e) (final (endTry e)) := by
  refine develops_ensureOpen_bind fun he => ?_
  rw [get_bind, EmitterCall.events]
  cases hregions : e.regions with
  | nil => exact .refl e
  | cons region outer =>
    dsimp only
    by_cases hcatches : region.catches = 0
    · rw [if_pos hcatches, if_pos hcatches]
      exact .refl e
    · rw [if_neg hcatches, if_neg hcatches, set_bind]
      -- the region is gone and left even if its label turns out to be marked
      have hpop : Develops e [] { e with regions := outer } := .quiet rfl rfl rfl id
      have hmark := develops_markLabel region.endLabel
        ({ e with regions := outer }.leave region.endLabel)
      rw [isFinished_leave, marking_leave, if_neg (Bool.eq_false_iff.mp he)] at hmark
      have hbind := bind_of_ok (f := fun _ => markLabel region.endLabel)
        (Command.leaveTo_of_open (e := { e with regions := outer }) (l := region.endLabel) he)
      exact hbind ▸ hpop.trans ((Develops.leave _ _).trans hmark)

end EmitM

open EmitM Emitter in
theorem EmitterCall.develops_perform (call : EmitterCall) (e : Emitter) :
    Develops e (if e.isFinished then [] else call.events e) (final (call.perform e)) := by
  have hnone {e' : Emitter} (h : Develops e [] e') :
      Develops e (if e.isFinished then [] else []) e' := by
    rwa [ite_self]
  cases call with
  | emit i => exact develops_ensureOpen_bind fun _ => .push e i
  | emitOpcode op =>
    refine develops_ensureOpen_bind fun _ => ?_
    cases hi : Instr.ofOpcode? op with
    | none => exact .refl e
    | some i => exact .plain e (Instr.target?_of_ofOpcode? hi)
  | emitBranch op l =>
    cases op with
    | branch test => exact develops_ensureOpen_bind fun _ => .push e (.branch test l)
    | _ => exact hnone (.refl e)
  | emitBox kind | emitUnbox kind =>
    refine develops_ensureOpen_bind fun _ => ?_
    by_cases hkind : kind = .reference
    · rw [if_pos hkind]
      exact .refl e
    · rw [if_neg hkind]
      exact .plain e rfl
  | declareLocal name =>
    refine final_map (x := EmitM.declareLocal name) (fun _ => ()) ▸ ?_
    refine develops_ensureOpen_bind fun _ => ?_
    rw [get_bind]
    split
    · exact .refl e
    · exact .quiet rfl rfl rfl id
  | defineLabel => exact hnone (.quiet rfl rfl rfl id)
  | markLabel l => exact develops_markLabel l e
  | beginTry =>
    refine final_map (x := EmitM.beginTry) (fun _ => ()) ▸ ?_
    exact develops_ensureOpen_bind fun _ => .quiet rfl rfl rfl id
  | beginCatch tag => exact develops_beginCatch tag e
  | endTry => exact develops_endTry e
  | finish =>
    refine final_map (x := EmitM.finish) (fun _ => ()) ▸ ?_
    refine develops_ensureOpen_bind fun _ => ?_
    rw [get_bind]
    split
    · exact .refl e
    · split
      · exact .refl e
      · exact .quiet rfl rfl rfl fun _ => rfl

theorem Emitter.develops_emitAll (calls : List EmitterCall) (e : Emitter) :
    Develops e (emitEvents calls e) (emitAll calls e).1 := by
  induction calls generalizing e with
  | nil => exact .refl e
  | cons call calls ih => exact (call.develops_perform e).trans (ih _)

theorem emitAll_append (before after : List EmitterCall) (e : Emitter) :
    (emitAll (before ++ after) e).1 = (emitAll after (emitAll before e).1).1 := by
  induction before generalizing e with
  | nil => rfl
  | cons call before ih => exact ih _

namespace Emitter

variable {e e' : Emitter} {events past : List Event}

theorem position?_mark_eq (e : Emitter) (l l' : Label) :
    (e.mark l).position? l' = if l' = l then some e.offset else e.position? l' := by
  rw [position?, Emitter.mark, List.lookup_cons]
  by_cases h : l' = l
  · rw [if_pos h, beq_iff_eq.mpr h]
  · rw [if_neg h, beq_eq_false_iff_ne.mpr h]
    rfl

structure Records (e : Emitter) (events : List Event) : Prop where
  jumps : ∀ offset l, .jumped offset l ∈ events ↔
    ∃ i, instrAt e.code.toList offset = some i ∧ i.target? = some l
  marks : ∀ offset l, .marked offset l ∈ events ↔ e.position? l = some offset
  boundaries : ∀ l offset, e.position? l = some offset → IsBoundary e.code.toList offset

namespace Records

theorem start (name : String) (paramCount : Nat) : Records (.start name paramCount) [] := by
  refine ⟨fun offset l => ⟨nofun, ?_⟩, fun offset l => ⟨nofun, nofun⟩, nofun⟩
  rintro ⟨i, hi, -⟩
  cases hi

theorem push (h : Records e past) (i : Instr Label) :
    Records (e.push i) (past ++ i.target?.toList.map (.jumped e.offset)) := by
  refine ⟨fun offset l => ?_, fun offset l => ?_, fun l offset hl => ?_⟩
  · rw [code_push]
    simp only [List.mem_append, List.mem_map, Option.mem_toList, h.jumps, instrAt_concat]
    rw [← e.offset_eq]
    constructor
    · rintro (⟨j, hj, hl⟩ | ⟨l', hl', heq⟩)
      · exact ⟨j, .inl hj, hl⟩
      · cases heq
        exact ⟨i, .inr ⟨rfl, rfl⟩, hl'⟩
    · rintro ⟨j, hj | ⟨rfl, rfl⟩, hl⟩
      · exact .inl ⟨j, hj, hl⟩
      · exact .inr ⟨l, hl, rfl⟩
  · simp only [List.mem_append, List.mem_map, h.marks]
    constructor
    · rintro (hl | ⟨l', -, heq⟩)
      · exact hl
      · cases heq
    · exact .inl
  · rw [code_push]
    exact (h.boundaries l offset hl).append [i]

theorem mark (h : Records e past) {l : Label} (hl : e.isMarked l = false) :
    Records (e.mark l) (past ++ [.marked e.offset l]) := by
  have hnone : e.position? l = none := by
    rw [isMarked, Option.isSome_eq_false_iff, Option.isNone_iff_eq_none] at hl
    exact hl
  refine ⟨fun offset l' => ?_, fun offset l' => ?_, fun l' offset => ?_⟩
  · rw [List.mem_append, h.jumps]
    simp only [List.mem_singleton, reduceCtorEq, or_false]
    rfl
  · rw [List.mem_append, h.marks, List.mem_singleton, position?_mark_eq, Event.marked.injEq]
    by_cases heq : l' = l
    · subst heq
      rw [if_pos rfl, hnone, Option.some.injEq]
      simp [eq_comm]
    · rw [if_neg heq]
      simp [heq]
  · rw [position?_mark_eq]
    split
    · intro hoffset
      cases hoffset
      exact e.boundary_offset
    · exact h.boundaries l' offset

theorem develops (h : Records e past) (hd : Develops e events e') :
    Records e' (past ++ events) := by
  induction hd generalizing past with
  | quiet _ hcode hmarks _ =>
    rw [List.append_nil]
    obtain ⟨hjumps, hpositions, hboundaries⟩ := h
    simp only [position?, ← hcode, ← hmarks] at hjumps hpositions hboundaries
    exact ⟨hjumps, hpositions, hboundaries⟩
  | push e i => exact h.push i
  | mark hl => exact h.mark hl
  | trans _ _ ih ih' =>
    rw [← List.append_assoc]
    exact ih' (ih h)

end Records

theorem head?_eraseReps {α : Type} [BEq α] (as : List α) : as.eraseReps.head? = as.head? := by
  have hloop (a : α) (as done : List α) :
      (List.eraseRepsBy.loop (· == ·) a as done).head? = (done.reverse ++ [a]).head? := by
    induction as generalizing a done with
    | nil => simp [List.eraseRepsBy.loop]
    | cons b as ih =>
      rw [List.eraseRepsBy.loop]
      split
      · exact ih a done
      · rw [ih, List.reverse_cons]
        cases done.reverse <;> rfl
  cases as with
  | nil => rfl
  | cons a as => exact hloop a as []

namespace Records

theorem pending_iff (h : Records e events) {l : Label} :
    Pending events l ↔ l ∈ e.targets.filter (!e.isMarked ·) := by
  have htargets : (∃ offset, .jumped offset l ∈ events) ↔ l ∈ e.targets := by
    simp only [h.jumps, targets, List.mem_filterMap, mem_iff_instrAt]
    constructor
    · rintro ⟨offset, i, hi, hl⟩
      exact ⟨i, ⟨offset, hi⟩, hl⟩
    · rintro ⟨i, ⟨offset, hi⟩, hl⟩
      exact ⟨offset, i, hi, hl⟩
  have hmarks : (∀ offset, .marked offset l ∉ events) ↔ e.isMarked l = false := by
    simp only [h.marks, isMarked, Option.isSome_eq_false_iff, Option.isNone_iff_eq_none]
    exact Option.eq_none_iff_forall_ne_some.symm
  rw [Pending, htargets, hmarks, List.mem_filter, Bool.not_eq_true']

theorem least_of_head? (h : Records e events) {l : Label}
    (hl : e.unmarkedLabels.head? = some l) :
    Pending events l ∧ ∀ l', Pending events l' → l.id ≤ l'.id := by
  rw [unmarkedLabels, head?_eraseReps, List.head?_eq_some_iff] at hl
  obtain ⟨rest, hsorted⟩ := hl
  have hmem (l' : Label) : Pending events l' ↔ l' ∈ l :: rest := by
    rw [h.pending_iff, ← hsorted, List.mem_mergeSort]
  have hpairwise : (l :: rest).Pairwise fun a b => decide (a.id ≤ b.id) = true := by
    rw [← hsorted]
    apply List.pairwise_mergeSort
    · simp only [decide_eq_true_eq]
      omega
    · simp only [Bool.or_eq_true, decide_eq_true_eq]
      omega
  refine ⟨(hmem l).mpr (.head _), fun l' hl' => ?_⟩
  obtain rfl | hrest := List.mem_cons.mp ((hmem l').mp hl')
  · exact Nat.le_refl _
  · exact of_decide_eq_true (List.rel_of_pairwise_cons hpairwise hrest)

theorem not_pending_of_head? (h : Records e events) (hnone : e.unmarkedLabels.head? = none)
    (l : Label) : ¬ Pending events l := by
  rw [unmarkedLabels, head?_eraseReps, List.head?_eq_none_iff] at hnone
  rw [h.pending_iff, ← List.mem_mergeSort, hnone]
  exact List.not_mem_nil

end Records

end Emitter

/-- Why code cannot be finished that was started with the name, has these open regions and these jumps
and marks, and may be finished already. -/
inductive Unready (name : String) (isFinished : Bool) (regions : List Region)
    (events : List Event) : BuildError → Prop
  | finished (h : isFinished = true) :
      Unready name isFinished regions events (.invalidOperation (.finishedEmitter name))
  | regions (h : isFinished = false) (hr : regions ≠ []) :
      Unready name isFinished regions events (.invalidOperation (.openRegions name regions.length))
  | label {l : Label} (h : isFinished = false) (hr : regions = []) (hl : Pending events l)
      (hleast : ∀ l', Pending events l' → l.id ≤ l'.id) :
      Unready name isFinished regions events (.unmarkedLabel name l.id)

namespace Unready

variable {name : String} {isFinished : Bool} {regions : List Region} {events : List Event}
  {err err' : BuildError}

theorem unique (h : Unready name isFinished regions events err)
    (h' : Unready name isFinished regions events err') : err = err' := by
  cases h with
  | finished he =>
    cases h' with
    | finished _ => rfl
    | regions he' | label he' => exact absurd he (Bool.eq_false_iff.mp he')
  | regions he hr =>
    cases h' with
    | finished he' => exact absurd he' (Bool.eq_false_iff.mp he)
    | regions _ _ => rfl
    | label _ hr' _ _ => exact absurd hr' hr
  | label he hr hl hleast =>
    cases h' with
    | finished he' => exact absurd he' (Bool.eq_false_iff.mp he)
    | regions _ hr' => exact absurd hr hr'
    | label _ _ hl' hleast' =>
      rw [Nat.le_antisymm (hleast _ hl') (hleast' _ hl)]

theorem not_ready (h : Unready name isFinished regions events err) :
    ¬ (isFinished = false ∧ regions = [] ∧ ∀ l, ¬ Pending events l) := by
  rintro ⟨he, hr, hnone⟩
  cases h with
  | finished he' => exact absurd he' (Bool.eq_false_iff.mp he)
  | regions _ hr' => exact absurd hr hr'
  | label _ _ hl _ => exact absurd hl (hnone _)

end Unready

namespace EmitM

open Emitter

variable {e : Emitter} {events : List Event}

theorem finish_cases (h : Records e events) :
    (∃ err, finish e = .error err e ∧ Unready e.name e.isFinished e.regions events err) ∨
      e.isFinished = false ∧ e.regions = [] ∧ (∀ l, ¬ Pending events l) ∧
        ∃ body e', finish e = .ok body e' := by
  by_cases he : e.isFinished = true
  · exact .inl ⟨_, bind_of_error (ensureOpen_of_finished he), .finished he⟩
  · have hopen := Bool.eq_false_iff.mpr he
    rw [finish, bind_of_ok (ensureOpen_of_open hopen), get_bind]
    cases hr : e.regions with
    | cons region outer => exact .inl ⟨_, rfl, .regions hopen (List.cons_ne_nil _ _)⟩
    | nil =>
      cases hhead : e.unmarkedLabels.head? with
      | some l =>
        obtain ⟨hl, hleast⟩ := h.least_of_head? hhead
        exact .inl ⟨_, rfl, .label hopen rfl hl hleast⟩
      | none => exact .inr ⟨hopen, rfl, h.not_pending_of_head? hhead, _, _, rfl⟩

theorem finish_eq_error_iff (h : Records e events) (err : BuildError) (e' : Emitter) :
    finish e = .error err e' ↔ e' = e ∧ Unready e.name e.isFinished e.regions events err := by
  obtain ⟨err', herr, hunready⟩ | ⟨he, hr, hnone, body, last, hok⟩ := finish_cases h
  · rw [herr, EStateM.Result.error.injEq]
    constructor
    · rintro ⟨rfl, rfl⟩
      exact ⟨rfl, hunready⟩
    · rintro ⟨rfl, hunready'⟩
      exact ⟨hunready.unique hunready', rfl⟩
  · rw [hok]
    exact ⟨nofun, fun hunready => absurd ⟨he, hr, hnone⟩ hunready.2.not_ready⟩

theorem finish_eq_ok_iff (h : Records e events) : (∃ body e', finish e = .ok body e') ↔
    e.isFinished = false ∧ e.regions = [] ∧ ∀ l, ¬ Pending events l := by
  obtain ⟨err, herr, hunready⟩ | ⟨he, hr, hnone, hok⟩ := finish_cases h
  · rw [herr]
    exact ⟨nofun, fun hready => absurd hready hunready.not_ready⟩
  · exact ⟨fun _ => ⟨he, hr, hnone⟩, fun _ => hok⟩

end EmitM

/-- In code of this size, with these instructions, each of the jumps leads to the one offset at which
its label was marked, and there are no other jumps. -/
structure Resolves (events : List Event) (size : Nat) (placed : List Placed) : Prop where
  leads : ∀ offset l, .jumped offset l ∈ events → ∃ p ∈ placed, ∃ d target, p.offset = offset ∧
    p.instr.target? = some d ∧ p.destination d = (target : Nat) ∧ .marked target l ∈ events ∧
      (target = size ∨ ∃ p' ∈ placed, p'.offset = target)
  unique : ∀ offset offset' l, .marked offset l ∈ events → .marked offset' l ∈ events →
    offset = offset'
  exhausts : ∀ p ∈ placed, ∀ d, p.instr.target? = some d → ∃ l, .jumped p.offset l ∈ events

namespace Emitter

variable {e : Emitter} {events : List Event}

/-- Distances are the only bytes that depend on where labels are. -/
theorem getElem?_assemble (distance distance' : Nat → Label → Int32) (start : Nat)
    (code : List (Instr Label)) (k : Nat)
    (hk : ∀ offset i l, instrAt code offset = some i → i.target? = some l →
      ¬ (offset < k ∧ k < offset + 5)) :
    (assemble distance start code)[k]? = (assemble distance' start code)[k]? := by
  induction code generalizing start k with
  | nil => rfl
  | cons i code ih =>
    have hlength (d : Nat → Label → Int32) :
        (i.mapTarget (d (start + i.size))).encode.length = i.size := by
      rw [Instr.encode_length, Instr.size_mapTarget]
    rw [assemble, assemble]
    by_cases hlt : k < i.size
    · rw [List.getElem?_append_left (by rwa [hlength]), List.getElem?_append_left (by rwa [hlength])]
      cases hi : i.target? with
      | none => rw [Instr.mapTarget_congr hi]
      | some l =>
        have hfirst : k = 0 := by
          have hout := hk 0 i l rfl hi
          rw [Instr.size_of_target? hi] at hlt
          omega
        rw [hfirst, Instr.encode, Instr.encode, List.getElem?_cons_zero, List.getElem?_cons_zero,
          Instr.opcode_mapTarget, Instr.opcode_mapTarget]
    · have hle := Nat.le_of_not_lt hlt
      rw [List.getElem?_append_right (by rwa [hlength]), List.getElem?_append_right (by rwa [hlength]),
        hlength, hlength]
      refine ih _ _ fun offset j l hj hl hinside => ?_
      obtain ⟨before, after, rfl, rfl⟩ := instrAt_eq_some_iff.mp hj
      have hj' := instrAt_totalSize (i :: before) after j
      exact hk _ j l hj' hl ⟨by rw [totalSize]; omega, by rw [totalSize]; omega⟩

theorem bytes_of_open (he : e.isFinished = false) :
    e.bytes = assemble (fun _ _ => 0) 0 e.code.toList := by
  rw [bytes, if_neg (Bool.eq_false_iff.mp he)]

theorem bytes_of_finish {e' : Emitter} {body : Body} (h : EmitM.finish e = .ok body e') :
    body.code = (assemble e.distance 0 e.code.toList).toArray := by
  obtain ⟨rfl, rfl⟩ := EmitM.finish_eq_ok h
  rfl

theorem Records.getElem?_finished {e₁ e' : Emitter} {later : List Event} {body : Body}
    (h : Records e events) (hd : Develops e₁ later e) (he : e.isFinished = false)
    (hfinish : EmitM.finish e = .ok body e') {k : Nat} (hk : k < e₁.bytes.length)
    (hout : ∀ offset l, .jumped offset l ∈ events → ¬ (offset < k ∧ k < offset + 5)) :
    body.code[k]? = e₁.bytes[k]? := by
  have he₁ : e₁.isFinished = false := by
    rw [Bool.eq_false_iff] at he ⊢
    exact fun h₁ => he (hd.isFinished h₁)
  -- both are the same instructions up to here, assembled with different distances
  obtain ⟨rest, hrest⟩ := hd.code_prefix
  rw [bytes_of_finish hfinish, List.getElem?_toArray, ← hrest, assemble_append]
  rw [bytes_of_open he₁] at hk ⊢
  rw [assemble_length] at hk
  rw [List.getElem?_append_left (by rwa [assemble_length])]
  refine getElem?_assemble _ _ _ _ _ fun offset i l hi hl => hout offset l ?_
  obtain ⟨before, after, hcode, hoffset⟩ := instrAt_eq_some_iff.mp hi
  refine (h.jumps offset l).mpr ⟨i, instrAt_eq_some_iff.mpr ⟨before, after ++ rest, ?_, hoffset⟩, hl⟩
  rw [← hrest, hcode, List.append_assoc, List.cons_append]

theorem Records.resolves (h : Records e events) (hnone : ∀ l, ¬ Pending events l)
    (hsize : totalSize e.code.toList < 2 ^ 31) :
    Resolves events (totalSize e.code.toList) (placed e.distance 0 e.code.toList) := by
  have hplaced {offset : Nat} {i : Instr Label} (hi : instrAt e.code.toList offset = some i) :
      ⟨offset, offset + i.size, i.mapTarget (e.distance (offset + i.size))⟩ ∈
        placed e.distance 0 e.code.toList := by
    refine (mem_placed e.distance).mpr ⟨offset, i, hi, ?_⟩
    rw [Nat.zero_add]
  refine ⟨fun offset l hjumped => ?_, fun offset offset' l hl hl' => ?_, fun p hp d hd => ?_⟩
  · obtain ⟨i, hi, hl⟩ := (h.jumps offset l).mp hjumped
    obtain ⟨target, hmarked⟩ : ∃ target, .marked target l ∈ events := by
      by_contra hmarks
      exact hnone l ⟨⟨offset, hjumped⟩, not_exists.mp hmarks⟩
    have hposition := (h.marks target l).mp hmarked
    have hboundary := h.boundaries l target hposition
    have htarget := hboundary.le
    have hnext := instrAt_next_le hi
    refine ⟨_, hplaced hi, e.distance (offset + i.size) l, target, rfl, ?_, ?_, hmarked, ?_⟩
    · rw [Instr.target?_mapTarget, hl, Option.map_some]
    · have hbelow : offset + i.size < 2 ^ 31 := by omega
      exact distance_toInt hposition (by omega) hbelow
    · obtain hend | hlt := Nat.eq_or_lt_of_le htarget
      · exact .inl hend
      · obtain ⟨j, hj⟩ := hboundary.exists_instrAt hlt
        exact .inr ⟨_, hplaced hj, rfl⟩
  · have hposition := (h.marks offset l).mp hl
    rw [(h.marks offset' l).mp hl'] at hposition
    exact (Option.some.inj hposition).symm
  · obtain ⟨offset, i, hi, rfl⟩ := (mem_placed e.distance).mp hp
    rw [Instr.target?_mapTarget] at hd
    obtain ⟨l, hl, -⟩ := Option.map_eq_some_iff.mp hd
    refine ⟨l, (h.jumps _ l).mpr ⟨i, ?_, hl⟩⟩
    rw [Nat.zero_add]
    exact hi

end Emitter

namespace CodeBuffer

def leaving (b : CodeBuffer) (l : Label) : List Event :=
  if b.canFallThrough then [.jumped b.offset l] else []

def marking (b : CodeBuffer) (l : Label) : List Event :=
  if b.isMarked l then [] else [.marked b.offset l]

end CodeBuffer

def EmitterCall.written (call : EmitterCall) (b : CodeBuffer) : List Event :=
  match call with
  | .emit i => i.target?.toList.map (.jumped b.offset)
  | .emitBranch (.branch _) l => [.jumped b.offset l]
  | .markLabel l => b.marking l
  | .beginCatch _ =>
    match b.regions with
    | [] => []
    | region :: _ => b.leaving region.endLabel
  | .endTry =>
    match b.regions with
    | [] => []
    | region :: _ =>
      if region.catches = 0 then []
      else b.leaving region.endLabel ++
        (final (BufferM.leaveTo region.endLabel b)).marking region.endLabel
  | _ => []

def writeEvents : List EmitterCall → CodeBuffer → List Event
  | [], _ => []
  | call :: calls, b =>
    (if b.isFinished then [] else call.written b) ++ writeEvents calls (final (call.write b))

namespace Emitter

theorem leaving_buffer (e : Emitter) (l : Label) : e.buffer.leaving l = e.leaving l := by
  rw [CodeBuffer.leaving, leaving, canFallThrough_buffer, offset_buffer]

theorem marking_buffer (e : Emitter) (l : Label) : e.buffer.marking l = e.marking l := by
  rw [CodeBuffer.marking, marking, offset_buffer]
  rfl

end Emitter

theorem EmitterCall.written_buffer (call : EmitterCall) {e : Emitter} (he : e.isFinished = false) :
    call.written e.buffer = call.events e := by
  have hregions : e.buffer.regions = e.regions := rfl
  cases call with
  | emit i =>
    rw [written, events, Emitter.offset_buffer]
  | emitBranch op l =>
    cases op with
    | branch test => rw [written, events, Emitter.offset_buffer]
    | _ => rfl
  | markLabel l => exact e.marking_buffer l
  | beginCatch tag =>
    rw [written, events, hregions]
    cases e.regions with
    | nil => rfl
    | cons region outer => exact e.leaving_buffer region.endLabel
  | endTry =>
    rw [written, events, hregions]
    cases e.regions with
    | nil => rfl
    | cons region outer =>
      have hleave : final (BufferM.leaveTo region.endLabel e.buffer) =
          (e.leave region.endLabel).buffer := by
        rw [Mirrors.leaveTo, final_buffered, Command.leaveTo_of_open he]
        rfl
      dsimp only
      rw [e.leaving_buffer, hleave, Emitter.marking_buffer]
  | _ => rfl

theorem writeEvents_buffer (calls : List EmitterCall) (e : Emitter) :
    writeEvents calls e.buffer = emitEvents calls e := by
  induction calls generalizing e with
  | nil => rfl
  | cons call calls ih =>
    have hcall : final (call.write e.buffer) = (final (call.perform e)).buffer := by
      rw [call.mirrors e, final_buffered]
    have hfinished : e.buffer.isFinished = e.isFinished := rfl
    rw [writeEvents, emitEvents, hcall, ih, hfinished]
    cases he : e.isFinished with
    | true => rfl
    | false => rw [call.written_buffer he]

/-- Code is finished just when nothing is missing, and else the emitter says what is and stays as it
is. In finished code jumps are resolved, and outside their distances each byte is the one that was
written. -/
theorem finish_resolves (name : String) (paramCount : Nat) (calls : List EmitterCall)
    (b : CodeBuffer) (events : List Event) (hb : (writeAll calls (.start name paramCount)).1 = b)
    (hevents : writeEvents calls (.start name paramCount) = events) :
    (∀ body b', BufferM.finish b = .ok body b' →
      (body.code.size < 2 ^ 31 →
        ∃ placed, instructions body.code = .ok placed ∧ Resolves events body.code.size placed) ∧
      ∀ before after b₁ k, calls = before ++ after →
        (writeAll before (.start name paramCount)).1 = b₁ → k < b₁.bytes.size →
        (∀ offset l, .jumped offset l ∈ events → ¬ (offset < k ∧ k < offset + 5)) →
          body.code[k]? = b₁.bytes[k]?) ∧
    ((∃ body b', BufferM.finish b = .ok body b') ↔ b.isFinished = false ∧ b.regions = [] ∧
      ∀ offset l, .jumped offset l ∈ events → ∃ target, .marked target l ∈ events) ∧
    ∀ err b', BufferM.finish b = .error err b' ↔
      b' = b ∧ Unready name b.isFinished b.regions events err := by
  have hwritten (calls : List EmitterCall) : (writeAll calls (.start name paramCount)).1 =
      (emitAll calls (.start name paramCount)).1.buffer := by
    rw [← Emitter.buffer_start, writeAll_buffer]
  rw [hwritten] at hb
  rw [← Emitter.buffer_start, writeEvents_buffer] at hevents
  subst hb hevents
  have hdevelops := Emitter.develops_emitAll calls (.start name paramCount)
  have hrecords := (Emitter.Records.start name paramCount).develops hdevelops
  rw [List.nil_append] at hrecords
  have hname : (emitAll calls (.start name paramCount)).1.name = name := hdevelops.name_eq
  have hready := EmitM.finish_eq_ok_iff hrecords
  refine ⟨fun body b' hfinish => ?_, ?_, fun err b' => ?_⟩
  · obtain ⟨e', hfinish, -⟩ := Mirrors.finish.eq_ok_iff.mp hfinish
    obtain ⟨hopen, -, hnone⟩ := hready.mp ⟨body, e', hfinish⟩
    refine ⟨fun hsize => ?_, fun before after b₁ k hcalls hb₁ hk hout => ?_⟩
    · rw [Emitter.bytes_of_finish hfinish, List.size_toArray, Emitter.assemble_length] at hsize ⊢
      exact ⟨_, Emitter.instructions_assemble _ _, hrecords.resolves hnone hsize⟩
    · rw [hwritten] at hb₁
      subst hb₁
      have hlater := Emitter.develops_emitAll after (emitAll before (.start name paramCount)).1
      rw [← emitAll_append, ← hcalls] at hlater
      exact (hrecords.getElem?_finished hlater hopen hfinish hk hout).trans
        List.getElem?_toArray.symm
  · rw [Mirrors.finish.succeeds_iff]
    refine hready.trans ?_
    simp only [Pending, not_and, not_forall, not_not, forall_exists_index]
    exact and_congr_right fun _ => and_congr_right fun _ => forall_comm
  · rw [Mirrors.finish.eq_error_iff]
    simp only [EmitM.finish_eq_error_iff hrecords, hname]
    constructor
    · rintro ⟨e', ⟨rfl, hunready⟩, rfl⟩
      exact ⟨rfl, hunready⟩
    · rintro ⟨rfl, hunready⟩
      exact ⟨_, ⟨rfl, hunready⟩, rfl⟩

/-- A loop in a region whose clause falls out of it. A label is jumped to that was never defined, the
code cannot be finished while the region is open, and no label is marked twice. -/
def retrying : List EmitterCall := [
  .defineLabel, .markLabel ⟨0⟩, .beginTry, .emit (.loadLocal 0), .emit (.constI32 0),
  .emitBranch (.branch .le) ⟨7⟩, .emit (.jump ⟨0⟩), .finish, .beginCatch .object,
  .emitOpcode .pop, .endTry, .markLabel ⟨0⟩, .markLabel ⟨7⟩, .emitOpcode .retVoid]

def retries : List Event := [
  .marked 0 ⟨0⟩, .jumped 8 ⟨7⟩, .jumped 13 ⟨0⟩, .jumped 19 ⟨1⟩, .marked 24 ⟨1⟩]

def retriedCode : Array UInt8 := #[16, 0, 0, 7, 0, 0, 0, 0, 151, 11, 0, 0, 0, 144, 238, 255, 255, 255,
  1, 144, 0, 0, 0, 0, 163]

/-- The code is refused as long as a label is not marked. Then its jumps are resolved, one of them
eighteen bytes back, and an opcode is as it was written. -/
theorem finish_resolves_retrying : ∃ b₁ b₂ b b' placed,
    (writeAll (retrying.take 12) (.start "retrying" 1)).1 = b₁ ∧
    BufferM.finish b₁ = .error (.unmarkedLabel "retrying" 7) b₁ ∧
    (writeAll (retrying.take 7) (.start "retrying" 1)).1 = b₂ ∧ b₂.bytes[13]? = some 144 ∧
    (writeAll retrying (.start "retrying" 1)).1 = b ∧
    writeEvents retrying (.start "retrying" 1) = retries ++ [.marked 24 ⟨7⟩] ∧
    BufferM.finish b = .ok ⟨retriedCode, 1, [⟨0, 18, 18, .object⟩]⟩ b' ∧
    instructions retriedCode = .ok placed ∧ Resolves (retries ++ [.marked 24 ⟨7⟩]) 25 placed ∧
    retriedCode[13]? = b₂.bytes[13]? := by
  have hevents : writeEvents retrying (.start "retrying" 1) = retries ++ [.marked 24 ⟨7⟩] := by
    decide +kernel
  have hfinish : BufferM.finish (writeAll retrying (.start "retrying" 1)).1 =
      .ok ⟨retriedCode, 1, [⟨0, 18, 18, .object⟩]⟩
        (writeAll retrying (.start "retrying" 1)).1.resolve := by
    decide +kernel
  have hrefused : BufferM.finish (writeAll (retrying.take 12) (.start "retrying" 1)).1 =
      .error (.unmarkedLabel "retrying" 7)
        (writeAll (retrying.take 12) (.start "retrying" 1)).1 := by
    decide +kernel
  have hemitted : (writeAll (retrying.take 7) (.start "retrying" 1)).1.bytes[13]? = some 144 ∧
      13 < (writeAll (retrying.take 7) (.start "retrying" 1)).1.bytes.size := by
    decide +kernel
  obtain ⟨hfinished, -, -⟩ := finish_resolves "retrying" 1 retrying _ _ rfl hevents
  obtain ⟨hresolves, hkeeps⟩ := hfinished _ _ hfinish
  obtain ⟨placed, hplaced, hjumps⟩ := hresolves (by decide)
  refine ⟨_, _, _, _, placed, rfl, hrefused, rfl, hemitted.1, rfl, hevents, hfinish, hplaced, hjumps,
    hkeeps _ _ _ 13 (List.take_append_drop 7 retrying).symm rfl hemitted.2 fun offset l h => ?_⟩
  have hoffset : offset = 8 ∨ offset = 13 ∨ offset = 19 := by
    have hcases : offset = 8 ∧ l = ⟨7⟩ ∨ offset = 13 ∧ l = ⟨0⟩ ∨ offset = 19 ∧ l = ⟨1⟩ := by
      simpa [retries] using h
    omega
  omega

/-- An open region is reported before a label that is not marked. -/
theorem finish_openRegion_pending : ∃ b,
    (writeAll [.beginTry, .defineLabel, .emit (.jump ⟨1⟩)] (.start "f" 0)).1 = b ∧
    Pending (writeEvents [.beginTry, .defineLabel, .emit (.jump ⟨1⟩)] (.start "f" 0)) ⟨1⟩ ∧
    BufferM.finish b = .error (.invalidOperation (.openRegions "f" 1)) b := by
  have hevents : writeEvents [.beginTry, .defineLabel, .emit (.jump ⟨1⟩)] (.start "f" 0) =
      [.jumped 0 ⟨1⟩] := by
    decide +kernel
  refine ⟨_, rfl, ?_, by decide +kernel⟩
  rw [hevents]
  exact ⟨⟨0, List.mem_singleton_self _⟩, by simp⟩

end Bytesmith.Build
