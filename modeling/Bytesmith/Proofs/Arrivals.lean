import Bytesmith.Proofs.Calls
import Bytesmith.Proofs.Simulation

namespace Bytesmith.Build

open Code Outcome

namespace Emitter

variable {e e' : Emitter}

def Terminated (e : Emitter) : Prop :=
  ∃ i, e.code.back? = some i ∧ i.opcode.isTerminator = true

theorem terminated_push {i : Instr Label} (hi : i.opcode.isTerminator = true) :
    (e.push i).Terminated :=
  ⟨i, Array.back?_push .., hi⟩

theorem canFallThrough_eq_false :
    e.canFallThrough = false ↔ e.Terminated ∧ ∀ m ∈ e.marks, m.2 ≠ e.offset := by
  unfold canFallThrough Terminated
  cases hback : e.code.back? with
  | none | some => simp

/-- The code after a region was left: a jump to its end if control could come this far. -/
def leftCode (e : Emitter) (l : Label) : Array (Instr Label) :=
  if e.canFallThrough then e.code.push (.jump l) else e.code

theorem code_leave (e : Emitter) (l : Label) : (e.leave l).code = e.leftCode l := by
  unfold leave leftCode
  split <;> rfl

/-- Labels are marked once and up to the end of the code, and so begin handlers. Where one begins at
the end, the last instruction does not let control through. -/
structure Reached (e : Emitter) : Prop where
  marked : ∀ l p, (l, p) ∈ e.marks → e.position? l = some p
  marks : ∀ m ∈ e.marks, m.2 ≤ e.offset
  entries : ∀ h ∈ e.handlers, ∃ start ≤ e.offset, h.handlerStart = start.toUInt32 ∧
    (start = e.offset → e.Terminated)

namespace Reached

theorem start (name : String) (paramCount : Nat) : Reached (.start name paramCount) := by
  refine ⟨fun l p h => ?_, fun m h => ?_, fun h hh => ?_⟩
  · cases h
  · cases h
  · cases hh

theorem of_code (h : Reached e) (hcode : e'.code = e.code) (hmarks : e'.marks = e.marks)
    (hhandlers : e'.handlers = e.handlers) : Reached e' := by
  have hoffset : e'.offset = e.offset := by rw [e'.offset_eq, e.offset_eq, hcode]
  obtain ⟨hmarked, hplaced, hentries⟩ := h
  simp only [position?, Terminated, ← hcode, ← hmarks, ← hhandlers, ← hoffset]
    at hmarked hplaced hentries
  exact ⟨hmarked, hplaced, hentries⟩

theorem push (h : Reached e) (i : Instr Label) : Reached (e.push i) := by
  have hoffset : (e.push i).offset = e.offset + i.size := rfl
  have hsize := i.size_pos
  refine ⟨h.marked, fun m hm => ?_, fun handler hh => ?_⟩
  · have := h.marks m hm
    omega
  · obtain ⟨start, hle, hstart, -⟩ := h.entries handler hh
    exact ⟨start, by omega, hstart, fun heq => by omega⟩

theorem leave (h : Reached e) (l : Label) : Reached (e.leave l) := by
  obtain ⟨-, hleave⟩ | ⟨-, hleave⟩ := e.leave_eq l
  · rw [hleave]
    exact h.push _
  · rw [hleave]
    exact h

theorem canFallThrough_leave (h : Reached e) (l : Label) : (e.leave l).canFallThrough = false := by
  obtain ⟨-, hleave⟩ | ⟨hfall, hleave⟩ := e.leave_eq l
  · rw [hleave, canFallThrough_eq_false]
    refine ⟨terminated_push rfl, fun m hm => ?_⟩
    -- the jump has moved the end of the code behind all marks
    have hmark := h.marks m hm
    have hoffset : (e.push (.jump l)).offset = e.offset + 5 := rfl
    omega
  · rw [hleave]
    exact hfall

theorem mark (h : Reached e) {l : Label} (hl : e.isMarked l = false) : Reached (e.mark l) := by
  refine ⟨fun l' p hp => ?_, fun m hm => ?_, h.entries⟩
  · rw [position?_mark_eq]
    obtain heq | hp := List.mem_cons.mp hp
    · cases heq
      exact if_pos rfl
    · have hposition := h.marked l' p hp
      have hne : l' ≠ l := by
        rintro rfl
        rw [isMarked, hposition] at hl
        cases hl
      rw [if_neg hne]
      exact hposition
  · obtain rfl | hm := List.mem_cons.mp hm
    · exact Nat.le_refl _
    · exact h.marks m hm

theorem openCatch (h : Reached e) (region : Region) (outer : List Region) (tag : TypeTag) :
    Reached (e.openCatch region outer tag) := by
  have hleft := h.leave region.endLabel
  have hterminated := (canFallThrough_eq_false.mp (h.canFallThrough_leave region.endLabel)).1
  refine ⟨hleft.marked, hleft.marks, fun handler hh => ?_⟩
  obtain hh | hh := List.mem_append.mp hh
  · exact hleft.entries handler hh
  · rw [List.mem_singleton] at hh
    exact ⟨_, Nat.le_refl _, congrArg (·.handlerStart) hh, fun _ => hterminated⟩

theorem perform (h : Reached e) (call : EmitterCall) : Reached (final (call.perform e)) := by
  have hends := call.ends_perform e
  generalize call.perform e = result at hends
  cases hends with
  | refused | declared | defined | opened | finished => exact h.of_code rfl rfl rfl
  | pushed _ i => exact h.push i
  | marked hl => exact h.mark hl
  | caught hr tag => exact h.openCatch _ _ tag
  | @closed region outer hr _ hl =>
    have hpop : Reached { e with regions := outer } := h.of_code rfl rfl rfl
    refine (hpop.leave region.endLabel).mark ?_
    rw [isMarked_leave]
    exact hl
  | @abandoned region outer hp =>
    have hpop : Reached { e with regions := outer } := h.of_code rfl rfl rfl
    exact hpop.leave region.endLabel

theorem emitAll (h : Reached e) (calls : List EmitterCall) : Reached (emitAll calls e).1 := by
  induction calls generalizing e with
  | nil => exact h
  | cons call calls ih => exact ih (h.perform call)

theorem terminated_of_entry (h : Reached e) {handler : Handler} (hh : handler ∈ e.handlers)
    (hstart : handler.handlerStart.toNat = e.offset) : e.Terminated := by
  obtain ⟨start, hle, heq, hterminated⟩ := h.entries handler hh
  refine hterminated ?_
  have hmod : start.toUInt32.toNat = start % 2 ^ 32 := rfl
  have := Nat.mod_le start (2 ^ 32)
  rw [heq, hmod] at hstart
  omega

theorem canFallThrough_iff (h : Reached e) {events : List Event} (hr : Records e events) :
    e.canFallThrough = false ↔ e.Terminated ∧ ∀ l, .marked e.offset l ∉ events := by
  rw [canFallThrough_eq_false]
  have hmarks : (∀ m ∈ e.marks, m.2 ≠ e.offset) ↔ ∀ l, .marked e.offset l ∉ events := by
    simp only [hr.marks]
    constructor
    · intro hnone l hl
      exact hnone (l, e.offset) (mem_marks_of_position? hl) rfl
    · rintro hnone ⟨l, p⟩ hm rfl
      exact hnone l (h.marked l _ hm)
  rw [hmarks]

end Reached

end Emitter

namespace EmitM

open Emitter

variable {e e' : Emitter}

theorem beginCatch_eq_ok {tag : TypeTag} {u : Unit} (h : beginCatch tag e = .ok u e') :
    ∃ region outer, e.regions = region :: outer ∧ e' = e.openCatch region outer tag := by
  have hacts := (emits_beginCatch tag .empty e u e' h).single_inv
  cases hacts with
  | openCatch hr => exact ⟨_, _, hr, rfl⟩

theorem endTry_eq_ok {u : Unit} (h : endTry e = .ok u e') :
    ∃ region outer, e.regions = region :: outer ∧ e' = e.closeRegion region outer := by
  have hacts := (emits_endTry .empty e u e' h).single_inv
  cases hacts with
  | closeRegion hr => exact ⟨_, _, hr, rfl⟩

theorem canFallThrough_of_beginCatch (hr : e.Reached) {tag : TypeTag} {u : Unit}
    (h : beginCatch tag e = .ok u e') : e'.canFallThrough = false := by
  obtain ⟨region, outer, -, rfl⟩ := beginCatch_eq_ok h
  exact hr.canFallThrough_leave region.endLabel

end EmitM

namespace Emitter

variable {e e' : Emitter} {events : List Event}

theorem offset_leave (e : Emitter) (l : Label) :
    (e.leave l).offset = if e.canFallThrough then e.offset + 5 else e.offset := by
  unfold leave
  split <;> rfl

theorem Develops.code_eq (h : Develops e events e') (hoffset : e'.offset = e.offset) :
    e'.code = e.code := by
  obtain ⟨rest, hrest⟩ := h.code_prefix
  have hsize : totalSize rest = 0 := by
    have htotal : totalSize e'.code.toList = totalSize e.code.toList := by
      rw [← e'.offset_eq, ← e.offset_eq, hoffset]
    rw [← hrest, totalSize_append] at htotal
    omega
  cases rest with
  | nil =>
    rw [List.append_nil] at hrest
    exact (Array.toList_inj.mp hrest).symm
  | cons i rest =>
    have hpos := i.size_pos
    rw [totalSize] at hsize
    omega

theorem Develops.offset_le (h : Develops e events e') : e.offset ≤ e'.offset := by
  obtain ⟨rest, hrest⟩ := h.code_prefix
  rw [e.offset_eq, e'.offset_eq, ← hrest, totalSize_append]
  omega

theorem offset_beginCatch_iff {e₁ : Emitter} {later : List Event}
    (hfirst : e₁.canFallThrough = false) (hlater : Develops e₁ later e)
    (hfalls : e.canFallThrough = false ↔ e.Terminated ∧ ∀ l, .marked e.offset l ∉ events)
    {tag : TypeTag} (hcatch : EmitM.beginCatch tag e = .ok () e') :
    e'.offset = e₁.offset ↔ e.offset = e₁.offset ∧ ∀ l, .marked e.offset l ∉ events := by
  have hle := hlater.offset_le
  obtain ⟨region, outer, -, rfl⟩ := EmitM.beginCatch_eq_ok hcatch
  have hoffset : (e.openCatch region outer tag).offset =
      if e.canFallThrough then e.offset + 5 else e.offset := offset_leave e region.endLabel
  rw [hoffset]
  constructor
  · intro heq
    cases hfall : e.canFallThrough with
    | true =>
      rw [hfall, if_pos rfl] at heq
      omega
    | false =>
      rw [hfall, if_neg Bool.false_ne_true] at heq
      exact ⟨heq, (hfalls.mp hfall).2⟩
  · rintro ⟨heq, hnone⟩
    -- the last instruction is still the one before the first clause
    have hterminated : e.Terminated := by
      rw [Terminated, hlater.code_eq heq]
      exact (canFallThrough_eq_false.mp hfirst).1
    rw [hfalls.mpr ⟨hterminated, hnone⟩, if_neg Bool.false_ne_true]
    exact heq

end Emitter

open Emitter EmitM

/-- After any calls, control is said not to reach the end of the code exactly when the last
instruction does not let it through and no label is marked there. A handler that begins at the end
is never seen. A clause begins where an earlier one did exactly when nothing was emitted in between
and no label was marked there. -/
theorem Emitter.falls_unless_terminated (name : String) (paramCount : Nat)
    (calls : List EmitterCall) (e : Emitter) (events : List Event)
    (he : (emitAll calls (.start name paramCount)).1 = e)
    (hevents : emitEvents calls (.start name paramCount) = events) :
    (e.canFallThrough = false ↔ e.Terminated ∧ ∀ l, .marked e.offset l ∉ events) ∧
    (∀ h ∈ e.handlers, h.handlerStart.toNat = e.offset → e.Terminated) ∧
    (∀ tag e', beginCatch tag e = .ok () e' → ∃ region outer h, e.regions = region :: outer ∧
      e'.code = e.leftCode region.endLabel ∧ e'.canFallThrough = false ∧
      e'.handlers = e.handlers ++ [h] ∧ h.handlerStart = e'.offset.toUInt32) ∧
    (∀ e', endTry e = .ok () e' → ∃ region outer, e.regions = region :: outer ∧
      e'.code = e.leftCode region.endLabel ∧ e'.canFallThrough = true) ∧
    ∀ before tag after e₁, calls = before ++ .beginCatch tag :: after →
      beginCatch tag (emitAll before (.start name paramCount)).1 = .ok () e₁ →
      ∀ tag' e', beginCatch tag' e = .ok () e' →
        (e'.offset = e₁.offset ↔ e.offset = e₁.offset ∧ ∀ l, .marked e.offset l ∉ events) := by
  have hreached (calls : List EmitterCall) : Reached (emitAll calls (.start name paramCount)).1 :=
    (Reached.start name paramCount).emitAll calls
  have hr : Reached e := he ▸ hreached calls
  have hrecords : Records e events := by
    rw [← he, ← hevents, ← List.nil_append (emitEvents ..)]
    exact (Records.start name paramCount).develops (develops_emitAll calls _)
  have hfalls := hr.canFallThrough_iff hrecords
  refine ⟨hfalls, fun h hh => hr.terminated_of_entry hh, fun tag e' hcatch => ?_, fun e' hend => ?_,
    fun before tag after e₁ hcalls hfirst tag' e' hcatch => ?_⟩
  · have hfall := canFallThrough_of_beginCatch hr hcatch
    obtain ⟨region, outer, hregions, rfl⟩ := beginCatch_eq_ok hcatch
    exact ⟨region, outer, _, hregions, code_leave .., hfall,
      congrArg (· ++ [_]) (handlers_leave e region.endLabel), rfl⟩
  · obtain ⟨region, outer, hregions, rfl⟩ := endTry_eq_ok hend
    exact ⟨region, outer, hregions, code_leave .., canFallThrough_mark ..⟩
  · have hlater : Develops e₁ (emitEvents after e₁) e := by
      have hstep : final ((EmitterCall.beginCatch tag).perform
          (emitAll before (.start name paramCount)).1) = e₁ := congrArg final hfirst
      rw [← he, hcalls, emitAll_append, ← hstep]
      exact develops_emitAll after _
    have hfall := canFallThrough_of_beginCatch (hreached before) hfirst
    exact offset_beginCatch_iff hfall hlater hfalls hcatch

def bareClause : List EmitterCall := [.beginTry, .beginCatch .object]

/-- If the next clause begins at once, it begins at the same place. -/
theorem Emitter.falls_unless_terminated_bareClause : ∃ e e',
    (emitAll bareClause (.start "f" 0)).1 = e ∧
    emitEvents bareClause (.start "f" 0) = [.jumped 0 ⟨0⟩] ∧ e.canFallThrough = false ∧
    beginCatch .string e = .ok () e' ∧ e'.canFallThrough = false ∧ e'.offset = e.offset ∧
    ∃ region outer, e.regions = region :: outer ∧ e'.code = e.leftCode region.endLabel := by
  have hevents : emitEvents bareClause (.start "f" 0) = [.jumped 0 ⟨0⟩] := by decide +kernel
  obtain ⟨hfalls, hentries, hcatch, -, hclauses⟩ :=
    falls_unless_terminated "f" 0 bareClause _ _ rfl hevents
  have hterminated : Terminated (emitAll bareClause (.start "f" 0)).1 := by
    refine hentries ⟨0, 0, 5, .object⟩ ?_ ?_ <;> decide +kernel
  have hnone : ∀ l, .marked (emitAll bareClause (.start "f" 0)).1.offset l ∉
      [Event.jumped 0 ⟨0⟩] := by simp
  have hnext : beginCatch .string (emitAll bareClause (.start "f" 0)).1 = .ok () _ := rfl
  obtain ⟨region, outer, -, hregions, hcode, hfall, -⟩ := hcatch .string _ hnext
  exact ⟨_, _, rfl, hevents, hfalls.mpr ⟨hterminated, hnone⟩, hnext, hfall,
    (hclauses [.beginTry] .object [] _ rfl rfl .string _ hnext).mpr ⟨rfl, hnone⟩, region, outer,
    hregions, hcode⟩

/-- Control is said not to reach the place where a handler begins, and a second clause is begun
there with no jump out of the first. -/
theorem Emitter.canFallThrough_misses_handler : ∃ e e' : Emitter,
    (emitAll bareClause (.start "f" 0)).1 = e ∧ e.canFallThrough = false ∧ e.offset = 5 ∧
    e.handlers = [⟨0, 0, 5, .object⟩] ∧ beginCatch .string e = .ok () e' ∧
    e'.bytes = [0x90, 0, 0, 0, 0] ∧
    e'.handlers = [⟨0, 0, 5, .object⟩, ⟨0, 0, 5, .string⟩] := by
  refine ⟨_, _, rfl, ?_, ?_, ?_, rfl, ?_⟩ <;> decide +kernel

end Bytesmith.Build
