import Bytesmith.Proofs.Jumps

namespace Bytesmith.Build

open Code Outcome

/-- The innermost region has a clause, and the label of its end is marked already. -/
structure Emitter.Preempted (e : Emitter) (region : Region) (outer : List Region) : Prop where
  isOpen : e.isFinished = false
  regions : e.regions = region :: outer
  caught : region.catches ≠ 0
  marked : e.isMarked region.endLabel = true

namespace Emitter

/-- The emitter after a region was closed whose end could not be marked. -/
def abandon (e : Emitter) (region : Region) (outer : List Region) : Emitter :=
  { e with regions := outer }.leave region.endLabel

theorem regions_abandon (e : Emitter) (region : Region) (outer : List Region) :
    (e.abandon region outer).regions = outer := by
  rw [abandon, regions_leave]

theorem Preempted.abandon_ne {e : Emitter} {region : Region} {outer : List Region}
    (h : e.Preempted region outer) : e.abandon region outer ≠ e := by
  intro heq
  have hregions := regions_abandon e region outer
  rw [heq, h.regions] at hregions
  exact List.cons_ne_self region outer hregions

end Emitter

theorem EmitM.endTry_of_preempted {e : Emitter} {region : Region} {outer : List Region}
    (h : e.Preempted region outer) :
    endTry e = .error (.invalidOperation (.markedTwice region.endLabel.id e.name))
      (e.abandon region outer) := by
  rw [endTry, bind_of_ok (ensureOpen_of_open h.isOpen), get_bind, h.regions]
  dsimp only
  rw [if_neg h.caught, set_bind]
  have hleave : leaveTo region.endLabel { e with regions := outer } =
      .ok () (e.abandon region outer) := Command.leaveTo_of_open h.isOpen
  have hopen : (e.abandon region outer).isFinished = false :=
    (Emitter.isFinished_leave _ _).trans h.isOpen
  have hmarked : (e.abandon region outer).isMarked region.endLabel = true :=
    (Emitter.isMarked_leave _ _ _).trans h.marked
  have hname : (e.abandon region outer).name = e.name :=
    (Emitter.Develops.leave { e with regions := outer } region.endLabel).name_eq
  refine (bind_of_ok hleave).trans ?_
  rw [markLabel, bind_of_ok (ensureOpen_of_open hopen), get_bind, if_pos hmarked, hname]
  rfl

inductive EmitterCall.Ends (e : Emitter) :
    EmitterCall → EStateM.Result BuildError Emitter Unit → Prop
  | refused (call : EmitterCall) (err : BuildError) : Ends e call (.error err e)
  | pushed (call : EmitterCall) (i : Instr Label) : Ends e call (.ok () (e.push i))
  | declared (name : String) :
      Ends e (.declareLocal name) (.ok () { e with locals := e.locals.push name })
  | defined : Ends e .defineLabel (.ok () { e with nextLabel := e.nextLabel + 1 })
  | marked {l : Label} (h : e.isMarked l = false) : Ends e (.markLabel l) (.ok () (e.mark l))
  | opened : Ends e .beginTry (.ok () e.openRegion)
  | caught {region : Region} {outer : List Region} (hr : e.regions = region :: outer)
      (tag : TypeTag) : Ends e (.beginCatch tag) (.ok () (e.openCatch region outer tag))
  | closed {region : Region} {outer : List Region} (hr : e.regions = region :: outer)
      (hcaught : region.catches ≠ 0) (hmarked : e.isMarked region.endLabel = false) :
      Ends e .endTry (.ok () (e.closeRegion region outer))
  | abandoned {region : Region} {outer : List Region} (h : e.Preempted region outer) :
      Ends e .endTry (.error (.invalidOperation (.markedTwice region.endLabel.id e.name))
        (e.abandon region outer))
  | finished : Ends e .finish (.ok () { e with isFinished := true })

namespace EmitM

variable {e : Emitter}

theorem ends_ensureOpen_bind {call : EmitterCall} {x : Unit → EmitM Unit}
    (h : e.isFinished = false → call.Ends e (x () e)) : call.Ends e ((ensureOpen >>= x) e) := by
  cases he : e.isFinished with
  | true =>
    rw [bind_of_error (ensureOpen_of_finished he)]
    exact .refused call _
  | false =>
    rw [bind_of_ok (ensureOpen_of_open he)]
    exact h he

theorem ends_endTry (e : Emitter) : EmitterCall.endTry.Ends e (endTry e) := by
  cases he : e.isFinished with
  | true =>
    rw [endTry, bind_of_error (ensureOpen_of_finished he)]
    exact .refused _ _
  | false =>
    cases hr : e.regions with
    | nil =>
      rw [endTry, bind_of_ok (ensureOpen_of_open he), get_bind, hr]
      exact .refused _ _
    | cons region outer =>
      by_cases hcaught : region.catches = 0
      · rw [endTry, bind_of_ok (ensureOpen_of_open he), get_bind, hr]
        dsimp only
        rw [if_pos hcaught]
        exact .refused _ _
      · cases hmarked : e.isMarked region.endLabel with
        | true =>
          have hpreempted : e.Preempted region outer := ⟨he, hr, hcaught, hmarked⟩
          rw [endTry_of_preempted hpreempted]
          exact .abandoned hpreempted
        | false =>
          rw [Command.endTry_of_open he hr hcaught hmarked]
          exact .closed hr hcaught hmarked

theorem ends_discard {α : Type} {call : EmitterCall} {x : EmitM α}
    (hok : ∀ a e', x e = .ok a e' → call.Ends e (.ok () e'))
    (herror : ∀ err e', x e = .error err e' → e' = e) :
    call.Ends e ((discard x : EmitM Unit) e) := by
  cases h : x e with
  | ok a e' =>
    have hdiscard : (discard x : EmitM Unit) e = .ok () e' := map_eq_ok.mpr ⟨a, h, rfl⟩
    rw [hdiscard]
    exact hok a e' h
  | error err e' =>
    have hdiscard : (discard x : EmitM Unit) e = .error err e' := map_eq_error.mpr h
    rw [hdiscard, herror err e' h]
    exact .refused call err

theorem ensureOpen_bind_eq_error {α : Type} {f : Unit → EmitM α} {err : BuildError} {e' : Emitter}
    (h : (ensureOpen >>= f) e = .error err e') : e' = e ∨ f () e = .error err e' := by
  cases he : e.isFinished with
  | true =>
    rw [bind_of_error (ensureOpen_of_finished he)] at h
    cases h
    exact .inl rfl
  | false =>
    rw [bind_of_ok (ensureOpen_of_open he)] at h
    exact .inr h

end EmitM

open EmitM in
theorem EmitterCall.ends_perform (call : EmitterCall) (e : Emitter) :
    call.Ends e (call.perform e) := by
  cases call with
  | emit i => exact ends_ensureOpen_bind fun _ => .pushed _ i
  | emitOpcode op =>
    refine ends_ensureOpen_bind fun _ => ?_
    cases Instr.ofOpcode? op with
    | none => exact .refused _ _
    | some i => exact .pushed _ i
  | emitBranch op l =>
    cases op with
    | branch test => exact ends_ensureOpen_bind fun _ => .pushed _ _
    | _ => exact .refused _ _
  | emitBox kind | emitUnbox kind =>
    refine ends_ensureOpen_bind fun _ => ?_
    by_cases hkind : kind = .reference
    · rw [if_pos hkind]
      exact .refused _ _
    · rw [if_neg hkind]
      exact .pushed _ _
  | declareLocal name =>
    refine ends_discard (fun slot e' h => ?_) fun err e' h => ?_
    · obtain ⟨-, h⟩ := ensureOpen_bind_eq_ok.mp h
      rw [get_bind] at h
      obtain ⟨-, h⟩ := guard_eq_ok.mp h
      cases h
      exact .declared name
    · obtain rfl | h := ensureOpen_bind_eq_error h
      · rfl
      · rw [get_bind] at h
        split at h <;> cases h
        rfl
  | defineLabel => exact .defined
  | markLabel l =>
    refine ends_ensureOpen_bind fun _ => ?_
    rw [get_bind]
    cases hl : e.isMarked l with
    | true => exact .refused _ _
    | false => exact .marked hl
  | beginTry =>
    refine ends_discard (fun l e' h => ?_) fun err e' h => ?_
    · obtain ⟨-, h⟩ := ensureOpen_bind_eq_ok.mp h
      cases h
      exact .opened
    · obtain rfl | h := ensureOpen_bind_eq_error h
      · rfl
      · cases h
  | beginCatch tag =>
    cases hr : e.regions with
    | nil =>
      refine ends_ensureOpen_bind fun _ => ?_
      rw [get_bind, hr]
      exact .refused _ _
    | cons region outer =>
      cases he : e.isFinished with
      | true =>
        have h : perform (.beginCatch tag) e = _ := bind_of_error (ensureOpen_of_finished he)
        rw [h]
        exact .refused _ _
      | false =>
        have h : perform (.beginCatch tag) e = _ := Command.beginCatch_of_open he hr tag
        rw [h]
        exact .caught hr tag
  | endTry => exact ends_endTry e
  | finish =>
    refine ends_discard (fun body e' h => ?_) fun err e' h => ?_
    · obtain ⟨rfl, -⟩ := finish_eq_ok h
      exact .finished
    · obtain rfl | h := ensureOpen_bind_eq_error h
      · rfl
      · rw [get_bind] at h
        split at h
        · cases h
          rfl
        · split at h <;> cases h
          rfl

namespace Emitter

variable {e e' : Emitter} {past : List EmitterCall}

/-- The labels that the ends of open regions will mark are distinct, and one that is marked was
marked by a call for just that. -/
structure Traced (past : List EmitterCall) (e : Emitter) : Prop where
  distinct : (e.regions.map (·.endLabel)).Nodup
  defined : ∀ l ∈ e.regions.map (·.endLabel), l.id < e.nextLabel
  marked : ∀ l, e.isMarked l = true → .markLabel l ∈ past ∨
    l.id < e.nextLabel ∧ l ∉ e.regions.map (·.endLabel)

namespace Traced

theorem start (name : String) (paramCount : Nat) : Traced [] (.start name paramCount) := by
  refine ⟨List.nodup_nil, fun l hl => ?_, fun l hl => ?_⟩
  · cases hl
  · cases hl

theorem of_sublist (h : Traced past e) (call : EmitterCall)
    (hregions : (e'.regions.map (·.endLabel)).Sublist (e.regions.map (·.endLabel)))
    (hlabel : e.nextLabel ≤ e'.nextLabel) (hmarks : e'.marks = e.marks) :
    Traced (past ++ [call]) e' := by
  refine ⟨h.distinct.sublist hregions, fun l hl => ?_, fun l hl => ?_⟩
  · exact Nat.lt_of_lt_of_le (h.defined l (hregions.subset hl)) hlabel
  · have hmarked : e.isMarked l = true := by
      rw [isMarked, position?, hmarks] at hl
      exact hl
    obtain hpast | ⟨hlt, hout⟩ := h.marked l hmarked
    · exact .inl (List.mem_append_left _ hpast)
    · exact .inr ⟨Nat.lt_of_lt_of_le hlt hlabel, fun hl => hout (hregions.subset hl)⟩

theorem of_regions (h : Traced past e) (call : EmitterCall)
    (hregions : e'.regions.map (·.endLabel) = e.regions.map (·.endLabel))
    (hlabel : e.nextLabel ≤ e'.nextLabel) (hmarks : e'.marks = e.marks) :
    Traced (past ++ [call]) e' :=
  h.of_sublist call (hregions ▸ List.Sublist.refl _) hlabel hmarks

theorem mark (h : Traced past e) (l : Label) : Traced (past ++ [.markLabel l]) (e.mark l) := by
  refine ⟨h.distinct, h.defined, fun l' hl' => ?_⟩
  rw [isMarked_mark, Bool.or_eq_true, beq_iff_eq] at hl'
  obtain rfl | hl' := hl'
  · exact .inl (List.mem_append_right _ (List.mem_singleton_self _))
  · exact (h.marked l' hl').imp_left (List.mem_append_left _)

theorem openRegion (h : Traced past e) : Traced (past ++ [.beginTry]) e.openRegion := by
  have hregions : e.openRegion.regions.map (·.endLabel) =
      ⟨e.nextLabel⟩ :: e.regions.map (·.endLabel) := rfl
  have hnext : e.openRegion.nextLabel = e.nextLabel + 1 := rfl
  refine ⟨?_, fun l hl => ?_, fun l hl => ?_⟩
  · rw [hregions, List.nodup_cons]
    exact ⟨fun hl => Nat.lt_irrefl _ (h.defined _ hl), h.distinct⟩
  · rw [hnext]
    rw [hregions, List.mem_cons] at hl
    obtain rfl | hl := hl
    · exact Nat.lt_succ_self _
    · exact Nat.lt_succ_of_lt (h.defined l hl)
  · obtain hpast | ⟨hlt, hout⟩ := h.marked l hl
    · exact .inl (List.mem_append_left _ hpast)
    · refine .inr ⟨Nat.lt_succ_of_lt hlt, ?_⟩
      rw [hregions, List.mem_cons, not_or]
      refine ⟨?_, hout⟩
      rintro rfl
      exact Nat.lt_irrefl _ hlt

theorem closeRegion (h : Traced past e) {region : Region} {outer : List Region}
    (hr : e.regions = region :: outer) :
    Traced (past ++ [.endTry]) (e.closeRegion region outer) := by
  obtain ⟨hdistinct, hdefined, hmarked⟩ := h
  rw [hr, List.map_cons] at hdistinct hdefined hmarked
  obtain ⟨hnew, hdistinct⟩ := List.nodup_cons.mp hdistinct
  have hregions : (e.closeRegion region outer).regions = outer := regions_abandon e region outer
  have hnext : (e.closeRegion region outer).nextLabel = e.nextLabel := nextLabel_leave _ _
  refine ⟨?_, fun l hl => ?_, fun l hl => ?_⟩
  · rw [hregions]
    exact hdistinct
  · rw [hnext]
    rw [hregions] at hl
    exact hdefined l (.tail _ hl)
  · rw [hnext, hregions]
    rw [Emitter.closeRegion, isMarked_mark, Bool.or_eq_true, beq_iff_eq] at hl
    obtain rfl | hl := hl
    · -- it is the region itself that marks this label
      exact .inr ⟨hdefined _ (.head _), hnew⟩
    · rw [isMarked_leave] at hl
      obtain hpast | ⟨hlt, hout⟩ := hmarked l hl
      · exact .inl (List.mem_append_left _ hpast)
      · exact .inr ⟨hlt, fun hl => hout (.tail _ hl)⟩

theorem perform (h : Traced past e) (call : EmitterCall) :
    Traced (past ++ [call]) (final (call.perform e)) := by
  have hends := call.ends_perform e
  generalize call.perform e = result at hends
  cases hends with
  | refused | pushed | declared | finished => exact h.of_regions _ rfl (Nat.le_refl _) rfl
  | defined => exact h.of_regions _ rfl (Nat.le_succ _) rfl
  | marked _ => exact h.mark _
  | opened => exact h.openRegion
  | caught hr tag =>
    refine h.of_regions _ ?_ (Nat.le_of_eq (nextLabel_leave ..).symm) (marks_leave ..)
    rw [hr]
    rfl
  | closed hr _ _ => exact h.closeRegion hr
  | @abandoned region outer hp =>
    have hnext : (e.abandon region outer).nextLabel = e.nextLabel := nextLabel_leave _ _
    have hmarks : (e.abandon region outer).marks = e.marks := marks_leave _ _
    refine h.of_sublist _ ?_ (Nat.le_of_eq hnext.symm) hmarks
    rw [final, regions_abandon, hp.regions, List.map_cons]
    exact List.sublist_cons_self ..

theorem emitAll (h : Traced past e) (calls : List EmitterCall) :
    Traced (past ++ calls) (emitAll calls e).1 := by
  induction calls generalizing past e with
  | nil =>
    rw [List.append_nil]
    exact h
  | cons call calls ih =>
    have hrest := ih (h.perform call)
    rwa [List.append_assoc, List.singleton_append] at hrest

theorem mem_of_preempted (h : Traced past e) {region : Region} {outer : List Region}
    (hp : e.Preempted region outer) : .markLabel region.endLabel ∈ past := by
  obtain hpast | ⟨-, hout⟩ := h.marked _ hp.marked
  · exact hpast
  · rw [hp.regions] at hout
    exact absurd (.head _) hout

end Traced

end Emitter

/-- A call that fails leaves the emitter as it was, unless it ends a region with a clause that has
the label of its end marked. Then the region is lost, and if control could come this far, there is a
jump to its end. -/
theorem EmitterCall.kept_or_abandoned (name : String) (paramCount : Nat)
    (calls : List EmitterCall) (e : Emitter) (he : (emitAll calls (.start name paramCount)).1 = e)
    (call : EmitterCall) (err : BuildError) (e' : Emitter)
    (hfail : call.perform e = .error err e') :
    (e' = e ∧ (call = .endTry → ∀ region outer, ¬ e.Preempted region outer)) ∨
    (e' ≠ e ∧ call = .endTry ∧ ∃ region outer, e.Preempted region outer ∧
      .markLabel region.endLabel ∈ calls ∧ e' = e.abandon region outer ∧
      err = .invalidOperation (.markedTwice region.endLabel.id name)) := by
  have hname : e.name = name := by
    rw [← he]
    exact (Emitter.develops_emitAll calls _).name_eq
  have htraced : Emitter.Traced calls e := by
    rw [← he]
    exact (Emitter.Traced.start name paramCount).emitAll calls
  have hends := call.ends_perform e
  rw [hfail] at hends
  cases hends with
  | refused =>
    refine .inl ⟨rfl, ?_⟩
    rintro rfl region outer hp
    have hend : perform .endTry e = _ := EmitM.endTry_of_preempted hp
    rw [hfail, EStateM.Result.error.injEq] at hend
    exact hp.abandon_ne hend.2.symm
  | abandoned hp =>
    rw [hname]
    exact .inr ⟨hp.abandon_ne, rfl, _, _, hp, htraced.mem_of_preempted hp, rfl, rfl⟩

/-- A region with a clause whose end the caller marks. -/
def premature : List EmitterCall := [.beginTry, .beginCatch .object, .markLabel ⟨0⟩]

/-- A second mark of the label is refused and changes nothing; to end the region loses it. -/
theorem EmitterCall.kept_or_abandoned_premature : ∃ e e₁ e₂,
    (emitAll premature (.start "f" 0)).1 = e ∧
    perform (.markLabel ⟨0⟩) e = .error (.invalidOperation (.markedTwice 0 "f")) e₁ ∧ e₁ = e ∧
    perform .endTry e = .error (.invalidOperation (.markedTwice 0 "f")) e₂ ∧ e₂ ≠ e ∧
    ∃ region outer, e.Preempted region outer ∧ .markLabel region.endLabel ∈ premature ∧
      e₂ = e.abandon region outer := by
  have hp : (emitAll premature (.start "f" 0)).1.Preempted ⟨0, some 0, ⟨0⟩, 1⟩ [] := by
    constructor <;> decide +kernel
  have hend := EmitM.endTry_of_preempted hp
  refine ⟨_, _, _, rfl, rfl, ?_, hend, ?_⟩
  · obtain ⟨hkept, -⟩ | ⟨-, hcall, -⟩ :=
      kept_or_abandoned "f" 0 premature _ rfl (.markLabel ⟨0⟩) _ _ rfl
    · exact hkept
    · cases hcall
  · obtain ⟨-, hnot⟩ | ⟨hne, -, region, outer, hpre, hmem, heq, -⟩ :=
      kept_or_abandoned "f" 0 premature _ rfl .endTry _ _ hend
    · exact absurd hp (hnot rfl _ _)
    · exact ⟨hne, region, outer, hpre, hmem, heq⟩

/-- Ending a region can fail and yet emit a jump and close the region. -/
theorem EmitM.endTry_error_changes : ∃ e e' : Emitter,
    (emitAll premature (.start "f" 0)).1 = e ∧
    endTry e = .error (.invalidOperation (.markedTwice 0 "f")) e' ∧
    e.bytes = [0x90, 0, 0, 0, 0] ∧ e'.bytes = [0x90, 0, 0, 0, 0, 0x90, 0, 0, 0, 0] ∧
    e.regions.length = 1 ∧ e'.regions = [] := by
  refine ⟨_, _, rfl, rfl, ?_⟩
  decide +kernel

end Bytesmith.Build
