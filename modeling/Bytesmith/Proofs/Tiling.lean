import Bytesmith.Proofs.Jumps
import Bytesmith.Proofs.Lives
import Bytesmith.Proofs.Simulation

namespace Bytesmith.Code

def Divides (code : Array UInt8) (offset : Nat) : Prop :=
  ∃ placed, instructions code = .ok placed ∧ (offset = code.size ∨ ∃ p ∈ placed, p.offset = offset)

def Patches (before after : List UInt8) : Prop :=
  after.length = before.length ∧ ∃ placed, instructions before.toArray = .ok placed ∧
    ∀ k, after[k]? ≠ before[k]? →
      ∃ p ∈ placed, p.instr.target?.isSome = true ∧ p.offset < k ∧ k < p.next

end Bytesmith.Code

namespace Bytesmith.Build

open Code Outcome

namespace Emitter

variable {code : List (Instr Label)} (distance distance' : Nat → Label → Int32)

theorem divides_assemble {offset : Nat} (h : IsBoundary code offset) :
    Divides (assemble distance 0 code).toArray offset := by
  refine ⟨_, instructions_assemble distance code, ?_⟩
  rw [List.size_toArray, assemble_length]
  obtain hend | hlt := Nat.eq_or_lt_of_le h.le
  · exact .inl hend
  · obtain ⟨i, hi⟩ := h.exists_instrAt hlt
    exact .inr ⟨_, (mem_placed distance).mpr ⟨offset, i, hi, rfl⟩, Nat.zero_add offset⟩

theorem patches_assemble (code : List (Instr Label)) :
    Patches (assemble distance 0 code) (assemble distance' 0 code) := by
  refine ⟨by rw [assemble_length, assemble_length], _, instructions_assemble distance code,
    fun k hk => ?_⟩
  by_contra hout
  refine hk (getElem?_assemble distance' distance 0 code k fun offset i l hi hl hinside => ?_)
  refine hout ⟨_, (mem_placed distance).mpr ⟨offset, i, hi, rfl⟩, ?_, ?_, ?_⟩
  · rw [Instr.target?_mapTarget, hl]
    rfl
  · rw [Nat.zero_add]
    exact hinside.1
  · rw [Instr.size_of_target? hl, Nat.zero_add]
    exact hinside.2

end Emitter

def Tiles : Nat → List Emitted → Nat → Prop
  | start, [], stop => start = stop
  | start, x :: xs, stop => x.codeStart = start ∧ x.codeStart ≤ x.codeEnd ∧ Tiles x.codeEnd xs stop

theorem Tiles.concat {start middle stop : Nat} {xs : List Emitted} (h : Tiles start xs middle)
    (c : Command) (hle : middle ≤ stop) : Tiles start (xs ++ [⟨c, middle, stop⟩]) stop := by
  induction xs generalizing start with
  | nil =>
    rw [Tiles] at h
    subst h
    exact ⟨rfl, hle, rfl⟩
  | cons x xs ih =>
    obtain ⟨hstart, hrange, hrest⟩ := h
    exact ⟨hstart, hrange, ih hrest⟩

namespace MethodDef

/-- The commands of a method have written this code, each a part of it that begins and ends between
instructions. -/
structure Wrote (t : MethodDef) (code : List UInt8) : Prop where
  tiles : Tiles 0 t.commands.toList code.length
  divides : ∀ x ∈ t.commands.toList,
    Divides code.toArray x.codeStart ∧ Divides code.toArray x.codeEnd

def implicitReturn (t : MethodDef) : List UInt8 :=
  if t.returnType.isVoid then (Instr.retVoid : Instr Int32).encode
  else (Instr.default t.returnType.valueKind : Instr Int32).encode ++
    (Instr.ret : Instr Int32).encode

def ending (t : MethodDef) : List UInt8 :=
  if !t.attrs.isAbstract && t.emitter.canFallThrough then t.implicitReturn else []

theorem assemble_implied (t : MethodDef) (distance : Nat → Label → Int32) (offset : Nat) :
    Emitter.assemble distance offset t.implied = t.ending := by
  rw [implied, ending]
  by_cases hfall : (!t.attrs.isAbstract && t.emitter.canFallThrough) = true
  · rw [if_pos hfall, if_pos hfall, implicitReturn]
    by_cases hvoid : t.returnType.isVoid = true
    · rw [if_pos hvoid, if_pos hvoid]
      rfl
    · rw [if_neg hvoid, if_neg hvoid]
      cases t.returnType.valueKind <;> rfl
  · rw [if_neg hfall, if_neg hfall]
    rfl

end MethodDef

variable {q : Pool} {m : Nat} {t : MethodDef}

theorem History.tiles (h : History q m t) :
    Tiles 0 t.commands.toList t.emitter.offset ∧ ∀ x ∈ t.commands.toList,
      IsBoundary t.emitter.code.toList x.codeStart ∧
        IsBoundary t.emitter.code.toList x.codeEnd := by
  induction h with
  | start => exact ⟨rfl, fun x hx => absurd hx List.not_mem_nil⟩
  | @take t t' c h ht ih =>
    obtain ⟨htiles, hboundaries⟩ := ih
    obtain ⟨more, hmore⟩ := ht.runs.within.code
    replace hmore : t'.emitter.code.toList = t.emitter.code.toList ++ more := hmore
    have hle : t.emitter.offset ≤ t'.emitter.offset := by
      rw [t.emitter.offset_eq, t'.emitter.offset_eq, hmore, totalSize_append]
      exact Nat.le_add_right ..
    rw [ht.commands_eq, Array.toList_push]
    refine ⟨htiles.concat c hle, fun x hx => ?_⟩
    obtain hx | hx := List.mem_append.mp hx
    · rw [hmore]
      exact ⟨(hboundaries x hx).1.append more, (hboundaries x hx).2.append more⟩
    · rw [List.mem_singleton.mp hx]
      refine ⟨?_, t'.emitter.boundary_offset⟩
      rw [hmore]
      exact t.emitter.boundary_offset.append more

theorem History.bytes_eq (h : History q m t) :
    t.emitter.bytes = Emitter.assemble (fun _ _ => 0) 0 t.emitter.code.toList :=
  Emitter.bytes_of_open h.balanced.sane.isOpen

theorem History.wrote (h : History q m t) : t.Wrote t.emitter.bytes := by
  obtain ⟨htiles, hboundaries⟩ := h.tiles
  rw [h.bytes_eq]
  refine ⟨?_, fun x hx => ?_⟩
  · rw [Emitter.assemble_length, ← t.emitter.offset_eq]
    exact htiles
  · exact ⟨Emitter.divides_assemble _ (hboundaries x hx).1,
      Emitter.divides_assemble _ (hboundaries x hx).2⟩

theorem History.patches (h : History q m t) :
    Patches (t.emitter.bytes ++ t.ending) t.complete.body.code.toList := by
  have hcode : t.complete.code.toList = t.emitter.code.toList ++ t.implied :=
    t.emitter.code_append t.implied
  have hpatches := Emitter.patches_assemble (fun _ _ => 0) t.complete.distance
    t.complete.code.toList
  rw [hcode] at hpatches
  rw [Emitter.body, hcode, h.bytes_eq]
  rwa [Emitter.assemble_append, t.assemble_implied] at hpatches

theorem MethodDef.ending_eq_or (t : MethodDef) : t.ending = [] ∨ t.ending = t.implicitReturn := by
  rw [ending]
  split
  · exact .inr rfl
  · exact .inl rfl

/-- In every session, whatever a body has been through, its commands have written its code piece by
piece; and finishing it patches jumps and appends the implied return, or nothing. -/
theorem Session.commands_tile_code {p : Project} {issued : List (Nat × Variable)}
    (h : Session Anything p issued) (ht : p.draft.methods[m]? = some t)
    (hs : t.isSynthesized = false) :
    ((∀ body, t.state ≠ .finished body) → t.Wrote t.emitter.bytes) ∧
    (∀ body, t.state = .finished body → ∃ code ending, t.Wrote code ∧
      (ending = [] ∨ ending = t.implicitReturn) ∧ Patches (code ++ ending) body.code.toList) ∧
    ∀ d, t.state = .open → BuildM.finalize m p.draft = .ok () d →
      ∃ t' body, d.methods[m]? = some t' ∧ t'.state = .finished body ∧
        t'.commands = t.commands ∧ Patches (t.emitter.bytes ++ t.ending) body.code.toList := by
  have hlife := h.lives _ (.refl _) m t ht
  refine ⟨fun hunfinished => ?_, fun body hbody => ?_, fun d hopen hd => ?_⟩
  · cases hlife with
    | writing h => exact h.history.wrote
    | refused h | failed h => exact ⟨h.history.wrote.tiles, h.history.wrote.divides⟩
    | finished h hblocks => exact absurd rfl (hunfinished _)
    | generated => cases hs
  · cases hlife with
    | writing h =>
      rw [h.history.isOpen] at hbody
      cases hbody
    | refused | failed => cases hbody
    | @finished t h hblocks =>
      cases hbody
      exact ⟨_, t.ending, ⟨h.history.wrote.tiles, h.history.wrote.divides⟩, t.ending_eq_or,
        h.history.patches⟩
    | generated => cases hs
  · have hhistory := (hlife.isWriting hopen).history
    by_cases hready : ∃ t, p.draft.methods[m]? = some t ∧ t.state = .open ∧ t.blocks = []
    · obtain ⟨t', ht', -, hblocks⟩ := hready
      rw [ht] at ht'
      cases ht'
      rw [BuildM.finalize_of_open ht hopen hblocks (hhistory.finalize_eq hblocks)] at hd
      cases hd
      exact ⟨_, _, Draft.found_edited (Draft.lt_size_of_found ht), rfl, rfl, hhistory.patches⟩
    · -- a body with open blocks is not finished
      have hsame := BuildM.final_finalize_of_not hready
      rw [hd] at hsame
      obtain ⟨body, hbody⟩ := BuildM.finished_of_finalize hd (hsame ▸ ht)
      rw [hopen] at hbody
      cases hbody

/-- A method that branches and is finished, and one that was given up behind two commands. -/
def abandoning : List Request := [
  .perform (.defineType "Sign" {} none []),
  .perform (.defineMethod 0 "of" { isStatic := true } .string [⟨"n", .int⟩]),
  .perform (.edit 0 (.ifBegin (.slot 0 0 "n" .int) .less (.constant (.i32 0)))),
  .perform (.edit 0 (.ret (.constant (.string "-")))),
  .perform (.edit 0 .elseBegin),
  .perform (.edit 0 (.createLocal "sum" .int)),
  .perform (.edit 0 (.arithmetic .add (.slot 0 0 "n" .int) (.constant (.i32 1)))),
  .perform (.edit 0 .endIf),
  .perform (.finalize 0),
  .perform (.defineMethod 0 "drop" { isStatic := true } .void [⟨"n", .int⟩]),
  .perform (.edit 1 .tryBegin),
  .perform (.edit 1 (.arithmetic .add (.slot 1 0 "n" .int) (.constant (.i32 1)))),
  .perform (.edit 1 .endTry)]

theorem Session.commands_tile_code_abandoning : ∃ p issued t t' body,
    (Request.makeAll abandoning (⟨.empty "Signs" {}, .empty⟩, [])).1 = p ∧
    Session Anything p issued ∧ p.draft.methods[0]? = some t ∧ t.isSynthesized = false ∧
    t.state = .finished body ∧ t.commands.size = 6 ∧
    (∃ code ending, t.Wrote code ∧ (ending = [] ∨ ending = t.implicitReturn) ∧
      Patches (code ++ ending) body.code.toList) ∧
    p.draft.methods[1]? = some t' ∧ t'.isSynthesized = false ∧ t'.state = .aborted ∧
    t'.commands.size = 2 ∧ t'.Wrote t'.emitter.bytes := by
  obtain ⟨_, issued, t, rfl, h, ht, hsome, hs, hsize⟩ := Session.exists_makeAll abandoning "Signs" 0
    (fun t => t.body?.isSome = true ∧ t.isSynthesized = false ∧ t.commands.size = 6)
    (by decide +kernel)
  obtain ⟨_, _, t', rfl, -, ht', hs', hstate', hsize'⟩ := Session.exists_makeAll abandoning "Signs" 1
    (fun t => t.isSynthesized = false ∧ t.state = .aborted ∧ t.commands.size = 2)
    (by decide +kernel)
  obtain ⟨body, hbody⟩ : ∃ body, t.state = .finished body := by
    cases hstate : t.state with
    | finished body => exact ⟨body, rfl⟩
    | «open» | aborted => simp [MethodDef.body?, hstate] at hsome
  refine ⟨_, issued, t, t', body, rfl, h, ht, hs, hbody, hsize, ?_, ht', hs', hstate', hsize', ?_⟩
  · exact (h.commands_tile_code ht hs).2.1 body hbody
  · refine (h.commands_tile_code ht' hs').1 fun body hbody => ?_
    rw [hstate'] at hbody
    cases hbody

end Bytesmith.Build
