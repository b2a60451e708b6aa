import Bytesmith.Proofs.Balance

namespace Bytesmith.Build

open Code Outcome

namespace MethodDef

def results (t : MethodDef) : List Variable := t.commands.toList.filterMap (·.command.result?)

def slots (t : MethodDef) : Nat := t.paramCount + t.results.length

theorem eq_of_declaration {t t' : MethodDef} (h : t'.declaration = t.declaration) :
    t'.owner = t.owner ∧ t'.attrs = t.attrs ∧ t'.returnType = t.returnType ∧
      t'.params = t.params ∧ t'.isConstructor = t.isConstructor := by
  simp only [declaration, Prod.mk.injEq] at h
  exact ⟨h.1, h.2.2⟩

theorem paramCount_of_declaration {t t' : MethodDef} (h : t'.declaration = t.declaration) :
    t'.paramCount = t.paramCount := by
  obtain ⟨-, hattrs, -, hparams, -⟩ := eq_of_declaration h
  rw [paramCount, paramCount, hattrs, hparams]

structure Grows (t t' : MethodDef) : Prop where
  declaration : t'.declaration = t.declaration
  commands : t.commands.toList <+: t'.commands.toList
  aborted : t.state = .aborted → t'.state = .aborted

theorem Grows.refl (t : MethodDef) : t.Grows t := ⟨rfl, List.prefix_refl _, id⟩

theorem Grows.trans {t t' t'' : MethodDef} (h : t.Grows t') (h' : t'.Grows t'') : t.Grows t'' :=
  ⟨h'.declaration.trans h.declaration, h.commands.trans h'.commands,
    fun ht => h'.aborted (h.aborted ht)⟩

theorem Grows.of_open {t t' : MethodDef} (hopen : t.state = .open)
    (hdecl : t'.declaration = t.declaration) (hcommands : t.commands.toList <+: t'.commands.toList) :
    t.Grows t' := by
  refine ⟨hdecl, hcommands, fun haborted => ?_⟩
  rw [hopen] at haborted
  cases haborted

end MethodDef

namespace Draft

structure Grows (d d' : Draft) : Prop where
  types : ∀ (i : Nat) (t : TypeDef), d.types[i]? = some t →
    ∃ t', d'.types[i]? = some t' ∧ t'.name = t.name
  constants : d'.constants.Extends d.constants
  methods : ∀ (i : Nat) (t : MethodDef), d.methods[i]? = some t →
    ∃ t', d'.methods[i]? = some t' ∧ t.Grows t'

namespace Grows

variable {d d' : Draft} {m : Nat} {t t' : MethodDef} {k : Pool} {n : Nat}

theorem refl (d : Draft) : d.Grows d :=
  ⟨fun _ t ht => ⟨t, ht, rfl⟩, .refl _, fun _ t ht => ⟨t, ht, .refl t⟩⟩

theorem trans {d'' : Draft} (h : d.Grows d') (h' : d'.Grows d'') : d.Grows d'' := by
  refine ⟨fun i t ht => ?_, h'.constants.trans h.constants, fun i t ht => ?_⟩
  · obtain ⟨t', ht', hname⟩ := h.types i t ht
    obtain ⟨t'', ht'', hname'⟩ := h'.types i t' ht'
    exact ⟨t'', ht'', hname'.trans hname⟩
  · obtain ⟨t', ht', hgrows⟩ := h.methods i t ht
    obtain ⟨t'', ht'', hgrows'⟩ := h'.methods i t' ht'
    exact ⟨t'', ht'', hgrows.trans hgrows'⟩

theorem method (h : d.Grows d') (ht : d.methods[m]? = some t) (ht' : d'.methods[m]? = some t') :
    t.Grows t' := by
  obtain ⟨s, hs, hgrows⟩ := h.methods m t ht
  cases ht'.symm.trans hs
  exact hgrows

theorem edited (hfound : d.methods[m]? = some t) (ht : t.Grows t') (hk : k.Extends d.constants) :
    d.Grows (d.edited m t' k n) := by
  refine ⟨fun _ t ht => ⟨t, ht, rfl⟩, hk, fun i s hs => ?_⟩
  by_cases hi : i = m
  · subst hi
    cases hfound.symm.trans hs
    exact ⟨t', found_edited (lt_size_of_found hfound), ht⟩
  · rw [← found_edited_ne hi (t := t') (k := k) (n := n)] at hs
    exact ⟨s, hs, .refl s⟩

theorem ended (hfound : d.methods[m]? = some t) (hopen : t.state = .open)
    (hdecl : t'.declaration = t.declaration) (hcommands : t'.commands = t.commands) :
    d.Grows (d.edited m t' d.constants d.nameCount) :=
  edited hfound (.of_open hopen hdecl (hcommands ▸ List.prefix_refl _)) (.refl _)

theorem size_types_le (h : d.Grows d') : d.types.size ≤ d'.types.size := by
  by_contra hlt
  rw [Nat.not_le] at hlt
  obtain ⟨t', ht', -⟩ := h.types d'.types.size _ (Array.getElem?_eq_getElem hlt)
  exact absurd (Array.getElem?_eq_some_iff.mp ht').1 (Nat.lt_irrefl _)

end Grows

end Draft

variable {d d' : Draft} {m : Nat} {t t' : MethodDef} {c : Command} {q : Pool}

theorem Declares.grows (h : Declares d d') : d.Grows d' := by
  have hmodify {id : Nat} {f : TypeDef → TypeDef} (hf : ∀ t, (f t).name = t.name) (i : Nat)
      (t : TypeDef) (ht : d.types[i]? = some t) :
      ∃ t', (d.types.modify id f)[i]? = some t' ∧ t'.name = t.name :=
    exists_modify (·.name = t.name) rfl (hf t) ht
  have hself := (Draft.Grows.refl d).types
  have hkept := (Draft.Grows.refl d).methods
  cases h with
  | type entry => exact ⟨fun _ t ht => ⟨t, getElem?_push_of_some ht, rfl⟩, .refl _, hkept⟩
  | enums | backing | entryPoint => exact ⟨hself, .refl _, hkept⟩
  | field | property | classOf => exact ⟨hmodify fun _ => rfl, .refl _, hkept⟩
  | method | constructor =>
    exact ⟨hmodify fun _ => rfl, .refl _, fun _ t ht => ⟨t, getElem?_push_of_some ht, .refl t⟩⟩

theorem Takes.commands_eq (h : Takes q m c t t') :
    t'.commands = t.commands.push ⟨c, t.emitter.offset, t'.emitter.offset⟩ := by
  rw [h.eq]

theorem Takes.declaration_eq (h : Takes q m c t t') : t'.declaration = t.declaration := by
  rw [h.eq]
  rfl

theorem Takes.grows (h : Takes q m c t t') : t.Grows t' := by
  refine .of_open (MethodDef.state_of_ensureOpen h.isOpen).1 h.declaration_eq ?_
  rw [h.commands_eq, Array.toList_push]
  exact List.prefix_append ..

theorem Edited.draft_grows (h : Edited m c t t' d d') : d.Grows d' := by
  obtain ⟨n, heq⟩ := h.eq
  rw [heq]
  exact .edited h.found (h.takes _ (.refl _)).grows h.grows

theorem BuildM.Aborts.grows (h : Aborts m d d') : d.Grows d' := by
  obtain rfl | ⟨htouches, s, hs, -, s', hs', haborted, hcommands⟩ := h
  · exact .refl d'
  · refine ⟨fun i t ht => ⟨t, by rw [htouches.rest]; exact ht, rfl⟩, htouches.grows,
      fun i t ht => ?_⟩
    by_cases hi : i = m
    · subst hi
      cases hs.symm.trans ht
      obtain ⟨t', ht', hdecl⟩ := htouches.declared s hs
      cases hs'.symm.trans ht'
      exact ⟨s', hs', hdecl, hcommands ▸ List.prefix_refl _, fun _ => haborted⟩
    · rw [← htouches.others i hi] at ht
      exact ⟨t, ht, .refl t⟩

theorem Action.Acts.localCount_eq {e e' : Emitter} {a : Action} (h : a.Acts q e e') :
    e'.localCount = e.localCount := by
  cases h with
  | leave l e => exact e.localCount_leave l
  | openCatch | closeRegion => exact Emitter.localCount_leave _ _
  | _ => rfl

theorem Runs.localCount_eq {e e' : Emitter} {actions : List Action}
    (h : Runs q e actions e') : e'.localCount = e.localCount := by
  induction h with
  | nil e => rfl
  | cons hact _ ih => exact ih.trans hact.localCount_eq

theorem Command.localCount_prepare (c : Command) (e : Emitter) :
    (c.prepare e).localCount = e.localCount + c.result?.toList.length := by
  rw [prepare, Emitter.localCount, Emitter.localCount, Nat.add_assoc]
  cases c.result? <;> simp

theorem History.results (h : History q m t) :
    t.emitter.localCount = t.slots ∧ ∀ k v, t.results[k]? = some v →
      t.paramCount + k < 65536 ∧ ∃ name ty, v = .slot m (t.paramCount + k).toUInt16 name ty := by
  induction h with
  | start =>
    refine ⟨rfl, fun k v hv => ?_⟩
    cases hv
  | @take t t' c h ht ih =>
    obtain ⟨hcount, hslots⟩ := ih
    have hparams := MethodDef.paramCount_of_declaration ht.declaration_eq
    have hresults : t'.results = t.results ++ c.result?.toList := by
      rw [MethodDef.results, ht.commands_eq, Array.toList_push, List.filterMap_append]
      cases hr : c.result? <;> simp [MethodDef.results, hr]
    have hlength : t'.slots = t.slots + c.result?.toList.length := by
      rw [MethodDef.slots, hparams, hresults, List.length_append, ← Nat.add_assoc]
      rfl
    refine ⟨?_, fun k v hv => ?_⟩
    · rw [ht.runs.localCount_eq, Command.localCount_prepare, hcount, hlength]
    · rw [hresults] at hv
      rw [hparams]
      by_cases hk : k < t.results.length
      · rw [List.getElem?_append_left hk] at hv
        exact hslots k v hv
      · rw [List.getElem?_append_right (Nat.le_of_not_lt hk)] at hv
        cases hr : c.result? with
        | none =>
          rw [hr] at hv
          cases hv
        | some v' =>
          rw [hr, Option.toList_some, List.getElem?_singleton] at hv
          split at hv
          · rename_i hlast
            cases hv
            obtain ⟨hsmall, name, ty, hslot⟩ := ht.fresh.slot v hr
            have hsame : t.emitter.localCount = t.paramCount + k := by
              rw [hcount, MethodDef.slots]
              omega
            rw [hsame] at hsmall hslot
            exact ⟨hsmall, name, ty, hslot⟩
          · cases hv

theorem MethodDef.slots_pos (hstatic : t.attrs.isStatic = false) : 0 < t.slots := by
  rw [slots, paramCount, slotCount, hstatic, if_neg Bool.false_ne_true]
  omega

theorem MethodDef.Grows.slots_le (h : t.Grows t') : t.slots ≤ t'.slots := by
  rw [slots, slots, paramCount_of_declaration h.declaration]
  exact Nat.add_le_add_left (h.commands.filterMap _).length_le _

theorem Takes.slot_lt (h : Takes q m c t t') (hh : History q m t) {v : Variable}
    (hv : c.result? = some v) :
    ∃ index name ty, v = .slot m index name ty ∧ index.toNat < t'.slots := by
  obtain ⟨hcount, -⟩ := (History.take hh h).results
  obtain ⟨hsmall, name, ty, rfl⟩ := h.fresh.slot v hv
  have hslot : t.emitter.localCount.toUInt16.toNat = t.emitter.localCount :=
    UInt16.toNat_ofNat_of_lt' hsmall
  refine ⟨_, name, ty, rfl, ?_⟩
  rw [hslot, ← hcount, h.runs.localCount_eq, Command.localCount_prepare, hv]
  exact Nat.lt_succ_self _

end Bytesmith.Build
