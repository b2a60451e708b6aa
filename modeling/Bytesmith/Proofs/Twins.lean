import Bytesmith.Proofs.Concurrence
import Bytesmith.Proofs.Lives
import Bytesmith.Proofs.Lockstep

namespace Bytesmith.Build

open Code Outcome

inductive BodyState.Alike (e₁ e₂ : Emitter) : BodyState → BodyState → Prop
  | open : Alike e₁ e₂ .open .open
  | aborted : Alike e₁ e₂ .aborted .aborted
  | finished : Alike e₁ e₂ (.finished e₁.body) (.finished e₂.body)

theorem BodyState.Alike.elim {e₁ e₂ : Emitter} {s₁ s₂ : BodyState}
    (h : BodyState.Alike e₁ e₂ s₁ s₂) :
    s₁ = .open ∧ s₂ = .open ∨ s₁ = .aborted ∧ s₂ = .aborted ∨
      s₁ = .finished e₁.body ∧ s₂ = .finished e₂.body := by
  cases h with
  | «open» => exact .inl ⟨rfl, rfl⟩
  | aborted => exact .inr (.inl ⟨rfl, rfl⟩)
  | finished => exact .inr (.inr ⟨rfl, rfl⟩)

structure MethodDef.Alike (q₁ q₂ : Pool) (t₁ t₂ : MethodDef) : Prop where
  declaration : t₁.declaration = t₂.declaration
  emitter : Emitter.Alike q₁ q₂ t₁.emitter t₂.emitter
  blocks : t₁.blocks = t₂.blocks
  state : BodyState.Alike t₁.emitter t₂.emitter t₁.state t₂.state

namespace MethodDef.Alike

variable {q₁ q₂ p₁ p₂ : Pool} {t₁ t₂ : MethodDef}

theorem start (owner : Nat) (name : String) (attrs : MethodAttributes) (returnType : StaticType)
    (params : List Parameter) (isConstructor : Bool) :
    Alike q₁ q₂ (.start owner name attrs returnType params isConstructor)
      (.start owner name attrs returnType params isConstructor) :=
  ⟨rfl, .start _ _, rfl, .open⟩

theorem mono (h : Alike p₁ p₂ t₁ t₂) (h₁ : q₁.Extends p₁) (h₂ : q₂.Extends p₂) :
    Alike q₁ q₂ t₁ t₂ := { h with emitter := h.emitter.mono h₁ h₂ }

theorem poised (h : Alike q₁ q₂ t₁ t₂) : t₁.Poised t₂ where
  declaration := h.declaration
  blocks := h.blocks
  isFinished := h.emitter.isFinished
  localCount := h.emitter.localCount_eq
  nextLabel := h.emitter.nextLabel

theorem attrs (h : Alike q₁ q₂ t₁ t₂) : t₁.attrs = t₂.attrs := congrArg (·.2.2.1) h.declaration

theorem ensureOpen_iff (h : Alike q₁ q₂ t₁ t₂) :
    t₁.ensureOpen = .ok () ↔ t₂.ensureOpen = .ok () := by
  unfold ensureOpen
  rw [h.attrs]
  obtain ⟨hs₁, hs₂⟩ | ⟨hs₁, hs₂⟩ | ⟨hs₁, hs₂⟩ := h.state.elim
  · rw [hs₁, hs₂]
    dsimp only
    split <;> simp
  · simp [hs₁, hs₂]
  · simp [hs₁, hs₂]

theorem declares_eq (h : Alike q₁ q₂ t₁ t₂) {name : String} (hname : isTemporary name = false) :
    t₁.declares name = t₂.declares name := by
  have hlocals (e : Emitter) :
      e.locals.contains name = (e.locals.toList.map canonicalName).contains name := by
    rw [Bool.eq_iff_iff, Array.contains_iff_mem, List.contains_iff_mem, ← Array.mem_toList_iff,
      List.mem_map]
    simp only [canonicalName_eq_iff hname, exists_eq_right]
  have hparams : t₁.params = t₂.params := congrArg (·.2.2.2.2.1) h.declaration
  rw [declares, declares, hlocals, hlocals, h.emitter.locals, hparams]

end MethodDef.Alike

theorem Emitter.Alike.prepare {q₁ q₂ : Pool} {e₁ e₂ : Emitter} (h : Emitter.Alike q₁ q₂ e₁ e₂)
    {c₁ c₂ : Command} (hc : c₁.canonical = c₂.canonical) :
    Emitter.Alike q₁ q₂ (c₁.prepare e₁) (c₂.prepare e₂) := by
  have hlabels : c₁.labels = c₂.labels := by
    rw [← c₁.labels_canonical, hc, c₂.labels_canonical]
  have hresult : c₁.result?.map Variable.canonical = c₂.result?.map Variable.canonical := by
    rw [← c₁.result?_canonical, hc, c₂.result?_canonical]
  refine { h with
    locals := ?_
    nextLabel := by rw [Command.prepare, Command.prepare, h.nextLabel, hlabels] }
  unfold Command.prepare
  dsimp only
  cases h₂ : c₂.result? with
  | none =>
    rw [h₂, Option.map_none, Option.map_eq_none_iff] at hresult
    rw [hresult]
    exact h.locals
  | some w =>
    rw [h₂, Option.map_some, Option.map_eq_some_iff] at hresult
    obtain ⟨v, h₁, hvw⟩ := hresult
    rw [h₁]
    dsimp only
    have hname : canonicalName v.name = canonicalName w.name := by
      rw [← v.canonicalName_name, hvw, w.canonicalName_name]
    rw [Array.toList_push, Array.toList_push, List.map_append, List.map_append, h.locals,
      List.map_singleton, List.map_singleton, hname]

namespace MethodDef

variable {q q₁ q₂ : Pool} {m n : Nat} {t t₁ t₂ : MethodDef}

theorem Alike.complete (h : Alike q₁ q₂ t₁ t₂) :
    Emitter.Alike q₁ q₂ { t₁.complete with isFinished := true }
      { t₂.complete with isFinished := true } := by
  have himplied : t₁.implied = t₂.implied := by
    rw [implied, implied, h.attrs, h.poised.returnType, h.emitter.canFallThrough_eq]
  have hcomplete : Emitter.Alike q₁ q₂ t₁.complete t₂.complete := by
    rw [MethodDef.complete, MethodDef.complete, himplied]
    exact h.emitter.append fun i hi =>
      (Instr.eq_none_of_isPlain (isPlain_of_mem_implied hi)).2.2.2
  exact { hcomplete with isFinished := rfl }

end MethodDef

theorem Writing.alike (h : Writing q m n t) : MethodDef.Alike q q t t := by
  induction h with
  | start => exact .start ..
  | take _ ht _ ih =>
    refine ⟨rfl, (ih.emitter.prepare rfl).runs (fun i => Command.isString_of_mem) ht.runs ht.runs,
      rfl, ?_⟩
    rw [ht.eq, (MethodDef.state_of_ensureOpen ht.isOpen).1]
    exact .open
  | later _ _ ih => exact ih

theorem Life.alike (h : Life q m n t) : MethodDef.Alike q q t t := by
  cases h with
  | writing h => exact h.alike
  | refused h => exact { h.alike with state := .aborted }
  | failed h => exact ⟨rfl, h.alike.emitter.prepare rfl, rfl, .aborted⟩
  | finished h => exact ⟨rfl, h.alike.complete, rfl, .finished⟩
  | generated _ _ _ _ _ _ hcode =>
    exact ⟨rfl, { (Emitter.Alike.start _ _).append hcode with isFinished := rfl }, rfl, .finished⟩

structure Draft.Twins (m : Nat) (d₁ d₂ : Draft) : Prop where
  bare : d₁.bare = d₂.bare
  method : ∀ t₁, d₁.methods[m]? = some t₁ →
    ∃ t₂, d₂.methods[m]? = some t₂ ∧ MethodDef.Alike d₁.constants d₂.constants t₁ t₂
  lives₁ : d₁.Lives
  lives₂ : d₂.Lives

namespace Draft.Twins

variable {m : Nat} {d₁ d₂ : Draft} {t₁ t₂ t₁' t₂' : MethodDef} {k₁ k₂ : Pool}

theorem cases (h : Twins m d₁ d₂) :
    d₁.methods[m]? = none ∧ d₂.methods[m]? = none ∨
      ∃ t₁ t₂, d₁.methods[m]? = some t₁ ∧ d₂.methods[m]? = some t₂ ∧
        MethodDef.Alike d₁.constants d₂.constants t₁ t₂ := by
  cases h₁ : d₁.methods[m]? with
  | some t₁ =>
    obtain ⟨t₂, h₂, ht⟩ := h.method t₁ h₁
    exact .inr ⟨t₁, t₂, rfl, h₂, ht⟩
  | none =>
    have hmethods := d₁.getElem?_methods_bare m
    rw [h.bare, getElem?_methods_bare, h₁, Option.map_none, Option.map_eq_none_iff] at hmethods
    exact .inl ⟨rfl, hmethods⟩

theorem edited {n₁ n₂ : Nat} (h : Twins m d₁ d₂) (h₁ : d₁.methods[m]? = some t₁)
    (h₂ : d₂.methods[m]? = some t₂) (hdecl₁ : t₁'.declaration = t₁.declaration)
    (hdecl₂ : t₂'.declaration = t₂.declaration) (hk₁ : k₁.Extends d₁.constants)
    (hk₂ : k₂.Extends d₂.constants) (ht : MethodDef.Alike k₁ k₂ t₁' t₂')
    (hlives₁ : (d₁.edited m t₁' k₁ n₁).Lives) (hlives₂ : (d₂.edited m t₂' k₂ n₂).Lives) :
    Twins m (d₁.edited m t₁' k₁ n₁) (d₂.edited m t₂' k₂ n₂) := by
  refine ⟨?_, fun t hfound => ?_, hlives₁, hlives₂⟩
  · have hsame₁ := (Touches.edited (n := n₁) h₁ hdecl₁ hk₁).sameDefinitions
    have hsame₂ := (Touches.edited (n := n₂) h₂ hdecl₂ hk₂).sameDefinitions
    exact Eq.trans hsame₁ (h.bare.trans hsame₂.symm)
  · rw [found_edited (lt_size_of_found h₁)] at hfound
    cases hfound
    exact ⟨t₂', found_edited (lt_size_of_found h₂), ht⟩

theorem aborted (h : Twins m d₁ d₂) (h₁ : d₁.methods[m]? = some t₁)
    (h₂ : d₂.methods[m]? = some t₂) (ht : MethodDef.Alike d₁.constants d₂.constants t₁ t₂)
    (ho₁ : t₁.ensureOpen = .ok ()) (ho₂ : t₂.ensureOpen = .ok ()) :
    Twins m (d₁.modifyMethod m ({ · with state := .aborted }))
      (d₂.modifyMethod m ({ · with state := .aborted })) := by
  have hlives₁ := h.lives₁.aborted h₁ ho₁
  have hlives₂ := h.lives₂.aborted h₂ ho₂
  rw [modifyMethod_of_found h₁] at hlives₁ ⊢
  rw [modifyMethod_of_found h₂] at hlives₂ ⊢
  exact h.edited h₁ h₂ rfl rfl (.refl _) (.refl _) { ht with state := .aborted } hlives₁ hlives₂

end Draft.Twins

namespace BuildM

open Draft

variable {α β : Type} {m : Nat} {d d₁ d₂ : Draft}

def Refuses (m : Nat) (d : Draft) : Prop := ∀ t, d.methods[m]? = some t → t.ensureOpen ≠ .ok ()

theorem recording_of_refuses (op : MethodDef → BuildM α) (h : Refuses m d) :
    ∃ e, recording m op d = .error e d := by
  cases hr : recording m op d with
  | ok a d' =>
    obtain ⟨t, hfound, hopen, -⟩ := recording_eq_ok hr
    exact absurd hopen (h t hfound)
  | error e d' =>
    obtain rfl | ⟨t, hfound, hopen, -⟩ := recording_eq_error hr
    · exact ⟨e, rfl⟩
    · exact absurd hopen (h t hfound)

theorem twins_of_open {R : α → β → Prop} {x : BuildM α} {y : BuildM β} (h : Twins m d₁ d₂)
    (hx : Refuses m d₁ → ∃ e, x d₁ = .error e d₁) (hy : Refuses m d₂ → ∃ e, y d₂ = .error e d₂)
    (hopen : ∀ t₁ t₂, d₁.methods[m]? = some t₁ → d₂.methods[m]? = some t₂ →
      MethodDef.Alike d₁.constants d₂.constants t₁ t₂ → t₁.ensureOpen = .ok () →
      t₂.ensureOpen = .ok () → Matches R (Twins m) (x d₁) (y d₂)) :
    Matches R (Twins m) (x d₁) (y d₂) := by
  have hrefuse (h₁ : Refuses m d₁) (h₂ : Refuses m d₂) : Matches R (Twins m) (x d₁) (y d₂) := by
    obtain ⟨e₁, h₁⟩ := hx h₁
    obtain ⟨e₂, h₂⟩ := hy h₂
    rw [h₁, h₂]
    exact .error h
  obtain ⟨h₁, h₂⟩ | ⟨t₁, t₂, h₁, h₂, ht⟩ := h.cases
  · refine hrefuse (fun t ht => ?_) fun t ht => ?_
    · rw [h₁] at ht
      cases ht
    · rw [h₂] at ht
      cases ht
  · by_cases ho : t₁.ensureOpen = .ok ()
    · exact hopen t₁ t₂ h₁ h₂ ht ho (ht.ensureOpen_iff.mp ho)
    · refine hrefuse (fun t hfound => ?_) fun t hfound => ?_
      · rw [h₁] at hfound
        cases hfound
        exact ho
      · rw [h₂] at hfound
        cases hfound
        exact fun ho₂ => ho (ht.ensureOpen_iff.mpr ho₂)

end BuildM

namespace Edit

open Draft BuildM

variable {m : Nat} {d d₁ d₂ : Draft} {e₁ e₂ : Edit}

theorem perform_of_refuses (e : Edit) (h : Refuses m d) : ∃ err, e.perform m d = .error err d := by
  obtain ⟨α, g, op, hperform, -⟩ := e.exists_agrees m
  obtain ⟨err, hop⟩ := recording_of_refuses op h
  exact ⟨err, by rw [hperform, map_eq_error.mpr hop]⟩

theorem twins_perform (h : Twins m d₁ d₂) (he : e₁.canonical = e₂.canonical)
    (hname : ∀ name ty t₁ t₂, e₁ = .createLocal name ty → d₁.methods[m]? = some t₁ →
      d₂.methods[m]? = some t₂ → t₁.declares name = t₂.declares name) :
    Matches (fun r r' => r.map Variable.canonical = r'.map Variable.canonical) (Twins m)
      (e₁.perform m d₁) (e₂.perform m d₂) := by
  refine twins_of_open h e₁.perform_of_refuses e₂.perform_of_refuses
    fun t₁ t₂ h₁ h₂ ht ho₁ ho₂ => ?_
  have hconcur := Edit.concur h.bare m he ht.poised fun name ty heq =>
    hname name ty t₁ t₂ heq h₁ h₂
  have hlives₁ := lives_edit m e₁ d₁ h.lives₁
  have hlives₂ := lives_edit m e₂ d₂ h.lives₂
  obtain ⟨⟨c₁, blocks₁⟩, ⟨c₂, blocks₂⟩, hr₁, hr₂, hr⟩ | ⟨err₁, err₂, hr₁, hr₂⟩ := hconcur.elim
  · obtain ⟨hc, hblocks⟩ := Prod.mk.inj hr
    have hprepared := ht.emitter.prepare hc
    have hsame : c₁.check = c₂.check := by rw [← c₁.check_canonical, hc, c₂.check_canonical]
    have hhistory {d : Draft} {t : MethodDef} (hd : d.Lives) (hfound : d.methods[m]? = some t)
        (ho : t.ensureOpen = .ok ()) : History d.constants m t :=
      ((hd _ (.refl _) m t hfound).isWriting (MethodDef.state_of_ensureOpen ho).1).history
    obtain ⟨n₁, -, hfail₁, hdone₁⟩ := perform_of_resolve (hhistory h.lives₁ h₁ ho₁) h₁ ho₁ hr₁
    obtain ⟨n₂, -, hfail₂, hdone₂⟩ := perform_of_resolve (hhistory h.lives₂ h₂ ho₂) h₂ ho₂ hr₂
    cases hcheck : c₂.check with
    | error err =>
      rw [hfail₁ err (hsame.trans hcheck)] at hlives₁ ⊢
      rw [hfail₂ err hcheck] at hlives₂ ⊢
      exact .error (h.edited h₁ h₂ rfl rfl (.refl _) (.refl _)
        ⟨ht.declaration, hprepared, ht.blocks, .aborted⟩ hlives₁ hlives₂)
    | ok u =>
      obtain ⟨o₁, hs₁, hp₁⟩ := hdone₁ (hsame.trans hcheck)
      obtain ⟨o₂, hs₂, hp₂⟩ := hdone₂ hcheck
      rw [hp₁] at hlives₁ ⊢
      rw [hp₂] at hlives₂ ⊢
      rw [Command.setup_eq hc] at hs₁
      have hwrites := c₂.writes_setup
      have hgrows₁ := hwrites.1.of_ok hs₁
      have hgrows₂ := hwrites.1.of_ok hs₂
      have hemitter := (hprepared.mono hgrows₁ hgrows₂).runs (fun i => Command.isString_of_mem)
        (hwrites.2 _ _ _ hs₁ _ (.refl _)) (hwrites.2 _ _ _ hs₂ _ (.refl _))
      refine .ok ?_ (h.edited h₁ h₂ rfl rfl hgrows₁ hgrows₂
        ⟨ht.declaration, hemitter, hblocks, ?_⟩ hlives₁ hlives₂)
      · rw [← c₁.result?_canonical, hc, c₂.result?_canonical]
      · rw [(MethodDef.state_of_ensureOpen ho₁).1, (MethodDef.state_of_ensureOpen ho₂).1]
        exact .open
  · obtain ⟨n₁, -, hp₁⟩ := perform_of_resolve_error h₁ ho₁ hr₁
    obtain ⟨n₂, -, hp₂⟩ := perform_of_resolve_error h₂ ho₂ hr₂
    rw [hp₁] at hlives₁ ⊢
    rw [hp₂] at hlives₂ ⊢
    exact .error (h.edited h₁ h₂ rfl rfl (.refl _) (.refl _) { ht with state := .aborted } hlives₁
      hlives₂)

end Edit

namespace BuildM

open Draft

variable {m : Nat} {d₁ d₂ : Draft}

theorem lockstep_of_edit {α β : Type} {x : BuildM α} {y : BuildM β} {g : α → Option Variable}
    {g' : β → Option Variable} (e₁ e₂ : Edit) (h₁ : e₁.perform m = g <$> x)
    (h₂ : e₂.perform m = g' <$> y) (he : e₁.canonical = e₂.canonical)
    (hlocal : ∀ name ty, e₁ ≠ .createLocal name ty) :
    Lockstep (fun a b => (g a).map Variable.canonical = (g' b).map Variable.canonical) (Twins m)
      x y := by
  intro d₁ d₂ h
  have hmatches := Edit.twins_perform h he fun name ty _ _ heq => absurd heq (hlocal name ty)
  rw [h₁, h₂] at hmatches
  obtain ⟨r, r', s, s', hs, hs', hr, hS⟩ | ⟨err, err', s, s', hs, hs', hS⟩ := hmatches.elim
  · obtain ⟨a, ha, rfl⟩ := map_eq_ok.mp hs
    obtain ⟨b, hb, rfl⟩ := map_eq_ok.mp hs'
    rw [ha, hb]
    exact .ok hr hS
  · rw [map_eq_error.mp hs, map_eq_error.mp hs']
    exact .error hS

theorem twins_bump (op : Arithmetic) {target₁ target₂ : Variable}
    (ht : target₁.canonical = target₂.canonical) :
    Lockstep (fun v w => v.canonical = w.canonical) (Twins m) (bump m op target₁)
      (bump m op target₂) := by
  have hnext : Lockstep
      (fun v w => (some v).map Variable.canonical = (some w).map Variable.canonical) (Twins m)
      (arithmetic m op target₁ (.constant (.i32 1)))
      (arithmetic m op target₂ (.constant (.i32 1))) := by
    refine lockstep_of_edit (.arithmetic op target₁ (.constant (.i32 1)))
      (.arithmetic op target₂ (.constant (.i32 1))) rfl rfl ?_ fun _ _ h => by cases h
    rw [Edit.canonical, Edit.canonical, ht]
  refine hnext.bind fun v w hvw => ?_
  have hvw : v.canonical = w.canonical := Option.some.inj hvw
  have hassign := lockstep_of_edit (m := m) (.assign target₁ v) (.assign target₂ w) rfl rfl
    (by rw [Edit.canonical, Edit.canonical, ht, hvw]) fun _ _ h => by cases h
  exact hassign.bind fun _ _ _ => .pure hvw

theorem twins_callNamed {receiver₁ receiver₂ : Variable} {args₁ args₂ : List Variable}
    (hreceiver : receiver₁.canonical = receiver₂.canonical) (name : String)
    (hargs : args₁.map Variable.canonical = args₂.map Variable.canonical) :
    Lockstep (fun r r' => r.map Variable.canonical = r'.map Variable.canonical) (Twins m)
      (callNamed m receiver₁ name args₁) (callNamed m receiver₂ name args₂) := by
  rw [callNamed_eq, callNamed_eq]
  refine Lockstep.bind (R := Eq) (fun d₁ d₂ h => ?_) fun method _ hmethod => ?_
  · refine twins_of_open h (recording_of_refuses _) (recording_of_refuses _)
      fun t₁ t₂ h₁ h₂ ht ho₁ ho₂ => ?_
    rw [recording_eq h₁ ho₁, recording_eq h₂ ho₂, reading, reading, get_bind, get_bind]
    obtain ⟨found, _, hf₁, hf₂, rfl⟩ | ⟨err₁, err₂, hf₁, hf₂⟩ :=
      (Draft.concur_methodNamed h.bare hreceiver hargs name).elim
    · rw [hf₁, hf₂]
      exact .ok rfl h
    · rw [hf₁, hf₂]
      exact .error (h.aborted h₁ h₂ ht ho₁ ho₂)
  · cases hmethod
    refine lockstep_of_edit (.call method (some receiver₁) args₁)
      (.call method (some receiver₂) args₂) (id_map _).symm (id_map _).symm ?_
      fun _ _ h => by cases h
    rw [Edit.canonical, Edit.canonical, Option.map_some, Option.map_some, hreceiver, hargs]

theorem twins_reading {α β : Type} {R : α → β → Prop} {f₁ : Draft → Except BuildError α}
    {f₂ : Draft → Except BuildError β}
    (hf : ∀ d₁ d₂, Twins m d₁ d₂ → Concur R (f₁ d₁) (f₂ d₂)) :
    Lockstep R (Twins m) (reading f₁) (reading f₂) := by
  intro d₁ d₂ h
  rw [reading, reading, get_bind, get_bind]
  obtain ⟨a, b, h₁, h₂, hab⟩ | ⟨err₁, err₂, h₁, h₂⟩ := (hf d₁ d₂ h).elim
  · rw [h₁, h₂]
    exact .ok hab h
  · rw [h₁, h₂]
    exact .error h

theorem finalize_of_found {d : Draft} {t : MethodDef} (hfound : d.methods[m]? = some t) :
    (t.state = .aborted → ∃ e, finalize m d = .error e d) ∧
      (∀ body, t.state = .finished body → finalize m d = .ok () d) ∧
      (t.state = .open → t.blocks ≠ [] → ∃ e, finalize m d = .error e d) := by
  rw [finalize, bind_of_ok (reading_eq_ok.mpr ⟨method_eq_ok.mpr hfound, rfl⟩)]
  refine ⟨fun hs => ?_, fun body hs => ?_, fun hs hb => ?_⟩
  · rw [hs]
    exact ⟨_, rfl⟩
  · rw [hs]
    rfl
  · obtain ⟨b, blocks, hblocks⟩ := List.exists_cons_of_ne_nil hb
    rw [hs, hblocks]
    exact ⟨_, rfl⟩

theorem finalize_of_none {d : Draft} (h : d.methods[m]? = none) :
    ∃ e, finalize m d = .error e d := by
  have hread : reading (·.method m) d = .error (.unknownMember .method (handleText m)) d := by
    simp only [reading, get_bind, Draft.method, Draft.find, h]
    rfl
  exact ⟨_, bind_of_error hread⟩

theorem twins_finalize : Lockstep Eq (Twins m) (finalize m) (finalize m) := by
  intro d₁ d₂ h
  have herror {x y : EStateM.Result BuildError Draft Unit} (hx : ∃ e, x = .error e d₁)
      (hy : ∃ e, y = .error e d₂) : Matches Eq (Twins m) x y := by
    obtain ⟨e, rfl⟩ := hx
    obtain ⟨e', rfl⟩ := hy
    exact .error h
  obtain ⟨h₁, h₂⟩ | ⟨t₁, t₂, h₁, h₂, ht⟩ := h.cases
  · exact herror (finalize_of_none h₁) (finalize_of_none h₂)
  · obtain ⟨habort₁, hdone₁, hblock₁⟩ := finalize_of_found h₁
    obtain ⟨habort₂, hdone₂, hblock₂⟩ := finalize_of_found h₂
    obtain ⟨hs₁, hs₂⟩ | ⟨hs₁, hs₂⟩ | ⟨hs₁, hs₂⟩ := ht.state.elim
    · by_cases hblocks : t₁.blocks = []
      · have hblocks₂ : t₂.blocks = [] := by rw [← ht.blocks, hblocks]
        have hlives₁ := lives_finalize m d₁ h.lives₁
        have hlives₂ := lives_finalize m d₂ h.lives₂
        have hw₁ := (h.lives₁ _ (.refl _) m t₁ h₁).isWriting hs₁
        have hw₂ := (h.lives₂ _ (.refl _) m t₂ h₂).isWriting hs₂
        rw [finalize_of_open h₁ hs₁ hblocks (hw₁.history.finalize_eq hblocks)] at hlives₁ ⊢
        rw [finalize_of_open h₂ hs₂ hblocks₂ (hw₂.history.finalize_eq hblocks₂)] at hlives₂ ⊢
        exact .ok rfl (h.edited h₁ h₂ rfl rfl (.refl _) (.refl _)
          ⟨ht.declaration, ht.complete, ht.blocks, .finished⟩ hlives₁ hlives₂)
      · exact herror (hblock₁ hs₁ hblocks) (hblock₂ hs₂ (by rwa [← ht.blocks]))
    · exact herror (habort₁ hs₁) (habort₂ hs₂)
    · rw [hdone₁ _ hs₁, hdone₂ _ hs₂]
      exact .ok rfl h

end BuildM

def Operation.builder? : Operation → Option Nat
  | .look m _ | .edit m _ | .bump m _ _ | .callNamed m _ _ _ | .finalize m => some m
  | _ => none

namespace Operation

open Draft BuildM

variable {m : Nat} {d₁ d₂ : Draft} {op₁ op₂ : Operation}

theorem touches_perform {op : Operation} (h : op.builder? = some m) :
    Leads (Touches m) op.perform := by
  cases op with
  | look m' l => exact Leads.map (.of_state (final_reading _)) _
  | edit m' e =>
    cases h
    exact (touches_edit m e).map _
  | bump m' op target =>
    cases h
    exact (touches_bump m op target).map _
  | callNamed m' receiver name args =>
    cases h
    exact (touches_callNamed m receiver name args).map _
  | finalize m' =>
    cases h
    exact (leads_finalize m).map _
  | _ => cases h

theorem lives_of_builder {op : Operation} (h : op.builder? = some m) :
    Leads KeepsLives op.perform := by
  refine lives_perform ?_
  cases op <;> first | rfl | cases h

theorem twins_left {op : Operation} {i : Nat} (h : Twins m d₁ d₂) (hi : m ≠ i)
    (hop : op.builder? = some i) : Twins m (final (op.perform d₁)) d₂ := by
  have ht := touches_perform hop d₁
  refine ⟨Eq.trans ht.sameDefinitions h.bare, fun t hfound => ?_, lives_of_builder hop d₁ h.lives₁,
    h.lives₂⟩
  rw [ht.others m hi] at hfound
  obtain ⟨t₂, h₂, halike⟩ := h.method t hfound
  exact ⟨t₂, h₂, halike.mono ht.grows (.refl _)⟩

theorem twins_right {op : Operation} {i : Nat} (h : Twins m d₁ d₂) (hi : m ≠ i)
    (hop : op.builder? = some i) : Twins m d₁ (final (op.perform d₂)) := by
  have ht := touches_perform hop d₂
  refine ⟨h.bare.trans (Eq.symm ht.sameDefinitions), fun t hfound => ?_, h.lives₁,
    lives_of_builder hop d₂ h.lives₂⟩
  obtain ⟨t₂, h₂, halike⟩ := h.method t hfound
  exact ⟨t₂, (ht.others m hi).trans h₂, halike.mono (.refl _) ht.grows⟩

def outline (given : List (Nat × Variable)) : List (Nat × Variable) :=
  given.map fun x => (x.1, x.2.canonical)

theorem twins_perform (h : Twins m d₁ d₂) (hm : op₁.builder? = some m)
    (hop : op₁.canonical = op₂.canonical)
    (hname : ∀ name ty t₁ t₂, op₁ = .edit m (.createLocal name ty) → d₁.methods[m]? = some t₁ →
      d₂.methods[m]? = some t₂ → t₁.declares name = t₂.declares name) :
    Matches (fun given given' => outline given = outline given') (Twins m) (op₁.perform d₁)
      (op₂.perform d₂) := by
  have hone (v w : Variable) (hvw : v.canonical = w.canonical) :
      outline [(m, v)] = outline [(m, w)] := by
    simp only [outline, List.map_cons, List.map_nil, hvw]
  have hany (r r' : Option Variable)
      (hr : r.map Variable.canonical = r'.map Variable.canonical) :
      outline (r.toList.map (m, ·)) = outline (r'.toList.map (m, ·)) := by
    have houtline (r : Option Variable) :
        outline (r.toList.map (m, ·)) = (r.map Variable.canonical).toList.map (m, ·) := by
      cases r <;> rfl
    rw [houtline, houtline, hr]
  cases op₁ with
  | look m' l₁ =>
    cases hm
    cases op₂ with
    | look m' l₂ =>
      obtain ⟨rfl, hl⟩ := Operation.look.inj hop
      exact (twins_reading (fun d₁ d₂ h => Lookup.concur h.bare m hl) d₁ d₂ h).map hone
    | _ => cases hop
  | edit m' e₁ =>
    cases hm
    cases op₂ with
    | edit m' e₂ =>
      obtain ⟨rfl, he⟩ := Operation.edit.inj hop
      refine (Edit.twins_perform h he fun name ty t₁ t₂ heq => ?_).map hany
      exact hname name ty t₁ t₂ (congrArg _ heq)
    | _ => cases hop
  | bump m' op target₁ =>
    cases hm
    cases op₂ with
    | bump m' op' target₂ =>
      obtain ⟨rfl, rfl, ht⟩ := Operation.bump.inj hop
      exact (twins_bump op ht d₁ d₂ h).map hone
    | _ => cases hop
  | callNamed m' receiver₁ name args₁ =>
    cases hm
    cases op₂ with
    | callNamed m' receiver₂ name' args₂ =>
      obtain ⟨rfl, hreceiver, rfl, hargs⟩ := Operation.callNamed.inj hop
      exact (twins_callNamed hreceiver name hargs d₁ d₂ h).map hany
    | _ => cases hop
  | finalize m' =>
    cases hm
    cases op₂ with
    | finalize m' =>
      cases hop
      exact (twins_finalize d₁ d₂ h).map fun _ _ _ => rfl
    | _ => cases hop
  | _ => cases hm

end Operation

end Bytesmith.Build
