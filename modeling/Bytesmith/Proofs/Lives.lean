import Bytesmith.Proofs.Backing

namespace Bytesmith.Build

open Code Outcome BuildM

/-- A body that is being written, in a draft that has named so many temporaries. It has a history,
and each slot was named when its command was taken. -/
inductive Writing (q : Pool) (m : Nat) : Nat → MethodDef → Prop
  | start {params : List Parameter} (owner : Nat) (name : String) (attrs : MethodAttributes)
      (returnType : StaticType) (isConstructor : Bool) (n : Nat)
      (hparams : Draft.checkParams params = .ok ()) :
      Writing q m n (.start owner name attrs returnType params isConstructor)
  | take {n n' : Nat} {t t' : MethodDef} {c : Command} (h : Writing q m n t)
      (ht : Takes q m c t t') (hnames : c.Names t n n') : Writing q m n' t'
  | later {n n' : Nat} {t : MethodDef} (h : Writing q m n t) (hn : n ≤ n') : Writing q m n' t

/-- What can become of a body: it is still written, an operation on it was refused before or after
it had made a slot, it is finished, or it was generated. -/
inductive Life (q : Pool) (m n : Nat) : MethodDef → Prop
  | writing {t : MethodDef} (h : Writing q m n t) : Life q m n t
  | refused {t : MethodDef} (h : Writing q m n t) : Life q m n { t with state := .aborted }
  | failed {k k' : Nat} {t : MethodDef} {c : Command} {e : BuildError} (h : Writing q m k t)
      (hcheck : c.check = .error e) (hnames : c.Names t k k') (hn : k' ≤ n) :
      Life q m n { t with emitter := c.prepare t.emitter, state := .aborted }
  | finished {t : MethodDef} (h : Writing q m n t) (hblocks : t.blocks = []) :
      Life q m n { t with
        emitter := { t.complete with isFinished := true }
        state := .finished t.complete.body }
  | generated {params : List Parameter} (owner : Nat) (name : String) (attrs : MethodAttributes)
      (returnType : StaticType) (isConstructor : Bool) {code : List (Instr Label)}
      (hparams : Draft.checkParams params = .ok ()) (hcode : ∀ i ∈ code, i.isString = false) :
      Life q m n ((MethodDef.start owner name attrs returnType params isConstructor).generate code)

variable {q : Pool} {m n n' : Nat} {t : MethodDef}

theorem Writing.history (h : Writing q m n t) : History q m t := by
  induction h with
  | start => exact .start ..
  | take _ ht _ ih => exact ih.take ht
  | later _ _ ih => exact ih

namespace Life

theorem later (h : Life q m n t) (hn : n ≤ n') : Life q m n' t := by
  cases h with
  | writing h => exact .writing (h.later hn)
  | refused h => exact .refused (h.later hn)
  | failed h hcheck hnames hle => exact .failed h hcheck hnames (Nat.le_trans hle hn)
  | finished h hblocks => exact .finished (h.later hn) hblocks
  | generated owner name attrs returnType isConstructor hparams hcode =>
    exact .generated owner name attrs returnType isConstructor hparams hcode

theorem isWriting (h : Life q m n t) (hopen : t.state = .open) : Writing q m n t := by
  cases h with
  | writing h => exact h
  | refused | failed | finished | generated => cases hopen

end Life

namespace Draft

def Lives (d : Draft) : Prop :=
  ∀ q : Pool, q.Extends d.constants → ∀ (m : Nat) (t : MethodDef), d.methods[m]? = some t →
    Life q m d.nameCount t

variable {d d' : Draft}

namespace Lives

theorem of_eq (h : d.Lives) (hmethods : d'.methods = d.methods)
    (hconstants : d'.constants = d.constants) (hcount : d'.nameCount = d.nameCount) :
    d'.Lives := by
  intro q hq m t ht
  rw [hconstants] at hq
  rw [hmethods] at ht
  rw [hcount]
  exact h q hq m t ht

theorem start {params : List Parameter} (h : d.Lives) (owner : Nat) (name : String)
    (attrs : MethodAttributes) (returnType : StaticType) (isConstructor : Bool)
    (hparams : checkParams params = .ok ()) :
    (d.addMethod (.start owner name attrs returnType params isConstructor)).Lives := by
  intro q hq i t ht
  obtain ht | ⟨-, rfl⟩ := getElem?_push_cases ht
  · exact h q hq i t ht
  · exact .writing (.start owner name attrs returnType isConstructor _ hparams)

theorem edited {k : Pool} (h : d.Lives) (hk : k.Extends d.constants) (hn : d.nameCount ≤ n)
    (ht : ∀ q : Pool, q.Extends k → Life q m n t) : (d.edited m t k n).Lives := by
  intro q hq i t' ht'
  obtain ⟨rfl, rfl⟩ | ⟨-, hold⟩ := edited_cases ht'
  · exact ht q hq
  · exact (h q (hq.trans hk) i t' hold).later hn

theorem aborted (h : d.Lives) (hfound : d.methods[m]? = some t) (hopen : t.ensureOpen = .ok ()) :
    (d.modifyMethod m ({ · with state := .aborted })).Lives := by
  rw [modifyMethod_of_found hfound]
  exact h.edited (.refl _) (Nat.le_refl _) fun q hq =>
    .refused ((h q hq m t hfound).isWriting (MethodDef.state_of_ensureOpen hopen).1)

end Lives

abbrev KeepsLives : Draft → Draft → Prop := Preserves Lives

end Draft

namespace BuildM

open Draft

variable {d : Draft}

theorem final_edit_cases (m : Nat) (e : Edit) (d : Draft) :
    final (e.perform m d) = d ∨ ∃ t, d.methods[m]? = some t ∧ t.ensureOpen = .ok () := by
  cases h : e.perform m d with
  | ok r d' =>
    obtain ⟨t, t', c, hedited, -⟩ := Edit.perform_done h
    exact .inr ⟨t, hedited.found, (hedited.takes _ (.refl _)).isOpen⟩
  | error err d' =>
    obtain heq | ⟨-, t, hfound, hopen, -⟩ := e.fails_perform d err d' h
    · exact .inl heq
    · exact .inr ⟨t, hfound, hopen⟩

theorem lives_edit (m : Nat) (e : Edit) : Leads KeepsLives (e.perform m) := by
  intro d hd
  obtain hsame | ⟨t, hfound, hopen⟩ := final_edit_cases m e d
  · rw [hsame]
    exact hd
  have hwriting (q : Pool) (hq : q.Extends d.constants) : Writing q m d.nameCount t :=
    (hd q hq m t hfound).isWriting (MethodDef.state_of_ensureOpen hopen).1
  obtain ⟨err, n, -, hle, hn⟩ | ⟨c, blocks, n, hresolve, hnames, ⟨err, hcheck, hn⟩ |
    ⟨hcheck, o, hsetup, hn⟩⟩ := e.perform_cases (hwriting _ (.refl _)).history hfound hopen
  · rw [hn]
    exact hd.edited (.refl _) hle fun q hq => .refused ((hwriting q hq).later hle)
  · rw [hn]
    exact hd.edited (.refl _) hnames.le fun q hq =>
      .failed (hwriting q hq) hcheck hnames (Nat.le_refl n)
  · obtain ⟨hstands, hfresh, hnests⟩ := Edit.resolve_eq_ok hresolve
    have hwrites := c.writes_setup
    have hgrows := hwrites.1.of_ok hsetup
    rw [hn]
    refine hd.edited hgrows hnames.le fun q hq => ?_
    exact .writing ((hwriting q (hq.trans hgrows)).take ⟨hopen, hcheck,
      (Command.emittable_of_stands hstands).1, hfresh, hnests, hwrites.2 _ _ _ hsetup q hq, rfl⟩
        hnames)

theorem lives_callNamed (m : Nat) (receiver : Variable) (name : String) (args : List Variable) :
    Leads KeepsLives (callNamed m receiver name args) := by
  refine leads_callNamed (lives_edit m) fun d e d' h hd => ?_
  obtain rfl | ⟨t, hfound, hopen, s, hread, rfl⟩ := recording_eq_error h
  · exact hd
  · obtain rfl : d = s := ofExcept_eq_error hread
    exact hd.aborted hfound hopen

theorem lives_finalize (m : Nat) : Leads KeepsLives (finalize m) := by
  intro d hd
  by_cases h : ∃ t, d.methods[m]? = some t ∧ t.state = .open ∧ t.blocks = []
  · obtain ⟨t, hfound, hstate, hblocks⟩ := h
    have hwriting (q : Pool) (hq : q.Extends d.constants) : Writing q m d.nameCount t :=
      (hd q hq m t hfound).isWriting hstate
    have hf := (hwriting _ (.refl _)).history.finalize_eq hblocks
    rw [finalize_of_open hfound hstate hblocks hf]
    exact hd.edited (.refl _) (Nat.le_refl _) fun q hq => .finished (hwriting q hq) hblocks
  · rw [final_finalize_of_not h]
    exact hd

theorem lives_defineMethod (type : Nat) (name : String) (attrs : MethodAttributes)
    (returnType : StaticType) (params : List Parameter) :
    Leads KeepsLives (defineMethod type name attrs returnType params) := by
  intro d
  rw [defineMethod, get_bind]
  refine related_check fun attrs' hcheck hd => ?_
  obtain ⟨-, hparams, -⟩ := checkMethod_eq_ok hcheck
  exact (hd.start type name attrs' returnType false hparams).of_eq rfl rfl rfl

theorem lives_defineConstructor (type : Nat) (attrs : MethodAttributes)
    (params : List Parameter) : Leads KeepsLives (defineConstructor type attrs params) := by
  intro d
  rw [defineConstructor, get_bind]
  refine related_check fun _ hcheck hd => ?_
  obtain ⟨t, -, hcheck⟩ := except_bind_eq_ok.mp hcheck
  obtain ⟨-, hcheck⟩ := except_guard_eq_ok.mp hcheck
  obtain ⟨-, hcheck⟩ := except_guard_eq_ok.mp hcheck
  obtain ⟨_, hparams, -⟩ := except_bind_eq_ok.mp hcheck
  exact (hd.start type constructorName attrs .void true hparams).of_eq rfl rfl rfl

theorem lives_createType (id : Nat) : Leads KeepsLives (createType id) :=
  leads_createType lives_finalize (fun _ _ _ hd => hd.of_eq rfl rfl rfl) id

theorem lives_assemble : Leads KeepsLives assemble :=
  leads_assemble (fun _ hd => hd.of_eq rfl rfl rfl) lives_createType

end BuildM

open Draft

theorem Draft.Lives.withProperty {d : Draft} (h : d.Lives) (type : Nat) (name : String)
    {ty : StaticType} (hty : ty.isStorable = true) : (d.withProperty type name ty).Lives := by
  intro q hq i t ht
  rw [Draft.withProperty, extend, modifyType, Array.getElem?_append] at ht
  split at ht
  · exact h q hq i t ht
  · obtain ht | ht : t = .backedGetter type d.fields.size name ty ∨
        t = .backedSetter type d.fields.size name ty := by
      exact List.mem_pair.mp (List.mem_of_getElem? (List.getElem?_toArray ▸ ht))
    · rw [ht]
      exact .generated _ _ _ _ _ rfl (by simp [Instr.isString])
    · rw [ht]
      exact .generated _ _ _ _ _ (checkParams_value hty) (by simp [Instr.isString])

theorem Operation.lives_perform {op : Operation} (hop : op.isAutoProperty = false) :
    Leads KeepsLives op.perform := by
  cases op with
  | defineType | defineEnum | setEntryPoint | defineField | defineProperty =>
    refine Leads.map (leads_checked fun _ _ hd => ?_) _
    exact hd.of_eq rfl rfl rfl
  | defineEnumMember enum name value =>
    refine Leads.map (leads_checked fun _ _ => related_check fun _ _ hd => ?_) _
    exact hd.of_eq rfl rfl rfl
  | defineMethod type name attrs returnType params =>
    exact (lives_defineMethod type name attrs returnType params).map _
  | defineConstructor type attrs params =>
    exact (lives_defineConstructor type attrs params).map _
  | defineDefaultConstructor type attrs =>
    exact (leads_defineDefaultConstructor (lives_defineConstructor type attrs []) lives_edit).map _
  | defineAutoProperty type name ty => cases hop
  | look m l => exact Leads.map (.of_state (final_reading _)) _
  | edit m e => exact (lives_edit m e).map _
  | bump m op target => exact (leads_bump (lives_edit m) op target).map _
  | callNamed m receiver name args => exact (lives_callNamed m receiver name args).map _
  | finalize m => exact (lives_finalize m).map _
  | createType id => exact (lives_createType id).map _

variable {p : Project} {issued : List (Nat × Variable)}

theorem Session.lives_perform (h : Session Anything p issued) (hp : p.draft.Lives)
    (op : Operation) : (final (op.perform p.draft)).Lives := by
  cases hop : op.isAutoProperty with
  | false => exact Operation.lives_perform hop p.draft hp
  | true =>
    obtain ⟨issued', hc, -⟩ := h.course
    cases op with
    | defineAutoProperty type name ty =>
      rw [Operation.perform, final_map]
      obtain ⟨e, he⟩ | ⟨id, d', -, hd⟩ := defineAutoProperty_cases type name ty p.draft
      · rw [he]
        exact hp
      · obtain ⟨⟨t, -, hadmits⟩, -, rfl⟩ := (defineAutoProperty_eq_ok_iff hc.listed).mp hd
        rw [hd]
        exact hp.withProperty type name hadmits.storable
    | _ => cases hop

theorem Session.lives (h : Session Anything p issued) : p.draft.Lives := by
  induction h with
  | start name options disk => exact fun _ _ _ _ ht => by cases ht
  | done h op _ hop ih | failed h op _ hop ih =>
    have hlives := h.lives_perform ih op
    rwa [hop] at hlives
  | @created p _ _ _ _ hcreate ih | @uncreated p _ _ _ _ hcreate ih =>
    have hlives := ProjectM.leads_create lives_assemble (fun _ _ hd => hd.of_eq rfl rfl rfl) p ih
    rwa [hcreate] at hlives

end Bytesmith.Build
