import Bytesmith.Proofs.Boundaries
import Bytesmith.Proofs.Isolation
import Bytesmith.Proofs.TypeSafety

namespace Bytesmith.Machine

open Code Bytesmith.Outcome

variable {m : Module} {x : Frame} {id : UInt32} {argc : UInt16} {f : Function} {ref : Nat}

theorem exec_call_of_abstract {s : Store} {x₁ x₂ : Frame} {args : List Value}
    (hf : m.function? id = some f)
    (habstract : f.isAbstract = true) (hargs : x.popArgs argc.toNat = .ok (args, x₁))
    (hpop : x₁.pop = .ok (.object ref, x₂)) :
    exec m s x (.call .method id argc) =
      match m.implementation? (s.object ref).classId f.name argc.toNat with
      | some resolved => .ok (.call resolved (.object ref :: args) x₂
          (if f.returnsValue then .push else .discard))
      | none => .error (.unknown .implementation f.name) := by
  change callEffect m s .method id argc.toNat x = _
  rw [callEffect, function_eq_ok.mpr hf]
  simp only [hargs, hpop, receiverClass, habstract, bind, Except.bind, if_true, pure, Except.pure]
  cases m.implementation? (s.object ref).classId f.name argc.toNat <;> rfl

/-- A call of an abstract function goes to the implementation for the class of the receiver, which
is on the stack below the arguments. -/
theorem callee?_of_abstract {k : Configuration}
    (hfetch : k.frame.fetch = .ok (.call .method id argc, x)) (hf : m.function? id = some f)
    (habstract : f.isAbstract = true)
    (hreceiver : k.frame.stack[argc.toNat]? = some (.object ref)) :
    callee? m k = m.implementation? (k.store.object ref).classId f.name argc.toNat := by
  have hstack := Frame.stack_fetch hfetch
  obtain ⟨hlt, hvalue⟩ := List.getElem?_eq_some_iff.mp hreceiver
  have hargs : x.popArgs argc.toNat = .ok ((x.stack.take argc.toNat).reverse,
      { x with stack := x.stack.drop argc.toNat }) := by
    rw [Frame.popArgs, if_neg (by rw [hstack]; omega)]
  have hpop : Frame.pop { x with stack := x.stack.drop argc.toNat } =
      .ok (.object ref, { x with stack := k.frame.stack.drop (argc.toNat + 1) }) := by
    rw [hstack, List.drop_eq_getElem_cons hlt, hvalue]
    rfl
  unfold callee?
  rw [isAtEnd_of_fetch hfetch, if_neg Bool.false_ne_true, Frame.effect_of_fetch hfetch,
    exec_call_of_abstract hf habstract hargs hpop]
  cases m.implementation? (k.store.object ref).classId f.name argc.toNat <;> rfl

end Bytesmith.Machine

namespace Bytesmith.Build

open Code Bytesmith.Outcome Machine

def MethodDef.hasSignature (name : String) (types : List StaticType) (e : MethodDef) : Bool :=
  e.name == name && e.paramTypes == types

theorem MethodDef.isCalled_of_hasSignature {t e : MethodDef}
    (h : e.hasSignature t.name t.paramTypes = true) :
    e.isCalled t.name t.params.length = true := by
  rw [hasSignature, Bool.and_eq_true, beq_iff_eq, beq_iff_eq] at h
  rw [isCalled, Bool.and_eq_true, beq_iff_eq, beq_iff_eq]
  refine ⟨h.1, ?_⟩
  have hlength := congrArg List.length h.2
  rwa [paramTypes, paramTypes, List.length_map, List.length_map] at hlength

namespace Draft

variable {d : Draft} {type : Nat} {accepts accepts' : MethodDef → Bool}

theorem implementation?_of_imp (himp : ∀ e, accepts e = true → accepts' e = true) {r : Nat}
    {e : MethodDef} (h : d.implementation? type accepts' = some r) (he : d.methods[r]? = some e)
    (haccepts : accepts e = true) : d.implementation? type accepts = some r := by
  obtain ⟨-, e', he', hstatic, habstract, -⟩ := implementation?_eq_some h
  cases he.symm.trans he'
  obtain ⟨-, before, after, hsplit, hbefore⟩ := List.find?_eq_some_iff_append.mp h
  refine List.find?_eq_some_iff_append.mpr ⟨?_, before, after, hsplit, fun k hk => ?_⟩
  · rw [he]
    simp [hstatic, habstract, haccepts]
  · -- a method before it that is accepted would have been accepted before
    have hrefused := hbefore k hk
    cases hmethod : d.methods[k]? with
    | none => rfl
    | some e' =>
      rw [hmethod] at hrefused
      simp only [Option.any_some, Bool.not_eq_true', Bool.and_eq_false_iff] at hrefused ⊢
      refine hrefused.imp id fun hnot => ?_
      exact Bool.eq_false_iff.mpr fun hyes => Bool.eq_false_iff.mp hnot (himp e' hyes)

theorem exists_implementation?_of_imp (himp : ∀ e, accepts e = true → accepts' e = true) {r : Nat}
    (h : d.implementation? type accepts = some r) :
    ∃ r', d.implementation? type accepts' = some r' := by
  obtain ⟨hr, e, he, hstatic, habstract, haccepts⟩ := implementation?_eq_some h
  refine Option.isSome_iff_exists.mp (List.find?_isSome.mpr ⟨r, hr, ?_⟩)
  rw [he]
  simp [hstatic, habstract, himp e haccepts]

theorem implementation?_overload {t : MethodDef} {r : Nat}
    (h : d.implementation? type (MethodDef.hasSignature t.name t.paramTypes) = some r) :
    ∃ r' e, d.implementation? type (MethodDef.isCalled t.name t.params.length) = some r' ∧
      d.methods[r']? = some e ∧ (e.paramTypes = t.paramTypes ↔ r' = r) := by
  obtain ⟨r', hr'⟩ :=
    exists_implementation?_of_imp (fun _ => MethodDef.isCalled_of_hasSignature) h
  obtain ⟨-, e, he, -, -, hcalled⟩ := implementation?_eq_some hr'
  refine ⟨r', e, hr', he, fun htypes => ?_, ?_⟩
  · have hsignature : e.hasSignature t.name t.paramTypes = true := by
      rw [MethodDef.isCalled, Bool.and_eq_true] at hcalled
      rw [MethodDef.hasSignature, Bool.and_eq_true]
      exact ⟨hcalled.1, beq_iff_eq.mpr htypes⟩
    have hsame :=
      implementation?_of_imp (fun _ => MethodDef.isCalled_of_hasSignature) hr' he hsignature
    exact Option.some.inj (hsame.symm.trans h)
  · rintro rfl
    obtain ⟨-, e', he', -, -, hsignature⟩ := implementation?_eq_some h
    cases he.symm.trans he'
    rw [MethodDef.hasSignature, Bool.and_eq_true] at hsignature
    exact beq_iff_eq.mp hsignature.2

end Draft

theorem Accessor.invoked?_eq {id : Nat} {f : FieldDef} {t : MethodDef} {code : List (Instr Label)}
    {i : Instr Label} (h : Accessor id f t code) (hi : i ∈ code) : i.invoked? = none := by
  cases h with
  | getter =>
    simp only [List.mem_cons, List.not_mem_nil, or_false] at hi
    obtain rfl | rfl | rfl := hi <;> rfl
  | setter =>
    simp only [List.mem_cons, List.not_mem_nil, or_false] at hi
    obtain rfl | rfl | rfl | rfl := hi <;> rfl

theorem Variable.mem_path (v : Variable) : v ∈ v.path := by
  cases v <;> exact .head _

/-- The property is read or assigned by a call of the method with so many arguments. -/
def Member.Invokes (member : Member) (id : UInt32) (argc : UInt16) : Prop :=
  (∃ g, member.getter? = some g ∧ g.toUInt32 = id ∧ argc = 0) ∨
    ∃ s, member.setter? = some s ∧ s.toUInt32 = id ∧ argc = 1

def Command.Invokes (c : Command) (id : UInt32) (argc : UInt16) : Prop :=
  (∃ target receiver args result, c = .call target receiver args result ∧
    target.method.toUInt32 = id ∧ args.length.toUInt16 = argc) ∨
  ∃ v ∈ c.places, ∃ w ∈ v.path, ∃ member, w.member? = some member ∧ member.Invokes id argc

theorem Command.invokes_of_put {c : Command} {i : Instr Label} {id : UInt32} {argc : UInt16}
    (h : .put i ∈ c.actions) (hi : i.invoked? = some (id, argc)) : c.Invokes id argc := by
  have hplain (i : Instr Label) (hp : i.isPlain = true) (id : UInt32) (argc : UInt16)
      (hi : i.invoked? = some (id, argc)) : c.Invokes id argc := by
    rw [(Instr.eq_none_of_isPlain hp).2.2.1] at hi
    cases hi
  refine puts_actions (P := fun i => ∀ id argc, i.invoked? = some (id, argc) → c.Invokes id argc)
    hplain (fun v hv => ?_) (fun v hv _ => ?_) (fun target receiver args result hc id argc hi => ?_)
    i h id argc hi
  · refine Variable.puts_loads hplain (fun _ _ _ _ => nofun)
      fun w hw member hm g hg id argc hi => ?_
    cases hi
    exact .inr ⟨v, hv, w, hw, member, hm, .inl ⟨g, hg, rfl, rfl⟩⟩
  · refine Variable.puts_saves (fun _ _ _ _ _ _ _ => nofun)
      (fun _ _ _ _ _ => ⟨fun _ _ => nofun, fun _ _ => nofun⟩) fun member hm s hs id argc hi => ?_
    cases hi
    exact .inr ⟨v, hv, v, v.mem_path, member, hm, .inr ⟨s, hs, rfl, rfl⟩⟩
  · refine .inl ⟨target, receiver, args, result, hc, ?_⟩
    cases hmode : target.mode with
    | method =>
      rw [hmode] at hi
      cases hi
      exact ⟨rfl, rfl⟩
    | static | constructor =>
      rw [hmode] at hi
      cases hi

namespace Draft

/-- The accessors of a member take as many arguments as an access passes. -/
def Accesses (d : Draft) (member : Member) : Prop :=
  (∀ g, member.getter? = some g → ∃ t, d.methods[g]? = some t ∧ t.params.length = 0) ∧
    ∀ s, member.setter? = some s → ∃ t, d.methods[s]? = some t ∧ t.params.length = 1

/-- A call passes as many arguments as its method takes. -/
def Passes (d : Draft) (c : Command) : Prop :=
  ∀ target receiver args result, c = .call target receiver args result →
    ∃ t, d.methods[target.method]? = some t ∧ t.params.length = args.length

variable {d d' : Draft} {member : Member} {c : Command}

theorem Grows.exists_params (hg : d.Grows d') {k n : Nat}
    (h : ∃ t, d.methods[k]? = some t ∧ t.params.length = n) :
    ∃ t, d'.methods[k]? = some t ∧ t.params.length = n := by
  obtain ⟨t, ht, hcount⟩ := h
  obtain ⟨t', ht', hgrows⟩ := hg.methods k t ht
  exact ⟨t', ht', by rw [(MethodDef.eq_of_declaration hgrows.declaration).2.2.2.1, hcount]⟩

theorem Accesses.grow (h : d.Accesses member) (hg : d.Grows d') : d'.Accesses member :=
  ⟨fun g hg' => hg.exists_params (h.1 g hg'), fun s hs => hg.exists_params (h.2 s hs)⟩

theorem Wired.accesses (h : d.Wired) {id : Nat} {p : PropertyDef}
    (hp : d.properties[id]? = some p) : d.Accesses (propertyMember id p) := by
  refine ⟨fun g hg => ?_, fun s hs => ?_⟩
  · obtain ⟨t, ht, -, -, hparams, -⟩ := (h.properties id p hp).getter g hg
    exact ⟨t, ht, by rw [hparams]; rfl⟩
  · obtain ⟨t, ht, -, -, -, value, hparams, -⟩ := (h.properties id p hp).setter s hs
    exact ⟨t, ht, by rw [hparams]; rfl⟩

theorem callTarget_params {k : Nat} {target : CallTarget} (h : d.callTarget k = .ok target) :
    ∃ t, d.methods[target.method]? = some t ∧ t.params.length = target.params.length := by
  obtain ⟨t, ht, h⟩ := except_bind_eq_ok.mp h
  obtain ⟨owner, -, h⟩ := except_bind_eq_ok.mp h
  cases h
  exact ⟨t, method_eq_ok.mp ht, (List.length_map _).symm⟩

end Draft

theorem Lookup.accesses {l : Lookup} {d : Draft} {m : Nat} {v : Variable} {member : Member}
    (hl : l.find d m = .ok v) (hw : d.Wired) (hm : v.member? = some member) :
    d.Accesses member := by
  have hfield {t : MethodDef} {id : Nat} {f : FieldDef} : d.Accesses (Draft.fieldMember t id f) :=
    ⟨fun _ => nofun, fun _ => nofun⟩
  cases finds hl with
  | this => cases hm
  | param index hparam =>
    obtain ⟨t, -, hparam⟩ := except_bind_eq_ok.mp hparam
    split at hparam
    · cases hparam
      cases hm
    · cases hparam
  | shared | field | fieldOf =>
    cases hm
    exact hfield
  | property _ _ _ hp | propertyOf _ _ _ hp =>
    cases hm
    exact hw.accesses hp

theorem Edit.Stands.passes {d : Draft} {m : Nat} {t : MethodDef} {c : Command} {e : Edit}
    (h : e.Stands d m t c) : d.Passes c := by
  intro target receiver args result hc
  have hpasses {k : Nat} {values : List Variable} (htarget : d.callTarget k = .ok target)
      (hbound : d.bindArguments m target values = .ok args) :
      ∃ t, d.methods[target.method]? = some t ∧ t.params.length = args.length := by
    obtain ⟨t, ht, hcount⟩ := Draft.callTarget_params htarget
    exact ⟨t, ht, by rw [hcount, (Draft.bindArguments_eq_ok hbound).1]⟩
  cases h with
  | callStatic htarget _ _ hbound | callInstance htarget _ _ _ _ _ hbound
  | callBase _ _ _ _ htarget hbound =>
    cases hc
    exact hpasses htarget hbound
  | _ => cases hc

/-- Members that were given out have accessors for what their accesses pass, and calls that were
recorded pass what their methods take. -/
theorem Course.arities {Allowed : List (Nat × Variable) → Nat → Variable → Prop} {d : Draft}
    {issued : List (Nat × Variable)} (h : Course Allowed d issued) :
    Upkeep (fun d _ _ v => ∀ member, v.member? = some member → d.Accesses member)
      (fun d _ _ _ c => d.Passes c) d issued := by
  refine h.upkeep (fun hon hv member hm => (hv member hm).grow hon.grows)
    (fun hon _ _ hc target receiver args result heq =>
      hon.grows.exists_params (hc target receiver args result heq))
    (fun l h _ _ hl member hm => Lookup.accesses hl h.wired hm) fun e h _ _ hs he => ?_
  refine ⟨fun v hv member hm => ?_, fun target receiver args result heq =>
    he.draft_grows.exists_params (hs.passes target receiver args result heq)⟩
  obtain ⟨-, name, ty, rfl⟩ := (he.takes _ (.refl _)).fresh.slot v hv
  cases hm

/-- The command accesses a property through the method, by a variable that was given out for no
method. -/
def Command.Forges (issued : List (Nat × Variable)) (c : Command) (id : UInt32) (argc : UInt16) :
    Prop :=
  ∃ v ∈ c.places, ∃ w ∈ v.path, ∃ member, w.member? = some member ∧ member.Invokes id argc ∧
    ∀ m, (m, w) ∉ issued

theorem Session.exists_invokes {p : Project} {issued : List (Nat × Variable)}
    (h : Session Anything p issued) {m : Module} (hm : p.draft.Frozen m)
    (hsizes : ∀ f ∈ m.functions, f.code.size < 2 ^ 31) {limit n : Nat} {store : Store}
    {id₀ id : UInt32} {args : List Value} {k : Configuration} {x : Frame} {argc : UInt16}
    (hrun : run m limit n (enter m limit store [] id₀ args) = .running k)
    (hfetch : k.frame.fetch = .ok (.call .method id argc, x)) :
    ∃ (j : Nat) (t : MethodDef), p.draft.methods[j]? = some t ∧
      t.toFunction = .ok k.frame.function ∧ ∃ c ∈ t.commands, c.command.Invokes id argc := by
  obtain ⟨j, hfunction, hconcrete⟩ := ((Machine.Invariant.belongs m).holds_reached hrun).frame
  obtain ⟨t, ht, hfound⟩ := hm.yields.method hfunction
  obtain ⟨body, hbody, hf⟩ := MethodDef.toFunction_eq_ok hfound
  obtain ⟨_, hc, -⟩ := h.course
  rw [(MethodDef.flags_of_toFunction hfound).1] at hconcrete
  obtain ⟨e, hclosed, rfl, hcode⟩ := (hc.settled ht (.refl _)).closed hconcrete hbody
  have hruns : k.frame.function.code = e.body.code ∧
      k.frame.function.handlers = e.body.handlers := by
    rw [hf]
    exact ⟨rfl, rfl⟩
  have hsize := hsizes _ (List.mem_of_getElem? (function_eq_ok.mp hfunction))
  rw [hruns.1, e.size_body] at hsize
  obtain ⟨i, hi⟩ := ((hclosed.invariant hsize m).holds_reached hrun).frame hruns.1 hruns.2
  rw [Emitter.fetch_assemble hruns.1 hi] at hfetch
  have hinvoked : i.invoked? = some (id, argc) := by
    have hsame := congrArg (fun r => r.toOption.bind fun r => r.1.invoked?) hfetch
    rwa [← Instr.invoked?_mapTarget]
  obtain ⟨t₀, code, hstems⟩ := h.stems ht
  have hmem : i ∈ t.emitter.code := hcode ▸ Array.mem_toList_iff.mp (mem_iff_instrAt.mpr ⟨_, hi⟩)
  obtain ⟨c, hmem, hput⟩ | ⟨_, _, -, haccessor, hmem⟩ :=
    hstems.mem_code hmem (Instr.isPlain_eq_false (by simp [hinvoked]))
  · exact ⟨_, t, ht, hfound, c, hmem, Command.invokes_of_put hput hinvoked⟩
  · rw [haccessor.invoked?_eq hmem] at hinvoked
    cases hinvoked

theorem Course.argc_of_invokes {Allowed : List (Nat × Variable) → Nat → Variable → Prop} {d : Draft}
    {issued : List (Nat × Variable)} (h : Course Allowed d issued) (hsize : d.methods.size ≤ 2 ^ 32)
    {j : Nat} {t t' : MethodDef} (ht : d.methods[j]? = some t) {c : Emitted} (hc : c ∈ t.commands)
    {id : UInt32} {argc : UInt16} (hi : c.command.Invokes id argc)
    (ht' : d.methods[id.toNat]? = some t') (hparams : t'.params.length < 65536) :
    argc.toNat = t'.params.length ∨ c.command.Forges issued id argc := by
  -- the index of a method is that in the instruction
  have hcount {k n : Nat} (hk : k.toUInt32 = id)
      (h : ∃ e, d.methods[k]? = some e ∧ e.params.length = n) : t'.params.length = n := by
    obtain ⟨e, he, hn⟩ := h
    have hindex : k.toUInt32.toNat = k :=
      Nat.mod_eq_of_lt (Nat.lt_of_lt_of_le (Draft.lt_size_of_found he) hsize)
    rw [← hk, hindex, he] at ht'
    cases ht'
    exact hn
  obtain ⟨target, receiver, args, result, hcall, hid, rfl⟩ |
    ⟨v, hv, w, hw, member, hm, hinvokes⟩ := hi
  · have hlength := hcount hid (h.arities.used j t ht c hc target receiver args result hcall)
    refine .inl ?_
    rw [hlength] at hparams ⊢
    exact UInt16.toNat_ofNat_of_lt' hparams
  · by_cases hgiven : ∃ m, (m, w) ∈ issued
    · obtain ⟨m, hmem⟩ := hgiven
      have haccesses := h.arities.given m w hmem member hm
      obtain ⟨g, hg, hid, rfl⟩ | ⟨s, hs, hid, rfl⟩ := hinvokes
      · exact .inl (hcount hid (haccesses.1 g hg)).symm
      · exact .inl (hcount hid (haccesses.2 s hs)).symm
    · exact .inr ⟨v, hv, w, hw, member, hm, hinvokes, fun m hmem => hgiven ⟨m, hmem⟩⟩

/-- A call of an abstract method runs the first concrete instance method of the receiver's type and
its bases that has the name and takes as many arguments as are passed: as many as the abstract
method takes, unless a property is accessed by a variable that no method has given out. It has the
same parameter types just if it is the first that has. -/
theorem Session.callee_of_create {p p' : Project} {issued : List (Nat × Variable)}
    (h : Session Anything p issued) {m : Module} (hcreate : ProjectM.create p = .ok m p')
    (hsizes : ∀ f ∈ m.functions, f.code.size < 2 ^ 31) (hfunctions : m.functions.length ≤ 2 ^ 32)
    (hclasses : m.classes.length ≤ 2 ^ 32) (hfields : m.fields.length ≤ 2 ^ 32)
    {limit n : Nat} {store : Store} {id₀ id : UInt32} {args : List Value} {k : Configuration}
    (hrun : run m limit n (enter m limit store [] id₀ args) = .running k) {x : Frame}
    {argc : UInt16} {t : MethodDef} {ref : Nat}
    (hfetch : k.frame.fetch = .ok (.call .method id argc, x))
    (ht : p'.draft.methods[id.toNat]? = some t) (habstract : t.attrs.isAbstract = true)
    (hparams : t.params.length < 65536)
    (hreceiver : k.frame.stack[argc.toNat]? = some (.object ref)) :
    callee? m k = (p'.draft.implementation? (k.store.object ref).classId.toNat
        (MethodDef.isCalled t.name argc.toNat)).map (·.toUInt32) ∧
      (argc.toNat = t.params.length ∨ ∃ e ∈ p'.draft.methods, e.toFunction = .ok k.frame.function ∧
        ∃ c ∈ e.commands, c.command.Forges issued id argc) ∧
      (argc.toNat = t.params.length → ∀ r, p'.draft.implementation?
          (k.store.object ref).classId.toNat (MethodDef.hasSignature t.name t.paramTypes) = some r →
        ∃ r' e, callee? m k = some r'.toUInt32 ∧ p'.draft.methods[r']? = some e ∧
          e.name = t.name ∧ e.params.length = t.params.length ∧
          (e.paramTypes = t.paramTypes ↔ r' = r)) := by
  have hcompiled := h.compiled hcreate hfunctions hclasses hfields
  obtain ⟨f, hf, hfunction⟩ := hcompiled.frozen.yields.function? hfunctions ht
  rw [show id.toNat.toUInt32 = id by simp] at hf
  have hcallee : callee? m k = (p'.draft.implementation? (k.store.object ref).classId.toNat
      (MethodDef.isCalled t.name argc.toNat)).map (·.toUInt32) := by
    rw [callee?_of_abstract hfetch hf ((MethodDef.flags_of_toFunction hfunction).1 ▸ habstract)
      hreceiver, (MethodDef.arity_of_toFunction hfunction).1]
    exact hcompiled.tables.implementation?_eq hcompiled.listed hcompiled.frozen.yields hfunctions
      _ _ _
  refine ⟨hcallee, ?_, fun hargc r hr => ?_⟩
  · obtain ⟨issued', hc, hsub⟩ := (h.created hcreate).course
    obtain ⟨j, e, he, hruns, c, hmem, hinvokes⟩ :=
      (h.created hcreate).exists_invokes hcompiled.frozen hsizes hrun hfetch
    refine (hc.argc_of_invokes hcompiled.size_methods he hmem hinvokes ht hparams).imp_right ?_
    rintro ⟨v, hv, w, hw, member, hm, hi, hnone⟩
    exact ⟨e, Array.mem_of_getElem? he, hruns, c, hmem, v, hv, w, hw, member, hm, hi,
      fun m hgiven => hnone m (hsub _ hgiven)⟩
  · obtain ⟨r', e, hr', he, hiff⟩ := Draft.implementation?_overload hr
    obtain ⟨-, e', he', -, -, hcalled⟩ := Draft.implementation?_eq_some hr'
    cases he.symm.trans he'
    rw [MethodDef.isCalled, Bool.and_eq_true, beq_iff_eq, beq_iff_eq] at hcalled
    refine ⟨r', e, ?_, he, hcalled.1, hcalled.2, hiff⟩
    rw [hcallee, hargc, hr']
    rfl

/-- A shape whose first overload takes another type than the method of its interface. -/
def measuring : List Operation := [
  .defineType "Shape" { isInterface := true } none [],
  .defineMethod 0 "scale" { isAbstract := true } .int [⟨"n", .int⟩],
  .defineType "Square" {} none [0],
  .defineMethod 1 "scale" {} .int [⟨"unit", .string⟩],
  .edit 1 (.ret (.constant (.i32 1))),
  .defineMethod 1 "scale" {} .int [⟨"n", .int⟩],
  .edit 2 (.ret (.constant (.i32 2))),
  .defineMethod 1 "main" { isStatic := true } .int [],
  .edit 3 (.newObject 1 []),
  .edit 3 (.call 0 (some (.slot 3 0 "__new1" (.class 1 "Square"))) [.constant (.i32 5)]),
  .edit 3 (.ret (.slot 3 1 "__call2" .int))]

/-- The configuration is about to call the abstract method of a square, and the first overload,
which takes another type, is what runs. -/
structure Measures (d : Draft) (m : Module) (t e : MethodDef) (k : Configuration) (x : Frame) :
    Prop where
  reached : run m 64 4 (enter m 64 .empty [] 3 []) = .running k
  fetches : k.frame.fetch = .ok (.call .method 0 1, x)
  target : d.methods[0]? = some t
  isAbstract : t.attrs.isAbstract = true
  count : t.params.length = 1
  receiver : k.frame.stack[1]? = some (.object 0)
  same : d.implementation? (k.store.object 0).classId.toNat
    (MethodDef.hasSignature t.name t.paramTypes) = some 2
  runs : callee? m k = some 1
  overload : d.methods[1]? = some e
  types : e.paramTypes ≠ t.paramTypes

def measured (m : Module) (p : Project) : Bool :=
  decide ((∀ f ∈ m.functions, f.code.size < 2 ^ 31) ∧ m.functions.length ≤ 2 ^ 32 ∧
    m.classes.length ≤ 2 ^ 32 ∧ m.fields.length ≤ 2 ^ 32) &&
  match run m 64 4 (enter m 64 .empty [] 3 []), p.draft.methods[0]?, p.draft.methods[1]? with
  | .running k, some t, some e => match k.frame.fetch with
    | .ok (i, _) => decide (i = .call .method 0 1 ∧ t.attrs.isAbstract = true ∧
        t.params.length = 1 ∧ k.frame.stack[1]? = some (.object 0) ∧
        p.draft.implementation? (k.store.object 0).classId.toNat
          (MethodDef.hasSignature t.name t.paramTypes) = some 2 ∧ callee? m k = some 1 ∧
        e.paramTypes ≠ t.paramTypes)
    | .error _ => false
  | _, _, _ => false

theorem Builds.measures_measuring :
    ∃ p issued m p' t e k x, Builds Anything "Shapes" measuring p issued ∧
      ProjectM.create p = .ok m p' ∧ (∀ f ∈ m.functions, f.code.size < 2 ^ 31) ∧
      m.functions.length ≤ 2 ^ 32 ∧ m.classes.length ≤ 2 ^ 32 ∧ m.fields.length ≤ 2 ^ 32 ∧
      Measures p'.draft m t e k x := by
  obtain ⟨p, issued, m, p', h, hcreate, hmeasured⟩ :=
    exists_created Anything "Shapes" measuring (fun _ => measured) (by decide +kernel)
  simp only [measured, Bool.and_eq_true, decide_eq_true_eq] at hmeasured
  obtain ⟨⟨hsizes, hfunctions, hclasses, hfields⟩, hmeasured⟩ := hmeasured
  split at hmeasured
  · rename_i k t e hreached ht he
    split at hmeasured
    · rename_i i x hfetch
      obtain ⟨rfl, habstract, hcount, hreceiver, hsame, hruns, htypes⟩ :=
        of_decide_eq_true hmeasured
      exact ⟨p, issued, m, p', t, e, k, x, h, hcreate, hsizes, hfunctions, hclasses, hfields,
        hreached, hfetch, ht, habstract, hcount, hreceiver, hsame, hruns, he, htypes⟩
    · cases hmeasured
  · cases hmeasured

theorem Session.callee_measuring :
    ∃ p issued m p' t k e, ∃ r' : Nat, Builds Anything "Shapes" measuring p issued ∧
      ProjectM.create p = .ok m p' ∧ run m 64 4 (enter m 64 .empty [] 3 []) = .running k ∧
      p'.draft.methods[0]? = some t ∧ callee? m k = some 1 ∧ r'.toUInt32 = 1 ∧
      p'.draft.methods[r']? = some e ∧ e.name = t.name ∧ e.params.length = 1 ∧
      (e.paramTypes = t.paramTypes ↔ r' = 2) := by
  obtain ⟨p, issued, m, p', t, _, k, x, h, hcreate, hsizes, hfunctions, hclasses, hfields, hm⟩ :=
    Builds.measures_measuring
  obtain ⟨-, -, hoverload⟩ := h.session.callee_of_create hcreate hsizes hfunctions hclasses hfields
    hm.reached hm.fetches (show p'.draft.methods[(0 : UInt32).toNat]? = some t from hm.target)
    hm.isAbstract (hm.count ▸ by decide) hm.receiver
  obtain ⟨r', e, hcallee, he, hname, hcount, hiff⟩ := hoverload hm.count.symm 2 hm.same
  rw [hm.runs, Option.some.injEq] at hcallee
  exact ⟨p, issued, m, p', t, k, e, r', h, hcreate, hm.reached, hm.target, hm.runs, hcallee.symm,
    he, hname, hcount.trans hm.count, hiff⟩

/-- The method that runs has other parameter types, though there is one with the same types. -/
theorem Session.callee_of_other_types_measuring :
    ∃ p issued m p' t e k x, Builds Anything "Shapes" measuring p issued ∧
      ProjectM.create p = .ok m p' ∧ run m 64 4 (enter m 64 .empty [] 3 []) = .running k ∧
      k.frame.fetch = .ok (.call .method 0 1, x) ∧ p'.draft.methods[0]? = some t ∧
      t.attrs.isAbstract = true ∧ k.frame.stack[1]? = some (.object 0) ∧
      p'.draft.implementation? (k.store.object 0).classId.toNat
        (MethodDef.hasSignature t.name t.paramTypes) = some 2 ∧
      callee? m k = some 1 ∧ p'.draft.methods[1]? = some e ∧ e.paramTypes ≠ t.paramTypes := by
  obtain ⟨p, issued, m, p', t, e, k, x, h, hcreate, -, -, -, -, hm⟩ := Builds.measures_measuring
  exact ⟨p, issued, m, p', t, e, k, x, h, hcreate, hm.reached, hm.fetches, hm.target, hm.isAbstract,
    hm.receiver, hm.same, hm.runs, hm.overload, hm.types⟩

end Bytesmith.Build
