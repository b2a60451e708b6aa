import Bytesmith.Proofs.Creation

namespace Bytesmith.Build

open Code Outcome BuildM

def MethodDef.script (t : MethodDef) : List Command := t.commands.toList.map (·.command)

namespace Draft

def scriptOf (d : Draft) (m : Nat) : List Command := (d.methods[m]?.map MethodDef.script).getD []

def SameScripts (d d' : Draft) : Prop := ∀ m, d'.scriptOf m = d.scriptOf m

instance : Std.Refl SameScripts := ⟨fun _ _ => rfl⟩

instance : Trans SameScripts SameScripts SameScripts := ⟨fun h h' m => (h' m).trans (h m)⟩

variable {d d' : Draft} {m i : Nat} {t t' : MethodDef} {c : Command}

theorem scriptOf_of_found (h : d.methods[m]? = some t) : d.scriptOf m = t.script := by
  rw [scriptOf, h]
  rfl

theorem scriptOf_congr (h : d'.methods[m]? = d.methods[m]?) : d'.scriptOf m = d.scriptOf m := by
  rw [scriptOf, scriptOf, h]

theorem sameScripts_of_methods (h : d'.methods = d.methods) : d.SameScripts d' :=
  fun _ => scriptOf_congr (by rw [h])

theorem sameScripts_modifyMethod {f : MethodDef → MethodDef} (hf : ∀ t, (f t).script = t.script) :
    d.SameScripts (d.modifyMethod m f) := by
  intro i
  rw [scriptOf, scriptOf, modifyMethod, Array.getElem?_modify]
  split
  · rw [Option.map_map, show MethodDef.script ∘ f = MethodDef.script from funext hf]
  · rfl

theorem sameScripts_pushMethod (ht : t.script = []) :
    d.SameScripts { d with methods := d.methods.push t } := by
  intro i
  rw [scriptOf, scriptOf, Array.getElem?_push]
  split
  · rename_i hi
    rw [hi, Array.getElem?_eq_none (Nat.le_refl _), Option.map_some, ht]
    rfl
  · rfl

end Draft

variable {d d' : Draft} {m k : Nat} {t t' : MethodDef} {c : Command}

theorem Edited.scriptOf_eq (h : Edited k c t t' d d') (m : Nat) :
    d'.scriptOf m = d.scriptOf m ++ if k = m then [c] else [] := by
  obtain ⟨n, heq⟩ := h.eq
  by_cases hm : k = m
  · subst hm
    have hfound : d'.methods[k]? = some t' := by
      rw [heq]
      exact Draft.found_edited (Draft.lt_size_of_found h.found)
    rw [Draft.scriptOf_of_found h.found, Draft.scriptOf_of_found hfound, if_pos rfl,
      MethodDef.script, (h.takes _ (.refl _)).commands_eq, Array.toList_push, List.map_append]
    rfl
  · rw [if_neg hm, List.append_nil, heq]
    exact Draft.scriptOf_congr (Draft.found_edited_ne (Ne.symm hm))

def Edit.recorded (e : Edit) (k : Nat) (d : Draft) (m : Nat) : List Command :=
  if k = m then
    match d.methods[m]?.map (e.resolve d m) with
    | some (.ok (c, _)) => [c]
    | _ => []
  else []

theorem Edit.scriptOf_of_ok {e : Edit} {r : Option Variable} (h : e.perform k d = .ok r d')
    (m : Nat) : d'.scriptOf m = d.scriptOf m ++ e.recorded k d m := by
  obtain ⟨t, t', c, hedited, -, -, blocks, hresolve⟩ := perform_done h
  rw [hedited.scriptOf_eq m, Edit.recorded]
  split
  · rename_i hm
    rw [← hm, hedited.found, Option.map_some, hresolve]
  · rfl

namespace BuildM

open Draft

theorem sameScripts_writing {α : Type} (m : Nat) (op : CodeM α) :
    Leads SameScripts (writing m op) := by
  refine Leads.bind (.of_state (final_reading _)) fun target d => ?_
  dsimp only
  cases op ⟨target.emitter, d.constants⟩ <;> exact sameScripts_modifyMethod (d := d) fun _ => rfl

theorem sameScripts_synthesize (m : Nat) (code : List (Instr Label)) :
    Leads SameScripts (synthesize m code) :=
  (sameScripts_writing m _).bind fun _ _ => sameScripts_modifyMethod fun _ => rfl

theorem sameScripts_finalize (m : Nat) : Leads SameScripts (finalize m) := by
  refine Leads.bind (.of_state (final_reading _)) fun t => ?_
  cases t.state with
  | finished body => exact .pure _
  | aborted => exact .throw _
  | «open» =>
    cases t.blocks with
    | cons b blocks => exact .of_state fun _ => rfl
    | nil =>
      exact (sameScripts_writing m _).bind fun _ _ => sameScripts_modifyMethod fun _ => rfl

theorem sameScripts_defineField (type : Nat) (name : String) (ty : StaticType)
    (attrs : FieldAttributes) : Leads SameScripts (defineField type name ty attrs) :=
  leads_checked fun _ _ => sameScripts_of_methods rfl

theorem sameScripts_defineMethod (type : Nat) (name : String) (attrs : MethodAttributes)
    (returnType : StaticType) (params : List Parameter) :
    Leads SameScripts (defineMethod type name attrs returnType params) :=
  leads_checked fun d _ => (sameScripts_pushMethod rfl : d.SameScripts _)

theorem sameScripts_defineConstructor (type : Nat) (attrs : MethodAttributes)
    (params : List Parameter) : Leads SameScripts (defineConstructor type attrs params) :=
  leads_checked fun d _ => (sameScripts_pushMethod rfl : d.SameScripts _)

theorem sameScripts_defineProperty (type : Nat) (name : String) (ty : StaticType)
    (getter setter : Option Nat) :
    Leads SameScripts (defineProperty type name ty getter setter) :=
  leads_checked fun _ _ => sameScripts_of_methods rfl

theorem sameScripts_createType (id : Nat) : Leads SameScripts (createType id) :=
  leads_createType sameScripts_finalize (fun _ _ _ => sameScripts_of_methods rfl) id

theorem sameScripts_assemble : Leads SameScripts assemble :=
  leads_assemble (fun _ => sameScripts_of_methods rfl) sameScripts_createType

end BuildM

namespace Operation

/-- The commands that the operation adds to a method when it is carried out on the draft: those for
which its edits stand, each in the draft in which it is made. -/
def recorded (d : Draft) (m : Nat) : Operation → List Command
  | .edit k e => e.recorded k d m
  | .bump k op target =>
    match (Edit.arithmetic op target (.constant (.i32 1))).perform k d with
    | .ok (some next) d' =>
      (Edit.arithmetic op target (.constant (.i32 1))).recorded k d m ++
        (Edit.assign target next).recorded k d' m
    | _ => []
  | .callNamed k receiver name args =>
    match d.methodNamed receiver name args with
    | .ok method => (Edit.call method (some receiver) args).recorded k d m
    | .error _ => []
  | .defineDefaultConstructor type attrs =>
    match (d.types[type]?.bind (·.base)).bind (d.findConstructor? · []),
        BuildM.defineConstructor type attrs [] d with
    | some _, .ok k d' => (Edit.callBase []).recorded k d' m
    | _, _ => []
  | _ => []

end Operation

theorem BuildM.scriptOf_of_defineDefaultConstructor {type : Nat} {attrs : MethodAttributes}
    (h : defineDefaultConstructor type attrs d = .ok k d') (m : Nat) :
    d'.scriptOf m = d.scriptOf m ++
      (Operation.defineDefaultConstructor type attrs).recorded d m := by
  rw [defineDefaultConstructor, get_bind] at h
  obtain ⟨chains, hchains, h⟩ := ofExcept_bind_eq_ok.mp h
  obtain ⟨id, s, hdefine, h⟩ := bind_eq_ok.mp h
  have hsame := (sameScripts_defineConstructor type attrs []).of_ok hdefine m
  obtain ⟨t, htype, hchains⟩ := except_bind_eq_ok.mp hchains
  obtain ⟨htype, -, -⟩ := Draft.openType_eq_ok.mp htype
  have hfind : chains = ((d.types[type]?.bind (·.base)).bind (d.findConstructor? · [])).isSome := by
    rw [htype]
    cases hbase : t.base with
    | none =>
      simp only [hbase] at hchains
      cases hchains
      simp [hbase]
    | some base =>
      simp only [hbase] at hchains
      obtain ⟨b, -, hchains⟩ := except_bind_eq_ok.mp hchains
      obtain ⟨-, hchains⟩ := except_guard_eq_ok.mp hchains
      cases hchains
      simp [hbase]
  cases chains with
  | false =>
    cases h
    have hnone := Option.isNone_iff_eq_none.mp (Option.isSome_eq_false_iff.mp hfind.symm)
    rw [hsame, Operation.recorded, hnone]
    exact (List.append_nil _).symm
  | true =>
    obtain ⟨u, s', hcall, h⟩ := bind_eq_ok.mp h
    cases h
    obtain ⟨c, hc⟩ := Option.isSome_iff_exists.mp hfind.symm
    have hperform : (Edit.callBase []).perform k s = .ok none d' := map_eq_ok.mpr ⟨u, hcall, rfl⟩
    rw [Edit.scriptOf_of_ok hperform m, hsame, Operation.recorded, hc, hdefine]

namespace Operation

theorem scriptOf_of_ok {op : Operation} {given : List (Nat × Variable)}
    (h : op.perform d = .ok given d') (m : Nat) :
    d'.scriptOf m = d.scriptOf m ++ op.recorded d m := by
  have hsame {α : Type} {x : BuildM α} {g : α → List (Nat × Variable)}
      (hx : Leads Draft.SameScripts x) (h : (g <$> x) d = .ok given d') :
      d'.scriptOf m = d.scriptOf m ++ [] := by
    rw [List.append_nil]
    exact (hx.map g).of_ok h m
  have hfield := sameScripts_defineField
  have hmethod := sameScripts_defineMethod
  have hproperty := sameScripts_defineProperty
  cases op with
  | defineType | defineEnum | setEntryPoint =>
    exact hsame (leads_checked fun _ _ => Draft.sameScripts_of_methods rfl) h
  | defineEnumMember =>
    exact hsame (leads_checked fun _ _ => related_check fun _ _ =>
      Draft.sameScripts_of_methods rfl) h
  | defineField => exact hsame (hfield _ _ _ _) h
  | defineMethod => exact hsame (hmethod _ _ _ _ _) h
  | defineConstructor => exact hsame (sameScripts_defineConstructor _ _ _) h
  | defineDefaultConstructor type attrs =>
    obtain ⟨k, hk, -⟩ := map_eq_ok.mp h
    exact scriptOf_of_defineDefaultConstructor hk m
  | defineProperty => exact hsame (hproperty _ _ _ _ _) h
  | defineAutoProperty type name ty =>
    refine hsame (leads_defineAutoProperty fun d id d' hg => ?_) h
    exact (leads_generateProperty hfield hmethod sameScripts_synthesize hproperty
      (fun _ _ _ => Draft.sameScripts_of_methods rfl) type name ty).of_ok hg
  | look => exact hsame (.of_state (final_reading _)) h
  | finalize k => exact hsame (sameScripts_finalize k) h
  | createType id => exact hsame (sameScripts_createType id) h
  | edit k e =>
    obtain ⟨r, hr, -⟩ := map_eq_ok.mp h
    exact Edit.scriptOf_of_ok hr m
  | bump k op target =>
    obtain ⟨v, hv, -⟩ := map_eq_ok.mp h
    obtain ⟨next, s, hnext, hv⟩ := bind_eq_ok.mp hv
    obtain ⟨u, s', hassigned, hv⟩ := bind_eq_ok.mp hv
    cases hv
    have hadd : (Edit.arithmetic op target (.constant (.i32 1))).perform k d = .ok (some v) s :=
      map_eq_ok.mpr ⟨v, hnext, rfl⟩
    have hassign : (Edit.assign target v).perform k s = .ok none d' :=
      map_eq_ok.mpr ⟨u, hassigned, rfl⟩
    rw [Edit.scriptOf_of_ok hassign m, Edit.scriptOf_of_ok hadd m, List.append_assoc, recorded,
      hadd]
  | callNamed k receiver name args =>
    obtain ⟨r, hr, -⟩ := map_eq_ok.mp h
    obtain ⟨method, hmethod, hcall⟩ := callNamed_eq_ok hr
    rw [Edit.scriptOf_of_ok hcall m, recorded, hmethod]

def recordedAll (m : Nat) : Draft → List Operation → List Command
  | _, [] => []
  | d, op :: ops => op.recorded d m ++ recordedAll m (final (op.perform d)) ops

end Operation

variable {Allowed : List (Nat × Variable) → Nat → Variable → Prop}
  [∀ issued m v, Decidable (Allowed issued m v)] {p p' : Project}
  {issued issued' : List (Nat × Variable)} {ops : List Operation}

theorem scriptOf_of_carryOut? (h : carryOut? Allowed ops p issued = some (p', issued')) (m : Nat) :
    p'.draft.scriptOf m = p.draft.scriptOf m ++ Operation.recordedAll m p.draft ops := by
  induction ops generalizing p issued with
  | nil =>
    cases h
    exact (List.append_nil _).symm
  | cons op ops ih =>
    unfold carryOut? at h
    split at h
    · split at h
      · rename_i hop
        rw [ih h, Operation.scriptOf_of_ok hop m, Operation.recordedAll, hop, List.append_assoc]
        rfl
      · cases h
    · cases h

theorem Builds.scriptOf_eq {name : String} (h : Builds Allowed name ops p issued) {module : Module}
    (hcreate : ProjectM.create p = .ok module p') (m : Nat) :
    p'.draft.scriptOf m = Operation.recordedAll m (.empty name {}) ops := by
  have hsame := ProjectM.leads_create sameScripts_assemble
    (fun _ _ => Draft.sameScripts_of_methods rfl) p m
  rw [hcreate] at hsame
  exact hsame.trans (scriptOf_of_carryOut? h m)

end Bytesmith.Build
