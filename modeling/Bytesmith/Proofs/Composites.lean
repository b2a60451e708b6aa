import Bytesmith.Proofs.Growth
import Bytesmith.Proofs.Rollback

namespace Bytesmith.Build.BuildM

open Code Outcome Draft

theorem touches_synthesize (m : Nat) (code : List (Instr Label)) :
    Leads (Touches m) (synthesize m code) :=
  (leads_writing (CodeM.leads_emitting _)).bind fun _ => leads_modifyMethod fun _ => rfl

theorem touches_edit (m : Nat) (e : Edit) : Leads (Touches m) (e.perform m) := by
  intro d
  cases h : e.perform m d with
  | ok r d' =>
    obtain ⟨t, t', c, hedited, -⟩ := Edit.perform_done h
    obtain ⟨n, heq⟩ := hedited.eq
    rw [final, heq]
    exact .edited hedited.found (hedited.takes _ (.refl _)).declaration_eq hedited.grows
  | error err d' =>
    obtain rfl | ⟨htouches, -⟩ := e.fails_perform d err d' h
    · exact Std.Refl.refl d'
    · exact htouches

variable {R : Draft → Draft → Prop} [Std.Refl R] [Trans R R R]

theorem leads_bump {m : Nat} (hedit : ∀ e : Edit, Leads R (e.perform m)) (op : Arithmetic)
    (target : Variable) : Leads R (bump m op target) := by
  have hplain {α : Type} {x : BuildM α} {g : α → Option Variable} (e : Edit)
      (he : e.perform m = g <$> x) : Leads R x := by
    intro d
    have h := hedit e d
    rwa [he, final_map] at h
  refine (hplain (.arithmetic op target (.constant (.i32 1))) rfl).bind fun next => ?_
  exact (hplain (.assign target next) rfl).bind fun _ => .pure _

theorem leads_callNamed {m : Nat} (hedit : ∀ e : Edit, Leads R (e.perform m)) {receiver : Variable}
    {name : String} {args : List Variable}
    (hfail : ∀ d e d', recording m (fun _ => reading (·.methodNamed receiver name args)) d =
      .error e d' → R d d') : Leads R (callNamed m receiver name args) := by
  rw [callNamed_eq]
  refine Leads.bind (fun d => ?_) fun method => hedit (.call method (some receiver) args)
  cases h : recording m (fun _ => reading (·.methodNamed receiver name args)) d with
  | ok a d' =>
    obtain ⟨t, -, -, hread⟩ := recording_eq_ok h
    obtain ⟨-, rfl⟩ := reading_eq_ok.mp hread
    exact Std.Refl.refl d
  | error e d' => exact hfail d e d' h

theorem touches_bump (m : Nat) (op : Arithmetic) (target : Variable) :
    Leads (Touches m) (bump m op target) := leads_bump (touches_edit m) op target

theorem touches_callNamed (m : Nat) (receiver : Variable) (name : String) (args : List Variable) :
    Leads (Touches m) (callNamed m receiver name args) := by
  refine leads_callNamed (touches_edit m) fun d e d' h => ?_
  obtain rfl | ⟨htouches, -⟩ := fails_recording d e d' h
  · exact Std.Refl.refl _
  · exact htouches

theorem leads_defineDefaultConstructor {type : Nat} {attrs : MethodAttributes}
    (hdefine : Leads R (defineConstructor type attrs []))
    (hedit : ∀ m (e : Edit), Leads R (e.perform m)) :
    Leads R (defineDefaultConstructor type attrs) := by
  refine .get_bind fun d => Leads.bind (.of_state (final_ofExcept _)) fun chains => ?_
  refine hdefine.bind fun id => ?_
  cases chains with
  | false => exact .pure _
  | true =>
    refine Leads.bind (fun d => ?_) fun _ => .pure _
    have hcall := hedit id (.callBase []) d
    rwa [Edit.perform, final_map] at hcall

omit [Std.Refl R] in
theorem leads_generateProperty
    (hfield : ∀ type name ty attrs, Leads R (defineField type name ty attrs))
    (hmethod : ∀ type name attrs returnType params,
      Leads R (defineMethod type name attrs returnType params))
    (hsynthesize : ∀ m code, Leads R (synthesize m code))
    (hproperty : ∀ type name ty getter setter, Leads R (defineProperty type name ty getter setter))
    (hbacking : ∀ (d : Draft) (id field : Nat),
      R d { d with properties := d.properties.modify id ({ · with backing := some field }) })
    (type : Nat) (name : String) (ty : StaticType) : Leads R (generateProperty type name ty) := by
  refine (hfield _ _ _ _).bind fun field => (hmethod _ _ _ _ _).bind fun getter =>
    (hmethod _ _ _ _ _).bind fun setter => ?_
  refine (hsynthesize _ _).bind fun _ => (hsynthesize _ _).bind fun _ => ?_
  exact (hproperty _ _ _ _ _).bind fun id d => hbacking d id field

omit [Trans R R R] in
theorem leads_defineAutoProperty {type : Nat} {name : String} {ty : StaticType}
    (h : ∀ d id d', generateProperty type name ty d = .ok id d' → R d d') :
    Leads R (defineAutoProperty type name ty) := by
  intro d
  obtain ⟨e, he⟩ | ⟨id, d', hg, hd⟩ := defineAutoProperty_cases type name ty d
  · rw [he]
    exact Std.Refl.refl d
  · rw [hd]
    exact h d id d' hg

theorem leads_createTypeBelow (hfinalize : ∀ m, Leads R (finalize m))
    (hclass : ∀ (d : Draft) (id : Nat) (c : ClassEntry),
      R d (d.modifyType id ({ · with created := some c }))) (bound id : Nat) :
    Leads R (createTypeBelow bound id) := by
  induction bound generalizing id with
  | zero => exact .throw _
  | succ bound ih =>
    refine Leads.bind (.of_state (final_reading _)) fun t => ?_
    cases t.created with
    | some c => exact .pure c
    | none =>
      refine .guard (Leads.bind (.forM (fun i => (ih i).map _) _) fun _ => ?_)
      exact Leads.bind (.forM hfinalize _) fun _ d => hclass d id (d.toClass t)

theorem leads_createType (hfinalize : ∀ m, Leads R (finalize m))
    (hclass : ∀ (d : Draft) (id : Nat) (c : ClassEntry),
      R d (d.modifyType id ({ · with created := some c }))) (id : Nat) :
    Leads R (createType id) :=
  .get_bind fun _ => leads_createTypeBelow hfinalize hclass _ id

theorem leads_assemble (henums : Leads R createEnums) (htype : ∀ id, Leads R (createType id)) :
    Leads R assemble := by
  refine .get_bind fun d => .guard (.guard (henums.bind fun enums => ?_))
  refine Leads.bind (.mapM htype _) fun classes => .get_bind fun d => ?_
  exact Leads.bind (.of_state (final_ofExcept _)) fun functions => .pure _

end Bytesmith.Build.BuildM
