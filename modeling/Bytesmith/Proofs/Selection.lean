import Bytesmith.Proofs.Consistency
import Bytesmith.Proofs.Reflection

namespace Bytesmith.Outcome

theorem except_mapM_of_checks {ε α β : Type} {f : α → Except ε β} {check : α → Except ε Unit}
    {g : α → β} {as : List α} (h : ∀ a ∈ as, f a = (fun _ => g a) <$> check a) :
    as.mapM f = (fun _ => as.map g) <$> as.forM check := by
  induction as with
  | nil => rfl
  | cons a as ih =>
    obtain ⟨ha, has⟩ := List.forall_mem_cons.mp h
    rw [List.mapM_cons, ha, ih has, List.forM]
    cases check a with
    | error e => rfl
    | ok u => cases as.forM check <;> rfl

end Bytesmith.Outcome

namespace Bytesmith.Build

open Code Outcome Relation

namespace Draft

/-- An argument of the type can be passed for the parameter, and the conversion cannot fail. -/
def Suits (d : Draft) (param arg : StaticType) : Prop :=
  ∃ c, d.coercion arg param = .ok c ∧ c.isImplicit = true

/-- The type declares the method under the name, and the method has one parameter for each argument
that suits it. -/
def Overload (d : Draft) (name : String) (args : List StaticType) (t : TypeDef) (m : Nat) : Prop :=
  m ∈ t.methods ∧
    ∃ e, d.methods[m]? = some e ∧ e.name = name ∧ List.Forall₂ d.Suits e.paramTypes args

/-- The overload is declared by the type or by one that it is built on, directly or not. -/
def Offers (d : Draft) (type : Nat) (name : String) (args : List StaticType) (m : Nat) : Prop :=
  ∃ i t, ReflTransGen d.BuiltOn type i ∧ d.types[i]? = some t ∧ d.Overload name args t m

def StorableParams (d : Draft) : Prop :=
  ∀ (m : Nat) (e : MethodDef), d.methods[m]? = some e → ∀ ty ∈ e.paramTypes, ty.isStorable = true

variable {d d' : Draft} {name : String} {args : List StaticType} {t : TypeDef} {m : Nat}

theorem coercion_eq_ok {source target : StaticType} {c : Coercion} :
    d.coercion source target = .ok c ↔ Coercion.select? d.isSubtype source target = some c := by
  rw [coercion, Coercion.select]
  cases Coercion.select? d.isSubtype source target <;> simp

theorem accepts_iff {params : List StaticType} :
    d.accepts params args = true ↔ List.Forall₂ d.Suits params args := by
  rw [accepts, Bool.and_eq_true, beq_iff_eq, List.all_eq_true, List.forall₂_iff_zip]
  refine and_congr_right fun _ => ⟨fun h p a hmem => ?_, fun h pair hmem => ?_⟩
  · obtain ⟨c, hc, himplicit⟩ := (Option.any_eq_true ..).mp (h (p, a) hmem)
    exact ⟨c, coercion_eq_ok.mpr hc, himplicit⟩
  · obtain ⟨c, hc, himplicit⟩ := h hmem
    exact (Option.any_eq_true ..).mpr ⟨c, coercion_eq_ok.mp hc, himplicit⟩

theorem suits_refl {ty : StaticType} (h : ty.isStorable = true) : d.Suits ty ty := by
  refine ⟨.none, coercion_eq_ok.mpr ?_, rfl⟩
  rw [Coercion.select?, if_neg, if_pos rfl]
  cases ty <;> simp_all [StaticType.isVoid, StaticType.isStorable]

theorem Redeclares.storableParams (h : d.Redeclares d') (hs : d.StorableParams) :
    d'.StorableParams := by
  intro m e' he' ty hty
  have hi := h.methods m
  rw [he', Option.map_some] at hi
  obtain ⟨e, he, hdecl⟩ := Option.map_eq_some_iff.mp hi.symm
  have hparams : e.params = e'.params := (MethodDef.eq_of_declaration hdecl).2.2.2.1
  rw [MethodDef.paramTypes, ← hparams, ← MethodDef.paramTypes] at hty
  exact hs m e he ty hty

end Draft

theorem Declares.storableParams {d d' : Draft} (h : Declares d d') (hs : d.StorableParams) :
    d'.StorableParams := by
  have hpush {e₀ : MethodDef} (h₀ : ∀ p ∈ e₀.params, p.ty.isStorable = true) :
      (d.addMethod e₀).StorableParams := by
    intro m e he ty hty
    obtain hm | ⟨-, rfl⟩ := getElem?_push_cases he
    · exact hs m e hm ty hty
    · obtain ⟨p, hp, rfl⟩ := List.mem_map.mp hty
      exact h₀ p hp
  cases h with
  | method _ _ _ _ _ _ _ hparams | constructor _ _ _ _ hparams => exact hpush hparams
  | _ => exact hs

theorem Course.storableParams {Allowed : List (Nat × Variable) → Nat → Variable → Prop}
    {d : Draft} {issued : List (Nat × Variable)} (h : Course Allowed d issued) :
    d.StorableParams := by
  refine h.of_declares (fun name options => ?_) (fun _ _ hd => hd.storableParams)
    fun _ _ hr => hr.storableParams
  intro m e he
  simp [Draft.empty] at he

theorem eq_of_nodup_gather {α β : Type} {table : Array α} {part : α → β} {ids : List Nat}
    (h : (gather table part ids).Nodup) {i j : Nat} (hi : i ∈ ids) (hj : j ∈ ids) {a b : α}
    (ha : table[i]? = some a) (hb : table[j]? = some b) (hpart : part a = part b) : i = j := by
  induction ids with
  | nil => cases hi
  | cons k ids ih =>
    -- an entry with the same part further on would come twice
    have honce {i' j' : Nat} {a' b' : α} (hk : i' = k) (hj' : j' ∈ ids) (ha' : table[i']? = some a')
        (hb' : table[j']? = some b') (hsame : part a' = part b') : False := by
      subst hk
      rw [gather, List.filterMap_cons, ha', Option.map_some] at h
      exact (List.nodup_cons.mp h).1 (mem_gather.mpr ⟨j', hj', b', hb', hsame.symm⟩)
    have hrest : (gather table part ids).Nodup := by
      rw [gather, List.filterMap_cons] at h
      cases hk : table[k]?.map part with
      | none =>
        rw [hk] at h
        exact h
      | some b =>
        rw [hk] at h
        exact (List.nodup_cons.mp h).2
    obtain hik | hi := List.mem_cons.mp hi <;> obtain hjk | hj := List.mem_cons.mp hj
    · rw [hik, hjk]
    · exact (honce hik hj ha hb hpart).elim
    · exact (honce hjk hi hb ha hpart.symm).elim
    · exact ih hrest hi hj

namespace Draft

variable {d : Draft} {name : String} {args : List StaticType} {t : TypeDef} {m : Nat}

theorem paramTypes_eq {e : MethodDef} (he : d.methods[m]? = some e) :
    d.paramTypes m = e.paramTypes := by
  rw [paramTypes, he, Option.map_some, Option.getD_some]

theorem StorableParams.suits (hs : d.StorableParams) (m : Nat) :
    List.Forall₂ d.Suits (d.paramTypes m) (d.paramTypes m) := by
  rw [List.forall₂_same]
  intro ty hty
  cases he : d.methods[m]? with
  | none => simp [paramTypes, he] at hty
  | some e =>
    rw [paramTypes_eq he] at hty
    exact suits_refl (hs m e he ty hty)

theorem StorableParams.resolveOverload?_eq_none (hs : d.StorableParams) {candidates : List Nat} :
    d.resolveOverload? candidates args = none ↔
      ∀ m ∈ candidates, ¬ List.Forall₂ d.Suits (d.paramTypes m) args := by
  rw [resolveOverload?]
  cases hexact : candidates.find? fun m => d.paramTypes m == args with
  | none => simp only [List.find?_eq_none, accepts_iff]
  | some m =>
    have hm := List.find?_some hexact
    rw [beq_iff_eq] at hm
    refine iff_of_false (Option.some_ne_none m) fun hnone => ?_
    exact hnone m (List.mem_of_find?_eq_some hexact) (hm ▸ hs.suits m)

theorem StorableParams.resolveOverload?_eq_some (hs : d.StorableParams) {candidates : List Nat}
    (h : d.resolveOverload? candidates args = some m) :
    m ∈ candidates ∧ List.Forall₂ d.Suits (d.paramTypes m) args ∧
      ∀ k ∈ candidates, d.paramTypes k = args → d.paramTypes m = args := by
  rw [resolveOverload?] at h
  cases hexact : candidates.find? fun m => d.paramTypes m == args with
  | none =>
    rw [hexact] at h
    have hm := List.find?_some h
    rw [accepts_iff] at hm
    refine ⟨List.mem_of_find?_eq_some h, hm, fun k hk hkargs => ?_⟩
    exact absurd (beq_iff_eq.mpr hkargs) (List.find?_eq_none.mp hexact k hk)
  | some k =>
    rw [hexact] at h
    cases h
    have hm := List.find?_some hexact
    rw [beq_iff_eq] at hm
    exact ⟨List.mem_of_find?_eq_some hexact, hm ▸ hs.suits m, fun _ _ _ => hm⟩

theorem mem_candidates :
    m ∈ t.methods.filter (fun m => d.methods[m]?.any (·.name == name)) ↔
      m ∈ t.methods ∧ ∃ e, d.methods[m]? = some e ∧ e.name = name := by
  rw [List.mem_filter, Option.any_eq_true]
  simp only [beq_iff_eq]

theorem StorableParams.declaredOverload?_eq_none (hs : d.StorableParams) :
    d.declaredOverload? name args t = none ↔ ∀ m, ¬ d.Overload name args t m := by
  rw [declaredOverload?, hs.resolveOverload?_eq_none]
  constructor
  · rintro h m ⟨hm, e, he, hname, hsuits⟩
    exact h m (mem_candidates.mpr ⟨hm, e, he, hname⟩) (paramTypes_eq he ▸ hsuits)
  · intro h m hm hsuits
    obtain ⟨hm, e, he, hname⟩ := mem_candidates.mp hm
    exact h m ⟨hm, e, he, hname, paramTypes_eq he ▸ hsuits⟩

theorem StorableParams.declaredOverload?_eq_some (hs : d.StorableParams) (hd : d.Distinct t)
    (h : d.declaredOverload? name args t = some m) :
    d.Overload name args t m ∧ ∀ k ∈ t.methods, ∀ e, d.methods[k]? = some e → e.name = name →
      e.paramTypes = args → k = m := by
  obtain ⟨hm, hsuits, hexact⟩ := hs.resolveOverload?_eq_some h
  obtain ⟨hm, e, he, hname⟩ := mem_candidates.mp hm
  rw [paramTypes_eq he] at hsuits hexact
  refine ⟨⟨hm, e, he, hname, hsuits⟩, fun k hk e' he' hname' hparams => ?_⟩
  have hsame : e.paramTypes = args :=
    hexact k (mem_candidates.mpr ⟨hk, e', he', hname'⟩) ((paramTypes_eq he').trans hparams)
  refine eq_of_nodup_gather hd.methods hk hm he' he ?_
  rw [hname', hname, hparams, hsame]

theorem Listed.mem_lineage (hl : d.Listed) {a b : Nat} (hb : d.types[b]? = some t) :
    b ∈ d.lineage a ↔ ReflTransGen d.BuiltOn a b := by
  refine ⟨reflTransGen_of_mem_lineageFrom, fun h => ?_⟩
  have ha : a < d.types.size := by
    obtain rfl | ⟨x, ⟨s, hs, -⟩, -⟩ := h.cases_head
    · exact (Array.getElem?_eq_some_iff.mp hb).1
    · exact (Array.getElem?_eq_some_iff.mp hs).1
  exact hl.mem_lineageFrom h ha ha

theorem Listed.findMethod?_eq_none (hl : d.Listed) (hs : d.StorableParams) {type : Nat} :
    d.findMethod? type name args = none ↔ ∀ m, ¬ d.Offers type name args m := by
  rw [findMethod?, List.findSome?_eq_none_iff]
  constructor
  · rintro h m ⟨i, t, hi, ht, hm⟩
    have hnone := h i ((hl.mem_lineage ht).mpr hi)
    rw [ht, Option.bind_some, hs.declaredOverload?_eq_none] at hnone
    exact hnone m hm
  · intro h i hi
    cases ht : d.types[i]? with
    | none => rfl
    | some t =>
      rw [Option.bind_some, hs.declaredOverload?_eq_none]
      exact fun m hm => h m ⟨i, t, (hl.mem_lineage ht).mp hi, ht, hm⟩

theorem Listed.exists_of_findMethod? (hl : d.Listed) {type : Nat}
    (h : d.findMethod? type name args = some m) : ∃ i t, ReflTransGen d.BuiltOn type i ∧
      d.types[i]? = some t ∧ d.declaredOverload? name args t = some m := by
  obtain ⟨i, hi, hm⟩ := List.exists_of_findSome?_eq_some h
  obtain ⟨t, ht, hm⟩ := Option.bind_eq_some_iff.mp hm
  exact ⟨i, t, (hl.mem_lineage ht).mp hi, ht, hm⟩

/-- The values are bound to the parameters of the target, each by the conversion between their
types, which cannot fail. All that is asked is that the caller may use the values. -/
structure Binds (d : Draft) (target : CallTarget) (values : List Variable)
    (bound : List Argument) : Prop where
  binds : ∀ caller, d.bindArguments caller target values =
    (fun _ => bound) <$> values.forM (d.ensureOwned caller)
  values : bound.map Argument.value = values
  params : bound.map Argument.paramType = target.params
  conversions : ∀ a ∈ bound, d.coercion a.value.ty a.paramType = .ok a.coercion ∧
    a.coercion.isImplicit = true

def argument (d : Draft) (pair : Variable × StaticType) : Argument :=
  ⟨pair.1, (Coercion.select? d.isSubtype pair.1.ty pair.2).getD .none, pair.2⟩

theorem Suits.argument {pair : Variable × StaticType} (h : d.Suits pair.2 pair.1.ty) :
    d.coercion pair.1.ty pair.2 = .ok (d.argument pair).coercion ∧
      (d.argument pair).coercion.isImplicit = true := by
  obtain ⟨c, hc, himplicit⟩ := h
  have hsame : (d.argument pair).coercion = c := by
    rw [Draft.argument, coercion_eq_ok.mp hc, Option.getD_some]
  rw [hsame]
  exact ⟨hc, himplicit⟩

theorem binds_of_suits {target : CallTarget} {values : List Variable}
    (h : List.Forall₂ d.Suits target.params (values.map Variable.ty)) :
    d.Binds target values ((values.zip target.params).map d.argument) := by
  have hlength : values.length = target.params.length := by simpa using h.length_eq.symm
  have hsuits (pair : Variable × StaticType) (hpair : pair ∈ values.zip target.params) :
      d.Suits pair.2 pair.1.ty :=
    (List.forall₂_iff_zip.mp (List.forall₂_map_right_iff.mp h).flip).2 hpair
  have hvalues : (values.zip target.params).map Prod.fst = values :=
    List.map_fst_zip hlength.le
  have hparams : (values.zip target.params).map Prod.snd = target.params :=
    List.map_snd_zip hlength.ge
  constructor
  case binds =>
    intro caller
    have hstep (pair : Variable × StaticType) (hpair : pair ∈ values.zip target.params) :
        (do
          d.ensureOwned caller pair.1
          return ⟨pair.1, ← d.coercion pair.1.ty pair.2, pair.2⟩ : Except BuildError Argument) =
        (fun _ => d.argument pair) <$> d.ensureOwned caller pair.1 := by
      rw [(hsuits pair hpair).argument.1]
      cases d.ensureOwned caller pair.1 <;> rfl
    have hchecks : values.forM (d.ensureOwned caller) =
        (values.zip target.params).forM fun pair => d.ensureOwned caller pair.1 := by
      conv_lhs => rw [← hvalues, List.forM_eq_forM, List.forM_map]
      rfl
    rw [hchecks, bindArguments, if_neg (Decidable.not_not.mpr hlength)]
    exact except_mapM_of_checks hstep
  case values =>
    rw [List.map_map]
    exact hvalues
  case params =>
    rw [List.map_map]
    exact hparams
  case conversions =>
    intro a ha
    obtain ⟨pair, hpair, rfl⟩ := List.mem_map.mp ha
    exact (hsuits pair hpair).argument

theorem callTarget_of_found {e : MethodDef} (he : d.methods[m]? = some e)
    (ht : d.types[e.owner]? = some t) :
    ∃ target, d.callTarget m = .ok target ∧ target.params = e.paramTypes := by
  have hmethod : d.method m = .ok e := method_eq_ok.mpr he
  have hclass : d.classType e.owner = .ok (.class e.owner t.name) := by
    rw [classType, BuildM.type_eq_ok.mpr ht]
    rfl
  rw [callTarget, hmethod]
  dsimp only [bind, Except.bind]
  rw [hclass]
  exact ⟨_, rfl, rfl⟩

/-- What is asked of the method that is chosen for a call: it is on offer, every list of values of
the types can be bound to it, and of the methods that its type declares under the name none other
has exactly the types of the arguments. -/
structure Selects (d : Draft) (type : Nat) (name : String) (args : List StaticType) (m : Nat) :
    Prop where
  offers : d.Offers type name args m
  binds : ∃ target, d.callTarget m = .ok target ∧ ∀ values : List Variable,
    values.map Variable.ty = args → ∃ bound, d.Binds target values bound
  exact : ∀ (i : Nat) (t : TypeDef), d.types[i]? = some t → m ∈ t.methods →
    ∀ k ∈ t.methods, ∀ e, d.methods[k]? = some e → e.name = name → e.paramTypes = args → k = m

theorem Consistent.selects (hc : d.Consistent) (hs : d.StorableParams) {type : Nat}
    (h : d.findMethod? type name args = some m) : d.Selects type name args m := by
  obtain ⟨i, t, hi, ht, hm⟩ := hc.listed.exists_of_findMethod? h
  obtain ⟨hoverload, hexact⟩ := hs.declaredOverload?_eq_some (hc.distinct i t ht) hm
  obtain ⟨hmem, e, he, -, hsuits⟩ := id hoverload
  -- one type declares the method, the one that owns it
  have howner (j : Nat) (s : TypeDef) (hj : d.types[j]? = some s) (hms : m ∈ s.methods) :
      e.owner = j := by
    obtain ⟨e', he', howner, -⟩ := (hc.listed j s hj).methods m hms
    cases he.symm.trans he'
    exact howner
  refine ⟨⟨i, t, hi, ht, hoverload⟩, ?_, fun j s hj hms => ?_⟩
  · obtain ⟨target, htarget, hparams⟩ := callTarget_of_found he (howner i t ht hmem ▸ ht)
    refine ⟨target, htarget, fun values hvalues => ⟨_, binds_of_suits ?_⟩⟩
    rwa [hparams, hvalues]
  · cases (howner i t ht hmem).symm.trans (howner j s hj hms)
    cases ht.symm.trans hj
    exact hexact

end Draft

variable {p : Project} {issued : List (Nat × Variable)}

/-- A method is found just if the type, or one that it is built on, declares an overload that takes
the arguments; the one that is found is such an overload, and has exactly their types if its type
declares one that has. -/
theorem Session.findMethod?_selects (h : Session Anything p issued) (type : Nat) (name : String)
    (args : List StaticType) :
    (p.draft.findMethod? type name args = none ↔ ¬ ∃ m, p.draft.Offers type name args m) ∧
      ∀ m, p.draft.findMethod? type name args = some m → p.draft.Selects type name args m := by
  obtain ⟨issued', hcourse, -⟩ := h.course
  have hs := hcourse.storableParams
  rw [not_exists]
  exact ⟨h.consistent.listed.findMethod?_eq_none hs, fun m => h.consistent.selects hs⟩

/-- Shapes that are scaled: by anything through an interface, and by numbers. -/
def scaling : List Request := [
  .perform (.defineType "Scalable" { isInterface := true } none []),
  .perform (.defineMethod 0 "scale" {} .void [⟨"by", .object⟩]),
  .perform (.defineType "Shape" {} none [0]),
  .perform (.defineMethod 1 "scale" {} .void [⟨"by", .double⟩]),
  .perform (.defineMethod 1 "scale" {} .void [⟨"by", .int⟩]),
  .perform (.defineType "Square" {} (some 1) [])]

/-- An integer goes to the method that has the type, a long number to the one it widens to, a text
to the interface, and nothing takes two arguments. -/
theorem Session.findMethod?_selects_scaling :
    ∃ p issued, (Request.makeAll scaling (⟨.empty "Shapes" {}, .empty⟩, [])).1 = p ∧
      Session Anything p issued ∧ p.draft.Selects 2 "scale" [.int] 2 ∧
      p.draft.Selects 2 "scale" [.long] 1 ∧ p.draft.Selects 2 "scale" [.string] 0 ∧
      ¬ ∃ m, p.draft.Offers 2 "scale" [.int, .int] m := by
  obtain ⟨issued, h⟩ := Session.of_makeAll scaling "Shapes" {}
  refine ⟨_, issued, rfl, h, (h.findMethod?_selects _ _ _).2 _ ?_,
    (h.findMethod?_selects _ _ _).2 _ ?_, (h.findMethod?_selects _ _ _).2 _ ?_,
    (h.findMethod?_selects _ _ _).1.mp ?_⟩
  all_goals decide +kernel

end Bytesmith.Build
