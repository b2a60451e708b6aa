import Bytesmith.Proofs.Session

namespace Bytesmith.Build

open Code Outcome BuildM

namespace ProjectM

variable {p p' : Project}

theorem building_eq_ok {α : Type} {op : BuildM α} {a : α} (h : building op p = .ok a p') :
    ∃ d, op p.draft = .ok a d ∧ p' = { p with draft := d } := by
  unfold building at h
  cases hop : op p.draft with
  | ok b d =>
    simp only [hop] at h
    cases h
    exact ⟨d, rfl, rfl⟩
  | error e d =>
    simp only [hop] at h
    cases h

theorem building_eq_error {α : Type} {op : BuildM α} {e : BuildError}
    (h : building op p = .error e p') : ∃ d, op p.draft = .error e d ∧ p' = { p with draft := d } := by
  unfold building at h
  cases hop : op p.draft with
  | ok b d =>
    simp only [hop] at h
    cases h
  | error e' d =>
    simp only [hop] at h
    cases h
    exact ⟨d, rfl, rfl⟩

theorem create_eq_ok (h : create p = .ok m p') :
    p.draft.created = some m ∧ p' = p ∨
      p.draft.created = none ∧ ∃ d, assemble p.draft = .ok m d ∧
        p'.draft = { d with created := some m } := by
  rw [create, get_bind] at h
  cases hcreated : p.draft.created with
  | some m' =>
    simp only [hcreated] at h
    cases h
    exact .inl ⟨rfl, rfl⟩
  | none =>
    simp only [hcreated] at h
    obtain ⟨m', p₁, hassemble, h⟩ := bind_eq_ok.mp h
    obtain ⟨d, hd, rfl⟩ := building_eq_ok hassemble
    refine .inr ⟨rfl, d, ?_⟩
    cases hpath : p.draft.outputPath? with
    | none =>
      simp only [hpath] at h
      cases h
      exact ⟨hd, rfl⟩
    | some path =>
      simp only [hpath] at h
      cases hsave : p.disk.save? path m'.encode.toArray with
      | none =>
        simp only [hsave] at h
        cases h
      | some disk =>
        simp only [hsave] at h
        cases h
        exact ⟨hd, rfl⟩

theorem create_of_created (h : p.draft.created = some m) : create p = .ok m p := by
  rw [create, get_bind, h]
  rfl

theorem create_eq_error {e : BuildError} (h : create p = .error e p') :
    p'.draft = final (assemble p.draft) ∧ (e = .io ∨ assemble p.draft = .error e p'.draft) := by
  rw [create, get_bind] at h
  cases hcreated : p.draft.created with
  | some m' =>
    simp only [hcreated] at h
    cases h
  | none =>
    simp only [hcreated] at h
    obtain h | ⟨m', p₁, hassemble, h⟩ := bind_eq_error.mp h
    · obtain ⟨d, hd, rfl⟩ := building_eq_error h
      rw [hd]
      exact ⟨rfl, .inr rfl⟩
    · obtain ⟨d, hd, rfl⟩ := building_eq_ok hassemble
      rw [hd]
      cases hpath : p.draft.outputPath? with
      | none =>
        simp only [hpath] at h
        cases h
      | some path =>
        simp only [hpath] at h
        cases hsave : p.disk.save? path m'.encode.toArray with
        | none =>
          simp only [hsave] at h
          cases h
          exact ⟨rfl, .inl rfl⟩
        | some disk =>
          simp only [hsave] at h
          cases h

theorem leads_create {R : Draft → Draft → Prop} [Std.Refl R] [Trans R R R]
    (hassemble : Leads R assemble)
    (hset : ∀ (d : Draft) (m : Module), R d { d with created := some m }) (p : Project) :
    R p.draft (final (create p)).draft := by
  cases h : create p with
  | ok m p' =>
    obtain ⟨-, rfl⟩ | ⟨-, d, hd, heq⟩ := create_eq_ok h
    · exact Std.Refl.refl p'.draft
    · rw [final, heq]
      exact Trans.trans (hassemble.of_ok hd) (hset d m)
  | error e p' =>
    rw [final, (create_eq_error h).1]
    exact hassemble p.draft

end ProjectM

variable {Allowed : List (Nat × Variable) → Nat → Variable → Prop}

variable {p : Project} {issued : List (Nat × Variable)} {m : Module}

/-- What every operation and every creation keeps, however it ends, is true in every session. -/
theorem Session.of_leads {P : Draft → Prop} (h : Session Anything p issued)
    (hstart : ∀ name options, P (.empty name options))
    (hperform : ∀ op : Operation, Leads (Preserves P) op.perform)
    (hcreate : ∀ p : Project, P p.draft → P (final (ProjectM.create p)).draft) : P p.draft := by
  induction h with
  | start name options disk => exact hstart name options
  | done h op ho hop ih => exact (hperform op).of_ok hop ih
  | failed h op ho hop ih => exact (hperform op).of_error hop ih
  | @created p _ _ _ _ hp ih | @uncreated p _ _ _ _ hp ih =>
    have hkeeps := hcreate p ih
    rwa [hp] at hkeeps

theorem Session.follows_course [Fair Allowed] (h : Session Allowed p issued) :
    ∃ issued', Course Allowed p.draft issued' ∧ (∀ x ∈ issued, x ∈ issued') ∧
      ∀ x ∈ issued', x ∈ issued ∨ x.2.isSlot = true := by
  induction h with
  | start name options disk => exact ⟨[], .start name options, fun _ hx => hx, fun _ => .inl⟩
  | @done p issued given d h op ho hop ih =>
    obtain ⟨issued', hc, hsub, hnew⟩ := ih
    obtain ⟨issued'', ⟨hc', -, -, hsub'⟩, hgiven, hnew'⟩ :=
      hc.follows op fun o hmem => Fair.mono issued issued' o.1 o.2 hsub (ho o hmem)
    rw [hop] at hc'
    refine ⟨issued'', hc', fun x hx => ?_, fun x hx => ?_⟩
    · obtain hx | hx := List.mem_append.mp hx
      · exact hgiven given d hop x hx
      · exact hsub' x (hsub x hx)
    · obtain hx | hx | ⟨given', d', hop', hx⟩ := hnew' x hx
      · exact (hnew x hx).imp_left (List.mem_append_right _)
      · exact .inr hx
      · rw [hop] at hop'
        cases hop'
        exact .inl (List.mem_append_left _ hx)
  | @failed p issued d e h op ho hop ih =>
    obtain ⟨issued', hc, hsub, hnew⟩ := ih
    obtain ⟨issued'', ⟨hc', -, -, hsub'⟩, -, hnew'⟩ :=
      hc.follows op fun o hmem => Fair.mono issued issued' o.1 o.2 hsub (ho o hmem)
    rw [hop] at hc'
    refine ⟨issued'', hc', fun x hx => hsub' x (hsub x hx), fun x hx => ?_⟩
    obtain hx | hx | ⟨given', d', hop', -⟩ := hnew' x hx
    · exact hnew x hx
    · exact .inr hx
    · rw [hop] at hop'
      cases hop'
  | created h hcreate ih =>
    obtain ⟨issued', hc, hsub⟩ := ih
    refine ⟨issued', ?_, hsub⟩
    obtain ⟨-, rfl⟩ | ⟨-, d, hassemble, hd⟩ := ProjectM.create_eq_ok hcreate
    · exact hc
    · rw [hd]
      exact ((goes_assemble.of_ok hassemble).course issued' hc).create _
  | uncreated h hcreate ih =>
    obtain ⟨issued', hc, hsub⟩ := ih
    rw [(ProjectM.create_eq_error hcreate).1]
    exact ⟨issued', (goes_assemble _).course issued' hc, hsub⟩

theorem Session.course [Fair Allowed] (h : Session Allowed p issued) :
    ∃ issued', Course Allowed p.draft issued' ∧ ∀ x ∈ issued, x ∈ issued' := by
  obtain ⟨issued', hc, hsub, -⟩ := h.follows_course
  exact ⟨issued', hc, hsub⟩

structure Draft.Yields (d : Draft) (m : Module) : Prop where
  functions : d.methods.toList.mapM MethodDef.toFunction = .ok m.functions
  constants : m.constants = d.constants
  classes : m.classes.length = d.types.size
  magic : m.magic = Module.standardMagic
  version : m.version = Module.currentVersion
  flags : m.flags = 0
  entryPoint : m.entryPoint = d.entryPoint.map (·.toUInt32)
  listing : m.listing.isSome = d.options.debugListing
  checksum : m.checksum = Digest.sha256 m.payload

structure Draft.Creates (d d' : Draft) : Prop where
  size : d'.types.size = d.types.size
  created : ∀ (i : Nat) (t : TypeDef), d.types[i]? = some t → t.created.isSome = true →
    ∃ t', d'.types[i]? = some t' ∧ t'.created.isSome = true

namespace BuildM

open Draft

variable {d d' : Draft}

instance : Std.Refl Creates := ⟨fun _ => ⟨rfl, fun _ t ht hc => ⟨t, ht, hc⟩⟩⟩

instance : Trans Creates Creates Creates where
  trans h h' := by
    refine ⟨h'.size.trans h.size, fun i t ht hc => ?_⟩
    obtain ⟨t', ht', hc'⟩ := h.created i t ht hc
    exact h'.created i t' ht' hc'

theorem creates_of_types (h : d'.types = d.types) : Creates d d' :=
  ⟨by rw [h], fun i t ht hc => ⟨t, by rw [h]; exact ht, hc⟩⟩

theorem creates_finalize (m : Nat) : Leads Creates (finalize m) := by
  refine (leads_finalize m).mono fun d d' h => ?_
  rw [h.rest]
  exact creates_of_types rfl

theorem creates_modifyType (id : Nat) (c : ClassEntry) :
    Creates d (d.modifyType id ({ · with created := some c })) := by
  refine ⟨Array.size_modify .., fun i t ht hc => ?_⟩
  rw [modifyType]
  exact exists_modify (fun t : TypeDef => t.created.isSome = true) hc rfl ht

theorem creates_createType (id : Nat) : Leads Creates (createType id) :=
  leads_createType creates_finalize (fun _ => creates_modifyType) id

theorem createType_eq_ok {id : Nat} {c : ClassEntry} (h : createType id d = .ok c d') :
    ∃ t, d'.types[id]? = some t ∧ t.created = some c := by
  rw [createType, get_bind] at h
  obtain ⟨t, hfound, h⟩ := reading_bind_eq_ok.mp h
  rw [type_eq_ok] at hfound
  cases hcreated : t.created with
  | some c' =>
    simp only [hcreated] at h
    cases h
    exact ⟨t, hfound, hcreated⟩
  | none =>
    simp only [hcreated] at h
    obtain ⟨-, h⟩ := guard_eq_ok.mp h
    obtain ⟨u, d₁, hbases, h⟩ := bind_eq_ok.mp h
    obtain ⟨u', d₂, hbodies, h⟩ := bind_eq_ok.mp h
    cases h
    obtain ⟨c₁, ht₁⟩ := Leads.of_ok (.forM (fun i => (retypes_createTypeBelow _ i).map _) _) hbases
      id t hfound
    obtain ⟨c₂, ht₂⟩ := Leads.of_ok (.forM retypes_finalize _) hbodies id _ ht₁
    refine ⟨{ t with created := some (d₂.toClass t) }, ?_, rfl⟩
    rw [modifyType, Array.getElem?_modify, if_pos rfl, ht₂]
    rfl

theorem created_of_mapM {ids : List Nat} {classes : List ClassEntry}
    (h : ids.mapM createType d = .ok classes d') :
    classes.length = ids.length ∧
      ∀ id ∈ ids, ∃ t, d'.types[id]? = some t ∧ t.created.isSome = true := by
  induction ids generalizing d classes with
  | nil =>
    cases h
    exact ⟨rfl, fun _ hid => nomatch hid⟩
  | cons id ids ih =>
    rw [List.mapM_cons] at h
    obtain ⟨c, d₁, hid, h⟩ := bind_eq_ok.mp h
    obtain ⟨classes', d₂, hids, h⟩ := bind_eq_ok.mp h
    cases h
    obtain ⟨hlength, hrest⟩ := ih hids
    refine ⟨congrArg (· + 1) hlength, fun i hi => ?_⟩
    obtain rfl | hi := List.mem_cons.mp hi
    · obtain ⟨t, ht, hcreated⟩ := createType_eq_ok hid
      have hstays : Leads Creates (ids.mapM createType) := .mapM creates_createType ids
      exact (hstays.of_ok hids).created i t ht (by rw [hcreated]; rfl)
    · exact hrest i hi

theorem assemble_eq_ok (h : assemble d = .ok m d') :
    d'.Yields m ∧ ∀ (i : Nat) (t : TypeDef), d'.types[i]? = some t → t.created.isSome = true := by
  rw [assemble, get_bind] at h
  obtain ⟨-, h⟩ := guard_eq_ok.mp h
  obtain ⟨-, h⟩ := guard_eq_ok.mp h
  obtain ⟨enums, d₁, henums, h⟩ := bind_eq_ok.mp h
  obtain ⟨classes, d₂, hclasses, h⟩ := bind_eq_ok.mp h
  rw [get_bind] at h
  obtain ⟨functions, hfunctions, h⟩ := ofExcept_bind_eq_ok.mp h
  cases h
  have hsize : d'.types.size = d.types.size := by
    have hstays : Leads Creates ((List.range d.types.size).mapM createType) :=
      .mapM creates_createType _
    rw [(hstays.of_ok hclasses).size]
    cases henums
    rfl
  obtain ⟨hlength, hcreated⟩ := created_of_mapM hclasses
  refine ⟨⟨hfunctions, rfl, ?_, rfl, rfl, rfl, rfl, ?_, rfl⟩, fun i t ht => ?_⟩
  · rw [hsize]
    exact hlength.trans List.length_range
  · dsimp only
    cases d'.options.debugListing <;> rfl
  · have hi := (Array.getElem?_eq_some_iff.mp ht).1
    obtain ⟨t', ht', hc⟩ := hcreated i (List.mem_range.mpr (hsize ▸ hi))
    rw [ht] at ht'
    cases ht'
    exact hc

end BuildM

structure Draft.Frozen (d : Draft) (m : Module) : Prop where
  created : d.created = some m
  yields : d.Yields m
  types : ∀ (i : Nat) (t : TypeDef), d.types[i]? = some t → t.created.isSome = true

theorem MethodDef.bits_flags (t : MethodDef) :
    (t.flags &&& Function.staticFlag != 0) = t.attrs.isStatic ∧
      (t.flags &&& Function.constructorFlag != 0) = t.isConstructor ∧
      (t.flags &&& Function.abstractFlag != 0) = t.attrs.isAbstract ∧
      (t.flags &&& Function.returnsValueFlag != 0) = !t.returnType.isVoid := by
  rw [flags]
  cases t.attrs.isStatic <;> cases t.isConstructor <;> cases t.attrs.isAbstract <;>
    cases t.returnType.isVoid <;> decide

theorem MethodDef.toFunction_eq_ok {t : MethodDef} {f : Function} (h : t.toFunction = .ok f) :
    ∃ body, t.state = .finished body ∧ f = {
      name := t.name
      owner := some t.owner.toUInt32
      flags := t.flags
      paramCount := t.paramCount
      paramKinds := t.paramTypes.map (·.valueKind)
      localCount := body.localCount
      code := body.code
      handlers := body.handlers } := by
  rw [toFunction, body?] at h
  cases hs : t.state with
  | finished body =>
    simp only [hs] at h
    cases h
    exact ⟨body, rfl, rfl⟩
  | _ =>
    simp only [hs] at h
    cases h

theorem Draft.Yields.function {d : Draft} (h : d.Yields m) :
    m.functions.length = d.methods.size ∧ ∀ (i : Nat) (t : MethodDef), d.methods[i]? = some t →
      ∃ f, m.functions[i]? = some f ∧ t.toFunction = .ok f := by
  obtain ⟨hlength, hall⟩ := except_mapM_eq_ok h.functions
  exact ⟨hlength, fun i t ht => hall i t (by simpa using ht)⟩

def Draft.Rests (d : Draft) (i : Nat) : Prop :=
  ∀ t, d.methods[i]? = some t → ∃ body, t.state = .finished body

namespace Draft.Rests

variable {d : Draft} {i : Nat}

theorem not_open (h : d.Rests i) {t : MethodDef} (ht : d.methods[i]? = some t) :
    t.ensureOpen ≠ .ok () := by
  intro hopen
  obtain ⟨body, hbody⟩ := h t ht
  rw [(MethodDef.state_of_ensureOpen hopen).1] at hbody
  cases hbody

theorem final_edit (h : d.Rests i) (e : Edit) : final (e.perform i d) = d := by
  cases he : e.perform i d with
  | ok r d' =>
    obtain ⟨t, t', c, hedited, -⟩ := Edit.perform_done he
    exact absurd (hedited.takes _ (.refl _)).isOpen (h.not_open hedited.found)
  | error err d' =>
    obtain rfl | ⟨-, t, ht, hopen, -⟩ := e.fails_perform d err d' he
    · rfl
    · exact absurd hopen (h.not_open ht)

theorem final_recording_bind (h : d.Rests i) {α β : Type} (op : MethodDef → BuildM α)
    (f : α → BuildM β) : final ((recording i op >>= f) d) = d := by
  cases hrecording : recording i op d with
  | ok a d' =>
    obtain ⟨t, ht, hopen, -⟩ := recording_eq_ok hrecording
    exact absurd hopen (h.not_open ht)
  | error e d' =>
    rw [bind_of_error hrecording]
    obtain rfl | ⟨t, ht, hopen, -⟩ := recording_eq_error hrecording
    · rfl
    · exact absurd hopen (h.not_open ht)

theorem final_finalize (h : d.Rests i) : final (finalize i d) = d := by
  refine final_finalize_of_not fun hopen => ?_
  obtain ⟨t, ht, hstate, -⟩ := hopen
  obtain ⟨body, hbody⟩ := h t ht
  rw [hstate] at hbody
  cases hbody

end Draft.Rests

def Operation.defines : Operation → Bool
  | .look _ _ | .edit _ _ | .bump _ _ _ | .callNamed _ _ _ _ | .finalize _ | .createType _ => false
  | _ => true

namespace Draft.Frozen

variable {d : Draft} {m : Module}

theorem finished (h : d.Frozen m) {i : Nat} {t : MethodDef} (ht : d.methods[i]? = some t) :
    ∃ body, t.state = .finished body := by
  obtain ⟨f, -, hf⟩ := h.yields.function.2 i t ht
  obtain ⟨body, hbody, -⟩ := MethodDef.toFunction_eq_ok hf
  exact ⟨body, hbody⟩

theorem rests (h : d.Frozen m) (i : Nat) : d.Rests i := fun _ => h.finished

theorem ensureOpen_ne (h : d.Frozen m) (u : Unit) : d.ensureOpen ≠ .ok u := by
  rw [Draft.ensureOpen, h.created]
  exact nofun

theorem openType_ne (h : d.Frozen m) (type : Nat) (t : TypeDef) : d.openType type ≠ .ok t := by
  intro hopen
  obtain ⟨_, -, hopen⟩ := except_bind_eq_ok.mp hopen
  obtain ⟨u, hopen, -⟩ := except_bind_eq_ok.mp hopen
  exact h.ensureOpen_ne u hopen

theorem open_error (h : d.Frozen m) {α β : Type} {x : Except BuildError α} {f : α → BuildM β}
    (hx : ∀ a, x = .ok a → (∃ u, d.ensureOpen = .ok u) ∨ ∃ type t, d.openType type = .ok t) :
    ∃ e, (ofExcept x >>= f) d = .error e d := by
  cases x with
  | error e => exact ⟨e, rfl⟩
  | ok a =>
    obtain ⟨u, hu⟩ | ⟨type, t, ht⟩ := hx a rfl
    · exact absurd hu (h.ensureOpen_ne u)
    · exact absurd ht (h.openType_ne type t)

theorem define_error (h : d.Frozen m) {op : Operation} (hop : op.defines = true) :
    ∃ e, op.perform d = .error e d := by
  have hmap {α : Type} {x : BuildM α} {g : α → List (Nat × Variable)}
      (hx : ∃ e, x d = .error e d) : ∃ e, (g <$> x) d = .error e d := by
    obtain ⟨e, he⟩ := hx
    exact ⟨e, map_eq_error.mpr he⟩
  have hdraft {α β : Type} {f : Unit → Except BuildError α} {g : α → BuildM β} :
      ∃ e, (ofExcept (d.ensureOpen >>= f) >>= g) d = .error e d := by
    refine h.open_error fun a ha => ?_
    obtain ⟨u, hu, -⟩ := except_bind_eq_ok.mp ha
    exact .inl ⟨u, hu⟩
  have htype {type : Nat} {α β : Type} {f : TypeDef → Except BuildError α} {g : α → BuildM β} :
      ∃ e, (ofExcept (d.openType type >>= f) >>= g) d = .error e d := by
    refine h.open_error fun a ha => ?_
    obtain ⟨t, ht, -⟩ := except_bind_eq_ok.mp ha
    exact .inr ⟨type, t, ht⟩
  cases op with
  | defineType | defineEnum | setEntryPoint => exact hmap hdraft
  | defineEnumMember enum name value =>
    refine hmap ?_
    rw [defineEnumMember, get_bind]
    cases d.enum enum with
    | error e => exact ⟨e, rfl⟩
    | ok e => exact hdraft
  | defineField | defineMethod | defineConstructor | defineDefaultConstructor | defineProperty |
    defineAutoProperty => exact hmap htype
  | _ => cases hop

theorem final_createType (h : d.Frozen m) (id : Nat) : final (createType id d) = d := by
  rw [createType, get_bind]
  cases hfound : d.type id with
  | error e =>
    have hread : reading (·.type id) d = .error e d := by
      simp only [reading, get_bind, hfound]
      rfl
    rw [createTypeBelow, bind_of_error hread, final]
  | ok t =>
    refine (congrArg final (bind_of_ok (reading_eq_ok.mpr ⟨hfound, rfl⟩))).trans ?_
    obtain ⟨c, hc⟩ := Option.isSome_iff_exists.mp (h.types id t (type_eq_ok.mp hfound))
    simp only [hc]
    rfl

theorem perform (h : d.Frozen m) (op : Operation) : final (op.perform d) = d := by
  by_cases hop : op.defines = true
  · obtain ⟨e, he⟩ := h.define_error hop
    rw [he]
    rfl
  cases op with
  | look i l => exact (final_map _).trans (final_reading _ d)
  | edit i e => exact (final_map _).trans ((h.rests i).final_edit e)
  | bump i op target => exact (final_map _).trans ((h.rests i).final_recording_bind _ _)
  | callNamed i receiver name args =>
    exact (final_map _).trans ((h.rests i).final_recording_bind _ _)
  | finalize i => exact (final_map _).trans (h.rests i).final_finalize
  | createType id => exact (final_map _).trans (h.final_createType id)
  | _ => exact absurd rfl hop

end Draft.Frozen

theorem ProjectM.frozen_of_create {p' : Project} (h : create p = .ok m p')
    (hp : ∀ m, p.draft.created = some m → p.draft.Frozen m) : p'.draft.Frozen m := by
  obtain ⟨hcreated, rfl⟩ | ⟨-, d, hd, heq⟩ := create_eq_ok h
  · exact hp m hcreated
  · obtain ⟨hyields, htypes⟩ := assemble_eq_ok hd
    rw [heq]
    exact ⟨rfl, { hyields with }, htypes⟩

/-- What is true of a draft and its module when the module is created stays true, since nothing
changes the draft any more. -/
theorem Session.of_assemble [Fair Allowed] {P : Draft → Module → Prop}
    (hP : ∀ {d d' : Draft} {m : Module} {issued : List (Nat × Variable)}, Course Allowed d issued →
      assemble d = .ok m d' → P { d' with created := some m } m)
    (h : Session Allowed p issued) (hm : p.draft.created = some m) :
    p.draft.Frozen m ∧ P p.draft m := by
  induction h generalizing m with
  | start name options disk => cases hm
  | done h op ho hop ih | failed h op ho hop ih =>
    obtain ⟨issued', hc, hsub⟩ := h.course
    obtain ⟨-, ⟨-, hcreated, -⟩, -⟩ :=
      hc.follows op fun o hmem => Fair.mono _ issued' o.1 o.2 hsub (ho o hmem)
    rw [hop] at hcreated
    obtain ⟨hfrozen, hp⟩ := ih (hcreated.symm.trans hm)
    have hsame := hfrozen.perform op
    rw [hop] at hsame
    cases hsame
    exact ⟨hfrozen, hp⟩
  | created h hcreate ih =>
    obtain ⟨issued', hc, -⟩ := h.course
    have hfrozen := ProjectM.frozen_of_create hcreate fun _ hm => (ih hm).1
    cases hfrozen.created.symm.trans hm
    obtain ⟨-, rfl⟩ | ⟨-, d, hassemble, hd⟩ := ProjectM.create_eq_ok hcreate
    · exact ih hm
    · refine ⟨hfrozen, ?_⟩
      rw [hd]
      exact hP hc hassemble
  | @uncreated p p' issued e h hcreate ih =>
    have hcreated : p'.draft.created = p.draft.created := by
      rw [(ProjectM.create_eq_error hcreate).1]
      have hgoes : Goes Allowed _ _ := goes_assemble p.draft
      exact hgoes.created
    rw [ProjectM.create_of_created (hcreated.symm.trans hm)] at hcreate
    cases hcreate

theorem Session.frozen [Fair Allowed] (h : Session Allowed p issued) (hm : p.draft.created = some m) :
    p.draft.Frozen m :=
  (h.of_assemble (P := fun _ _ => True) (fun _ _ => trivial) hm).1

theorem Session.frozen_of_create [Fair Allowed] {p' : Project} (h : Session Allowed p issued)
    (hcreate : ProjectM.create p = .ok m p') : p'.draft.Frozen m :=
  ProjectM.frozen_of_create hcreate fun _ => h.frozen

end Bytesmith.Build
