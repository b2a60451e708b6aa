import Bytesmith.Proofs.Consistency
import Bytesmith.Proofs.Truncation

namespace Bytesmith.Wire

theorem toUInt32_ne_noIndex {i n : Nat} (hi : i < n) (hn : n < 2 ^ 32) : i.toUInt32 ≠ noIndex := by
  intro h
  have hmod : i.toUInt32.toNat = i := Nat.mod_eq_of_lt (Nat.lt_trans hi hn)
  rw [h] at hmod
  have hlast : noIndex.toNat = 4294967295 := rfl
  omega

theorem map_toUInt32_ne_noIndex {index : Option Nat} {n : Nat} (h : ∀ i, index = some i → i < n)
    (hn : n < 2 ^ 32) : index.map (·.toUInt32) ≠ some noIndex := by
  intro hindex
  obtain ⟨i, hi, hlast⟩ := Option.map_eq_some_iff.mp hindex
  exact toUInt32_ne_noIndex (h i hi) hn hlast

end Bytesmith.Wire

namespace Bytesmith.Code

@[mk_iff]
structure Module.Fits (m : Module) : Prop where
  name : TextFits m.name
  constants : m.constants.size < 2 ^ 32
  eachConstant : ∀ s ∈ m.constants.strings, TextFits s
  functions : m.functions.length < 2 ^ 32
  eachFunction : ∀ f ∈ m.functions, f.Bounded
  classes : m.classes.length < 2 ^ 32
  eachClass : ∀ c ∈ m.classes, c.Bounded
  fields : m.fields.length < 2 ^ 32
  eachField : ∀ f ∈ m.fields, TextFits f.name
  enums : m.enums.length < 2 ^ 32
  eachEnum : ∀ e ∈ m.enums, e.Encodable
  listing : ∀ s ∈ m.listing, TextFits s

instance (m : Module) : Decidable m.Fits := decidable_of_iff _ (Module.fits_iff m).symm

end Bytesmith.Code

namespace Bytesmith.Build

open Code Outcome Wire

variable {d d' : Draft} {m : Module} {p p' : Project} {issued : List (Nat × Variable)}

theorem Course.constants_built {Allowed : List (Nat × Variable) → Nat → Variable → Prop}
    (h : Course Allowed d issued) : ∃ strings, d.constants = Pool.ofList strings := by
  have hextends : d.constants.Extends .empty := by
    induction h with
    | start => exact .refl _
    | declare h hd ih => exact hd.grows.constants.trans ih
    | edit h e ho hs he ih => exact he.grows.trans ih
    | abort h ha ih => exact ha.grows.constants.trans ih
    | look _ _ _ _ ih | finish _ _ _ _ _ ih | synthesize _ _ _ _ _ _ ih | create _ _ ih => exact ih
  exact hextends

def Draft.Enters (d : Draft) : Prop := ∀ m, d.entryPoint = some m → m < d.methods.size

namespace BuildM

open Draft

theorem absorbs_enters : Absorbs (Preserves Enters) where
  same d d' h hd m hm := by
    have hentry : d'.bare.entryPoint = d.bare.entryPoint := by rw [h]
    have hsize : d'.bare.methods.size = d.bare.methods.size := by rw [h]
    simp only [bare, Array.size_map] at hentry hsize
    rw [hsize]
    exact hd m (hentry ▸ hm)
  backing _ _ _ h := h
  defineType _ _ _ _ := leads_checked fun _ _ h => h
  defineEnum _ := leads_checked fun _ _ h => h
  defineEnumMember _ _ _ := leads_checked fun _ _ => related_check fun _ _ h => h
  defineField _ _ _ _ := leads_checked fun _ _ h => h
  defineMethod _ _ _ _ _ := leads_checked fun _ _ h m hm =>
    Nat.lt_of_lt_of_eq (Nat.lt_succ_of_lt (h m hm)) (Array.size_push _).symm
  defineConstructor _ _ _ := leads_checked fun _ _ h m hm =>
    Nat.lt_of_lt_of_eq (Nat.lt_succ_of_lt (h m hm)) (Array.size_push _).symm
  defineProperty _ _ _ _ _ := leads_checked fun _ _ h => h
  setEntryPoint m d := by
    rw [setEntryPoint, get_bind]
    refine related_check fun _ hcheck _ m' hm' => ?_
    obtain ⟨_, -, hcheck⟩ := except_bind_eq_ok.mp hcheck
    obtain ⟨target, htarget, -⟩ := except_bind_eq_ok.mp hcheck
    cases hm'
    exact lt_size_of_found (method_eq_ok.mp htarget)

end BuildM

theorem Session.enters (h : Session Anything p issued) : p.draft.Enters := by
  refine h.of_leads (fun name options m hm => ?_) BuildM.absorbs_enters.perform fun p =>
    BuildM.absorbs_enters.same _ _ (ProjectM.sameDefinitions_create p)
  cases hm

theorem ProjectM.options_of_create (hcreate : ProjectM.create p = .ok m p') :
    p'.draft.options = p.draft.options := by
  have hsame := ProjectM.sameDefinitions_create p
  rw [hcreate] at hsame
  have hoptions : p'.draft.bare.options = p.draft.bare.options := congrArg Draft.options hsame
  exact hoptions

theorem Draft.Yields.encodable (hy : d.Yields m) (htypes : d.types.size < 2 ^ 32)
    (howners : ∀ (i : Nat) (t : MethodDef), d.methods[i]? = some t →
      ∃ type, d.types[t.owner]? = some type) {f : Function} (hf : f ∈ m.functions)
    (hbounded : f.Bounded) : f.Encodable := by
  obtain ⟨hlength, hall⟩ := hy.function
  obtain ⟨i, hi⟩ := List.mem_iff_getElem?.mp hf
  have hlt : i < d.methods.size := hlength ▸ (List.getElem?_eq_some_iff.mp hi).1
  have ht := Array.getElem?_eq_getElem hlt
  obtain ⟨f', hf', hfunction⟩ := hall i _ ht
  cases hi.symm.trans hf'
  obtain ⟨type, htype⟩ := howners i _ ht
  obtain ⟨body, -, rfl⟩ := MethodDef.toFunction_eq_ok hfunction
  obtain ⟨hname, hcount, hkinds, hlocals, hcode, hhandlers⟩ := hbounded
  refine ⟨hname, fun howner => ?_, hcount, hkinds, hlocals, hcode, hhandlers⟩
  exact toUInt32_ne_noIndex (Array.getElem?_eq_some_iff.mp htype).1 htypes (Option.some.inj howner)

theorem Draft.Tabulates.encodable (ht : d.Tabulates m) (hd : d.Consistent)
    (htypes : d.types.size < 2 ^ 32) (hmethods : d.methods.size < 2 ^ 32) {c : ClassEntry}
    (hc : c ∈ m.classes) (hbounded : c.Bounded) : c.Encodable := by
  obtain ⟨i, hi⟩ := List.mem_iff_getElem?.mp hc
  have hlt : i < d.types.size := ht.count ▸ (List.getElem?_eq_some_iff.mp hi).1
  have htype := Array.getElem?_eq_getElem hlt
  cases hi.symm.trans (ht.classes i _ htype)
  obtain ⟨hname, hinterfaces, hfields, hentries, hnames, hconstructors, hproperties, hpropertyNames⟩ :=
    hbounded
  refine ⟨hname, map_toUInt32_ne_noIndex (fun b hb => ?_) htypes, hinterfaces, hfields, hentries,
    hnames, hconstructors, hproperties, fun entry hentry => ?_⟩
  · have hbase := (hd.listed i _ htype).bases b
      (List.mem_append_right _ (Option.mem_toList.mpr hb))
    exact Nat.lt_trans hbase hlt
  · obtain ⟨k, -, hk⟩ := List.mem_filterMap.mp hentry
    obtain ⟨property, hproperty, rfl⟩ := Option.map_eq_some_iff.mp hk
    have hfitted := hd.fitted k property hproperty
    refine ⟨hpropertyNames _ hentry, map_toUInt32_ne_noIndex (fun g hg => ?_) hmethods,
      map_toUInt32_ne_noIndex (fun s hs => ?_) hmethods⟩
    · obtain ⟨e, he, -⟩ := hfitted.getter g hg
      exact lt_size_of_found he
    · obtain ⟨e, he, -⟩ := hfitted.setter s hs
      exact lt_size_of_found he

theorem Session.encodable_of_create (h : Session Anything p issued)
    (hcreate : ProjectM.create p = .ok m p') (hfits : m.Fits) : m.Encodable := by
  have h' := h.created hcreate
  have hfrozen := h.frozen_of_create hcreate
  have htables := h'.tabulates hfrozen.created
  obtain ⟨issued', hc, -⟩ := h'.course
  have htypes : p'.draft.types.size < 2 ^ 32 := htables.count ▸ hfits.classes
  have hmethods : p'.draft.methods.size < 2 ^ 32 := hfrozen.yields.function.1 ▸ hfits.functions
  exact
    { magic := hfrozen.yields.magic
      version := hfrozen.yields.version
      name := hfits.name
      entryPoint := by
        rw [hfrozen.yields.entryPoint]
        exact map_toUInt32_ne_noIndex h'.enters hmethods
      constants := ⟨hfrozen.yields.constants ▸ hc.constants_built, hfits.constants,
        hfits.eachConstant⟩
      functions := hfits.functions
      eachFunction := fun f hf =>
        hfrozen.yields.encodable htypes hc.owner hf (hfits.eachFunction f hf)
      classes := hfits.classes
      eachClass := fun c hc =>
        htables.encodable h'.consistent htypes hmethods hc (hfits.eachClass c hc)
      fields := hfits.fields
      fieldNames := hfits.eachField
      enums := hfits.enums
      eachEnum := hfits.eachEnum
      listing := hfits.listing }

theorem Session.decode_of_create (h : Session Anything p issued)
    (hcreate : ProjectM.create p = .ok m p') (hfits : m.Fits) :
    Module.decode m.encode.toArray = .ok
      { m with flags := if p.draft.options.debugListing then Module.listingFlag else 0 } := by
  obtain ⟨-, -, -, -, -, hflags, -, hlisting, hchecksum⟩ := (h.frozen_of_create hcreate).yields
  have hwritten : m.writtenFlags =
      if p.draft.options.debugListing then Module.listingFlag else 0 := by
    rw [Module.writtenFlags, hflags, hlisting, ProjectM.options_of_create hcreate]
    cases p.draft.options.debugListing <;> rfl
  rw [m.decode_written (h.encodable_of_create hcreate hfits), hwritten, ← hchecksum]

/-- Whatever a module has been through, its file is read without an error, and what is read is the
module that was created but for the flags. These are clear in the module and tell of the listing in
the file. -/
theorem Session.decode_encode_of_create (h : Session Anything p issued)
    (hcreate : ProjectM.create p = .ok m p') (hfits : m.Fits) :
    m.flags = 0 ∧
    Module.decode m.encode.toArray = .ok
      { m with flags := if p.draft.options.debugListing then Module.listingFlag else 0 } ∧
    (Module.decode m.encode.toArray = .ok m ↔ p.draft.options.debugListing = false) := by
  have hflags := (h.frozen_of_create hcreate).yields.flags
  have hdecode := h.decode_of_create hcreate hfits
  refine ⟨hflags, hdecode, ?_⟩
  rw [hdecode]
  cases hlisting : p.draft.options.debugListing with
  | false =>
    rw [if_neg Bool.false_ne_true, ← hflags]
    exact iff_of_true rfl rfl
  | true =>
    refine iff_of_false (fun heq => ?_) Bool.noConfusion
    have hset := congrArg Module.flags (Except.ok.inj heq)
    rw [hflags] at hset
    cases hset

/-- A square with a label, and what a program starts with. -/
def labelled : List Request := [
  .perform (.defineEnum "Colour"),
  .perform (.defineEnumMember 0 "Red" (-1)),
  .perform (.defineType "Shape" { isAbstract := true } none []),
  .perform (.defineAutoProperty 0 "Side" .int),
  .perform (.defineType "Square" {} (some 0) []),
  .perform (.defineMethod 1 "label" { isStatic := true } .string []),
  .perform (.edit 2 (.ret (.constant (.string "square")))),
  .perform (.setEntryPoint 2)]

def labelledProject : Project := (Request.makeAll labelled (⟨.empty "Shapes"
  { kind := .executable, debugListing := true }, .empty⟩, [])).1

theorem Session.exists_labelled : ∃ issued m p', Session Anything labelledProject issued ∧
    ProjectM.create labelledProject = .ok m p' ∧ m.Fits ∧
    labelledProject.draft.options.debugListing = true := by
  obtain ⟨issued, h⟩ := Session.of_makeAll labelled "Shapes"
    { kind := .executable, debugListing := true }
  have hcreates : labelledProject.creates (fun m _ => decide m.Fits) = true := by decide +kernel
  obtain ⟨m, p', hcreate, hfits⟩ := Project.exists_of_creates hcreates
  exact ⟨issued, m, p', h, hcreate, of_decide_eq_true hfits, by decide +kernel⟩

theorem Session.decode_encode_of_create_labelled : ∃ issued m p',
    Session Anything labelledProject issued ∧ ProjectM.create labelledProject = .ok m p' ∧
    m.Fits ∧ m.flags = 0 ∧
    Module.decode m.encode.toArray = .ok { m with flags := Module.listingFlag } := by
  obtain ⟨issued, m, p', h, hcreate, hfits, hlisting⟩ := Session.exists_labelled
  obtain ⟨hflags, hdecode, -⟩ := h.decode_encode_of_create hcreate hfits
  rw [hlisting, if_pos rfl] at hdecode
  exact ⟨issued, m, p', h, hcreate, hfits, hflags, hdecode⟩

/-- The flags of a module with a listing do not come back as they were. -/
theorem Session.flags_differ_labelled : ∃ issued m p', Session Anything labelledProject issued ∧
    ProjectM.create labelledProject = .ok m p' ∧ m.Fits ∧
    Module.decode m.encode.toArray ≠ .ok m := by
  obtain ⟨issued, m, p', h, hcreate, hfits, hlisting⟩ := Session.exists_labelled
  refine ⟨issued, m, p', h, hcreate, hfits, fun hsame => ?_⟩
  rw [h.decode_of_create hcreate hfits, hlisting, if_pos rfl] at hsame
  have hset := congrArg Module.flags (Except.ok.inj hsame)
  rw [(h.frozen_of_create hcreate).yields.flags] at hset
  cases hset

end Bytesmith.Build
