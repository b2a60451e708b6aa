import Bytesmith.Proofs.Creation

namespace Bytesmith.Build

open Code Outcome

/-- What can be asked of a project: an operation on its draft, or its module. -/
inductive Request
  | perform (op : Operation)
  | create

/-- The requests that were made, the latest first, each with whether it was granted. -/
abbrev Log := List (Request × Bool)

namespace Request

def answer (p : Project) : Request → Project × Bool
  | .perform op => match op.perform p.draft with
    | .ok _ d => ({ p with draft := d }, true)
    | .error _ d => ({ p with draft := d }, false)
  | .create => match ProjectM.create p with
    | .ok _ p' => (p', true)
    | .error _ p' => (p', false)

def makeAll : List Request → Project × Log → Project × Log
  | [], s => s
  | r :: rs, (p, log) =>
    let (p', granted) := r.answer p
    makeAll rs (p', (r, granted) :: log)

end Request

namespace Log

def enums : Log → List String
  | [] => []
  | (.perform (.defineEnum name), true) :: log => enums log ++ [name]
  | _ :: log => enums log

def members (i : Nat) : Log → List (String × Int32)
  | [] => []
  | (.perform (.defineEnumMember enum name value), true) :: log =>
    if enum = i then members i log ++ [(name, value)] else members i log
  | _ :: log => members i log

def hasEntryPoint : Log → Bool
  | [] => false
  | (.perform (.setEntryPoint _), true) :: _ => true
  | _ :: log => hasEntryPoint log

def reachesEnums (kind : ModuleKind) (log : Log) : Bool :=
  kind ≠ .executable || log.hasEntryPoint

/-- Whether a creation was tried that fixed the table of the enum. -/
def isFixed (kind : ModuleKind) (i : Nat) : Log → Bool
  | [] => false
  | (.create, _) :: log =>
    isFixed kind i log || (reachesEnums kind log && decide (i < (enums log).length))
  | _ :: log => isFixed kind i log

/-- The members that an enum was granted when its table was fixed already. -/
def lateMembers (kind : ModuleKind) (i : Nat) : Log → List (String × Int32)
  | [] => []
  | (.perform (.defineEnumMember enum name value), true) :: log =>
    if enum = i ∧ isFixed kind i log then lateMembers kind i log ++ [(name, value)]
    else lateMembers kind i log
  | _ :: log => lateMembers kind i log

/-- Requests that neither define enums, members or an entry point nor create leave no trace. -/
def IsIdle : Request × Bool → Prop
  | (.create, _) => False
  | (.perform (.defineEnum _), granted) | (.perform (.defineEnumMember _ _ _), granted)
  | (.perform (.setEntryPoint _), granted) => granted = false
  | _ => True

end Log

def EnumDef.withMember (e : EnumDef) (member : String × Int32) : EnumDef :=
  { e with members := e.members ++ [member] }

def EnumDef.fix (e : EnumDef) : EnumDef := { e with created := some e.table }

structure Draft.Keeps (d d' : Draft) : Prop where
  enums : d'.enums = d.enums
  entryPoint : d'.entryPoint = d.entryPoint
  options : d'.options = d.options
  created : d'.created = d.created

theorem Draft.Touches.keeps {d d' : Draft} {m : Nat} (h : Draft.Touches m d d') : d.Keeps d' := by
  rw [h.rest]
  exact ⟨rfl, rfl, rfl, rfl⟩

def Draft.fixEnums (d : Draft) : Draft :=
  if d.options.kind = .executable ∧ d.entryPoint = none then d
  else { d with enums := d.enums.map EnumDef.fix }

namespace Draft

theorem options_fixEnums (d : Draft) : d.fixEnums.options = d.options := by
  unfold fixEnums
  split <;> rfl

theorem entryPoint_fixEnums (d : Draft) : d.fixEnums.entryPoint = d.entryPoint := by
  unfold fixEnums
  split <;> rfl

theorem created_fixEnums (d : Draft) : d.fixEnums.created = d.created := by
  unfold fixEnums
  split <;> rfl

theorem enums_fixEnums {d : Draft} (h : ∀ e ∈ d.enums, e.created.isSome = true) :
    d.fixEnums.enums = d.enums := by
  unfold fixEnums
  split
  · rfl
  · refine (Array.map_congr_left fun e he => ?_).trans (Array.map_id _)
    obtain ⟨table, htable⟩ := Option.isSome_iff_exists.mp (h e he)
    rw [EnumDef.fix, EnumDef.table, htable, Option.getD_some, ← htable]
    rfl

end Draft

namespace BuildM

open Draft

variable {d d' : Draft} {m : Nat}

instance : Std.Refl Keeps := ⟨fun _ => ⟨rfl, rfl, rfl, rfl⟩⟩

instance : Trans Keeps Keeps Keeps where
  trans h h' := ⟨h'.enums.trans h.enums, h'.entryPoint.trans h.entryPoint,
    h'.options.trans h.options, h'.created.trans h.created⟩

theorem keeps_edit (m : Nat) (e : Edit) : Leads Keeps (e.perform m) :=
  (touches_edit m e).mono fun _ _ h => h.keeps

theorem keeps_defineField (type : Nat) (name : String) (ty : StaticType)
    (attrs : FieldAttributes) : Leads Keeps (defineField type name ty attrs) :=
  leads_checked fun _ _ => ⟨rfl, rfl, rfl, rfl⟩

theorem keeps_defineMethod (type : Nat) (name : String) (attrs : MethodAttributes)
    (returnType : StaticType) (params : List Parameter) :
    Leads Keeps (defineMethod type name attrs returnType params) :=
  leads_checked fun _ _ => ⟨rfl, rfl, rfl, rfl⟩

theorem keeps_defineConstructor (type : Nat) (attrs : MethodAttributes)
    (params : List Parameter) : Leads Keeps (defineConstructor type attrs params) :=
  leads_checked fun _ _ => ⟨rfl, rfl, rfl, rfl⟩

theorem keeps_defineProperty (type : Nat) (name : String) (ty : StaticType)
    (getter setter : Option Nat) : Leads Keeps (defineProperty type name ty getter setter) :=
  leads_checked fun _ _ => ⟨rfl, rfl, rfl, rfl⟩

theorem keeps_synthesize (m : Nat) (code : List (Instr Label)) : Leads Keeps (synthesize m code) :=
  (touches_synthesize m code).mono fun _ _ h => h.keeps

theorem keeps_finalize (m : Nat) : Leads Keeps (finalize m) :=
  (leads_finalize m).mono fun _ _ h => h.keeps

theorem keeps_createType (id : Nat) : Leads Keeps (createType id) :=
  leads_createType keeps_finalize (fun _ _ _ => ⟨rfl, rfl, rfl, rfl⟩) id

theorem keeps_perform {op : Operation} (h : Log.IsIdle (.perform op, true)) :
    Leads Keeps op.perform := by
  cases op with
  | defineType name attrs base interfaces =>
    exact Leads.map (leads_checked fun _ _ => ⟨rfl, rfl, rfl, rfl⟩) _
  | defineEnum | defineEnumMember | setEntryPoint => cases h
  | defineField type name ty attrs => exact (keeps_defineField _ _ _ _).map _
  | defineMethod type name attrs returnType params => exact (keeps_defineMethod _ _ _ _ _).map _
  | defineConstructor type attrs params => exact (keeps_defineConstructor _ _ _).map _
  | defineDefaultConstructor type attrs =>
    exact (leads_defineDefaultConstructor (keeps_defineConstructor type attrs []) keeps_edit).map _
  | defineProperty type name ty getter setter => exact (keeps_defineProperty _ _ _ _ _).map _
  | defineAutoProperty type name ty =>
    refine (leads_defineAutoProperty fun d id d' hg => ?_).map _
    exact (leads_generateProperty keeps_defineField keeps_defineMethod keeps_synthesize
      keeps_defineProperty (fun _ _ _ => ⟨rfl, rfl, rfl, rfl⟩) type name ty).of_ok hg
  | look m l => exact Leads.map (.of_state (final_reading _)) _
  | edit m e => exact (keeps_edit m e).map _
  | bump m op target => exact ((touches_bump m op target).mono fun _ _ h => h.keeps).map _
  | callNamed m receiver name args =>
    exact ((touches_callNamed m receiver name args).mono fun _ _ h => h.keeps).map _
  | finalize m => exact (keeps_finalize m).map _
  | createType id => exact (keeps_createType id).map _

variable {err : BuildError} {name : String}

theorem eq_of_check_eq_error {α β : Type} {x : Except BuildError α} {f : α → BuildM β}
    (hf : ∀ a, f a d ≠ .error err d') (h : (ofExcept x >>= f) d = .error err d') : d = d' := by
  obtain h | ⟨a, s, hx, h⟩ := bind_eq_error.mp h
  · exact ofExcept_eq_error h
  · obtain ⟨-, rfl⟩ := ofExcept_eq_ok.mp hx
    exact absurd h (hf a)

theorem defineEnum_eq_error (h : defineEnum name d = .error err d') : d = d' := by
  rw [defineEnum, get_bind] at h
  exact eq_of_check_eq_error (fun _ hset => by cases hset) h

theorem defineEnumMember_eq_error {i : Nat} {value : Int32}
    (h : defineEnumMember i name value d = .error err d') : d = d' := by
  rw [defineEnumMember, get_bind] at h
  obtain h | ⟨e, s, he, h⟩ := bind_eq_error.mp h
  · exact ofExcept_eq_error h
  · obtain ⟨-, rfl⟩ := ofExcept_eq_ok.mp he
    exact eq_of_check_eq_error (fun _ hset => by cases hset) h

theorem setEntryPoint_eq_error (h : setEntryPoint m d = .error err d') : d = d' := by
  rw [setEntryPoint, get_bind] at h
  exact eq_of_check_eq_error (fun _ hset => by cases hset) h

theorem defineEnum_eq_ok {i : Nat} (h : defineEnum name d = .ok i d') :
    d.created = none ∧ d' = { d with enums := d.enums.push ⟨name, [], none⟩ } := by
  rw [defineEnum, get_bind] at h
  obtain ⟨_, hcheck, h⟩ := ofExcept_bind_eq_ok.mp h
  obtain ⟨_, hopen, -⟩ := except_bind_eq_ok.mp hcheck
  cases h
  exact ⟨ensureOpen_eq_ok.mp hopen, rfl⟩

theorem defineEnumMember_eq_ok {i : Nat} {value : Int32} {u : Unit}
    (h : defineEnumMember i name value d = .ok u d') :
    d.created = none ∧ (∃ e, d.enums[i]? = some e) ∧
      d' = { d with enums := d.enums.modify i (·.withMember (name, value)) } := by
  rw [defineEnumMember, get_bind] at h
  obtain ⟨e, he, h⟩ := ofExcept_bind_eq_ok.mp h
  obtain ⟨_, hcheck, h⟩ := ofExcept_bind_eq_ok.mp h
  obtain ⟨_, hopen, -⟩ := except_bind_eq_ok.mp hcheck
  cases h
  exact ⟨ensureOpen_eq_ok.mp hopen, ⟨e, find_eq_ok.mp he⟩, rfl⟩

theorem setEntryPoint_eq_ok {u : Unit} (h : setEntryPoint m d = .ok u d') :
    d.created = none ∧ d' = { d with entryPoint := some m } := by
  rw [setEntryPoint, get_bind] at h
  obtain ⟨_, hcheck, h⟩ := ofExcept_bind_eq_ok.mp h
  obtain ⟨_, hopen, -⟩ := except_bind_eq_ok.mp hcheck
  cases h
  exact ⟨ensureOpen_eq_ok.mp hopen, rfl⟩

theorem keeps_assemble (d : Draft) : Keeps d.fixEnums (final (assemble d)) := by
  rw [assemble, get_bind]
  by_cases hempty : (d.types.isEmpty && d.enums.isEmpty) = true
  · rw [if_pos hempty]
    obtain ⟨-, hnone⟩ := Bool.and_eq_true_iff.mp hempty
    rw [Array.isEmpty_iff] at hnone
    have hsame : d.fixEnums = d := by
      rw [fixEnums, hnone, Array.map_empty, ← hnone, ite_self]
    rw [hsame]
    exact Std.Refl.refl d
  · rw [if_neg hempty]
    by_cases hentry : d.options.kind = .executable ∧ d.entryPoint = none
    · rw [fixEnums, if_pos hentry, if_pos (by simpa using hentry)]
      exact Std.Refl.refl d
    · rw [fixEnums, if_neg hentry, if_neg (by simpa using hentry)]
      -- the tables are fixed, and what follows keeps them
      change Keeps _ (final (((List.range d.types.size).mapM createType >>= _)
        { d with enums := d.enums.map EnumDef.fix }))
      exact Leads.bind (.mapM keeps_createType _) (fun _ => .get_bind fun d =>
        Leads.bind (.of_state (final_ofExcept _)) fun _ => .pure _) _

theorem enums_of_assemble {m : Module} (h : assemble d = .ok m d') :
    m.enums = d.enums.toList.map EnumDef.table ∧
      d.fixEnums = { d with enums := d.enums.map EnumDef.fix } := by
  rw [assemble, get_bind] at h
  obtain ⟨-, h⟩ := guard_eq_ok.mp h
  obtain ⟨hentry, h⟩ := guard_eq_ok.mp h
  obtain ⟨enums, d₁, henums, h⟩ := bind_eq_ok.mp h
  cases henums
  obtain ⟨classes, d₂, hclasses, h⟩ := bind_eq_ok.mp h
  rw [get_bind] at h
  obtain ⟨functions, hfunctions, h⟩ := ofExcept_bind_eq_ok.mp h
  cases h
  exact ⟨rfl, by rw [fixEnums, if_neg (by simpa using hentry)]⟩

end BuildM

structure Log.Fits (kind : ModuleKind) (log : Log) (i : Nat) (e : EnumDef) : Prop where
  members : log.members i = e.members
  fixed : log.isFixed kind i = e.created.isSome
  name : e.table.name = e.name
  table : e.members = e.table.members ++ log.lateMembers kind i

structure Log.Tells (kind : ModuleKind) (log : Log) (d : Draft) : Prop where
  options : d.options.kind = kind
  entryPoint : log.hasEntryPoint = d.entryPoint.isSome
  names : log.enums = d.enums.toList.map (·.name)
  fits : ∀ (i : Nat) (e : EnumDef), d.enums[i]? = some e → log.Fits kind i e
  unborn : ∀ i name, d.enums.size ≤ i → log.Fits kind i ⟨name, [], none⟩
  module : ∀ m, d.created = some m → m.enums = d.enums.toList.map EnumDef.table ∧
    ∀ e ∈ d.enums, e.created.isSome = true

namespace Log

variable {kind : ModuleKind} {log : Log} {d d' : Draft} {i : Nat} {e : EnumDef}

theorem Tells.idle {r : Request × Bool} (h : log.Tells kind d) (hr : IsIdle r)
    (hd : d.Keeps d') : Tells kind (r :: log) d' := by
  have hsame : enums (r :: log) = enums log ∧ hasEntryPoint (r :: log) = hasEntryPoint log ∧
      ∀ i, members i (r :: log) = members i log ∧ isFixed kind i (r :: log) = isFixed kind i log ∧
        lateMembers kind i (r :: log) = lateMembers kind i log := by
    obtain ⟨request, granted⟩ := r
    cases request with
    | create => exact hr.elim
    | perform op =>
      cases op with
      | defineEnum | defineEnumMember | setEntryPoint =>
        obtain rfl : granted = false := hr
        exact ⟨rfl, rfl, fun _ => ⟨rfl, rfl, rfl⟩⟩
      | _ => exact ⟨rfl, rfl, fun _ => ⟨rfl, rfl, rfl⟩⟩
  obtain ⟨henums, hentry, hrest⟩ := hsame
  have hfits {i : Nat} {e : EnumDef} (hf : log.Fits kind i e) : Fits kind (r :: log) i e := by
    obtain ⟨hmembers, hfixed, hlate⟩ := hrest i
    exact ⟨hmembers.trans hf.members, hfixed.trans hf.fixed, hf.name, by rw [hlate, ← hf.table]⟩
  refine ⟨by rw [hd.options, h.options], by rw [hentry, hd.entryPoint, h.entryPoint],
    by rw [henums, hd.enums, h.names], fun i e he => ?_, fun i name hi => ?_, fun m hm => ?_⟩
  · exact hfits (h.fits i e (hd.enums ▸ he))
  · exact hfits (h.unborn i name (hd.enums ▸ hi))
  · rw [hd.enums]
    exact h.module m (hd.created ▸ hm)

variable {name : String} {value : Int32} {p : Project}

theorem Tells.defineEnum (h : log.Tells kind d) (hc : d.created = none) :
    Tells kind ((.perform (.defineEnum name), true) :: log)
      { d with enums := d.enums.push ⟨name, [], none⟩ } := by
  refine ⟨h.options, h.entryPoint, ?_, fun i e he => ?_, fun i name' hi => ?_, fun m hm => ?_⟩
  · rw [Array.toList_push, List.map_append, ← h.names]
    rfl
  · obtain he | ⟨rfl, rfl⟩ := getElem?_push_cases he
    · obtain ⟨hmembers, hfixed, hname, htable⟩ := h.fits i e he
      exact ⟨hmembers, hfixed, hname, htable⟩
    · obtain ⟨hmembers, hfixed, hname, htable⟩ := h.unborn _ name (Nat.le_refl _)
      exact ⟨hmembers, hfixed, hname, htable⟩
  · rw [Array.size_push] at hi
    obtain ⟨hmembers, hfixed, hname, htable⟩ := h.unborn i name' (Nat.le_of_succ_le hi)
    exact ⟨hmembers, hfixed, hname, htable⟩
  · exact absurd hm (by rw [hc]; exact nofun)

theorem Tells.setEntryPoint {m : Nat} (h : log.Tells kind d) (hc : d.created = none) :
    Tells kind ((.perform (.setEntryPoint m), true) :: log) { d with entryPoint := some m } := by
  refine ⟨h.options, rfl, h.names, fun i e he => ?_, fun i name hi => ?_, fun m hm => ?_⟩
  · obtain ⟨hmembers, hfixed, hname, htable⟩ := h.fits i e he
    exact ⟨hmembers, hfixed, hname, htable⟩
  · obtain ⟨hmembers, hfixed, hname, htable⟩ := h.unborn i name hi
    exact ⟨hmembers, hfixed, hname, htable⟩
  · exact absurd hm (by rw [hc]; exact nofun)

theorem Fits.withMember (h : log.Fits kind i e) :
    Fits kind ((.perform (.defineEnumMember i name value), true) :: log) i
      (e.withMember (name, value)) := by
  refine ⟨?_, h.fixed, ?_, ?_⟩
  · rw [Log.members, if_pos rfl, h.members]
    rfl
  · have hname := h.name
    unfold EnumDef.table at hname ⊢
    cases hc : e.created with
    | none =>
      rw [EnumDef.withMember, hc]
      rfl
    | some table =>
      rw [hc] at hname
      rw [EnumDef.withMember, hc]
      exact hname
  · have htable := h.table
    have hfixed := h.fixed
    unfold EnumDef.table at htable ⊢
    cases hc : e.created with
    | none =>
      rw [hc] at htable hfixed
      rw [EnumDef.withMember, hc, lateMembers, if_neg (by simp [hfixed])]
      have hlate : lateMembers kind i log = [] := by simpa using htable
      simp [hlate]
    | some table =>
      rw [hc] at htable hfixed
      rw [EnumDef.withMember, hc, lateMembers, if_pos ⟨rfl, hfixed⟩]
      dsimp only [Option.getD_some] at htable ⊢
      rw [← List.append_assoc, ← htable]

theorem Fits.other {j : Nat} (h : log.Fits kind i e) (hij : j ≠ i) :
    Fits kind ((.perform (.defineEnumMember j name value), true) :: log) i e := by
  refine ⟨?_, h.fixed, h.name, ?_⟩
  · rw [Log.members, if_neg hij, h.members]
  · rw [lateMembers, if_neg fun hboth => hij hboth.1]
    exact h.table

theorem Tells.defineEnumMember {j : Nat} (h : log.Tells kind d) (hc : d.created = none)
    (hj : ∃ e, d.enums[j]? = some e) :
    Tells kind ((.perform (.defineEnumMember j name value), true) :: log)
      { d with enums := d.enums.modify j (·.withMember (name, value)) } := by
  refine ⟨h.options, h.entryPoint, ?_, fun i e he => ?_, fun i name' hi => ?_, fun m hm => ?_⟩
  · refine h.names.trans (List.ext_getElem? fun k => ?_)
    rw [List.getElem?_map, List.getElem?_map, Array.getElem?_toList, Array.getElem?_toList,
      Array.getElem?_modify]
    split
    · cases d.enums[k]? <;> rfl
    · rfl
  · rw [Array.getElem?_modify] at he
    split at he
    · rename_i hij
      subst hij
      obtain ⟨e₀, he₀, rfl⟩ := Option.map_eq_some_iff.mp he
      exact (h.fits j e₀ he₀).withMember
    · rename_i hij
      exact (h.fits i e he).other hij
  · rw [Array.size_modify] at hi
    refine (h.unborn i name' hi).other fun hij => ?_
    obtain ⟨e, he⟩ := hj
    have hlt := (Array.getElem?_eq_some_iff.mp he).1
    omega
  · exact absurd hm (by rw [hc]; exact nofun)

theorem Fits.create {granted : Bool} (h : log.Fits kind i e) (hi : i < log.enums.length) :
    Fits kind ((.create, granted) :: log) i (if log.reachesEnums kind then e.fix else e) := by
  cases hr : log.reachesEnums kind with
  | false =>
    refine ⟨h.members, ?_, h.name, h.table⟩
    rw [isFixed, hr, Bool.false_and, Bool.or_false]
    exact h.fixed
  | true =>
    refine ⟨h.members, ?_, h.name, h.table⟩
    rw [isFixed, hr, decide_eq_true hi, Bool.true_and, Bool.or_true]
    rfl

theorem Tells.create {granted : Bool} (h : log.Tells kind d) (hoptions : d'.options = d.options)
    (hentry : d'.entryPoint = d.entryPoint) (henums : d'.enums = d.fixEnums.enums)
    (hmodule : ∀ m, d'.created = some m → m.enums = d'.enums.toList.map EnumDef.table ∧
      ∀ e ∈ d'.enums, e.created.isSome = true) :
    Tells kind ((.create, granted) :: log) d' := by
  have hsize : log.enums.length = d.enums.size := by
    rw [h.names, List.length_map, Array.length_toList]
  have hfix : d'.enums = d.enums.map fun e => if log.reachesEnums kind then e.fix else e := by
    rw [henums, Draft.fixEnums, reachesEnums, h.entryPoint, h.options]
    by_cases hk : kind = .executable <;> cases d.entryPoint <;> simp [hk]
  refine ⟨hoptions ▸ h.options, hentry ▸ h.entryPoint, ?_, fun i e he => ?_,
    fun i name hi => ?_, hmodule⟩
  · rw [hfix, Array.toList_map, List.map_map]
    refine h.names.trans (List.map_congr_left fun e _ => ?_)
    change e.name = EnumDef.name (if _ then _ else _)
    split <;> rfl
  · rw [hfix, Array.getElem?_map] at he
    obtain ⟨e₀, he₀, rfl⟩ := Option.map_eq_some_iff.mp he
    exact (h.fits i e₀ he₀).create (hsize ▸ (Array.getElem?_eq_some_iff.mp he₀).1)
  · rw [hfix, Array.size_map, ← hsize] at hi
    obtain ⟨hmembers, hfixed, hname, htable⟩ := h.unborn i name (hsize ▸ hi)
    refine ⟨hmembers, ?_, hname, htable⟩
    rw [isFixed, decide_eq_false (by omega), Bool.and_false, Bool.or_false]
    exact hfixed

theorem Tells.perform (h : log.Tells kind p.draft) (op : Operation) :
    Tells kind ((.perform op, ((Request.perform op).answer p).2) :: log)
      ((Request.perform op).answer p).1.draft := by
  have hsame {d : Draft} (hd : p.draft = d) : p.draft.Keeps d := hd ▸ Std.Refl.refl p.draft
  cases hop : op.perform p.draft with
  | ok given d =>
    simp only [Request.answer, hop]
    cases op with
    | defineEnum name =>
      obtain ⟨i, hop, -⟩ := map_eq_ok.mp hop
      obtain ⟨hc, rfl⟩ := BuildM.defineEnum_eq_ok hop
      exact h.defineEnum hc
    | defineEnumMember i name value =>
      obtain ⟨u, hop, -⟩ := map_eq_ok.mp hop
      obtain ⟨hc, hi, rfl⟩ := BuildM.defineEnumMember_eq_ok hop
      exact h.defineEnumMember hc hi
    | setEntryPoint m =>
      obtain ⟨u, hop, -⟩ := map_eq_ok.mp hop
      obtain ⟨hc, rfl⟩ := BuildM.setEntryPoint_eq_ok hop
      exact h.setEntryPoint hc
    | _ => exact h.idle trivial (Leads.of_ok (BuildM.keeps_perform (by trivial)) hop)
  | error err d =>
    simp only [Request.answer, hop]
    cases op with
    | defineEnum name =>
      exact h.idle rfl (hsame (BuildM.defineEnum_eq_error (map_eq_error.mp hop)))
    | defineEnumMember i name value =>
      exact h.idle rfl (hsame (BuildM.defineEnumMember_eq_error (map_eq_error.mp hop)))
    | setEntryPoint m =>
      exact h.idle rfl (hsame (BuildM.setEntryPoint_eq_error (map_eq_error.mp hop)))
    | _ => exact h.idle trivial (Leads.of_error (BuildM.keeps_perform (by trivial)) hop)

theorem Tells.answer (h : log.Tells kind p.draft) (r : Request) :
    Tells kind ((r, (r.answer p).2) :: log) (r.answer p).1.draft := by
  cases r with
  | perform op => exact h.perform op
  | create =>
    rw [Request.answer]
    cases hcreate : ProjectM.create p with
    | error err p' =>
      have hkeeps := BuildM.keeps_assemble p.draft
      rw [← (ProjectM.create_eq_error hcreate).1] at hkeeps
      have hnone : p.draft.created = none := by
        by_contra hsome
        obtain ⟨m, hm⟩ := Option.ne_none_iff_exists'.mp hsome
        rw [ProjectM.create_of_created hm] at hcreate
        cases hcreate
      refine h.create (by rw [hkeeps.options, Draft.options_fixEnums])
        (by rw [hkeeps.entryPoint, Draft.entryPoint_fixEnums]) hkeeps.enums fun m hm => ?_
      rw [hkeeps.created, Draft.created_fixEnums, hnone] at hm
      cases hm
    | ok m p' =>
      obtain ⟨hm, rfl⟩ | ⟨-, d', hassemble, hd'⟩ := ProjectM.create_eq_ok hcreate
      · exact h.create rfl rfl (Draft.enums_fixEnums (h.module m hm).2).symm h.module
      · have hkeeps := BuildM.keeps_assemble p.draft
        rw [hassemble] at hkeeps
        obtain ⟨henums, hfix⟩ := BuildM.enums_of_assemble hassemble
        have hfixed : d'.enums = p.draft.enums.map EnumDef.fix := by
          rw [show d'.enums = _ from hkeeps.enums, hfix]
        rw [hd']
        refine h.create (hkeeps.options.trans (Draft.options_fixEnums _))
          (hkeeps.entryPoint.trans (Draft.entryPoint_fixEnums _)) hkeeps.enums fun m' hm' => ?_
        cases hm'
        refine ⟨?_, fun e he => ?_⟩
        · rw [henums, hfixed, Array.toList_map, List.map_map]
          rfl
        · replace he : e ∈ d'.enums := he
          rw [hfixed] at he
          obtain ⟨e₀, -, rfl⟩ := Array.mem_map.mp he
          rfl

theorem Tells.makeAll (h : log.Tells kind p.draft) (rs : List Request) :
    Tells kind (Request.makeAll rs (p, log)).2 (Request.makeAll rs (p, log)).1.draft := by
  induction rs generalizing p log with
  | nil => exact h
  | cons r rs ih => exact ih (h.answer r)

theorem tells_empty (name : String) (options : Options) :
    Tells options.kind [] (.empty name options) :=
  ⟨rfl, rfl, rfl, fun _ _ he => (nomatch he), fun _ _ _ => ⟨rfl, rfl, rfl, rfl⟩,
    fun _ hm => (nomatch hm)⟩

end Log

/-- The enums of a module are those that were defined, in their order. Each has the members that it
was granted up to the first creation that was tried after its definition and came as far as the
enums. -/
theorem Request.enums_of_create {name : String} {options : Options} {disk : Disk}
    {requests : List Request} {p p' : Project} {log : Log} {m : Module}
    (hrun : makeAll requests (⟨.empty name options, disk⟩, []) = (p, log))
    (hcreate : ProjectM.create p = .ok m p') :
    m.enums.length = log.enums.length ∧ ∀ (i : Nat) (enum : String), log.enums[i]? = some enum →
      ∃ kept, m.enums[i]? = some ⟨enum, kept⟩ ∧
        log.members i = kept ++ log.lateMembers options.kind i := by
  have htells := (Log.tells_empty name options).makeAll (p := ⟨.empty name options, disk⟩) requests
  rw [hrun] at htells
  have hlater := htells.answer .create
  rw [Request.answer, hcreate] at hlater
  have hm : p'.draft.created = some m := by
    obtain ⟨hm, rfl⟩ | ⟨-, d, -, hd⟩ := ProjectM.create_eq_ok hcreate
    · exact hm
    · rw [hd]
  obtain ⟨henums, -⟩ := hlater.module m hm
  have hnames : log.enums = p'.draft.enums.toList.map (·.name) := hlater.names
  refine ⟨by rw [henums, hnames, List.length_map, List.length_map], fun i enum hi => ?_⟩
  rw [hnames, List.getElem?_map, Array.getElem?_toList] at hi
  obtain ⟨e, he, rfl⟩ := Option.map_eq_some_iff.mp hi
  obtain ⟨hmembers, -, hname, htable⟩ := hlater.fits i e he
  refine ⟨e.table.members, ?_, hmembers.trans htable⟩
  rw [henums, List.getElem?_map, Array.getElem?_toList, he, ← hname]
  rfl

/-- A creation that fails for want of members of a type, and a member that the enum gets later. -/
def lateColor : List Request := [
  .perform (.defineType "Shape" {} none []),
  .perform (.defineEnum "Color"),
  .perform (.defineEnumMember 0 "red" 0),
  .create,
  .perform (.defineEnumMember 0 "green" 1),
  .perform (.defineField 0 "side" .int {})]

def Request.creates (check : Log → Module → Bool) (requests : List Request) (p : Project) : Bool :=
  match makeAll requests (p, []) with
  | (p, log) => match ProjectM.create p with
    | .ok m _ => check log m
    | .error _ _ => false

theorem Request.exists_of_creates (check : Log → Module → Bool) (requests : List Request)
    (p₀ : Project) (h : creates check requests p₀ = true) :
    ∃ p log m p', makeAll requests (p₀, []) = (p, log) ∧ ProjectM.create p = .ok m p' ∧
      check log m = true := by
  unfold creates at h
  rcases hrun : makeAll requests (p₀, []) with ⟨p, log⟩
  rw [hrun] at h
  cases hcreate : ProjectM.create p with
  | error e p' =>
    simp only [hcreate] at h
    cases h
  | ok m p' =>
    simp only [hcreate] at h
    exact ⟨p, log, m, p', rfl, hcreate, h⟩

theorem Request.enums_of_create_lateColor :
    ∃ p log m p', makeAll lateColor (⟨.empty "Shapes" {}, .empty⟩, []) = (p, log) ∧
      ProjectM.create p = .ok m p' ∧ log.enums[0]? = some "Color" ∧
      ∃ kept, m.enums[0]? = some ⟨"Color", kept⟩ ∧
        log.members 0 = kept ++ log.lateMembers .library 0 := by
  obtain ⟨p, log, m, p', hrun, hcreate, hname⟩ := exists_of_creates
    (fun log _ => decide (log.enums[0]? = some "Color")) lateColor ⟨.empty "Shapes" {}, .empty⟩
    (by decide +kernel)
  rw [decide_eq_true_eq] at hname
  exact ⟨p, log, m, p', hrun, hcreate, hname, (enums_of_create hrun hcreate).2 0 "Color" hname⟩

/-- A member that was granted is not in the module. -/
theorem Request.enum_lacks_member_lateColor :
    ∃ p log m p', makeAll lateColor (⟨.empty "Shapes" {}, .empty⟩, []) = (p, log) ∧
      ProjectM.create p = .ok m p' ∧ log.enums = ["Color"] ∧
      log.members 0 = [("red", 0), ("green", 1)] ∧ m.enums = [⟨"Color", [("red", 0)]⟩] := by
  obtain ⟨p, log, m, p', hrun, hcreate, hcheck⟩ := exists_of_creates
    (fun log m => decide (log.enums = ["Color"] ∧
      log.members 0 = [("red", 0), ("green", 1)] ∧ m.enums = [⟨"Color", [("red", 0)]⟩]))
    lateColor ⟨.empty "Shapes" {}, .empty⟩ (by decide +kernel)
  exact ⟨p, log, m, p', hrun, hcreate, of_decide_eq_true hcheck⟩

end Bytesmith.Build
