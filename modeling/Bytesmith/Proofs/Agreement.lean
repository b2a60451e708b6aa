import Bytesmith.Proofs.Isolation
import Bytesmith.Proofs.Safety
import Bytesmith.Proofs.Scripts
import Bytesmith.Proofs.Simulation

namespace Bytesmith.Build

open Code Outcome Machine

theorem Variable.exists_slot {v : Variable} (h : v.isSlot = true) :
    ∃ m index name ty, v = .slot m index name ty := by
  cases v with
  | slot m index name ty => exact ⟨m, index, name, ty, rfl⟩
  | _ => cases h

namespace Draft

def parameters (d : Draft) (m : Nat) : List Variable :=
  (d.this m).toOption.toList ++
    (List.range (d.paramTypes m).length).filterMap fun k => (d.param m k).toOption

def cells (d : Draft) (m : Nat) (t : MethodDef) : List Variable := d.parameters m ++ t.results

variable {d d' : Draft} {m : Nat} {t t' : MethodDef} {v : Variable}

theorem getElem?_filterMap_range {α : Type} {f : Nat → Option α} (n : Nat)
    (hf : ∀ k < n, (f k).isSome = true) :
    ((List.range n).filterMap f).length = n ∧ ∀ k < n, ((List.range n).filterMap f)[k]? = f k := by
  induction n with
  | zero => exact ⟨rfl, nofun⟩
  | succ n ih =>
    obtain ⟨hlength, hplace⟩ := ih fun k hk => hf k (Nat.lt_succ_of_lt hk)
    obtain ⟨a, ha⟩ := Option.isSome_iff_exists.mp (hf n (Nat.lt_succ_self n))
    have hlast : List.filterMap f [n] = [a] := by simp [ha]
    rw [List.range_succ, List.filterMap_append, hlast]
    refine ⟨by rw [List.length_append, hlength]; rfl, fun k hk => ?_⟩
    obtain hk | rfl := Nat.lt_succ_iff_lt_or_eq.mp hk
    · rw [List.getElem?_append_left (by omega), hplace k hk]
    · rw [List.getElem?_append_right (by omega), hlength, Nat.sub_self, ha]
      rfl

theorem toOption_eq_some {α : Type} {x : Except BuildError α} {a : α} :
    x.toOption = some a ↔ x = .ok a := by
  cases x <;> simp [Except.toOption]

theorem param_eq_ok {index : Nat} (ht : d.methods[m]? = some t) :
    d.param m index = .ok v ↔ ∃ p, t.params[index]? = some p ∧
      v = .slot m ((if t.attrs.isStatic then 0 else 1) + index.toUInt16) p.name p.ty := by
  rw [param, except_bind_eq_ok]
  simp only [method_eq_ok, ht, Option.some.injEq, exists_eq_left']
  cases t.params[index]? with
  | none => simp
  | some p =>
    simp only [pure, Except.pure, Except.ok.injEq, Option.some.injEq, exists_eq_left']
    exact eq_comm

theorem mem_parameters (ht : d.methods[m]? = some t) :
    v ∈ d.parameters m ↔ d.this m = .ok v ∨ ∃ index, d.param m index = .ok v := by
  rw [parameters, List.mem_append, Option.mem_toList, toOption_eq_some, List.mem_filterMap]
  refine or_congr_right ⟨?_, ?_⟩
  · rintro ⟨index, -, h⟩
    exact ⟨index, toOption_eq_some.mp h⟩
  · rintro ⟨index, h⟩
    refine ⟨index, ?_, toOption_eq_some.mpr h⟩
    obtain ⟨p, hp, -⟩ := (param_eq_ok ht).mp h
    rw [List.mem_range, paramTypes, ht, Option.map_some, Option.getD_some, MethodDef.paramTypes,
      List.length_map]
    exact (List.getElem?_eq_some_iff.mp hp).1

theorem this_eq_ok (ht : d.methods[m]? = some t) :
    d.this m = .ok v ↔ t.attrs.isStatic = false ∧ ∃ type, d.types[t.owner]? = some type ∧
      v = .slot m 0 "this" (.class t.owner type.name) := by
  rw [this, except_bind_eq_ok]
  simp only [method_eq_ok, ht, Option.some.injEq, exists_eq_left']
  rw [except_guard_eq_ok, except_bind_eq_ok]
  simp only [classType, except_bind_eq_ok, BuildM.type_eq_ok, pure, Except.pure, Except.ok.injEq,
    Bool.not_eq_true]
  constructor
  · rintro ⟨hstatic, _, ⟨type, htype, rfl⟩, rfl⟩
    exact ⟨hstatic, type, htype, rfl⟩
  · rintro ⟨hstatic, type, htype, rfl⟩
    exact ⟨hstatic, _, ⟨type, htype, rfl⟩, rfl⟩

theorem parameters_spec (ht : d.methods[m]? = some t)
    (howner : ∃ type, d.types[t.owner]? = some type) :
    (d.parameters m).length = t.paramCount ∧ ∀ (j : Nat) (v : Variable),
      (d.parameters m)[j]? = some v → ∃ name ty, v = .slot m j.toUInt16 name ty := by
  obtain ⟨type, htype⟩ := howner
  have hparam (k : Nat) : (d.param m k).toOption = t.params[k]?.map fun p =>
      .slot m ((if t.attrs.isStatic then 0 else 1) + k.toUInt16) p.name p.ty := by
    ext v
    rw [toOption_eq_some, param_eq_ok ht, Option.map_eq_some_iff]
    simp only [eq_comm]
  have hlength : (d.paramTypes m).length = t.params.length := by
    rw [paramTypes, ht, Option.map_some, Option.getD_some, MethodDef.paramTypes, List.length_map]
  have hrest := getElem?_filterMap_range (f := fun k => (d.param m k).toOption) t.params.length
    fun k hk => by rw [hparam, List.getElem?_eq_getElem hk]; rfl
  obtain ⟨hcount, hplace⟩ := hrest
  have hslot (k : Nat) (v : Variable) (hv : ((List.range t.params.length).filterMap
      fun k => (d.param m k).toOption)[k]? = some v) :
      ∃ name ty, v = .slot m ((if t.attrs.isStatic then 0 else 1) + k.toUInt16) name ty := by
    have hk := (List.getElem?_eq_some_iff.mp hv).1
    rw [hcount] at hk
    rw [hplace k hk, hparam] at hv
    obtain ⟨p, -, rfl⟩ := Option.map_eq_some_iff.mp hv
    exact ⟨p.name, p.ty, rfl⟩
  rw [parameters, hlength, MethodDef.paramCount, MethodDef.slotCount]
  cases hstatic : t.attrs.isStatic with
  | true =>
    have hthis : (d.this m).toOption = none := by
      rw [Option.eq_none_iff_forall_ne_some]
      intro v hv
      have hok := ((this_eq_ok ht).mp (toOption_eq_some.mp hv)).1
      rw [hstatic] at hok
      cases hok
    rw [hthis]
    refine ⟨hcount, fun j v hv => ?_⟩
    obtain ⟨name, ty, rfl⟩ := hslot j v hv
    simp [hstatic]
  | false =>
    have hthis : d.this m = .ok (.slot m 0 "this" (.class t.owner type.name)) :=
      (this_eq_ok ht).mpr ⟨hstatic, type, htype, rfl⟩
    rw [toOption_eq_some.mpr hthis]
    refine ⟨by rw [List.length_append, hcount, Nat.add_comm]; rfl, fun j v hv => ?_⟩
    cases j with
    | zero =>
      cases hv
      exact ⟨_, _, rfl⟩
    | succ k =>
      obtain ⟨name, ty, rfl⟩ := hslot k v hv
      refine ⟨name, ty, ?_⟩
      rw [hstatic]
      congr 1
      apply UInt16.toNat_inj.mp
      simp only [Bool.false_eq_true, if_false, UInt16.toNat_add, Nat.toUInt16, UInt16.toNat_ofNat']
      simp
      omega

def Places (d : Draft) (m : Nat) (v : Variable) : Prop :=
  ∃ t, d.methods[m]? = some t ∧ v ∈ d.cells m t

theorem Grows.mem_parameters (hg : d.Grows d') (ht : d.methods[m]? = some t)
    (h : v ∈ d.parameters m) : v ∈ d'.parameters m := by
  obtain ⟨t', ht', hgrows⟩ := hg.methods m t ht
  obtain ⟨howner, hattrs, -, hparams, -⟩ := MethodDef.eq_of_declaration hgrows.declaration
  rw [Draft.mem_parameters ht']
  obtain hthis | ⟨index, hparam⟩ := (Draft.mem_parameters ht).mp h
  · obtain ⟨hstatic, type, htype, rfl⟩ := (this_eq_ok ht).mp hthis
    obtain ⟨type', htype', hname⟩ := hg.types t.owner type htype
    refine .inl ((this_eq_ok ht').mpr ⟨by rw [hattrs]; exact hstatic, type', ?_, ?_⟩)
    · rw [howner]
      exact htype'
    · rw [howner, hname]
  · refine .inr ⟨index, (param_eq_ok ht').mpr ?_⟩
    rw [hparams, hattrs]
    exact (param_eq_ok ht).mp hparam

theorem Grows.mem_cells (hg : d.Grows d') (ht : d.methods[m]? = some t)
    (ht' : d'.methods[m]? = some t') (h : v ∈ d.cells m t) : v ∈ d'.cells m t' := by
  obtain h | h := List.mem_append.mp h
  · exact List.mem_append_left _ (hg.mem_parameters ht h)
  · obtain ⟨more, hmore⟩ := (hg.method ht ht').commands
    refine List.mem_append_right _ ?_
    rw [MethodDef.results, ← hmore, List.filterMap_append]
    exact List.mem_append_left _ h

theorem Places.grow (h : d.Places m v) (hg : d.Grows d') : d'.Places m v := by
  obtain ⟨t, ht, hcells⟩ := h
  obtain ⟨t', ht', -⟩ := hg.methods m t ht
  exact ⟨t', ht', hg.mem_cells ht ht' hcells⟩

theorem places_of_find {l : Lookup} (hl : l.find d m = .ok v) (hslot : v.isSlot = true) :
    d.Places m v := by
  cases Lookup.finds hl with
  | this ht hstatic hthis =>
    exact ⟨_, ht, List.mem_append_left _ ((Draft.mem_parameters ht).mpr (.inl hthis))⟩
  | param index hparam =>
    obtain ⟨t, ht, -⟩ := except_bind_eq_ok.mp hparam
    rw [method_eq_ok] at ht
    exact ⟨t, ht, List.mem_append_left _ ((Draft.mem_parameters ht).mpr (.inr ⟨index, hparam⟩))⟩
  | _ => cases hslot

end Draft

variable {d : Draft} {issued : List (Nat × Variable)} {m : Nat} {t : MethodDef} {q : Pool}

/-- Variables with slots, whether given out or used, are parameters or results of their method. -/
def Draft.Houses (d : Draft) (issued : List (Nat × Variable)) : Prop :=
  Upkeep (fun d _ m v => v.isSlot = true → d.Places m v)
    (fun d _ m t c => ∀ v ∈ c.places, v.isSlot = true → v ∈ d.cells m t) d issued

theorem Course.houses (h : Course Given d issued) : d.Houses issued := by
  refine h.upkeep (fun hon hv hslot => (hv hslot).grow hon.grows)
    (fun hon ht ht' hc v hv hslot => hon.grows.mem_cells ht ht' (hc v hv hslot))
    (fun l _ _ _ hl => Draft.places_of_find hl) fun {d d' issued m t t' c} e h ih ho hs he => ?_
  have hg := he.draft_grows
  have hresult {w : Variable} (hw : c.result? = some w) : w ∈ d'.cells m t' := by
    refine List.mem_append_right _ ?_
    rw [MethodDef.results, (he.takes _ (.refl _)).commands_eq, Array.toList_push]
    exact List.mem_filterMap.mpr ⟨_, List.mem_append_right _ (.head _), hw⟩
  refine ⟨fun v hv _ => ⟨t', he.found_after, hresult hv⟩, fun v hv hslot => ?_⟩
  obtain ⟨hmem, howned⟩ | hv | hthis := hs.places hv
  · obtain ⟨value, rfl⟩ | ⟨m', hm'⟩ := ho v hmem
    · cases hslot
    · obtain ⟨k', index, name, ty, rfl⟩ := Variable.exists_slot hslot
      obtain rfl := Draft.ensureOwned_eq_ok howned k' rfl
      obtain rfl := (h.lent.given m' _ hm').owner k' rfl
      obtain ⟨t₀, ht₀, hcells⟩ := ih.given k' _ hm' hslot
      cases he.found.symm.trans ht₀
      exact hg.mem_cells he.found he.found_after hcells
  · exact hresult hv
  · exact List.mem_append_left _ (hg.mem_parameters he.found
      ((Draft.mem_parameters he.found).mpr (.inl hthis)))

theorem Course.known (h : Course Given d issued) (ht : d.methods[m]? = some t)
    {c : Emitted} (hc : c ∈ t.commands) (hs : c.command.isStructured = true) :
    c.command.Known (d.cells m t) := by
  have hplain {v : Variable} (hv : v ∈ c.command.places) (hp : v.isPlain = true) :
      v.Known (d.cells m t) := by
    cases v with
    | slot k index name ty => exact .inr (h.houses.used m t ht c hc _ hv rfl)
    | constant value => exact .inl ⟨value, rfl⟩
    | _ => cases hp
  have huses := h.lent.used m t ht c hc
  have hresult {v : Variable} (hv : c.command.result? = some v) : v ∈ d.cells m t :=
    List.mem_append_right _ (List.mem_filterMap.mpr ⟨c, Array.mem_toList_iff.mpr hc, hv⟩)
  obtain ⟨c, first, last⟩ := c
  cases c with
  | arithmetic op left right ty result =>
    rw [Command.isStructured, Bool.and_eq_true] at hs
    exact ⟨hplain (by simp [Command.places]) hs.1, hplain (by simp [Command.places]) hs.2,
      hresult rfl⟩
  | assign target source coercion =>
    rw [Command.isStructured, Bool.and_eq_true] at hs
    refine ⟨?_, hplain (by simp [Command.places]) hs.2⟩
    obtain ⟨value, rfl⟩ | htarget := hplain (by simp [Command.places]) hs.1
    · obtain ⟨_, hcheck, -⟩ := except_bind_eq_ok.mp huses.check
      cases hcheck
    · exact htarget
  | ifBegin c l f | elseIf c p l f | whileBegin c l f =>
    rw [Command.isStructured, Bool.and_eq_true] at hs
    exact ⟨hplain (by simp [Command.places]) hs.1, hplain (by simp [Command.places]) hs.2⟩
  | ret value returnType =>
    cases value with
    | none => trivial
    | some value => exact hplain (by simp [Command.places]) hs
  | _ => trivial

theorem History.written (h : History q m t) :
    Nested [] t.script t.blocks ∧ (∀ c ∈ t.script, c.Emittable) ∧
      ∃ e, e.offset = 0 ∧ e.canFallThrough = true ∧ Written q e t.script t.emitter := by
  induction h with
  | start => exact ⟨.nil _, fun c hc => absurd hc List.not_mem_nil, _, rfl, rfl, .nil _⟩
  | @take t t' c h ht ih =>
    obtain ⟨hnested, hemittable, e, hoffset, hlive, hwritten⟩ := ih
    have hscript : t'.script = t.script ++ [c] := by
      rw [MethodDef.script, ht.commands_eq, Array.toList_push, List.map_append]
      rfl
    rw [hscript]
    refine ⟨hnested.concat ht.nests, fun x hx => ?_, e, hoffset, hlive, hwritten.concat ht.runs⟩
    obtain hx | hx := List.mem_append.mp hx
    · exact hemittable x hx
    · rw [List.mem_singleton.mp hx]
      exact ht.emittable

namespace Setting

variable {S : Setting} {vars : List Variable} {o : Outcome} {answer : Nat → Except Halt Value}

def Comes (S : Setting) (least : Nat) (o : Outcome) : Except Halt Value → Prop
  | .ok v => S.Reaches o (.returned v S.store)
  | .error (.fault e) => S.Reaches o (.faulted e S.store)
  | .error .outOfFuel => ∃ n k, least ≤ n ∧ S.run n o = .running k

theorem reaches_end (he : S.emitter = t.complete) (hconcrete : t.attrs.isAbstract = false)
    (hlive : t.emitter.canFallThrough = true) (locals : Array Value) :
    S.Reaches (S.standing t.emitter.offset ([], locals))
      (.returned (.default t.returnType.valueKind) S.store) := by
  rw [MethodDef.complete, MethodDef.implied, hconcrete, hlive] at he
  cases hvoid : t.returnType.isVoid with
  | true =>
    have hnull : Value.default t.returnType.valueKind = .null := by
      cases hty : t.returnType with
      | void => rfl
      | _ =>
        rw [hty] at hvoid
        cases hvoid
    rw [hvoid] at he
    rw [hnull]
    refine ⟨1, run_returned (i := .retVoid) ?_ fun p d => rfl⟩
    rw [he]
    exact .refl _
  | false =>
    rw [hvoid] at he
    have hpush : S.Carries [.default t.returnType.valueKind] ([], locals)
        (.ok ([.default t.returnType.valueKind], locals)) :=
      Carries.pushes fun p d => by cases t.returnType.valueKind <;> rfl
    have hret : S.Follows [] t.emitter.offset 0 locals 0
        (.returned (.default t.returnType.valueKind)) := by
      refine follows_ret (r := .ok _) hpush ?_ 0
      rw [he]
      exact .refl _
    exact hret

theorem comes_answer (h : History S.module.constants m t) (he : S.emitter = t.complete)
    (hconcrete : t.attrs.isAbstract = false) (hslots : Slotted vars)
    (hknown : ∀ c ∈ t.script, c.Known vars) {tree : Tree} (hspells : tree.Spells t.script)
    {env : Env} {locals : Array Value} (hfills : env.Fills vars locals) (n : Nat) :
    S.Comes n (S.standing 0 ([], locals)) (tree.answer S.module S.store n t.returnType env) := by
  obtain ⟨-, hemittable, e, hoffset, hlive, hwritten⟩ := h.written
  have hw : t.emitter.Within S.emitter := by
    rw [he]
    exact t.emitter.within_append _
  have hflows := Tree.flows hslots n tree hspells hwritten hw
    (fun c hc => ⟨hknown c hc, hemittable c hc⟩) hlive hfills
  have hfollows := hflows.follows
  rw [hoffset] at hfollows
  rw [Tree.answer]
  cases heval : tree.eval S.module S.store n env with
  | done env' =>
    rw [heval] at hfollows
    obtain ⟨locals', -, hreaches⟩ := hfollows
    exact hreaches.trans (reaches_end he hconcrete (hflows.live env' heval) locals')
  | _ =>
    rw [heval] at hfollows
    exact hfollows

theorem Comes.result {least : Nat} {a : Except Halt Value} (h : S.Comes least o a) {n : Nat}
    (hn : n < least) :
    (∃ v, a = .ok v ∧ (S.run n o).result S.module = .ok v S.store) ∨
      (∃ e, a = .error (.fault e) ∧ (S.run n o).result S.module = .error (.fault e) S.store) ∨
      ∃ s, (S.run n o).result S.module = .error .outOfFuel s := by
  by_cases hrunning : ∃ c, S.run n o = .running c
  · obtain ⟨c, hc⟩ := hrunning
    exact .inr (.inr ⟨c.store, by rw [hc]; rfl⟩)
  have hfinal : (S.run n o).IsFinal := fun c hc => hrunning ⟨c, hc⟩
  have hsame {k : Nat} {o' : Outcome} (hk : S.run k o = o') (ho' : o'.IsFinal) : S.run n o = o' := by
    obtain hle | hle := Nat.le_total n k
    · rw [← hk]
      exact (run_of_le hfinal hle).symm
    · rw [← hk] at ho' ⊢
      exact run_of_le ho' hle
  cases a with
  | ok v =>
    obtain ⟨k, hk⟩ := h
    exact .inl ⟨v, rfl, by rw [hsame hk nofun]; rfl⟩
  | error halt =>
    cases halt with
    | fault e =>
      obtain ⟨k, hk⟩ := h
      exact .inr (.inl ⟨e, rfl, by rw [hsame hk nofun]; rfl⟩)
    | outOfFuel =>
      obtain ⟨k, c, hle, hk⟩ := h
      have hstays : S.run k o = S.run n o := run_of_le hfinal (by omega)
      rw [hstays] at hk
      exact absurd hk (hfinal c)

end Setting

/-- Calls, each with a limit on its steps, and answers, each with a limit on the rounds of loops,
come to the same: both give a value, or both fault, or both go on whatever the limit is. -/
structure Agrees (s : Store) (call : Nat → EStateM.Result Halt Store Value)
    (answer : Nat → Except Halt Value) : Prop where
  value : ∀ v, (∃ fuel, call fuel = .ok v s) ↔ ∃ n, answer n = .ok v
  fault : ∀ e, (∃ fuel, call fuel = .error (.fault e) s) ↔ ∃ n, answer n = .error (.fault e)
  diverge : (∀ fuel, ∃ s', call fuel = .error .outOfFuel s') ↔ ∀ n, answer n = .error .outOfFuel

theorem Setting.agrees_of_comes {S : Setting} {o : Outcome} {answer : Nat → Except Halt Value}
    (h : ∀ n, S.Comes n o (answer n)) :
    Agrees S.store (fun fuel => (S.run fuel o).result S.module) answer := by
  have hresult (fuel : Nat) := (h (fuel + 1)).result (Nat.lt_succ_self fuel)
  refine ⟨fun v => ⟨?_, ?_⟩, fun e => ⟨?_, ?_⟩, fun hcall n => ?_, fun hanswer fuel => ?_⟩
  · rintro ⟨fuel, hcall⟩
    refine ⟨fuel + 1, ?_⟩
    obtain ⟨v', ha, hr⟩ | ⟨e, -, hr⟩ | ⟨s', hr⟩ := hresult fuel
    · cases hr.symm.trans hcall
      exact ha
    · cases hr.symm.trans hcall
    · cases hr.symm.trans hcall
  · rintro ⟨n, hn⟩
    have hcomes := h n
    rw [hn] at hcomes
    obtain ⟨fuel, hrun⟩ := hcomes
    exact ⟨fuel, congrArg (Outcome.result S.module) hrun⟩
  · rintro ⟨fuel, hcall⟩
    refine ⟨fuel + 1, ?_⟩
    obtain ⟨v, -, hr⟩ | ⟨e', ha, hr⟩ | ⟨s', hr⟩ := hresult fuel
    · cases hr.symm.trans hcall
    · cases hr.symm.trans hcall
      exact ha
    · cases hr.symm.trans hcall
  · rintro ⟨n, hn⟩
    have hcomes := h n
    rw [hn] at hcomes
    obtain ⟨fuel, hrun⟩ := hcomes
    exact ⟨fuel, congrArg (Outcome.result S.module) hrun⟩
  · -- an answer would be reached by some run, which has enough steps then
    have hcomes := h n
    cases ha : answer n with
    | ok v =>
      rw [ha] at hcomes
      obtain ⟨fuel, hrun⟩ := hcomes
      obtain ⟨s', hs'⟩ := hcall fuel
      cases (congrArg (Outcome.result S.module) hrun).symm.trans hs'
    | error halt =>
      cases halt with
      | outOfFuel => rfl
      | fault e =>
        rw [ha] at hcomes
        obtain ⟨fuel, hrun⟩ := hcomes
        obtain ⟨s', hs'⟩ := hcall fuel
        cases (congrArg (Outcome.result S.module) hrun).symm.trans hs'
  · obtain ⟨v, ha, -⟩ | ⟨e, ha, -⟩ | hr := hresult fuel
    · cases (hanswer (fuel + 1)).symm.trans ha
    · cases (hanswer (fuel + 1)).symm.trans ha
    · exact hr

theorem Slotted.nodup {vars : List Variable} (h : Slotted vars) : vars.Nodup := by
  rw [List.nodup_iff_getElem?_ne_getElem?]
  intro i j hij hj heq
  rw [List.getElem?_eq_getElem hj] at heq
  obtain ⟨hi, method, name, ty, hv⟩ := h i _ heq
  obtain ⟨hj', method', name', ty', hv'⟩ := h j _ (List.getElem?_eq_getElem hj)
  rw [hv] at hv'
  have hindex := congrArg UInt16.toNat (Variable.slot.inj hv').2.1
  simp only [Nat.toUInt16, UInt16.toNat_ofNat'] at hindex
  omega

theorem lookup_zip {α β : Type} [BEq α] [LawfulBEq α] {keys : List α} {values : List β}
    (hnodup : keys.Nodup) {j : Nat} {k : α} {x : β} (hk : keys[j]? = some k)
    (hx : values[j]? = some x) : (keys.zip values).lookup k = some x := by
  induction keys generalizing values j with
  | nil => cases hk
  | cons key keys ih =>
    cases values with
    | nil => cases hx
    | cons value values =>
      rw [List.nodup_cons] at hnodup
      rw [List.zip_cons_cons]
      cases j with
      | zero =>
        cases hk
        cases hx
        exact List.lookup_cons_self
      | succ j =>
        have hne : (k == key) = false := by
          rw [beq_eq_false_iff_ne]
          rintro rfl
          exact hnodup.1 (List.mem_of_getElem? hk)
        rw [List.lookup_cons, hne]
        exact ih hnodup.2 hk hx

def Draft.arguments (d : Draft) (m : Nat) (args : List Value) : Env := (d.parameters m).zip args

theorem Draft.fills_arguments {f : Function} {args : List Value}
    (hlength : (d.parameters m).length = args.length) (hslots : Slotted (d.cells m t))
    (hcount : f.localCount = (d.cells m t).length) :
    (d.arguments m args).Fills (d.cells m t) (Frame.enter f args).locals := by
  intro j v hv
  have hj := (List.getElem?_eq_some_iff.mp hv).1
  have hnodup := hslots.nodup
  obtain ⟨hparameters, -, hdisjoint⟩ := List.nodup_append.mp hnodup
  rw [Frame.enter, List.getElem?_toArray]
  by_cases hparam : j < args.length
  · rw [cells, List.getElem?_append_left (by omega)] at hv
    rw [List.getElem?_append_left hparam, Env.read, arguments,
      lookup_zip hparameters hv (List.getElem?_eq_getElem hparam), List.getElem?_eq_getElem hparam]
    rfl
  · rw [cells, List.getElem?_append_right (by omega)] at hv
    have hunset : (d.arguments m args).lookup v = none := by
      rw [List.lookup_eq_none_iff]
      intro x hx
      have hmem := (List.of_mem_zip hx).1
      have hne := hdisjoint x.1 hmem v (List.mem_of_getElem? hv)
      exact bne_iff_ne.mpr hne.symm
    rw [List.getElem?_append_right (by omega), Env.read, hunset, List.getElem?_replicate,
      if_pos (by omega)]
    rfl

theorem History.cells_spec (h : History q m t) {t' : MethodDef} (ht : d.methods[m]? = some t')
    (howner : ∃ type, d.types[t'.owner]? = some type) (hcount : t'.paramCount = t.paramCount)
    (hresults : t'.results = t.results) :
    (d.cells m t').length = t.slots ∧ ∀ (j : Nat) (v : Variable), (d.cells m t')[j]? = some v →
      (∃ name ty, v = .slot m j.toUInt16 name ty) ∧ (t.paramCount ≤ j → j < 65536) := by
  obtain ⟨hlength, hslots⟩ := Draft.parameters_spec ht howner
  rw [hcount] at hlength
  rw [Draft.cells, hresults]
  refine ⟨by rw [List.length_append, hlength, MethodDef.slots], fun j v hv => ?_⟩
  by_cases hj : j < (d.parameters m).length
  · rw [List.getElem?_append_left hj] at hv
    exact ⟨hslots j v hv, fun hle => absurd hj (by omega)⟩
  · rw [List.getElem?_append_right (by omega)] at hv
    obtain ⟨hlt, hslot⟩ := h.results.2 _ v hv
    rw [← hlength, Nat.add_sub_of_le (by omega)] at hlt hslot
    exact ⟨hslot, fun _ => hlt⟩

theorem MethodDef.paramCount_le (h : t.params.length < 65535) : t.paramCount ≤ 65536 := by
  rw [paramCount, slotCount]
  split <;> omega

theorem History.slotted (h : History q m t) {t' : MethodDef} (ht : d.methods[m]? = some t')
    (hparams : t'.paramCount ≤ 65536) (howner : ∃ type, d.types[t'.owner]? = some type)
    (hcount : t'.paramCount = t.paramCount) (hresults : t'.results = t.results) :
    (d.cells m t').length = t.slots ∧ Slotted (d.cells m t') := by
  obtain ⟨hlength, hcells⟩ := h.cells_spec ht howner hcount hresults
  refine ⟨hlength, fun j v hv => ?_⟩
  obtain ⟨hslot, hlt⟩ := hcells j v hv
  by_cases hj : t.paramCount ≤ j
  · exact ⟨hlt hj, m, hslot⟩
  · exact ⟨by omega, m, hslot⟩

theorem Settled.exists_history {fields : Array FieldDef} {body : Body}
    (h : Settled fields q m t) (hbody : t.state = .finished body) (hnew : t.isSynthesized = false) :
    ∃ t₀ e, History q m t₀ ∧ t₀.blocks = [] ∧ body = t₀.complete.body ∧
      t = { t₀ with emitter := e, state := .finished body } := by
  obtain ⟨t₀, code, _, h₀, ⟨hblocks, rfl, rfl⟩ | ⟨-, rfl, -⟩, rfl, rfl⟩ := h.ended hbody
  · exact ⟨t₀, _, h₀, hblocks, rfl, rfl⟩
  · cases hnew

def Setting.ofBody (m : Module) (limit : Nat) (s : Store) (f : Function) (e : Emitter)
    (hcode : f.code = e.body.code) (hsize : f.code.size < 2 ^ 31) (hclosed : e.Closed)
    (hstrings : m.constants.strings.length ≤ 2 ^ 32) : Setting where
  module := m
  limit := limit
  store := s
  function := f
  emitter := e
  code := hcode
  size := by
    rw [hcode, e.size_body] at hsize
    exact hsize
  marks := by
    intro l p hp
    exact Nat.le_of_lt (hclosed.marks l p (Emitter.mem_marks_of_position? hp))
  strings := hstrings

theorem Setting.invoke_eq {S : Setting} {id : UInt32}
    (hfound : S.module.function? id = some S.function) (hconcrete : S.function.isAbstract = false)
    {depth : Nat} (hlimit : S.limit = max depth 1) {args : List Value}
    (hargs : args.length = S.function.paramCount) (fuel : Nat) :
    (Host.start S.module depth fuel).invoke id args S.store =
      (S.run fuel (S.standing 0 ([], (Frame.enter S.function args).locals))).result S.module := by
  have henter : enter S.module S.limit S.store [] id args =
      S.standing 0 ([], (Frame.enter S.function args).locals) := by
    rw [enter, if_neg (by rw [List.length_nil]; omega), function_eq_ok.mpr hfound]
    dsimp only
    rw [if_neg (by rw [hconcrete]; exact nofun)]
    rfl
  rw [Host.start, ← hlimit, Host.invoke_eq hfound, if_neg (not_not.mpr hargs), henter]
  rfl

/-- The commands of a body, which are those for which the operations stand that were carried out on
its method, form a tree. Each call of a function whose body has only slots and constants as operands
comes to what the tree evaluates to. -/
theorem Session.invoke_agrees {p p' : Project} {issued : List (Nat × Variable)}
    (h : Session Given p issued) {m : Module} (hcreate : ProjectM.create p = .ok m p')
    {id : UInt32} {t : MethodDef} (ht : p'.draft.methods[id.toNat]? = some t)
    (hconcrete : t.attrs.isAbstract = false) (hnew : t.isSynthesized = false)
    (hplain : ∀ c ∈ t.script, c.isStructured = true) (hparams : t.params.length < 65535)
    (hsize : ∀ f, m.function? id = some f → f.code.size < 2 ^ 31)
    (hstrings : m.constants.strings.length ≤ 2 ^ 32) :
    (∀ name ops, Builds Given name ops p issued →
        t.script = Operation.recordedAll id.toNat (.empty name {}) ops) ∧
      (∃ tree : Tree, tree.Spells t.script) ∧
      ∀ tree : Tree, tree.Spells t.script → ∀ (depth : Nat) (s : Store) (args : List Value),
        args.length = t.paramCount →
          Agrees s (fun fuel => (Host.start m depth fuel).invoke id args s)
            fun n => tree.answer m s n t.returnType (p'.draft.arguments id.toNat args) := by
  have hfrozen := h.frozen_of_create hcreate
  obtain ⟨issued', hc, -⟩ := (h.created hcreate).course
  obtain ⟨f, hfound, hfunction⟩ := hfrozen.yields.function.2 _ t ht
  obtain ⟨habstract, -⟩ := MethodDef.flags_of_toFunction hfunction
  obtain ⟨body, hbody, rfl⟩ := MethodDef.toFunction_eq_ok hfunction
  have hsettled := hc.settled ht (.refl _)
  have hlocals := hsettled.localCount_eq hbody
  rw [← hfrozen.yields.constants] at hsettled
  obtain ⟨t₀, e, hhistory, hblocks, rfl, heq⟩ := hsettled.exists_history hbody hnew
  have hscript : t.script = t₀.script := by rw [heq]; rfl
  have hreturn : t.returnType = t₀.returnType := by rw [heq]
  have hconcrete' : t₀.attrs.isAbstract = false := by rw [← hconcrete, heq]
  have howner := hc.owner _ t ht
  obtain ⟨hlength, hslots⟩ := hhistory.slotted ht (MethodDef.paramCount_le hparams) howner
    (by rw [heq]; rfl) (by rw [heq]; rfl)
  have hknown : ∀ c ∈ t₀.script, c.Known (p'.draft.cells id.toNat t) := by
    rw [← hscript]
    intro c hmem
    obtain ⟨x, hx, rfl⟩ := List.mem_map.mp hmem
    exact hc.known ht (Array.mem_toList_iff.mp hx) (hplain _ hmem)
  refine ⟨fun name ops hbuilds => ?_, ?_, fun tree hspells depth s args hargs => ?_⟩
  · rw [← Draft.scriptOf_of_found ht]
    exact hbuilds.scriptOf_eq hcreate _
  · obtain ⟨hnested, -⟩ := hhistory.written
    rw [hblocks, ← hscript] at hnested
    exact hnested.exists_tree hplain
  · let S := Setting.ofBody m (max depth 1) s _ t₀.complete rfl (hsize _ hfound)
      (hhistory.closed_complete hblocks hconcrete') hstrings
    have hfills : (p'.draft.arguments id.toNat args).Fills (p'.draft.cells id.toNat t)
        (Frame.enter S.function args).locals := by
      refine Draft.fills_arguments ?_ hslots ?_
      · rw [hargs, (Draft.parameters_spec ht howner).1]
      · rw [hlength]
        exact hlocals.trans (by rw [heq]; rfl)
    rw [hscript] at hspells
    have hagrees := Setting.agrees_of_comes fun n =>
      Setting.comes_answer (S := S) hhistory rfl hconcrete' hslots hknown hspells hfills n
    rw [hreturn, show (fun fuel => (Host.start m depth fuel).invoke id args s) = _ from
      funext (Setting.invoke_eq (S := S) hfound (habstract.trans hconcrete) rfl hargs)]
    exact hagrees

/-- Counts how often a number is halved, or tripled and increased, until it is one. -/
def halving : List Operation := [
  .defineType "Numbers" {} none [],
  .defineMethod 0 "steps" { isStatic := true } .int [⟨"n", .int⟩],
  .look 0 (.param 0),
  .edit 0 (.createLocal "count" .int),
  .edit 0 (.assign (.slot 0 1 "count" .int) (.constant (.i32 0))),
  .edit 0 (.whileBegin (.slot 0 0 "n" .int) .greater (.constant (.i32 1))),
  .edit 0 (.arithmetic .rem (.slot 0 0 "n" .int) (.constant (.i32 2))),
  .edit 0 (.ifBegin (.slot 0 2 "__mod1" .int) .equal (.constant (.i32 0))),
  .edit 0 (.arithmetic .div (.slot 0 0 "n" .int) (.constant (.i32 2))),
  .edit 0 (.assign (.slot 0 0 "n" .int) (.slot 0 3 "__div2" .int)),
  .edit 0 (.elseIf (.slot 0 0 "n" .int) .greater (.constant (.i32 1000000))),
  .edit 0 (.ret (.constant (.i32 0))),
  .edit 0 .elseBegin,
  .edit 0 (.arithmetic .mul (.slot 0 0 "n" .int) (.constant (.i32 3))),
  .edit 0 (.arithmetic .add (.slot 0 4 "__mul3" .int) (.constant (.i32 1))),
  .edit 0 (.assign (.slot 0 0 "n" .int) (.slot 0 5 "__add4" .int)),
  .edit 0 .endIf,
  .edit 0 (.arithmetic .add (.slot 0 1 "count" .int) (.constant (.i32 1))),
  .edit 0 (.assign (.slot 0 1 "count" .int) (.slot 0 6 "__add5" .int)),
  .edit 0 .endWhile,
  .edit 0 (.ret (.slot 0 1 "count" .int))]

theorem Session.invoke_agrees_halving :
    ∃ p issued m p' t, Builds Given "Numbers" halving p issued ∧ ProjectM.create p = .ok m p' ∧
      p'.draft.methods[(0 : UInt32).toNat]? = some t ∧ t.attrs.isAbstract = false ∧
      t.isSynthesized = false ∧ (∀ c ∈ t.script, c.isStructured = true) ∧
      t.params.length < 65535 ∧ (∀ f, m.function? 0 = some f → f.code.size < 2 ^ 31) ∧
      m.constants.strings.length ≤ 2 ^ 32 ∧ t.paramCount = 1 ∧
      run m 64 220 (enter m 64 .empty [] 0 [.i32 6]) = .returned (.i32 8) .empty ∧
      t.script = Operation.recordedAll 0 (.empty "Numbers" {}) halving ∧
      (∃ tree : Tree, tree.Spells t.script) ∧
      ∀ tree : Tree, tree.Spells t.script → ∀ (depth : Nat) (s : Store) (args : List Value),
        args.length = t.paramCount →
          Agrees s (fun fuel => (Host.start m depth fuel).invoke 0 args s)
            fun n => tree.answer m s n t.returnType (p'.draft.arguments 0 args) := by
  obtain ⟨p, issued, m, p', h, hcreate, hcheck⟩ := Builds.exists_created Given "Numbers" halving
    (fun _ m p' => p'.draft.methods[(0 : UInt32).toNat]?.any fun (t : MethodDef) => decide
      (t.attrs.isAbstract = false ∧ t.isSynthesized = false ∧
        (∀ c ∈ t.script, c.isStructured = true) ∧ t.params.length < 65535 ∧
        (∀ f ∈ m.function? 0, f.code.size < 2 ^ 31) ∧ m.constants.strings.length ≤ 2 ^ 32 ∧
        t.paramCount = 1 ∧ run m 64 220 (enter m 64 .empty [] 0 [.i32 6]) =
          .returned (.i32 8) .empty)) (by decide +kernel)
  obtain ⟨t, ht, hfacts⟩ := (Option.any_eq_true ..).mp hcheck
  obtain ⟨hconcrete, hnew, hplain, hparams, hsize, hstrings, hcount, hrun⟩ :=
    of_decide_eq_true hfacts
  obtain ⟨hscript, hagrees⟩ :=
    h.session.invoke_agrees hcreate ht hconcrete hnew hplain hparams hsize hstrings
  exact ⟨p, issued, m, p', t, h, hcreate, ht, hconcrete, hnew, hplain, hparams, hsize, hstrings,
    hcount, hrun, hscript _ _ h, hagrees⟩

end Bytesmith.Build
