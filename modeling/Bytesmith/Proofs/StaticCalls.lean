import Bytesmith.Proofs.Accessors

namespace Bytesmith.Machine

open Code Bytesmith.Outcome HostM

/-- The host refuses the call with the fault, at the depth of the interpreter and by itself, and
nothing runs. -/
structure HostRefuses (h : Host) (call : HostCall) (t : Interpreter) (e : Fault) : Prop where
  interpreter : t.perform h call = some (.error e, t)
  machine : call.perform h t.store = .error (.fault e) t.store

variable {h : Host} {call : HostCall} {t : Interpreter} {className name : String} {id : UInt32}
  {args : List Value} {s : Store}

theorem HostRefuses.of_plan {e : Fault}
    (hplan : call.plan h t.store = .error (.fault e) t.store) : HostRefuses h call t e := by
  constructor
  · rw [Interpreter.perform, hplan]
  · rw [Host.perform_eq_bind, bind_of_error hplan]

namespace HostCall

theorem plan_invokeStatic_of_none (hclass : h.module.findClass? className = none) :
    (invokeStatic className name args).plan h s =
      .error (.fault (.unknown .classEntry className)) s := by
  have hnone : h.classId className s = .error (.fault (.unknown .classEntry className)) s := by
    rw [Host.classId, hclass]
    rfl
  exact bind_of_error hnone

theorem plan_invokeStatic (hclass : h.module.findClass? className = some id) :
    (invokeStatic className name args).plan h s =
      (ofOption .staticMethod s!"{className}.{name}" (h.staticMethod? id name) >>= fun f =>
        h.accept f args none) s := by
  have hid : h.classId className s = .ok id s := by
    rw [Host.classId, hclass]
    rfl
  exact bind_of_ok hid

end HostCall

end Bytesmith.Machine

namespace Bytesmith.Build

open Code Machine Bytesmith.Outcome

namespace Draft

def namesake? (d : Draft) (type : Nat) (name : String) : Option Nat :=
  (d.methodsOf type).find? fun k => d.methods[k]?.any fun e => e.name == name

variable {d : Draft} {m : Module} {type k : Nat} {name : String}

theorem namesake?_eq_some (h : d.namesake? type name = some k) :
    k ∈ d.methodsOf type ∧ ∃ e, d.methods[k]? = some e ∧ e.name = name := by
  have hnamed := List.find?_some h
  obtain ⟨e, he, hname⟩ := (Option.any_eq_true ..).mp hnamed
  exact ⟨List.mem_of_find?_eq_some h, e, he, beq_iff_eq.mp hname⟩

theorem method?_toClass (t : TypeDef) (name : String) :
    (d.toClass t).method? name =
      (t.methods.find? fun k => d.methods[k]?.any fun e => e.name == name).map Nat.toUInt32 := by
  rw [ClassEntry.method?, toClass, List.find?_filterMap]
  have hsame : (fun k : Nat => (d.methods[k]?.map fun e =>
      (⟨e.name, k.toUInt32⟩ : MethodEntry)).any fun entry => entry.name == name) =
      fun k => d.methods[k]?.any fun e => e.name == name := by
    funext k
    cases d.methods[k]? <;> rfl
  rw [hsame]
  cases hk : t.methods.find? fun k => d.methods[k]?.any fun e => e.name == name with
  | none => rfl
  | some k =>
    have hsome := List.find?_some hk
    obtain ⟨e, he, -⟩ := (Option.any_eq_true ..).mp hsome
    rw [Option.bind_some, he]
    rfl

theorem Tabulates.findMethod?_eq (h : d.Tabulates m) (hl : d.Listed) (id : UInt32)
    (name : String) :
    m.findMethod? id name = (d.namesake? id.toNat name).map Nat.toUInt32 := by
  rw [Module.findMethod?, h.findSome?_chain hl fun _ t _ => method?_toClass t name, namesake?,
    methodsOf, List.find?_flatMap, List.map_findSome?]
  refine congrArg (List.findSome? · _) (funext fun i => ?_)
  rw [Function.comp_apply]
  cases d.types[i]? <;> rfl

theorem findType?_eq (d : Draft) (name : String) :
    d.findType? name = d.types.toList.findIdx? fun t => t.name == name := by
  rw [findType?, ← List.findIdx?_toArray]

theorem Tabulates.findClass?_eq (h : d.Tabulates m) (name : String) :
    m.findClass? name = (d.findType? name).map Nat.toUInt32 := by
  have hclasses : m.classes = d.types.toList.map d.toClass := by
    refine List.ext_getElem? fun i => ?_
    rw [List.getElem?_map, Array.getElem?_toList]
    cases ht : d.types[i]? with
    | none =>
      rw [Option.map_none, List.getElem?_eq_none_iff, h.count]
      exact Array.getElem?_eq_none_iff.mp ht
    | some t => exact h.classes i t ht
  rw [Module.findClass?, hclasses, List.findIdx?_map, findType?_eq]
  rfl

theorem lt_size_of_findType? (h : d.findType? name = some type) : type < d.types.size := by
  rw [findType?] at h
  exact (Array.findIdx?_eq_some_iff_getElem.mp h).1

theorem Yields.eq_of_toUInt32_eq (h : d.Yields m) (hcount : m.functions.length ≤ 2 ^ 32) {i j : Nat}
    {a b : MethodDef} (hi : d.methods[i]? = some a) (hj : d.methods[j]? = some b)
    (hij : i.toUInt32 = j.toUInt32) : i = j := by
  have hword {n : Nat} {t : MethodDef} (hn : d.methods[n]? = some t) : n.toUInt32.toNat = n :=
    Nat.mod_eq_of_lt (Nat.lt_of_lt_of_le (Array.getElem?_eq_some_iff.mp hn).1
      (h.function.1 ▸ hcount))
  rw [← hword hi, hij, hword hj]

theorem Tabulates.staticMethod?_eq {h : Host} (htables : d.Tabulates h.module) (hl : d.Listed)
    (hyields : d.Yields h.module) (hfunctions : h.module.functions.length ≤ 2 ^ 32) (id : UInt32)
    (name : String) :
    h.staticMethod? id name = ((d.namesake? id.toNat name).filter fun k =>
      d.methods[k]?.any fun e => e.attrs.isStatic).map Nat.toUInt32 := by
  rw [Host.staticMethod?, htables.findMethod?_eq hl, Option.filter_map]
  cases hk : d.namesake? id.toNat name with
  | none => rfl
  | some k =>
    obtain ⟨-, e, he, -⟩ := namesake?_eq_some hk
    obtain ⟨f, hf, hfunction⟩ := hyields.function? hfunctions he
    rw [Option.filter_some, Option.filter_some, Function.comp_apply, hf, he, Option.any_some,
      Option.any_some, (MethodDef.arity_of_toFunction hfunction).2.1]

end Draft

theorem MethodDef.paramCount_of_static {e : MethodDef} {f : Function}
    (hf : e.toFunction = .ok f) (hstatic : e.attrs.isStatic = true) :
    f.paramCount = e.params.length := by
  obtain ⟨body, -, rfl⟩ := toFunction_eq_ok hf
  simp [paramCount, slotCount, hstatic]

namespace Draft

/-- What comes of a static call: the first method of the name runs if it is static and takes as many
arguments. If it takes another number, or is not static, or if there is none, the call is refused.
So a method that would do runs just if it is the first of its name. -/
structure CallsStatic (d : Draft) (h : Host) (t : Interpreter) (className : String) (type : Nat)
    (name : String) (args : List Value) : Prop where
  runs : ∀ k e, d.namesake? type name = some k → d.methods[k]? = some e →
    e.attrs.isStatic = true → e.params.length = args.length →
      HostRuns h (.invokeStatic className name args) t k.toUInt32 args none
  miscounts : ∀ k e, d.namesake? type name = some k → d.methods[k]? = some e →
    e.attrs.isStatic = true → e.params.length ≠ args.length →
      HostRefuses h (.invokeStatic className name args) t
        (.arityMismatch name e.params.length args.length)
  misses : (∀ k e, d.namesake? type name = some k → d.methods[k]? = some e →
    e.attrs.isStatic = false) →
      HostRefuses h (.invokeStatic className name args) t
        (.unknown .staticMethod s!"{className}.{name}")
  resolves : ∀ k e, d.methods[k]? = some e → e.name = name → e.attrs.isStatic = true →
    e.params.length = args.length →
      ((HostCall.invokeStatic className name args).plan h t.store =
        .ok (.run k.toUInt32 args none) t.store ↔ d.namesake? type name = some k)

section

variable {d : Draft} {h : Host} {className : String} {type : Nat} (htables : d.Tabulates h.module)
  (hl : d.Listed) (hyields : d.Yields h.module) (hfunctions : h.module.functions.length ≤ 2 ^ 32)
  (hclasses : h.module.classes.length ≤ 2 ^ 32) (htype : d.findType? className = some type)

include htables hl hyields hfunctions hclasses htype

theorem plan_invokeStatic_eq (name : String) (args : List Value) (s : Store) :
    (HostCall.invokeStatic className name args).plan h s =
      ((d.namesake? type name).filter fun k => d.methods[k]?.any fun e => e.attrs.isStatic).elim
        (.error (.fault (.unknown .staticMethod s!"{className}.{name}")) s)
        fun k => h.accept k.toUInt32 args none s := by
  have hword : type.toUInt32.toNat = type :=
    Nat.mod_eq_of_lt (Nat.lt_of_lt_of_le (lt_size_of_findType? htype) (htables.count ▸ hclasses))
  have hclass : h.module.findClass? className = some type.toUInt32 := by
    rw [htables.findClass?_eq, htype, Option.map_some]
  rw [HostCall.plan_invokeStatic hclass, htables.staticMethod?_eq hl hyields hfunctions, hword]
  cases (d.namesake? type name).filter fun k => d.methods[k]?.any fun e => e.attrs.isStatic <;> rfl

theorem plan_of_static {name : String} {k : Nat} {e : MethodDef}
    (hk : d.namesake? type name = some k) (he : d.methods[k]? = some e)
    (hstatic : e.attrs.isStatic = true) (args : List Value) (s : Store) :
    (HostCall.invokeStatic className name args).plan h s =
      if args.length ≠ e.params.length then
        .error (.fault (.arityMismatch name e.params.length args.length)) s
      else .ok (.run k.toUInt32 args none) s := by
  obtain ⟨-, e', he', hname⟩ := namesake?_eq_some hk
  cases he.symm.trans he'
  obtain ⟨f, hf, hfunction⟩ := hyields.function? hfunctions he
  have hfilter : ((d.namesake? type name).filter fun k =>
      d.methods[k]?.any fun e => e.attrs.isStatic) = some k := by
    rw [hk, Option.filter_some, he, Option.any_some, hstatic, if_pos rfl]
  rw [plan_invokeStatic_eq htables hl hyields hfunctions hclasses htype, hfilter, Option.elim_some,
    Host.accept_eq hf, (MethodDef.arity_of_toFunction hfunction).1, hname,
    MethodDef.paramCount_of_static hfunction hstatic]

theorem plan_of_no_static (name : String)
    (hnone : ∀ k e, d.namesake? type name = some k → d.methods[k]? = some e →
      e.attrs.isStatic = false) (args : List Value) (s : Store) :
    (HostCall.invokeStatic className name args).plan h s =
      .error (.fault (.unknown .staticMethod s!"{className}.{name}")) s := by
  have hfilter : ((d.namesake? type name).filter fun k =>
      d.methods[k]?.any fun e => e.attrs.isStatic) = none := by
    cases hk : d.namesake? type name with
    | none => rfl
    | some k =>
      obtain ⟨-, e, he, -⟩ := namesake?_eq_some hk
      rw [Option.filter_some, he, Option.any_some, hnone k e hk he, if_neg Bool.false_ne_true]
  rw [plan_invokeStatic_eq htables hl hyields hfunctions hclasses htype, hfilter, Option.elim_none]

theorem callsStatic (t : Interpreter) (name : String) (args : List Value) :
    d.CallsStatic h t className type name args := by
  have hplan {k : Nat} {e : MethodDef} (hk : d.namesake? type name = some k)
      (he : d.methods[k]? = some e) (hstatic : e.attrs.isStatic = true) :=
    plan_of_static htables hl hyields hfunctions hclasses htype hk he hstatic args t.store
  have hmiss := plan_of_no_static htables hl hyields hfunctions hclasses htype name
  refine ⟨fun k e hk he hstatic hcount => .of_plan ?_, fun k e hk he hstatic hcount => .of_plan ?_,
    fun hnone => .of_plan (hmiss hnone args t.store), fun k e he hname hstatic hcount => ?_⟩
  · rw [hplan hk he hstatic, if_neg (not_not.mpr hcount.symm)]
  · rw [hplan hk he hstatic, if_pos hcount.symm]
  · refine ⟨fun hruns => ?_, fun hk => ?_⟩
    · by_cases hnone : ∀ k e, d.namesake? type name = some k → d.methods[k]? = some e →
          e.attrs.isStatic = false
      · rw [hmiss hnone] at hruns
        cases hruns
      · simp only [not_forall, Bool.not_eq_false] at hnone
        obtain ⟨k', e', hk', he', hstatic'⟩ := hnone
        rw [hplan hk' he' hstatic'] at hruns
        by_cases hcount' : args.length ≠ e'.params.length
        · rw [if_pos hcount'] at hruns
          cases hruns
        · rw [if_neg hcount'] at hruns
          simp only [EStateM.Result.ok.injEq, Plan.run.injEq, and_true] at hruns
          rw [hk', hyields.eq_of_toUInt32_eq hfunctions he' he hruns]
    · rw [hplan hk he hstatic, if_neg (not_not.mpr hcount.symm)]

end

end Draft

variable {p p' : Project} {issued : List (Nat × Variable)} {m : Module}

/-- Whatever a module has been through, once it is created a static call by the host comes to this,
as long as the numbers of functions and classes fit their words. -/
theorem Session.callsStatic_of_create (h : Session Anything p issued)
    (hcreate : ProjectM.create p = .ok m p') (hfunctions : m.functions.length ≤ 2 ^ 32)
    (hclasses : m.classes.length ≤ 2 ^ 32) (limit fuel : Nat) (t : Interpreter)
    (className name : String) (args : List Value) :
    (p'.draft.findType? className = none →
      HostRefuses ⟨m, limit, fuel⟩ (.invokeStatic className name args) t
        (.unknown .classEntry className)) ∧
    ∀ type, p'.draft.findType? className = some type →
      p'.draft.CallsStatic ⟨m, limit, fuel⟩ t className type name args := by
  have hfrozen := h.frozen_of_create hcreate
  have h' := h.created hcreate
  have htables := h'.tabulates hfrozen.created
  obtain ⟨issued', hc, -⟩ := h'.course
  refine ⟨fun hnone => .of_plan (HostCall.plan_invokeStatic_of_none ?_), fun type htype => ?_⟩
  · rw [htables.findClass?_eq, hnone, Option.map_none]
  · exact Draft.callsStatic (h := ⟨m, limit, fuel⟩) htables hc.listed hfrozen.yields hfunctions
      hclasses htype t name args

/-- A shape is scaled by a number, or by a number and a unit; squares are shapes. -/
def scales : List Operation := [
  .defineType "Shape" {} none [],
  .defineMethod 0 "scale" { isStatic := true } .int [⟨"n", .int⟩],
  .edit 0 (.ret (.constant (.i32 1))),
  .defineMethod 0 "scale" { isStatic := true } .int [⟨"n", .int⟩, ⟨"unit", .int⟩],
  .edit 1 (.ret (.constant (.i32 2))),
  .defineType "Square" {} (some 0) [],
  .defineField 1 "side" .int {}]

/-- In a module with these methods the number and the unit are refused, though the second method
takes them. -/
abbrev Scaled (m : Module) (d : Draft) (first second : MethodDef) : Prop :=
  m.functions.length ≤ 2 ^ 32 ∧ m.classes.length ≤ 2 ^ 32 ∧
  (d.types.toList.findIdx? fun t => t.name == "Square") = some 1 ∧
  (d.types.toList.findIdx? fun t => t.name == "Circle") = none ∧
  d.methodsOf 1 = [0, 1] ∧ d.namesake? 1 "scale" = some 0 ∧
  (first.attrs.isStatic = true ∧ first.params.length = 1) ∧
  (second.name = "scale" ∧ second.attrs.isStatic = true ∧ second.params.length = 2) ∧
  answer? ((HostCall.invokeStatic "Square" "scale" [.i32 3, .i32 4]).perform ⟨m, 64, 100⟩ .empty) =
    some (.error (.arityMismatch "scale" 1 2), .empty) ∧
  answer? ((HostCall.invoke 1 [.i32 3, .i32 4]).perform ⟨m, 64, 100⟩ .empty) =
    some (.ok (.i32 2), .empty)

theorem Session.exists_scales : ∃ p issued m p' first second,
    Builds Anything "Shapes" scales p issued ∧ ProjectM.create p = .ok m p' ∧
    p'.draft.methods[0]? = some first ∧ p'.draft.methods[1]? = some second ∧
    Scaled m p'.draft first second := by
  obtain ⟨p, issued, m, p', h, hcreate, hchecked⟩ := Builds.exists_created Anything "Shapes" scales
    (fun _ m p' => p'.draft.methods[0]?.any fun first => p'.draft.methods[1]?.any fun second =>
      decide (Scaled m p'.draft first second)) (by decide +kernel)
  obtain ⟨first, hfirst, hchecked⟩ := (Option.any_eq_true ..).mp hchecked
  obtain ⟨second, hsecond, hchecked⟩ := (Option.any_eq_true ..).mp hchecked
  exact ⟨p, issued, m, p', first, second, h, hcreate, hfirst, hsecond, of_decide_eq_true hchecked⟩

/-- A square is scaled by a number, at any depth, and not by a number and a unit. -/
theorem Session.callsStatic_of_create_scales : ∃ p issued m p',
    Builds Anything "Shapes" scales p issued ∧ ProjectM.create p = .ok m p' ∧
    HostRuns ⟨m, 64, 100⟩ (.invokeStatic "Square" "scale" [.i32 3]) ⟨.empty, 7⟩ 0 [.i32 3] none ∧
    HostRefuses ⟨m, 64, 100⟩ (.invokeStatic "Square" "scale" [.i32 3, .i32 4]) ⟨.empty, 7⟩
      (.arityMismatch "scale" 1 2) ∧
    HostRefuses ⟨m, 64, 100⟩ (.invokeStatic "Circle" "scale" [.i32 3]) ⟨.empty, 7⟩
      (.unknown .classEntry "Circle") := by
  obtain ⟨p, issued, m, p', first, second, h, hcreate, hfirst, -, hfunctions, hclasses, hsquare,
    hcircle, -, hnamesake, ⟨hstatic, hcount⟩, -⟩ := exists_scales
  have hcalls (className : String) (args : List Value) :=
    h.session.callsStatic_of_create hcreate hfunctions hclasses 64 100 ⟨.empty, 7⟩ className "scale"
      args
  rw [← Draft.findType?_eq] at hsquare hcircle
  refine ⟨p, issued, m, p', h, hcreate, ?_, ?_, (hcalls "Circle" [.i32 3]).1 hcircle⟩
  · exact ((hcalls "Square" [.i32 3]).2 1 hsquare).runs 0 first hnamesake hfirst hstatic hcount
  · have hrefuses := ((hcalls "Square" [.i32 3, .i32 4]).2 1 hsquare).miscounts 0 first hnamesake
      hfirst hstatic
    rw [hcount] at hrefuses
    exact hrefuses (by decide)

/-- A static method that takes the arguments is declared, and the call fails on another one. -/
theorem Session.invokeStatic_misses_overload : ∃ p issued m p' e,
    Builds Anything "Shapes" scales p issued ∧ ProjectM.create p = .ok m p' ∧
    p'.draft.findType? "Square" = some 1 ∧
    1 ∈ p'.draft.methodsOf 1 ∧ p'.draft.methods[1]? = some e ∧
    (e.name = "scale" ∧ e.attrs.isStatic = true ∧ e.params.length = 2) ∧
    answer? ((HostCall.invokeStatic "Square" "scale" [.i32 3, .i32 4]).perform ⟨m, 64, 100⟩
      .empty) = some (.error (.arityMismatch "scale" 1 2), .empty) ∧
    answer? ((HostCall.invoke 1 [.i32 3, .i32 4]).perform ⟨m, 64, 100⟩ .empty) =
      some (.ok (.i32 2), .empty) := by
  obtain ⟨p, issued, m, p', first, second, h, hcreate, -, hsecond, -, -, hsquare, -, hmethods, -, -,
    hfits, hrefused, hrun⟩ := exists_scales
  rw [← Draft.findType?_eq] at hsquare
  exact ⟨p, issued, m, p', second, h, hcreate, hsquare, by simp [hmethods], hsecond, hfits,
    hrefused, hrun⟩

end Bytesmith.Build
