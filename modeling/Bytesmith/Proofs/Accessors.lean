import Bytesmith.Proofs.HostCalls
import Bytesmith.Proofs.Reflection

namespace Bytesmith.Machine

open Code Bytesmith.Outcome HostM

inductive PropertyUse
  | read
  | assign (v : Value)
deriving DecidableEq, Repr

namespace PropertyUse

def accessor (p : PropertyEntry) : PropertyUse → Option UInt32
  | read => p.getter
  | assign _ => p.setter

def args : PropertyUse → List Value
  | read => []
  | assign v => [v]

def hostCall (receiver : Value) (name : String) : PropertyUse → HostCall
  | read => .getProperty receiver name
  | assign v => .setProperty receiver name v

def given : PropertyUse → Option Value
  | read => none
  | assign _ => some .null

/-- What a caller in bytecode does with the result of an accessor that is declared for it. -/
def resume : PropertyUse → Resume
  | read => .push
  | assign _ => .discard

end PropertyUse

/-- The host runs the function for the call, at the depth of the interpreter and by itself. -/
structure HostRuns (h : Host) (call : HostCall) (t : Interpreter) (id : UInt32)
    (args : List Value) (given : Option Value) : Prop where
  interpreter : t.perform h call = (t.execute h.module h.maxCallDepth h.fuel id args).map fun r =>
      (r.1.answer h.module r.2.store given, r.2)
  machine : call.perform h t.store = ((given.getD ·) <$> h.call id args) t.store

theorem HostRuns.of_plan {h : Host} {call : HostCall} {t : Interpreter} {id : UInt32}
    {args : List Value} {given : Option Value}
    (hplan : call.plan h t.store = .ok (.run id args given) t.store) :
    HostRuns h call t id args given := by
  constructor
  · rw [Interpreter.perform, hplan]
    rfl
  · rw [Host.perform_eq_bind, bind_of_ok hplan]
    rfl

/-- The frame runs the function where it stands and goes on as the caller, in the interpreter and
above any callers in the machine. -/
structure FrameRuns (h : Host) (t : Interpreter) (f caller : Frame) (resume : Resume) (id : UInt32)
    (args : List Value) : Prop where
  interpreter : t.advance h.module h.maxCallDepth
      (Interpreter.proceed h.module h.maxCallDepth h.fuel) f =
    (t.execute h.module h.maxCallDepth h.fuel id args).map fun r =>
      (r.1.advance ⟨caller, f.position, resume⟩, r.2)
  machine : ∀ callers, step h.module h.maxCallDepth ⟨t.store, f, callers⟩ =
    enter h.module h.maxCallDepth t.store (⟨caller, f.position, resume⟩ :: callers) id args

namespace PropertyUse

variable {h : Host} {t : Interpreter} {ref : Nat} {name : String} {entry : PropertyEntry}
  {id : UInt32} {g : Function} {f f' : Frame} {rest : List Value}

theorem plan_eq (a : PropertyUse) {s : Store}
    (hfind : h.module.findProperty? (s.object ref).classId name = some entry)
    (hid : a.accessor entry = some id) (hg : h.module.function? id = some g)
    (hcount : g.paramCount = a.args.length + 1) :
    (a.hostCall (.object ref) name).plan h s = .ok (.run id (.object ref :: a.args) a.given) s := by
  have hfound (what : Sought) {x : PropertyEntry → Option UInt32} (hx : x entry = some id) :
      ofOption what name ((h.module.findProperty? (s.object ref).classId name).bind x) s =
        .ok id s := by
    rw [hfind, Option.bind_some, hx]
    rfl
  cases a with
  | read =>
    refine (bind_of_ok (hfound .readableProperty hid)).trans ((Host.accept_eq hg).trans ?_)
    exact if_neg (not_not.mpr hcount.symm)
  | assign v =>
    refine (bind_of_ok (hfound .writableProperty hid)).trans ((Host.accept_eq hg).trans ?_)
    exact if_neg (not_not.mpr hcount.symm)

theorem hostRuns (a : PropertyUse)
    (hfind : h.module.findProperty? (t.store.object ref).classId name = some entry)
    (hid : a.accessor entry = some id) (hg : h.module.function? id = some g)
    (hcount : g.paramCount = a.args.length + 1) :
    HostRuns h (a.hostCall (.object ref) name) t id (.object ref :: a.args) a.given :=
  .of_plan (a.plan_eq hfind hid hg hcount)

theorem frameRuns_of_effect {caller : Frame} {resume : Resume} {args : List Value}
    (heffect : f.effect h.module t.store = .ok (.call id args caller resume)) :
    FrameRuns h t f caller resume id args := by
  obtain ⟨i, f₁, hfetch, -⟩ := Frame.effect_eq_ok.mp heffect
  constructor
  · rw [Interpreter.advance, heffect]
    rfl
  · intro callers
    rw [step_eq, isAtEnd_of_fetch hfetch, if_neg Bool.false_ne_true, heffect]
    rfl

def argc (a : PropertyUse) : UInt16 := a.args.length.toUInt16

theorem toNat_argc (a : PropertyUse) : a.argc.toNat = a.args.length := by
  cases a <;> rfl

theorem popArgs_eq (a : PropertyUse) (hstack : f.stack = a.args ++ .object ref :: rest) :
    f.popArgs a.args.length = .ok (a.args, { f with stack := .object ref :: rest }) := by
  rw [Frame.popArgs, hstack]
  cases a <;> rfl

theorem effect_eq (a : PropertyUse) {m : Module} {s : Store}
    (hfetch : f.fetch = .ok (.call .method id a.argc, f'))
    (hstack : f.stack = a.args ++ .object ref :: rest) (hg : m.function? id = some g)
    (hreturns : (if g.returnsValue then Resume.push else .discard) = a.resume) :
    f.effect m s =
      if g.isAbstract then
        match m.implementation? (s.object ref).classId g.name a.args.length with
        | some r =>
          .ok (.call r (.object ref :: a.args) { f' with stack := rest } a.resume)
        | none => .error (.unknown .implementation g.name)
      else .ok (.call id (.object ref :: a.args) { f' with stack := rest } a.resume) := by
  have hpop := a.popArgs_eq ((Frame.stack_fetch hfetch).trans hstack)
  rw [Frame.effect_of_fetch hfetch]
  change callEffect m s .method id a.argc.toNat f' = _
  rw [callEffect, function_eq_ok.mpr hg, toNat_argc]
  simp only [hpop, Frame.pop, receiverClass, bind, Except.bind, pure, Except.pure, hreturns]
  split <;> rfl

theorem frameRuns (a : PropertyUse)
    (hfetch : f.fetch = .ok (.call .method id a.argc, f'))
    (hstack : f.stack = a.args ++ .object ref :: rest) (hg : h.module.function? id = some g)
    (hreturns : (if g.returnsValue then Resume.push else .discard) = a.resume)
    (hbody : g.isAbstract = false) :
    FrameRuns h t f { f' with stack := rest } a.resume id (.object ref :: a.args) := by
  apply frameRuns_of_effect
  rw [a.effect_eq hfetch hstack hg hreturns, hbody, if_neg Bool.false_ne_true]

theorem perform_of_abstract {call : HostCall} {args : List Value} {given : Option Value}
    (hruns : HostRuns h call t id args given) (hg : h.module.function? id = some g)
    (habstract : g.isAbstract = true) :
    t.perform h call = some (.error (if h.maxCallDepth ≤ t.depth then .stackOverflow h.maxCallDepth
      else .typeError (.abstractBody g.name)), t) := by
  rw [hruns.interpreter, Interpreter.execute, Interpreter.counted, Interpreter.runFrame,
    function_eq_ok.mpr hg]
  by_cases hdepth : h.maxCallDepth ≤ t.depth
  · simp [hdepth, Ending.answer]
  · simp [hdepth, habstract, Ending.answer]

/-- How the host and a frame come to use a property through the accessor that is listed: the host
runs it, and so does the frame if it has a body. If it has none, the host gets no value, and the
frame runs the implementation of the receiver's class. -/
structure Uses (a : PropertyUse) (h : Host) (t : Interpreter) (ref : Nat) (name : String)
    (id : UInt32) (g : Function) (f caller : Frame) : Prop where
  host : HostRuns h (a.hostCall (.object ref) name) t id (.object ref :: a.args) a.given
  frame : g.isAbstract = false → FrameRuns h t f caller a.resume id (.object ref :: a.args)
  hostFails : g.isAbstract = true → t.perform h (a.hostCall (.object ref) name) =
    some (.error (if h.maxCallDepth ≤ t.depth then .stackOverflow h.maxCallDepth
      else .typeError (.abstractBody g.name)), t)
  implementation : g.isAbstract = true → ∀ r,
    h.module.implementation? (t.store.object ref).classId g.name a.args.length = some r →
      FrameRuns h t f caller a.resume r (.object ref :: a.args)
  missing : g.isAbstract = true →
    h.module.implementation? (t.store.object ref).classId g.name a.args.length = none →
      t.advance h.module h.maxCallDepth
          (Interpreter.proceed h.module h.maxCallDepth h.fuel) f =
        some (.ended (.faulted (.unknown .implementation g.name)), t)

theorem uses (a : PropertyUse)
    (hfind : h.module.findProperty? (t.store.object ref).classId name = some entry)
    (hid : a.accessor entry = some id) (hfetch : f.fetch = .ok (.call .method id a.argc, f'))
    (hstack : f.stack = a.args ++ .object ref :: rest) (hg : h.module.function? id = some g)
    (hcount : g.paramCount = a.args.length + 1)
    (hreturns : (if g.returnsValue then Resume.push else .discard) = a.resume) :
    a.Uses h t ref name id g f { f' with stack := rest } := by
  have hhost := a.hostRuns hfind hid hg hcount
  refine ⟨hhost, a.frameRuns hfetch hstack hg hreturns, perform_of_abstract hhost hg,
    fun habstract r hr => ?_, fun habstract hnone => ?_⟩
  · apply frameRuns_of_effect
    rw [a.effect_eq hfetch hstack hg hreturns, habstract, if_pos rfl, hr]
  · rw [Interpreter.advance, a.effect_eq hfetch hstack hg hreturns, habstract, if_pos rfl, hnone]
    rfl

end PropertyUse

end Bytesmith.Machine

namespace Bytesmith.Build

open Code Machine Bytesmith.Outcome

theorem Draft.Wired.function_of_accessor {d : Draft} {m : Module} (hw : d.Wired) (hl : d.Listed)
    (htables : d.Tabulates m) (hyields : d.Yields m) (hfunctions : m.functions.length ≤ 2 ^ 32)
    {c id : UInt32} {name : String} {entry : PropertyEntry} {a : PropertyUse}
    (hfind : m.findProperty? c name = some entry) (hid : a.accessor entry = some id) :
    ∃ g, m.function? id = some g ∧ g.paramCount = a.args.length + 1 ∧
      (if g.returnsValue then Resume.push else .discard) = a.resume := by
  rw [htables.findProperty?_eq hl] at hfind
  obtain ⟨i, -, hentry⟩ := Option.bind_eq_some_iff.mp hfind
  obtain ⟨e, he, rfl⟩ := Option.map_eq_some_iff.mp hentry
  obtain ⟨hstorable, hgetter, hsetter⟩ := hw.properties i e he
  cases a with
  | read =>
    obtain ⟨k, hk, rfl⟩ := Option.map_eq_some_iff.mp hid
    obtain ⟨t, ht, -, hstatic, hparams, hreturn⟩ := hgetter k hk
    obtain ⟨g, hg, hfunction⟩ := hyields.function? hfunctions ht
    refine ⟨g, hg, ?_, ?_⟩
    · obtain ⟨body, -, rfl⟩ := MethodDef.toFunction_eq_ok hfunction
      simp [MethodDef.paramCount, MethodDef.slotCount, hstatic, hparams, PropertyUse.args]
    · rw [(MethodDef.flags_of_toFunction hfunction).2, hreturn]
      have hvoid : e.ty.isVoid = false := by
        cases hty : e.ty <;> first | rfl | (rw [hty] at hstorable; cases hstorable)
      rw [hvoid]
      rfl
  | assign v =>
    obtain ⟨k, hk, rfl⟩ := Option.map_eq_some_iff.mp hid
    obtain ⟨t, ht, -, hstatic, hvoid, value, hparams, -⟩ := hsetter k hk
    obtain ⟨g, hg, hfunction⟩ := hyields.function? hfunctions ht
    refine ⟨g, hg, ?_, ?_⟩
    · obtain ⟨body, -, rfl⟩ := MethodDef.toFunction_eq_ok hfunction
      simp [MethodDef.paramCount, MethodDef.slotCount, hstatic, hparams, PropertyUse.args]
    · rw [(MethodDef.flags_of_toFunction hfunction).2, hvoid]
      rfl

variable {p p' : Project} {issued : List (Nat × Variable)} {m : Module}

/-- Whatever a module has been through, once it is created each property of an object is used so by
the host and by a frame that calls the accessor, as long as function numbers fit their words. -/
theorem Session.propertyUses_of_create (h : Session Anything p issued)
    (hcreate : ProjectM.create p = .ok m p') (hfunctions : m.functions.length ≤ 2 ^ 32)
    (limit fuel : Nat) (t : Interpreter) (ref : Nat) (name : String) {entry : PropertyEntry}
    (hfind : m.findProperty? (t.store.object ref).classId name = some entry) (a : PropertyUse)
    {id : UInt32} (hid : a.accessor entry = some id) {f f' : Frame} {rest : List Value}
    (hfetch : f.fetch = .ok (.call .method id a.argc, f'))
    (hstack : f.stack = a.args ++ .object ref :: rest) :
    ∃ g, m.function? id = some g ∧
      a.Uses ⟨m, limit, fuel⟩ t ref name id g f { f' with stack := rest } := by
  have hfrozen := h.frozen_of_create hcreate
  have h' := h.created hcreate
  obtain ⟨issued', hc, -⟩ := h'.course
  obtain ⟨g, hg, hcount, hreturns⟩ := hc.wired.function_of_accessor hc.listed
    (h'.tabulates hfrozen.created) hfrozen.yields hfunctions hfind hid
  exact ⟨g, hg, a.uses hfind hid hfetch hstack hg hcount hreturns⟩

/-- The area of a shape is read through an abstract method, which squares implement; they have a side
besides, with accessors of its own. -/
def areas : List Operation := [
  .defineType "Shape" { isAbstract := true } none [],
  .defineMethod 0 "get_area" { isAbstract := true } .int [],
  .defineProperty 0 "Area" .int (some 0) none,
  .defineType "Square" {} (some 0) [],
  .defineMethod 1 "get_area" {} .int [],
  .edit 1 (.ret (.constant (.i32 9))),
  .defineAutoProperty 1 "Side" .int,
  .defineMethod 1 "measure" { isStatic := true } .int [⟨"shape", .class 0 "Shape"⟩],
  .edit 4 (.ret (.of (.slot 4 0 "shape" (.class 0 "Shape"))
    ⟨"Area", .int, .property 0 (some 0) none⟩)),
  .defineMethod 1 "stretch" {} .void [],
  .edit 5 (.assign (.own ⟨"Side", .int, .property 1 (some 2) (some 3)⟩) (.constant (.i32 4)))]

def square : Store := ⟨#[⟨1, [(0, .i32 0)]⟩], []⟩

def atSquare (g : Function) (position : Nat) (stack : List Value) : Frame :=
  ⟨g, position, stack, #[.object 0]⟩

/-- A module in which there are squares, `measure` comes to read the area of one and `stretch` comes
to assign its side. The host does not get the area, and `measure` does. -/
abbrev Surveyed (m : Module) (measure stretch : Function) : Prop :=
  m.functions.length ≤ 2 ^ 32 ∧
  answer? ((HostCall.newObject "Square" []).perform ⟨m, 64, 100⟩ .empty) =
    some (.ok (.object 0), square) ∧
  m.findProperty? 1 "Area" = some ⟨"Area", some 0, none⟩ ∧
  m.findProperty? 1 "Side" = some ⟨"Side", some 2, some 3⟩ ∧
  (atSquare measure 3 [.object 0]).fetch =
    .ok (.call .method 0 0, atSquare measure 10 [.object 0]) ∧
  (atSquare stretch 8 [.i32 4, .object 0]).fetch =
    .ok (.call .method 3 1, atSquare stretch 15 [.i32 4, .object 0]) ∧
  answer? ((HostCall.getProperty (.object 0) "Area").perform ⟨m, 64, 100⟩ square) =
    some (.error (.typeError (.abstractBody "get_area")), square) ∧
  Interpreter.advance m 64 (Interpreter.proceed m 64 100) ⟨square, 0⟩
      (atSquare measure 3 [.object 0]) =
    some (.next (atSquare measure 10 [.i32 9]), ⟨square, 0⟩)

theorem Session.exists_areas : ∃ p issued m p' measure stretch,
    Builds Anything "Shapes" areas p issued ∧ ProjectM.create p = .ok m p' ∧
    m.function? 4 = some measure ∧ m.function? 5 = some stretch ∧ Surveyed m measure stretch := by
  obtain ⟨p, issued, m, p', h, hcreate, hchecked⟩ := Builds.exists_created Anything "Shapes" areas
    (fun _ m _ => (m.function? 4).any fun measure => (m.function? 5).any fun stretch =>
      decide (Surveyed m measure stretch)) (by decide +kernel)
  obtain ⟨measure, hmeasure, hchecked⟩ := (Option.any_eq_true ..).mp hchecked
  obtain ⟨stretch, hstretch, hchecked⟩ := (Option.any_eq_true ..).mp hchecked
  exact ⟨p, issued, m, p', measure, stretch, h, hcreate, hmeasure, hstretch,
    of_decide_eq_true hchecked⟩

/-- The side of a square is assigned through an accessor with a body, and its area is read through
one without. -/
theorem Session.propertyUses_of_create_areas : ∃ p issued m p' measure stretch g g',
    Builds Anything "Shapes" areas p issued ∧ ProjectM.create p = .ok m p' ∧
    Surveyed m measure stretch ∧
    (PropertyUse.assign (.i32 4)).Uses ⟨m, 64, 100⟩ ⟨square, 7⟩ 0 "Side" 3 g
      (atSquare stretch 8 [.i32 4, .object 0]) (atSquare stretch 15 []) ∧
    PropertyUse.read.Uses ⟨m, 64, 100⟩ ⟨square, 7⟩ 0 "Area" 0 g'
      (atSquare measure 3 [.object 0]) (atSquare measure 10 []) := by
  obtain ⟨p, issued, m, p', measure, stretch, h, hcreate, -, -, hm⟩ := exists_areas
  obtain ⟨hcount, -, harea, hside, hreads, hassigns, -, -⟩ := id hm
  obtain ⟨g, -, hstretched⟩ := h.session.propertyUses_of_create hcreate hcount 64 100 ⟨square, 7⟩ 0
    "Side" hside (.assign (.i32 4)) rfl hassigns rfl
  obtain ⟨g', -, hmeasured⟩ := h.session.propertyUses_of_create hcreate hcount 64 100 ⟨square, 7⟩ 0
    "Area" harea .read rfl hreads rfl
  exact ⟨p, issued, m, p', measure, stretch, g, g', h, hcreate, hm, hstretched, hmeasured⟩

/-- The host faults where a call in bytecode of the same accessor gives the area. -/
theorem Session.getProperty_ne_call_areas : ∃ p issued m p' measure,
    Builds Anything "Shapes" areas p issued ∧ ProjectM.create p = .ok m p' ∧
    m.findProperty? 1 "Area" = some ⟨"Area", some 0, none⟩ ∧
    m.function? 4 = some measure ∧ (atSquare measure 3 [.object 0]).fetch =
      .ok (.call .method 0 0, atSquare measure 10 [.object 0]) ∧
    answer? ((HostCall.getProperty (.object 0) "Area").perform ⟨m, 64, 100⟩ square) =
      some (.error (.typeError (.abstractBody "get_area")), square) ∧
    Interpreter.advance m 64 (Interpreter.proceed m 64 100) ⟨square, 0⟩
        (atSquare measure 3 [.object 0]) =
      some (.next (atSquare measure 10 [.i32 9]), ⟨square, 0⟩) := by
  obtain ⟨p, issued, m, p', measure, stretch, h, hcreate, hmeasure, -, -, -, harea, -, hreads, -,
    hget, hcall⟩ := exists_areas
  exact ⟨p, issued, m, p', measure, h, hcreate, harea, hmeasure, hreads, hget, hcall⟩

end Bytesmith.Build
