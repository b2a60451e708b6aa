import Bytesmith.Proofs.Levels

namespace Bytesmith.Code.Instr

variable {τ σ : Type}

theorem pops_mapTarget (f : τ → σ) (i : Instr τ) : (i.mapTarget f).pops = i.pops := by
  cases i <;> rfl

theorem gives_mapTarget (f : τ → σ) (i : Instr τ) (scope : Scope) :
    (i.mapTarget f).gives scope = i.gives scope := by
  cases i with
  | call mode id argc => cases mode <;> rfl
  | _ => rfl

theorem Lifts.mapTarget {scope : Scope} {i : Instr τ} {h h' : Nat} (hi : i.Lifts scope h h')
    (f : τ → σ) : (i.mapTarget f).Lifts scope h h' := by
  refine ⟨?_, ?_, ?_⟩
  · have hscope := hi.inScope
    cases i <;> exact hscope
  · rw [pops_mapTarget]
    exact hi.enough
  · rw [pops_mapTarget, gives_mapTarget]
    exact hi.eq

end Bytesmith.Code.Instr

namespace Bytesmith.Build

open Code Outcome Machine

namespace Emitter

abbrev Verifies (m : Module) (g : Function) (e : Emitter) (level : Nat → Nat) : Prop :=
  e.Grounds (Grading.heights (scopeOf m g)) g level

/-- The frame is at an instruction, with as many values as the code has there, of which some are
still to come. -/
structure Stands (e : Emitter) (level : Nat → Nat) (expected : Nat) (f : Frame) : Prop where
  inside : ∃ i, instrAt e.code.toList f.position = some i
  height : f.stack.length + expected = level f.position
  locals : f.function.localCount ≤ f.locals.size

end Emitter

def pushedBy : Resume → Nat
  | .discard => 0
  | _ => 1

theorem gives_eq_pushedBy {m : Module} {g target : Function} {mode : CallMode} {id : UInt32}
    {argc : UInt16} {resume : Resume} (htarget : function m id = .ok target)
    (hr : Resumes target mode resume) :
    (Instr.call mode id argc : Instr Int32).gives (scopeOf m g) = pushedBy resume := by
  have hfound := function_eq_ok.mp htarget
  have hreturns : (scopeOf m g).returns id = some target.returnsValue := by
    change (m.function? id).map _ = _
    rw [hfound]
    rfl
  cases mode with
  | constructor =>
    obtain ⟨object, rfl⟩ := hr
    rfl
  | _ =>
    rw [Instr.gives_call (by decide) hreturns, hr]
    cases target.returnsValue <;> rfl

namespace Emitter.Verifies

variable {m : Module} {g : Function} {e : Emitter} {level : Nat → Nat} {f f₁ f' : Frame}
  {i : Instr Int32} {s : Store}

theorem fetched (hv : e.Verifies m g level) (hg : f.function = g) (hf : e.Stands level 0 f)
    (hfetch : f.fetch = .ok (i, f₁)) :
    f₁.stack = f.stack ∧ f₁.locals = f.locals ∧
      ∃ h, i.Lifts (scopeOf m g) f.stack.length h ∧
        ∀ f', Arrives i f₁ f' → e.Stage level f'.position h := by
  obtain ⟨i₀, h, -, rfl, rfl, hlifts, harrives⟩ :=
    Emitter.Grounds.fetched hv hg ⟨hf.inside, hf.height.symm⟩ hfetch
  exact ⟨rfl, rfl, h, hlifts.mapTarget _, harrives⟩

theorem stands_handle (hv : e.Verifies m g level) (hg : f.function = g)
    (hlocals : f.function.localCount ≤ f.locals.size) {k : Handler} (hk : k ∈ f.function.handlers)
    (v : Value) : e.Stands level 0 (f.handle k v) := by
  obtain ⟨hinside, hone⟩ := hv.stage_handler (hg ▸ hk)
  exact ⟨hinside, hone.symm, hlocals⟩

theorem invariant (hv : e.Verifies m g level) :
    Invariant m (fun f => f.function = g → e.Stands level 0 f)
      fun c => c.frame.function = g → e.Stands level (pushedBy c.resume) c.frame := by
  constructor
  case enter =>
    intro id f args hf hconcrete hg
    refine ⟨hv.closed.exists_first, hv.graded.start.symm, ?_⟩
    change f.localCount ≤ (List.toArray _).size
    simp only [List.size_toArray, List.length_append, List.length_replicate]
    omega
  case next =>
    intro f i f₁ s f' s' hf hfetch hexec hg
    obtain ⟨hkeeps, harrives, -⟩ := fits_exec hexec
    have hfunction := Frame.fetch_function hfetch
    have hg₀ : f.function = g := by rw [← hfunction, ← hkeeps.function, hg]
    obtain ⟨hsame, hlocals, h, hlifts, hstage⟩ := hv.fetched hg₀ (hf hg₀) hfetch
    obtain ⟨hinside, hheight⟩ := hstage f' harrives
    have hgives : i.gives (scopeOf m g) = i.pushes := by
      cases i with
      | call mode id argc => exact absurd rfl ((fits_callEffect hexec).2 f' s')
      | _ => rfl
    have hstack := hkeeps.stack
    have heq := hlifts.eq
    rw [hsame] at hstack
    refine ⟨hinside, by omega, ?_⟩
    rw [hkeeps.function, hfunction, hkeeps.locals, hlocals]
    exact (hf hg₀).locals
  case call =>
    intro f i f₁ s id args caller resume hf hfetch hexec hg
    obtain ⟨-, mode, callee, argc, target, hcall, htarget, hcaller, hkeeps, hresumes⟩ :=
      fits_exec hexec
    have hg₀ : f.function = g := by
      rw [← Frame.fetch_function hfetch, ← hkeeps.function, hg]
    obtain ⟨hsame, hlocals, h, hlifts, hstage⟩ := hv.fetched hg₀ (hf hg₀) hfetch
    have hposition := congrArg Frame.position hcaller
    obtain ⟨hinside, hheight⟩ := hstage caller (.inl ⟨hposition, by rw [hcall]; cases mode <;> rfl⟩)
    have hgives : i.gives (scopeOf m g) = pushedBy resume := by
      rw [hcall]
      exact gives_eq_pushedBy htarget hresumes
    have hstack := hkeeps.stack
    have heq := hlifts.eq
    rw [hsame] at hstack
    change e.Stands level (pushedBy resume) caller
    refine ⟨hinside, by omega, ?_⟩
    rw [hkeeps.function, Frame.fetch_function hfetch, hkeeps.locals, hlocals]
    exact (hf hg₀).locals
  case resumed =>
    intro c v hc hg
    obtain ⟨frame, offset, resume⟩ := c
    cases resume with
    | discard => exact hc hg
    | push | leave =>
      obtain ⟨hinside, hheight, hlocals⟩ := hc hg
      exact ⟨hinside, hheight, hlocals⟩
  case handle => exact fun f k v hf hk hg => hv.stands_handle hg (hf hg).locals hk v
  case handleCaller => exact fun c k v hc hk hg => hv.stands_handle hg (hc hg).locals hk v

theorem benign_step (hv : e.Verifies m g level) {limit : Nat} {k : Configuration}
    (hg : k.frame.function = g) (hf : e.Stands level 0 k.frame) {fault : Fault}
    (hs : step m limit k = .faulted fault s) : fault.isMalformed = false := by
  have hfinish {s₀ : Store} {v : Value} {callers : List Caller} :
      finishFrame s₀ v callers ≠ .faulted fault s := by
    cases callers <;> exact nofun
  have hexec : Benign (k.frame.effect m k.store) := by
    obtain ⟨i₀, hi₀⟩ := hf.inside
    have hfetch := fetch_assemble (hg ▸ hv.code) hi₀
    obtain ⟨-, -, h, hlifts, -⟩ := hv.fetched hg hf hfetch
    rw [← hg] at hlifts
    rw [Frame.effect_of_fetch hfetch]
    refine Benign.exec (f := { k.frame with position := k.frame.position + i₀.size })
      hlifts hf.locals fun d hd => ?_
    rw [Instr.target?_mapTarget] at hd
    obtain ⟨l, hl, rfl⟩ := Option.map_eq_some_iff.mp hd
    obtain ⟨p', j, hmark, -, hdistance⟩ := hv.closed.exists_target hv.size hi₀ hl
    have hlt := hv.closed.marks l p' hmark
    have hsize : k.frame.function.code.size = e.offset := by rw [hg, hv.code, e.size_body]
    dsimp only
    rw [hdistance, hsize]
    omega
  unfold step at hs
  split at hs
  · exact absurd hs hfinish
  · split at hs
    · rename_i heffect
      cases hs
      exact hexec _ heffect
    · cases hs
    · rename_i heffect
      obtain ⟨i, f₁, -, heffect⟩ := Frame.effect_eq_ok.mp heffect
      obtain ⟨⟨callee, hcallee⟩, -⟩ := fits_exec heffect
      exact Benign.enter hcallee hs
    · exact absurd hs hfinish
    · exact absurd hs unwind_ne_faulted

end Emitter.Verifies

theorem MethodDef.flags_of_toFunction {t : MethodDef} {f : Function} (h : t.toFunction = .ok f) :
    f.isAbstract = t.attrs.isAbstract ∧ f.returnsValue = !t.returnType.isVoid := by
  obtain ⟨body, -, rfl⟩ := toFunction_eq_ok h
  exact t.bits_flags.2.2

theorem Settled.localCount_eq {fields : Array FieldDef} {q : Pool} {i : Nat} {t : MethodDef}
    {body : Body} (h : Settled fields q i t) (hbody : t.state = .finished body) :
    body.localCount = t.slots := by
  obtain ⟨t₀, code, _, h₀, -, rfl, rfl⟩ := h.ended hbody
  exact (Emitter.localCount_append ..).trans h₀.results.1

namespace Draft

variable {d : Draft} {m : Module} {i : Nat} {t : MethodDef} {f : Function}

theorem Yields.covers (hy : d.Yields m) {slots : List StaticType}
    (hlocals : f.localCount = slots.length) :
    Covers (d.counted m) slots (scopeOf m f) := by
  refine ⟨Nat.le_of_eq hlocals.symm, Nat.le_refl _, Nat.le_refl _, fun id sig hsig => ?_⟩
  obtain ⟨t, ht, rfl⟩ := Option.map_eq_some_iff.mp hsig
  obtain ⟨f', hf', hfunction⟩ := hy.function.2 id.toNat t ht
  exact Option.map_eq_some_iff.mpr ⟨f', hf', (MethodDef.flags_of_toFunction hfunction).2⟩

theorem Yields.method (hy : d.Yields m) {id : UInt32} (hf : Machine.function m id = .ok f) :
    ∃ t, d.methods[id.toNat]? = some t ∧ t.toFunction = .ok f := by
  have hfound := function_eq_ok.mp hf
  obtain ⟨hlength, hall⟩ := hy.function
  have hlt := (List.getElem?_eq_some_iff.mp hfound).1
  rw [hlength] at hlt
  obtain ⟨f', hf', hfunction⟩ := hall _ _ (Array.getElem?_eq_getElem hlt)
  rw [show m.functions[id.toNat]? = some f from hfound] at hf'
  cases hf'
  exact ⟨_, Array.getElem?_eq_getElem hlt, hfunction⟩

theorem Frozen.typedBy (hm : d.Frozen m) {R : Rules} (hcount : d.methods.size ≤ 2 ^ 32)
    (hparams : ∀ t ∈ d.methods, t.params.length < 65535)
    (hsignature : ∀ id, R.signature id = d.methods[id.toNat]?.map fun t =>
      ⟨d.takes t, t.returnType⟩)
    (hfields : ∀ (i : Nat) (f : FieldDef), d.fields[i]? = some f → R.HasField i.toUInt32 f.ty)
    (hclasses : m.classes.length ≤ R.classes) (hstrings : m.constants.strings.length ≤ R.strings)
    (hsubtypes : ∀ sub sup name name', d.isSubtype sub sup = true →
      R.Accepts (.class sub name) (.class sup name')) : d.TypedBy R d.slotsOf := by
  refine ⟨hfields, fun i t ht => ⟨?_, hparams t (Array.mem_of_getElem? ht)⟩, ?_, ?_,
    fun i t ht => slotsOf_eq ht ▸ List.prefix_refl _, hsubtypes⟩
  · have hindex : i.toUInt32.toNat = i :=
      Nat.mod_eq_of_lt (Nat.lt_of_lt_of_le (lt_size_of_found ht) hcount)
    rw [hsignature, hindex, ht]
    rfl
  · rw [← hm.yields.classes]
    exact hclasses
  · rw [← hm.yields.constants]
    exact hstrings

end Draft

section

variable {Allowed : List (Nat × Variable) → Nat → Variable → Prop} {d : Draft}
  {issued : List (Nat × Variable)} {m : Module} {i : Nat} {t : MethodDef} {f : Function}

theorem Course.grounds {R : Rules} (hc : Course Allowed d issued) (ha : Admits R Allowed)
    (hd : d.TypedBy R d.slotsOf) (ht : d.methods[i]? = some t) (hf : t.toFunction = .ok f)
    (hconcrete : f.isAbstract = false) (hsize : f.code.size < 2 ^ 31) :
    f.localCount = (d.slotTypes t).length ∧ ∃ (e : Emitter) (level : Nat → List StaticType),
      e.Grounds (Grading.types R (d.slotTypes t) t.returnType) f level ∧
        t.Graded (Grading.types R (d.slotTypes t) t.returnType) e level := by
  rw [(MethodDef.flags_of_toFunction hf).1] at hconcrete
  obtain ⟨body, hbody, rfl⟩ := MethodDef.toFunction_eq_ok hf
  obtain ⟨e, level, hclosed, rfl, hgraded⟩ := hc.typed ha hd ht hbody hconcrete
  have hlocals := (hc.settled ht (.refl _)).localCount_eq hbody
  rw [Draft.slotsOf_eq ht] at hgraded
  refine ⟨?_, e, level, ⟨hclosed, e.size_body ▸ hsize, rfl, rfl, hgraded.code⟩, hgraded⟩
  change e.body.localCount = _
  rw [hlocals, Draft.slotTypes, List.length_append, Draft.length_takes, List.length_map]
  rfl

theorem Course.verifies (hc : Course Own d issued) (hcount : d.methods.size ≤ 2 ^ 32)
    (hparams : ∀ t ∈ d.methods, t.params.length < 65535) (hm : d.Frozen m)
    (ht : d.methods[i]? = some t) (hf : t.toFunction = .ok f) (hconcrete : f.isAbstract = false)
    (hsize : f.code.size < 2 ^ 31) :
    ∃ (e : Emitter) (level : Nat → Nat), e.Verifies m f level ∧
      t.Graded (Grading.heights (scopeOf m f)) e level := by
  have htyped : d.TypedBy (d.counted m) d.slotsOf := hm.typedBy hcount hparams (fun _ => rfl)
    (fun _ _ _ => trivial) (Nat.le_refl _) (Nat.le_refl _) fun _ _ _ _ _ => trivial
  obtain ⟨hlocals, e, level, hgrounds, hgraded⟩ :=
    hc.grounds (admits_counted d m) htyped ht hf hconcrete hsize
  have hlevels := (hm.yields.covers hlocals).graded hgraded
  exact ⟨e, _, { hgrounds with graded := hlevels.code }, hlevels⟩

end

def AtCommand (d : Draft) (g : Frame) : Prop :=
  ∃ t ∈ d.methods, t.toFunction = .ok g.function ∧
    ∃ c ∈ t.commands, g.position = c.codeStart ∨ g.position = c.codeEnd

def AtHandler (g : Frame) : Prop :=
  ∃ k ∈ g.function.handlers, g.position = k.handlerStart.toNat

/-- No call of the function ends in a fault that only malformed code has. Where commands start and
end nothing is on the stack, save a value that has just been caught. -/
structure RunsClean (d : Draft) (m : Module) (id : UInt32) : Prop where
  heights : ∀ limit store args n k,
    run m limit n (enter m limit store [] id args) = .running k →
      (∀ g ∈ frames k, AtCommand d g → ¬ AtHandler g → g.stack = []) ∧
      (AtHandler k.frame → ∃ v, k.frame.stack = [v])
  faults : ∀ limit fuel store args e s,
    Host.invoke ⟨m, limit, fuel⟩ id args store = .error (.fault e) s → e.isMalformed = false

namespace Emitter.Verifies

variable {m : Module} {g : Function} {e : Emitter} {level : Nat → Nat}

theorem atHandler (hv : e.Verifies m g level) {f : Frame} (hg : f.function = g)
    (h : AtHandler f) : level f.position = 1 := by
  obtain ⟨k, hk, hposition⟩ := h
  rw [hposition]
  exact (hv.stage_handler (hg ▸ hk)).grade

theorem stack_eq_nil (hv : e.Verifies m g level) {f : Frame} (hg : f.function = g)
    {expected : Nat} (hf : e.Stands level expected f)
    (hrest : e.Rests (Grading.heights (scopeOf m g)) level f.position)
    (hhandler : ¬ AtHandler f) : f.stack = [] := by
  obtain hzero | ⟨k, hk, hstart⟩ := hrest.2
  · have hheight : f.stack.length + expected = 0 := hf.height.trans hzero
    exact List.length_eq_zero_iff.mp (by omega)
  · refine absurd ⟨k, ?_, ?_⟩ hhandler
    · rw [hg, hv.handlers]
      exact hk
    · have hsize := hv.size
      have hle := hrest.1
      rw [hstart]
      exact (Nat.mod_eq_of_lt (by omega)).symm

end Emitter.Verifies

structure Draft.Verified (d : Draft) (m : Module) : Prop where
  yields : d.Yields m
  bodies : ∀ (i : Nat) (t : MethodDef) (f : Function), d.methods[i]? = some t →
    t.toFunction = .ok f → f.isAbstract = false →
      ∃ (e : Emitter) (level : Nat → Nat), e.Verifies m f level ∧
        t.Graded (Grading.heights (scopeOf m f)) e level

namespace Draft.Verified

variable {d : Draft} {m : Module} {id : UInt32} {limit n : Nat} {store s : Store}
  {args : List Value} {k : Configuration}

theorem stands (h : d.Verified m)
    (hrun : run m limit n (enter m limit store [] id args) = .running k) :
    ∃ (e : Emitter) (level : Nat → Nat),
      e.Verifies m k.frame.function level ∧ e.Stands level 0 k.frame := by
  have hholds := (Invariant.belongs m).holds_reached hrun
  obtain ⟨id', hfunction, hconcrete⟩ := hholds.frame
  obtain ⟨t, ht, hf⟩ := h.yields.method hfunction
  obtain ⟨e, level, hv, -⟩ := h.bodies _ t _ ht hf hconcrete
  have hlevels := hv.invariant.holds_reached hrun
  exact ⟨e, level, hv, hlevels.frame rfl⟩

theorem stack_eq_nil (h : d.Verified m)
    (hrun : run m limit n (enter m limit store [] id args) = .running k)
    {g : Frame} (hg : g ∈ frames k) (hcommand : AtCommand d g)
    (hhandler : ¬ AtHandler g) : g.stack = [] := by
  have hholds := (Invariant.belongs m).holds_reached hrun
  have hconcrete : g.function.isAbstract = false := by
    obtain rfl | hg := List.mem_cons.mp hg
    · obtain ⟨_, -, hconcrete⟩ := hholds.frame
      exact hconcrete
    · obtain ⟨c, hc, rfl⟩ := List.mem_map.mp hg
      obtain ⟨_, -, hconcrete⟩ := hholds.callers c hc
      exact hconcrete
  obtain ⟨t, hmem, hf, c, hc, hposition⟩ := hcommand
  obtain ⟨i, ht⟩ := Array.getElem?_of_mem hmem
  obtain ⟨e, level, hv, hgraded⟩ := h.bodies i t _ ht hf hconcrete
  have hlevels := hv.invariant.holds_reached hrun
  have hrest : e.Rests (Grading.heights (scopeOf m g.function)) level g.position := by
    obtain ⟨hstart, hend⟩ := hgraded.commands c hc
    obtain hp | hp := hposition
    · rw [hp]
      exact hstart
    · rw [hp]
      exact hend
  obtain rfl | hg := List.mem_cons.mp hg
  · exact hv.stack_eq_nil rfl (hlevels.frame rfl) hrest hhandler
  · obtain ⟨caller, hcaller, rfl⟩ := List.mem_map.mp hg
    exact hv.stack_eq_nil rfl (hlevels.callers caller hcaller rfl) hrest hhandler

theorem runsClean (h : d.Verified m) {f : Function} (hf : m.function? id = some f) :
    RunsClean d m id := by
  refine ⟨fun limit store args n k hrun => ⟨fun g => h.stack_eq_nil hrun, fun hhandler => ?_⟩,
    fun limit fuel store args fault s hinvoke => ?_⟩
  · obtain ⟨e, level, hv, hstands⟩ := h.stands hrun
    have hheight := hstands.height
    rw [hv.atHandler rfl hhandler] at hheight
    exact List.length_eq_one_iff.mp hheight
  · rw [Host.invoke_eq hf] at hinvoke
    split at hinvoke
    · cases hinvoke
      rfl
    · cases hrun : run m limit fuel (enter m limit store [] id args) with
      | returned | running =>
        rw [hrun] at hinvoke
        cases hinvoke
      | uncaught v s =>
        rw [hrun] at hinvoke
        cases hinvoke
        rfl
      | faulted e s =>
        rw [hrun] at hinvoke
        cases hinvoke
        obtain hstart | ⟨n, k, hreached, hstep⟩ := exists_step_of_faulted hrun
        · exact Benign.enter (function_eq_ok.mpr hf) hstart
        · obtain ⟨e, level, hv, hstands⟩ := h.stands hreached
          exact hv.benign_step rfl hstands hstep

end Draft.Verified

/-- A type that adds to a property of its own, and a method that makes an object of it. -/
def ledger : List Operation := [
  .defineType "Ledger" {} none [],
  .defineAutoProperty 0 "total" .int,
  .defineMethod 0 "add" {} .int [⟨"n", .int⟩],
  .look 2 (.param 0),
  .look 2 (.property "total"),
  .edit 2 .tryBegin,
  .edit 2 (.arithmetic .add (.own ⟨"total", .int, .property 0 (some 0) (some 1)⟩)
    (.slot 2 1 "n" .int)),
  .edit 2 (.assign (.own ⟨"total", .int, .property 0 (some 0) (some 1)⟩) (.slot 2 2 "__add1" .int)),
  .edit 2 (.ret (.slot 2 2 "__add1" .int)),
  .edit 2 (.catchBegin .object),
  .edit 2 .endTry,
  .defineMethod 0 "main" { isStatic := true } .int [],
  .edit 3 (.newObject 0 []),
  .edit 3 (.call 2 (some (.slot 3 0 "__new3" (.class 0 "Ledger"))) [.constant (.i32 5)]),
  .edit 3 (.ret (.slot 3 1 "__call4" .int))]

instance (d : Draft) (g : Frame) : Decidable (AtCommand d g) :=
  inferInstanceAs (Decidable (∃ t ∈ d.methods, t.toFunction = .ok g.function ∧
    ∃ c ∈ t.commands, g.position = c.codeStart ∨ g.position = c.codeEnd))

/-- The body of the try ends in a throw, so the catch starts where the thrown value is caught. -/
def refusing : List Operation := [
  .defineType "Ledger" {} none [],
  .defineMethod 0 "main" { isStatic := true } .int [],
  .edit 0 .tryBegin,
  .edit 0 (.raise (.constant (.string "full"))),
  .edit 0 (.catchBegin .string),
  .edit 0 .endTry,
  .edit 0 (.ret (.constant (.i32 1)))]

end Bytesmith.Build
