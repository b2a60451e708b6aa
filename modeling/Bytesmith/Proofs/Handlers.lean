import Bytesmith.Proofs.FailStop
import Bytesmith.Proofs.Guards

namespace Bytesmith.Machine

open Code

variable {m : Module} {limit : Nat} {k : Configuration} {s : Store} {v : Value} {f : Frame}
  {offset : Nat} {callers : List Caller}

def propagate (m : Module) (s : Store) (v : Value) : List Caller → Outcome
  | [] => .uncaught v s
  | c :: callers => unwind m s v c.frame c.callOffset callers

theorem unwind_eq : unwind m s v f offset callers = match handlerFor? m s v f offset with
    | some h => .running ⟨s, f.handle h v, callers⟩
    | none => propagate m s v callers := by
  cases callers <;> rfl

/-- The step of a configuration throws a value at an offset of a frame: the frame is the running one
and raises it, or the value comes out of the call at the offset, whose frame has no handler. -/
inductive Thrown (m : Module) (k : Configuration) (v : Value) : Frame → Nat → List Caller → Prop
  | raised {f : Frame} {rest : List Value} (hinside : k.frame.isAtEnd = false)
      (hfetch : k.frame.fetch = .ok (.raise, f)) (hstack : k.frame.stack = v :: rest)
      (hobject : v ≠ .null) : Thrown m k v k.frame k.frame.position k.callers
  | passed {f : Frame} {offset : Nat} {c : Caller} {callers : List Caller}
      (h : Thrown m k v f offset (c :: callers)) (hnone : handlerFor? m k.store v f offset = none) :
      Thrown m k v c.frame c.callOffset callers

theorem Thrown.step_eq (h : Thrown m k v f offset callers) :
    step m limit k = unwind m k.store v f offset callers := by
  induction h with
  | @raised f rest hinside hfetch hstack hobject =>
    have hpop : f.pop = .ok (v, { f with stack := rest }) := by
      rw [Frame.pop, Frame.stack_fetch hfetch, hstack]
    have hexec : exec m k.store f .raise = .ok (.raise v) := by
      simp only [exec, hpop]
      exact if_neg hobject
    rw [step, hinside, Frame.effect_of_fetch hfetch, hexec]
    rfl
  | passed h hnone ih =>
    rw [ih, unwind_eq, hnone]
    rfl

theorem handlerFor?_eq {α : Type} {table : List (α × Handler)}
    (h : f.function.handlers = table.map (·.2)) :
    handlerFor? m s v f offset = ((table.filter (·.2.covers offset)).find?
      (fun x => isInstance m s v x.2.catchType)).map (·.2) := by
  rw [handlerFor?, h, List.find?_map, List.find?_filter]
  congr 2
  funext x
  simp

end Bytesmith.Machine

namespace Bytesmith.Build

open Code Machine

/-- The clauses of a body, each with its handler, in the order of the table. -/
def MethodDef.table (t : MethodDef) (body : Body) : List (Clause × Handler) :=
  t.outline.clauses.zip body.handlers

/-- The clauses for what is thrown by a command, in the order in which they are tried: those of the
innermost block first, and of one block in the order in which they were written. -/
def MethodDef.clausesAt (t : MethodDef) (body : Body) (i : Nat) : List (Clause × Handler) :=
  clausesOf (t.bodiesAt i) (t.table body)

namespace Settled

variable {fields : Array FieldDef} {q : Pool} {m : Nat} {t : MethodDef} {body : Body}

theorem table_entry (h : Settled fields q m t) (hbody : t.state = .finished body)
    (hsize : body.code.size < 2 ^ 32) :
    t.outline.clauses.length = body.handlers.length ∧
      ∀ x ∈ t.table body, x.1.Entry t.commands m x.2 := by
  obtain ⟨t₀, h₀, hcommands, hhandlers, hle⟩ := h.exists_written hbody
  rw [MethodDef.table, MethodDef.outline, hcommands, hhandlers]
  exact ⟨h₀.outlined.length, h₀.entries (Nat.lt_of_le_of_lt hle hsize)⟩

theorem table_filter_covers (h : Settled fields q m t) (hbody : t.state = .finished body)
    (hsize : body.code.size < 2 ^ 32) {i offset : Nat} {c : Emitted} (hc : t.commands[i]? = some c)
    (hstart : c.codeStart ≤ offset) (hend : offset < c.codeEnd) :
    (t.table body).filter (·.2.covers offset) = t.clausesAt body i := by
  obtain ⟨t₀, h₀, hcommands, hhandlers, hle⟩ := h.exists_written hbody
  rw [hcommands] at hc
  have hcovered := (h₀.covering (Nat.lt_of_le_of_lt hle hsize) hc hstart hend).covered
  rw [MethodDef.clausesAt, MethodDef.table, MethodDef.outline, MethodDef.bodiesAt, hcommands,
    hhandlers]
  exact hcovered

end Settled

/-- The handlers that cover the code of a command are those of the clauses of the blocks in whose
bodies the command lies, innermost first. A value that is thrown there enters the first clause whose
type it has, or goes to the caller. -/
theorem Session.enters_innermost {p : Project} {issued : List (Nat × Variable)}
    (h : Session Anything p issued) {m : Nat} {t : MethodDef} {body : Body}
    (ht : p.draft.methods[m]? = some t) (hbody : t.state = .finished body)
    (hsize : body.code.size < 2 ^ 32) :
    t.outline.clauses.length = body.handlers.length ∧
      (∀ x ∈ t.table body, x.1.Entry t.commands m x.2) ∧
      (∀ module, p.draft.created = some module →
        ∃ f, module.functions[m]? = some f ∧ f.code = body.code ∧ f.handlers = body.handlers) ∧
      ∀ i c offset, t.commands[i]? = some c → c.codeStart ≤ offset → offset < c.codeEnd →
        (t.table body).filter (·.2.covers offset) = t.clausesAt body i ∧
        ∀ module limit k v f callers, f.function.handlers = body.handlers →
          Thrown module k v f offset callers →
          step module limit k =
            match (t.clausesAt body i).find? (isInstance module k.store v ·.2.catchType) with
            | some x =>
              .running ⟨k.store, { f with stack := [v], position := x.2.handlerStart.toNat }, callers⟩
            | none => propagate module k.store v callers := by
  obtain ⟨_, hc, -⟩ := h.course
  have hsettled := hc.settled ht (.refl _)
  obtain ⟨hlength, hentry⟩ := hsettled.table_entry hbody hsize
  refine ⟨hlength, hentry, fun module hcreated => ?_, fun i c offset hc hstart hend => ?_⟩
  · obtain ⟨f, hf, hfunction⟩ := (h.frozen hcreated).yields.function.2 m t ht
    obtain ⟨body', hbody', rfl⟩ := MethodDef.toFunction_eq_ok hfunction
    rw [hbody] at hbody'
    cases hbody'
    exact ⟨_, hf, rfl, rfl⟩
  · have hcovers := hsettled.table_filter_covers hbody hsize hc hstart hend
    refine ⟨hcovers, fun module limit k v f callers hhandlers hthrown => ?_⟩
    have htable : f.function.handlers = (t.table body).map (·.2) :=
      hhandlers.trans (List.map_snd_zip (Nat.le_of_eq hlength.symm)).symm
    rw [hthrown.step_eq, unwind_eq, handlerFor?_eq htable, hcovers]
    cases (t.clausesAt body i).find? (isInstance module k.store v ·.2.catchType) <;> rfl

/-- A method that calls another one, which fails, in two guarded blocks. -/
def rescuing : List Operation := [
  .defineType "Failure" {} none [],
  .defineType "Timeout" {} (some 0) [],
  .defineField 1 "after" .int {},
  .defineMethod 0 "fail" { isStatic := true } .void [],
  .edit 0 (.newObject 0 []),
  .edit 0 (.raise (.slot 0 0 "__new1" (.class 0 "Failure"))),
  .defineMethod 0 "attempt" { isStatic := true } .void [],
  .edit 1 .tryBegin,
  .edit 1 .tryBegin,
  .edit 1 (.call 0 none []),
  .edit 1 (.catchBegin (.class 1 "Timeout")),
  .edit 1 (.catchBegin .string),
  .edit 1 .endTry,
  .edit 1 (.catchBegin (.class 0 "Failure")),
  .edit 1 (.catchBegin .object),
  .edit 1 .endTry]

/-- The fourth step of the second method raises an object in the method that it calls, which does
not handle it, and the call is in two nested bodies. -/
def rescued (m : Module) (p : Project) : Bool :=
  match p.draft.methods[1]?, run m 64 4 (enter m 64 .empty [] 1 []) with
  | some t, .running k => match t.state, k.callers, k.frame.fetch with
    | .finished body, [c], .ok (.raise, _) => decide (p.draft.created = some m ∧
        body.code.size < 2 ^ 32 ∧ k.frame.isAtEnd = false ∧ k.frame.stack = [.object 0] ∧
        handlerFor? m k.store (.object 0) k.frame k.frame.position = none ∧
        c.callOffset = 0 ∧ c.frame.function.handlers = body.handlers ∧
        t.bodiesAt 2 = [1, 0] ∧ (t.clausesAt body 2).map (·.1.command) = [3, 4, 6, 7] ∧
        (t.commands[2]?.map fun c => (c.codeStart, c.codeEnd)) = some (0, 7) ∧
        ((t.clausesAt body 2).find? (isInstance m k.store (.object 0) ·.2.catchType)).map
          (·.2.handlerStart) = some 33)
    | _, _, _ => false
  | _, _ => false

/-- The failure comes out of the call, is no timeout and no text, and enters the first clause of the
outer block. -/
theorem Session.enters_innermost_rescuing :
    ∃ p₀ p issued module t body k, ∃ f : Frame, Builds Anything "Rescue" rescuing p₀ issued ∧
      ProjectM.create p₀ = .ok module p ∧ p.draft.created = some module ∧
      p.draft.methods[1]? = some t ∧ t.state = .finished body ∧
      body.code.size < 2 ^ 32 ∧ f.function.handlers = body.handlers ∧
      run module 64 4 (enter module 64 .empty [] 1 []) = .running k ∧
      Thrown module k (.object 0) f 0 [] ∧ t.bodiesAt 2 = [1, 0] ∧
      (t.clausesAt body 2).map (·.1.command) = [3, 4, 6, 7] ∧
      (t.table body).filter (·.2.covers 0) = t.clausesAt body 2 ∧
      step module 64 k =
        .running ⟨k.store, { f with stack := [.object 0], position := 33 }, []⟩ := by
  obtain ⟨p₀, issued, module, p, h₀, hcreate, hfinal⟩ :=
    Builds.exists_created Anything "Rescue" rescuing (fun _ => rescued) (by decide +kernel)
  unfold rescued at hfinal
  split at hfinal
  · rename_i t k ht hk
    split at hfinal
    · rename_i body c f hbody hcallers hfetch
      obtain ⟨hcreated, hsize, hinside, hstack, hnone, hoffset, hhandlers, hbodies, hclauses,
        hcommand, hfind⟩ := of_decide_eq_true hfinal
      have h := h₀.session.created hcreate
      obtain ⟨e, he, hcode⟩ := Option.map_eq_some_iff.mp hcommand
      obtain ⟨x, hx, hentry⟩ := Option.map_eq_some_iff.mp hfind
      have hthrown : Thrown module k (.object 0) c.frame 0 [] := by
        have hraised := Thrown.raised (m := module) hinside hfetch hstack (by decide)
        rw [hcallers] at hraised
        exact hoffset ▸ hraised.passed hnone
      obtain ⟨hstart, hend⟩ := Prod.mk.inj hcode
      obtain ⟨hcovers, hcaught⟩ := (h.enters_innermost ht hbody hsize).2.2.2 2 e 0 he
        (Nat.le_of_eq hstart) (hend ▸ by decide)
      have hstep := hcaught module 64 k (.object 0) c.frame [] hhandlers hthrown
      rw [hx] at hstep
      refine ⟨p₀, p, issued, module, t, body, k, c.frame, h₀, hcreate, hcreated, ht, hbody, hsize,
        hhandlers, hk, hthrown, hbodies, hclauses, hcovers, hstep.trans ?_⟩
      dsimp only
      rw [hentry]
      rfl
    · cases hfinal
  · cases hfinal

end Bytesmith.Build
