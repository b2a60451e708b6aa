import Bytesmith.Proofs.Instances
import Bytesmith.Proofs.Nesting

namespace Bytesmith.Machine

open Code Bytesmith.Outcome HostM

/-- What a call of the host comes to before any function runs. -/
inductive Plan
  | give (v : Value)
  /-- A function is to run. What it returns is the result, unless a value is given for it. -/
  | run (id : UInt32) (args : List Value) (given : Option Value)
deriving DecidableEq, Repr

namespace Host

def accept (h : Host) (id : UInt32) (args : List Value) (given : Option Value) : HostM Plan := do
  let f ← ofExcept (function h.module id)
  if args.length ≠ f.paramCount then fail (.arityMismatch f.name f.paramCount args.length)
  return .run id args given

def planConstruct (h : Host) (className : String) (id : UInt32) (ref : Nat) (args : List Value) :
    HostM Plan :=
  let constructors := ((h.module.class? id).map (·.constructors)).getD []
  match constructors.find? fun f => (h.module.function? f).any (·.arity == args.length) with
  | some f => h.accept f (.object ref :: args) (some (.object ref))
  | none =>
    if !(constructors.isEmpty && args.isEmpty) then
      fail (.unknown .constructor s!"{className}({args.length} argument(s))")
    else return .give (.object ref)

end Host

def HostCall.plan (h : Host) : HostCall → HostM Plan
  | .invoke id args => h.accept id args none
  | .invokeStatic className name args => do
    let id ← h.classId className
    let f ← ofOption .staticMethod s!"{className}.{name}" (h.staticMethod? id name)
    h.accept f args none
  | .newObject className args => do
    let id ← h.classId className
    let object ← ofExcept (Machine.newObject h.module id)
    let (ref, s) := (← get).allocate object
    set s
    h.planConstruct className id ref args
  | .callMethod receiver name args => do
    let id ← ofExcept (receiverClass (← get) name receiver)
    let f ← ofOption .method name (h.module.implementation? id name args.length)
    h.accept f (receiver :: args) none
  | .getProperty receiver name => do
    let id ← ofExcept (receiverClass (← get) name receiver)
    let f ← ofOption .readableProperty name ((h.module.findProperty? id name).bind (·.getter))
    h.accept f [receiver] none
  | .setProperty receiver name v => do
    let id ← ofExcept (receiverClass (← get) name receiver)
    let f ← ofOption .writableProperty name ((h.module.findProperty? id name).bind (·.setter))
    h.accept f [receiver, v] (some .null)
  | .getField receiver name => .give <$> h.getField receiver name
  | .runEntryPoint args =>
    match h.module.entryPoint with
    | some f => h.accept f args none
    | none => fail .noEntryPoint

theorem map_congr_at {ε σ α β : Type} {x y : EStateM ε σ α} {s : σ} (h : x s = y s) (g : α → β) :
    (g <$> x) s = (g <$> y) s := by
  change EStateM.map g x s = EStateM.map g y s
  unfold EStateM.map
  rw [h]

theorem discard_bind_pure (x : HostM Value) (v : Value) :
    (discard x >>= fun _ => pure v) = (fun _ => v) <$> x := by
  rw [Functor.discard, map_const, Function.comp_apply, bind_map_left, map_eq_pure_bind]

variable {h : Host} {id : UInt32} {args : List Value} {given : Option Value} {s s' : Store}

namespace Host

def call (h : Host) (id : UInt32) (args : List Value) : HostM Value := fun s =>
  (run h.module h.maxCallDepth h.fuel (enter h.module h.maxCallDepth s [] id args)).result h.module

def carryOut (h : Host) : Plan → HostM Value
  | .give v => return v
  | .run id args given => (given.getD ·) <$> h.call id args

theorem accept_eq {g : Function} (hg : h.module.function? id = some g) : h.accept id args given s =
      if args.length ≠ g.paramCount then
        .error (.fault (.arityMismatch g.name g.paramCount args.length)) s
      else .ok (.run id args given) s := by
  have hfound : ofExcept (function h.module id) s = .ok g s := by
    rw [function_eq_ok.mpr hg]
    rfl
  refine (bind_of_ok hfound).trans ?_
  by_cases hargs : args.length ≠ g.paramCount
  · rw [if_pos hargs, if_pos hargs]
    rfl
  · rw [if_neg hargs, if_neg hargs]
    rfl

theorem accept_of_none (hg : h.module.function? id = none) :
    h.accept id args given s = .error (.fault (.unknown .function (toString id))) s := by
  apply bind_of_error
  rw [function, hg]
  rfl

theorem map_invoke (h : Host) (id : UInt32) (args : List Value) (given : Option Value) :
    (given.getD ·) <$> h.invoke id args = h.accept id args given >>= h.carryOut := by
  funext s
  cases hg : h.module.function? id with
  | none =>
    rw [bind_of_error (accept_of_none hg), map_eq_error]
    apply bind_of_error
    rw [function, hg]
    rfl
  | some g =>
    have hinvoke : h.invoke id args s = _ := invoke_eq hg
    by_cases hargs : args.length ≠ g.paramCount
    · rw [if_pos hargs] at hinvoke
      rw [bind_of_error ((accept_eq hg).trans (if_pos hargs)), map_eq_error]
      exact hinvoke
    · rw [if_neg hargs] at hinvoke
      rw [bind_of_ok ((accept_eq hg).trans (if_neg hargs)), carryOut]
      exact map_congr_at hinvoke _

theorem invoke_eq_bind (h : Host) (id : UInt32) (args : List Value) :
    h.invoke id args = h.accept id args none >>= h.carryOut := by
  rw [← map_invoke]
  exact (id_map _).symm

theorem construct_eq_bind (h : Host) (className : String) (id : UInt32) (ref : Nat)
    (args : List Value) :
    (h.construct className id ref args >>= fun _ => pure (.object ref)) =
      h.planConstruct className id ref args >>= h.carryOut := by
  unfold construct planConstruct
  dsimp only
  cases (((h.module.class? id).map (·.constructors)).getD []).find? fun f =>
      (h.module.function? f).any (·.arity == args.length) with
  | some f => rw [← map_invoke, discard_bind_pure]; rfl
  | none =>
    dsimp only
    split <;> rfl

theorem perform_eq_bind (h : Host) (call : HostCall) :
    call.perform h = call.plan h >>= h.carryOut := by
  cases call with
  | invoke id args => exact h.invoke_eq_bind id args
  | invokeStatic className name args =>
    simp only [HostCall.perform, HostCall.plan, invokeStatic, bind_assoc, invoke_eq_bind]
  | newObject className args =>
    rw [HostCall.perform, newObject_eq]
    simp only [construct_eq_bind]
    simp only [HostCall.plan, bind_assoc]
    rfl
  | callMethod receiver name args =>
    simp only [HostCall.perform, HostCall.plan, callMethod, bind_assoc, invoke_eq_bind]
  | getProperty receiver name =>
    simp only [HostCall.perform, HostCall.plan, getProperty, bind_assoc, invoke_eq_bind]
  | setProperty receiver name v =>
    simp only [HostCall.perform, HostCall.plan, setProperty, bind_assoc, ← map_invoke,
      discard_bind_pure, Option.getD_some]
  | getField receiver name =>
    rw [HostCall.perform, HostCall.plan, map_eq_pure_bind, bind_assoc]
    simp only [pure_bind]
    exact (bind_pure _).symm
  | runEntryPoint args =>
    rw [HostCall.perform, HostCall.plan, runEntryPoint]
    cases h.module.entryPoint with
    | none => rfl
    | some f => exact h.invoke_eq_bind f args

end Host

def Ending.answer (m : Module) (s : Store) (given : Option Value) : Ending → Except Fault Value
  | .returned v => .ok (given.getD v)
  | .thrown v => .error (.uncaughtException (describe m s v))
  | .faulted e => .error e

def answer? : EStateM.Result Halt Store Value → Option (Except Fault Value × Store)
  | .ok v s => some (.ok v, s)
  | .error (.fault e) s => some (.error e, s)
  | .error .outOfFuel _ => none

theorem answer?_carryOut {ending : Ending}
    (hrun : run h.module h.maxCallDepth h.fuel (enter h.module h.maxCallDepth s [] id args) =
      ending.conclude h.module s' []) :
    answer? (h.carryOut (.run id args given) s) = some (ending.answer h.module s' given, s') := by
  have hresult : h.call id args s = (ending.conclude h.module s' []).result h.module :=
    congrArg (Outcome.result h.module) hrun
  cases ending with
  | returned v =>
    rw [Host.carryOut, map_eq_ok.mpr ⟨v, hresult, rfl⟩]
    rfl
  | thrown | faulted =>
    rw [Host.carryOut, map_eq_error.mpr hresult]
    rfl

theorem isFinal_of_answer? {r : Except Fault Value × Store}
    (hr : answer? (h.carryOut (.run id args given) s) = some r) :
    (run h.module h.maxCallDepth h.fuel (enter h.module h.maxCallDepth s [] id args)).IsFinal := by
  intro k hk
  have hresult : h.call id args s = .error .outOfFuel k.store :=
    congrArg (Outcome.result h.module) hk
  rw [Host.carryOut, map_eq_error.mpr hresult] at hr
  cases hr

theorem HostCall.plan_fuel (h : Host) (fuel : Nat) (call : HostCall) :
    call.plan { h with fuel := fuel } = call.plan h := by
  cases call <;> rfl

namespace Interpreter

def carryOut (h : Host) (t : Interpreter) : Plan → Option (Except Fault Value × Interpreter)
  | .give v => some (.ok v, t)
  | .run id args given =>
    (execute h.module h.maxCallDepth h.fuel t id args).map fun r =>
      (r.1.answer h.module r.2.store given, r.2)

def perform (h : Host) (call : HostCall) (t : Interpreter) :
    Option (Except Fault Value × Interpreter) :=
  match call.plan h t.store with
  | .ok plan s => carryOut h { t with store := s } plan
  | .error (.fault e) s => some (.error e, { t with store := s })
  | .error .outOfFuel _ => none

variable {call : HostCall} {t t' : Interpreter} {r : Except Fault Value}

theorem depth_carryOut {plan : Plan} (hr : t.carryOut h plan = some (r, t')) :
    t'.depth = t.depth := by
  cases plan with
  | give v =>
    cases hr
    rfl
  | run id args given =>
    obtain ⟨⟨ending, t₁⟩, hexecute, heq⟩ := Option.map_eq_some_iff.mp hr
    cases heq
    exact depth_execute hexecute

theorem depth_perform (hr : t.perform h call = some (r, t')) : t'.depth = t.depth := by
  unfold perform at hr
  split at hr
  · exact (depth_carryOut hr).trans rfl
  · cases hr
    rfl
  · cases hr

theorem perform_of_answer? (hr : answer? (call.perform h s) = some (r, s')) :
    perform h call ⟨s, 0⟩ = some (r, ⟨s', 0⟩) := by
  rw [h.perform_eq_bind] at hr
  unfold perform
  cases hplan : call.plan h s with
  | error e s₁ =>
    rw [bind_of_error hplan] at hr
    cases e with
    | fault e =>
      cases hr
      rfl
    | outOfFuel => cases hr
  | ok plan s₁ =>
    rw [bind_of_ok hplan] at hr
    cases plan with
    | give v =>
      cases hr
      rfl
    | run id args given =>
      obtain ⟨ending, s₂, hexecute, hrun⟩ := execute_of_isFinal (isFinal_of_answer? hr)
      rw [answer?_carryOut hrun] at hr
      cases hr
      exact Option.map_eq_some_iff.mpr ⟨(ending, ⟨s', 0⟩), hexecute, rfl⟩

theorem answer?_of_perform (hr : perform h call ⟨s, 0⟩ = some (r, t')) :
    ∃ n, ∀ fuel ≥ n, answer? (call.perform { h with fuel := fuel } s) = some (r, t'.store) := by
  unfold perform at hr
  cases hplan : call.plan h s with
  | error e s₁ =>
    rw [hplan] at hr
    cases e with
    | fault e =>
      cases hr
      refine ⟨0, fun fuel _ => ?_⟩
      rw [Host.perform_eq_bind, HostCall.plan_fuel, bind_of_error hplan]
      rfl
    | outOfFuel => cases hr
  | ok plan s₁ =>
    rw [hplan] at hr
    cases plan with
    | give v =>
      cases hr
      refine ⟨0, fun fuel _ => ?_⟩
      rw [Host.perform_eq_bind, HostCall.plan_fuel, bind_of_ok hplan]
      rfl
    | run id args given =>
      obtain ⟨⟨ending, t₁⟩, hexecute, heq⟩ := Option.map_eq_some_iff.mp hr
      cases heq
      obtain ⟨-, n, hn⟩ := exists_run_of_execute hexecute
      refine ⟨n, fun fuel hle => ?_⟩
      have hfinal := isFinal_conclude h.module t₁.store ending
      rw [← hn] at hfinal
      rw [Host.perform_eq_bind, HostCall.plan_fuel, bind_of_ok hplan]
      exact answer?_carryOut ((run_of_le hfinal hle).trans hn)

end Interpreter

end Bytesmith.Machine
