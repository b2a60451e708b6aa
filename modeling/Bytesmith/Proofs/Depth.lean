import Bytesmith.Proofs.HostCalls

namespace Bytesmith.Machine

open Code Bytesmith.Outcome HostM

def NeverOverflows {α : Type} (x : Except Fault α) : Prop :=
  ∀ limit, x ≠ .error (.stackOverflow limit)

section

variable {α β : Type}

@[simp]
theorem neverOverflows_ok (a : α) : NeverOverflows (.ok a) := nofun

@[simp]
theorem neverOverflows_pure (a : α) : NeverOverflows (pure a) := nofun

@[simp]
theorem neverOverflows_error (e : Fault) :
    NeverOverflows (.error e : Except Fault α) ↔ ∀ limit, e ≠ .stackOverflow limit := by
  simp [NeverOverflows]

@[simp]
theorem neverOverflows_throw (e : Fault) :
    NeverOverflows (throw e : Except Fault α) ↔ ∀ limit, e ≠ .stackOverflow limit :=
  neverOverflows_error e

@[simp]
theorem neverOverflows_bind (x : Except Fault α) (f : α → Except Fault β) :
    NeverOverflows (x >>= f) ↔ NeverOverflows x ∧ ∀ a, x = .ok a → NeverOverflows (f a) := by
  cases x with
  | ok a =>
    change NeverOverflows (f a) ↔ _
    simp
  | error e =>
    change NeverOverflows (.error e) ↔ _
    simp

@[simp]
theorem neverOverflows_map (x : Except Fault α) (f : α → β) :
    NeverOverflows (f <$> x) ↔ NeverOverflows x := by
  cases x <;> simp [Functor.map, Except.map]

@[simp]
theorem neverOverflows_discard (x : Except Fault α) :
    NeverOverflows (discard x) ↔ NeverOverflows x := by
  rw [Functor.discard, map_const, Function.comp_apply, neverOverflows_map]

end

section

variable (m : Module) (s : Store) (f : Frame) (v w : Value) (op : Opcode)

@[simp]
theorem neverOverflows_toI32 : NeverOverflows (v.toI32 op) := by
  cases v <;> simp [Value.toI32]

@[simp]
theorem neverOverflows_toI64 : NeverOverflows (v.toI64 op) := by
  cases v <;> simp [Value.toI64]

@[simp]
theorem neverOverflows_toF64 : NeverOverflows (v.toF64 op) := by
  cases v <;> simp [Value.toF64]

@[simp]
theorem neverOverflows_toPiece : NeverOverflows (v.toPiece op) := by
  cases v <;> simp [Value.toPiece]

@[simp]
theorem neverOverflows_arith (kind : Numeric) (op : Arithmetic) :
    NeverOverflows (arith kind op v w) := by
  cases kind <;> cases op <;> simp [arith, arithI32, arithI64, apply_ite NeverOverflows]

@[simp]
theorem neverOverflows_widen (w : Widening) : NeverOverflows (widen w v) := by
  cases w <;> simp [widen]

@[simp]
theorem neverOverflows_concat : NeverOverflows (concat v w) := by
  simp [concat]

@[simp]
theorem neverOverflows_order : NeverOverflows (order op v w) := by
  unfold order
  split <;> simp

@[simp]
theorem neverOverflows_test (t : Test) : NeverOverflows (test t v w) := by
  cases t <;> simp [test]

@[simp]
theorem neverOverflows_unbox (kind : ValueKind) : NeverOverflows (unbox m s kind v) := by
  cases v <;> simp [unbox, apply_ite NeverOverflows]

@[simp]
theorem neverOverflows_cast (tag : TypeTag) : NeverOverflows (cast m s tag v) := by
  simp [cast, apply_ite NeverOverflows]

@[simp]
theorem neverOverflows_newObject (id : UInt32) : NeverOverflows (newObject m id) := by
  unfold newObject
  split <;> simp [apply_ite NeverOverflows]

@[simp]
theorem neverOverflows_receiverClass (member : String) :
    NeverOverflows (receiverClass s member v) := by
  cases v <;> simp [receiverClass]

@[simp]
theorem neverOverflows_fieldReceiver (id : UInt32) : NeverOverflows (fieldReceiver m id v) := by
  cases v <;> simp [fieldReceiver]

@[simp]
theorem neverOverflows_loadField (id : UInt32) : NeverOverflows (loadField m s id v) := by
  simp only [loadField, neverOverflows_bind, neverOverflows_fieldReceiver, true_and]
  intro ref _
  split <;> simp

@[simp]
theorem neverOverflows_storeField (id : UInt32) : NeverOverflows (storeField m s id v w) := by
  simp only [storeField, neverOverflows_bind, neverOverflows_fieldReceiver, true_and]
  intro ref _
  split <;> simp

@[simp]
theorem neverOverflows_loadStatic (id : UInt32) : NeverOverflows (loadStatic m s id) := by
  unfold loadStatic
  split <;> simp

@[simp]
theorem neverOverflows_function (id : UInt32) : NeverOverflows (function m id) := by
  unfold function
  split <;> simp

@[simp]
theorem neverOverflows_kindOperand (tag : UInt8) : NeverOverflows (kindOperand f tag) := by
  unfold kindOperand
  split <;> simp

namespace Frame

@[simp]
theorem neverOverflows_pop : NeverOverflows f.pop := by
  unfold pop
  split <;> simp [underflow]

@[simp]
theorem neverOverflows_pop2 : NeverOverflows f.pop2 := by
  simp [pop2]

@[simp]
theorem neverOverflows_popArgs (n : Nat) : NeverOverflows (f.popArgs n) := by
  simp [popArgs, apply_ite NeverOverflows, underflow]

@[simp]
theorem neverOverflows_jump (distance : Int32) : NeverOverflows (f.jump distance) := by
  simp [jump, apply_ite NeverOverflows]

@[simp]
theorem neverOverflows_loadLocal (slot : UInt16) : NeverOverflows (f.loadLocal slot) := by
  unfold loadLocal
  split <;> simp

@[simp]
theorem neverOverflows_storeLocal (slot : UInt16) : NeverOverflows (f.storeLocal slot v) := by
  simp [storeLocal, apply_ite NeverOverflows]

@[simp]
theorem neverOverflows_fetch : NeverOverflows f.fetch := by
  unfold fetch read
  split <;> simp

end Frame

@[simp]
theorem neverOverflows_callEffect (mode : CallMode) (id : UInt32) (argc : Nat) :
    NeverOverflows (callEffect m s mode id argc f) := by
  cases mode with
  | static | constructor => simp [callEffect]
  | method =>
    simp only [callEffect, neverOverflows_bind, neverOverflows_function,
      Frame.neverOverflows_popArgs, Frame.neverOverflows_pop, neverOverflows_receiverClass,
      true_and]
    intro target _ popped _ receiver _ classId _
    split
    · split <;> simp
    · simp

@[simp]
theorem neverOverflows_exec (i : Instr Int32) : NeverOverflows (exec m s f i) := by
  cases i with
  | dup | constStr _ =>
    simp only [exec]
    split <;> simp [Frame.underflow]
  | _ => simp [exec, apply_ite NeverOverflows]

theorem Frame.neverOverflows_effect : NeverOverflows (f.effect m s) := by
  simp [Frame.effect_eq]

end

section

variable {m : Module} {limit n : Nat} {s s' : Store} {k k' : Configuration} {callers : List Caller}
  {id : UInt32} {args : List Value} {v : Value}

def Configuration.Calls (m : Module) (k : Configuration) : Prop :=
  ∃ id args caller resume, k.frame.effect m k.store = .ok (.call id args caller resume)

theorem depth_enter (h : enter m limit s callers id args = .running k) : k.depth ≤ limit := by
  unfold enter at h
  split at h
  · cases h
  · rename_i hlimit
    split at h
    · cases h
    · split at h
      · cases h
      · cases h
        exact Nat.lt_of_not_le hlimit

theorem depth_finishFrame (h : finishFrame s v callers = .running k) :
    k.depth = callers.length := by
  cases callers with
  | nil => cases h
  | cons c callers =>
    cases h
    rfl

theorem depth_unwind {f : Frame} {offset : Nat} (h : unwind m s v f offset callers = .running k) :
    k.depth ≤ callers.length + 1 := by
  induction callers generalizing f offset with
  | nil =>
    unfold unwind at h
    split at h <;> cases h
    exact Nat.le_refl _
  | cons c callers ih =>
    unfold unwind at h
    split at h
    · cases h
      exact Nat.le_refl _
    · exact Nat.le_succ_of_le (ih h)

theorem depth_step (hk : k.depth ≤ limit) (h : step m limit k = .running k') :
    k'.depth ≤ limit := by
  rw [step_eq] at h
  by_cases hend : k.frame.isAtEnd = true
  · rw [if_pos hend] at h
    rw [depth_finishFrame h]
    exact Nat.le_of_succ_le hk
  · rw [if_neg hend] at h
    cases heffect : k.frame.effect m k.store with
    | error e =>
      rw [heffect] at h
      cases h
    | ok effect =>
      rw [heffect] at h
      cases effect with
      | next f s =>
        cases h
        exact hk
      | call id args caller resume => exact depth_enter h
      | ret v =>
        rw [depth_finishFrame h]
        exact Nat.le_of_succ_le hk
      | raise v => exact Nat.le_trans (depth_unwind h) hk

theorem depth_run {o : Machine.Outcome} (ho : ∀ k, o = .running k → k.depth ≤ limit)
    (h : run m limit n o = .running k) : k.depth ≤ limit := by
  induction n generalizing o with
  | zero => exact ho k ((run_zero m limit o).symm.trans h)
  | succ n ih =>
    cases o with
    | running k₀ => exact ih (fun k' hk' => depth_step (ho k₀ rfl) hk') h
    | _ => cases h

theorem enter_eq_overflow (h : enter m limit s callers id args = .faulted (.stackOverflow n) s') :
    n = limit ∧ limit ≤ callers.length := by
  unfold enter at h
  split at h
  · rename_i hlimit
    cases h
    exact ⟨rfl, hlimit⟩
  · split at h
    · rename_i e hf
      cases h
      exact absurd hf (neverOverflows_function m id n)
    · split at h <;> cases h

theorem step_eq_overflow (h : step m limit k = .faulted (.stackOverflow n) s) :
    n = limit ∧ limit ≤ k.depth ∧ k.Calls m := by
  rw [step_eq] at h
  by_cases hend : k.frame.isAtEnd = true
  · rw [if_pos hend] at h
    cases hcallers : k.callers <;> rw [hcallers] at h <;> cases h
  · rw [if_neg hend] at h
    cases heffect : k.frame.effect m k.store with
    | error e =>
      rw [heffect] at h
      cases h
      exact absurd heffect (k.frame.neverOverflows_effect m k.store n)
    | ok effect =>
      rw [heffect] at h
      cases effect with
      | next f s => cases h
      | call id args caller resume =>
        obtain ⟨hn, hlimit⟩ := enter_eq_overflow h
        exact ⟨hn, hlimit, id, args, caller, resume, heffect⟩
      | ret v => cases hcallers : k.callers <;> rw [respond, hcallers] at h <;> cases h
      | raise v => exact absurd h unwind_ne_faulted

theorem step_of_calls (hcalls : k.Calls m) (hlimit : limit ≤ k.depth) :
    step m limit k = .faulted (.stackOverflow limit) k.store := by
  obtain ⟨id, args, caller, resume, heffect⟩ := hcalls
  obtain ⟨i, f, hfetch, -⟩ := Frame.effect_eq_ok.mp heffect
  rw [step_eq, isAtEnd_of_fetch hfetch, if_neg Bool.false_ne_true, heffect]
  exact if_pos hlimit

end

section

variable {h : Host} {s s' : Store}

def Roomy {α : Type} (x : HostM α) : Prop :=
  ∀ s n s', x s ≠ .error (.fault (.stackOverflow n)) s'

namespace Roomy

variable {α β : Type}

theorem pure (a : α) : Roomy (pure a) := nofun

theorem fail (e : Fault) (he : ∀ n, e ≠ .stackOverflow n) : Roomy (fail e : HostM α) := by
  intro s n s' h
  cases h
  exact he n rfl

theorem bind {x : HostM α} {f : α → HostM β} (hx : Roomy x) (hf : ∀ a, Roomy (f a)) :
    Roomy (x >>= f) := by
  intro s n s' h
  obtain hfail | ⟨a, t, -, hfail⟩ := bind_eq_error.mp h
  · exact hx s n s' hfail
  · exact hf a t n s' hfail

theorem map {x : HostM α} (hx : Roomy x) (f : α → β) : Roomy (f <$> x) := by
  intro s n s' h
  exact hx s n s' (map_eq_error.mp h)

theorem ofExcept {x : Except Fault α} (hx : NeverOverflows x) : Roomy (ofExcept x) := by
  cases x with
  | ok a => exact pure a
  | error e => exact fail e ((neverOverflows_error e).mp hx)

theorem ofOption (what : Sought) (name : String) (x : Option α) : Roomy (ofOption what name x) := by
  cases x with
  | some a => exact pure a
  | none => exact fail (.unknown what name) nofun

theorem accept (h : Host) (id : UInt32) (args : List Value) (given : Option Value) :
    Roomy (h.accept id args given) := by
  refine (ofExcept (neverOverflows_function h.module id)).bind fun f => ?_
  split
  · refine (fail _ ?_).bind fun _ => pure _
    exact nofun
  · exact pure _

theorem planConstruct (h : Host) (className : String) (id : UInt32) (ref : Nat)
    (args : List Value) : Roomy (h.planConstruct className id ref args) := by
  unfold Host.planConstruct
  dsimp only
  split
  · exact accept h _ _ _
  · split
    · exact fail _ nofun
    · exact pure _

theorem get : Roomy (get : HostM Store) := nofun

theorem getField (h : Host) (receiver : Value) (name : String) :
    Roomy (h.getField receiver name) := by
  refine get.bind fun s => (ofExcept (neverOverflows_receiverClass s receiver name)).bind fun id =>
    (ofOption _ _ _).bind fun f => ?_
  cases receiver with
  | object ref => exact ofOption _ _ _
  | _ => exact fail _ nofun

theorem plan (h : Host) (call : HostCall) : Roomy (call.plan h) := by
  have hreceiver (name : String) (receiver : Value) (s : Store) :=
    ofExcept (neverOverflows_receiverClass s receiver name)
  cases call with
  | invoke id args => exact accept h id args none
  | invokeStatic className name args =>
    exact (ofOption _ _ _).bind fun id => (ofOption _ _ _).bind fun f => accept h f args none
  | newObject className args =>
    refine (ofOption _ _ _).bind fun id =>
      (ofExcept (neverOverflows_newObject h.module id)).bind fun o => get.bind fun s => ?_
    exact fun _ => planConstruct h className id s.heap.size args (s.allocate o).2
  | callMethod receiver name | getProperty receiver name =>
    exact get.bind fun s => (hreceiver name receiver s).bind fun id =>
      (ofOption _ _ _).bind fun f => accept h f _ none
  | setProperty receiver name v =>
    exact get.bind fun s => (hreceiver name receiver s).bind fun id =>
      (ofOption _ _ _).bind fun f => accept h f _ _
  | getField receiver name => exact (getField h receiver name).map _
  | runEntryPoint args =>
    rw [HostCall.plan]
    split
    · exact accept h _ args none
    · refine fail _ fun n hn => ?_
      cases hn

end Roomy

def HostCall.Passes (h : Host) (call : HostCall) (s : Store) (k : Configuration) : Prop :=
  ∃ id args given s' n, call.plan h s = .ok (.run id args given) s' ∧
    run h.module h.maxCallDepth n (enter h.module h.maxCallDepth s' [] id args) = .running k

theorem HostCall.Passes.depth_le {call : HostCall} {k : Configuration} (hk : call.Passes h s k) :
    k.depth ≤ h.maxCallDepth := by
  obtain ⟨id, args, given, s', n, -, hrun⟩ := hk
  exact depth_run (fun k hk => depth_enter hk) hrun

end

namespace Interpreter

variable {h : Host} {call : HostCall} {t t' : Interpreter} {r : Except Fault Value}

/-- The interpreter has been made with a store and has served calls of the host since, each until it
returned a value or failed. -/
inductive Serves (h : Host) (s₀ : Store) : Interpreter → Prop
  | start : Serves h s₀ ⟨s₀, 0⟩
  | call {t t' : Interpreter} {call : HostCall} {fuel : Nat} {r : Except Fault Value}
      (ht : Serves h s₀ t) (hr : t.perform { h with fuel := fuel } call = some (r, t')) :
      Serves h s₀ t'

theorem Serves.depth_eq {s₀ : Store} (ht : Serves h s₀ t) : t.depth = 0 := by
  induction ht with
  | start => rfl
  | call _ hr ih => exact (depth_perform hr).trans ih

theorem overflow_iff (hlimit : 1 ≤ h.maxCallDepth) {s : Store}
    (hr : perform h call ⟨s, 0⟩ = some (r, t')) (n : Nat) :
    r = .error (.stackOverflow n) ↔ n = h.maxCallDepth ∧
      ∃ k, call.Passes h s k ∧ k.depth = h.maxCallDepth ∧ k.Calls h.module := by
  constructor
  · rintro rfl
    unfold perform at hr
    cases hplan : call.plan h s with
    | error e s₁ =>
      rw [hplan] at hr
      cases e with
      | fault e =>
        cases hr
        exact absurd hplan (Roomy.plan h call s n s₁)
      | outOfFuel => cases hr
    | ok plan s₁ =>
      rw [hplan] at hr
      cases plan with
      | give v => cases hr
      | run id args given =>
        obtain ⟨⟨ending, t₁⟩, hexecute, heq⟩ := Option.map_eq_some_iff.mp hr
        cases ending with
        | returned | thrown => cases heq
        | faulted e =>
          cases heq
          obtain ⟨-, n', hrun⟩ := exists_run_of_execute hexecute
          obtain hstart | ⟨n₁, k, hreached, hstep⟩ := exists_step_of_faulted hrun
          · have hroom := (enter_eq_overflow hstart).2
            exact absurd (Nat.le_trans hlimit hroom) (Nat.not_succ_le_zero 0)
          · obtain ⟨hn, hdepth, hcalls⟩ := step_eq_overflow hstep
            have hpasses : call.Passes h s k := ⟨id, args, given, s₁, n₁, hplan, hreached⟩
            exact ⟨hn, k, hpasses, Nat.le_antisymm hpasses.depth_le hdepth, hcalls⟩
  · rintro ⟨rfl, k, ⟨id, args, given, s₁, n₁, hplan, hreached⟩, hdepth, hcalls⟩
    unfold perform at hr
    rw [hplan] at hr
    obtain ⟨⟨ending, t₁⟩, hexecute, heq⟩ := Option.map_eq_some_iff.mp hr
    obtain ⟨-, n', hrun⟩ := exists_run_of_execute hexecute
    -- the run that passes through the configuration ends with its next step
    have hfault : run h.module h.maxCallDepth (n₁ + 1)
        (enter h.module h.maxCallDepth s₁ [] id args) =
          .faulted (.stackOverflow h.maxCallDepth) k.store := by
      rw [run_add, hreached, run, step_of_calls hcalls (Nat.le_of_eq hdepth.symm)]
      exact run_zero ..
    have hsame : (Ending.conclude h.module t₁.store [] ending) =
        .faulted (.stackOverflow h.maxCallDepth) k.store := by
      rw [← hrun, ← hfault]
      apply run_eq_of_isFinal
      · rw [hrun]
        exact isFinal_conclude h.module t₁.store ending
      · rw [hfault]
        intro k hk
        cases hk
    cases ending with
    | returned | thrown => cases hsame
    | faulted e =>
      obtain ⟨rfl, -⟩ := Outcome.faulted.inj hsame
      cases heq
      rfl

/-- What an interpreter makes of the next call of the host: it has no call under way, runs a function
with no more frames than the limit, ends for want of room just where a call would start one frame
more, and gives what the host gives. -/
structure CountsCalls (h : Host) (t : Interpreter) : Prop where
  idle : t.depth = 0
  bounded : ∀ (call : HostCall) (k : Configuration), call.Passes h t.store k →
    k.depth ≤ h.maxCallDepth
  overflows : ∀ (call : HostCall) (fuel : Nat) (r : Except Fault Value) (t' : Interpreter),
    t.perform { h with fuel := fuel } call = some (r, t') → ∀ n,
      (r = .error (.stackOverflow n) ↔ n = h.maxCallDepth ∧
        ∃ k, call.Passes h t.store k ∧ k.depth = h.maxCallDepth ∧ k.Calls h.module)
  served : ∀ (call : HostCall) (r : Except Fault Value) (s' : Store),
    (∃ fuel, t.perform { h with fuel := fuel } call = some (r, ⟨s', 0⟩)) ↔
      ∃ fuel, answer? (call.perform { h with fuel := fuel } t.store) = some (r, s')

theorem countsCalls (hlimit : 1 ≤ h.maxCallDepth) (hidle : t.depth = 0) : t.CountsCalls h := by
  obtain ⟨s, depth⟩ := t
  obtain rfl : depth = 0 := hidle
  refine ⟨rfl, fun call k hk => hk.depth_le, fun call fuel r t' hr n => ?_, fun call r s' => ?_⟩
  · have hiff := overflow_iff (h := { h with fuel := fuel }) hlimit hr n
    simp only [HostCall.Passes, HostCall.plan_fuel] at hiff ⊢
    exact hiff
  · constructor
    · rintro ⟨fuel, hr⟩
      obtain ⟨n, hn⟩ := answer?_of_perform hr
      exact ⟨n, hn n (Nat.le_refl n)⟩
    · rintro ⟨fuel, hr⟩
      exact ⟨fuel, perform_of_answer? hr⟩

/-- Whatever calls of the host an interpreter has served, with whatever results, none is under way
and the next one is served as by any other interpreter with the same objects and static fields. -/
theorem depth_restored (hlimit : 1 ≤ h.maxCallDepth) {s₀ : Store} (ht : Serves h s₀ t) :
    t.CountsCalls h ∧ ∀ (s₁ : Store) (t₁ : Interpreter), Serves h s₁ t₁ → t₁.store = t.store →
      ∀ (fuel : Nat) (call : HostCall),
        t₁.perform { h with fuel := fuel } call = t.perform { h with fuel := fuel } call := by
  refine ⟨countsCalls hlimit ht.depth_eq, fun s₁ t₁ ht₁ hstore fuel call => ?_⟩
  have hdepth : t₁.depth = t.depth := ht₁.depth_eq.trans ht.depth_eq.symm
  obtain ⟨s, depth⟩ := t
  obtain ⟨s', depth'⟩ := t₁
  cases hstore
  cases hdepth
  rfl

end Interpreter

/-- A function that notes that it was called and calls itself, and one that reads the note. -/
def spiral : Module := { Module.empty "Spiral" .library with
  functions := [
    ⟨"turn", none, 0, 0, [], 0,
      ([.constI32 5, .storeStatic 0, .call .static 0 0, .retVoid] : List (Instr Int32)).flatMap
        Instr.encode |>.toArray, []⟩,
    ⟨"note", none, 0, 0, [], 0,
      ([.loadStatic 0, .ret] : List (Instr Int32)).flatMap Instr.encode |>.toArray, []⟩]
  fields := [⟨"turned", 0, .i32, true⟩] }

/-- Three frames of the first fit, and then the second finds what they did. -/
theorem Interpreter.depth_restored_spiral : ∃ t : Interpreter,
    perform ⟨spiral, 3, 100⟩ (.invoke 0 []) ⟨.empty, 0⟩ = some (.error (.stackOverflow 3), t) ∧
      perform ⟨spiral, 3, 100⟩ (.invoke 1 []) t = some (.ok (.i32 5), t) ∧
      Serves ⟨spiral, 3, 100⟩ .empty t ∧ t.CountsCalls ⟨spiral, 3, 100⟩ ∧
      ∀ (s₁ : Store) (t₁ : Interpreter), Serves ⟨spiral, 3, 100⟩ s₁ t₁ → t₁.store = t.store →
        ∀ (fuel : Nat) (call : HostCall),
          t₁.perform ⟨spiral, 3, fuel⟩ call = t.perform ⟨spiral, 3, fuel⟩ call := by
  have hturn : perform ⟨spiral, 3, 100⟩ (.invoke 0 []) ⟨.empty, 0⟩ =
      some (.error (.stackOverflow 3), ⟨⟨#[], [(0, .i32 5)]⟩, 0⟩) := by
    decide +kernel
  have hserves : Serves ⟨spiral, 3, 100⟩ .empty ⟨⟨#[], [(0, .i32 5)]⟩, 0⟩ := .call .start hturn
  exact ⟨_, hturn, by decide +kernel, hserves, depth_restored (by decide) hserves⟩

end Bytesmith.Machine
