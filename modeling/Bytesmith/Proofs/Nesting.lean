import Bytesmith.Proofs.Boundaries
import Bytesmith.Proofs.Handlers
import Bytesmith.Proofs.Simulation

namespace Bytesmith.Machine

open Code Bytesmith.Outcome

/-- The objects and static fields, and the number of calls under way. -/
structure Interpreter where
  store : Store
  depth : Nat
deriving DecidableEq, Repr

inductive Ending
  | returned (v : Value)
  | thrown (v : Value)
  | faulted (e : Fault)
deriving DecidableEq, Repr

/-- What an instruction comes to: its frame goes on or ends. -/
inductive Advance
  | next (frame : Frame)
  | ended (ending : Ending)
deriving DecidableEq, Repr

def Ending.advance (c : Caller) : Ending → Advance
  | .returned v => .next (c.resumed v)
  | ending => .ended ending

def Advance.caught (m : Module) (s : Store) (f : Frame) : Advance → Advance
  | .ended (.thrown v) =>
    match handlerFor? m s v f f.position with
    | some h => .next (f.handle h v)
    | none => .ended (.thrown v)
  | advance => advance

namespace Interpreter

section

variable (m : Module) (limit : Nat) (body : Interpreter → Frame → Option (Ending × Interpreter))

def runFrame (t : Interpreter) (id : UInt32) (args : List Value) : Option (Ending × Interpreter) :=
  match function m id with
  | .error e => some (.faulted e, t)
  | .ok f =>
    if f.isAbstract then some (.faulted (.typeError (.abstractBody f.name)), t)
    else body t (.enter f args)

/-- Calls a function. The call counts as long as its frame is there. -/
def counted (t : Interpreter) (id : UInt32) (args : List Value) : Option (Ending × Interpreter) :=
  if limit ≤ t.depth then some (.faulted (.stackOverflow limit), t)
  else (runFrame m body { t with depth := t.depth + 1 } id args).map fun r =>
    (r.1, { r.2 with depth := r.2.depth - 1 })

def react (t : Interpreter) (f : Frame) : Except Fault Effect → Option (Advance × Interpreter)
  | .error e => some (.ended (.faulted e), t)
  | .ok (.next f' s) => some (.next f', { t with store := s })
  | .ok (.call id args caller resume) =>
    (counted m limit body t id args).map fun r =>
      (r.1.advance ⟨caller, f.position, resume⟩, r.2)
  | .ok (.ret v) => some (.ended (.returned v), t)
  | .ok (.raise v) => some (.ended (.thrown v), t)

def advance (t : Interpreter) (f : Frame) : Option (Advance × Interpreter) :=
  react m limit body t f (f.effect m t.store)

end

def proceed (m : Module) (limit : Nat) :
    Nat → Interpreter → Frame → Option (Ending × Interpreter)
  | 0, _, _ => none
  | fuel + 1, t, f =>
    if f.isAtEnd then some (.returned .null, t)
    else (advance m limit (proceed m limit fuel) t f).bind fun r =>
      match r.1.caught m r.2.store f with
      | .next f' => proceed m limit fuel r.2 f'
      | .ended ending => some (ending, r.2)

def execute (m : Module) (limit fuel : Nat) : Interpreter → UInt32 → List Value →
    Option (Ending × Interpreter) :=
  counted m limit (proceed m limit fuel)

end Interpreter

section

variable {m : Module} {limit : Nat} {s : Store} {f f' caller : Frame} {i : Instr Int32}
  {id : UInt32} {args : List Value} {resume : Resume}

theorem step_eq (k : Configuration) : step m limit k =
    if k.frame.isAtEnd then finishFrame k.store .null k.callers
    else respond m limit k (k.frame.effect m k.store) := by
  rw [step]
  refine ite_congr rfl (fun _ => rfl) fun _ => ?_
  cases k.frame.effect m k.store with
  | error e => rfl
  | ok effect => cases effect <;> rfl

theorem Frame.effect_call (h : f.effect m s = .ok (.call id args caller resume)) :
    caller = { f with stack := caller.stack, position := caller.position } := by
  obtain ⟨i, f₁, hfetch, hexec⟩ := effect_eq_ok.mp h
  obtain ⟨-, _, _, _, _, -, -, hcaller, -⟩ := fits_exec hexec
  have hfetched := eq_of_fetch hfetch
  rw [hfetched] at hcaller
  rw [hcaller]

end

namespace Interpreter

variable {m : Module} {limit fuel : Nat} {body : Interpreter → Frame → Option (Ending × Interpreter)}
  {t t' : Interpreter} {f : Frame} {id : UInt32} {args : List Value} {ending : Ending}

theorem depth_runFrame
    (hbody : ∀ t f e t', body t f = some (e, t') → t'.depth = t.depth)
    (h : runFrame m body t id args = some (ending, t')) : t'.depth = t.depth := by
  unfold runFrame at h
  split at h
  · cases h
    rfl
  · split at h
    · cases h
      rfl
    · exact hbody _ _ _ _ h

theorem depth_counted
    (hbody : ∀ t f e t', body t f = some (e, t') → t'.depth = t.depth)
    (h : counted m limit body t id args = some (ending, t')) : t'.depth = t.depth := by
  unfold counted at h
  split at h
  · cases h
    rfl
  · obtain ⟨⟨e, inside⟩, hframe, heq⟩ := Option.map_eq_some_iff.mp h
    cases heq
    have hinside := depth_runFrame hbody hframe
    dsimp only at hinside ⊢
    omega

theorem depth_advance {a : Advance}
    (hbody : ∀ t f e t', body t f = some (e, t') → t'.depth = t.depth)
    (h : advance m limit body t f = some (a, t')) : t'.depth = t.depth := by
  unfold advance at h
  cases heffect : f.effect m t.store with
  | error e =>
    rw [heffect] at h
    cases h
    rfl
  | ok effect =>
    rw [heffect] at h
    cases effect with
    | call id args caller resume =>
      obtain ⟨⟨ending, t₁⟩, hcall, heq⟩ := Option.map_eq_some_iff.mp h
      cases heq
      exact depth_counted hbody hcall
    | _ =>
      cases h
      rfl

theorem depth_proceed (h : proceed m limit fuel t f = some (ending, t')) : t'.depth = t.depth := by
  induction fuel generalizing t f ending t' with
  | zero => cases h
  | succ fuel ih =>
    unfold proceed at h
    split at h
    · cases h
      rfl
    · obtain ⟨⟨a, t₁⟩, hadvance, h⟩ := Option.bind_eq_some_iff.mp h
      have hdepth := depth_advance (fun _ _ _ _ => ih) hadvance
      dsimp only at h
      split at h
      · exact (ih h).trans hdepth
      · cases h
        exact hdepth

theorem depth_execute (h : execute m limit fuel t id args = some (ending, t')) :
    t'.depth = t.depth := depth_counted (fun _ _ _ _ => depth_proceed) h

end Interpreter

def Ending.conclude (m : Module) (s : Store) (callers : List Caller) : Ending → Machine.Outcome
  | .returned v => finishFrame s v callers
  | .thrown v => propagate m s v callers
  | .faulted e => .faulted e s

def Advance.outcome (m : Module) (s : Store) (callers : List Caller) : Advance → Machine.Outcome
  | .next f => .running ⟨s, f, callers⟩
  | .ended ending => ending.conclude m s callers

theorem Advance.outcome_caught {m : Module} {s : Store} {v : Value} {f : Frame}
    {callers : List Caller} : ((Advance.ended (.thrown v)).caught m s f).outcome m s callers =
      unwind m s v f f.position callers := by
  rw [unwind_eq, caught]
  cases handlerFor? m s v f f.position <;> rfl

namespace Interpreter

variable {m : Module} {limit fuel : Nat} {body : Interpreter → Frame → Option (Ending × Interpreter)}
  {t t' : Interpreter} {f : Frame} {id : UInt32} {args : List Value} {callers : List Caller}

/-- Frames that the body runs to an end the machine runs to the same end, above as many callers as
are counted besides. -/
def Follows (m : Module) (limit : Nat)
    (body : Interpreter → Frame → Option (Ending × Interpreter)) : Prop :=
  ∀ callers t f ending t', t.depth = callers.length + 1 → body t f = some (ending, t') →
    ∃ n, run m limit n (.running ⟨t.store, f, callers⟩) = ending.conclude m t'.store callers

theorem Follows.counted (hbody : Follows m limit body) {ending : Ending} (callers : List Caller)
    (hdepth : t.depth = callers.length)
    (h : Interpreter.counted m limit body t id args = some (ending, t')) :
    ∃ n, run m limit n (enter m limit t.store callers id args) =
      ending.conclude m t'.store callers := by
  rw [enter, ← hdepth]
  unfold Interpreter.counted at h
  by_cases hlimit : limit ≤ t.depth
  · rw [if_pos hlimit] at h ⊢
    cases h
    exact ⟨0, run_zero ..⟩
  · rw [if_neg hlimit] at h ⊢
    obtain ⟨⟨e, inside⟩, hframe, heq⟩ := Option.map_eq_some_iff.mp h
    cases heq
    unfold runFrame at hframe
    cases hf : function m id with
    | error e =>
      rw [hf] at hframe
      cases hframe
      exact ⟨0, run_zero ..⟩
    | ok g =>
      rw [hf] at hframe
      dsimp only at hframe ⊢
      by_cases habstract : g.isAbstract = true
      · rw [if_pos habstract] at hframe ⊢
        cases hframe
        exact ⟨0, run_zero ..⟩
      · rw [if_neg habstract] at hframe ⊢
        exact hbody callers { t with depth := t.depth + 1 } _ _ _ (congrArg (· + 1) hdepth) hframe

theorem Follows.advance (hbody : Follows m limit body) {a : Advance}
    (hdepth : t.depth = callers.length + 1) (hend : ¬ f.isAtEnd = true)
    (h : Interpreter.advance m limit body t f = some (a, t')) :
    ∃ n, run m limit (n + 1) (.running ⟨t.store, f, callers⟩) =
      (a.caught m t'.store f).outcome m t'.store callers := by
  have hstep : step m limit ⟨t.store, f, callers⟩ =
      respond m limit ⟨t.store, f, callers⟩ (f.effect m t.store) := by
    rw [step_eq, if_neg hend]
  unfold Interpreter.advance at h
  cases heffect : f.effect m t.store with
  | error e =>
    rw [heffect] at h hstep
    cases h
    exact ⟨0, by rw [run, hstep]; exact run_zero ..⟩
  | ok effect =>
    rw [heffect] at h hstep
    cases effect with
    | next f' s =>
      cases h
      exact ⟨0, by rw [run, hstep]; exact run_zero ..⟩
    | ret v =>
      cases h
      exact ⟨0, by rw [run, hstep]; exact run_zero ..⟩
    | raise v =>
      cases h
      refine ⟨0, ?_⟩
      rw [run, hstep, Advance.outcome_caught]
      exact run_zero ..
    | call id args caller resume =>
      obtain ⟨⟨ending, t₁⟩, hcall, heq⟩ := Option.map_eq_some_iff.mp h
      cases heq
      obtain ⟨n, hn⟩ := hbody.counted (⟨caller, f.position, resume⟩ :: callers) hdepth hcall
      refine ⟨n, ?_⟩
      rw [run, hstep]
      refine hn.trans ?_
      cases ending with
      | returned | faulted => rfl
      | thrown v =>
        -- the frame that the call comes back to has the handlers of the one that made it
        change unwind m t₁.store v caller f.position callers =
          ((Advance.ended (.thrown v)).caught m t₁.store f).outcome m t₁.store callers
        rw [Advance.outcome_caught, unwind_eq, unwind_eq, Frame.effect_call heffect]
        rfl

theorem follows_proceed (m : Module) (limit fuel : Nat) :
    Follows m limit (proceed m limit fuel) := by
  induction fuel with
  | zero =>
    intro callers t f ending t' _ h
    cases h
  | succ fuel ih =>
    intro callers t f ending t' hdepth h
    unfold proceed at h
    by_cases hend : f.isAtEnd = true
    · rw [if_pos hend] at h
      cases h
      refine ⟨1, ?_⟩
      rw [run, step_eq, if_pos hend]
      exact run_zero ..
    · rw [if_neg hend] at h
      obtain ⟨⟨a, t₁⟩, hadvance, h⟩ := Option.bind_eq_some_iff.mp h
      obtain ⟨n, hn⟩ := ih.advance hdepth hend hadvance
      have hdepth₁ : t₁.depth = callers.length + 1 :=
        (depth_advance (fun _ _ _ _ => depth_proceed) hadvance).trans hdepth
      dsimp only at h
      cases ha : a.caught m t₁.store f with
      | next f' =>
        rw [ha] at h hn
        obtain ⟨n', hn'⟩ := ih callers t₁ f' ending t' hdepth₁ h
        exact ⟨n + 1 + n', by rw [run_add, hn, Advance.outcome, hn']⟩
      | ended ending' =>
        rw [ha] at h hn
        cases h
        exact ⟨n + 1, hn⟩

theorem isFinal_of_run {o o' : Machine.Outcome} {n n' : Nat} (h : (run m limit n o).IsFinal)
    (hn : run m limit n' o = o') : (run m limit (n - n') o').IsFinal := by
  rw [← hn, ← run_add]
  obtain hle | hlt := Nat.le_total n' n
  · rwa [Nat.add_sub_cancel' hle]
  · rw [Nat.sub_eq_zero_of_le hlt, Nat.add_zero, run_of_le h hlt]
    exact h

/-- The body runs a frame to its end if the machine does in as many steps. -/
def Ends (m : Module) (limit fuel : Nat)
    (body : Interpreter → Frame → Option (Ending × Interpreter)) : Prop :=
  ∀ callers t f n, n ≤ fuel → t.depth = callers.length + 1 →
    (run m limit n (.running ⟨t.store, f, callers⟩)).IsFinal → ∃ r, body t f = some r

theorem Ends.counted (hbody : Ends m limit fuel body) {n : Nat} (hn : n ≤ fuel)
    (callers : List Caller) (hdepth : t.depth = callers.length)
    (h : (run m limit n (enter m limit t.store callers id args)).IsFinal) :
    ∃ r, Interpreter.counted m limit body t id args = some r := by
  rw [enter, ← hdepth] at h
  unfold Interpreter.counted runFrame
  split
  · exact ⟨_, rfl⟩
  · rename_i hlimit
    rw [if_neg hlimit] at h
    cases hf : function m id with
    | error e => exact ⟨_, rfl⟩
    | ok g =>
      rw [hf] at h
      dsimp only at h ⊢
      split
      · exact ⟨_, rfl⟩
      · rename_i habstract
        rw [if_neg habstract] at h
        obtain ⟨r, hr⟩ := hbody callers { t with depth := t.depth + 1 } _ n hn
          (congrArg (· + 1) hdepth) h
        exact ⟨_, congrArg (Option.map _) hr⟩

theorem Ends.advance (hbody : Ends m limit fuel body) {n : Nat} (hn : n ≤ fuel)
    (hdepth : t.depth = callers.length + 1) (hend : ¬ f.isAtEnd = true)
    (h : (run m limit (n + 1) (.running ⟨t.store, f, callers⟩)).IsFinal) :
    ∃ r, Interpreter.advance m limit body t f = some r := by
  rw [run, step_eq, if_neg hend] at h
  unfold Interpreter.advance
  cases heffect : f.effect m t.store with
  | error e => exact ⟨_, rfl⟩
  | ok effect =>
    rw [heffect] at h
    cases effect with
    | call id args caller resume =>
      obtain ⟨r, hr⟩ := hbody.counted hn (⟨caller, f.position, resume⟩ :: callers) hdepth h
      exact ⟨_, congrArg (Option.map _) hr⟩
    | _ => exact ⟨_, rfl⟩

theorem ends_proceed (m : Module) (limit fuel : Nat) :
    Ends m limit fuel (proceed m limit fuel) := by
  induction fuel with
  | zero =>
    intro callers t f n hn hdepth h
    obtain rfl := Nat.le_zero.mp hn
    exact absurd (run_zero ..) (h _)
  | succ fuel ih =>
    intro callers t f n hn hdepth h
    cases n with
    | zero => exact absurd (run_zero ..) (h _)
    | succ n =>
      have hn := Nat.le_of_succ_le_succ hn
      rw [proceed]
      by_cases hend : f.isAtEnd = true
      · rw [if_pos hend]
        exact ⟨_, rfl⟩
      · obtain ⟨⟨a, t₁⟩, hadvance⟩ := ih.advance hn hdepth hend h
        rw [if_neg hend, hadvance, Option.bind_some]
        dsimp only
        cases ha : a.caught m t₁.store f with
        | next f' =>
          -- the instruction took a step at least, so less than before is left of the run
          obtain ⟨n₁, hn₁⟩ := (follows_proceed m limit fuel).advance hdepth hend hadvance
          rw [ha] at hn₁
          have hdepth₁ := depth_advance (fun _ _ _ _ => depth_proceed) hadvance
          exact ih callers t₁ f' (n + 1 - (n₁ + 1)) (by omega) (hdepth₁.trans hdepth)
            (isFinal_of_run h hn₁)
        | ended ending => exact ⟨_, rfl⟩

theorem isFinal_conclude (m : Module) (s : Store) (ending : Ending) :
    (ending.conclude m s []).IsFinal := by
  cases ending <;> exact nofun

theorem run_eq_of_isFinal {o : Machine.Outcome} {n n' : Nat} (h : (run m limit n o).IsFinal)
    (h' : (run m limit n' o).IsFinal) : run m limit n o = run m limit n' o := by
  obtain hle | hle := Nat.le_total n n'
  · exact (run_of_le h hle).symm
  · exact run_of_le h' hle

theorem exists_run_of_execute {ending : Ending} {s : Store}
    (h : execute m limit fuel ⟨s, 0⟩ id args = some (ending, t')) : t'.depth = 0 ∧
      ∃ n, run m limit n (enter m limit s [] id args) = ending.conclude m t'.store [] :=
  ⟨depth_execute h, (follows_proceed m limit fuel).counted [] rfl h⟩

theorem execute_of_isFinal {s : Store} {n : Nat}
    (h : (run m limit n (enter m limit s [] id args)).IsFinal) :
    ∃ ending s', execute m limit n ⟨s, 0⟩ id args = some (ending, ⟨s', 0⟩) ∧
      run m limit n (enter m limit s [] id args) = ending.conclude m s' [] := by
  obtain ⟨⟨ending, t'⟩, hr⟩ :=
    (ends_proceed m limit n).counted (t := ⟨s, 0⟩) (Nat.le_refl n) [] rfl h
  obtain ⟨hdepth, n', hn'⟩ := exists_run_of_execute hr
  obtain ⟨s', depth⟩ := t'
  cases hdepth
  refine ⟨ending, s', hr, ?_⟩
  have hfinal := isFinal_conclude m s' ending
  rw [← hn'] at hfinal ⊢
  exact run_eq_of_isFinal h hfinal

end Interpreter

end Bytesmith.Machine
