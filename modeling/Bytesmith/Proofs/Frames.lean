import Bytesmith.Machine.Host
import Bytesmith.Proofs.Decoding

namespace Bytesmith.Code

def Instr.pops {τ : Type} : Instr τ → Nat
  | .pop | .dup | .storeLocal _ | .widen _ | .ret | .loadField _ | .storeStatic _ => 1
  | .box _ | .unbox _ | .cast _ | .raise => 1
  | .arith _ _ | .concat | .branch _ _ | .storeField _ => 2
  | .call mode _ argc => argc.toNat + if mode = .static then 0 else 1
  | _ => 0

def Instr.pushes {τ : Type} : Instr τ → Nat
  | .dup => 2
  | .constNull | .constBool _ | .constI32 _ | .constI64 _ | .constF64 _ | .constStr _ => 1
  | .loadLocal _ | .arith _ _ | .widen _ | .concat | .new _ | .loadField _ | .loadStatic _ => 1
  | .box _ | .unbox _ | .cast _ => 1
  | _ => 0

end Bytesmith.Code

namespace Bytesmith.Machine

open Code Bytesmith.Outcome

namespace Frame

variable {f f' : Frame}

theorem pop_eq_ok {v : Value} (h : f.pop = .ok (v, f')) :
    ∃ rest, f.stack = v :: rest ∧ f' = { f with stack := rest } := by
  unfold pop at h
  cases hs : f.stack with
  | nil =>
    simp only [hs] at h
    cases h
  | cons w rest =>
    simp only [hs] at h
    cases h
    exact ⟨rest, rfl, rfl⟩

theorem pop2_eq_ok {a b : Value} (h : f.pop2 = .ok (a, b, f')) :
    ∃ rest, f.stack = b :: a :: rest ∧ f' = { f with stack := rest } := by
  obtain ⟨⟨b', f₁⟩, hb, h⟩ := except_bind_eq_ok.mp h
  obtain ⟨⟨a', f₂⟩, ha, h⟩ := except_bind_eq_ok.mp h
  cases h
  obtain ⟨rest, hs, rfl⟩ := pop_eq_ok hb
  obtain ⟨rest', hs', rfl⟩ := pop_eq_ok ha
  exact ⟨rest', hs.trans (congrArg (b :: ·) hs'), rfl⟩

theorem pop_bind_eq_ok {α : Type} {k : Value × Frame → Except Fault α} {a : α}
    (h : f.pop >>= k = .ok a) :
    ∃ v rest, f.stack = v :: rest ∧ k (v, { f with stack := rest }) = .ok a := by
  obtain ⟨⟨v, f'⟩, hpop, h⟩ := except_bind_eq_ok.mp h
  obtain ⟨rest, hs, rfl⟩ := pop_eq_ok hpop
  exact ⟨v, rest, hs, h⟩

theorem pop2_bind_eq_ok {α : Type} {k : Value × Value × Frame → Except Fault α} {a : α}
    (h : f.pop2 >>= k = .ok a) :
    ∃ x y rest, f.stack = y :: x :: rest ∧ k (x, y, { f with stack := rest }) = .ok a := by
  obtain ⟨⟨x, y, f'⟩, hpop, h⟩ := except_bind_eq_ok.mp h
  obtain ⟨rest, hs, rfl⟩ := pop2_eq_ok hpop
  exact ⟨x, y, rest, hs, h⟩

theorem popArgs_eq_ok {n : Nat} {args : List Value} (h : f.popArgs n = .ok (args, f')) :
    n ≤ f.stack.length ∧ args.length = n ∧ f' = { f with stack := f.stack.drop n } := by
  unfold popArgs at h
  split at h
  · cases h
  · cases h
    refine ⟨by omega, ?_, rfl⟩
    rw [List.length_reverse, List.length_take]
    omega

theorem storeLocal_eq_ok {slot : UInt16} {v : Value} (h : f.storeLocal slot v = .ok f') :
    f' = { f with locals := f.locals.setIfInBounds slot.toNat v } := by
  unfold storeLocal at h
  split at h
  · cases h
    rfl
  · cases h

/-- The frame stays in its function, with some values fewer and some more. -/
structure Keeps (pops pushes : Nat) (f f' : Frame) : Prop where
  function : f'.function = f.function
  locals : f'.locals.size = f.locals.size
  stack : f'.stack.length + pops = f.stack.length + pushes

theorem jump_eq_ok {distance : Int32} (h : f.jump distance = .ok f') :
    f' = { f with position := (f.position + distance.toInt).toNat } := by
  unfold jump at h
  dsimp only at h
  split at h
  · cases h
  · cases h
    rfl

end Frame

variable {m : Module} {s s' : Store} {f f' : Frame} {i : Instr Int32}

def Arrives (i : Instr Int32) (f f' : Frame) : Prop :=
  f'.position = f.position ∧ i.opcode.isTerminator = false ∨
    ∃ d, i.target? = some d ∧ f'.position = (f.position + d.toInt).toNat

def Resumes (target : Function) (mode : CallMode) (resume : Resume) : Prop :=
  match mode with
  | .constructor => ∃ object, resume = .leave object
  | _ => resume = if target.returnsValue then .push else .discard

/-- What an instruction that goes on makes of the store: it stays, unless an object is made or a
field is assigned. -/
inductive Stores (m : Module) (s : Store) : Instr Int32 → Store → Prop
  | same (i : Instr Int32) : Stores m s i s
  | new {id : UInt32} {o : Object} (h : newObject m id = .ok o) :
      Stores m s (.new id) (s.allocate o).2
  | field (id : UInt32) (ref : Nat) (v : Value) : Stores m s (.storeField id) (s.setField ref id v)
  | static (id : UInt32) (v : Value) : Stores m s (.storeStatic id) (s.setStatic id v)

def Fits (m : Module) (s : Store) (i : Instr Int32) (f : Frame) : Effect → Prop
  | .next f' s' => f.Keeps i.pops i.pushes f' ∧ Arrives i f f' ∧ Stores m s i s'
  | .call callee _ caller resume => (∃ g, function m callee = .ok g) ∧
      ∃ mode id argc target, i = .call mode id argc ∧ function m id = .ok target ∧
        caller = { f with stack := caller.stack } ∧ f.Keeps i.pops 0 caller ∧
          Resumes target mode resume
  | _ => True

theorem function_eq_ok {id : UInt32} {g : Function} :
    function m id = .ok g ↔ m.function? id = some g := by
  unfold function
  cases m.function? id <;> simp

theorem function_of_implementation? {classId id : UInt32} {name : String} {arity : Nat}
    (h : m.implementation? classId name arity = some id) : ∃ g, function m id = .ok g := by
  obtain ⟨c, -, h⟩ := List.exists_of_findSome?_eq_some h
  obtain ⟨entry, hentry, rfl⟩ := Option.map_eq_some_iff.mp h
  have hfound := List.find?_some hentry
  rw [Bool.and_eq_true] at hfound
  obtain ⟨g, hg, -⟩ := (Option.any_eq_true ..).mp hfound.2
  exact ⟨g, function_eq_ok.mpr hg⟩

theorem storeField_eq_ok {id : UInt32} {receiver v : Value}
    (h : storeField m s id receiver v = .ok s') :
    ∃ ref, receiver = .object ref ∧ s' = s.setField ref id v := by
  obtain ⟨ref, href, hstore⟩ := except_bind_eq_ok.mp h
  cases receiver with
  | object ref' =>
    cases href
    split at hstore
    · cases hstore
      exact ⟨ref, rfl, rfl⟩
    · cases hstore
  | _ => cases href

theorem fits_callEffect {mode : CallMode} {id : UInt32} {argc : UInt16} {e : Effect}
    (h : callEffect m s mode id argc.toNat f = .ok e) :
    Fits m s (.call mode id argc) f e ∧ ∀ f' s', e ≠ .next f' s' := by
  obtain ⟨target, htarget, h⟩ := except_bind_eq_ok.mp h
  obtain ⟨⟨args, f₁⟩, hargs, h⟩ := except_bind_eq_ok.mp h
  obtain ⟨hle, -, rfl⟩ := Frame.popArgs_eq_ok hargs
  have hdrop : (f.stack.drop argc.toNat).length + argc.toNat = f.stack.length := by
    rw [List.length_drop]
    omega
  have hbelow {v : Value} {rest : List Value} (hs : f.stack.drop argc.toNat = v :: rest) :
      rest.length + (argc.toNat + 1) = f.stack.length := by
    rw [← hdrop, hs, List.length_cons]
    omega
  cases mode with
  | static =>
    cases h
    exact ⟨⟨⟨target, htarget⟩, .static, id, argc, target, rfl, htarget, rfl, ⟨rfl, rfl, hdrop⟩, rfl⟩,
      nofun⟩
  | method =>
    obtain ⟨receiver, rest, hs, h⟩ := Frame.pop_bind_eq_ok h
    obtain ⟨classId, -, h⟩ := except_bind_eq_ok.mp h
    split at h
    · split at h
      · rename_i hresolved
        cases h
        exact ⟨⟨function_of_implementation? hresolved, .method, id, argc, target, rfl, htarget, rfl,
          ⟨rfl, rfl, hbelow hs⟩, rfl⟩, nofun⟩
      · cases h
    · cases h
      exact ⟨⟨⟨target, htarget⟩, .method, id, argc, target, rfl, htarget, rfl,
        ⟨rfl, rfl, hbelow hs⟩, rfl⟩, nofun⟩
  | constructor =>
    obtain ⟨object, rest, hs, h⟩ := Frame.pop_bind_eq_ok h
    obtain ⟨_, -, h⟩ := except_bind_eq_ok.mp h
    cases h
    exact ⟨⟨⟨target, htarget⟩, .constructor, id, argc, target, rfl, htarget, rfl,
      ⟨rfl, rfl, hbelow hs⟩, object, rfl⟩, nofun⟩

theorem fits_exec {e : Effect} (h : exec m s f i = .ok e) : Fits m s i f e := by
  cases i with
  | nop | constNull | constI32 | constI64 | constF64 =>
    cases h
    exact ⟨⟨rfl, rfl, rfl⟩, .inl ⟨rfl, rfl⟩, .same _⟩
  | constBool b =>
    cases h
    exact ⟨⟨rfl, rfl, rfl⟩, .inl ⟨rfl, by cases b <;> rfl⟩, .same _⟩
  | constStr | dup =>
    unfold exec at h
    dsimp only at h
    split at h
    · cases h
      exact ⟨⟨rfl, rfl, rfl⟩, .inl ⟨rfl, rfl⟩, .same _⟩
    · cases h
  | loadLocal _ | loadStatic _ =>
    obtain ⟨v, -, h⟩ := except_bind_eq_ok.mp h
    cases h
    exact ⟨⟨rfl, rfl, rfl⟩, .inl ⟨rfl, rfl⟩, .same _⟩
  | new id =>
    obtain ⟨o, ho, h⟩ := except_bind_eq_ok.mp h
    cases h
    exact ⟨⟨rfl, rfl, rfl⟩, .inl ⟨rfl, rfl⟩, .new ho⟩
  | pop =>
    obtain ⟨v, rest, hs, h⟩ := Frame.pop_bind_eq_ok h
    cases h
    exact ⟨⟨rfl, rfl, by simp [hs, Instr.pops, Instr.pushes]⟩, .inl ⟨rfl, rfl⟩, .same _⟩
  | storeLocal slot =>
    obtain ⟨v, rest, hs, h⟩ := Frame.pop_bind_eq_ok h
    obtain ⟨f₂, hstore, h⟩ := except_bind_eq_ok.mp h
    obtain rfl := Frame.storeLocal_eq_ok hstore
    cases h
    exact ⟨⟨rfl, by simp, by simp [hs, Instr.pops, Instr.pushes]⟩, .inl ⟨rfl, rfl⟩, .same _⟩
  | storeStatic id =>
    obtain ⟨_, -, h⟩ := except_bind_eq_ok.mp h
    obtain ⟨v, rest, hs, h⟩ := Frame.pop_bind_eq_ok h
    cases h
    exact ⟨⟨rfl, rfl, by simp [hs, Instr.pops, Instr.pushes]⟩, .inl ⟨rfl, rfl⟩, .static id v⟩
  | widen _ | loadField _ | cast _ =>
    obtain ⟨v, rest, hs, h⟩ := Frame.pop_bind_eq_ok h
    obtain ⟨v', -, h⟩ := except_bind_eq_ok.mp h
    cases h
    exact ⟨⟨rfl, rfl, by simp [hs, Frame.push, Instr.pops, Instr.pushes]⟩, .inl ⟨rfl, rfl⟩, .same _⟩
  | box tag =>
    obtain ⟨_, -, h⟩ := except_bind_eq_ok.mp h
    obtain ⟨v, rest, hs, h⟩ := Frame.pop_bind_eq_ok h
    cases h
    exact ⟨⟨rfl, rfl, by simp [hs, Frame.push, Instr.pops, Instr.pushes]⟩, .inl ⟨rfl, rfl⟩, .same _⟩
  | unbox tag =>
    obtain ⟨kind, -, h⟩ := except_bind_eq_ok.mp h
    obtain ⟨v, rest, hs, h⟩ := Frame.pop_bind_eq_ok h
    obtain ⟨v', -, h⟩ := except_bind_eq_ok.mp h
    cases h
    exact ⟨⟨rfl, rfl, by simp [hs, Frame.push, Instr.pops, Instr.pushes]⟩, .inl ⟨rfl, rfl⟩, .same _⟩
  | arith _ _ | concat =>
    obtain ⟨a, b, rest, hs, h⟩ := Frame.pop2_bind_eq_ok h
    obtain ⟨v, -, h⟩ := except_bind_eq_ok.mp h
    cases h
    exact ⟨⟨rfl, rfl, by simp [hs, Frame.push, Instr.pops, Instr.pushes]⟩, .inl ⟨rfl, rfl⟩, .same _⟩
  | storeField id =>
    obtain ⟨a, b, rest, hs, h⟩ := Frame.pop2_bind_eq_ok h
    obtain ⟨s', hstore, h⟩ := except_bind_eq_ok.mp h
    obtain ⟨ref, -, rfl⟩ := storeField_eq_ok hstore
    cases h
    exact ⟨⟨rfl, rfl, by simp [hs, Instr.pops, Instr.pushes]⟩, .inl ⟨rfl, rfl⟩, .field id ref b⟩
  | jump d =>
    obtain ⟨f₁, hjump, h⟩ := except_bind_eq_ok.mp h
    obtain rfl := Frame.jump_eq_ok hjump
    cases h
    exact ⟨⟨rfl, rfl, rfl⟩, .inr ⟨d, rfl, rfl⟩, .same _⟩
  | branch t d =>
    obtain ⟨a, b, rest, hs, h⟩ := Frame.pop2_bind_eq_ok h
    obtain ⟨taken, -, h⟩ := except_bind_eq_ok.mp h
    cases taken with
    | true =>
      obtain ⟨f₂, hjump, h⟩ := except_bind_eq_ok.mp h
      obtain rfl := Frame.jump_eq_ok hjump
      cases h
      exact ⟨⟨rfl, rfl, by simp [hs, Instr.pops, Instr.pushes]⟩, .inr ⟨d, rfl, rfl⟩, .same _⟩
    | false =>
      cases h
      exact ⟨⟨rfl, rfl, by simp [hs, Instr.pops, Instr.pushes]⟩, .inl ⟨rfl, by cases t <;> rfl⟩, .same _⟩
  | call mode id argc => exact (fits_callEffect h).1
  | ret =>
    obtain ⟨_, -, h⟩ := except_bind_eq_ok.mp h
    cases h
    trivial
  | retVoid =>
    cases h
    trivial
  | raise =>
    obtain ⟨_, -, h⟩ := except_bind_eq_ok.mp h
    obtain ⟨-, h⟩ := except_guard_eq_ok.mp h
    cases h
    trivial

def Caller.resumed (c : Caller) (v : Value) : Frame :=
  match c.resume with
  | .discard => c.frame
  | .push => c.frame.push v
  | .leave object => c.frame.push object

/-- A property of the active frame and one of suspended frames that every step keeps. -/
structure Invariant (m : Module) (P : Frame → Prop) (S : Caller → Prop) : Prop where
  enter : ∀ id f args, function m id = .ok f → f.isAbstract = false → P (.enter f args)
  next : ∀ f i f₁ s f' s', P f → f.fetch = .ok (i, f₁) → exec m s f₁ i = .ok (.next f' s') → P f'
  call : ∀ f i f₁ s id args caller resume, P f → f.fetch = .ok (i, f₁) →
    exec m s f₁ i = .ok (.call id args caller resume) → S ⟨caller, f.position, resume⟩
  resumed : ∀ c v, S c → P (c.resumed v)
  handle : ∀ f h v, P f → h ∈ f.function.handlers → P (f.handle h v)
  handleCaller : ∀ c h v, S c → h ∈ c.frame.function.handlers → P (c.frame.handle h v)

structure Holds (P : Frame → Prop) (S : Caller → Prop) (k : Configuration) : Prop where
  frame : P k.frame
  callers : ∀ c ∈ k.callers, S c

namespace Invariant

variable {P : Frame → Prop} {S : Caller → Prop} {limit : Nat} {k k' : Configuration}
  {callers : List Caller} {v : Value}

theorem holds_enter (h : Invariant m P S) {id : UInt32} {args : List Value}
    (hc : ∀ c ∈ callers, S c) (he : Machine.enter m limit s callers id args = .running k) :
    Holds P S k := by
  unfold Machine.enter at he
  split at he
  · cases he
  · split at he
    · cases he
    · rename_i f hf
      split at he
      · cases he
      · rename_i habstract
        cases he
        exact ⟨h.enter id f args hf (Bool.eq_false_iff.mpr habstract), hc⟩

theorem holds_finishFrame (h : Invariant m P S) (hc : ∀ c ∈ callers, S c)
    (hf : finishFrame s v callers = .running k) : Holds P S k := by
  cases callers with
  | nil => cases hf
  | cons c callers =>
    cases hf
    exact ⟨h.resumed c v (hc c (.head _)), fun c' hc' => hc c' (.tail c hc')⟩

theorem mem_of_handlerFor? {h : Handler} {offset : Nat} (hh : handlerFor? m s v f offset = some h) :
    h ∈ f.function.handlers := List.mem_of_find?_eq_some hh

theorem holds_unwind (h : Invariant m P S) {offset : Nat}
    (hf : ∀ h ∈ f.function.handlers, P (f.handle h v)) (hc : ∀ c ∈ callers, S c)
    (hu : unwind m s v f offset callers = .running k) : Holds P S k := by
  induction callers generalizing f offset with
  | nil =>
    unfold unwind at hu
    split at hu
    · rename_i handler hh
      cases hu
      exact ⟨hf handler (mem_of_handlerFor? hh), hc⟩
    · cases hu
  | cons c callers ih =>
    unfold unwind at hu
    split at hu
    · rename_i handler hh
      cases hu
      exact ⟨hf handler (mem_of_handlerFor? hh), hc⟩
    · have hsuspended := hc c (.head _)
      exact ih (fun handler hh => h.handleCaller c handler v hsuspended hh)
        (fun c' hc' => hc c' (.tail c hc')) hu

theorem holds_step (h : Invariant m P S) (hk : Holds P S k)
    (hs : step m limit k = .running k') : Holds P S k' := by
  unfold step at hs
  split at hs
  · exact h.holds_finishFrame hk.callers hs
  · split at hs
    · cases hs
    all_goals
      rename_i heffect
      obtain ⟨i, f₁, hfetch, hexec⟩ := Frame.effect_eq_ok.mp heffect
    · cases hs
      exact ⟨h.next _ _ _ _ _ _ hk.frame hfetch hexec, hk.callers⟩
    · refine h.holds_enter (fun c hc => ?_) hs
      obtain rfl | hc := List.mem_cons.mp hc
      · exact h.call _ _ _ _ _ _ _ _ hk.frame hfetch hexec
      · exact hk.callers c hc
    · exact h.holds_finishFrame hk.callers hs
    · exact h.holds_unwind (fun handler hh => h.handle _ handler _ hk.frame hh) hk.callers hs

theorem holds_run (h : Invariant m P S) {o : Machine.Outcome} (n : Nat)
    (ho : ∀ k, o = .running k → Holds P S k) (hr : run m limit n o = .running k) :
    Holds P S k := by
  induction n generalizing o with
  | zero => exact ho k hr
  | succ n ih =>
    cases o with
    | running k₀ => exact ih (fun k₁ hk₁ => h.holds_step (ho k₀ rfl) hk₁) hr
    | returned | uncaught | faulted => cases hr

theorem holds_reached (h : Invariant m P S) {id : UInt32} {args : List Value} {n : Nat}
    (hr : run m limit n (Machine.enter m limit s [] id args) = .running k) : Holds P S k :=
  h.holds_run n (fun _ he => h.holds_enter (fun _ hc => absurd hc List.not_mem_nil) he) hr

theorem belongs (m : Module) :
    Invariant m (fun f => ∃ id, function m id = .ok f.function ∧ f.function.isAbstract = false)
      fun c => ∃ id, function m id = .ok c.frame.function ∧ c.frame.function.isAbstract = false := by
  constructor
  case enter => exact fun id f _ hf hconcrete => ⟨id, hf, hconcrete⟩
  case next =>
    intro f i f₁ s f' s' hf hfetch hexec
    obtain ⟨hkeeps, -⟩ := fits_exec hexec
    rw [hkeeps.function, Frame.fetch_function hfetch]
    exact hf
  case call =>
    intro f i f₁ s id args caller resume hf hfetch hexec
    obtain ⟨-, _, _, _, _, -, -, -, hkeeps, -⟩ := fits_exec hexec
    rw [hkeeps.function, Frame.fetch_function hfetch]
    exact hf
  case resumed =>
    intro c v hc
    unfold Caller.resumed
    split <;> exact hc
  case handle => exact fun _ _ _ hf _ => hf
  case handleCaller => exact fun _ _ _ hc _ => hc

end Invariant

theorem run_zero (m : Module) (limit : Nat) (o : Machine.Outcome) : run m limit 0 o = o := by
  cases o <;> rfl

theorem run_add {limit : Nat} (a b : Nat) (o : Machine.Outcome) :
    run m limit (a + b) o = run m limit b (run m limit a o) := by
  induction a generalizing o with
  | zero => rw [Nat.zero_add, run_zero]
  | succ a ih =>
    rw [Nat.add_right_comm]
    cases o with
    | running k => exact ih _
    | returned | uncaught | faulted => cases b <;> rfl

theorem exists_step_of_faulted {limit n : Nat} {o : Machine.Outcome} {e : Fault}
    (h : run m limit n o = .faulted e s) :
    o = .faulted e s ∨ ∃ n' k, run m limit n' o = .running k ∧ step m limit k = .faulted e s := by
  induction n generalizing o with
  | zero => exact .inl h
  | succ n ih =>
    cases o with
    | running k₀ =>
      obtain hstep | ⟨n', k, hrun, hstep⟩ := ih h
      · exact .inr ⟨0, k₀, rfl, hstep⟩
      · exact .inr ⟨n' + 1, k, hrun, hstep⟩
    | returned | uncaught => cases h
    | faulted e' s' => exact .inl h

theorem unwind_ne_faulted {v : Value} {offset : Nat} {callers : List Caller} {e : Fault} :
    unwind m s v f offset callers ≠ .faulted e s' := by
  induction callers generalizing f offset with
  | nil =>
    unfold unwind
    split <;> exact nofun
  | cons c callers ih =>
    unfold unwind
    split
    · exact nofun
    · exact ih

def Outcome.result (m : Module) : Machine.Outcome → EStateM.Result Halt Store Value
  | .returned v s => .ok v s
  | .uncaught v s => .error (.fault (.uncaughtException (describe m s v))) s
  | .faulted e s => .error (.fault e) s
  | .running k => .error .outOfFuel k.store

theorem Host.invoke_eq {limit fuel : Nat} {id : UInt32} {g : Function} {args : List Value}
    (hg : m.function? id = some g) : Host.invoke ⟨m, limit, fuel⟩ id args s =
      if args.length ≠ g.paramCount then
        .error (.fault (.arityMismatch g.name g.paramCount args.length)) s
      else (run m limit fuel (Machine.enter m limit s [] id args)).result m := by
  have hfound : HostM.ofExcept (Machine.function m id) s = .ok g s := by
    rw [function_eq_ok.mpr hg]
    rfl
  refine (bind_of_ok hfound).trans ?_
  by_cases hargs : args.length ≠ g.paramCount
  · rw [if_pos hargs, if_pos hargs]
    rfl
  · rw [if_neg hargs, if_neg hargs]
    refine get_bind.trans ?_
    cases run m limit fuel (Machine.enter m limit s [] id args) <;> rfl

end Bytesmith.Machine
