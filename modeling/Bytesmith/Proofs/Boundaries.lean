import Bytesmith.Proofs.Buffers
import Bytesmith.Proofs.Frames

namespace Bytesmith.Code

open Wire Outcome

namespace Instr

theorem spends_decodeOperands (op : Opcode) : Spends op.operandSize (decodeOperands op) := by
  cases op with
  | constI32 | jump | branch => exact Spends.i32.map _
  | constI64 => exact Spends.i64.map _
  | constF64 => exact Spends.f64.map _
  | constStr | new | loadField | storeField | loadStatic | storeStatic => exact Spends.u32.map _
  | loadLocal | storeLocal => exact Spends.u16.map _
  | call mode => exact Spends.u32.bind fun function => Spends.u16.map _
  | box | unbox => exact Spends.u8.map _
  | cast => exact TypeTag.spends_decode.map _
  | _ => exact .pure _

theorem opcode_of_decodeOperands {op : Opcode} {r r' : Reader} {i : Instr Int32}
    (h : decodeOperands op r = .ok i r') : i.opcode = op := by
  cases op with
  | constI32 | constI64 | constF64 | constStr | loadLocal | storeLocal | jump | branch _ | new
  | loadField | storeField | loadStatic | storeStatic | box | unbox | cast =>
    obtain ⟨_, _, -, h⟩ := bind_eq_ok.mp h
    cases h
    rfl
  | call mode =>
    obtain ⟨_, _, -, h⟩ := bind_eq_ok.mp h
    obtain ⟨_, _, -, h⟩ := bind_eq_ok.mp h
    cases h
    rfl
  | _ =>
    cases h
    rfl

theorem decode_eq_ok {r r' : Reader} {i : Instr Int32} (h : decode r = .ok i r') :
    r' = ⟨r.data, r.position + i.size⟩ ∧ r.position + i.size ≤ r.data.size := by
  obtain ⟨offset, _, hoffset, h⟩ := bind_eq_ok.mp h
  cases hoffset
  obtain ⟨byte, r₁, hbyte, h⟩ := bind_eq_ok.mp h
  obtain ⟨rfl, hfirst⟩ := Spends.u8 r byte r₁ hbyte
  cases hop : Opcode.ofByte? byte with
  | none =>
    simp only [hop] at h
    cases h
  | some op =>
    simp only [hop] at h
    obtain ⟨rfl, hrest⟩ := spends_decodeOperands op _ i r' h
    rw [size, opcode_of_decodeOperands h, ← Nat.add_assoc]
    refine ⟨rfl, ?_⟩
    by_cases h0 : op.operandSize = 0
    · rw [h0]
      exact hfirst Nat.one_pos
    · exact hrest (Nat.pos_of_ne_zero h0)

end Instr

/-- The instructions stand one after the other from one offset to another, each as long as its
opcode and operands are. -/
def Consecutive : Nat → List Placed → Nat → Prop
  | start, [], stop => start = stop
  | start, p :: placed, stop =>
    p.offset = start ∧ p.next = start + 1 + p.instr.opcode.operandSize ∧
      Consecutive p.next placed stop

/-- Each byte of code holds at most one instruction, so the fuel lasts to the end. -/
theorem decodeAll_eq_ok {fuel : Nat} {r r' : Reader} {placed : List Placed}
    (h : decodeAll fuel r = .ok placed r') (hfuel : r.remaining ≤ fuel)
    (hin : r.position ≤ r.data.size) :
    Consecutive r.position placed r.data.size ∧
      ∀ p ∈ placed, Instr.decode ⟨r.data, p.offset⟩ = .ok p.instr ⟨r.data, p.next⟩ := by
  induction fuel generalizing r placed with
  | zero =>
    cases h
    rw [Reader.remaining] at hfuel
    refine ⟨?_, fun p hp => absurd hp List.not_mem_nil⟩
    rw [Consecutive]
    omega
  | succ fuel ih =>
    rw [decodeAll, get_bind] at h
    by_cases hend : r.isAtEnd = true
    · rw [if_pos hend] at h
      cases h
      rw [Reader.isAtEnd, decide_eq_true_eq] at hend
      exact ⟨Nat.le_antisymm hin hend, fun p hp => absurd hp List.not_mem_nil⟩
    · rw [if_neg hend] at h
      obtain ⟨i, r₁, hdecode, h⟩ := bind_eq_ok.mp h
      obtain ⟨next, r₂, hnext, h⟩ := bind_eq_ok.mp h
      cases hnext
      obtain ⟨rest, r₃, hrest, h⟩ := bind_eq_ok.mp h
      cases h
      obtain ⟨rfl, hfit⟩ := Instr.decode_eq_ok hdecode
      have hpos := i.size_pos
      rw [Reader.remaining] at hfuel
      obtain ⟨hcons, hall⟩ := ih hrest (by rw [Reader.remaining]; dsimp only; omega) hfit
      refine ⟨⟨rfl, (Nat.add_assoc ..).symm, hcons⟩, fun p hp => ?_⟩
      obtain rfl | hp := List.mem_cons.mp hp
      · exact hdecode
      · exact hall p hp

theorem instructions_eq_ok {code : Array UInt8} {placed : List Placed}
    (h : instructions code = .ok placed) :
    Consecutive 0 placed code.size ∧
      ∀ p ∈ placed, Instr.decode ⟨code, p.offset⟩ = .ok p.instr ⟨code, p.next⟩ := by
  unfold instructions at h
  split at h
  · rename_i placed' r' hall
    cases h
    exact decodeAll_eq_ok hall (Nat.le_refl _) (Nat.zero_le _)
  · cases h

end Bytesmith.Code

namespace Bytesmith.Machine

open Code Bytesmith.Outcome

/-- How far an instruction jumps that finds this stack, if it jumps. -/
def taken? (i : Instr Int32) (stack : List Value) : Option Int32 :=
  match i, stack with
  | .jump d, _ => some d
  | .branch t d, b :: a :: _ =>
    match test t a b with
    | .ok true => some d
    | _ => none
  | _, _ => none

theorem taken?_branch_iff {t : Test} {d d' : Int32} {stack : List Value} :
    taken? (.branch t d) stack = some d' ↔
      d = d' ∧ ∃ a b rest, stack = b :: a :: rest ∧ test t a b = .ok true := by
  constructor
  · intro h
    unfold taken? at h
    split at h
    · rename_i hjump
      cases hjump
    · rename_i b a rest hbranch
      cases hbranch
      split at h
      · rename_i htest
        exact ⟨Option.some.inj h, a, b, rest, rfl, htest⟩
      · cases h
    · cases h
  · rintro ⟨rfl, a, b, rest, rfl, htest⟩
    simp only [taken?, htest]

theorem target?_of_taken? {i : Instr Int32} {stack : List Value} {d : Int32}
    (h : taken? i stack = some d) : i.target? = some d := by
  cases i with
  | jump d' => exact h
  | branch t d' => exact congrArg some (taken?_branch_iff.mp h).1
  | _ => cases h

variable {m : Module} {limit : Nat} {s s' : Store} {f f' : Frame} {i : Instr Int32} {d : Int32}

theorem position_of_exec (h : exec m s f i = .ok (.next f' s')) (hi : taken? i f.stack = none) :
    f'.position = f.position := by
  obtain ⟨-, ⟨hposition, -⟩ | ⟨d, htarget, -⟩, -⟩ := fits_exec h
  · exact hposition
  · cases i with
    | jump d => cases hi
    | branch t d =>
      obtain ⟨a, b, rest, hs, h⟩ := Frame.pop2_bind_eq_ok h
      obtain ⟨taken, htest, h⟩ := except_bind_eq_ok.mp h
      cases taken with
      | true =>
        rw [taken?_branch_iff.mpr ⟨rfl, a, b, rest, hs, htest⟩] at hi
        cases hi
      | false =>
        cases h
        rfl
    | _ => cases htarget

theorem Frame.jump_eq (f : Frame) (d : Int32) :
    f.jump d = if 0 ≤ f.position + d.toInt ∧ f.position + d.toInt ≤ f.function.code.size then
      .ok { f with position := (f.position + d.toInt).toNat }
    else .error (.invalidJump f.function.name (f.position + d.toInt)) := by
  rw [jump]
  by_cases hinside : 0 ≤ f.position + d.toInt ∧ f.position + d.toInt ≤ f.function.code.size
  · rw [if_pos hinside, if_neg]
    simp only [Bool.or_eq_true, decide_eq_true_eq]
    omega
  · rw [if_neg hinside, if_pos]
    simp only [Bool.or_eq_true, decide_eq_true_eq]
    omega

theorem exec_of_taken? (h : taken? i f.stack = some d) :
    exec m s f i = ({ f with stack := f.stack.drop i.pops }.jump d >>= fun f' =>
      return .next f' s) := by
  cases i with
  | jump d' =>
    cases h
    rfl
  | branch t d' =>
    obtain ⟨rfl, a, b, rest, hs, htest⟩ := taken?_branch_iff.mp h
    have hpop : f.pop2 = .ok (a, b, { f with stack := rest }) := by
      rw [Frame.pop2, Frame.pop, hs]
      rfl
    rw [exec, hpop]
    change (test t a b >>= _) = _
    rw [htest, hs]
    rfl
  | _ => cases h

@[simp]
theorem Caller.position_resumed (c : Caller) (v : Value) :
    (c.resumed v).position = c.frame.position := by
  unfold resumed
  split <;> rfl

@[simp]
theorem Caller.function_resumed (c : Caller) (v : Value) :
    (c.resumed v).function = c.frame.function := by
  unfold resumed
  split <;> rfl

theorem isAtEnd_of_fetch {f₁ : Frame} (h : f.fetch = .ok (i, f₁)) : f.isAtEnd = false := by
  unfold Frame.fetch Frame.read at h
  split at h
  · rename_i j r hdecode
    obtain ⟨-, hfit⟩ := Instr.decode_eq_ok hdecode
    have hpos := j.size_pos
    rw [Frame.isAtEnd, decide_eq_false_iff_not]
    dsimp only at hfit
    omega
  · cases h

def respond (m : Module) (limit : Nat) (k : Configuration) : Except Fault Effect → Machine.Outcome
  | .error e => .faulted e k.store
  | .ok (.next f s) => .running ⟨s, f, k.callers⟩
  | .ok (.call id args caller resume) =>
    enter m limit k.store (⟨caller, k.frame.position, resume⟩ :: k.callers) id args
  | .ok (.ret v) => finishFrame k.store v k.callers
  | .ok (.raise v) => unwind m k.store v k.frame k.frame.position k.callers

theorem step_of_fetch {k : Configuration} {f₁ : Frame} (h : k.frame.fetch = .ok (i, f₁)) :
    step m limit k = respond m limit k (exec m k.store f₁ i) := by
  rw [step, isAtEnd_of_fetch h, Frame.effect_of_fetch h, if_neg Bool.false_ne_true]
  rfl

theorem step_of_effect {k : Configuration} {effect : Effect}
    (h : k.frame.effect m k.store = .ok effect) :
    step m limit k = respond m limit k (.ok effect) := by
  obtain ⟨i, f₁, hfetch, hexec⟩ := Frame.effect_eq_ok.mp h
  rw [step_of_fetch hfetch, hexec]

/-- The run goes on above the callers until the frame just above them returns. -/
inductive Returns (m : Module) (limit : Nat) (callers : List Caller) :
    Configuration → Value → Store → Prop
  | atEnd {k : Configuration} (hcallers : k.callers = callers) (hend : k.frame.isAtEnd = true) :
      Returns m limit callers k .null k.store
  | ret {k : Configuration} {v : Value} (hcallers : k.callers = callers)
      (heffect : k.frame.effect m k.store = .ok (.ret v)) :
      Returns m limit callers k v k.store
  | step {k k' : Configuration} {v : Value} {s : Store} (hstep : step m limit k = .running k')
      (habove : callers <:+ k'.callers) (h : Returns m limit callers k' v s) :
      Returns m limit callers k v s

/-- One instruction of the active frame after which the frame goes on. A call is over when the
function that was called has returned. -/
inductive Continues (m : Module) (limit : Nat) : Configuration → Configuration → Prop
  | next {k : Configuration} {f : Frame} {s : Store}
      (heffect : k.frame.effect m k.store = .ok (.next f s)) : Continues m limit k ⟨s, f, k.callers⟩
  | call {k k' : Configuration} {caller : Frame} {id : UInt32} {args : List Value}
      {resume : Resume} {v : Value} {s : Store}
      (heffect : k.frame.effect m k.store = .ok (.call id args caller resume))
      (hstep : step m limit k = .running k')
      (h : Returns m limit (⟨caller, k.frame.position, resume⟩ :: k.callers) k' v s) :
      Continues m limit k ⟨s, Caller.resumed ⟨caller, k.frame.position, resume⟩ v, k.callers⟩

theorem Returns.exists_run {callers : List Caller} {k : Configuration} {v : Value}
    (h : Returns m limit callers k v s) :
    ∃ n, run m limit n (.running k) = finishFrame s v callers := by
  induction h with
  | @atEnd k hcallers hend =>
    refine ⟨1, ?_⟩
    rw [run, Machine.step, if_pos hend, hcallers]
    exact run_zero m limit _
  | @ret k v hcallers heffect =>
    refine ⟨1, ?_⟩
    rw [run, step_of_effect heffect, ← hcallers]
    exact run_zero m limit _
  | @step k k' v s hstep _ _ ih =>
    obtain ⟨n, hn⟩ := ih
    refine ⟨n + 1, ?_⟩
    rw [run, hstep, hn]

theorem Continues.exists_run {k k' : Configuration} (h : Continues m limit k k') :
    ∃ n, run m limit (n + 1) (.running k) = .running k' := by
  cases h with
  | next heffect =>
    refine ⟨0, ?_⟩
    rw [run, step_of_effect heffect]
    rfl
  | call _ hstep h =>
    obtain ⟨n, hn⟩ := h.exists_run
    refine ⟨n, ?_⟩
    rw [run, hstep, hn]
    rfl

end Bytesmith.Machine

namespace Bytesmith.Code.Placed

open Machine

/-- Machines treat the instruction, where it stands in code, as the listing shows it: they read it
and go on behind it, unless they jump, and then they come to where it points or fault. -/
structure Followed (code : Array UInt8) (p : Placed) : Prop where
  carriedOut : ∀ (m : Module) (s : Store) (f : Frame), f.function.code = code →
    f.position = p.offset → f.effect m s = exec m s { f with position := p.next } p.instr
  continues : ∀ (m : Module) (limit : Nat) (k k' : Configuration), k.frame.function.code = code →
    k.frame.position = p.offset → Continues m limit k k' → taken? p.instr k.frame.stack = none →
      (∃ n, run m limit (n + 1) (.running k) = .running k') ∧ k'.callers = k.callers ∧
        k'.frame.function = k.frame.function ∧ k'.frame.position = p.next
  jumps : ∀ (m : Module) (limit : Nat) (k : Configuration) (d : Int32),
    k.frame.function.code = code → k.frame.position = p.offset →
      taken? p.instr k.frame.stack = some d →
        p.instr.target? = some d ∧ step m limit k =
          if 0 ≤ p.destination d ∧ p.destination d ≤ code.size then
            .running ⟨k.store, { k.frame with
              position := (p.destination d).toNat, stack := k.frame.stack.drop p.instr.pops },
              k.callers⟩
          else .faulted (.invalidJump k.frame.function.name (p.destination d)) k.store
  shown : ∀ (d : Int32) (pool : Pool), p.instr.target? = some d →
    p.operandText pool = "-> " ++ Text.zeroPadded 4 (p.destination d)

variable {code : Array UInt8} {p : Placed}

theorem followed_of_decode (h : Instr.decode ⟨code, p.offset⟩ = .ok p.instr ⟨code, p.next⟩) :
    p.Followed code := by
  have hfetched (f : Frame) (hcode : f.function.code = code) (hposition : f.position = p.offset) :
      f.fetch = .ok (p.instr, { f with position := p.next }) := by
    rw [Frame.fetch, Frame.read, hcode, hposition, h]
  have heffect (m : Module) (s : Store) (f : Frame) (hcode : f.function.code = code)
      (hposition : f.position = p.offset) :
      f.effect m s = exec m s { f with position := p.next } p.instr :=
    Frame.effect_of_fetch (hfetched f hcode hposition)
  refine ⟨heffect, ?_, ?_, ?_⟩
  · intro m limit k k' hcode hposition hcontinues hnone
    refine ⟨hcontinues.exists_run, ?_⟩
    cases hcontinues with
    | next hexec =>
      rw [heffect _ _ k.frame hcode hposition] at hexec
      obtain ⟨hkeeps, -⟩ := fits_exec hexec
      exact ⟨rfl, hkeeps.function, position_of_exec hexec hnone⟩
    | call hexec _ _ =>
      rw [heffect _ _ k.frame hcode hposition] at hexec
      obtain ⟨-, _, _, _, _, -, -, hcaller, hkeeps, -⟩ := fits_exec hexec
      refine ⟨rfl, ?_, ?_⟩
      · rw [Caller.function_resumed]
        exact hkeeps.function
      · rw [Caller.position_resumed]
        exact congrArg Frame.position hcaller
  · intro m limit k d hcode hposition htaken
    refine ⟨target?_of_taken? htaken, ?_⟩
    have hexec := exec_of_taken? (m := m) (s := k.store) (f := { k.frame with position := p.next })
      htaken
    rw [step_of_fetch (hfetched k.frame hcode hposition), hexec, Frame.jump_eq, hcode]
    change respond m limit k ((if 0 ≤ p.destination d ∧ p.destination d ≤ code.size then _ else _)
      >>= _) = _
    by_cases hinside : 0 ≤ p.destination d ∧ p.destination d ≤ code.size
    · rw [if_pos hinside, if_pos hinside]
      rfl
    · rw [if_neg hinside, if_neg hinside]
      rfl
  · intro d pool htarget
    rw [operandText]
    cases hinstr : p.instr with
    | jump | branch =>
      rw [hinstr] at htarget
      cases htarget
      rfl
    | _ =>
      rw [hinstr] at htarget
      cases htarget

end Bytesmith.Code.Placed

namespace Bytesmith.Build

open Code Outcome

namespace EmitM

variable {α β : Type} {x : EmitM α} {f : α → EmitM β}

def Silent (e e' : Emitter) : Prop := e'.code = e.code

def Appends (e e' : Emitter) : Prop := e'.code = e.code ∨ ∃ i, e'.code = e.code.push i

instance : Std.Refl Silent := ⟨fun _ => rfl⟩

instance : Std.Refl Appends := ⟨fun _ => .inl rfl⟩

instance : Trans Silent Silent Silent := ⟨fun h h' => h'.trans h⟩

theorem Silent.appends {e e' e'' : Emitter} (h : Silent e e') (h' : Appends e' e'') :
    Appends e e'' := by
  unfold Appends
  rw [← show e'.code = e.code from h]
  exact h'

theorem Appends.silent {e e' e'' : Emitter} (h : Appends e e') (h' : Silent e' e'') :
    Appends e e'' := by
  unfold Appends
  rw [show e''.code = e'.code from h']
  exact h

theorem leads_bind_silent (hx : Leads Appends x) (hf : ∀ a, Leads Silent (f a)) :
    Leads Appends (x >>= f) := by
  intro e
  cases h : x e with
  | ok a e' =>
    rw [bind_of_ok h]
    exact (hx.of_ok h).silent (hf a e')
  | error err e' =>
    rw [bind_of_error h]
    exact hx.of_error h

theorem silent_ensureOpen : Leads Silent ensureOpen :=
  .get_bind fun e => by
    split
    · exact .throw _
    · exact .pure _

theorem leads_ensureOpen_bind {f : Unit → EmitM α} (hf : Leads Appends (f ())) :
    Leads Appends (ensureOpen >>= f) := by
  intro e
  cases h : ensureOpen e with
  | ok u e' =>
    rw [bind_of_ok h]
    exact (silent_ensureOpen.of_ok h).appends (hf e')
  | error err e' =>
    rw [bind_of_error h]
    exact .inl (silent_ensureOpen.of_error h)

theorem appends_push (i : Instr Label) : Leads Appends (modify (·.push i) : EmitM Unit) :=
  fun _ => .inr ⟨i, rfl⟩

theorem appends_emit (i : Instr Label) : Leads Appends (emit i) :=
  leads_ensureOpen_bind (appends_push i)

theorem silent_markLabel (l : Label) : Leads Silent (markLabel l) := by
  refine silent_ensureOpen.bind fun _ => ?_
  intro e
  rw [get_bind]
  split
  · rfl
  · rfl

theorem appends_leaveTo (l : Label) : Leads Appends (leaveTo l) := by
  refine .get_bind fun e => ?_
  split
  · exact appends_emit _
  · exact .pure _

theorem appends_beginCatch (tag : TypeTag) : Leads Appends (beginCatch tag) := by
  refine leads_ensureOpen_bind (.get_bind fun e => ?_)
  split
  · exact .throw _
  · exact leads_bind_silent (appends_leaveTo _) fun _ _ => rfl

theorem appends_endTry : Leads Appends endTry := by
  refine leads_ensureOpen_bind fun e => ?_
  rw [get_bind]
  cases hr : e.regions with
  | nil => exact .inl rfl
  | cons region outer =>
    dsimp only
    by_cases hc : region.catches = 0
    · rw [if_pos hc]
      exact .inl rfl
    · rw [if_neg hc, set_bind]
      exact leads_bind_silent (appends_leaveTo _) (fun _ => silent_markLabel _)
        { e with regions := outer }

theorem silent_declareLocal (name : String) : Leads Silent (declareLocal name) := by
  refine silent_ensureOpen.bind fun _ e => ?_
  rw [get_bind]
  split <;> rfl

theorem silent_finish : Leads Silent finish := by
  refine silent_ensureOpen.bind fun _ e => ?_
  rw [get_bind]
  split
  · rfl
  · split <;> rfl

end EmitM

open EmitM in
theorem EmitterCall.appends_perform (call : EmitterCall) : Leads Appends call.perform := by
  have of_silent {α : Type} {x : EmitM α} (h : Leads Silent x) : Leads Appends (discard x) :=
    (h.map fun _ => ()).mono fun _ _ hsilent => .inl hsilent
  cases call with
  | emit i => exact appends_emit i
  | emitOpcode op =>
    refine leads_ensureOpen_bind ?_
    split
    · exact appends_push _
    · exact .throw _
  | emitBranch op l =>
    cases op with
    | branch test => exact appends_emit _
    | _ => exact .throw _
  | emitBox | emitUnbox => exact leads_ensureOpen_bind (.guard (appends_push _))
  | declareLocal name => exact of_silent (silent_declareLocal name)
  | defineLabel => exact of_silent fun _ => rfl
  | markLabel l => exact (silent_markLabel l).mono fun _ _ hsilent => .inl hsilent
  | beginTry => exact of_silent (silent_ensureOpen.bind fun _ _ => rfl)
  | beginCatch tag => exact appends_beginCatch tag
  | endTry => exact appends_endTry
  | finish => exact of_silent silent_finish

namespace Emitter

def starts : Nat → List (Instr Label) → List Nat
  | _, [] => []
  | offset, i :: code => offset :: starts (offset + i.size) code

theorem map_offset_placed (distance : Nat → Label → Int32) (offset : Nat)
    (code : List (Instr Label)) :
    (placed distance offset code).map (·.offset) = starts offset code := by
  induction code generalizing offset with
  | nil => rfl
  | cons i code ih => rw [placed, List.map_cons, ih, starts]

theorem starts_append (offset : Nat) (code : List (Instr Label)) (i : Instr Label) :
    starts offset (code ++ [i]) = starts offset code ++ [offset + totalSize code] := by
  induction code generalizing offset with
  | nil => rfl
  | cons j code ih =>
    rw [List.cons_append, starts, ih, starts, totalSize, List.cons_append, Nat.add_assoc]

theorem starts_emitAll (calls : List EmitterCall) (e : Emitter) :
    starts 0 (emitAll calls e).1.code.toList = starts 0 e.code.toList ++ (emitAll calls e).2 := by
  induction calls generalizing e with
  | nil => exact (List.append_nil _).symm
  | cons call calls ih =>
    rw [emitAll]
    dsimp only
    rw [ih]
    obtain hcode | ⟨i, hcode⟩ := call.appends_perform e
    · have hoffset : (final (call.perform e)).offset = e.offset := by
        rw [Emitter.offset_eq, Emitter.offset_eq, hcode]
      rw [if_pos hoffset, hcode]
    · have hoffset : (final (call.perform e)).offset = e.offset + i.size := by
        rw [Emitter.offset_eq, Emitter.offset_eq, hcode, Array.toList_push, totalSize_append,
          totalSize, totalSize, Nat.add_zero]
      have hpos := i.size_pos
      rw [if_neg (by omega), hcode, Array.toList_push, starts_append, ← e.offset_eq, Nat.zero_add,
        List.append_assoc, List.singleton_append]

end Emitter

end Bytesmith.Build

namespace Bytesmith.Code

open Build

/-- Whatever code decodes, its instructions lie one behind the other from the first byte to the last
and machines follow them so; and the code of an emitter, whatever was asked of it, decodes into
instructions that start where it emitted them, also once it is finished. -/
theorem boundaries_agree :
    (∀ (code : Array UInt8) (placed : List Placed), instructions code = .ok placed →
      Consecutive 0 placed code.size ∧ ∀ p ∈ placed, p.Followed code) ∧
    ∀ (name : String) (paramCount : Nat) (calls : List EmitterCall) (b : CodeBuffer)
      (offsets : List Nat), writeAll calls (.start name paramCount) = (b, offsets) →
        (∃ placed, instructions b.bytes = .ok placed ∧ placed.map (·.offset) = offsets) ∧
        ∀ body b', BufferM.finish b = .ok body b' →
          ∃ placed, instructions body.code = .ok placed ∧ placed.map (·.offset) = offsets := by
  refine ⟨fun code placed h => ?_, fun name paramCount calls b offsets h => ?_⟩
  · obtain ⟨hconsecutive, hdecode⟩ := instructions_eq_ok h
    exact ⟨hconsecutive, fun p hp => Placed.followed_of_decode (hdecode p hp)⟩
  · have hwritten := writeAll_buffer calls (.start name paramCount)
    rw [Emitter.buffer_start, h, Prod.mk.injEq] at hwritten
    obtain ⟨rfl, rfl⟩ := hwritten
    have hstarts := Emitter.starts_emitAll calls (.start name paramCount)
    refine ⟨⟨_, Emitter.instructions_assemble _ _, ?_⟩, fun body b' hfinish => ?_⟩
    · rw [Emitter.map_offset_placed]
      exact hstarts
    · obtain ⟨e', hfinish, -⟩ := Mirrors.finish.eq_ok_iff.mp hfinish
      obtain ⟨rfl, rfl⟩ := EmitM.finish_eq_ok hfinish
      refine ⟨_, Emitter.instructions_assemble _ _, ?_⟩
      rw [Emitter.map_offset_placed]
      exact hstarts

def countdown : List EmitterCall := [
  .defineLabel, .defineLabel, .markLabel ⟨0⟩,
  .emit (.loadLocal 0), .emit (.constI32 0), .emitBranch (.branch .le) ⟨1⟩,
  .emit (.loadLocal 0), .emit (.constI32 1), .emitOpcode (.arith .i32 .sub), .emit (.storeLocal 0),
  .emit (.jump ⟨0⟩), .markLabel ⟨1⟩, .emitOpcode .retVoid, .finish]

theorem boundaries_agree_countdown : ∃ b placed,
    writeAll countdown (.start "countdown" 1) = (b, [0, 3, 8, 13, 16, 21, 22, 25, 30]) ∧
      instructions b.bytes = .ok placed ∧
      placed.map (·.offset) = [0, 3, 8, 13, 16, 21, 22, 25, 30] ∧
      Consecutive 0 placed 31 ∧ ∀ p ∈ placed, p.Followed b.bytes := by
  obtain ⟨hdecoded, hwritten⟩ := boundaries_agree
  have hcalls : ∀ r, writeAll countdown (.start "countdown" 1) = r →
      r.2 = [0, 3, 8, 13, 16, 21, 22, 25, 30] ∧ r.1.bytes.size = 31 := by
    rintro r rfl
    decide +kernel
  cases h : writeAll countdown (.start "countdown" 1) with
  | mk b offsets =>
    obtain ⟨hoffsets, hsize⟩ := hcalls _ h
    obtain ⟨⟨placed, hplaced, hstarts⟩, -⟩ := hwritten "countdown" 1 countdown b offsets h
    obtain ⟨hconsecutive, hfollowed⟩ := hdecoded _ placed hplaced
    rw [hsize] at hconsecutive
    exact ⟨b, placed, Prod.ext rfl hoffsets, hplaced, hstarts.trans hoffsets, hconsecutive,
      hfollowed⟩

end Bytesmith.Code
