import Bytesmith.Proofs.Closure
import Bytesmith.Proofs.Trees

namespace Bytesmith.Machine

open Code

variable {m : Module} {limit : Nat}

def Outcome.IsFinal (o : Outcome) : Prop := ∀ k, o ≠ .running k

theorem run_of_isFinal {o : Outcome} (h : o.IsFinal) (n : Nat) : run m limit n o = o := by
  cases n with
  | zero => exact run_zero m limit o
  | succ n =>
    cases o with
    | running k => exact absurd rfl (h k)
    | _ => rfl

theorem run_of_le {o : Outcome} {a b : Nat} (h : (run m limit a o).IsFinal) (hab : a ≤ b) :
    run m limit b o = run m limit a o := by
  obtain ⟨c, rfl⟩ := Nat.exists_eq_add_of_le hab
  rw [run_add, run_of_isFinal h]

end Bytesmith.Machine

namespace Bytesmith.Build

open Code Machine Emitter
open Progress (given)

structure Setting where
  module : Module
  limit : Nat
  store : Store
  function : Function
  emitter : Emitter
  code : function.code = emitter.body.code
  size : emitter.offset < 2 ^ 31
  marks : ∀ l p, emitter.position? l = some p → p ≤ emitter.offset
  strings : module.constants.strings.length ≤ 2 ^ 32

abbrev Operands := List Value × Array Value

namespace Setting

variable (S : Setting)

def frame (p : Nat) (x : Operands) : Frame := ⟨S.function, p, x.1, x.2⟩

def standing (p : Nat) (x : Operands) : Outcome := .running ⟨S.store, S.frame p x, []⟩

def run (n : Nat) (o : Outcome) : Outcome := Machine.run S.module S.limit n o

def Reaches (o o' : Outcome) : Prop := ∃ n, S.run n o = o'

variable {S}

theorem Reaches.refl (o : Outcome) : S.Reaches o o := ⟨0, run_zero S.module S.limit o⟩

theorem Reaches.trans {o o' o'' : Outcome} (h : S.Reaches o o') (h' : S.Reaches o' o'') :
    S.Reaches o o'' := by
  obtain ⟨a, rfl⟩ := h
  obtain ⟨b, rfl⟩ := h'
  exact ⟨a + b, run_add a b o⟩

variable {p p' : Nat} {x y : Operands} {i : Instr Label}

theorem run_one (hi : instrAt S.emitter.code.toList p = some i) (x : Operands) :
    S.run 1 (S.standing p x) =
      match exec S.module S.store (S.frame (p + i.size) x)
        (i.mapTarget (S.emitter.distance (p + i.size))) with
      | .error e => .faulted e S.store
      | .ok (.next f s) => .running ⟨s, f, []⟩
      | .ok (.call id args caller resume) =>
        enter S.module S.limit S.store [⟨caller, p, resume⟩] id args
      | .ok (.ret v) => .returned v S.store
      | .ok (.raise v) => unwind S.module S.store v (S.frame p x) p [] := by
  have hend : ¬ (S.frame p x).isAtEnd = true := by
    have hnext := instrAt_next_le hi
    have hpos := i.size_pos
    have hsize : S.function.code.size = S.emitter.offset := by rw [S.code, S.emitter.size_body]
    have hoffset := S.emitter.offset_eq
    rw [Frame.isAtEnd, decide_eq_true_iff]
    change ¬ S.function.code.size ≤ p
    omega
  have hfetch : (S.frame p x).fetch = .ok (i.mapTarget (S.emitter.distance (p + i.size)),
      S.frame (p + i.size) x) := fetch_assemble (f := S.frame p x) S.code hi
  have hrun : S.run 1 (S.standing p x) = step S.module S.limit ⟨S.store, S.frame p x, []⟩ :=
    run_zero S.module S.limit _
  rw [hrun, step, if_neg hend, Frame.effect_of_fetch hfetch]
  rfl

theorem run_next (hi : instrAt S.emitter.code.toList p = some i)
    (h : exec S.module S.store (S.frame (p + i.size) x)
      (i.mapTarget (S.emitter.distance (p + i.size))) = .ok (.next (S.frame p' y) S.store)) :
    S.run 1 (S.standing p x) = S.standing p' y := by
  rw [run_one hi, h]
  rfl

theorem run_faulted {e : Fault} (hi : instrAt S.emitter.code.toList p = some i)
    (h : exec S.module S.store (S.frame (p + i.size) x)
      (i.mapTarget (S.emitter.distance (p + i.size))) = .error e) :
    S.run 1 (S.standing p x) = .faulted e S.store := by
  rw [run_one hi, h]

def Gets (S : Setting) (p p' : Nat) (x : Operands) : Except Fault Operands → Prop
  | .ok y => S.Reaches (S.standing p x) (S.standing p' y)
  | .error e => S.Reaches (S.standing p x) (.faulted e S.store)

/-- What straight code makes of the stack and the slots, or the fault it ends in. -/
def Carries (S : Setting) (code : List (Instr Label)) (x : Operands)
    (r : Except Fault Operands) : Prop :=
  ∀ before more, S.emitter.code.toList = before ++ (code ++ more) →
    S.Gets (totalSize before) (totalSize before + totalSize code) x r

namespace Carries

variable {a b : List (Instr Label)} {r : Except Fault Operands} {f : Operands → Except Fault Operands}

theorem nil (x : Operands) : S.Carries [] x (.ok x) := fun _ _ _ => .refl _

theorem append (ha : S.Carries a x r) (hb : ∀ y, r = .ok y → S.Carries b y (f y)) :
    S.Carries (a ++ b) x (r >>= f) := by
  intro before more hcode
  rw [List.append_assoc] at hcode
  have hfirst := ha before (b ++ more) hcode
  cases r with
  | error e => exact hfirst
  | ok y =>
    have hsecond := hb y rfl (before ++ a) more (by rw [hcode, List.append_assoc])
    change S.Gets _ _ x (f y)
    rw [totalSize_append, ← Nat.add_assoc]
    rw [totalSize_append] at hsecond
    cases hf : f y with
    | error | ok =>
      rw [hf] at hsecond
      exact hfirst.trans hsecond

theorem single (h : ∀ p d, exec S.module S.store (S.frame p x) (i.mapTarget d) =
    (fun y => .next (S.frame p y) S.store) <$> r) : S.Carries [i] x r := by
  intro before more hcode
  have hrun := run_one (S := S) (p := totalSize before) (i := i)
    (by rw [hcode]; exact instrAt_totalSize before more i) x
  rw [h] at hrun
  cases r with
  | error | ok => exact ⟨1, hrun⟩

end Carries

end Setting

def Slotted (vars : List Variable) : Prop :=
  ∀ (j : Nat) (v : Variable), vars[j]? = some v →
    j < 65536 ∧ ∃ method name ty, v = .slot method j.toUInt16 name ty

def Env.Fills (env : Env) (vars : List Variable) (locals : Array Value) : Prop :=
  ∀ (j : Nat) (v : Variable), vars[j]? = some v → locals[j]? = some (env.read v)

def Variable.Known (vars : List Variable) (v : Variable) : Prop :=
  (∃ literal, v = .constant literal) ∨ v ∈ vars

theorem Slotted.exists_slot {vars : List Variable} (h : Slotted vars) {v : Variable}
    (hv : v ∈ vars) : ∃ method index name ty, v = .slot method index name ty ∧
      vars[index.toNat]? = some v := by
  obtain ⟨j, hj⟩ := List.getElem?_of_mem hv
  obtain ⟨hlt, method, name, ty, rfl⟩ := h j v hj
  have hindex : j.toUInt16.toNat = j := Nat.mod_eq_of_lt hlt
  exact ⟨method, j.toUInt16, name, ty, rfl, by rw [hindex, hj]⟩

namespace Setting

variable {S : Setting} {vars : List Variable} {env : Env} {locals : Array Value}

variable {v : Variable}

theorem Carries.pushes {i : Instr Label} {x : Operands} {v : Value}
    (h : ∀ p d, exec S.module S.store (S.frame p x) (i.mapTarget d) =
      .ok (.next (S.frame p (v :: x.1, x.2)) S.store)) : S.Carries [i] x (.ok (v :: x.1, x.2)) :=
  .single h

theorem carries_literal (l : Literal)
    (hs : ∀ s, .putString s ∈ l.loads → s ∈ S.module.constants.strings) (x : Operands) :
    S.Carries (codeOf S.module.constants l.loads) x (.ok (l.value :: x.1, x.2)) := by
  cases l with
  | string s =>
    have hget := Pool.get?_indexOf (hs s (.head _)) S.strings
    refine Carries.pushes fun p d => ?_
    unfold exec
    simp only [Instr.mapTarget, hget]
    rfl
  | _ => exact Carries.pushes fun p d => rfl

theorem carries_loads (hslots : Slotted vars) (hf : env.Fills vars locals) (hv : v.Known vars)
    (hs : ∀ s, .putString s ∈ v.loads → s ∈ S.module.constants.strings) (stack : List Value) :
    S.Carries (codeOf S.module.constants v.loads) (stack, locals)
      (.ok (v.value env :: stack, locals)) := by
  obtain ⟨l, rfl⟩ | hv := hv
  · exact carries_literal l hs (stack, locals)
  · obtain ⟨method, index, name, ty, rfl, hindex⟩ := hslots.exists_slot hv
    refine Carries.pushes fun p d => ?_
    have hload : (S.frame p (stack, locals)).loadLocal index =
        .ok (env.read (.slot method index name ty)) := by
      have hread : (S.frame p (stack, locals)).locals[index.toNat]? =
          some (env.read (.slot method index name ty)) := hf _ _ hindex
      rw [Frame.loadLocal, hread]
    change ((S.frame p (stack, locals)).loadLocal index >>= fun v =>
      Except.ok (Effect.next ((S.frame p (stack, locals)).push v) S.store)) = _
    rw [hload]
    rfl

theorem carries_saves (S : Setting) (hslots : Slotted vars) (hf : env.Fills vars locals)
    (hv : v ∈ vars) (q : Pool) (value : Value) (stack : List Value) :
    ∃ locals', (env.write v value).Fills vars locals' ∧
      S.Carries (codeOf q v.saves) (value :: stack, locals) (.ok (stack, locals')) := by
  obtain ⟨method, index, name, ty, rfl, hindex⟩ := hslots.exists_slot hv
  have hlt : index.toNat < locals.size := by
    have hsome := hf _ _ hindex
    exact (Array.getElem?_eq_some_iff.mp hsome).1
  refine ⟨locals.setIfInBounds index.toNat value, fun j w hj => ?_, Carries.single fun p d => ?_⟩
  · rw [Array.getElem?_setIfInBounds]
    by_cases hsame : index.toNat = j
    · subst hsame
      rw [hindex] at hj
      cases hj
      rw [if_pos rfl, if_pos hlt, Env.read_write_self]
    · -- another place is another slot, so another variable
      have hne : w ≠ .slot method index name ty := by
        rintro rfl
        obtain ⟨hsmall, _, _, _, hslot⟩ := hslots j _ hj
        cases hslot
        exact hsame (Nat.mod_eq_of_lt hsmall)
      rw [if_neg hsame, Env.read_write_ne env value hne]
      exact hf j w hj
  · have hstore : (S.frame p (stack, locals)).storeLocal index value =
        .ok (S.frame p (stack, locals.setIfInBounds index.toNat value)) := if_pos hlt
    change ((S.frame p (stack, locals)).storeLocal index value >>= fun f =>
      Except.ok (Effect.next f S.store)) = _
    rw [hstore]
    rfl

theorem Carries.replaces {i : Instr Label} {stack : List Value} {v : Value}
    {r : Except Fault Value} (h : ∀ p d, exec S.module S.store
      (S.frame p (v :: stack, locals)) (i.mapTarget d) =
        r >>= fun w => .ok (.next (S.frame p (w :: stack, locals)) S.store)) :
    S.Carries [i] (v :: stack, locals) ((fun w => (w :: stack, locals)) <$> r) := by
  refine Carries.single fun p d => ?_
  rw [h]
  cases r <;> rfl

theorem carries_converts (S : Setting) (c : Coercion) (q : Pool) (v : Value) (stack : List Value) :
    S.Carries (codeOf q c.converts) (v :: stack, locals)
      ((fun w => (w :: stack, locals)) <$> c.convert S.module S.store v) := by
  cases c with
  | none => exact Carries.nil _
  | widen | cast => exact Carries.replaces fun p d => rfl
  | box kind | unbox kind => exact Carries.replaces fun p d => by cases kind <;> rfl

theorem carries_converted (hslots : Slotted vars) (hf : env.Fills vars locals) (c : Coercion)
    (hv : v.Known vars) (hs : ∀ s, .putString s ∈ v.loads → s ∈ S.module.constants.strings) :
    S.Carries (codeOf S.module.constants v.loads ++ codeOf S.module.constants c.converts)
      ([], locals) ((fun w => ([w], locals)) <$> c.convert S.module S.store (v.value env)) := by
  refine (carries_loads hslots hf hv hs []).append (f := fun _ => (fun w => ([w], locals)) <$>
    c.convert S.module S.store (v.value env)) fun y hy => ?_
  cases hy
  exact S.carries_converts c S.module.constants (v.value env) []

theorem carries_widens (hslots : Slotted vars) (hf : env.Fills vars locals) (hv : v.Known vars)
    (target : StaticType)
    (hs : ∀ s, .putString s ∈ v.widens target → s ∈ S.module.constants.strings) (stack : List Value) :
    S.Carries (codeOf S.module.constants (v.widens target)) (stack, locals)
      ((fun w => (w :: stack, locals)) <$> v.widened env target) := by
  have hloads := carries_loads hslots hf hv (fun s hmem => hs s (List.mem_append_left _ hmem)) stack
  rw [Variable.widens, codeOf_append, Variable.widened]
  cases v.ty.widening? target with
  | none =>
    rw [Option.toList_none, List.map_nil]
    exact hloads.append fun y hy => by cases hy; exact Carries.nil _
  | some w =>
    refine hloads.append (f := fun _ => (fun w => (w :: stack, locals)) <$>
      widen w (v.value env)) fun y hy => ?_
    cases hy
    exact Carries.replaces fun p d => rfl

end Setting

namespace Emitter

structure Within (e e' : Emitter) : Prop where
  code : ∃ more, e'.code.toList = e.code.toList ++ more
  position : ∀ l p, e.position? l = some p → e'.position? l = some p

variable {e e' e'' : Emitter} {l : Label}

theorem Within.refl (e : Emitter) : e.Within e :=
  ⟨⟨[], (List.append_nil _).symm⟩, fun _ _ h => h⟩

theorem Within.trans (h : e.Within e') (h' : e'.Within e'') : e.Within e'' := by
  obtain ⟨a, ha⟩ := h.code
  obtain ⟨b, hb⟩ := h'.code
  refine ⟨⟨a ++ b, by rw [hb, ha, List.append_assoc]⟩, fun l p hp => ?_⟩
  exact h'.position l p (h.position l p hp)

theorem within_append (e : Emitter) (code : List (Instr Label)) : e.Within (e.append code) := by
  refine ⟨⟨code, e.code_append code⟩, fun l p hp => ?_⟩
  rw [position?, marks_append]
  exact hp

theorem within_push (e : Emitter) (i : Instr Label) : e.Within (e.push i) :=
  e.within_append [i]

theorem within_mark (h : e.isMarked l = false) : e.Within (e.mark l) := by
  refine ⟨⟨[], (List.append_nil _).symm⟩, fun l' p hp => ?_⟩
  have hne : (l' == l) = false := by
    rw [beq_eq_false_iff_ne]
    rintro rfl
    rw [isMarked, hp] at h
    cases h
  rw [position?, mark, List.lookup_cons, hne]
  exact hp

theorem within_leave (e : Emitter) (l : Label) : e.Within (e.leave l) := by
  obtain ⟨-, he⟩ | ⟨-, he⟩ := e.leave_eq l
  · rw [he]
    exact e.within_push _
  · rw [he]
    exact .refl e

theorem position?_mark (e : Emitter) (l : Label) : (e.mark l).position? l = some e.offset := by
  rw [position?, mark, List.lookup_cons_self]

theorem canFallThrough_mark (e : Emitter) (l : Label) : (e.mark l).canFallThrough = true := by
  rw [canFallThrough]
  cases (e.mark l).code.back? with
  | none => rfl
  | some i =>
    simp only [mark, List.any_cons, beq_self_eq_true, Bool.true_or, Bool.or_true]

theorem canFallThrough_push {i : Instr Label} (h : i.opcode.isTerminator = false) :
    (e.push i).canFallThrough = true := by
  rw [canFallThrough, push]
  simp [h]

theorem canFallThrough_append {code : List (Instr Label)} (he : e.canFallThrough = true)
    (h : ∀ i ∈ code, i.opcode.isTerminator = false) : (e.append code).canFallThrough = true := by
  induction code generalizing e with
  | nil => exact he
  | cons i code ih =>
    exact ih (canFallThrough_push (h i (.head _)))
      fun j hj => h j (.tail i hj)

end Emitter

variable {e e' : Emitter}

theorem Action.Acts.within {q : Pool} {a : Action} (h : a.Acts q e e') : e.Within e' := by
  cases h with
  | put i => exact e.within_push i
  | putString => exact e.within_push _
  | mark h => exact within_mark h
  | leave l => exact e.within_leave l
  | openRegion => exact ⟨⟨[], (List.append_nil _).symm⟩, fun _ _ h => h⟩
  | openCatch =>
    have hleave := e.within_leave
    exact ⟨(hleave _).code, (hleave _).position⟩
  | @closeRegion _ region outer hregions hcatches hmark =>
    have hleave := within_leave { e with regions := outer } region.endLabel
    have hmark' : (Emitter.leave { e with regions := outer } region.endLabel).isMarked
        region.endLabel = false := by
      rw [isMarked_leave]
      exact hmark
    have hwithin := hleave.trans (within_mark hmark')
    exact ⟨hwithin.code, hwithin.position⟩

theorem Runs.within {q : Pool} {actions : List Action} (h : Runs q e actions e') : e.Within e' := by
  induction h with
  | nil e => exact .refl e
  | cons hact _ ih => exact hact.within.trans ih

inductive Written (q : Pool) : Emitter → List Command → Emitter → Prop
  | nil (e : Emitter) : Written q e [] e
  | cons {e e' e'' : Emitter} {c : Command} {cs : List Command}
      (h : Runs q (c.prepare e) c.actions e') (rest : Written q e' cs e'') :
      Written q e (c :: cs) e''

namespace Written

variable {q : Pool} {e e' e'' : Emitter} {a b : List Command} {c : Command}

theorem append_inv (h : Written q e (a ++ b) e'') :
    ∃ e', Written q e a e' ∧ Written q e' b e'' := by
  induction a generalizing e with
  | nil => exact ⟨e, .nil e, h⟩
  | cons c a ih =>
    cases h with
    | cons hc rest =>
      obtain ⟨e', ha, hb⟩ := ih rest
      exact ⟨e', .cons hc ha, hb⟩

theorem concat (h : Written q e a e') (hc : Runs q (c.prepare e') c.actions e'') :
    Written q e (a ++ [c]) e'' := by
  induction h with
  | nil e => exact .cons hc (.nil _)
  | cons h _ ih => exact .cons h (ih hc)

theorem single_inv (h : Written q e [c] e') : Runs q (c.prepare e) c.actions e' := by
  cases h with
  | cons hc rest =>
    cases rest
    exact hc

theorem within (h : Written q e a e') : e.Within e' := by
  induction h with
  | nil e => exact .refl e
  | @cons e e' e'' c cs hc rest ih =>
    have hprepare : e.Within (c.prepare e) := ⟨⟨[], (List.append_nil _).symm⟩, fun _ _ h => h⟩
    exact (hprepare.trans hc.within).trans ih

end Written

namespace Setting

/-- From one offset the run does what an evaluation says: it comes to the other offset with the
values that the variables have then, or it returns, or it faults, or it goes on for some time. -/
def Follows (S : Setting) (vars : List Variable) (p p' : Nat) (locals : Array Value) (least : Nat) :
    Progress → Prop
  | .done env => ∃ locals', env.Fills vars locals' ∧
    S.Reaches (S.standing p ([], locals)) (S.standing p' ([], locals'))
  | .returned v => S.Reaches (S.standing p ([], locals)) (.returned v S.store)
  | .faulted e => S.Reaches (S.standing p ([], locals)) (.faulted e S.store)
  | .unfinished => ∃ n k, least ≤ n ∧ S.run n (S.standing p ([], locals)) = .running k

namespace Follows

variable {S : Setting} {vars : List Variable} {p p' p'' : Nat} {locals locals' : Array Value}
  {env : Env} {r : Progress} {least n : Nat} {next : Env → Progress}

theorem refl (h : env.Fills vars locals) : S.Follows vars p p locals least (.done env) :=
  ⟨locals, h, .refl _⟩

theorem of_run (hrun : S.run n (S.standing p ([], locals)) = S.standing p' ([], locals'))
    (h : S.Follows vars p' p'' locals' least r) : S.Follows vars p p'' locals (n + least) r := by
  cases r with
  | done env =>
    obtain ⟨locals'', hfills, hreaches⟩ := h
    exact ⟨locals'', hfills, Reaches.trans ⟨n, hrun⟩ hreaches⟩
  | returned | faulted => exact Reaches.trans ⟨n, hrun⟩ h
  | unfinished =>
    obtain ⟨n', k, hn', hk⟩ := h
    refine ⟨n + n', k, Nat.add_le_add_left hn' n, ?_⟩
    rw [run, run_add]
    change S.run n' (S.run n _) = _
    rw [hrun, hk]

theorem mono {least' : Nat} (h : S.Follows vars p p' locals least r) (hle : least' ≤ least) :
    S.Follows vars p p' locals least' r := by
  cases r with
  | unfinished =>
    obtain ⟨n, k, hn, hk⟩ := h
    exact ⟨n, k, Nat.le_trans hle hn, hk⟩
  | _ => exact h

theorem of_reaches (hr : S.Reaches (S.standing p ([], locals)) (S.standing p' ([], locals')))
    (h : S.Follows vars p' p'' locals' least r) : S.Follows vars p p'' locals least r := by
  obtain ⟨n, hn⟩ := hr
  exact (h.of_run hn).mono (Nat.le_add_left ..)

theorem andThen (h : S.Follows vars p p' locals least r)
    (hnext : ∀ env locals', r = .done env → env.Fills vars locals' →
      S.Follows vars p' p'' locals' least (next env)) :
    S.Follows vars p p'' locals least (r.andThen next) := by
  cases r with
  | done env =>
    obtain ⟨locals', hfills, hreaches⟩ := h
    exact (hnext env locals' rfl hfills).of_reaches hreaches
  | _ => exact h

theorem extend (h : S.Follows vars p p' locals least r)
    (hnext : ∀ env locals', r = .done env →
      S.Reaches (S.standing p' ([], locals')) (S.standing p'' ([], locals'))) :
    S.Follows vars p p'' locals least r := by
  cases r with
  | done env =>
    obtain ⟨locals', hfills, hreaches⟩ := h
    exact ⟨locals', hfills, hreaches.trans (hnext env locals' rfl)⟩
  | _ => exact h

end Follows

variable {S : Setting} {vars : List Variable} {locals : Array Value} {env : Env}

variable {e : Emitter} {i : Instr Label} {l : Label} {target : Nat}

theorem Carries.gets {code : List (Instr Label)} {x : Operands} {r : Except Fault Operands}
    (h : S.Carries code x r) (hw : (e.append code).Within S.emitter) :
    S.Gets e.offset (e.append code).offset x r := by
  obtain ⟨more, hmore⟩ := hw.code
  rw [code_append, List.append_assoc] at hmore
  have hcarries := h e.code.toList more hmore
  rw [offset_append, e.offset_eq]
  exact hcarries

theorem instrAt_push (hw : (e.push i).Within S.emitter) :
    instrAt S.emitter.code.toList e.offset = some i := by
  obtain ⟨more, hmore⟩ := hw.code
  rw [hmore, code_push, e.offset_eq, List.append_assoc]
  exact instrAt_totalSize e.code.toList more i

theorem jump_frame {next : Nat} (ht : S.emitter.position? l = some target)
    (hnext : next ≤ S.emitter.offset) (x : Operands) :
    (S.frame next x).jump (S.emitter.distance next l) = .ok (S.frame target x) := by
  have hsize : S.function.code.size = S.emitter.offset := by rw [S.code, S.emitter.size_body]
  have hle := S.marks l target ht
  have hlt := S.size
  exact jump_distance (f := S.frame next x) ht (by change _ ≤ S.function.code.size; omega)
    (Nat.lt_of_le_of_lt hnext hlt) (by change S.function.code.size < _; omega)

theorem next_le {p : Nat} (hi : instrAt S.emitter.code.toList p = some i) :
    p + i.size ≤ S.emitter.offset := by
  rw [S.emitter.offset_eq]
  exact instrAt_next_le hi

theorem run_jump (hw : (e.push (.jump l)).Within S.emitter)
    (ht : S.emitter.position? l = some target) (x : Operands) :
    S.run 1 (S.standing e.offset x) = S.standing target x := by
  have hi := instrAt_push hw
  have hexec := congrArg (· >>= fun f => Except.ok (Effect.next f S.store))
    (jump_frame ht (next_le hi) x)
  exact run_next hi hexec

theorem run_branch {t : Test} (hw : (e.push (.branch t l)).Within S.emitter)
    (ht : S.emitter.position? l = some target) (a b : Value) (locals : Array Value) :
    S.run 1 (S.standing e.offset ([b, a], locals)) = match test t a b with
      | .error fault => .faulted fault S.store
      | .ok true => S.standing target ([], locals)
      | .ok false => S.standing (e.push (.branch t l)).offset ([], locals) := by
  have hi := instrAt_push hw
  let next := e.offset + (Instr.branch t l).size
  have hexec : exec S.module S.store (S.frame next ([b, a], locals))
      (.branch t (S.emitter.distance next l)) = (do
        if ← test t a b then
          return .next (← (S.frame next ([], locals)).jump (S.emitter.distance next l)) S.store
        else return .next (S.frame next ([], locals)) S.store) := rfl
  rw [jump_frame ht (next_le hi)] at hexec
  cases htest : test t a b with
  | error fault =>
    rw [htest] at hexec
    exact run_faulted hi hexec
  | ok holds =>
    rw [htest] at hexec
    cases holds with
    | true | false => exact run_next hi hexec

theorem carries_operand (hslots : Slotted vars) (hf : env.Fills vars locals) (c : Condition)
    {v : Variable} (hv : v.Known vars)
    (hs : ∀ s, .putString s ∈ c.operand v → s ∈ S.module.constants.strings) (stack : List Value) :
    S.Carries (codeOf S.module.constants (c.operand v)) (stack, locals)
      ((fun w => (w :: stack, locals)) <$> c.side env v) := by
  obtain ⟨left, comparison, right, widenTo⟩ := c
  cases widenTo with
  | none => exact carries_loads hslots hf hv hs stack
  | some target => exact carries_widens hslots hf hv target hs stack

theorem carries_condition (hslots : Slotted vars) (hf : env.Fills vars locals) {c : Condition}
    (hleft : c.left.Known vars) (hright : c.right.Known vars)
    (hs : ∀ s, .putString s ∈ c.operand c.left ++ c.operand c.right →
      s ∈ S.module.constants.strings) :
    S.Carries (c.code S.module.constants) ([], locals) (do
      let a ← c.side env c.left
      let b ← c.side env c.right
      return ([b, a], locals)) := by
  have ha := carries_operand hslots hf c hleft (fun s hm => hs s (List.mem_append_left _ hm)) []
  have hb (a : Value) := carries_operand hslots hf c hright
    (fun s hm => hs s (List.mem_append_right _ hm)) [a]
  rw [Condition.code, codeOf_append]
  cases hside : c.side env c.left with
  | error e =>
    rw [hside] at ha
    exact ha.append (f := .ok) fun y hy => by cases hy
  | ok a =>
    rw [hside] at ha
    refine ha.append (f := fun _ => (fun w => ([w, a], locals)) <$> c.side env c.right) fun y hy => ?_
    cases hy
    exact hb a

theorem follows_condition (hslots : Slotted vars) (hf : env.Fills vars locals) {c : Condition}
    (hleft : c.left.Known vars) (hright : c.right.Known vars)
    (hs : ∀ s, .putString s ∈ c.operand c.left ++ c.operand c.right → s ∈
      S.module.constants.strings)
    (hw : ((e.append (c.code S.module.constants)).push (.branch c.comparison.failureTest l)).Within
      S.emitter) {p' least : Nat} (ht : S.emitter.position? l = some target)
    {next : Bool → Progress}
    (htrue : c.holds env = .ok true → S.Follows vars ((e.append (c.code S.module.constants)).push
      (.branch c.comparison.failureTest l)).offset p' locals least (next true))
    (hfalse : c.holds env = .ok false → S.Follows vars target p' locals least (next false)) :
    S.Follows vars e.offset p' locals least (given (c.holds env) next) := by
  have hcode := (carries_condition hslots hf hleft hright hs).gets
    (((e.append _).within_push _).trans hw)
  rw [Condition.holds] at htrue hfalse ⊢
  cases ha : c.side env c.left with
  | error fault =>
    rw [ha] at hcode
    exact hcode
  | ok a =>
    cases hb : c.side env c.right with
    | error fault =>
      rw [ha, hb] at hcode
      exact hcode
    | ok b =>
      rw [ha, hb] at hcode htrue hfalse
      have hbranch := run_branch hw ht a b locals
      rw [c.comparison.test_failureTest] at hbranch
      change S.Follows vars _ _ _ _ (given (c.comparison.holds a b) next)
      change c.comparison.holds a b = _ → _ at htrue hfalse
      cases hholds : c.comparison.holds a b with
      | error fault =>
        rw [hholds] at hbranch
        exact Reaches.trans hcode ⟨1, hbranch⟩
      | ok holds =>
        rw [hholds] at hbranch
        cases holds with
        | true => exact (htrue hholds).of_reaches (Reaches.trans hcode ⟨1, hbranch⟩)
        | false => exact (hfalse hholds).of_reaches (Reaches.trans hcode ⟨1, hbranch⟩)

theorem run_returned {x : Operands} {v : Value} (hw : (e.push i).Within S.emitter)
    (h : ∀ p d, exec S.module S.store (S.frame p x) (i.mapTarget d) = .ok (.ret v)) :
    S.run 1 (S.standing e.offset x) = .returned v S.store := by
  rw [run_one (instrAt_push hw), h]

end Setting

def Command.Known (vars : List Variable) : Command → Prop
  | .arithmetic _ left right _ result => left.Known vars ∧ right.Known vars ∧ result ∈ vars
  | .assign target source _ => target ∈ vars ∧ source.Known vars
  | .ifBegin c _ _ | .elseIf c _ _ _ | .whileBegin c _ _ => c.left.Known vars ∧ c.right.Known vars
  | .ret (some (value, _)) _ => value.Known vars
  | _ => True

namespace Setting

variable {S : Setting} {vars : List Variable} {locals : Array Value} {env : Env} {e : Emitter}
  {least : Nat} {code : List (Instr Label)} {r : Except Fault Value}

theorem follows_saves (hslots : Slotted vars) (hf : env.Fills vars locals) {target : Variable}
    (htarget : target ∈ vars) {q : Pool}
    (hcode : S.Carries code ([], locals) ((fun w => ([w], locals)) <$> r))
    {whole : List (Instr Label)} (heq : whole = code ++ codeOf q target.saves)
    (hw : (e.append whole).Within S.emitter) :
    S.Follows vars e.offset (e.append whole).offset locals least
      (given r fun x => .done (env.write target x)) := by
  subst heq
  cases r with
  | error fault => exact (hcode.append (f := .ok) (b := codeOf q target.saves) nofun).gets hw
  | ok x =>
    obtain ⟨locals', hfills, hsaves⟩ := S.carries_saves hslots hf htarget q x []
    refine ⟨locals', hfills, ?_⟩
    refine (hcode.append (f := fun _ => .ok ([], locals')) fun y hy => ?_).gets hw
    cases hy
    exact hsaves

theorem follows_ret (hcode : S.Carries code ([], locals) ((fun w => ([w], locals)) <$> r))
    (hw : (e.append (code ++ [.ret])).Within S.emitter) (p' : Nat) :
    S.Follows vars e.offset p' locals least (given r .returned) := by
  rw [← append_append] at hw
  have hgets := hcode.gets (((e.append code).within_push _).trans hw)
  cases r with
  | error fault => exact hgets
  | ok x => exact Reaches.trans hgets ⟨1, run_returned hw fun p d => rfl⟩

theorem carries_arithmetic (hslots : Slotted vars) (hf : env.Fills vars locals)
    {left right : Variable} {ty : StaticType} {op : Arithmetic} {i : Instr Label}
    (hleft : left.Known vars) (hright : right.Known vars) (hi : ty.arithmetic? op = some i)
    (hs : ∀ s, .putString s ∈ left.widens ty ++ right.widens ty → s ∈ S.module.constants.strings) :
    S.Carries (codeOf S.module.constants (left.widens ty) ++
        (codeOf S.module.constants (right.widens ty) ++ [i])) ([], locals)
      ((fun w => ([w], locals)) <$> (do
        ty.combine op (← left.widened env ty) (← right.widened env ty))) := by
  have ha := carries_widens hslots hf hleft ty (fun s hm => hs s (List.mem_append_left _ hm)) []
  have hb (a : Value) := carries_widens hslots hf hright ty
    (fun s hm => hs s (List.mem_append_right _ hm)) [a]
  have hcombine (a b : Value) : S.Carries [i] ([b, a], locals)
      ((fun w => ([w], locals)) <$> ty.combine op a b) := by
    refine Carries.single fun p d => ?_
    cases ty with
    | int | long | double =>
      cases hi
      rw [StaticType.combine]
      change (arith _ op a b >>= fun v => Except.ok (Effect.next _ _)) = _
      dsimp only [StaticType.numeric?]
      cases arith _ op a b <;> rfl
    | string =>
      cases op with
      | add =>
        cases hi
        change (concat a b >>= fun v => Except.ok (Effect.next _ _)) = _
        dsimp only [StaticType.combine, StaticType.numeric?]
        cases concat a b <;> rfl
      | _ => cases hi
    | _ => cases hi
  generalize left.widened env ty = l at ha ⊢
  generalize right.widened env ty = r at hb ⊢
  cases l with
  | error fault => exact ha.append (f := .ok) fun y hy => by cases hy
  | ok a =>
    refine ha.append (f := fun _ => (fun w => ([w], locals)) <$> (r >>= ty.combine op a))
      fun y hy => ?_
    cases hy
    cases r with
    | error fault => exact (hb a).append (f := .ok) fun y hy => by cases hy
    | ok b =>
      refine (hb a).append (f := fun _ => (fun w => ([w], locals)) <$> ty.combine op a b)
        fun y hy => ?_
      cases hy
      exact hcombine a b

end Setting

open Setting

/-- The code from the end of one emitter to the end of the other does what an evaluation says, and
control can come to its end if the evaluation comes to its end. -/
structure Flows (S : Setting) (vars : List Variable) (e e' : Emitter) (locals : Array Value)
    (least : Nat) (r : Progress) : Prop where
  follows : S.Follows vars e.offset e'.offset locals least r
  live : ∀ env, r = .done env → e'.canFallThrough = true

theorem Flows.andThen {S : Setting} {vars : List Variable} {e'' : Emitter} {locals : Array Value}
    {least : Nat} {r : Progress} {next : Env → Progress} (h : Flows S vars e e' locals least r)
    (hnext : ∀ env locals', env.Fills vars locals' → e'.canFallThrough = true → Flows S vars e' e''
      locals' least (next env)) : Flows S vars e e'' locals least (r.andThen next) := by
  refine ⟨h.follows.andThen fun env locals' hr hf => (hnext env locals' hf (h.live env hr)).follows,
    fun env hdone => ?_⟩
  cases r with
  | done env' =>
    obtain ⟨locals', hf, -⟩ := h.follows
    exact (hnext env' locals' hf (h.live env' rfl)).live env hdone
  | _ => cases hdone

theorem reaches_final {S : Setting} {f : Label} {p' : Nat} (hw : (e.leave f).Within S.emitter)
    (hfinal : S.emitter.position? f = some p') (hlive : e.canFallThrough = true) (x : Operands) :
    S.Reaches (S.standing e.offset x) (S.standing p' x) := by
  rw [leave, if_pos hlive] at hw
  exact ⟨1, run_jump hw hfinal x⟩

/-- The code of the branches behind the first: it goes to its end from where the branch before it
ends, and does what the branches mean from where the condition before it fails. -/
structure ChainFlows (S : Setting) (vars : List Variable) (e e' : Emitter) (n : Nat) (chain : Chain)
    (l f : Label) : Prop where
  final : S.emitter.position? f = some e'.offset
  live : e'.canFallThrough = true
  exit : e.canFallThrough = true → ∀ x, S.Reaches (S.standing e.offset x) (S.standing e'.offset x)
  entry : ∃ target, S.emitter.position? l = some target ∧ ∀ env locals, env.Fills vars locals →
    S.Follows vars target e'.offset locals n (chain.eval S.module S.store n env)

section

variable {S : Setting} {vars : List Variable} (hslots : Slotted vars)

include hslots

theorem Statement.flows (st : Statement) {locals : Array Value} {env : Env}
    (hr : Runs S.module.constants (st.command.prepare e) st.command.actions e')
    (hw : e'.Within S.emitter) (hk : st.command.Known vars) (he : st.command.Emittable)
    (hf : env.Fills vars locals) (hlive : e.canFallThrough = true) (least : Nat) :
    Flows S vars e e' locals least (st.perform S.module S.store env) := by
  obtain ⟨hi, ho⟩ : st.command.indents = false ∧ st.command.outdents = false := by
    cases st <;> exact ⟨rfl, rfl⟩
  obtain ⟨rfl, hs⟩ := Command.runs_plain hi ho hr
  have hthrough (hexit : st.command.exit? = none) : ((st.command.prepare e).append
      (codeOf S.module.constants st.command.body ++ st.command.exit?.toList)).canFallThrough =
        true := by
    refine canFallThrough_append hlive fun i hmem => ?_
    rw [hexit, Option.toList_none, List.append_nil] at hmem
    exact (straight_of_mem_codeOf (Command.isStraight_body hi ho) hmem).2
  cases st with
  | declare v => exact ⟨.refl hf, fun _ _ => hthrough rfl⟩
  | assign target source coercion =>
    obtain ⟨htarget, hsource⟩ := hk
    refine ⟨?_, fun _ _ => hthrough rfl⟩
    have hreceives : target.receives = [] := by
      obtain ⟨method, index, name, ty, rfl, -⟩ := hslots.exists_slot htarget
      rfl
    have hcode := carries_converted hslots hf coercion hsource fun s hm => hs s (by
      simp [command, Command.body, Command.actions, hm])
    refine follows_saves hslots hf htarget hcode (q := S.module.constants) ?_ hw
    simp [command, Command.exit?, Command.body, Command.actions, hreceives, codeOf_append]
  | arithmetic op left right ty result =>
    obtain ⟨hleft, hright, hresult⟩ := hk
    refine ⟨?_, fun _ _ => hthrough rfl⟩
    obtain ⟨i, harith⟩ := Option.isSome_iff_exists.mp he
    have hcode := carries_arithmetic (S := S) hslots hf hleft hright harith fun s hm => hs s (by
      rw [List.mem_append] at hm
      simp only [command, Command.body, Command.actions, List.mem_append]
      exact hm.imp_right .inl)
    refine follows_saves hslots hf hresult hcode (q := S.module.constants) ?_ hw
    simp [command, Command.exit?, Command.body, Command.actions, harith, codeOf_append]
    rfl
  | ret value returnType =>
    cases value with
    | none =>
      refine ⟨?_, fun env' h => by cases h⟩
      exact ⟨1, run_returned (e := Command.prepare (.ret none returnType) e) hw fun p d => rfl⟩
    | some r =>
      obtain ⟨v, coercion⟩ := r
      have hcode := carries_converted hslots hf coercion hk fun s hm => hs s (by
        simp [command, Command.body, hm])
      rw [← codeOf_append] at hcode
      refine ⟨follows_ret hcode hw _, fun env' h => ?_⟩
      change given (coercion.convert S.module S.store (v.value env)) .returned = _ at h
      cases hx : coercion.convert S.module S.store (v.value env) <;> rw [hx] at h <;> cases h

/-- The code of a loop repeats its body as long as the condition holds. Each round takes a step at
least, so a run goes on as long as the loop does. -/
theorem follows_repeated {c : Condition} (hleft : c.left.Known vars) (hright : c.right.Known vars)
    (hs : ∀ s, .putString s ∈ c.operand c.left ++ c.operand c.right → s ∈
      S.module.constants.strings) {e₂ : Emitter} {start exit : Label} {p' n : Nat}
    (hw : ((e.append (c.code S.module.constants)).push (.branch c.comparison.failureTest
      exit)).Within S.emitter) (hjump : (e₂.push (.jump start)).Within S.emitter)
    (hstart : S.emitter.position? start = some e.offset)
    (hexit : S.emitter.position? exit = some p') {body : Env → Progress}
    (hbody : ∀ env locals, env.Fills vars locals → S.Follows vars ((e.append (c.code
      S.module.constants)).push (.branch c.comparison.failureTest exit)).offset e₂.offset locals n
      (body env)) {k : Nat} (hk : k ≤ n) {env : Env} {locals : Array Value}
    (hf : env.Fills vars locals) :
    S.Follows vars e.offset p' locals k (repeated (Condition.holds · c) body k env) := by
  induction k generalizing env locals with
  | zero => exact ⟨0, _, Nat.le_refl 0, run_zero S.module S.limit _⟩
  | succ k ih =>
    refine follows_condition hslots hf hleft hright hs hw hexit (fun _ => ?_) fun _ => .refl hf
    refine ((hbody env locals hf).mono hk).andThen fun env' locals' _ hf' => ?_
    have hround := (ih (Nat.le_of_succ_le hk) hf').of_run (run_jump hjump hstart ([], locals'))
    rwa [Nat.add_comm] at hround

mutual

theorem Tree.flows (n : Nat) : (tree : Tree) → ∀ {cs : List Command} {e e' : Emitter},
    tree.Spells cs → Written S.module.constants e cs e' → e'.Within S.emitter →
    (∀ c ∈ cs, c.Known vars ∧ c.Emittable) → e.canFallThrough = true →
    ∀ {env : Env} {locals : Array Value}, env.Fills vars locals →
      Flows S vars e e' locals n (tree.eval S.module S.store n env)
  | .done, cs, e, e', hspells, hwritten, hw, hk, hlive, env, locals, hf => by
    obtain rfl := hspells
    cases hwritten
    exact ⟨.refl hf, fun _ _ => hlive⟩
  | .step st rest, cs, e, e', hspells, hwritten, hw, hk, hlive, env, locals, hf => by
    obtain ⟨r, rfl, hrest⟩ := hspells
    obtain ⟨⟨hknown, hemittable⟩, hk⟩ := List.forall_mem_cons.mp hk
    cases hwritten with
    | cons hr hwritten =>
      have hst := st.flows hslots hr (hwritten.within.trans hw) hknown hemittable hf hlive n
      exact hst.andThen fun env' locals' hf' hlive' =>
        Tree.flows n rest hrest hwritten hw hk hlive' hf'
  | .branch c body others rest, cs, e, e', hspells, hwritten, hw, hk, hlive, env, locals, hf => by
    obtain ⟨l, f, b, o, r, rfl, hbody, hothers, hrest⟩ := hspells
    obtain ⟨⟨⟨hleft, hright⟩, -⟩, hk⟩ := List.forall_mem_cons.mp hk
    cases hwritten with
    | cons hr hwritten =>
      obtain ⟨e₂, hwbody, hwritten⟩ := hwritten.append_inv
      obtain ⟨e₃, hwothers, hwrest⟩ := hwritten.append_inv
      have hw₃ := hwrest.within.trans hw
      have hw₂ := hwothers.within.trans hw₃
      obtain ⟨rfl, hs⟩ := Condition.runs_branches hr
      have hchain := Chain.flows n others hothers hwothers hw₃ fun c hc =>
        hk c (List.mem_append_right b (List.mem_append_left r hc))
      obtain ⟨target, htarget, hentry⟩ := hchain.entry
      have hbranch : Flows S vars e e₃ locals n (given (c.holds env) fun holds =>
          if holds then body.eval S.module S.store n env else
            others.eval S.module S.store n env) := by
        refine ⟨follows_condition (e := Command.prepare (.ifBegin c l f) e) hslots hf hleft hright hs
          (hwbody.within.trans hw₂) htarget (fun _ => ?_) fun _ => hentry env locals hf,
          fun _ _ => hchain.live⟩
        have ih := Tree.flows n body hbody hwbody hw₂ (fun c hc => hk c (List.mem_append_left _ hc))
          (canFallThrough_push (by cases c.comparison <;> rfl)) hf
        exact ih.follows.extend fun env' locals' hdone => hchain.exit (ih.live env' hdone) _
      exact hbranch.andThen fun env' locals' hf' hlive' => Tree.flows n rest hrest hwrest hw
        (fun c hc => hk c (List.mem_append_right b (List.mem_append_right o hc))) hlive' hf'
  | .loop c body rest, cs, e, e', hspells, hwritten, hw, hk, hlive, env, locals, hf => by
    obtain ⟨start, exit, b, r, rfl, hbody, hrest⟩ := hspells
    obtain ⟨⟨⟨hleft, hright⟩, -⟩, hk⟩ := List.forall_mem_cons.mp hk
    cases hwritten with
    | cons hr hwritten =>
      obtain ⟨e₂, hwbody, hwritten⟩ := hwritten.append_inv
      cases hwritten with
      | @cons _ e₃ _ _ _ hclose hwrest =>
        have hw₃ := hwrest.within.trans hw
        obtain ⟨hjump, hmark, rfl⟩ : ((Command.endWhile start exit).prepare e₂ |>.push
            (.jump start)).Within S.emitter ∧ S.emitter.position? exit = some e₃.offset ∧
              e₃ = ((Command.endWhile start exit).prepare e₂ |>.push (.jump start)).mark exit := by
          obtain ⟨hm, hnil⟩ := hclose.put_inv.mark_inv
          cases hnil
          exact ⟨(within_mark hm).trans hw₃, hw₃.position _ _ (position?_mark _ _), rfl⟩
        have hw₂ : e₂.Within S.emitter := Within.trans
          (within_push ((Command.endWhile start exit).prepare e₂) (.jump start)) hjump
        obtain ⟨hm, hr⟩ := hr.mark_inv
        have hwstart := hr.within.trans (hwbody.within.trans hw₂)
        obtain ⟨rfl, hs⟩ := Condition.runs_branches hr
        have hloop := follows_repeated hslots hleft hright hs (hwbody.within.trans hw₂) hjump
          (hwstart.position _ _ (position?_mark _ _)) hmark
          (fun env locals hf => (Tree.flows n body hbody hwbody hw₂
            (fun c hc => hk c (List.mem_append_left _ hc))
            (canFallThrough_push (by cases c.comparison <;> rfl)) hf).follows)
          (Nat.le_refl n) hf
        have hflows : Flows S vars e _ locals n _ := ⟨hloop, fun _ _ => canFallThrough_mark _ _⟩
        exact hflows.andThen fun env' locals' hf' hlive' => Tree.flows n rest hrest hwrest hw
          (fun c hc => hk c (List.mem_append_right b (.tail _ hc))) hlive' hf'

theorem Chain.flows (n : Nat) : (chain : Chain) → ∀ {l f : Label} {cs : List Command}
    {e e' : Emitter}, chain.Spells l f cs → Written S.module.constants e cs e' →
    e'.Within S.emitter → (∀ c ∈ cs, c.Known vars ∧ c.Emittable) →
    ChainFlows S vars e e' n chain l f
  | .none, l, f, cs, e, e', hspells, hwritten, hw, hk => by
    obtain rfl := hspells
    obtain ⟨-, hr⟩ := hwritten.single_inv.mark_inv
    obtain ⟨hm, hnil⟩ := hr.mark_inv
    cases hnil
    have hl := ((within_mark hm).trans hw).position _ _ (position?_mark _ _)
    exact ⟨hw.position _ _ (position?_mark _ _), canFallThrough_mark _ _,
      fun _ _ => .refl _, _, hl, fun env locals hf => .refl hf⟩
  | .otherwise body, l, f, cs, e, e', hspells, hwritten, hw, hk => by
    obtain ⟨b, rfl, hbody⟩ := hspells
    obtain ⟨-, hk⟩ := List.forall_mem_cons.mp hk
    cases hwritten with
    | cons hr hwritten =>
      obtain ⟨e₂, hwbody, hclose⟩ := hwritten.append_inv
      obtain ⟨hm, hnil⟩ := hclose.single_inv.mark_inv
      cases hnil
      obtain ⟨hml, hnil⟩ := hr.leave_inv.mark_inv
      cases hnil
      have hw₂ := (within_mark hm).trans hw
      have hfinal := hw.position _ _ (position?_mark _ _)
      have hw₁ := hwbody.within.trans hw₂
      refine ⟨hfinal, canFallThrough_mark _ _, fun hlive x =>
        reaches_final ((within_mark hml).trans hw₁) hfinal hlive x, _,
        hw₁.position _ _ (position?_mark _ _), fun env locals hf => ?_⟩
      exact (Tree.flows n body hbody hwbody hw₂
        (fun c hc => hk c (List.mem_append_left _ hc)) (canFallThrough_mark _ _) hf).follows
  | .elseIf c body others, l, f, cs, e, e', hspells, hwritten, hw, hk => by
    obtain ⟨l', b, o, rfl, hbody, hothers⟩ := hspells
    obtain ⟨⟨⟨hleft, hright⟩, -⟩, hk⟩ := List.forall_mem_cons.mp hk
    cases hwritten with
    | cons hr hwritten =>
      obtain ⟨e₂, hwbody, hwothers⟩ := hwritten.append_inv
      have hw₂ := hwothers.within.trans hw
      have hchain := Chain.flows n others hothers hwothers hw fun c hc =>
        hk c (List.mem_append_right b hc)
      obtain ⟨target, htarget, hentry⟩ := hchain.entry
      obtain ⟨hml, hr⟩ := hr.leave_inv.mark_inv
      have hw₁ := hr.within.trans (hwbody.within.trans hw₂)
      obtain ⟨rfl, hs⟩ := Condition.runs_branches hr
      refine ⟨hchain.final, hchain.live, fun hlive x =>
        reaches_final ((within_mark hml).trans hw₁) hchain.final hlive x, _,
        hw₁.position _ _ (position?_mark _ _), fun env locals hf => ?_⟩
      refine follows_condition hslots hf hleft hright hs (hwbody.within.trans hw₂) htarget
        (fun _ => ?_) fun _ => hentry env locals hf
      have ih := Tree.flows n body hbody hwbody hw₂
        (fun c hc => hk c (List.mem_append_left _ hc))
        (canFallThrough_push (by cases c.comparison <;> rfl)) hf
      exact ih.follows.extend fun env' locals' hdone => hchain.exit (ih.live env' hdone) _

end

end

end Bytesmith.Build
