import Bytesmith.Machine.Host
import Bytesmith.Proofs.Editing

namespace Bytesmith.Code

open Machine (Value Fault)

/-- Whether the comparison holds. Values that are unordered are neither less nor greater, nor equal. -/
def Comparison.holds (c : Comparison) (a b : Value) : Except Fault Bool :=
  let ordered (holds : Ordering → Bool) : Except Fault Bool := do
    return (← Machine.order (.branch c.failureTest) a b).any holds
  match c with
  | .equal => .ok (a.same b)
  | .notEqual => .ok (!a.same b)
  | .less => ordered (·.isLT)
  | .lessOrEqual => ordered (·.isLE)
  | .greater => ordered (·.isGT)
  | .greaterOrEqual => ordered (·.isGE)

theorem Comparison.test_failureTest (c : Comparison) (a b : Value) :
    Machine.test c.failureTest a b = (!·) <$> c.holds a b := by
  cases c with
  | equal => rfl
  | notEqual => exact congrArg Except.ok (Bool.not_not _).symm
  | _ => rfl

end Bytesmith.Code

namespace Bytesmith.Build

open Code
open Machine (Value Fault Store Halt)

/-- What variables hold, the latest assignment first. -/
abbrev Env := List (Variable × Value)

namespace Env

def read (env : Env) (v : Variable) : Value := (env.lookup v).getD .null

def write (env : Env) (v : Variable) (x : Value) : Env := (v, x) :: env

theorem read_write_self (env : Env) (v : Variable) (x : Value) : (env.write v x).read v = x := by
  rw [read, write, List.lookup_cons_self, Option.getD_some]

theorem read_write_ne (env : Env) {v w : Variable} (x : Value) (h : w ≠ v) :
    (env.write v x).read w = env.read w := by
  rw [read, write, List.lookup_cons, beq_eq_false_iff_ne.mpr h, read]

end Env

def Literal.value : Literal → Value
  | .null => .null
  | .bool b => .bool b
  | .i32 n => .i32 n
  | .i64 n => .i64 n
  | .f64 x => .f64 x
  | .string s => .string s
  | .enum _ _ n => .i32 n

namespace Variable

def value (env : Env) : Variable → Value
  | .constant literal => literal.value
  | v => env.read v

def widened (env : Env) (v : Variable) (target : StaticType) : Except Fault Value :=
  match v.ty.widening? target with
  | some w => Machine.widen w (v.value env)
  | none => .ok (v.value env)

end Variable

def Coercion.convert (m : Module) (s : Store) (x : Value) : Coercion → Except Fault Value
  | .none => .ok x
  | .widen w => Machine.widen w x
  | .box _ => .ok (.boxed x)
  | .unbox kind => Machine.unbox m s kind x
  | .cast tag => Machine.cast m s tag x

/-- Combines two operands of a type. What is not a number is a string. -/
def StaticType.combine (ty : StaticType) (op : Arithmetic) (a b : Value) : Except Fault Value :=
  match ty.numeric? with
  | some kind => Machine.arith kind op a b
  | none => Machine.concat a b

namespace Condition

def side (env : Env) (c : Condition) (v : Variable) : Except Fault Value :=
  match c.widenTo with
  | some target => v.widened env target
  | none => .ok (v.value env)

def holds (env : Env) (c : Condition) : Except Fault Bool := do
  c.comparison.holds (← c.side env c.left) (← c.side env c.right)

end Condition

inductive Statement
  | declare (v : Variable)
  | assign (target source : Variable) (coercion : Coercion)
  | arithmetic (op : Arithmetic) (left right : Variable) (ty : StaticType) (result : Variable)
  | ret (value : Option (Variable × Coercion)) (returnType : StaticType)

mutual

inductive Tree
  | done
  | step (st : Statement) (rest : Tree)
  | branch (c : Condition) (body : Tree) (others : Chain) (rest : Tree)
  | loop (c : Condition) (body rest : Tree)

/-- What comes behind the first branch of a conditional. -/
inductive Chain
  | none
  | otherwise (body : Tree)
  | elseIf (c : Condition) (body : Tree) (others : Chain)

end

inductive Progress
  | done (env : Env)
  | returned (v : Value)
  | faulted (e : Fault)
  | unfinished

namespace Progress

def andThen : Progress → (Env → Progress) → Progress
  | .done env, next => next env
  | .returned v, _ => .returned v
  | .faulted e, _ => .faulted e
  | .unfinished, _ => .unfinished

def given {α : Type} (x : Except Fault α) (next : α → Progress) : Progress :=
  match x with
  | .ok a => next a
  | .error e => .faulted e

end Progress

open Progress (given)

def Statement.perform (m : Module) (s : Store) (env : Env) : Statement → Progress
  | .declare _ => .done env
  | .assign target source coercion =>
    given (coercion.convert m s (source.value env)) fun x => .done (env.write target x)
  | .arithmetic op left right ty result =>
    given (do ty.combine op (← left.widened env ty) (← right.widened env ty)) fun x =>
      .done (env.write result x)
  | .ret none _ => .returned .null
  | .ret (some (v, coercion)) _ => given (coercion.convert m s (v.value env)) .returned

/-- Repeats as long as the condition holds. The condition is asked at most `n` times. -/
def repeated (condition : Env → Except Fault Bool) (body : Env → Progress) : Nat → Env → Progress
  | 0, _ => .unfinished
  | n + 1, env => given (condition env) fun holds =>
    if holds then (body env).andThen (repeated condition body n) else .done env

mutual

/-- Carries out statements. Each time a loop is come to, its condition is asked at most `n` times. -/
def Tree.eval (m : Module) (s : Store) (n : Nat) : Tree → Env → Progress
  | .done, env => .done env
  | .step st rest, env => (st.perform m s env).andThen fun env => rest.eval m s n env
  | .branch c body others rest, env =>
    (given (c.holds env) fun holds =>
      if holds then body.eval m s n env else others.eval m s n env).andThen fun env =>
        rest.eval m s n env
  | .loop c body rest, env =>
    (repeated (Condition.holds · c) (fun env => body.eval m s n env) n env).andThen fun env =>
      rest.eval m s n env

def Chain.eval (m : Module) (s : Store) (n : Nat) : Chain → Env → Progress
  | .none, env => .done env
  | .otherwise body, env => body.eval m s n env
  | .elseIf c body others, env => given (c.holds env) fun holds =>
    if holds then body.eval m s n env else others.eval m s n env

end

/-- What a body answers when it returns a type. One that comes to its end returns the default. -/
def Tree.answer (m : Module) (s : Store) (n : Nat) (tree : Tree) (ty : StaticType) (env : Env) :
    Except Halt Value :=
  match tree.eval m s n env with
  | .done _ => .ok (.default ty.valueKind)
  | .returned v => .ok v
  | .faulted e => .error (.fault e)
  | .unfinished => .error .outOfFuel

def Statement.command : Statement → Command
  | .declare v => .defineLocal v
  | .assign target source coercion => .assign target source coercion
  | .arithmetic op left right ty result => .arithmetic op left right ty result
  | .ret value returnType => .ret value returnType

mutual

def Tree.Spells : Tree → List Command → Prop
  | .done, cs => cs = []
  | .step st rest, cs => ∃ r, cs = st.command :: r ∧ rest.Spells r
  | .branch c body others rest, cs => ∃ l f b o r, cs = .ifBegin c l f :: (b ++ (o ++ r)) ∧
    body.Spells b ∧ others.Spells l f o ∧ rest.Spells r
  | .loop c body rest, cs => ∃ s e b r, cs = .whileBegin c s e :: (b ++ .endWhile s e :: r) ∧
    body.Spells b ∧ rest.Spells r

def Chain.Spells : Chain → Label → Label → List Command → Prop
  | .none, l, f, cs => cs = [.endIf (some l) f]
  | .otherwise body, l, f, cs => ∃ b, cs = .elseBegin l f :: (b ++ [.endIf none f]) ∧ body.Spells b
  | .elseIf c body others, l, f, cs => ∃ l' b o, cs = .elseIf c l l' f :: (b ++ o) ∧
    body.Spells b ∧ others.Spells l' f o

end

def Variable.isPlain : Variable → Bool
  | .slot _ _ _ _ | .constant _ => true
  | _ => false

def Command.isStructured : Command → Bool
  | .defineLocal _ | .elseBegin _ _ | .endIf _ _ | .endWhile _ _ => true
  | .arithmetic _ left right _ _ => left.isPlain && right.isPlain
  | .assign target source _ => target.isPlain && source.isPlain
  | .ifBegin c _ _ | .elseIf c _ _ _ | .whileBegin c _ _ => c.left.isPlain && c.right.isPlain
  | .ret value _ => value.all (·.1.isPlain)
  | _ => false

/-- Commands that open and close blocks one after the other. -/
inductive Nested : List Block → List Command → List Block → Prop
  | nil (blocks : List Block) : Nested blocks [] blocks
  | cons {c : Command} {cs : List Command} {blocks blocks' blocks'' : List Block}
      (h : c.Nests blocks blocks') (rest : Nested blocks' cs blocks'') :
      Nested blocks (c :: cs) blocks''

theorem Nested.concat {c : Command} {cs : List Command} {blocks blocks' blocks'' : List Block}
    (h : Nested blocks cs blocks') (hc : c.Nests blocks' blocks'') :
    Nested blocks (cs ++ [c]) blocks'' := by
  induction h with
  | nil blocks => exact .cons hc (.nil _)
  | cons h _ ih => exact .cons h (ih hc)

def BeginsTree (blocks : List Block) (cs : List Command) : Prop :=
  ∃ (tree : Tree) (spelled rest : List Command), cs = spelled ++ rest ∧ tree.Spells spelled ∧
    Nested blocks rest [] ∧ ∀ c ∈ rest.head?, c.outdents = true

def BeginsChain (l f : Label) (outer : List Block) (cs : List Command) : Prop :=
  ∃ (chain : Chain) (spelled rest : List Command), cs = spelled ++ rest ∧ chain.Spells l f spelled ∧
    Nested outer rest []

theorem Statement.exists_command {c : Command} (hs : c.isStructured = true)
    (hi : c.indents = false) (ho : c.outdents = false) : ∃ st : Statement, st.command = c := by
  cases c with
  | defineLocal v => exact ⟨.declare v, rfl⟩
  | assign target source coercion => exact ⟨.assign target source coercion, rfl⟩
  | arithmetic op left right ty result => exact ⟨.arithmetic op left right ty result, rfl⟩
  | ret value returnType => exact ⟨.ret value returnType, rfl⟩
  | ifBegin c l f | elseIf c p l f | elseBegin p f | whileBegin c s e => cases hi
  | endIf p f | endWhile s e => cases ho
  | _ => cases hs

theorem Nested.exists_head {b : Block} {outer : List Block} {cs : List Command}
    (h : Nested (b :: outer) cs []) (ho : ∀ c ∈ cs.head?, c.outdents = true) :
    ∃ c rest blocks, cs = c :: rest ∧ c.outdents = true ∧ c.Nests (b :: outer) blocks ∧
      Nested blocks rest [] := by
  cases h with
  | cons hc rest => exact ⟨_, _, _, rfl, ho _ rfl, hc, rest⟩

/-- Commands that close all blocks fall into trees and chains. The induction is on how many there
are, since what a block encloses is found before what comes behind it. -/
theorem begins_of_length_le (n : Nat) :
    (∀ blocks cs, cs.length ≤ n → (∀ c ∈ cs, c.isStructured = true) → Nested blocks cs [] →
      BeginsTree blocks cs) ∧
    ∀ l f outer cs, cs.length ≤ n → (∀ c ∈ cs, c.isStructured = true) →
      Nested (.conditional (some l) f :: outer) cs [] → (∀ c ∈ cs.head?, c.outdents = true) →
      BeginsChain l f outer cs := by
  induction n with
  | zero =>
    refine ⟨fun blocks cs hlength _ hnested => ?_, fun l f outer cs hlength _ hnested _ => ?_⟩
    · obtain rfl := List.length_eq_zero_iff.mp (Nat.le_zero.mp hlength)
      exact ⟨.done, [], [], rfl, rfl, hnested, by simp⟩
    · obtain rfl := List.length_eq_zero_iff.mp (Nat.le_zero.mp hlength)
      cases hnested
  | succ n ih =>
    obtain ⟨htree, hchain⟩ := ih
    refine ⟨fun blocks cs hlength hs hnested => ?_, fun l f outer cs hlength hs hnested ho => ?_⟩
    · cases hnested with
      | nil => exact ⟨.done, [], [], rfl, rfl, .nil _, by simp⟩
      | @cons c cs _ blocks' _ hc hnested =>
        have hlength' : cs.length ≤ n := Nat.le_of_succ_le_succ hlength
        obtain ⟨hstructured, hs⟩ := List.forall_mem_cons.mp hs
        cases hout : c.outdents with
        | true =>
          refine ⟨.done, [], c :: cs, rfl, rfl, .cons hc hnested, fun c' hc' => ?_⟩
          cases hc'
          exact hout
        | false =>
          obtain ⟨tree, b, rest, rfl, hspells, hrest, hhead⟩ := htree blocks' cs hlength' hs hnested
          rw [List.length_append] at hlength'
          have hsrest := fun c hc => hs c (List.mem_append_right b hc)
          cases hc with
          | plain hi ho =>
            obtain ⟨st, rfl⟩ := Statement.exists_command hstructured hi ho
            exact ⟨.step st tree, _ :: b, rest, rfl, ⟨b, rfl, hspells⟩, hrest, hhead⟩
          | ifBegin c l f =>
            obtain ⟨others, o, rest, rfl, hothers, hrest⟩ :=
              hchain l f blocks rest (by omega) hsrest hrest hhead
            rw [List.length_append] at hlength'
            obtain ⟨behind, r, rest, rfl, hbehind, hrest, hhead⟩ := htree blocks rest (by omega)
              (fun c hc => hsrest c (List.mem_append_right o hc)) hrest
            refine ⟨.branch c tree others behind, .ifBegin c l f :: (b ++ (o ++ r)), rest, by simp,
              ⟨l, f, b, o, r, rfl, hspells, hothers, hbehind⟩, hrest, hhead⟩
          | whileBegin c s e =>
            obtain ⟨close, rest, outer, rfl, hclose, hc, hrest⟩ := hrest.exists_head hhead
            cases hc with
            | endWhile =>
              rw [List.length_cons] at hlength'
              obtain ⟨behind, r, rest, rfl, hbehind, hrest, hhead⟩ := htree blocks rest (by omega)
                (fun c hc => hsrest c (.tail _ hc)) hrest
              exact ⟨.loop c tree behind, .whileBegin c s e :: (b ++ .endWhile s e :: r), rest,
                by simp, ⟨s, e, b, r, rfl, hspells, hbehind⟩, hrest, hhead⟩
            | plain hi ho =>
              rw [ho] at hclose
              cases hclose
            | ifBegin | whileBegin | tryBegin => cases hclose
          | tryBegin => cases hstructured
          | elseIf | elseBegin | endIf | endWhile | catchBegin | endTry => cases hout
    · obtain ⟨c, cs, blocks, rfl, hout, hc, hnested⟩ := hnested.exists_head ho
      have hlength' : cs.length ≤ n := Nat.le_of_succ_le_succ hlength
      obtain ⟨-, hcs⟩ := List.forall_mem_cons.mp hs
      cases hc with
      | endIf => exact ⟨.none, [_], cs, rfl, rfl, hnested⟩
      | elseIf c _ l' f =>
        obtain ⟨tree, b, rest, rfl, hspells, hrest, hhead⟩ := htree _ cs hlength' hcs hnested
        rw [List.length_append] at hlength'
        obtain ⟨others, o, rest, rfl, hothers, hrest⟩ := hchain l' f outer rest (by omega)
          (fun c hc => hcs c (List.mem_append_right b hc)) hrest hhead
        exact ⟨.elseIf c tree others, .elseIf c l l' f :: (b ++ o), rest, by simp,
          ⟨l', b, o, rfl, hspells, hothers⟩, hrest⟩
      | elseBegin =>
        obtain ⟨tree, b, rest, rfl, hspells, hrest, hhead⟩ := htree _ cs hlength' hcs hnested
        obtain ⟨close, rest, blocks, rfl, hclose, hc, hrest⟩ := hrest.exists_head hhead
        cases hc with
        | endIf =>
          exact ⟨.otherwise tree, .elseBegin l f :: (b ++ [.endIf none f]), rest, by simp,
            ⟨b, rfl, hspells⟩, hrest⟩
        | plain hi ho =>
          rw [ho] at hclose
          cases hclose
        | ifBegin | whileBegin | tryBegin => cases hclose
      | plain hi ho' =>
        rw [ho'] at hout
        cases hout
      | ifBegin | whileBegin | tryBegin => cases hout

theorem Nested.exists_tree {cs : List Command} (h : Nested [] cs [])
    (hs : ∀ c ∈ cs, c.isStructured = true) : ∃ tree : Tree, tree.Spells cs := by
  obtain ⟨tree, spelled, rest, rfl, hspells, hrest, hhead⟩ :=
    (begins_of_length_le cs.length).1 [] cs (Nat.le_refl _) hs h
  cases hrest with
  | nil =>
    rw [List.append_nil]
    exact ⟨tree, hspells⟩
  | cons hc rest =>
    -- nothing is open that a command could close
    have hout := hhead _ rfl
    cases hc with
    | plain hi ho =>
      rw [ho] at hout
      cases hout
    | ifBegin | whileBegin | tryBegin => cases hout

end Bytesmith.Build
